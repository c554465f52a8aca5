import ArtdaqMu2e.Generators.CRVReceiver
import ArtdaqMu2e.Generators.Playback

/-!
# Timestamps without playback

Requests may be answered in any order, so the tags that a CRV receiver reads need not increase. As long as no tag
is read twice there is no playback, and every fragment should have the tag of its event as its timestamp. But
`highest_timestamp_seen_` is a number before any tag was read, and a tag that meets this number is taken for the end
of a pass: if it comes before all larger ones, every later tag below the maximum is shifted.
-/

namespace ArtdaqMu2e

open Runs TimestampState

namespace CRVReceiver

/-- **Distinct tags are their own timestamps** for a new receiver, one event a read, exactly if from the first
timestamp of the configuration on, where it is met by tags not yet above it, the tags increase. -/
theorem timestamps_eq_tags_iff (layout : FragmentLayout) (cfg : CRVConfig)
    (hfirst : cfg.noRequestModeFirstTimestamp < 2 ^ 64) {tags : List ℕ} (hnodup : tags.Nodup)
    (hbound : ∀ tag ∈ tags, tag < 2 ^ 48) {calls : List ReadCall}
    (hcalls : calls.map (fun call => call.read.delivered.map (·.eventWindowTag)) = tags.map ([·])) :
    (run (readStep layout cfg.toReceiverConfig) (init cfg).toReceiver calls).frags.map (·.timestamp) = tags ↔
      MetInOrder cfg.noRequestModeFirstTimestamp tags := by
  have hfits : ∀ tag ∈ tags, tag < 2 ^ 64 := fun tag htag => (hbound tag htag).trans (by decide)
  rw [(run_readStep layout cfg.toReceiverConfig (init cfg).toReceiver calls).1, headTags_of_single hcalls]
  have hiff : (init cfg).timestamps.stamps tags = tags ↔ MetInOrder cfg.noRequestModeFirstTimestamp tags :=
    stamps_eq_self_iff rfl hfirst hnodup hfits
  exact hiff

/-- Request mode, with no first timestamp configured. -/
def requestModeConfig : CRVConfig := ⟨⟨0, .disabled, false, 0, 0, 1⟩, false, 0⟩

/-- One event a read, with the given tags. -/
def readsOf (tags : List ℕ) : List ReadCall := tags.map fun tag => ⟨Read.ofEvents [⟨tag, [7]⟩], tag, tag + 1⟩

theorem timestamps_eq_tags_iff_of_three :
    (run (readStep .zeroTerminated requestModeConfig.toReceiverConfig) (init requestModeConfig).toReceiver
      (readsOf [4, 9, 0])).frags.map (·.timestamp) = [4, 9, 0] ↔ MetInOrder 0 [4, 9, 0] :=
  timestamps_eq_tags_iff .zeroTerminated requestModeConfig (by decide) (by decide) (by decide) (by decide)

/-- The tag 0 is read first and taken for the end of a pass, so that 5 is shifted by the maximum 9. -/
theorem timestamps_shift_distinct_tag :
    ([0, 9, 5] : List ℕ).Nodup ∧
      (readsOf [0, 9, 5]).map (fun call => call.read.delivered.map (·.eventWindowTag)) = [0, 9, 5].map ([·]) ∧
      (run (readStep .zeroTerminated requestModeConfig.toReceiverConfig) (init requestModeConfig).toReceiver
        (readsOf [0, 9, 5])).frags.map (·.timestamp) = [0, 9, 14] ∧
      (run (readStep .zeroTerminated requestModeConfig.toReceiverConfig) (init requestModeConfig).toReceiver
        (readsOf [0, 9, 5])).frags.map (·.timestamp) ≠ [0, 9, 5] := by
  decide

end CRVReceiver

end ArtdaqMu2e
