import ArtdaqMu2e.Generators.Mu2eEventReceiverBase

/-!
# Runs of reads, and playback

A run of `getNextDTCFragment` calls on one receiver. The timestamps of the fragments it appends are what the
timestamp members make of the tags of the events read (`run_readStep`), whatever the sizes of the reads, their
arguments and the failed reads in between.

For a list of events that is played back one event a read, this decides whether the timestamps are unique:
`timestamp_loops_` is there to make them so, but it still is 0 (or 1, if the list starts with a tag 0) when the
second pass begins, so the second pass repeats a timestamp of the first one at once.
-/

namespace ArtdaqMu2e

open Runs

/-- One call of `getNextDTCFragment`, with what happens during it. -/
structure ReadCall where
  read : Read DtcEvent
  tsIn : ℕ
  seqIn : ℕ

def readStep (layout : FragmentLayout) (cfg : ReceiverConfig) (st : Receiver) (call : ReadCall) : Receiver :=
  (getNextDTCFragment layout cfg call.read call.tsIn call.seqIn st).2

/-- The tag of the first event of each read that delivers something. -/
def headTags (calls : List ReadCall) : List ℕ :=
  calls.filterMap fun call => call.read.delivered.head?.map (·.eventWindowTag)

variable (layout : FragmentLayout) (cfg : ReceiverConfig)

theorem run_readStep (st : Receiver) (calls : List ReadCall) :
    (run (readStep layout cfg) st calls).frags.map (·.timestamp) =
        st.frags.map (·.timestamp) ++ st.timestamps.stamps (headTags calls) ∧
      (run (readStep layout cfg) st calls).timestamps = st.timestamps.after (headTags calls) ∧
      (run (readStep layout cfg) st calls).evCounter = st.evCounter + (headTags calls).length := by
  induction calls generalizing st with
  | nil => simp [headTags, TimestampState.stamps, TimestampState.after]
  | cons call calls ih =>
    obtain ⟨htimes, hstate, hcount⟩ := ih (readStep layout cfg st call)
    rw [run_cons, htimes, hstate, hcount]
    cases hread : call.read.delivered with
    | nil => simp [readStep, getNextDTCFragment_of_nil hread, headTags, hread]
    | cons evt evts =>
      have htags : headTags (call :: calls) = evt.eventWindowTag :: headTags calls := by
        simp [headTags, hread]
      rw [htags, readStep, getNextDTCFragment_of_cons hread]
      refine ⟨?_, rfl, ?_⟩
      · simp [readFragment, TimestampState.stamps]
      · simp only [List.length_cons]
        omega

theorem headTags_of_single {tags : List ℕ} {calls : List ReadCall}
    (h : calls.map (fun call => call.read.delivered.map (·.eventWindowTag)) = tags.map ([·])) :
    headTags calls = tags := by
  have hmap : headTags calls =
      (calls.map fun call => call.read.delivered.map (·.eventWindowTag)).filterMap List.head? := by
    simp [headTags, List.filterMap_map, List.head?_map]
  rw [hmap, h]
  simp [List.filterMap_map, Function.comp_def]

/-- **Playback timestamps are unique only without playback**: for an increasing list of tags read over and over
by a new receiver, one event a read, the timestamps are pairwise distinct exactly if it is read at most once. -/
theorem playback_timestamps_nodup (pass : List ℕ) (hne : pass ≠ []) (hinc : pass.Pairwise (· < ·))
    (hbound : ∀ tag ∈ pass, tag < 2 ^ 48) (passes : ℕ) {calls : List ReadCall}
    (hcalls : calls.map (fun call => call.read.delivered.map (·.eventWindowTag)) =
      (TimestampState.playback pass passes).map ([·])) :
    ((run (readStep layout cfg) Receiver.init calls).frags.map (·.timestamp)).Nodup ↔ passes ≤ 1 := by
  rw [(run_readStep layout cfg Receiver.init calls).1, headTags_of_single hcalls]
  exact TimestampState.nodup_stamps_playback hne hinc hbound passes

/-- Two events, tags 5 and 9, read twice. -/
def playbackCalls : List ReadCall :=
  [⟨5, [1]⟩, ⟨9, [2]⟩, ⟨5, [1]⟩, ⟨9, [2]⟩].map fun evt => ⟨Read.ofEvents [evt], 0, 0⟩

def playbackConfig : ReceiverConfig := ⟨0, .simulated, false, 16, 0, 1⟩

theorem playback_timestamps_nodup_two :
    (([5, 9] : List ℕ) ≠ [] ∧ ([5, 9] : List ℕ).Pairwise (· < ·) ∧ ∀ tag ∈ ([5, 9] : List ℕ), tag < 2 ^ 48) ∧
      (((run (readStep .zeroTerminated playbackConfig) Receiver.init playbackCalls).frags.map
        (·.timestamp)).Nodup ↔ 2 ≤ 1) :=
  ⟨by decide, playback_timestamps_nodup .zeroTerminated playbackConfig [5, 9] (by decide) (by decide)
    (by decide) 2 (by decide)⟩

/-- The second pass gets the timestamps of the first one. -/
theorem playback_timestamps_repeat :
    playbackCalls.map (fun call => call.read.delivered.map (·.eventWindowTag)) =
        (TimestampState.playback [5, 9] 2).map ([·]) ∧
      (run (readStep .zeroTerminated playbackConfig) Receiver.init playbackCalls).frags.map (·.timestamp) =
        [5, 9, 5, 9] ∧
      ¬ ((run (readStep .zeroTerminated playbackConfig) Receiver.init playbackCalls).frags.map
        (·.timestamp)).Nodup := by
  decide

end ArtdaqMu2e
