import ArtdaqMu2e.Generators.CRVNoRequestMode
import Mathlib.Data.List.Chain

/-!
# What a run without requests reads out

In no-request mode the number of a fragment is the window that was asked for, and its timestamp the window that came.
The next window asked for is the one after the maximum, so as long as the windows that come go up, numbers and
timestamps take turns: a fragment is numbered right after the timestamp of the one before (`Follows`).

The first window that does not go up makes a last fragment, of whose timestamp nothing is known, and a read without
data makes none. Both leave the receiver with its own request in the memory, where it reads nothing any more. So every
run is such a scan, whatever comes (`scans_run`), and no fragment is for a window that an earlier one was for or
brought.
-/

namespace ArtdaqMu2e

open Runs TopSet TimestampState

namespace CRVReceiver

/-- The window that came was not below the one asked for, and the next fragment is for the window after it. -/
def Follows (frag frag' : Fragment) : Prop :=
  frag.sequenceID ≤ frag.timestamp ∧ frag'.sequenceID = frag.timestamp + 1

/-- The fragments of a scan of the windows after `first`. -/
structure Scans (first : ℕ) (frags : List Fragment) : Prop where
  begins : ∀ frag ∈ frags.head?, frag.sequenceID = first + 1
  chain : frags.IsChain Follows

/-- The receiver is still reading: its maximum is the last window that came, and no id in the memory is above it. -/
structure Reading (first : ℕ) (st : CRVReceiver) : Prop where
  seen : ∀ id ∈ st.seenSequenceIds, id ≤ st.timestamps.highestTimestampSeen
  fits : st.timestamps.highestTimestampSeen + 1 < 2 ^ 64
  start : st.frags = [] → st.timestamps.highestTimestampSeen = first
  last : ∀ frag ∈ st.frags.getLast?, frag.sequenceID ≤ frag.timestamp ∧
    frag.timestamp = st.timestamps.highestTimestampSeen

/-- The fragments are a scan, and the receiver is still reading, or has its own request in the memory. -/
def Scanning (first : ℕ) (st : CRVReceiver) : Prop :=
  Scans first st.frags ∧ (Reading first st ∨ nextTag st ∈ st.seenSequenceIds)

section scan
variable {first : ℕ} {st : CRVReceiver}

theorem Reading.nextTag_eq (h : Reading first st) : nextTag st = st.timestamps.highestTimestampSeen + 1 :=
  u64_of_lt h.fits

theorem Reading.of_last (hseen : ∀ id ∈ st.seenSequenceIds, id ≤ st.timestamps.highestTimestampSeen)
    (hlt : st.timestamps.highestTimestampSeen < 2 ^ 48) {frags : List Fragment} {frag : Fragment}
    (hfrags : st.frags = frags ++ [frag]) (hle : frag.sequenceID ≤ frag.timestamp)
    (htime : frag.timestamp = st.timestamps.highestTimestampSeen) : Reading first st where
  seen := hseen
  fits := by omega
  start hnil := absurd (hfrags.symm.trans hnil) (by simp)
  last last hlast := by
    obtain rfl : frag = last := by simpa [hfrags] using hlast
    exact ⟨hle, htime⟩

theorem Scans.concat {frags : List Fragment} (h : Scans first frags) {frag : Fragment} {highest : ℕ}
    (hid : frag.sequenceID = highest + 1) (hstart : frags = [] → highest = first)
    (hlast : ∀ last ∈ frags.getLast?, last.sequenceID ≤ last.timestamp ∧ last.timestamp = highest) :
    Scans first (frags ++ [frag]) := by
  constructor
  · intro head hhead
    cases frags with
    | nil =>
      obtain rfl : frag = head := by simpa using hhead
      rw [hid, hstart rfl]
    | cons other frags => exact h.begins head hhead
  · refine h.chain.append (List.isChain_singleton frag) fun last hmem next hnext => ?_
    obtain rfl : frag = next := by simpa using hnext
    obtain ⟨hle, htime⟩ := hlast last hmem
    exact ⟨hle, by rw [hid, htime]⟩

theorem Scans.increasing {frags : List Fragment} (h : Scans first frags) :
    frags.Pairwise fun frag frag' => frag.sequenceID ≤ frag.timestamp ∧ frag.timestamp < frag'.sequenceID := by
  have htrans : IsTrans Fragment fun frag frag' =>
      frag.sequenceID ≤ frag.timestamp ∧ frag.timestamp < frag'.sequenceID :=
    ⟨fun _ _ _ h h' => ⟨h.1, h.2.trans_le (h'.1.trans h'.2.le)⟩⟩
  refine List.isChain_iff_pairwise.mp (h.chain.imp fun frag frag' hnext => ⟨hnext.1, ?_⟩)
  rw [hnext.2]
  exact Nat.lt_succ_self _

end scan

/-! ### A call -/

section call
variable {layout : FragmentLayout} {cfg : CRVConfig} {call : CRVCall} {first : ℕ} {st : CRVReceiver}

theorem Reading.seen_readRequest (h : Reading first st) (cfg : CRVConfig) (reads : ℕ → Read DtcEvent) :
    let seen := (readRequest layout cfg reads st (nextTag st, nextTag st)).seenSequenceIds
    nextTag st ∈ seen ∧ ∀ id ∈ seen, id ≤ nextTag st := by
  have hle : ∀ id ∈ st.seenSequenceIds, id ≤ nextTag st := by
    intro id hid
    rw [h.nextTag_eq]
    exact (h.seen id hid).trans (Nat.le_succ _)
  refine ⟨mem_push_of_forall_le (by decide) hle, fun id hid => ?_⟩
  rcases Finset.mem_insert.mp (push_subset hid) with rfl | hid
  · exact le_refl _
  · exact hle id hid

theorem Reading.frags_readRequest (h : Reading first st) (layout : FragmentLayout) (cfg : CRVConfig)
    {reads : ℕ → Read DtcEvent} {evt : DtcEvent} {evts : List DtcEvent}
    (hread : (reads (nextTag st)).delivered = evt :: evts) :
    ∃ frag : Fragment, (readRequest layout cfg reads st (nextTag st, nextTag st)).frags = st.frags ++ [frag] ∧
      frag.sequenceID = st.timestamps.highestTimestampSeen + 1 ∧
      frag.timestamp = st.timestamps.stamp evt.eventWindowTag := by
  have hid : nextTag st ≠ 0 := by
    rw [h.nextTag_eq]
    exact Nat.succ_ne_zero _
  refine ⟨readFragment layout cfg.toReceiverConfig (reads (nextTag st)) (nextTag st) st.toReceiver evt evts, ?_, ?_, ?_⟩
  · rw [readRequest, getNextDTCFragment_of_cons hread]
  · rw [readFragment, sequenceID_packFragment, if_neg hid, h.nextTag_eq]
  · exact timestamp_packFragment _ _ _ _ _ _

theorem Reading.readRequest (h : Reading first st) (hscans : Scans first st.frags) (cfg : CRVConfig)
    {reads : ℕ → Read DtcEvent} (hfit : ∀ evt ∈ (reads (nextTag st)).delivered, evt.eventWindowTag < 2 ^ 48) :
    Scanning first (CRVReceiver.readRequest layout cfg reads st (nextTag st, nextTag st)) := by
  set st' := CRVReceiver.readRequest layout cfg reads st (nextTag st, nextTag st) with hst'
  obtain ⟨hmem, hle⟩ : nextTag st ∈ st'.seenSequenceIds ∧ ∀ id ∈ st'.seenSequenceIds, id ≤ nextTag st :=
    h.seen_readRequest cfg reads
  cases hread : (reads (nextTag st)).delivered with
  | nil =>
    have hnext : nextTag st' = nextTag st := nextTag_readRequest_of_le layout cfg reads _ (by simp [hread])
    have hfrags : st'.frags = st.frags := by
      rw [hst', CRVReceiver.readRequest, getNextDTCFragment_of_nil hread]
    rw [Scanning, hfrags, hnext]
    exact ⟨hscans, Or.inr hmem⟩
  | cons evt evts =>
    obtain ⟨frag, hfrags, hid, htime⟩ := h.frags_readRequest layout cfg hread
    have hfrags : st'.frags = st.frags ++ [frag] := hfrags
    refine ⟨hfrags ▸ hscans.concat hid h.start h.last, ?_⟩
    rcases Nat.lt_or_ge st.timestamps.highestTimestampSeen evt.eventWindowTag with hgt | hold
    · have hhighest : st'.timestamps.highestTimestampSeen = evt.eventWindowTag := by
        rw [highest_readRequest, hread]
        exact max_eq_right hgt.le
      rw [stamp_of_gt hgt] at htime
      rw [h.nextTag_eq] at hle
      exact Or.inl (.of_last (fun id hid => hhighest ▸ (hle id hid).trans hgt)
        (hhighest ▸ hfit evt (by rw [hread]; exact List.mem_cons_self)) hfrags (by rw [hid, htime]; exact hgt)
        (htime.trans hhighest.symm))
    · right
      have hnext : nextTag st' = nextTag st :=
        nextTag_readRequest_of_le layout cfg reads _ (by simpa [hread] using hold)
      rw [hnext]
      exact hmem

theorem scanning_step (hmode : cfg.noRequestMode = true) (hfit : TagsFit call) (h : Scanning first st) :
    Scanning first (step layout cfg st call) := by
  obtain ⟨hscans, hstate⟩ := h
  by_cases hnone : call.shouldStop = true ∨ nextTag st ∈ st.seenSequenceIds
  · rw [step_of_seen layout hmode hnone]
    exact ⟨hscans, hstate⟩
  · obtain ⟨hstop, hnew⟩ := not_or.mp hnone
    rw [step_of_notMem layout hmode (by simpa using hstop) hnew]
    exact (hstate.resolve_right hnew).readRequest hscans cfg (hfit (nextTag st))

end call

/-- **Every run without requests is a scan**, whatever its reads deliver: the first fragment is for the window after the
first timestamp, each further one for the window right after the one that came before. Every fragment but the last has a
timestamp that is not below its number, and below the numbers of all later ones. -/
theorem scans_run (layout : FragmentLayout) {cfg : CRVConfig} (hmode : cfg.noRequestMode = true)
    (hfirst : cfg.noRequestModeFirstTimestamp + 1 < 2 ^ 64) {calls : List CRVCall}
    (hfit : ∀ call ∈ calls, TagsFit call) :
    let frags := (run (step layout cfg) (init cfg) calls).frags
    Scans cfg.noRequestModeFirstTimestamp frags ∧
      frags.Pairwise fun frag frag' => frag.sequenceID ≤ frag.timestamp ∧ frag.timestamp < frag'.sequenceID := by
  intro frags
  have hstart : Reading cfg.noRequestModeFirstTimestamp (init cfg) :=
    ⟨by simp [init], hfirst, fun _ => rfl, by simp [init, Receiver.init]⟩
  have hinit : Scanning cfg.noRequestModeFirstTimestamp (init cfg) :=
    ⟨⟨by simp [init, Receiver.init], by simp [init, Receiver.init]⟩, Or.inl hstart⟩
  have hscanning : Scanning cfg.noRequestModeFirstTimestamp (run (step layout cfg) (init cfg) calls) :=
    run_of_steps (C := fun _ call => TagsFit call) (fun _ _ h hcall => scanning_step hmode hcall h) hinit
      (Steps.of_forall (fun call hcall _ => hfit call hcall) _)
  exact ⟨hscanning.1, hscanning.1.increasing⟩

/-- The windows 1 and 4 are asked for and 3 and 4 come; then 5 is asked for and 4 comes again, and 9 is not read. -/
theorem scans_run_four :
    let calls := [deliver [3], deliver [4, 2], deliver [4], deliver [9]]
    let frags := (run (step .zeroTerminated noRequestConfig) (init noRequestConfig) calls).frags
    frags.map stampOf = [(1, 3), (4, 4), (5, 4)] ∧ Scans 0 frags ∧
      frags.Pairwise fun frag frag' => frag.sequenceID ≤ frag.timestamp ∧ frag.timestamp < frag'.sequenceID := by
  refine ⟨by decide, scans_run .zeroTerminated rfl
    (show noRequestConfig.noRequestModeFirstTimestamp + 1 < 2 ^ 64 by decide) ?_⟩
  simp only [List.forall_mem_cons]
  exact ⟨deliver_fits (by decide), deliver_fits (by decide), deliver_fits (by decide), deliver_fits (by decide),
    by simp⟩

end CRVReceiver

end ArtdaqMu2e
