import ArtdaqMu2e.Generators.CRVDedup

/-!
# Lost requests of the CRV receiver

The check of a request batch marks an id as seen before the DTC is read for it. If the read delivers nothing, the
mark stays, and the request is skipped when it is sent again. `Answered` says that this has not happened: every
id in `seen_sequence_ids_` has its fragment.

One call keeps `Answered` exactly if every read of it that delivers nothing is one that does no harm
(`answered_step_iff`): its id has a fragment from before its mark was evicted, or so many larger ids are marked
that its mark is gone when the call ends. By `always_iff_steps` this decides whole runs (`answered_iff`).
-/

namespace ArtdaqMu2e

open Runs TopSet

namespace CRVReceiver

/-- Every id in the memory has its fragment. -/
def Answered (st : CRVReceiver) : Prop :=
  ∀ id ∈ st.seenSequenceIds, id ∈ st.frags.map (·.sequenceID)

/-- The ids that are in the memory or go into it during the call. -/
def marked (cfg : CRVConfig) (call : CRVCall) (st : CRVReceiver) : Finset ℕ :=
  st.seenSequenceIds ∪ ((toRead cfg call st).map (·.1)).toFinset

/-- No read of the call loses its request: if it delivers nothing, the id had its fragment before, or 1000 larger
ids push its mark out. -/
def LosesNone (cfg : CRVConfig) (st : CRVReceiver) (call : CRVCall) : Prop :=
  ∀ req ∈ toRead cfg call st, (call.reads req.1).delivered = [] →
    req.1 ∈ st.frags.map (·.sequenceID) ∨
      sequenceIdListMaxSize ≤ ((marked cfg call st).filter (req.1 < ·)).card

/-- The requests of a call have sequence ids of their own. -/
def NonzeroIds (call : CRVCall) : Prop :=
  ∀ batch, call.requests = some batch → ∀ req ∈ batch.entries, req.1 ≠ 0

section call
variable {layout : FragmentLayout} {cfg : CRVConfig} {call : CRVCall} {st : CRVReceiver}

/-- The memory after a call: of the ids marked, those with fewer than 1000 larger ones. -/
theorem mem_seen_step_iff (hcard : st.seenSequenceIds.card ≤ sequenceIdListMaxSize) (id : ℕ) :
    id ∈ (step layout cfg st call).seenSequenceIds ↔
      id ∈ marked cfg call st ∧ ((marked cfg call st).filter (id < ·)).card < sequenceIdListMaxSize := by
  have htop := (IsTop.of_card_le hcard).pushAll ((toRead cfg call st).map (·.1))
  rw [step, (getNext_eq_run layout cfg st call).1, (run_readRequest_seen layout cfg _ st _).1]
  exact htop.mem_iff

theorem served_step (layout : FragmentLayout) (hmode : cfg.noRequestMode = false) (hids : NonzeroIds call)
    (st : CRVReceiver) : Served call.reads (toRead cfg call st) st (step layout cfg st call) := by
  rw [step, (getNext_eq_run layout cfg st call).1]
  refine served_run layout cfg call.reads st fun req hreq => ?_
  obtain ⟨batch, hbatch, hmem, -⟩ := mem_batch_of_mem_toRead hmode hreq
  exact hids batch hbatch req hmem

theorem mem_ids_step_iff (hmode : cfg.noRequestMode = false) (hids : NonzeroIds call) (id : ℕ) :
    id ∈ (step layout cfg st call).frags.map (·.sequenceID) ↔
      id ∈ st.frags.map (·.sequenceID) ∨
        id ∈ (toRead cfg call st).map (·.1) ∧ (call.reads id).delivered ≠ [] := by
  obtain ⟨new, hfrags, hnew, -⟩ := (served_step layout hmode hids st).appends
  rw [hfrags, List.map_append, List.mem_append, hnew]
  refine or_congr Iff.rfl ?_
  simp only [answered, List.mem_map, List.mem_filter]
  constructor
  · rintro ⟨req, ⟨hreq, hread⟩, rfl⟩
    exact ⟨⟨req, hreq, rfl⟩, by simpa using hread⟩
  · rintro ⟨⟨req, hreq, rfl⟩, hread⟩
    exact ⟨req, ⟨hreq, by simpa using hread⟩, rfl⟩

theorem answered_step_iff (hmode : cfg.noRequestMode = false) (hids : NonzeroIds call)
    (hcard : st.seenSequenceIds.card ≤ sequenceIdListMaxSize) (hans : Answered st) :
    Answered (step layout cfg st call) ↔ LosesNone cfg st call := by
  constructor
  · intro h req hreq hread
    by_cases hout : sequenceIdListMaxSize ≤ ((marked cfg call st).filter (req.1 < ·)).card
    · exact Or.inr hout
    have hid : req.1 ∈ (toRead cfg call st).map (·.1) := List.mem_map_of_mem hreq
    have hmarked : req.1 ∈ marked cfg call st := by
      rw [marked, Finset.mem_union, List.mem_toFinset]
      exact Or.inr hid
    have hfrag := h req.1 ((mem_seen_step_iff hcard req.1).mpr ⟨hmarked, Nat.not_le.mp hout⟩)
    rcases (mem_ids_step_iff hmode hids req.1).mp hfrag with hold | ⟨-, hdata⟩
    · exact Or.inl hold
    · exact absurd hread hdata
  · intro h id hid
    obtain ⟨hmarked, hlt⟩ := (mem_seen_step_iff hcard id).mp hid
    rw [mem_ids_step_iff hmode hids]
    rw [marked, Finset.mem_union, List.mem_toFinset] at hmarked
    rcases hmarked with hseen | hread
    · exact Or.inl (hans id hseen)
    by_cases hdata : (call.reads id).delivered = []
    · obtain ⟨req, hreq, rfl⟩ := List.mem_map.mp hread
      rcases h req hreq hdata with hold | hout
      · exact Or.inl hold
      · omega
    · exact Or.inr ⟨hread, hdata⟩

end call

/-- **No request is lost exactly if no call loses one.** In request mode, every id in the memory has its fragment
after every call of a run if and only if every read of the run that delivers nothing is harmless. -/
theorem answered_iff (layout : FragmentLayout) {cfg : CRVConfig} (hmode : cfg.noRequestMode = false)
    {calls : List CRVCall} (hids : ∀ call ∈ calls, NonzeroIds call) :
    Always (step layout cfg) Answered (init cfg) calls ↔
      Steps (step layout cfg) (LosesNone cfg) (init cfg) calls := by
  refine always_iff_steps (V := NonzeroIds)
    (I := fun st => st.seenSequenceIds.card ≤ sequenceIdListMaxSize) (fun st call _ h => ?_)
    (fun st call hcall hcard hans => answered_step_iff hmode hcall hcard hans) ?_ ?_ hids
  · exact step_invariant layout cfg st (fun _ _ _ h _ => card_push_le h) call h
  · exact Nat.zero_le _
  · intro id hid
    simp [init] at hid

/-- Real hardware: the mode is `DTC_SimMode_Disabled`. -/
def hardwareConfig : CRVConfig := ⟨⟨0, .disabled, false, 0, 0, 1⟩, false, 0⟩

/-- A call with one request, at timestamp 5, and the read for it. -/
def callFor (id : ℕ) (read : Read DtcEvent) : CRVCall :=
  ⟨false, some ⟨[(id, 5)], by simp⟩, fun _ => read⟩

theorem nonzeroIds_callFor {id : ℕ} (hid : id ≠ 0) (read : Read DtcEvent) : NonzeroIds (callFor id read) := by
  intro batch hbatch req hreq
  rw [← Option.some.inj hbatch] at hreq
  rw [List.mem_singleton.mp hreq]
  exact hid

/-- A read that delivers keeps its request; one that fails loses it. -/
theorem answered_iff_of_one :
    (Always (step .zeroTerminated hardwareConfig) Answered (init hardwareConfig) [callFor 1 (eventFor 5)] ↔
        Steps (step .zeroTerminated hardwareConfig) (LosesNone hardwareConfig) (init hardwareConfig)
          [callFor 1 (eventFor 5)]) ∧
      ¬ Always (step .zeroTerminated hardwareConfig) Answered (init hardwareConfig)
        [callFor 1 (eventFor 5), callFor 2 Read.failing] := by
  constructor
  · refine answered_iff .zeroTerminated rfl fun call hcall => ?_
    rw [List.mem_singleton.mp hcall]
    exact nonzeroIds_callFor (by decide) _
  · have hids : ∀ call ∈ [callFor 1 (eventFor 5), callFor 2 Read.failing], NonzeroIds call := by
      simp [nonzeroIds_callFor]
    rw [answered_iff .zeroTerminated rfl hids]
    rintro ⟨-, hlost, -⟩
    have hread : (2, 5) ∈ toRead hardwareConfig (callFor 2 Read.failing)
        (step .zeroTerminated hardwareConfig (init hardwareConfig) (callFor 1 (eventFor 5))) := by decide
    have hkept := hlost (2, 5) hread rfl
    revert hkept
    decide

/-- A request whose read delivers nothing is skipped when it is sent again, with data this time. -/
theorem request_lost :
    let calls := [callFor 1 Read.failing, callFor 1 (eventFor 5)]
    let st := run (step .zeroTerminated hardwareConfig) (init hardwareConfig) calls
    (∀ call ∈ calls, NonzeroIds call) ∧ st.seenSequenceIds = {1} ∧ st.requested = [(1, 5)] ∧
      st.frags.map (·.sequenceID) = [] ∧ ¬ Answered st := by
  refine ⟨?_, by decide, by decide, by decide, ?_⟩
  · simp [nonzeroIds_callFor]
  · intro h
    have hfrag := h 1 (by decide)
    revert hfrag
    decide

end CRVReceiver

end ArtdaqMu2e
