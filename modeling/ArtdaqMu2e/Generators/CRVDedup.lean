import ArtdaqMu2e.Generators.CRVReceiver
import ArtdaqMu2e.Lib.Lists

/-!
# The request memory of the CRV receiver

`seen_sequence_ids_` is a memory of bounded size for the ids whose requests were passed on to the DTC. Over the
whole life of a receiver, runs stopped and started in between included, it holds the 1000 largest of these ids
(`memory_spec`): the eviction takes the smallest id, not the oldest one, and an id that comes back after it was
evicted is evicted again at once.

A call that is not stopping and whose reads all deliver something answers its batch exactly (`getNext_answers`):
the requests not in the memory when the call began, in ascending order, one fragment for each.
-/

namespace ArtdaqMu2e

open Runs TopSet

namespace CRVReceiver

/-! ### What the memory holds -/

/-- What is done to a receiver between its construction and its end. -/
inductive Op where
  | getNext (call : CRVCall)
  | stop
  | startCmd

def opStep (layout : FragmentLayout) (cfg : CRVConfig) (st : CRVReceiver) : Op → CRVReceiver
  | .getNext call => st.step layout cfg call
  | .stop => st.stop
  | .startCmd => st.startCmd cfg

/-- The ids that passed the check, in the order in which they did. -/
def passed (st : CRVReceiver) : List ℕ := st.requested.map (·.1)

/-- Wherever an id of the list was there before, at least 1000 distinct larger ids were there before it. -/
def RepeatsOutranked (ids : List ℕ) : Prop :=
  ∀ before id after, ids = before ++ id :: after → id ∈ before →
    sequenceIdListMaxSize ≤ (before.toFinset.filter (id < ·)).card

theorem RepeatsOutranked.append {ids : List ℕ} {id : ℕ} (h : RepeatsOutranked ids)
    (hid : id ∈ ids → sequenceIdListMaxSize ≤ (ids.toFinset.filter (id < ·)).card) :
    RepeatsOutranked (ids ++ [id]) := by
  intro before id' after heq hmem
  rcases Lists.snoc_eq_append_cons heq with ⟨-, rfl, rfl⟩ | ⟨rest, -, hids⟩
  · exact hid hmem
  · exact h before id' rest hids hmem

structure Memory (st : CRVReceiver) : Prop where
  isTop : IsTop sequenceIdListMaxSize st.passed.toFinset st.seenSequenceIds
  repeats : RepeatsOutranked st.passed

theorem memory_readRequest {layout : FragmentLayout} {cfg : CRVConfig} (reads : ℕ → Read DtcEvent)
    (st : CRVReceiver) (req : ℕ × ℕ) (h : Memory st) (hpass : req.1 ∉ st.seenSequenceIds) :
    Memory (readRequest layout cfg reads st req) := by
  have hpassed : (readRequest layout cfg reads st req).passed = st.passed ++ [req.1] := by
    simp [passed, readRequest, markSeen]
  refine ⟨?_, ?_⟩
  · have hinsert : (st.passed ++ [req.1]).toFinset = insert req.1 st.passed.toFinset := by
      ext id
      simp
    rw [hpassed, hinsert]
    exact h.isTop.push req.1
  · rw [hpassed]
    refine h.repeats.append fun hmem => ?_
    -- it was in the memory once; if it is no longer, enough larger ones came
    by_contra hlt
    exact hpass (h.isTop.mem_iff.mpr ⟨List.mem_toFinset.mpr hmem, not_le.mp hlt⟩)

theorem memory_init (cfg : CRVConfig) : Memory (init cfg) := by
  refine ⟨IsTop.empty _, ?_⟩
  intro before id after heq
  simp [passed, init] at heq

/-- **The memory of the check is exact**: at any time in the life of a receiver it is the set of the 1000 largest
ids that passed the check so far (all of them, if there were no more), and an id passes the check again only after
1000 distinct larger ids have passed it. -/
theorem memory_spec (layout : FragmentLayout) (cfg : CRVConfig) (ops : List Op) :
    let st := run (opStep layout cfg) (init cfg) ops
    (st.seenSequenceIds ⊆ st.passed.toFinset ∧
      st.seenSequenceIds.card = min 1000 st.passed.toFinset.card ∧
      ∀ kept ∈ st.seenSequenceIds, ∀ id ∈ st.passed.toFinset, id ∉ st.seenSequenceIds → id < kept) ∧
    st.seenSequenceIds.card ≤ 1000 ∧
    ∀ before id after, st.passed = before ++ id :: after → id ∈ before →
      1000 ≤ (before.toFinset.filter (id < ·)).card := by
  have hmem : Memory (run (opStep layout cfg) (init cfg) ops) := by
    refine run_invariant (fun st op h => ?_) (memory_init cfg) ops
    cases op with
    | getNext call => exact step_invariant layout cfg st memory_readRequest call h
    | stop => exact ⟨h.isTop, h.repeats⟩
    | startCmd => exact ⟨h.isTop, h.repeats⟩
  exact ⟨⟨hmem.isTop.subset, hmem.isTop.card, hmem.isTop.lt_of_mem⟩, hmem.isTop.card_le, hmem.repeats⟩

/-! ### The answer to a batch -/

/-- The requests of a batch that are not in the memory, in ascending order of their ids. -/
def newRequests (st : CRVReceiver) (batch : Requests) : List (ℕ × ℕ) :=
  batch.entries.filter (·.1 ∉ st.seenSequenceIds)

theorem untilFailure_of_delivered {cfg : CRVConfig} {reads : ℕ → Read DtcEvent} {reqs : List (ℕ × ℕ)}
    (h : ∀ req ∈ reqs, (reads req.1).delivered ≠ []) : untilFailure cfg reads reqs = reqs := by
  induction reqs with
  | nil => rfl
  | cons req reqs ih =>
    obtain ⟨hreq, hreqs⟩ := List.forall_mem_cons.mp h
    rw [untilFailure, if_neg fun hfail => hreq hfail.1, ih hreqs]

theorem answered_of_delivered {reads : ℕ → Read DtcEvent} {reqs : List (ℕ × ℕ)}
    (h : ∀ req ∈ reqs, (reads req.1).delivered ≠ []) : answered reads reqs = reqs :=
  List.filter_eq_self.mpr fun req hreq => by simpa using h req hreq

/-- `out` is the right answer of a receiver in state `st` to a batch of requests. -/
structure Answers (call : CRVCall) (batch : Requests) (st : CRVReceiver) (out : Bool × CRVReceiver) :
    Prop where
  returnsTrue : out.1 = true
  ascending : (newRequests st batch).Pairwise fun req req' => req.1 < req'.1
  asks : out.2.requested = st.requested ++ newRequests st batch
  getData : out.2.getDataCalls =
    st.getDataCalls ++ (newRequests st batch).flatMap fun req =>
      List.replicate (call.reads req.1).calls req.2
  getDataOnce : (∀ req ∈ newRequests st batch, ∃ evt evts,
      (call.reads req.1).getData 0 = .data (evt :: evts)) →
    out.2.getDataCalls = st.getDataCalls ++ (newRequests st batch).map (·.2)
  appends : ∃ new : List Fragment, out.2.frags = st.frags ++ new ∧
    new.map (·.sequenceID) = (newRequests st batch).map (·.1)
  counts : out.2.evCounter = st.evCounter + (newRequests st batch).length

/-- **A batch is answered exactly**, whatever the memory holds and however large the batch is, if the reads for
its requests deliver something. -/
theorem getNext_answers (layout : FragmentLayout) {cfg : CRVConfig} (hmode : cfg.noRequestMode = false)
    (st : CRVReceiver) {call : CRVCall} {batch : Requests} (hbatch : call.requests = some batch)
    (hstop : call.shouldStop = false) (hids : ∀ req ∈ batch.entries, req.1 ≠ 0)
    (hreads : ∀ req ∈ batch.entries, (call.reads req.1).delivered ≠ []) :
    Answers call batch st (getNext layout cfg call st) := by
  have hsub : ∀ req ∈ newRequests st batch, req ∈ batch.entries := fun req hreq =>
    (List.mem_filter.mp hreq).1
  have hnew : unseen cfg call.reads st.seenSequenceIds batch.entries = newRequests st batch :=
    untilFailure_of_delivered fun req hreq => hreads req (hsub req hreq)
  have hcall : getNext layout cfg call st = serve layout cfg call.reads batch.entries st := by
    simp [getNext, hmode, hbatch, hstop]
  obtain ⟨hrun, -, hret⟩ :=
    serve_eq_run layout cfg call.reads st batch.sorted
  rw [hnew] at hrun hret
  have hserved := served_run layout cfg call.reads st fun req hreq => hids req (hsub req hreq)
  rw [← hrun] at hserved
  obtain ⟨new, hfrags, hseq, -⟩ := hserved.appends
  have hans : answered call.reads (newRequests st batch) = newRequests st batch :=
    answered_of_delivered fun req hreq => hreads req (hsub req hreq)
  rw [hcall]
  refine ⟨?_, batch.sorted.filter _, ?_, hserved.getDataCalls, fun honce => ?_, ⟨new, hfrags, ?_⟩, ?_⟩
  · exact hret.mpr fun req hreq hfail => hreads req (hsub req hreq) hfail.1
  · rw [hrun]
    exact (run_readRequest_seen layout cfg call.reads st _).2
  · have hone : ∀ req ∈ newRequests st batch, List.replicate (call.reads req.1).calls req.2 = [req.2] := by
      intro req hreq
      obtain ⟨evt, evts, hfirst⟩ := honce req hreq
      rw [Read.calls_of_first hfirst, List.replicate_one]
    rw [hserved.getDataCalls, getDataFor, List.flatMap_congr hone, ← List.map_eq_flatMap]
  · rw [hseq, hans]
  · rw [hserved.evCounter, hans]

/-- An event of one byte, for each id. -/
def eventFor (id : ℕ) : Read DtcEvent := Read.ofEvents [⟨id, [7]⟩]

/-- A batch of three requests, the second of which is in the memory. -/
theorem getNext_answers_of_three :
    ∃ (layout : FragmentLayout) (cfg : CRVConfig) (st : CRVReceiver) (call : CRVCall) (batch : Requests),
      st.seenSequenceIds = {2} ∧ batch.entries = [(1, 11), (2, 12), (3, 13)] ∧
        newRequests st batch = [(1, 11), (3, 13)] ∧ Answers call batch st (getNext layout cfg call st) := by
  let cfg : CRVConfig := ⟨⟨0, .simulated, false, 0, 0, 1⟩, false, 0⟩
  let batch : Requests := ⟨[(1, 11), (2, 12), (3, 13)], by decide⟩
  let call : CRVCall := ⟨false, some batch, eventFor⟩
  let st : CRVReceiver := { init cfg with seenSequenceIds := {2} }
  refine ⟨.zeroTerminated, cfg, st, call, batch, rfl, rfl, by decide, ?_⟩
  refine getNext_answers .zeroTerminated rfl st rfl rfl (by decide) fun req _ => ?_
  show (eventFor req.1).delivered ≠ []
  rw [Read.delivered_of_first rfl]
  exact List.cons_ne_nil _ _

end CRVReceiver

end ArtdaqMu2e
