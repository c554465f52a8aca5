import ArtdaqMu2e.Generators.CRVDelivery
import Mathlib.Data.List.Sort

/-!
# The CRV receiver across a restart

The generator object is kept from one run to the next, and of its members `start()` resets none: not the ids of
the requests it has seen, nor the timestamps. What the second run appends is compared here with what a new
receiver appends on the same calls (`SameOutput`).

What a call appends is known from the requests it answers and the shifts of their tags (`served_step`), so the two
receivers append the same all along exactly if every call looks the same to both (`SameView`), by
`always_iff_steps` for the pair of them. For all second runs at once it is so only if the first run had no request
to handle (`restart_isolated_iff`): one id that stays in the memory is enough for a request of the second run to be
skipped.
-/

namespace ArtdaqMu2e

open Lists Runs TopSet

namespace CRVReceiver

/-- A receiver in its first run. -/
def started (cfg : CRVConfig) : CRVReceiver := startCmd cfg (init cfg)

/-- The receiver at the start of its second run. -/
def restarted (layout : FragmentLayout) (cfg : CRVConfig) (first : List CRVCall) : CRVReceiver :=
  startCmd cfg (stop (run (step layout cfg) (started cfg) first))

def stampOf (frag : Fragment) : ℕ × ℕ := (frag.sequenceID, frag.timestamp)

/-- Two receivers have appended the same sequence ids and timestamps. -/
def SameOutput (st : CRVReceiver × CRVReceiver) : Prop := st.1.frags.map stampOf = st.2.frags.map stampOf

/-- The call gets to the request: its id is not in the memory, and no read for a smaller one fails. -/
def GetsTo (cfg : CRVConfig) (call : CRVCall) (batch : Requests) (st : CRVReceiver) (req : ℕ × ℕ) : Prop :=
  req.1 ∉ st.seenSequenceIds ∧
    ∀ earlier ∈ batch.entries, earlier.1 < req.1 → earlier.1 ∉ st.seenSequenceIds →
      ¬ ReadFails cfg call.reads earlier

/-- The call looks the same to two receivers: both get to the same of its requests, as far as there is data for
them, and shift each tag read by the same amount. -/
structure SameView (cfg : CRVConfig) (st : CRVReceiver × CRVReceiver) (call : CRVCall) : Prop where
  requests : call.shouldStop = false → ∀ batch, call.requests = some batch → ∀ req ∈ batch.entries,
    (call.reads req.1).delivered ≠ [] → (GetsTo cfg call batch st.1 req ↔ GetsTo cfg call batch st.2 req)
  shifts : Steps (both TimestampState.next TimestampState.next) TimestampState.SameShift
    (st.1.timestamps, st.2.timestamps) (tagsRead call.reads (toRead cfg call st.1))

/-- The ids of a run start at 1, and event window tags have 48 bits. -/
structure WellFormed (call : CRVCall) : Prop where
  ids : NonzeroIds call
  tags : ∀ id, ∀ evt ∈ (call.reads id).delivered, evt.eventWindowTag < 2 ^ 48

/-- A call without a request to handle. -/
def Idle (call : CRVCall) : Prop :=
  call.shouldStop = false → ∀ batch, call.requests = some batch → batch.entries = []

/-! ### Two receivers on the same calls -/

section pair
variable {layout : FragmentLayout} {cfg : CRVConfig} {reads : ℕ → Read DtcEvent}

theorem tagsRead_eq (reads : ℕ → Read DtcEvent) (reqs : List (ℕ × ℕ)) :
    tagsRead reads reqs = ((answered reads reqs).map (·.1)).filterMap fun id =>
      (reads id).delivered.head?.map (·.eventWindowTag) := by
  induction reqs with
  | nil => rfl
  | cons req reqs ih =>
    cases hread : (reads req.1).delivered with
    | nil => simpa [tagsRead, answered, hread] using ih
    | cons evt evts => simpa [tagsRead, answered, hread] using ih

theorem lt_of_mem_tagsRead (hfit : ∀ id, ∀ evt ∈ (reads id).delivered, evt.eventWindowTag < 2 ^ 48)
    {reqs : List (ℕ × ℕ)} : ∀ tag ∈ tagsRead reads reqs, tag < 2 ^ 64 := by
  intro tag htag
  obtain ⟨req, -, hread⟩ := List.mem_filterMap.mp htag
  obtain ⟨evt, hevt, rfl⟩ := Option.map_eq_some_iff.mp hread
  have := hfit req.1 evt (List.mem_of_mem_head? hevt)
  omega

/-- What the reads of two receivers append is the same exactly if the ids answered and the shifts are. -/
theorem served_same_iff (hfit : ∀ id, ∀ evt ∈ (reads id).delivered, evt.eventWindowTag < 2 ^ 48)
    {reqs reqs' : List (ℕ × ℕ)} {st st' next next' : CRVReceiver} (h : Served reads reqs st next)
    (h' : Served reads reqs' st' next') (hsame : SameOutput (st, st')) :
    SameOutput (next, next') ↔
      (answered reads reqs).map (·.1) = (answered reads reqs').map (·.1) ∧
        Steps (both TimestampState.next TimestampState.next) TimestampState.SameShift
          (st.timestamps, st'.timestamps) (tagsRead reads reqs) := by
  obtain ⟨new, hfrags, hids, hstamps⟩ := h.appends
  obtain ⟨new', hfrags', hids', hstamps'⟩ := h'.appends
  have hsame : st.frags.map stampOf = st'.frags.map stampOf := hsame
  have happended : SameOutput (next, next') ↔ new.map stampOf = new'.map stampOf := by
    unfold SameOutput
    rw [hfrags, hfrags', List.map_append, List.map_append, hsame]
    exact List.append_right_inj _
  rw [happended]
  unfold stampOf
  rw [map_prod_eq_iff, hids, hids', hstamps, hstamps']
  refine and_congr_right fun hreqs => ?_
  rw [tagsRead_eq reads reqs', ← hreqs, ← tagsRead_eq]
  exact TimestampState.stamps_eq_iff (lt_of_mem_tagsRead hfit)

theorem mem_answered_unseen_iff {call : CRVCall} {batch : Requests} {st : CRVReceiver} {req : ℕ × ℕ} :
    req ∈ answered call.reads (unseen cfg call.reads st.seenSequenceIds batch.entries) ↔
      req ∈ batch.entries ∧ (call.reads req.1).delivered ≠ [] ∧ GetsTo cfg call batch st req := by
  rw [answered, List.mem_filter, mem_unseen_iff batch.sorted, GetsTo]
  constructor
  · rintro ⟨⟨hmem, hgets⟩, hdata⟩
    exact ⟨hmem, by simpa using hdata, hgets⟩
  · rintro ⟨hmem, hdata, hgets⟩
    exact ⟨⟨hmem, hgets⟩, by simpa using hdata⟩

theorem answered_ids_subset_iff {call : CRVCall} {batch : Requests} {st st' : CRVReceiver} :
    (answered call.reads (unseen cfg call.reads st.seenSequenceIds batch.entries)).map (·.1) ⊆
        (answered call.reads (unseen cfg call.reads st'.seenSequenceIds batch.entries)).map (·.1) ↔
      ∀ req ∈ batch.entries, (call.reads req.1).delivered ≠ [] →
        GetsTo cfg call batch st req → GetsTo cfg call batch st' req := by
  constructor
  · intro hsub req hreq hdata hgets
    have hid := hsub (List.mem_map_of_mem (mem_answered_unseen_iff.mpr ⟨hreq, hdata, hgets⟩))
    obtain ⟨req', hans, heq⟩ := List.mem_map.mp hid
    obtain ⟨hreq', -, hgets'⟩ := mem_answered_unseen_iff.mp hans
    rwa [← batch.eq_of_fst_eq hreq' hreq heq]
  · intro h id hid
    obtain ⟨req, hans, rfl⟩ := List.mem_map.mp hid
    obtain ⟨hreq, hdata, hgets⟩ := mem_answered_unseen_iff.mp hans
    exact List.mem_map_of_mem (mem_answered_unseen_iff.mpr ⟨hreq, hdata, h req hreq hdata hgets⟩)

theorem answered_ids_eq_iff {call : CRVCall} {batch : Requests} {st st' : CRVReceiver} :
    (answered call.reads (unseen cfg call.reads st.seenSequenceIds batch.entries)).map (·.1) =
        (answered call.reads (unseen cfg call.reads st'.seenSequenceIds batch.entries)).map (·.1) ↔
      ∀ req ∈ batch.entries, (call.reads req.1).delivered ≠ [] →
        (GetsTo cfg call batch st req ↔ GetsTo cfg call batch st' req) := by
  have hsorted : ∀ st : CRVReceiver, ((answered call.reads
      (unseen cfg call.reads st.seenSequenceIds batch.entries)).map (·.1)).Pairwise (· < ·) := by
    intro st
    have hsub := (List.filter_sublist (p := fun req => !(call.reads req.1).delivered.isEmpty)).trans
      (unseen_sublist cfg call.reads st.seenSequenceIds batch.entries)
    exact List.pairwise_map.mpr (batch.sorted.sublist hsub)
  constructor
  · intro heq req hreq hdata
    refine ⟨answered_ids_subset_iff.mp ?_ req hreq hdata, answered_ids_subset_iff.mp ?_ req hreq hdata⟩
    · exact heq ▸ List.Subset.refl _
    · exact heq ▸ List.Subset.refl _
  · intro h
    refine List.Subset.antisymm_of_pairwise (hsorted st) (hsorted st') ?_ ?_
    · exact answered_ids_subset_iff.mpr fun req hreq hdata => (h req hreq hdata).mp
    · exact answered_ids_subset_iff.mpr fun req hreq hdata => (h req hreq hdata).mpr

theorem toRead_ids_eq_iff (hmode : cfg.noRequestMode = false) {call : CRVCall} {st st' : CRVReceiver} :
    (answered call.reads (toRead cfg call st)).map (·.1) = (answered call.reads (toRead cfg call st')).map (·.1) ↔
      (call.shouldStop = false → ∀ batch, call.requests = some batch → ∀ req ∈ batch.entries,
        (call.reads req.1).delivered ≠ [] → (GetsTo cfg call batch st req ↔ GetsTo cfg call batch st' req)) := by
  unfold toRead
  simp only [hmode, Bool.false_eq_true, if_false]
  by_cases hstop : call.shouldStop = true
  · simp [hstop]
  rw [if_neg hstop, if_neg hstop]
  cases hbatch : call.requests with
  | none => simp
  | some batch =>
    rw [answered_ids_eq_iff]
    constructor
    · intro h _ batch' heq
      rw [← Option.some.inj heq]
      exact h
    · intro h
      exact h (by simpa using hstop) batch rfl

theorem sameOutput_step_iff (hmode : cfg.noRequestMode = false) (st : CRVReceiver × CRVReceiver) (call : CRVCall)
    (hcall : WellFormed call) (hsame : SameOutput st) :
    SameOutput (both (step layout cfg) (step layout cfg) st call) ↔ SameView cfg st call := by
  have hiff := served_same_iff hcall.tags (served_step layout hmode hcall.ids st.1)
    (served_step layout hmode hcall.ids st.2) hsame
  rw [both, hiff, toRead_ids_eq_iff hmode]
  exact ⟨fun h => ⟨h.1, h.2⟩, fun h => ⟨h.requests, h.shifts⟩⟩

end pair

/-! ### What stays from the first run -/

section idle
variable {layout : FragmentLayout} {cfg : CRVConfig}

theorem step_of_idle (hmode : cfg.noRequestMode = false) {call : CRVCall} (h : Idle call) (st : CRVReceiver) :
    step layout cfg st call = st := by
  have hnone : toRead cfg call st = [] := by
    unfold toRead
    simp only [hmode, Bool.false_eq_true, if_false]
    by_cases hstop : call.shouldStop = true
    · rw [if_pos hstop]
    rw [if_neg hstop]
    cases hbatch : call.requests with
    | none => rfl
    | some batch =>
      have hempty := h (by simpa using hstop) batch hbatch
      simp [unseen, untilFailure, hempty]
  rw [step, (getNext_eq_run layout cfg st call).1, hnone]
  rfl

theorem seen_nonempty_step (hmode : cfg.noRequestMode = false) (st : CRVReceiver) (call : CRVCall)
    (h : st.seenSequenceIds.Nonempty ∨ ¬ Idle call) : (step layout cfg st call).seenSequenceIds.Nonempty := by
  by_cases hseen : st.seenSequenceIds.Nonempty
  · exact step_invariant layout cfg st (P := fun st => st.seenSequenceIds.Nonempty)
      (fun _ _ _ _ _ => push_nonempty (by decide)) call hseen
  obtain ⟨hstop, batch, hbatch, hne⟩ : call.shouldStop = false ∧
      ∃ batch, call.requests = some batch ∧ batch.entries ≠ [] := by
    simpa [Idle] using h.resolve_left hseen
  obtain ⟨req, reqs, hreqs⟩ := List.exists_cons_of_ne_nil hne
  have hnot : req.1 ∉ st.seenSequenceIds := fun hmem => hseen ⟨_, hmem⟩
  have hfirst : ∃ rest, toRead cfg call st = req :: rest := by
    rw [toRead_of_batch hmode hstop hbatch, hreqs]
    by_cases hfail : ReadFails cfg call.reads req
    · exact ⟨_, unseen_of_fails hnot hfail⟩
    · exact ⟨_, unseen_of_notMem hnot hfail⟩
  obtain ⟨rest, hrest⟩ := hfirst
  rw [step, (getNext_eq_run layout cfg st call).1, hrest, run_cons]
  exact run_invariant (P := fun st : CRVReceiver => st.seenSequenceIds.Nonempty)
    (fun _ _ _ => push_nonempty (by decide)) (push_nonempty (by decide)) rest

theorem seen_nonempty_run (layout : FragmentLayout) (hmode : cfg.noRequestMode = false) (st : CRVReceiver)
    {calls : List CRVCall} (h : ¬ ∀ call ∈ calls, Idle call) :
    (run (step layout cfg) st calls).seenSequenceIds.Nonempty := by
  obtain ⟨call, hcall, hbusy⟩ : ∃ call ∈ calls, ¬ Idle call := by simpa using h
  obtain ⟨before, after, rfl⟩ := List.append_of_mem hcall
  rw [run_append, run_cons]
  exact run_invariant (P := fun st : CRVReceiver => st.seenSequenceIds.Nonempty)
    (fun st call hseen => seen_nonempty_step hmode st call (Or.inl hseen))
    (seen_nonempty_step hmode _ call (Or.inr hbusy)) after

theorem run_of_idle (hmode : cfg.noRequestMode = false) {calls : List CRVCall} (h : ∀ call ∈ calls, Idle call)
    (st : CRVReceiver) : run (step layout cfg) st calls = st := by
  induction calls with
  | nil => rfl
  | cons call calls ih =>
    obtain ⟨hcall, hcalls⟩ := List.forall_mem_cons.mp h
    rw [run_cons, step_of_idle hmode hcall, ih hcalls]

theorem length_frags_callFor (layout : FragmentLayout) (hmode : cfg.noRequestMode = false) (st : CRVReceiver)
    (id : ℕ) :
    (step layout cfg st (callFor id (eventFor 5))).frags.length =
      if id ∈ st.seenSequenceIds then st.frags.length else st.frags.length + 1 := by
  have hread : ((callFor id (eventFor 5)).reads id).delivered = [⟨5, [7]⟩] := Read.delivered_of_first rfl
  have hbatch : (callFor id (eventFor 5)).requests = some ⟨[(id, 5)], by simp⟩ := rfl
  rw [step, (getNext_eq_run layout cfg st _).1, toRead_of_batch hmode rfl hbatch]
  split_ifs with hmem
  · rw [unseen_of_mem hmem]
    rfl
  · have hdelivers : ¬ ReadFails cfg (callFor id (eventFor 5)).reads (id, 5) := by
      intro hfail
      rw [hfail.1] at hread
      cases hread
    rw [unseen_of_notMem hmem hdelivers]
    show (readRequest layout cfg (callFor id (eventFor 5)).reads st (id, 5)).frags.length = _
    rw [readRequest, getNextDTCFragment_of_cons hread]
    simp

theorem wellFormed_callFor {id : ℕ} (hid : id ≠ 0) : WellFormed (callFor id (eventFor 5)) := by
  refine ⟨nonzeroIds_callFor hid _, fun _ evt hevt => ?_⟩
  have hread : (eventFor 5).delivered = [⟨5, [7]⟩] := Read.delivered_of_first rfl
  have hfive : evt = ⟨5, [7]⟩ := List.mem_singleton.mp (hread ▸ hevt)
  rw [hfive]
  decide

theorem seen_nonzero_run (layout : FragmentLayout) (hmode : cfg.noRequestMode = false) {calls : List CRVCall}
    (hids : ∀ call ∈ calls, NonzeroIds call) (st : CRVReceiver) (hst : 0 ∉ st.seenSequenceIds) :
    0 ∉ (run (step layout cfg) st calls).seenSequenceIds := by
  induction calls generalizing st with
  | nil => exact hst
  | cons call calls ih =>
    obtain ⟨hcall, hids⟩ := List.forall_mem_cons.mp hids
    refine ih hids _ fun hmem => ?_
    rw [step, (getNext_eq_run layout cfg st call).1, (run_readRequest_seen layout cfg _ st _).1] at hmem
    rcases Finset.mem_union.mp (pushAll_subset _ _ _ hmem) with hold | hread
    · exact hst hold
    · obtain ⟨req, hreq, hzero⟩ := List.mem_map.mp (List.mem_toFinset.mp hread)
      obtain ⟨batch, hbatch, hentry, -⟩ := mem_batch_of_mem_toRead hmode hreq
      exact hcall batch hbatch req hentry hzero

theorem startCmd_spec (cfg : CRVConfig) (st : CRVReceiver) :
    (startCmd cfg st).evCounter = 1 ∧ (startCmd cfg st).frags = [] ∧
      (startCmd cfg st).timestamps = st.timestamps ∧
      (startCmd cfg st).seenSequenceIds = st.seenSequenceIds := by
  unfold startCmd Receiver.startCmd Receiver.start
  split <;> exact ⟨rfl, rfl, rfl, rfl⟩

theorem startCmd_stop_started (cfg : CRVConfig) : startCmd cfg (stop (started cfg)) = started cfg := by
  unfold started startCmd stop Receiver.startCmd Receiver.start Receiver.stop
  by_cases hraw : cfg.rawOutput = true
  · simp only [hraw, if_true]
    rfl
  · simp only [hraw]
    rfl

theorem not_sameOutput_callFor (layout : FragmentLayout) (hmode : cfg.noRequestMode = false)
    {st : CRVReceiver × CRVReceiver} (hfrags : st.1.frags = []) (hfrags' : st.2.frags = []) {id : ℕ}
    (hseen : id ∈ st.1.seenSequenceIds) (hnew : id ∉ st.2.seenSequenceIds) :
    ¬ SameOutput (both (step layout cfg) (step layout cfg) st (callFor id (eventFor 5))) := by
  intro hsame
  have hlen := congrArg List.length hsame
  rw [List.length_map, List.length_map] at hlen
  have hold : (step layout cfg st.1 (callFor id (eventFor 5))).frags.length = 0 := by
    rw [length_frags_callFor layout hmode, if_pos hseen, hfrags]
    rfl
  have hfresh : (step layout cfg st.2 (callFor id (eventFor 5))).frags.length = 1 := by
    rw [length_frags_callFor layout hmode, if_neg hnew, hfrags']
    rfl
  have hcontra := (hold.symm.trans hlen).trans hfresh
  cases hcontra

theorem sameOutput_run_self (layout : FragmentLayout) (cfg : CRVConfig) (st : CRVReceiver)
    (calls : List CRVCall) : SameOutput (run (both (step layout cfg) (step layout cfg)) (st, st) calls) := by
  have hequal : (run (both (step layout cfg) (step layout cfg)) (st, st) calls).1 =
      (run (both (step layout cfg) (step layout cfg)) (st, st) calls).2 :=
    run_invariant (P := fun st : CRVReceiver × CRVReceiver => st.1 = st.2)
      (fun _ call heq => congrArg (fun st => step layout cfg st call) heq) rfl calls
  rw [SameOutput, hequal]

end idle

/-- **A restart is isolated only from an idle run.** A second run appends what a new receiver appends, after every
call, if and only if every call looks the same to both; and it does so for all second runs if and only if the first
run handled no request. -/
theorem restart_isolated_iff (layout : FragmentLayout) {cfg : CRVConfig} (hmode : cfg.noRequestMode = false)
    {first : List CRVCall} (hfirst : ∀ call ∈ first, WellFormed call) :
    (∀ second, (∀ call ∈ second, WellFormed call) →
        (Always (both (step layout cfg) (step layout cfg)) SameOutput (restarted layout cfg first, started cfg)
            second ↔
          Steps (both (step layout cfg) (step layout cfg)) (SameView cfg)
            (restarted layout cfg first, started cfg) second)) ∧
      ((∀ second, (∀ call ∈ second, WellFormed call) →
          Always (both (step layout cfg) (step layout cfg)) SameOutput (restarted layout cfg first, started cfg)
            second) ↔
        ∀ call ∈ first, Idle call) := by
  obtain ⟨-, hfrags, -, hseen⟩ := startCmd_spec cfg (stop (run (step layout cfg) (started cfg) first))
  obtain ⟨-, hfrags', -, hseen'⟩ := startCmd_spec cfg (init cfg)
  have hold : (restarted layout cfg first).frags = [] := hfrags
  have hfresh : (started cfg).frags = [] := hfrags'
  have hstart : SameOutput (restarted layout cfg first, started cfg) := by
    rw [SameOutput, hold, hfresh]
  have hnew : (started cfg).seenSequenceIds = ∅ := hseen'
  refine ⟨fun second hsecond => ?_, ?_, ?_⟩
  · exact always_iff_steps (I := fun _ => True) (fun _ _ _ _ => trivial)
      (fun st call hcall _ hsame => sameOutput_step_iff hmode st call hcall hsame) trivial hstart hsecond
  · intro hall
    -- an id of the first run is still in the memory; a second run that asks for it tells the two apart
    by_contra hbusy
    obtain ⟨id, hid⟩ := seen_nonempty_run layout hmode (started cfg) hbusy
    have hzero : 0 ∉ (run (step layout cfg) (started cfg) first).seenSequenceIds :=
      seen_nonzero_run layout hmode (fun call hcall => (hfirst call hcall).ids) _ (by simp [hnew])
    have hne : id ≠ 0 := fun heq => hzero (heq ▸ hid)
    have hskip : id ∈ (restarted layout cfg first).seenSequenceIds := by
      rw [restarted, hseen]
      exact hid
    have hnot : id ∉ (started cfg).seenSequenceIds := by simp [hnew]
    have hsame := hall [callFor id (eventFor 5)] (by simp [wellFormed_callFor hne]) [callFor id (eventFor 5)]
      (List.prefix_refl _)
    exact not_sameOutput_callFor layout hmode hold hfresh hskip hnot hsame
  · intro hidle second _ done _
    have hsame : restarted layout cfg first = started cfg := by
      rw [restarted, run_of_idle hmode hidle, startCmd_stop_started]
    rw [hsame]
    exact sameOutput_run_self layout cfg (started cfg) done

/-- The first run handled a call without a request and nothing else: a second run reads id 1 as a new receiver. Where
the first run read id 1, a second run that begins with id 2 still does so. -/
theorem restart_isolated_iff_idle :
    Always (both (step .zeroTerminated hardwareConfig) (step .zeroTerminated hardwareConfig)) SameOutput
        (restarted .zeroTerminated hardwareConfig [⟨false, some ⟨[], by decide⟩, fun _ => Read.failing⟩],
          started hardwareConfig) [callFor 1 (eventFor 5)] ∧
      Always (both (step .zeroTerminated hardwareConfig) (step .zeroTerminated hardwareConfig)) SameOutput
        (restarted .zeroTerminated hardwareConfig [callFor 1 (eventFor 5)], started hardwareConfig)
        [callFor 2 (eventFor 5)] := by
  constructor
  · refine (restart_isolated_iff .zeroTerminated rfl ?_).2.mpr ?_ _ (by simp [wellFormed_callFor])
    · intro call hcall
      rw [List.mem_singleton.mp hcall]
      refine ⟨fun batch hbatch req hreq => ?_, fun _ evt hevt => ?_⟩
      · rw [← Option.some.inj hbatch] at hreq
        cases hreq
      · have hread : Read.failing.delivered = ([] : List DtcEvent) := rfl
        rw [hread] at hevt
        cases hevt
    · intro call hcall _ batch hbatch
      rw [List.mem_singleton.mp hcall] at hbatch
      rw [← Option.some.inj hbatch]
  · refine ((restart_isolated_iff .zeroTerminated rfl ?_).1 _ ?_).mpr ⟨⟨?_, ?_⟩, trivial⟩
    · simp [wellFormed_callFor]
    · simp [wellFormed_callFor]
    · intro _ batch hbatch req hreq _
      rw [← Option.some.inj hbatch] at hreq ⊢
      rw [List.mem_singleton.mp hreq]
      exact iff_of_true ⟨by decide, by decide⟩ ⟨by decide, by decide⟩
    · exact ⟨rfl, trivial⟩

/-- The first run reads id 1; the second run, where the ids start at 1 again, skips its first request. -/
theorem restart_skips_request :
    let calls := [callFor 1 (eventFor 5)]
    let old := run (step .zeroTerminated hardwareConfig) (restarted .zeroTerminated hardwareConfig calls) calls
    let new := run (step .zeroTerminated hardwareConfig) (started hardwareConfig) calls
    (∀ call ∈ calls, WellFormed call) ∧ old.frags.map stampOf = [] ∧ new.frags.map stampOf = [(1, 5)] ∧
      ¬ SameOutput (old, new) := by
  refine ⟨by simp [wellFormed_callFor], by decide, by decide, ?_⟩
  unfold SameOutput
  decide

end CRVReceiver

end ArtdaqMu2e
