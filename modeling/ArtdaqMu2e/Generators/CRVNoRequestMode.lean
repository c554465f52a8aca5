import ArtdaqMu2e.Generators.CRVRestart

/-!
# The CRV receiver without requests

In no-request mode every call makes up its own request, for the window right after `highest_timestamp_seen_`, and
uses the number of the window as the sequence id. The request passes the same check as the others, so its id goes
into the memory before the read; but it is only when the read moves the maximum that the next call has another
window to ask for. After a read that delivers nothing, or an older window first, the receiver meets its own request
in the memory, and no later call reads anything (`stuck_of_seen`).

`Progresses` says that the next call reads, and asks for a window above all that were delivered. One call keeps it
exactly if it delivers a window above the maximum, and first in its list (`progresses_step_iff`), and so for runs
(`progresses_iff`).
-/

namespace ArtdaqMu2e

open Runs TopSet

namespace CRVReceiver

/-- The window, and sequence id, that the next call makes its request for. -/
def nextTag (st : CRVReceiver) : ℕ := u64 (st.timestamps.highestTimestampSeen + 1)

/-- The tag that the DTC is asked for: a `DTC_EventWindowTag` holds 48 bits. -/
def askedTag (tag : ℕ) : ℕ := tag % 2 ^ 48

/-- The tags of the events that a call delivers. -/
def deliveredTags (cfg : CRVConfig) (call : CRVCall) (st : CRVReceiver) : List ℕ :=
  (toRead cfg call st).flatMap fun req => (call.reads req.1).delivered.map (·.eventWindowTag)

/-- A receiver, and the tags of all events that were delivered to it. -/
abbrev Observed := CRVReceiver × List ℕ

def observe (layout : FragmentLayout) (cfg : CRVConfig) (st : Observed) (call : CRVCall) : Observed :=
  (step layout cfg st.1 call, st.2 ++ deliveredTags cfg call st.1)

/-- A call that is not stopping makes at least one read, and asks for a window above all that were delivered. -/
def Progresses (layout : FragmentLayout) (cfg : CRVConfig) (st : Observed) : Prop :=
  ∀ call : CRVCall, call.shouldStop = false → ∃ tag n, 1 ≤ n ∧
    (step layout cfg st.1 call).getDataCalls = st.1.getDataCalls ++ List.replicate n tag ∧
      ∀ seen ∈ st.2, seen < askedTag tag

/-- A call that is not stopping delivers a window above the maximum, first in its list and not below the others, and
there is a window after it. -/
def DeliversNew (st : Observed) (call : CRVCall) : Prop :=
  call.shouldStop = false → ∃ evt evts, (call.reads (nextTag st.1)).delivered = evt :: evts ∧
    st.1.timestamps.highestTimestampSeen < evt.eventWindowTag ∧
    (∀ other ∈ evts, other.eventWindowTag ≤ evt.eventWindowTag) ∧ evt.eventWindowTag + 1 < 2 ^ 48

/-- The event window tags of a call have 48 bits. -/
def TagsFit (call : CRVCall) : Prop :=
  ∀ id, ∀ evt ∈ (call.reads id).delivered, evt.eventWindowTag < 2 ^ 48

/-! ### A call -/

section call
variable {layout : FragmentLayout} {cfg : CRVConfig} {call : CRVCall} {st : CRVReceiver}

theorem toRead_of_noRequestMode (hmode : cfg.noRequestMode = true) (hstop : call.shouldStop = false) :
    toRead cfg call st = if nextTag st ∈ st.seenSequenceIds then [] else [(nextTag st, nextTag st)] := by
  have hread : toRead cfg call st =
      unseen cfg call.reads st.seenSequenceIds [(nextTag st, nextTag st)] := by
    simp only [toRead, hstop, hmode, if_true, Bool.false_eq_true, if_false]
    rfl
  rw [hread]
  split_ifs with hmem
  · rw [unseen_of_mem hmem]
    rfl
  · by_cases hfail : ReadFails cfg call.reads (nextTag st, nextTag st)
    · exact unseen_of_fails hmem hfail
    · rw [unseen_of_notMem hmem hfail]
      rfl

theorem step_of_toRead_nil (h : toRead cfg call st = []) : step layout cfg st call = st := by
  rw [step, (getNext_eq_run layout cfg st call).1, h]
  rfl

theorem step_of_seen (layout : FragmentLayout) (hmode : cfg.noRequestMode = true)
    (h : call.shouldStop = true ∨ nextTag st ∈ st.seenSequenceIds) : step layout cfg st call = st := by
  refine step_of_toRead_nil ?_
  by_cases hstop : call.shouldStop = true
  · rw [toRead, if_pos hstop]
  · rw [toRead_of_noRequestMode hmode (by simpa using hstop), if_pos (h.resolve_left hstop)]

/-- Once that has happened, the receiver never reads again. -/
theorem stuck_of_seen (layout : FragmentLayout) (hmode : cfg.noRequestMode = true)
    (hseen : nextTag st ∈ st.seenSequenceIds) (calls : List CRVCall) : run (step layout cfg) st calls = st := by
  induction calls with
  | nil => rfl
  | cons call calls ih => rw [run_cons, step_of_seen layout hmode (Or.inr hseen), ih]

theorem step_of_notMem (layout : FragmentLayout) (hmode : cfg.noRequestMode = true) (hstop : call.shouldStop = false)
    (hnew : nextTag st ∉ st.seenSequenceIds) :
    step layout cfg st call = readRequest layout cfg call.reads st (nextTag st, nextTag st) := by
  rw [step, (getNext_eq_run layout cfg st call).1, toRead_of_noRequestMode hmode hstop, if_neg hnew]
  rfl

theorem getDataCalls_readRequest (reads : ℕ → Read DtcEvent) (req : ℕ × ℕ) :
    (readRequest layout cfg reads st req).getDataCalls =
      st.getDataCalls ++ List.replicate (reads req.1).calls req.2 := by
  unfold readRequest
  cases hread : (reads req.1).delivered with
  | nil =>
    rw [getNextDTCFragment_of_nil hread]
  | cons evt evts =>
    rw [getNextDTCFragment_of_cons hread]

theorem highest_readRequest (reads : ℕ → Read DtcEvent) (req : ℕ × ℕ) :
    (readRequest layout cfg reads st req).timestamps.highestTimestampSeen =
      ((reads req.1).delivered.head?.map (·.eventWindowTag)).elim st.timestamps.highestTimestampSeen
        (max st.timestamps.highestTimestampSeen) := by
  unfold readRequest
  cases hread : (reads req.1).delivered with
  | nil =>
    rw [getNextDTCFragment_of_nil hread]
    rfl
  | cons evt evts =>
    rw [getNextDTCFragment_of_cons hread]
    exact TimestampState.highest_next _ _

theorem progresses_iff_notMem (hmode : cfg.noRequestMode = true) (tags : List ℕ) :
    Progresses layout cfg (st, tags) ↔
      nextTag st ∉ st.seenSequenceIds ∧ ∀ seen ∈ tags, seen < askedTag (nextTag st) := by
  constructor
  · intro h
    -- any call will do: what it asks for depends on the receiver only
    let call : CRVCall := ⟨false, none, fun _ => Read.failing⟩
    obtain ⟨tag, n, hn, hcalls, hlt⟩ := h call rfl
    by_cases hmem : nextTag st ∈ st.seenSequenceIds
    · rw [step_of_seen layout hmode (Or.inr hmem)] at hcalls
      have hlen : st.getDataCalls.length = (st.getDataCalls ++ List.replicate n tag).length :=
        congrArg List.length hcalls
      rw [List.length_append, List.length_replicate] at hlen
      omega
    · rw [step_of_notMem layout hmode rfl hmem, getDataCalls_readRequest] at hcalls
      have htag : nextTag st = tag := (List.replicate_inj.mp (List.append_cancel_left hcalls)).2.resolve_left
        (Nat.ne_of_gt (Read.calls_pos _))
      rw [htag] at hmem ⊢
      exact ⟨hmem, hlt⟩
  · rintro ⟨hnew, hlt⟩ call hstop
    refine ⟨nextTag st, (call.reads (nextTag st)).calls, Read.calls_pos _, ?_, hlt⟩
    rw [step_of_notMem layout hmode hstop hnew, getDataCalls_readRequest]

end call

/-! ### Runs -/

/-- What holds of every receiver in no-request mode: no id in the memory is above the next one. -/
structure Trails (st : Observed) : Prop where
  seen : ∀ id ∈ st.1.seenSequenceIds, id ≤ nextTag st.1
  card : st.1.seenSequenceIds.card ≤ sequenceIdListMaxSize

section run
variable (layout : FragmentLayout) {cfg : CRVConfig} {call : CRVCall} {st : CRVReceiver} {tags : List ℕ}

theorem seen_readRequest_next (cfg : CRVConfig) (h : Trails (st, tags)) (reads : ℕ → Read DtcEvent) :
    let seen := (readRequest layout cfg reads st (nextTag st, nextTag st)).seenSequenceIds
    nextTag st ∈ seen ∧ (∀ id ∈ seen, id ≤ nextTag st) ∧ seen.card ≤ sequenceIdListMaxSize := by
  refine ⟨mem_push_of_forall_le (by decide) h.seen, fun id hid => ?_, card_push_le h.card⟩
  rcases Finset.mem_insert.mp (push_subset hid) with rfl | hid
  · exact le_refl _
  · exact h.seen id hid

theorem nextTag_readRequest_of_le (cfg : CRVConfig) (reads : ℕ → Read DtcEvent) (req : ℕ × ℕ)
    (hle : ∀ evt ∈ (reads req.1).delivered.head?, evt.eventWindowTag ≤ st.timestamps.highestTimestampSeen) :
    nextTag (readRequest layout cfg reads st req) = nextTag st := by
  rw [nextTag, highest_readRequest]
  cases hhead : (reads req.1).delivered.head? with
  | none => rfl
  | some evt =>
    have hmax := hle evt hhead
    show u64 (max _ evt.eventWindowTag + 1) = _
    rw [max_eq_left hmax]
    rfl

theorem nextTag_readRequest_of_lt (cfg : CRVConfig) (reads : ℕ → Read DtcEvent) (req : ℕ × ℕ) {evt : DtcEvent}
    {evts : List DtcEvent} (hread : (reads req.1).delivered = evt :: evts) (hfit : evt.eventWindowTag < 2 ^ 48)
    (hlt : st.timestamps.highestTimestampSeen < evt.eventWindowTag) :
    nextTag (readRequest layout cfg reads st req) = evt.eventWindowTag + 1 ∧
      nextTag st ≤ evt.eventWindowTag := by
  constructor
  · rw [nextTag, highest_readRequest, hread]
    show u64 (max _ evt.eventWindowTag + 1) = _
    rw [max_eq_right hlt.le, u64_of_lt (by omega)]
  · rw [nextTag, u64_of_lt (by omega)]
    exact hlt

theorem trails_observe (hmode : cfg.noRequestMode = true) (hfit : TagsFit call) (h : Trails (st, tags)) :
    Trails (observe layout cfg (st, tags) call) := by
  by_cases hnone : call.shouldStop = true ∨ nextTag st ∈ st.seenSequenceIds
  · rw [observe, step_of_seen layout hmode hnone]
    exact ⟨h.seen, h.card⟩
  obtain ⟨hstop, hnew⟩ := not_or.mp hnone
  obtain ⟨-, hle, hcard⟩ := seen_readRequest_next layout cfg h call.reads
  have hnext : nextTag st ≤ nextTag (readRequest layout cfg call.reads st (nextTag st, nextTag st)) := by
    cases hread : (call.reads (nextTag st)).delivered with
    | nil => exact (nextTag_readRequest_of_le layout cfg call.reads _ (by simp [hread])).ge
    | cons evt evts =>
      rcases Nat.lt_or_ge st.timestamps.highestTimestampSeen evt.eventWindowTag with hlt | hge
      · have hbound := hfit (nextTag st) evt (by simp [hread])
        obtain ⟨hmoved, hbelow⟩ :=
          nextTag_readRequest_of_lt layout cfg call.reads (nextTag st, nextTag st) hread hbound hlt
        omega
      · exact (nextTag_readRequest_of_le layout cfg call.reads _ (by simpa [hread] using hge)).ge
  rw [observe, step_of_notMem layout hmode (by simpa using hstop) hnew]
  exact ⟨fun id hid => (hle id hid).trans hnext, hcard⟩

theorem not_progresses_of_le (hmode : cfg.noRequestMode = true) (h : Trails (st, tags)) (reads : ℕ → Read DtcEvent)
    (hle : ∀ evt ∈ (reads (nextTag st)).delivered.head?, evt.eventWindowTag ≤ st.timestamps.highestTimestampSeen)
    (tags' : List ℕ) :
    ¬ Progresses layout cfg (readRequest layout cfg reads st (nextTag st, nextTag st), tags') := by
  intro hprog
  obtain ⟨hnot, -⟩ := (progresses_iff_notMem hmode tags').mp hprog
  rw [nextTag_readRequest_of_le layout cfg reads _ hle] at hnot
  exact hnot (seen_readRequest_next layout cfg h reads).1

theorem progresses_iff_of_lt (hmode : cfg.noRequestMode = true) (h : Trails (st, tags))
    (hlt : ∀ seen ∈ tags, seen < askedTag (nextTag st)) (reads : ℕ → Read DtcEvent) {evt : DtcEvent}
    {evts : List DtcEvent} (hread : (reads (nextTag st)).delivered = evt :: evts) (hfit : evt.eventWindowTag < 2 ^ 48)
    (habove : st.timestamps.highestTimestampSeen < evt.eventWindowTag) :
    Progresses layout cfg (readRequest layout cfg reads st (nextTag st, nextTag st),
        tags ++ (evt :: evts).map (·.eventWindowTag)) ↔
      (∀ other ∈ evts, other.eventWindowTag ≤ evt.eventWindowTag) ∧ evt.eventWindowTag + 1 < 2 ^ 48 := by
  obtain ⟨hmoved, hbelow⟩ := nextTag_readRequest_of_lt layout cfg reads (nextTag st, nextTag st) hread hfit habove
  obtain ⟨-, hle, -⟩ := seen_readRequest_next layout cfg h reads
  rw [progresses_iff_notMem hmode, hmoved, askedTag]
  constructor
  · rintro ⟨-, hall⟩
    have hself : evt.eventWindowTag < (evt.eventWindowTag + 1) % 2 ^ 48 := hall _ (by simp)
    refine ⟨fun other hother => ?_, by omega⟩
    have hother : other.eventWindowTag < (evt.eventWindowTag + 1) % 2 ^ 48 :=
      hall _ (List.mem_append_right _ (List.mem_map_of_mem (List.mem_cons_of_mem _ hother)))
    omega
  · rintro ⟨hothers, hroom⟩
    rw [Nat.mod_eq_of_lt hroom]
    refine ⟨fun hid => absurd (hle _ hid) (by omega), fun seen hseen => ?_⟩
    rcases List.mem_append.mp hseen with hold | hdelivered
    · have hasked : askedTag (nextTag st) ≤ nextTag st := Nat.mod_le _ _
      have := hlt seen hold
      omega
    · obtain ⟨other, hother, rfl⟩ := List.mem_map.mp hdelivered
      rcases List.mem_cons.mp hother with rfl | hother
      · exact Nat.lt_succ_self _
      · exact Nat.lt_succ_of_le (hothers other hother)

theorem progresses_step_iff (hmode : cfg.noRequestMode = true) (hfit : TagsFit call) (h : Trails (st, tags))
    (hprog : Progresses layout cfg (st, tags)) :
    Progresses layout cfg (observe layout cfg (st, tags) call) ↔ DeliversNew (st, tags) call := by
  obtain ⟨hnew, hlt⟩ := (progresses_iff_notMem hmode tags).mp hprog
  by_cases hstop : call.shouldStop = true
  · have hnone : toRead cfg call st = [] := by rw [toRead, if_pos hstop]
    rw [observe, step_of_seen layout hmode (Or.inl hstop), deliveredTags, hnone]
    simp only [List.flatMap_nil, List.append_nil]
    exact iff_of_true hprog fun hgo => absurd hstop (by simp [hgo])
  have hgo : call.shouldStop = false := by simpa using hstop
  have htags : deliveredTags cfg call st = (call.reads (nextTag st)).delivered.map (·.eventWindowTag) := by
    rw [deliveredTags, toRead_of_noRequestMode hmode hgo, if_neg hnew]
    simp
  rw [observe, step_of_notMem layout hmode hgo hnew, htags]
  by_cases hle : ∀ evt ∈ (call.reads (nextTag st)).delivered.head?,
      evt.eventWindowTag ≤ st.timestamps.highestTimestampSeen
  · refine iff_of_false (not_progresses_of_le layout hmode h call.reads hle _) fun hdelivers => ?_
    obtain ⟨evt, evts, hread, habove, -⟩ := hdelivers hgo
    exact absurd (hle evt (by simp [hread])) (not_le.mpr habove)
  · cases hread : (call.reads (nextTag st)).delivered with
    | nil => exact absurd (by simp [hread]) hle
    | cons evt evts =>
      have habove : st.timestamps.highestTimestampSeen < evt.eventWindowTag := by simpa [hread] using hle
      have hbound := hfit (nextTag st) evt (by simp [hread])
      rw [progresses_iff_of_lt layout hmode h hlt call.reads hread hbound habove]
      constructor
      · rintro ⟨hothers, hroom⟩ -
        exact ⟨evt, evts, hread, habove, hothers, hroom⟩
      · intro hdelivers
        obtain ⟨evt', evts', hread', -, hothers, hroom⟩ := hdelivers hgo
        obtain ⟨rfl, rfl⟩ := List.cons.inj (hread.symm.trans hread')
        exact ⟨hothers, hroom⟩

/-- In no-request mode the receiver makes progress throughout exactly if every call delivers a new window. -/
theorem progresses_iff (hmode : cfg.noRequestMode = true) {calls : List CRVCall}
    (hfit : ∀ call ∈ calls, TagsFit call) :
    Always (observe layout cfg) (Progresses layout cfg) (init cfg, []) calls ↔
      Steps (observe layout cfg) DeliversNew (init cfg, []) calls := by
  refine always_iff_steps (I := Trails) (V := TagsFit)
    (fun st call hcall htrails => trails_observe layout hmode hcall htrails)
    (fun st call hcall htrails hprog => progresses_step_iff layout hmode hcall htrails hprog) ?_ ?_ hfit
  · exact ⟨by simp [init], by simp [init]⟩
  · exact (progresses_iff_notMem hmode []).mpr ⟨by simp [init], by simp⟩

end run

/-- No-request mode, from the window 0 on. -/
def noRequestConfig : CRVConfig := ⟨⟨0, .disabled, false, 0, 0, 1⟩, true, 0⟩

/-- A call in no-request mode, with the given tags delivered by its read. -/
def deliver (tags : List ℕ) : CRVCall := ⟨false, none, fun _ => Read.ofEvents (tags.map fun tag => ⟨tag, [7]⟩)⟩

theorem deliver_fits {tags : List ℕ} (h : ∀ tag ∈ tags, tag < 2 ^ 48) : TagsFit (deliver tags) := by
  intro id evt hevt
  have hread : (Read.ofEvents (tags.map fun tag => (⟨tag, [7]⟩ : DtcEvent))).delivered =
      tags.map fun tag => ⟨tag, [7]⟩ := by
    cases tags with
    | nil => rfl
    | cons tag tags => exact Read.delivered_of_first rfl
  rw [show (deliver tags).reads id = Read.ofEvents (tags.map fun tag => ⟨tag, [7]⟩) from rfl, hread] at hevt
  obtain ⟨tag, htag, rfl⟩ := List.mem_map.mp hevt
  exact h tag htag

theorem progresses_iff_three :
    let calls := [deliver [1], deliver [4, 2], deliver [5]]
    Always (observe .zeroTerminated noRequestConfig) (Progresses .zeroTerminated noRequestConfig)
        (init noRequestConfig, []) calls ↔
      Steps (observe .zeroTerminated noRequestConfig) DeliversNew (init noRequestConfig, []) calls :=
  progresses_iff .zeroTerminated rfl (by
    simp only [List.forall_mem_cons]
    exact ⟨deliver_fits (by decide), deliver_fits (by decide), deliver_fits (by decide), by simp⟩)

/-- The first read delivers nothing, and the second call, which asks for the same window, does not read at all. -/
theorem no_read_after_empty :
    let st := run (step .zeroTerminated noRequestConfig) (init noRequestConfig) [deliver []]
    st.getDataCalls = List.replicate 6 1 ∧
      (step .zeroTerminated noRequestConfig st (deliver [1])).getDataCalls = st.getDataCalls ∧
      ¬ Progresses .zeroTerminated noRequestConfig (st, []) := by
  refine ⟨by decide, by decide, fun h => ?_⟩
  obtain ⟨hnew, -⟩ := (progresses_iff_notMem rfl []).mp h
  exact hnew (by decide)

end CRVReceiver

end ArtdaqMu2e
