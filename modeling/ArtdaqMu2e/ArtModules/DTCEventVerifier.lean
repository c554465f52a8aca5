import ArtdaqMu2e.ArtModules.FragmentCollection
import ArtdaqMu2e.Lib.Runs
import Mathlib.Data.Finset.Dedup
import Mathlib.Data.Finset.Lattice.Lemmas

/-!
# The filter of the DTC events

`DTCEventVerifier::filter` walks through the data of an event for a dump, puts an event header that holds no error,
and returns true. What stands behind this `return` is never reached: a second walk, which learns the ids of the DTCs
and compares the event with them and with the configuration. Here `filter` is the function as it runs, and
`filterChecks` the part behind the `return`.

`Verdicts` is what a filter is for, said for any of the two. The part that is not reached meets it
(`verdicts_filterChecks`), and the function does so exactly if there is nothing to learn and nothing to reject
(`verdicts_filter_iff`).

Reading the data of a fragment is the business of artdaq-core-mu2e: `getData` stands for `DTCEventFragment`, and
`checks` for the header that `initErrorChecks` leaves. Metrics are left out.
-/

namespace ArtdaqMu2e

open Runs

/-- A data block: the byte count of its header, and the memory from its payload on, as 16-bit words. -/
structure DataBlock where
  byteCount : ℕ
  words : ℕ → ℕ

structure SubEventData where
  dtcID : ℕ
  eventWindowTag : ℕ
  link0Status : ℕ
  dataBlocks : List DataBlock

/-- `DTC_Event`, with `num_dtcs` of its header. -/
structure EventData where
  numDtcs : ℕ
  eventWindowTag : ℕ
  subEvents : List SubEventData

/-- The fields of `mu2e::EventHeader` that the filter sets. -/
structure EventChecks where
  ewt : ℕ
  ewtCheck : Bool
  dtcCheck : Bool
  deriving DecidableEq, Repr

structure VerifierConfig where
  nDTCs : ℤ
  skipCheck : Bool
  deriving DecidableEq, Repr

structure DTCEventVerifier where
  dtcs : Finset ℕ
  isFirstEvent : Bool
  deriving DecidableEq

/-- What `filter` returns, and what it does: the header it puts, the words it dumps, and its state after that. -/
structure Filtered where
  verdict : Bool
  header : EventChecks
  dump : List ℕ
  next : DTCEventVerifier

namespace DTCEventVerifier

def init : DTCEventVerifier := ⟨∅, true⟩

/-! ### The dump -/

/-- The loop `l = 0; l < bound; l += 2`, with `left` for the rounds it may take. -/
def payloadLoop (bound : ℕ) : (left l : ℕ) → List ℕ
  | 0, _ => []
  | left + 1, l => if l < bound then l :: payloadLoop bound left (l + 2) else []

/-- The indices of the words that are read. With a byte count below 16 the bound is negative, and nothing is. -/
def payloadIndices (byteCount : ℕ) : List ℕ := payloadLoop (byteCount - 16) byteCount 0

def dumpSubEvent (subevent : SubEventData) : List ℕ :=
  if 0 < subevent.link0Status then []
  else subevent.dataBlocks.flatMap fun block => (payloadIndices block.byteCount).map block.words

section filter
variable (layout : FragmentLayout) (getData : Fragment → EventData) (checks : EventChecks) (cfg : VerifierConfig)

/-- The function up to its `return`; `none` if it throws. -/
def filter (st : DTCEventVerifier) (handles : List FragmentHandle) : Option Filtered :=
  match DTCEventVerifier.fragments layout handles with
  | none => none
  | some fragments =>
    let dump := fragments.flatMap fun frag => (getData frag).subEvents.flatMap dumpSubEvent
    some ⟨true, checks, dump, st⟩

/-! ### Behind the return -/

/-- The metrics of a sub-event insert its id once more, which changes nothing. -/
def checkSubEvent (evtWTag : ℕ) (isFirstEvent : Bool) (st : Finset ℕ × EventChecks) (subEvt : SubEventData) :
    Finset ℕ × EventChecks :=
  let header := if subEvt.dtcID ∉ st.1 ∧ isFirstEvent = false then { st.2 with dtcCheck := false } else st.2
  (insert subEvt.dtcID st.1,
    if subEvt.eventWindowTag ≠ evtWTag then { header with ewtCheck := false } else header)

def checkFragment (isFirstEvent : Bool) (st : Finset ℕ × EventChecks) (data : EventData) :
    Finset ℕ × EventChecks :=
  let header := if isFirstEvent then { st.2 with ewt := data.eventWindowTag } else st.2
  let header := if (data.numDtcs : ℤ) ≠ cfg.nDTCs then { header with dtcCheck := false } else header
  data.subEvents.foldl (checkSubEvent data.eventWindowTag isFirstEvent) (st.1, header)

/-- The part behind the `return`, with the declarations of `evtHeader`, `fragments`, `containerFragments` and
`fragmentHandles` restored that are commented out there: it starts with a header and with no fragments of its own. -/
def filterChecks (st : DTCEventVerifier) (handles : List FragmentHandle) : Option Filtered :=
  match DTCEventVerifier.fragments layout handles with
  | none => none
  | some fragments =>
    let out := (fragments.map getData).foldl (checkFragment cfg st.isFirstEvent) (st.dtcs, checks)
    some ⟨(out.2.ewtCheck && out.2.dtcCheck) || cfg.skipCheck, out.2, [], ⟨out.1, false⟩⟩

/-! ### What a filter is for -/

/-- The data of the `DTCEVT` fragments of an event. -/
def dataOf (handles : List FragmentHandle) : List EventData :=
  (handles.flatMap (wantedOf layout)).map getData

/-- The ids of the DTCs in the events. -/
def learned (events : List (List FragmentHandle)) : Finset ℕ :=
  (events.flatMap fun handles => (dataOf layout getData handles).flatMap fun data =>
    data.subEvents.map (·.dtcID)).toFinset

/-- An event that is as configured, after events with the ids in `dtcs`. -/
structure Consistent (cfg : VerifierConfig) (dtcs : Finset ℕ) (isFirstEvent : Bool) (datas : List EventData) :
    Prop where
  numDtcs : ∀ data ∈ datas, (data.numDtcs : ℤ) = cfg.nDTCs
  tags : ∀ data ∈ datas, ∀ subEvt ∈ data.subEvents, subEvt.eventWindowTag = data.eventWindowTag
  known : isFirstEvent = false → ∀ data ∈ datas, ∀ subEvt ∈ data.subEvents, subEvt.dtcID ∈ dtcs

/-- An event on which the filter throws leaves it as it was. -/
def step (filter : DTCEventVerifier → List FragmentHandle → Option Filtered) (st : DTCEventVerifier)
    (handles : List FragmentHandle) : DTCEventVerifier :=
  ((filter st handles).map (·.next)).getD st

/-- A filter returns true on an event exactly if the check is to be skipped or the event is consistent, and learns
the ids of all events. -/
def Verdicts (filter : DTCEventVerifier → List FragmentHandle → Option Filtered) (events : List (List FragmentHandle)) :
    Prop :=
  ∀ done handles rest, events = done ++ handles :: rest →
    ∃ out, filter (run (step filter) init done) handles = some out ∧
      (out.verdict = true ↔ cfg.skipCheck = true ∨
        Consistent cfg (learned layout getData done) done.isEmpty (dataOf layout getData handles)) ∧
      out.next.dtcs = learned layout getData (done ++ [handles])

end filter

/-! ### The part that is not reached -/

section checks
variable (cfg : VerifierConfig) (isFirstEvent : Bool)

theorem ewtCheck_checkSubEvent (evtWTag : ℕ) (st : Finset ℕ × EventChecks) (subEvt : SubEventData) :
    (checkSubEvent evtWTag isFirstEvent st subEvt).2.ewtCheck = true ↔
      st.2.ewtCheck = true ∧ subEvt.eventWindowTag = evtWTag := by
  unfold checkSubEvent
  by_cases htag : subEvt.eventWindowTag = evtWTag
  · simp only [htag, ne_eq, not_true_eq_false, if_false, and_true]
    split_ifs <;> rfl
  · simp [htag]

theorem dtcCheck_checkSubEvent (evtWTag : ℕ) (st : Finset ℕ × EventChecks) (subEvt : SubEventData) :
    (checkSubEvent evtWTag isFirstEvent st subEvt).2.dtcCheck = true ↔
      st.2.dtcCheck = true ∧ (isFirstEvent = false → subEvt.dtcID ∈ st.1) := by
  have hheader : (checkSubEvent evtWTag isFirstEvent st subEvt).2.dtcCheck =
      (if subEvt.dtcID ∉ st.1 ∧ isFirstEvent = false then { st.2 with dtcCheck := false } else st.2).dtcCheck := by
    unfold checkSubEvent
    dsimp only
    split_ifs <;> rfl
  rw [hheader]
  split_ifs with hnew
  · simp [hnew.1, hnew.2]
  · refine (and_iff_left fun hlater => ?_).symm
    by_contra hid
    exact hnew ⟨hid, hlater⟩

theorem foldl_checkSubEvent (evtWTag : ℕ) (subEvts : List SubEventData) (st : Finset ℕ × EventChecks) :
    let out := subEvts.foldl (checkSubEvent evtWTag isFirstEvent) st
    out.1 = st.1 ∪ (subEvts.map (·.dtcID)).toFinset ∧
      (out.2.ewtCheck = true ↔ st.2.ewtCheck = true ∧ ∀ subEvt ∈ subEvts, subEvt.eventWindowTag = evtWTag) ∧
      (out.2.dtcCheck = true ↔ st.2.dtcCheck = true ∧
        (isFirstEvent = false → ∀ subEvt ∈ subEvts, subEvt.dtcID ∈ st.1)) := by
  induction subEvts generalizing st with
  | nil => simp
  | cons subEvt subEvts ih =>
    obtain ⟨hids, hewt, hdtc⟩ := ih (checkSubEvent evtWTag isFirstEvent st subEvt)
    rw [List.foldl_cons]
    refine ⟨?_, ?_, ?_⟩
    · rw [hids, List.map_cons, List.toFinset_cons]
      simp [checkSubEvent]
    · rw [hewt, ewtCheck_checkSubEvent, List.forall_mem_cons, and_assoc]
    · -- an id that was not known has cleared the flag, so that learning it changes nothing for the rest
      rw [hdtc, dtcCheck_checkSubEvent, and_assoc]
      refine and_congr_right fun _ => ?_
      simp only [List.forall_mem_cons]
      constructor
      · rintro ⟨hfirst, hrest⟩ hlater
        have hid := hfirst hlater
        have hrest := hrest hlater
        rw [show (checkSubEvent evtWTag isFirstEvent st subEvt).1 = st.1 from Finset.insert_eq_of_mem hid] at hrest
        exact ⟨hid, hrest⟩
      · intro h
        exact ⟨fun hlater => (h hlater).1,
          fun hlater other hother => Finset.mem_insert_of_mem ((h hlater).2 other hother)⟩

def idsOf (data : EventData) : Finset ℕ := (data.subEvents.map (·.dtcID)).toFinset

theorem consistent_singleton_iff {cfg : VerifierConfig} {isFirstEvent : Bool} {dtcs : Finset ℕ} {data : EventData} :
    Consistent cfg dtcs isFirstEvent [data] ↔
      (data.numDtcs : ℤ) = cfg.nDTCs ∧ (∀ subEvt ∈ data.subEvents, subEvt.eventWindowTag = data.eventWindowTag) ∧
        (isFirstEvent = false → ∀ subEvt ∈ data.subEvents, subEvt.dtcID ∈ dtcs) := by
  constructor
  · intro h
    exact ⟨h.numDtcs data (by simp), h.tags data (by simp), fun hlater => h.known hlater data (by simp)⟩
  · rintro ⟨hnum, htags, hknown⟩
    exact ⟨by simpa using hnum, by simpa using htags, by simpa using hknown⟩

theorem consistent_cons_iff (dtcs : Finset ℕ) (data : EventData) (datas : List EventData) :
    Consistent cfg dtcs isFirstEvent (data :: datas) ↔
      Consistent cfg dtcs isFirstEvent [data] ∧ Consistent cfg (dtcs ∪ idsOf data) isFirstEvent datas := by
  rw [consistent_singleton_iff]
  constructor
  · intro h
    obtain ⟨hnum, hnums⟩ := List.forall_mem_cons.mp h.numDtcs
    obtain ⟨htag, htags⟩ := List.forall_mem_cons.mp h.tags
    refine ⟨⟨hnum, htag, fun hlater => h.known hlater data (by simp)⟩, hnums, htags, fun hlater other hother => ?_⟩
    intro subEvt hsub
    exact Finset.mem_union_left _ (h.known hlater other (List.mem_cons_of_mem _ hother) subEvt hsub)
  · rintro ⟨⟨hnum, htag, hknown⟩, h⟩
    refine ⟨List.forall_mem_cons.mpr ⟨hnum, h.numDtcs⟩, List.forall_mem_cons.mpr ⟨htag, h.tags⟩, fun hlater => ?_⟩
    refine List.forall_mem_cons.mpr ⟨hknown hlater, fun other hother subEvt hsub => ?_⟩
    rcases Finset.mem_union.mp (h.known hlater other hother subEvt hsub) with hold | hnew
    · exact hold
    · obtain ⟨same, hsame, hid⟩ := List.mem_map.mp (List.mem_toFinset.mp hnew)
      rw [← hid]
      exact hknown hlater same hsame

theorem checkFragment_spec (st : Finset ℕ × EventChecks) (data : EventData) :
    (checkFragment cfg isFirstEvent st data).1 = st.1 ∪ idsOf data ∧
      ((checkFragment cfg isFirstEvent st data).2.ewtCheck = true ∧
          (checkFragment cfg isFirstEvent st data).2.dtcCheck = true ↔
        (st.2.ewtCheck = true ∧ st.2.dtcCheck = true) ∧ Consistent cfg st.1 isFirstEvent [data]) := by
  obtain ⟨hids, hewt, hdtc⟩ := foldl_checkSubEvent isFirstEvent data.eventWindowTag data.subEvents
    (st.1, if (data.numDtcs : ℤ) ≠ cfg.nDTCs then
      { (if isFirstEvent then { st.2 with ewt := data.eventWindowTag } else st.2) with dtcCheck := false }
      else if isFirstEvent then { st.2 with ewt := data.eventWindowTag } else st.2)
  refine ⟨hids, ?_⟩
  rw [checkFragment, hewt, hdtc, consistent_singleton_iff]
  by_cases hnum : (data.numDtcs : ℤ) = cfg.nDTCs <;> cases isFirstEvent <;> simp [hnum] <;> tauto

theorem foldl_checkFragment (datas : List EventData) (st : Finset ℕ × EventChecks) :
    let out := datas.foldl (checkFragment cfg isFirstEvent) st
    out.1 = st.1 ∪ (datas.flatMap fun data => data.subEvents.map (·.dtcID)).toFinset ∧
      (out.2.ewtCheck = true ∧ out.2.dtcCheck = true ↔
        (st.2.ewtCheck = true ∧ st.2.dtcCheck = true) ∧ Consistent cfg st.1 isFirstEvent datas) := by
  induction datas generalizing st with
  | nil =>
    refine ⟨by simp, (and_iff_left ?_).symm⟩
    exact ⟨by simp, by simp, by simp⟩
  | cons data datas ih =>
    obtain ⟨hids, hflags⟩ := ih (checkFragment cfg isFirstEvent st data)
    obtain ⟨hid, hflag⟩ := checkFragment_spec cfg isFirstEvent st data
    rw [List.foldl_cons]
    constructor
    · rw [hids, hid, List.flatMap_cons, List.toFinset_append, Finset.union_assoc, idsOf]
    · rw [hflags, hflag, hid, consistent_cons_iff cfg isFirstEvent st.1 data datas, and_assoc]

end checks

/-! ### Over all events -/

section run
variable {layout : FragmentLayout} {getData : Fragment → EventData} (checks : EventChecks) (cfg : VerifierConfig)

theorem learned_append (done events : List (List FragmentHandle)) :
    learned layout getData (done ++ events) = learned layout getData done ∪ learned layout getData events := by
  simp [learned]

theorem filterChecks_of_oneKind (st : DTCEventVerifier) {handles : List FragmentHandle}
    (hkind : ∀ handle ∈ handles, OneKind layout handle) :
    ∃ out, filterChecks layout getData checks cfg st handles = some out ∧
      out.next = ⟨st.dtcs ∪ learned layout getData [handles], false⟩ ∧
      (checks.ewtCheck = true → checks.dtcCheck = true →
        (out.verdict = true ↔ cfg.skipCheck = true ∨
          Consistent cfg st.dtcs st.isFirstEvent (dataOf layout getData handles))) := by
  have hfrags : DTCEventVerifier.fragments layout handles = some (handles.flatMap (wantedOf layout)) :=
    collectFragments_eq_wanted hkind
  obtain ⟨hids, hflags⟩ := foldl_checkFragment cfg st.isFirstEvent (dataOf layout getData handles) (st.dtcs, checks)
  unfold filterChecks
  rw [hfrags]
  refine ⟨_, rfl, ?_, fun hewt hdtc => ?_⟩
  · have hlearned : learned layout getData [handles] =
        ((dataOf layout getData handles).flatMap fun data => data.subEvents.map (·.dtcID)).toFinset := by
      simp [learned]
    rw [hlearned, ← hids]
    rfl
  · rw [Bool.or_eq_true, Bool.and_eq_true, or_comm]
    refine or_congr_right (hflags.trans ?_)
    simp [hewt, hdtc]

theorem run_filterChecks {done : List (List FragmentHandle)}
    (hkind : ∀ handles ∈ done, ∀ handle ∈ handles, OneKind layout handle) (st : DTCEventVerifier) :
    run (step (filterChecks layout getData checks cfg)) st done =
      ⟨st.dtcs ∪ learned layout getData done, st.isFirstEvent && done.isEmpty⟩ := by
  induction done generalizing st with
  | nil => simp [learned]
  | cons handles done ih =>
    obtain ⟨hhandles, hdone⟩ := List.forall_mem_cons.mp hkind
    obtain ⟨out, hout, hnext, -⟩ := filterChecks_of_oneKind checks cfg st hhandles
    have hstep : step (filterChecks layout getData checks cfg) st handles = out.next := by rw [step, hout]; rfl
    have hlearned : learned layout getData (handles :: done) =
        learned layout getData [handles] ∪ learned layout getData done := learned_append [handles] done
    rw [run_cons, hstep, hnext, ih hdone, hlearned, Finset.union_assoc]
    simp

/-- **The part behind the return gives the verdicts** that the filter is for, once `initErrorChecks` has set both
flags, on events with handles of one kind. -/
theorem verdicts_filterChecks {checks : EventChecks} (hewt : checks.ewtCheck = true) (hdtc : checks.dtcCheck = true)
    {events : List (List FragmentHandle)} (hkind : ∀ handles ∈ events, ∀ handle ∈ handles, OneKind layout handle) :
    Verdicts layout getData cfg (filterChecks layout getData checks cfg) events := by
  rintro done handles rest rfl
  have hdone : ∀ handles ∈ done, ∀ handle ∈ handles, OneKind layout handle :=
    fun other hother => hkind other (List.mem_append_left _ hother)
  obtain ⟨out, hout, hnext, hverdict⟩ := filterChecks_of_oneKind checks cfg
    (run (step (filterChecks layout getData checks cfg)) init done) (hkind handles (by simp))
  refine ⟨out, hout, ?_, ?_⟩
  · rw [hverdict hewt hdtc, run_filterChecks checks cfg hdone]
    simp [init]
  · rw [hnext, run_filterChecks checks cfg hdone, learned_append]
    simp [init]

theorem run_filter (st : DTCEventVerifier) (done : List (List FragmentHandle)) :
    run (step (filter layout getData checks)) st done = st := by
  induction done with
  | nil => rfl
  | cons handles done ih =>
    have hstep : step (filter layout getData checks) st handles = st := by
      unfold step filter
      split <;> rfl
    rw [run_cons, hstep, ih]

theorem of_filter_eq_some (st : DTCEventVerifier) (handles : List FragmentHandle) {out : Filtered}
    (h : filter layout getData checks st handles = some out) :
    DTCEventVerifier.fragments layout handles ≠ none ∧ out.verdict = true ∧ out.next = st := by
  unfold filter at h
  cases hfrags : DTCEventVerifier.fragments layout handles with
  | none =>
    rw [hfrags] at h
    cases h
  | some fragments =>
    rw [hfrags] at h
    rw [← Option.some.inj h]
    exact ⟨by simp, rfl, rfl⟩

theorem learned_eq_empty_iff {events : List (List FragmentHandle)} :
    learned layout getData events = ∅ ↔
      ∀ handles ∈ events, ∀ data ∈ dataOf layout getData handles, data.subEvents = [] := by
  rw [learned, List.toFinset_eq_empty_iff, List.flatMap_eq_nil_iff]
  simp only [List.flatMap_eq_nil_iff, List.map_eq_nil_iff]

/-- **The filter as it runs** gives the verdicts it is for exactly if no event makes it throw, no event has a
sub-event, and the check is to be skipped or no event has a fragment with another number of DTCs. -/
theorem verdicts_filter_iff (events : List (List FragmentHandle)) :
    Verdicts layout getData cfg (filter layout getData checks) events ↔
      (∀ handles ∈ events, DTCEventVerifier.fragments layout handles ≠ none) ∧
        (∀ handles ∈ events, ∀ data ∈ dataOf layout getData handles, data.subEvents = []) ∧
        (cfg.skipCheck = true ∨
          ∀ handles ∈ events, ∀ data ∈ dataOf layout getData handles, (data.numDtcs : ℤ) = cfg.nDTCs) := by
  constructor
  · intro h
    have hevent : ∀ handles ∈ events, DTCEventVerifier.fragments layout handles ≠ none ∧
        (∀ data ∈ dataOf layout getData handles, data.subEvents = []) ∧
        (cfg.skipCheck = true ∨ ∀ data ∈ dataOf layout getData handles, (data.numDtcs : ℤ) = cfg.nDTCs) := by
      intro handles hmem
      obtain ⟨done, rest, hsplit⟩ := List.append_of_mem hmem
      obtain ⟨out, hout, hverdict, hlearned⟩ := h done handles rest hsplit
      obtain ⟨hfrags, htrue, hnext⟩ := of_filter_eq_some checks _ handles hout
      rw [hnext, run_filter] at hlearned
      have hnone := learned_eq_empty_iff.mp hlearned.symm
      exact ⟨hfrags, hnone handles (by simp), (hverdict.mp htrue).imp_right fun hcons => hcons.numDtcs⟩
    refine ⟨fun handles hmem => (hevent handles hmem).1, fun handles hmem => (hevent handles hmem).2.1, ?_⟩
    by_cases hskip : cfg.skipCheck = true
    · exact Or.inl hskip
    · exact Or.inr fun handles hmem => (hevent handles hmem).2.2.resolve_left hskip
  · rintro ⟨hfrags, hnone, hnum⟩ done handles rest rfl
    obtain ⟨fragments, hsome⟩ := Option.ne_none_iff_exists'.mp (hfrags handles (by simp))
    have hlearned : learned layout getData (done ++ [handles]) = ∅ := by
      refine learned_eq_empty_iff.mpr fun other hother => hnone other ?_
      rcases List.mem_append.mp hother with hdone | hlast
      · exact List.mem_append_left _ hdone
      · simp [List.mem_singleton.mp hlast]
    rw [run_filter, hlearned]
    unfold filter
    rw [hsome]
    refine ⟨_, rfl, iff_of_true rfl (hnum.imp_right fun hall => ?_), rfl⟩
    have hempty := hnone handles (by simp)
    refine ⟨hall handles (by simp), fun data hdata => ?_, fun _ data hdata => ?_⟩
    · simp [hempty data hdata]
    · simp [hempty data hdata]

end run

/-- The data of a fragment with one sub-event, of DTC 3, whose tag is one too high. -/
def wrongTag (frag : Fragment) : EventData :=
  ⟨1, frag.timestamp, [⟨3, frag.timestamp + 1, 0, [⟨18, fun l => l⟩]⟩]⟩

/-- The filter accepts the event, and learns nothing. -/
theorem filter_accepts_wrong_tag :
    let events : List (List FragmentHandle) := [[some [dtcFragment 5]]]
    let cfg : VerifierConfig := ⟨1, false⟩
    ((filter .zeroTerminated wrongTag ⟨0, true, true⟩ init [some [dtcFragment 5]]).map
        fun out => (out.verdict, out.next.dtcs)) = some (true, ∅) ∧
      learned .zeroTerminated wrongTag events = {3} ∧
      ¬ Consistent cfg ∅ true (dataOf .zeroTerminated wrongTag [some [dtcFragment 5]]) ∧
      ¬ Verdicts .zeroTerminated wrongTag cfg (filter .zeroTerminated wrongTag ⟨0, true, true⟩) events := by
  have hdata : (dataOf .zeroTerminated wrongTag [some [dtcFragment 5]]) = [wrongTag (dtcFragment 5)] := rfl
  refine ⟨by decide, by decide, fun h => ?_, fun h => ?_⟩
  · have htag := h.tags (wrongTag (dtcFragment 5)) (by simp [hdata]) _ List.mem_cons_self
    exact absurd htag (by decide)
  · obtain ⟨out, hout, -, hlearned⟩ := h [] [some [dtcFragment 5]] [] rfl
    obtain ⟨-, -, hnext⟩ := of_filter_eq_some _ _ _ hout
    rw [hnext] at hlearned
    revert hlearned
    decide

end DTCEventVerifier

end ArtdaqMu2e
