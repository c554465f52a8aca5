import ArtdaqMu2e.ArtModules.Mu2eRequestSender
import Mathlib.Data.List.Nodup

/-!
# The sliding window of requests

Between events with a valid header and an id of their own, the module's list of sent requests and the active
requests of the sender are the same window: the last `max_request_count` headers, in the order of the events
(`slidingWindow_run`). What went through is said by a sender that writes down the calls it gets (`logged`): a request
is added when its event comes, and removed when it leaves the window.

The argument is about a sender that holds a list of headers (`Holds`). Adding a header appends it, removing an id
takes off the front, and the trimming loop does the latter as long as the list is too long.
-/

namespace ArtdaqMu2e

open Lists Runs

/-! ### A sender with a log -/

/-- A call, and whether it changed anything: the id was absent, or it was there. -/
inductive RequestCall where
  | add (hdr : RawEventHeader) (absent : Bool)
  | remove (seq : ℕ) (present : Bool)
  deriving DecidableEq, Repr

namespace RequestCall

def added : RequestCall → Option RawEventHeader
  | add hdr _ => some hdr
  | remove _ _ => none

def removed : RequestCall → Option ℕ
  | add _ _ => none
  | remove seq _ => some seq

def effective : RequestCall → Bool
  | add _ absent => absent
  | remove _ present => present

end RequestCall

/-- The sender `R`, with a log of its calls. -/
def RequestSender.logged {σ : Type*} (R : RequestSender σ) : RequestSender (σ × List RequestCall) where
  init := (R.init, [])
  active s := R.active s.1
  addRequest seq ts s := (R.addRequest seq ts s.1, s.2 ++ [.add ⟨seq, ts⟩ (R.active s.1 seq).isNone])
  removeRequest seq s := (R.removeRequest seq s.1, s.2 ++ [.remove seq (R.active s.1 seq).isSome])
  setRequestMode mode s := (R.setRequestMode mode s.1, s.2)
  setRunNumber run s := (R.setRunNumber run s.1, s.2)
  sendRequest s := (R.sendRequest s.1, s.2)
  active_init := R.active_init
  active_addRequest seq ts s := R.active_addRequest seq ts s.1
  active_removeRequest seq s := R.active_removeRequest seq s.1
  active_setRequestMode mode s := R.active_setRequestMode mode s.1
  active_setRunNumber run s := R.active_setRunNumber run s.1
  active_sendRequest s := R.active_sendRequest s.1

namespace Mu2eRequestSender

variable {σ : Type*} (R : RequestSender σ) (maxListSize : ℕ)

/-- The module without the log. -/
def forget (st : Mu2eRequestSender (σ × List RequestCall)) : Mu2eRequestSender σ :=
  ⟨st.sentRequests, st.requestSender.1⟩

theorem forget_trim (seqs : List ℕ) (s : σ × List RequestCall) :
    forget (trim R.logged maxListSize seqs s) = trim R maxListSize seqs s.1 := by
  induction seqs generalizing s with
  | nil => rfl
  | cons seq seqs ih =>
    rw [trim, trim]
    split_ifs
    · rw [ih]
      rfl
    · rfl

theorem forget_run (evts : List RequestEvent) (st : Mu2eRequestSender (σ × List RequestCall)) :
    forget (run (analyze R.logged maxListSize) st evts) = run (analyze R maxListSize) (forget st) evts := by
  induction evts generalizing st with
  | nil => rfl
  | cons evt evts ih =>
    rw [run_cons, run_cons, ih, analyze, forget_trim]
    rfl

/-! ### A sender that holds headers -/

def ids (hdrs : List RawEventHeader) : List ℕ := hdrs.map (·.sequenceID)

@[simp] theorem ids_cons (hdr : RawEventHeader) (hdrs : List RawEventHeader) :
    ids (hdr :: hdrs) = hdr.sequenceID :: ids hdrs := rfl

@[simp] theorem ids_append (first second : List RawEventHeader) : ids (first ++ second) = ids first ++ ids second :=
  List.map_append

/-- The active requests are those of the headers. -/
def Holds (s : σ) (hdrs : List RawEventHeader) : Prop :=
  ∀ seq ts, R.active s seq = some ts ↔ ⟨seq, ts⟩ ∈ hdrs

variable {R}

theorem mem_ids {seq ts : ℕ} {hdrs : List RawEventHeader} (h : ⟨seq, ts⟩ ∈ hdrs) : seq ∈ ids hdrs :=
  List.mem_map.mpr ⟨_, h, rfl⟩

theorem Holds.active_eq_none_iff {s : σ} {hdrs : List RawEventHeader} (h : Holds R s hdrs) (seq : ℕ) :
    R.active s seq = none ↔ seq ∉ ids hdrs := by
  constructor
  · intro hnone hmem
    obtain ⟨⟨_, ts⟩, hhdr, rfl⟩ := List.mem_map.mp hmem
    rw [(h _ ts).mpr hhdr] at hnone
    cases hnone
  · intro hmem
    by_contra hsome
    obtain ⟨ts, hts⟩ := Option.ne_none_iff_exists'.mp hsome
    exact hmem (mem_ids ((h seq ts).mp hts))

theorem Holds.addRequest {s : σ} {hdrs : List RawEventHeader} (h : Holds R s hdrs) {hdr : RawEventHeader}
    (hnew : hdr.sequenceID ∉ ids hdrs) : Holds R (R.addRequest hdr.sequenceID hdr.timestamp s) (hdrs ++ [hdr]) := by
  have hnone := (h.active_eq_none_iff hdr.sequenceID).mpr hnew
  intro seq ts
  rw [R.active_addRequest, List.mem_append, List.mem_singleton]
  split_ifs with hseq
  · obtain ⟨rfl, -⟩ := hseq
    have hold : ⟨hdr.sequenceID, ts⟩ ∉ hdrs := fun hmem => hnew (mem_ids hmem)
    rw [or_iff_right hold]
    constructor
    · intro hts
      rw [← Option.some.inj hts]
    · intro hhdr
      rw [← hhdr]
  · rw [h seq ts]
    refine (or_iff_left ?_).symm
    rintro rfl
    exact hseq ⟨rfl, hnone⟩

theorem Holds.removeRequest {s : σ} {hdr : RawEventHeader} {hdrs : List RawEventHeader} (h : Holds R s (hdr :: hdrs))
    (hnodup : (ids (hdr :: hdrs)).Nodup) : Holds R (R.removeRequest hdr.sequenceID s) hdrs := by
  obtain ⟨hfirst, -⟩ := List.nodup_cons.mp hnodup
  intro seq ts
  rw [R.active_removeRequest]
  split_ifs with hseq
  · subst hseq
    have hgone : ⟨hdr.sequenceID, ts⟩ ∉ hdrs := fun hmem => hfirst (mem_ids hmem)
    exact iff_of_false (by simp) hgone
  · rw [h seq ts, List.mem_cons, or_iff_right]
    rintro rfl
    exact hseq rfl

theorem log_addRequest {s : σ × List RequestCall} {hdr : RawEventHeader}
    (hnone : R.active s.1 hdr.sequenceID = none) :
    (R.logged.addRequest hdr.sequenceID hdr.timestamp s).2 = s.2 ++ [.add hdr true] := by
  simp [RequestSender.logged, hnone]

theorem log_removeRequest {s : σ × List RequestCall} {seq ts : ℕ} (hsome : R.active s.1 seq = some ts) :
    (R.logged.removeRequest seq s).2 = s.2 ++ [.remove seq true] := by
  simp [RequestSender.logged, hsome]

theorem trim_holds {hdrs : List RawEventHeader} {s : σ × List RequestCall} (h : Holds R.logged s hdrs)
    (hnodup : (ids hdrs).Nodup) :
    let st := trim R.logged maxListSize (ids hdrs) s
    st.sentRequests = ids (hdrs.rtake maxListSize) ∧ Holds R.logged st.requestSender (hdrs.rtake maxListSize) ∧
      st.requestSender.2 = s.2 ++ (ids (hdrs.rdrop maxListSize)).map (.remove · true) := by
  induction hdrs generalizing s with
  | nil =>
    have hnil : trim R.logged maxListSize (ids []) s = ⟨[], s⟩ := rfl
    rw [hnil, List.rtake_nil, List.rdrop_nil]
    exact ⟨rfl, h, (List.append_nil _).symm⟩
  | cons hdr hdrs ih =>
    have hlength : (hdr.sequenceID :: ids hdrs).length = (hdr :: hdrs).length := by simp [ids]
    rw [ids_cons, trim, hlength]
    by_cases hlong : maxListSize < (hdr :: hdrs).length
    · obtain ⟨hsent, hholds, hlog⟩ := ih (h.removeRequest hnodup) (List.nodup_cons.mp hnodup).2
      rw [if_pos hlong, rtake_cons_of_lt hlong, rdrop_cons_of_lt hlong, ids_cons, List.map_cons]
      refine ⟨hsent, hholds, ?_⟩
      rw [hlog, log_removeRequest ((h _ hdr.timestamp).mpr List.mem_cons_self), List.append_assoc]
      rfl
    · have hshort := Nat.le_of_not_lt hlong
      rw [if_neg hlong, rtake_of_le hshort, rdrop_of_le hshort]
      exact ⟨rfl, h, (List.append_nil _).symm⟩

theorem analyze_holds {hdrs : List RawEventHeader} {st : Mu2eRequestSender (σ × List RequestCall)}
    (hsent : st.sentRequests = ids hdrs) (hactive : Holds R.logged st.requestSender hdrs) {evt : RequestEvent}
    {hdr : RawEventHeader} (hvalid : firstValid evt.headers = some hdr) (hnodup : (ids (hdrs ++ [hdr])).Nodup) :
    let st' := analyze R.logged maxListSize st evt
    st'.sentRequests = ids ((hdrs ++ [hdr]).rtake maxListSize) ∧
      Holds R.logged st'.requestSender ((hdrs ++ [hdr]).rtake maxListSize) ∧
      st'.requestSender.2 = st.requestSender.2 ++
        (.add hdr true :: (ids ((hdrs ++ [hdr]).rdrop maxListSize)).map (.remove · true)) := by
  have hids : ids (hdrs ++ [hdr]) = ids hdrs ++ [hdr.sequenceID] := List.map_append
  have hnew : hdr.sequenceID ∉ ids hdrs := by
    rw [hids] at hnodup
    exact fun hmem => List.disjoint_of_nodup_append hnodup hmem List.mem_cons_self
  have hstep : analyze R.logged maxListSize st evt = trim R.logged maxListSize (ids (hdrs ++ [hdr]))
      (R.logged.addRequest hdr.sequenceID hdr.timestamp st.requestSender) := by
    rw [analyze, hvalid, Option.getD_some, hsent, hids]
  obtain ⟨hsent', hactive', hlog⟩ := trim_holds maxListSize (hactive.addRequest hnew) hnodup
  rw [log_addRequest ((hactive.active_eq_none_iff _).mpr hnew), List.append_assoc] at hlog
  dsimp only
  rw [hstep]
  exact ⟨hsent', hactive', hlog⟩

/-! ### The window -/

/-- The module after events with the headers `hdrs`. -/
structure Window (R : RequestSender σ) (maxListSize : ℕ) (hdrs : List RawEventHeader)
    (st : Mu2eRequestSender (σ × List RequestCall)) : Prop where
  sent : st.sentRequests = ids (hdrs.rtake maxListSize)
  active : Holds R.logged st.requestSender (hdrs.rtake maxListSize)
  added : st.requestSender.2.filterMap (·.added) = hdrs
  removed : st.requestSender.2.filterMap (·.removed) = ids (hdrs.rdrop maxListSize)
  effective : ∀ call ∈ st.requestSender.2, call.effective = true

theorem window_init : Window R maxListSize [] (init R.logged) where
  sent := by
    rw [List.rtake_nil]
    rfl
  active seq ts := by
    rw [init, R.logged.active_init]
    simp
  added := rfl
  removed := by
    rw [List.rdrop_nil]
    rfl
  effective _ h := absurd h List.not_mem_nil

theorem Window.analyze {hdrs : List RawEventHeader} {st : Mu2eRequestSender (σ × List RequestCall)}
    (h : Window R maxListSize hdrs st) {evt : RequestEvent} {hdr : RawEventHeader}
    (hvalid : firstValid evt.headers = some hdr) (hnodup : (ids (hdrs ++ [hdr])).Nodup) :
    Window R maxListSize (hdrs ++ [hdr]) (analyze R.logged maxListSize st evt) := by
  have hheld : (ids (hdrs.rtake maxListSize ++ [hdr])).Nodup :=
    hnodup.sublist (((List.drop_sublist _ _).append (List.Sublist.refl [hdr])).map _)
  obtain ⟨hsent, hactive, hlog⟩ := analyze_holds maxListSize h.sent h.active hvalid hheld
  rw [← rtake_concat] at hsent hactive
  refine ⟨hsent, hactive, ?_, ?_, ?_⟩
  · rw [hlog, List.filterMap_append, h.added]
    simp [RequestCall.added, List.filterMap_map]
  · rw [hlog, List.filterMap_append, h.removed, rdrop_concat hdrs, ids_append]
    simp [RequestCall.removed, List.filterMap_map]
  · rw [hlog]
    simp only [List.forall_mem_append, List.forall_mem_cons, List.forall_mem_map]
    exact ⟨h.effective, rfl, fun _ _ => rfl⟩

/-- **The sliding window**: after any events whose valid headers `hdrs` have distinct ids, the list of sent requests
holds the ids of the last `maxListSize` headers, the active requests are these headers, every header was added once,
and the ids of those before the window were removed once, both in the order of the events. -/
theorem slidingWindow_run (R : RequestSender σ) (maxListSize : ℕ) {evts : List RequestEvent}
    {hdrs : List RawEventHeader} (hvalid : evts.map (firstValid ·.headers) = hdrs.map some)
    (hnodup : (ids hdrs).Nodup) :
    let st := run (analyze R.logged maxListSize) (init R.logged) evts
    Window R maxListSize hdrs st ∧ forget st = run (analyze R maxListSize) (init R) evts := by
  refine ⟨?_, forget_run R maxListSize evts (init R.logged)⟩
  induction hdrs using List.reverseRecOn generalizing evts with
  | nil =>
    rw [List.map_eq_nil_iff.mp hvalid]
    exact window_init maxListSize
  | append_singleton hdrs hdr ih =>
    rw [List.map_append] at hvalid
    obtain ⟨evts, last, rfl, hdone, hlast⟩ := List.map_eq_append_iff.mp hvalid
    obtain ⟨evt, rfl, hevt⟩ := List.map_eq_singleton_iff.mp hlast
    have hbefore : (ids hdrs).Nodup := hnodup.sublist ((List.sublist_append_left hdrs [hdr]).map _)
    rw [run_append]
    exact (ih hdone hbefore).analyze maxListSize hevt hnodup

/-- A window of two headers, over three events whose ids are in no order. -/
theorem slidingWindow_run_two :
    let evts : List RequestEvent :=
      [⟨[some ⟨7, 10⟩], ⟨0, 0⟩⟩, ⟨[none, some ⟨2, 20⟩], ⟨0, 0⟩⟩, ⟨[some ⟨5, 30⟩], ⟨0, 0⟩⟩]
    let st := run (analyze RequestSender.table.logged 2) (init RequestSender.table.logged) evts
    Window RequestSender.table 2 [⟨7, 10⟩, ⟨2, 20⟩, ⟨5, 30⟩] st ∧ st.sentRequests = [2, 5] :=
  ⟨(slidingWindow_run RequestSender.table 2 rfl (by decide)).1, rfl⟩

end Mu2eRequestSender

end ArtdaqMu2e
