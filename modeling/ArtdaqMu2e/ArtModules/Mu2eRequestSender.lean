import ArtdaqMu2e.Lib.Lists
import ArtdaqMu2e.Lib.Runs

/-!
# The request sender

`Mu2eRequestSender` makes a request for every event, and keeps the last `max_request_count` of them active. The
requests themselves are kept by artdaq's `RequestSender`, which is not part of this repository: `RequestSender` is
any kind of state with these calls and the laws that the module relies on. It keeps one timestamp for an id.

Nothing is removed at the end of a run or at the beginning of the next, neither from the module's own list nor from
the sender. So what is active belongs to the current run (`OnlyCurrent`) exactly as long as no run begins with active
requests, and no event without a header adds what the unset locals happen to hold (`onlyCurrent_iff`).
-/

namespace ArtdaqMu2e

open Lists Runs

/-! ### The sender of artdaq -/

inductive RequestMode where
  | normal
  | endOfRun
  deriving DecidableEq, Repr

structure RequestSender (σ : Type*) where
  init : σ
  active : σ → ℕ → Option ℕ
  addRequest : (seq ts : ℕ) → σ → σ
  removeRequest : (seq : ℕ) → σ → σ
  setRequestMode : RequestMode → σ → σ
  setRunNumber : ℕ → σ → σ
  sendRequest : σ → σ
  active_init : ∀ id, active init id = none
  active_addRequest : ∀ seq ts s id, active (addRequest seq ts s) id =
    if id = seq ∧ active s seq = none then some ts else active s id
  active_removeRequest : ∀ seq s id, active (removeRequest seq s) id = if id = seq then none else active s id
  active_setRequestMode : ∀ mode s, active (setRequestMode mode s) = active s
  active_setRunNumber : ∀ run s, active (setRunNumber run s) = active s
  active_sendRequest : ∀ s, active (sendRequest s) = active s

/-- A sender that is the function from ids to timestamps. -/
def RequestSender.table : RequestSender (ℕ → Option ℕ) where
  init _ := none
  active s := s
  addRequest seq ts s id := if id = seq ∧ s seq = none then some ts else s id
  removeRequest seq s id := if id = seq then none else s id
  setRequestMode _ s := s
  setRunNumber _ s := s
  sendRequest s := s
  active_init _ := rfl
  active_addRequest _ _ _ _ := rfl
  active_removeRequest _ _ _ := rfl
  active_setRequestMode _ _ := rfl
  active_setRunNumber _ _ := rfl
  active_sendRequest _ := rfl

/-! ### The module -/

structure RawEventHeader where
  sequenceID : ℕ
  timestamp : ℕ
  deriving DecidableEq, Repr

/-- An event: its handles to raw event headers, `none` for one that is not valid, and what the two locals of
`analyze` hold before they are set. -/
structure RequestEvent where
  headers : List (Option RawEventHeader)
  unset : RawEventHeader
  deriving DecidableEq, Repr

structure Mu2eRequestSender (σ : Type*) where
  sentRequests : List ℕ
  requestSender : σ

inductive SenderCall where
  | beginRun (run : ℕ)
  | analyze (evt : RequestEvent)
  | endRun
  deriving DecidableEq, Repr

namespace Mu2eRequestSender

variable {σ : Type*} (R : RequestSender σ) (maxListSize : ℕ)

/-- The loop over the handles. -/
def firstValid : List (Option RawEventHeader) → Option RawEventHeader
  | [] => none
  | none :: handles => firstValid handles
  | some hdr :: _ => some hdr

/-- The loop that removes requests from the front while the list is too long. -/
def trim : List ℕ → σ → Mu2eRequestSender σ
  | [], s => ⟨[], s⟩
  | seq :: seqs, s =>
    if maxListSize < (seq :: seqs).length then trim seqs (R.removeRequest seq s) else ⟨seq :: seqs, s⟩

def init : Mu2eRequestSender σ := ⟨[], R.init⟩

def analyze (st : Mu2eRequestSender σ) (evt : RequestEvent) : Mu2eRequestSender σ :=
  let hdr := (firstValid evt.headers).getD evt.unset
  trim R maxListSize (st.sentRequests ++ [hdr.sequenceID])
    (R.addRequest hdr.sequenceID hdr.timestamp st.requestSender)

def beginRun (st : Mu2eRequestSender σ) (run : ℕ) : Mu2eRequestSender σ :=
  { st with requestSender := R.setRunNumber run (R.setRequestMode .normal st.requestSender) }

def endRun (st : Mu2eRequestSender σ) : Mu2eRequestSender σ :=
  { st with requestSender := R.sendRequest (R.setRequestMode .endOfRun st.requestSender) }

def step (st : Mu2eRequestSender σ) : SenderCall → Mu2eRequestSender σ
  | .beginRun run => beginRun R st run
  | .analyze evt => analyze R maxListSize st evt
  | .endRun => endRun R st

def active (st : Mu2eRequestSender σ) : ℕ → Option ℕ := R.active st.requestSender

/-! ### What a call does to the active requests -/

@[simp] theorem active_beginRun (st : Mu2eRequestSender σ) (run : ℕ) : active R (beginRun R st run) = active R st := by
  rw [active, beginRun, R.active_setRunNumber, R.active_setRequestMode, active]

@[simp] theorem active_endRun (st : Mu2eRequestSender σ) : active R (endRun R st) = active R st := by
  rw [active, endRun, R.active_sendRequest, R.active_setRequestMode, active]

/-- The ids that are trimmed off a list. -/
def trimmed (seqs : List ℕ) : List ℕ := seqs.take (seqs.length - maxListSize)

theorem trimmed_cons_of_lt {seq : ℕ} {seqs : List ℕ} (h : maxListSize < (seq :: seqs).length) :
    trimmed maxListSize (seq :: seqs) = seq :: trimmed maxListSize seqs :=
  rdrop_cons_of_lt h

theorem trimmed_of_le {seqs : List ℕ} (h : seqs.length ≤ maxListSize) : trimmed maxListSize seqs = [] :=
  rdrop_of_le h

theorem active_trim (seqs : List ℕ) (s : σ) (id : ℕ) :
    active R (trim R maxListSize seqs s) id = if id ∈ trimmed maxListSize seqs then none else R.active s id := by
  induction seqs generalizing s with
  | nil => simp [trim, active, trimmed]
  | cons seq seqs ih =>
    rw [trim]
    split_ifs with hlong hmem hmem
    · rw [ih, R.active_removeRequest]
      rw [trimmed_cons_of_lt maxListSize hlong] at hmem
      rcases List.mem_cons.mp hmem with rfl | hrest
      · simp
      · simp [hrest]
    · rw [trimmed_cons_of_lt maxListSize hlong, List.mem_cons, not_or] at hmem
      rw [ih, R.active_removeRequest, if_neg hmem.2, if_neg hmem.1]
    · rw [trimmed_of_le maxListSize (Nat.le_of_not_lt hlong)] at hmem
      cases hmem
    · rfl

/-! ### Requests of the current run -/

/-- A module, and the headers of the events since the last beginning of a run, if there was one. -/
abbrev Observed (σ : Type*) := Mu2eRequestSender σ × Option (List RawEventHeader)

def observe (st : Observed σ) (call : SenderCall) : Observed σ :=
  (step R maxListSize st.1 call,
    match call with
    | .beginRun _ => some []
    | .analyze evt => st.2.map (· ++ (firstValid evt.headers).toList)
    | .endRun => st.2)

/-- What is active is the first valid header of an event of the current run. -/
def OnlyCurrent (st : Observed σ) : Prop :=
  ∀ hdrs, st.2 = some hdrs → ∀ seq ts, active R st.1 seq = some ts → ⟨seq, ts⟩ ∈ hdrs

/-- A run begins with nothing active. An event of a run has a valid header, or the unset locals change nothing: their
id is active, or goes out at once, or they happen to hold a header of the run. -/
def KeepsCurrent (st : Observed σ) : SenderCall → Prop
  | .beginRun _ => ∀ seq, active R st.1 seq = none
  | .analyze evt => ∀ hdrs, st.2 = some hdrs → firstValid evt.headers = none →
      active R st.1 evt.unset.sequenceID ≠ none ∨
        evt.unset.sequenceID ∈ trimmed maxListSize (st.1.sentRequests ++ [evt.unset.sequenceID]) ∨ evt.unset ∈ hdrs
  | .endRun => True

theorem active_analyze (st : Mu2eRequestSender σ) (evt : RequestEvent) (id : ℕ) :
    let hdr := (firstValid evt.headers).getD evt.unset
    active R (analyze R maxListSize st evt) id =
      if id ∈ trimmed maxListSize (st.sentRequests ++ [hdr.sequenceID]) then none
      else if id = hdr.sequenceID ∧ active R st hdr.sequenceID = none then some hdr.timestamp
      else active R st id := by
  rw [analyze, active_trim, R.active_addRequest]
  rfl

theorem active_analyze_eq_some {st : Mu2eRequestSender σ} {evt : RequestEvent} {seq ts : ℕ}
    (h : active R (analyze R maxListSize st evt) seq = some ts) :
    active R st seq = some ts ∨
      (⟨seq, ts⟩ = (firstValid evt.headers).getD evt.unset ∧ active R st seq = none ∧
        seq ∉ trimmed maxListSize (st.sentRequests ++ [seq])) := by
  rw [active_analyze] at h
  split_ifs at h with htrim hadd
  · obtain ⟨rfl, hnone⟩ := hadd
    obtain rfl := Option.some.inj h
    exact Or.inr ⟨rfl, hnone, htrim⟩
  · exact Or.inl h

theorem onlyCurrent_analyze_iff (st : Mu2eRequestSender σ) (hdrs : List RawEventHeader) (evt : RequestEvent)
    (h : OnlyCurrent R (st, some hdrs)) :
    OnlyCurrent R (observe R maxListSize (st, some hdrs) (.analyze evt)) ↔
      KeepsCurrent R maxListSize (st, some hdrs) (.analyze evt) := by
  have hold : ∀ {seq ts}, active R st seq = some ts → ⟨seq, ts⟩ ∈ hdrs ++ (firstValid evt.headers).toList :=
    fun hts => List.mem_append_left _ (h hdrs rfl _ _ hts)
  constructor
  · intro hcur hdrs' hrun hinvalid
    obtain rfl := Option.some.inj hrun
    by_contra hadds
    rw [not_or, not_or, not_not] at hadds
    obtain ⟨hnone, hkept, hother⟩ := hadds
    have hadded : active R (analyze R maxListSize st evt) evt.unset.sequenceID = some evt.unset.timestamp := by
      rw [active_analyze, hinvalid, Option.getD_none, if_neg hkept, if_pos ⟨rfl, hnone⟩]
    have hmem : evt.unset ∈ hdrs ++ (firstValid evt.headers).toList := hcur _ rfl _ _ hadded
    rw [hinvalid, Option.toList_none, List.append_nil] at hmem
    exact hother hmem
  · intro hkeeps hdrs' hrun seq ts hts
    obtain rfl := Option.some.inj hrun
    rcases active_analyze_eq_some R maxListSize hts with hbefore | ⟨hhdr, hnone, hkept⟩
    · exact hold hbefore
    · cases hvalid : firstValid evt.headers with
      | some hdr =>
        rw [hhdr, hvalid]
        simp
      | none =>
        rw [hvalid, Option.getD_none] at hhdr
        have hcase := hkeeps hdrs rfl hvalid
        rw [← hhdr] at hcase
        rcases hcase with hactive | htrim | hmem
        · exact absurd hnone hactive
        · exact absurd htrim hkept
        · simpa using hmem

theorem onlyCurrent_step_iff (st : Observed σ) (call : SenderCall) (h : OnlyCurrent R st) :
    OnlyCurrent R (observe R maxListSize st call) ↔ KeepsCurrent R maxListSize st call := by
  cases call with
  | beginRun run =>
    have hactive : active R (observe R maxListSize st (.beginRun run)).1 = active R st.1 := active_beginRun R st.1 run
    constructor
    · intro hcur seq
      by_contra hsome
      obtain ⟨ts, hts⟩ := Option.ne_none_iff_exists'.mp hsome
      exact absurd (hcur [] rfl seq ts (by rw [hactive, hts])) List.not_mem_nil
    · intro hnone hdrs _ seq ts hts
      rw [hactive, hnone seq] at hts
      cases hts
  | endRun =>
    refine iff_of_true ?_ trivial
    intro hdrs hrun seq ts hts
    exact h hdrs hrun seq ts (by rwa [← active_endRun R st.1])
  | analyze evt =>
    obtain ⟨st, hdrs⟩ := st
    cases hdrs with
    | none =>
      refine iff_of_true (fun hdrs hrun => ?_) (fun hdrs hrun => ?_)
      · cases hrun
      · cases hrun
    | some hdrs => exact onlyCurrent_analyze_iff R maxListSize st hdrs evt h

/-- **Active requests belong to the current run** at every moment exactly if no run begins with active requests, and
no event without a valid header adds one that is not of its run. -/
theorem onlyCurrent_iff (calls : List SenderCall) :
    Always (observe R maxListSize) (OnlyCurrent R) (init R, none) calls ↔
      Steps (observe R maxListSize) (KeepsCurrent R maxListSize) (init R, none) calls := by
  refine always_iff_steps (I := fun _ => True) (V := fun _ => True) (fun _ _ _ _ => trivial)
    (fun st call _ _ hcur => onlyCurrent_step_iff R maxListSize st call hcur) trivial ?_ (fun _ _ => trivial)
  intro hdrs hrun
  cases hrun

/-- Two runs of one event each. The second one begins with the request of the first, and its own event, which has the
same id, does not get a request. -/
theorem request_outlives_run :
    let calls : List SenderCall :=
      [.beginRun 1, .analyze ⟨[none, some ⟨1, 10⟩], ⟨0, 0⟩⟩, .endRun, .beginRun 2, .analyze ⟨[some ⟨1, 20⟩], ⟨0, 0⟩⟩]
    let st := run (observe RequestSender.table 100) (init RequestSender.table, none) calls
    st.2 = some [⟨1, 20⟩] ∧ active RequestSender.table st.1 1 = some 10 ∧ ¬ OnlyCurrent RequestSender.table st ∧
      ¬ Always (observe RequestSender.table 100) (OnlyCurrent RequestSender.table) (init RequestSender.table, none)
        calls := by
  have hstale : ¬ OnlyCurrent RequestSender.table (run (observe RequestSender.table 100) (init RequestSender.table, none)
      [.beginRun 1, .analyze ⟨[none, some ⟨1, 10⟩], ⟨0, 0⟩⟩, .endRun, .beginRun 2,
        .analyze ⟨[some ⟨1, 20⟩], ⟨0, 0⟩⟩]) := by
    intro h
    have hmem : (⟨1, 10⟩ : RawEventHeader) ∈ [⟨1, 20⟩] := h _ rfl 1 10 rfl
    revert hmem
    decide
  exact ⟨rfl, rfl, hstale, fun h => hstale (h _ (List.prefix_refl _))⟩

end Mu2eRequestSender

end ArtdaqMu2e
