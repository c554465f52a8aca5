import ArtdaqMu2e.Generators.Mu2eEventReceiverBase
import ArtdaqMu2e.Lib.TopSet

/-!
# The CRV receiver

The receiver that answers requests. A call of `getNext_` takes a batch of requests, in ascending order of their
sequence ids, and makes one read for each request whose id is not in `seen_sequence_ids_`. Before the read the
id goes into that set, and if the set has grown beyond 1000 ids its smallest one goes out.

The set is modified while the batch is checked against it, but an id that goes out is never above the one that
comes in, so the rest of the batch is checked against the set as it was when the call began. A call is therefore
a run of reads (`getNext_eq_run`) over a list that depends on that set only (`toRead`).
-/

namespace ArtdaqMu2e

open Runs TopSet

/-- A `std::map` from sequence ids to timestamps. -/
structure Requests where
  entries : List (ℕ × ℕ)
  sorted : entries.Pairwise fun req req' => req.1 < req'.1

theorem Requests.eq_of_fst_eq (batch : Requests) {req req' : ℕ × ℕ} (h : req ∈ batch.entries)
    (h' : req' ∈ batch.entries) (heq : req.1 = req'.1) : req = req' := by
  have hnodup : (batch.entries.map (·.1)).Nodup :=
    List.pairwise_map.mpr (batch.sorted.imp Nat.ne_of_lt)
  exact List.inj_on_of_nodup_map hnodup h h' heq

structure CRVConfig extends ReceiverConfig where
  noRequestMode : Bool
  noRequestModeFirstTimestamp : ℕ

/-- One call of `getNext_`, with what happens during it: whether it is stopping by the time it has its requests,
the requests (none if there is no request buffer), and the read for each sequence id. -/
structure CRVCall where
  shouldStop : Bool
  requests : Option Requests
  reads : ℕ → Read DtcEvent

/-- `requested` are the requests that passed the check, as the log line before the read shows them. -/
structure CRVReceiver extends Receiver where
  seenSequenceIds : Finset ℕ
  requested : List (ℕ × ℕ)

def sequenceIdListMaxSize : ℕ := 1000

namespace CRVReceiver

def init (cfg : CRVConfig) : CRVReceiver where
  toReceiver :=
    { Receiver.init with
      timestamps := { TimestampState.init with highestTimestampSeen := cfg.noRequestModeFirstTimestamp } }
  seenSequenceIds := ∅
  requested := []

/-- Insert the id, and erase the first one of the set if it has become too large. -/
def markSeen (st : CRVReceiver) (req : ℕ × ℕ) : CRVReceiver :=
  { st with
    seenSequenceIds := push sequenceIdListMaxSize st.seenSequenceIds req.1
    requested := st.requested ++ [req] }

/-- The loop over the requests. -/
def serve (layout : FragmentLayout) (cfg : CRVConfig) (reads : ℕ → Read DtcEvent) :
    List (ℕ × ℕ) → CRVReceiver → Bool × CRVReceiver
  | [], st => (true, st)
  | req :: reqs, st =>
    if req.1 ∈ st.seenSequenceIds then serve layout cfg reads reqs st
    else
      let st := st.markSeen req
      let ret := getNextDTCFragment layout cfg.toReceiverConfig (reads req.1) req.2 req.1 st.toReceiver
      let st := { st with toReceiver := ret.2 }
      if ret.1 = false then (false, st) else serve layout cfg reads reqs st

def getNext (layout : FragmentLayout) (cfg : CRVConfig) (call : CRVCall) (st : CRVReceiver) :
    Bool × CRVReceiver :=
  if cfg.noRequestMode then
    let tag := u64 (st.timestamps.highestTimestampSeen + 1)
    if call.shouldStop then (false, st) else serve layout cfg call.reads [(tag, tag)] st
  else
    match call.requests with
    | none => (false, st)
    | some reqs => if call.shouldStop then (false, st) else serve layout cfg call.reads reqs.entries st

def step (layout : FragmentLayout) (cfg : CRVConfig) (st : CRVReceiver) (call : CRVCall) : CRVReceiver :=
  (getNext layout cfg call st).2

def stop (st : CRVReceiver) : CRVReceiver := { st with toReceiver := st.toReceiver.stop }

/-- Neither the base class nor this one has anything else to start. -/
def startCmd (cfg : CRVConfig) (st : CRVReceiver) : CRVReceiver :=
  { st with toReceiver := st.toReceiver.startCmd cfg.toReceiverConfig }

/-! ### A call is a run of reads -/

/-- The read for one request that passed the check. -/
def readRequest (layout : FragmentLayout) (cfg : CRVConfig) (reads : ℕ → Read DtcEvent) (st : CRVReceiver)
    (req : ℕ × ℕ) : CRVReceiver :=
  { st.markSeen req with
    toReceiver :=
      (getNextDTCFragment layout cfg.toReceiverConfig (reads req.1) req.2 req.1 st.toReceiver).2 }

/-- The read for a request fails, and the call returns false. -/
def ReadFails (cfg : CRVConfig) (reads : ℕ → Read DtcEvent) (req : ℕ × ℕ) : Prop :=
  (reads req.1).delivered = [] ∧ cfg.mode ≠ .disabled

instance (cfg : CRVConfig) (reads : ℕ → Read DtcEvent) (req : ℕ × ℕ) : Decidable (ReadFails cfg reads req) :=
  inferInstanceAs (Decidable (_ ∧ _))

/-- Up to the first failing read. -/
def untilFailure (cfg : CRVConfig) (reads : ℕ → Read DtcEvent) : List (ℕ × ℕ) → List (ℕ × ℕ)
  | [] => []
  | req :: reqs => if ReadFails cfg reads req then [req] else req :: untilFailure cfg reads reqs

/-- The requests that a call reads: those not in `seen`, up to the first failing read. -/
def unseen (cfg : CRVConfig) (reads : ℕ → Read DtcEvent) (seen : Finset ℕ) (reqs : List (ℕ × ℕ)) :
    List (ℕ × ℕ) :=
  untilFailure cfg reads (reqs.filter (·.1 ∉ seen))

def toRead (cfg : CRVConfig) (call : CRVCall) (st : CRVReceiver) : List (ℕ × ℕ) :=
  if call.shouldStop then []
  else if cfg.noRequestMode then
    let tag := u64 (st.timestamps.highestTimestampSeen + 1)
    unseen cfg call.reads st.seenSequenceIds [(tag, tag)]
  else
    match call.requests with
    | none => []
    | some reqs => unseen cfg call.reads st.seenSequenceIds reqs.entries

section unseen
variable {cfg : CRVConfig} {reads : ℕ → Read DtcEvent}

theorem unseen_congr {seen seen' : Finset ℕ} {reqs : List (ℕ × ℕ)}
    (h : ∀ req ∈ reqs, req.1 ∈ seen ↔ req.1 ∈ seen') :
    unseen cfg reads seen reqs = unseen cfg reads seen' reqs := by
  have hfilter : reqs.filter (·.1 ∉ seen) = reqs.filter (·.1 ∉ seen') :=
    List.filter_congr fun req hreq => by simp [h req hreq]
  rw [unseen, hfilter, unseen]

theorem unseen_of_mem {seen : Finset ℕ} {req : ℕ × ℕ} {reqs : List (ℕ × ℕ)} (h : req.1 ∈ seen) :
    unseen cfg reads seen (req :: reqs) = unseen cfg reads seen reqs := by
  rw [unseen, List.filter_cons_of_neg (by simpa using h), unseen]

theorem unseen_of_fails {seen : Finset ℕ} {req : ℕ × ℕ} {reqs : List (ℕ × ℕ)} (h : req.1 ∉ seen)
    (hfail : ReadFails cfg reads req) : unseen cfg reads seen (req :: reqs) = [req] := by
  rw [unseen, List.filter_cons_of_pos (by simpa using h), untilFailure, if_pos hfail]

theorem unseen_of_notMem {seen : Finset ℕ} {req : ℕ × ℕ} {reqs : List (ℕ × ℕ)} (h : req.1 ∉ seen)
    (hfail : ¬ ReadFails cfg reads req) :
    unseen cfg reads seen (req :: reqs) = req :: unseen cfg reads seen reqs := by
  rw [unseen, List.filter_cons_of_pos (by simpa using h), untilFailure, if_neg hfail, unseen]

theorem toRead_of_batch {call : CRVCall} {st : CRVReceiver} {batch : Requests} (hmode : cfg.noRequestMode = false)
    (hstop : call.shouldStop = false) (hbatch : call.requests = some batch) :
    toRead cfg call st = unseen cfg call.reads st.seenSequenceIds batch.entries := by
  simp [toRead, hmode, hstop, hbatch]

theorem untilFailure_sublist (cfg : CRVConfig) (reads : ℕ → Read DtcEvent) (reqs : List (ℕ × ℕ)) :
    (untilFailure cfg reads reqs).Sublist reqs := by
  induction reqs with
  | nil => exact List.Sublist.refl _
  | cons req reqs ih =>
    rw [untilFailure]
    split_ifs
    · exact List.singleton_sublist.mpr List.mem_cons_self
    · exact ih.cons_cons req

theorem unseen_sublist (cfg : CRVConfig) (reads : ℕ → Read DtcEvent) (seen : Finset ℕ) (reqs : List (ℕ × ℕ)) :
    (unseen cfg reads seen reqs).Sublist reqs :=
  (untilFailure_sublist cfg reads _).trans List.filter_sublist

theorem mem_unseen_iff {seen : Finset ℕ} {reqs : List (ℕ × ℕ)}
    (hsorted : reqs.Pairwise fun req req' => req.1 < req'.1) {req : ℕ × ℕ} :
    req ∈ unseen cfg reads seen reqs ↔
      req ∈ reqs ∧ req.1 ∉ seen ∧
        ∀ earlier ∈ reqs, earlier.1 < req.1 → earlier.1 ∉ seen → ¬ ReadFails cfg reads earlier := by
  induction reqs with
  | nil => simp [unseen, untilFailure]
  | cons first reqs ih =>
    obtain ⟨hlt, hsorted⟩ := List.pairwise_cons.mp hsorted
    rw [List.mem_cons, List.forall_mem_cons]
    by_cases hseen : first.1 ∈ seen
    · rw [unseen_of_mem hseen, ih hsorted]
      constructor
      · rintro ⟨hmem, hnot, hearlier⟩
        exact ⟨Or.inr hmem, hnot, fun _ hfirst => absurd hseen hfirst, hearlier⟩
      · rintro ⟨hmem, hnot, -, hearlier⟩
        refine ⟨hmem.resolve_left ?_, hnot, hearlier⟩
        rintro rfl
        exact hnot hseen
    by_cases hfail : ReadFails cfg reads first
    · rw [unseen_of_fails hseen hfail, List.mem_singleton]
      constructor
      · rintro rfl
        refine ⟨Or.inl rfl, hseen, fun h => absurd h (Nat.lt_irrefl _), fun earlier hmem h => ?_⟩
        exact absurd (hlt earlier hmem) (Nat.lt_asymm h)
      · rintro ⟨hmem, -, hfirst, -⟩
        exact hmem.resolve_right fun hmem => hfirst (hlt req hmem) hseen hfail
    · rw [unseen_of_notMem hseen hfail, List.mem_cons, ih hsorted]
      constructor
      · rintro (rfl | ⟨hmem, hnot, hearlier⟩)
        · refine ⟨Or.inl rfl, hseen, fun h => absurd h (Nat.lt_irrefl _), fun earlier hmem h => ?_⟩
          exact absurd (hlt earlier hmem) (Nat.lt_asymm h)
        · exact ⟨Or.inr hmem, hnot, fun _ _ => hfail, hearlier⟩
      · rintro ⟨rfl | hmem, hnot, -, hearlier⟩
        · exact Or.inl rfl
        · exact Or.inr ⟨hmem, hnot, hearlier⟩

theorem mem_batch_of_mem_toRead {call : CRVCall} {st : CRVReceiver} (hmode : cfg.noRequestMode = false)
    {req : ℕ × ℕ} (h : req ∈ toRead cfg call st) :
    ∃ batch, call.requests = some batch ∧ req ∈ batch.entries ∧ req.1 ∉ st.seenSequenceIds := by
  unfold toRead at h
  simp only [hmode, Bool.false_eq_true, if_false] at h
  split_ifs at h
  · simp at h
  · split at h
    · simp at h
    · rename_i batch hbatch
      have hmem := List.mem_filter.mp ((untilFailure_sublist cfg call.reads _).mem h)
      exact ⟨batch, hbatch, hmem.1, by simpa using hmem.2⟩

end unseen

section run
variable (layout : FragmentLayout) (cfg : CRVConfig) (reads : ℕ → Read DtcEvent) (st : CRVReceiver)

theorem getNextDTCFragment_eq_false_iff (req : ℕ × ℕ) (st : Receiver) :
    (getNextDTCFragment layout cfg.toReceiverConfig (reads req.1) req.2 req.1 st).1 = false ↔
      ReadFails cfg reads req := by
  unfold ReadFails
  cases hread : (reads req.1).delivered with
  | nil => simp [getNextDTCFragment_of_nil hread]
  | cons evt evts => simp [getNextDTCFragment_of_cons hread]

theorem serve_of_notMem {req : ℕ × ℕ} {reqs : List (ℕ × ℕ)} (h : req.1 ∉ st.seenSequenceIds) :
    serve layout cfg reads (req :: reqs) st =
      if ReadFails cfg reads req then (false, readRequest layout cfg reads st req)
      else serve layout cfg reads reqs (readRequest layout cfg reads st req) := by
  have hret := getNextDTCFragment_eq_false_iff layout cfg reads req st.toReceiver
  rw [serve, if_neg h]
  by_cases hfail : ReadFails cfg reads req
  · rw [if_pos hfail]
    exact if_pos (hret.mpr hfail)
  · rw [if_neg hfail]
    exact if_neg (hret.not.mpr hfail)

theorem seen_readRequest_iff {req req' : ℕ × ℕ} (h : req.1 < req'.1) :
    req'.1 ∈ (readRequest layout cfg reads st req).seenSequenceIds ↔ req'.1 ∈ st.seenSequenceIds :=
  mem_push_iff_of_lt h

/-- **The loop over a batch is a run of reads** over the requests that were not seen when it began; each of them
passes the check, and the loop returns false exactly if one of these reads fails. -/
theorem serve_eq_run {reqs : List (ℕ × ℕ)} (hsorted : reqs.Pairwise fun req req' => req.1 < req'.1) :
    (serve layout cfg reads reqs st).2 =
        run (readRequest layout cfg reads) st (unseen cfg reads st.seenSequenceIds reqs) ∧
      Steps (readRequest layout cfg reads) (fun st req => req.1 ∉ st.seenSequenceIds) st
        (unseen cfg reads st.seenSequenceIds reqs) ∧
      ((serve layout cfg reads reqs st).1 = true ↔
        ∀ req ∈ unseen cfg reads st.seenSequenceIds reqs, ¬ ReadFails cfg reads req) := by
  induction reqs generalizing st with
  | nil => simp [serve, unseen, untilFailure, Steps]
  | cons req reqs ih =>
    obtain ⟨hlt, hsorted⟩ := List.pairwise_cons.mp hsorted
    by_cases hseen : req.1 ∈ st.seenSequenceIds
    · rw [serve, if_pos hseen, unseen_of_mem hseen]
      exact ih st hsorted
    rw [serve_of_notMem layout cfg reads st hseen]
    by_cases hfail : ReadFails cfg reads req
    · rw [unseen_of_fails hseen hfail, if_pos hfail]
      exact ⟨rfl, ⟨hseen, trivial⟩, by simpa using hfail⟩
    · have hsame : unseen cfg reads (readRequest layout cfg reads st req).seenSequenceIds reqs =
          unseen cfg reads st.seenSequenceIds reqs :=
        unseen_congr fun req' hreq' => seen_readRequest_iff layout cfg reads st (hlt req' hreq')
      obtain ⟨hrun, hsteps, hret⟩ := ih (readRequest layout cfg reads st req) hsorted
      rw [hsame] at hrun hsteps hret
      rw [unseen_of_notMem hseen hfail, if_neg hfail, List.forall_mem_cons]
      exact ⟨hrun, ⟨hseen, hsteps⟩, hret.trans (and_iff_right hfail).symm⟩

theorem getNext_eq_run (call : CRVCall) :
    (getNext layout cfg call st).2 = run (readRequest layout cfg call.reads) st (toRead cfg call st) ∧
      Steps (readRequest layout cfg call.reads) (fun st req => req.1 ∉ st.seenSequenceIds) st
        (toRead cfg call st) := by
  unfold getNext toRead
  by_cases hstop : call.shouldStop = true
  · simp only [hstop, if_true]
    split
    · exact ⟨rfl, trivial⟩
    · split <;> exact ⟨rfl, trivial⟩
  simp only [hstop]
  split
  · obtain ⟨hrun, hsteps, -⟩ := serve_eq_run layout cfg call.reads st
      (List.pairwise_singleton (fun req req' : ℕ × ℕ => req.1 < req'.1) _)
    exact ⟨hrun, hsteps⟩
  · split
    · exact ⟨rfl, trivial⟩
    · obtain ⟨hrun, hsteps, -⟩ := serve_eq_run layout cfg call.reads st
        (Requests.sorted _)
      exact ⟨hrun, hsteps⟩

/-- A property kept by every read of a request that passed the check is kept by every call. -/
theorem step_invariant {P : CRVReceiver → Prop}
    (hread : ∀ reads st req, P st → req.1 ∉ st.seenSequenceIds → P (readRequest layout cfg reads st req))
    (call : CRVCall) (hst : P st) : P (step layout cfg st call) := by
  obtain ⟨hrun, hsteps⟩ := getNext_eq_run layout cfg st call
  rw [step, hrun]
  exact run_of_steps (hread call.reads) hst hsteps

/-! ### What a run of reads does -/

/-- The requests whose read delivers something. -/
def answered (reads : ℕ → Read DtcEvent) (reqs : List (ℕ × ℕ)) : List (ℕ × ℕ) :=
  reqs.filter fun req => !(reads req.1).delivered.isEmpty

/-- The `GetData` calls for the requests. -/
def getDataFor (reads : ℕ → Read DtcEvent) (reqs : List (ℕ × ℕ)) : List ℕ :=
  reqs.flatMap fun req => List.replicate (reads req.1).calls req.2

/-- The tags of the events that the reads deliver first. -/
def tagsRead (reads : ℕ → Read DtcEvent) (reqs : List (ℕ × ℕ)) : List ℕ :=
  reqs.filterMap fun req => (reads req.1).delivered.head?.map (·.eventWindowTag)

/-- What the reads for `reqs` make of the state `st`. -/
structure Served (reads : ℕ → Read DtcEvent) (reqs : List (ℕ × ℕ)) (st st' : CRVReceiver) : Prop where
  appends : ∃ new : List Fragment, st'.frags = st.frags ++ new ∧
    new.map (·.sequenceID) = (answered reads reqs).map (·.1) ∧
    new.map (·.timestamp) = st.timestamps.stamps (tagsRead reads reqs)
  evCounter : st'.evCounter = st.evCounter + (answered reads reqs).length
  getDataCalls : st'.getDataCalls = st.getDataCalls ++ getDataFor reads reqs
  timestamps : st'.timestamps = st.timestamps.after (tagsRead reads reqs)

theorem Served.append {reqs reqs' : List (ℕ × ℕ)} {st st' st'' : CRVReceiver} (h : Served reads reqs st st')
    (h' : Served reads reqs' st' st'') : Served reads (reqs ++ reqs') st st'' := by
  obtain ⟨new, hfrags, hids, hstamps⟩ := h.appends
  obtain ⟨new', hfrags', hids', hstamps'⟩ := h'.appends
  have hans : answered reads (reqs ++ reqs') = answered reads reqs ++ answered reads reqs' :=
    List.filter_append reqs reqs'
  have htags : tagsRead reads (reqs ++ reqs') = tagsRead reads reqs ++ tagsRead reads reqs' :=
    List.filterMap_append
  refine ⟨⟨new ++ new', ?_, ?_, ?_⟩, ?_, ?_, ?_⟩
  · rw [hfrags', hfrags, List.append_assoc]
  · rw [List.map_append, hids, hids', hans, List.map_append]
  · rw [List.map_append, hstamps, hstamps', h.timestamps, htags, TimestampState.stamps_append]
  · rw [h'.evCounter, h.evCounter, hans, List.length_append, Nat.add_assoc]
  · rw [h'.getDataCalls, h.getDataCalls, getDataFor, getDataFor, getDataFor, List.flatMap_append,
      List.append_assoc]
  · rw [h'.timestamps, h.timestamps, htags]
    exact (run_append _ _ _ _).symm

theorem served_readRequest {req : ℕ × ℕ} (hid : req.1 ≠ 0) :
    Served reads [req] st (readRequest layout cfg reads st req) := by
  unfold readRequest
  cases hread : (reads req.1).delivered with
  | nil =>
    have hans : answered reads [req] = [] := by simp [answered, hread]
    have htags : tagsRead reads [req] = [] := by simp [tagsRead, hread]
    rw [getNextDTCFragment_of_nil hread]
    refine ⟨⟨[], (List.append_nil _).symm, ?_, ?_⟩, ?_, ?_, ?_⟩
    · rw [hans]
      rfl
    · rw [htags]
      rfl
    · rw [hans]
      rfl
    · simp [getDataFor]
    · rw [htags]
      rfl
  | cons evt evts =>
    have hans : answered reads [req] = [req] := by simp [answered, hread]
    have htags : tagsRead reads [req] = [evt.eventWindowTag] := by simp [tagsRead, hread]
    rw [getNextDTCFragment_of_cons hread]
    refine ⟨⟨[_], rfl, ?_, ?_⟩, ?_, ?_, ?_⟩
    · rw [hans]
      simp [readFragment, hid]
    · rw [htags]
      simp [readFragment, TimestampState.stamps]
    · rw [hans]
      rfl
    · simp [getDataFor]
    · rw [htags]
      rfl

theorem served_run {reqs : List (ℕ × ℕ)} (hids : ∀ req ∈ reqs, req.1 ≠ 0) :
    Served reads reqs st (run (readRequest layout cfg reads) st reqs) := by
  induction reqs generalizing st with
  | nil => exact ⟨⟨[], (List.append_nil _).symm, rfl, rfl⟩, rfl, (List.append_nil _).symm, rfl⟩
  | cons req reqs ih =>
    obtain ⟨hid, hids⟩ := List.forall_mem_cons.mp hids
    exact (served_readRequest layout cfg reads st hid).append reads (ih _ hids)

theorem run_readRequest_seen (reqs : List (ℕ × ℕ)) :
    (run (readRequest layout cfg reads) st reqs).seenSequenceIds =
        (reqs.map (·.1)).foldl (push sequenceIdListMaxSize) st.seenSequenceIds ∧
      (run (readRequest layout cfg reads) st reqs).requested = st.requested ++ reqs := by
  induction reqs generalizing st with
  | nil => simp
  | cons req reqs ih =>
    obtain ⟨hseen, hlog⟩ := ih (readRequest layout cfg reads st req)
    rw [run_cons, hseen, hlog]
    exact ⟨rfl, by simp [readRequest, markSeen]⟩

end run

end CRVReceiver

end ArtdaqMu2e
