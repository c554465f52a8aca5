import ArtdaqMu2e.ArtModules.SlidingWindow
import ArtdaqMu2e.Generators.CRVDelivery
import Mathlib.Logic.Relation

/-!
# The request protocol

The request sender and the CRV receiver together. The sender makes a request for every event and keeps the last
`max_request_count` of them active; its messages hold all active requests, so that each request is sent many times.
Messages may be lost, may come more than once, and may come late. The receiver collects the requests that come in, and
a call of `getNext_` takes all of them at once.

Every event has a valid header, and the sequence ids go up from 1. A request that comes again is recognised by its id,
but the receiver remembers the 1000 largest ids only. An id is not forgotten as long as fewer than 1000 events came
after its own, and a message that is at most `maxDelay` events old holds no request with more than
`max_request_count + maxDelay` events from its own on. So within that bound no request is read twice (`read_once`), and
one message that gets through is enough for all its events (`message_suffices`).
-/

namespace ArtdaqMu2e

open Lists Runs

/-! ### The parties -/

/-- A request message holds all active requests, in any order. -/
structure RequestMessages {σ : Type*} (R : RequestSender σ) where
  requests : σ → List (ℕ × ℕ)
  mem_requests : ∀ s seq ts, (seq, ts) ∈ requests s ↔ R.active s seq = some ts

theorem lookup_cons_of_ne {s : List (ℕ × ℕ)} {req : ℕ × ℕ} {id : ℕ} (h : id ≠ req.1) :
    (req :: s).lookup id = s.lookup id := by
  obtain ⟨seq, ts⟩ := req
  rw [List.lookup_cons, beq_eq_false_iff_ne.mpr h]

/-- A sender that keeps its requests in a list. -/
def RequestSender.assoc : RequestSender (List (ℕ × ℕ)) where
  init := []
  active s id := s.lookup id
  addRequest seq ts s := if s.lookup seq = none then (seq, ts) :: s else s
  removeRequest seq s := s.filter (·.1 ≠ seq)
  setRequestMode _ s := s
  setRunNumber _ s := s
  sendRequest s := s
  active_init _ := rfl
  active_addRequest seq ts s id := by
    by_cases hnone : s.lookup seq = none
    · rw [if_pos hnone]
      by_cases hid : id = seq
      · subst hid
        rw [List.lookup_cons_self, if_pos ⟨rfl, hnone⟩]
      · rw [lookup_cons_of_ne hid, if_neg fun h => hid h.1]
    · rw [if_neg hnone, if_neg fun h => hnone h.2]
  active_removeRequest seq s id := by
    induction s with
    | nil => exact (ite_self _).symm
    | cons req s ih =>
      by_cases hseq : req.1 = seq
      · rw [List.filter_cons_of_neg (by simpa using hseq), ih]
        split_ifs with hid
        · rfl
        · exact (lookup_cons_of_ne fun h => hid (h.trans hseq)).symm
      · rw [List.filter_cons_of_pos (by simpa using hseq)]
        by_cases hid : id = req.1
        · rw [hid, List.lookup_cons_self, if_neg hseq, List.lookup_cons_self]
        · rw [lookup_cons_of_ne hid, lookup_cons_of_ne hid, ih]
  active_setRequestMode _ _ := rfl
  active_setRunNumber _ _ := rfl
  active_sendRequest _ := rfl

def RequestMessages.assoc : RequestMessages RequestSender.assoc where
  requests s := s.filter fun req => s.lookup req.1 = some req.2
  mem_requests s seq ts := by
    show _ ↔ s.lookup seq = some ts
    rw [List.mem_filter, decide_eq_true_eq]
    refine and_iff_right_of_imp fun hts => ?_
    obtain ⟨before, after, hsplit, -⟩ := List.lookup_eq_some_iff.mp hts
    rw [hsplit]
    exact List.mem_append_right _ List.mem_cons_self

/-- A message, and the number of events that had been analyzed when it was sent. -/
structure RequestMessage where
  requests : List (ℕ × ℕ)
  sentAt : ℕ

structure RequestProtocol (σ : Type*) where
  R : RequestSender σ
  messages : RequestMessages R
  maxRequestCount : ℕ
  maxDelay : ℕ
  layout : FragmentLayout
  cfg : CRVConfig
  requestMode : cfg.noRequestMode = false

/-- The two parties, the messages that were sent, and the request buffer of the receiver. `analyzed` are the headers
of the events so far. -/
structure RequestSystem (σ : Type*) where
  sender : Mu2eRequestSender σ
  analyzed : List RawEventHeader
  messages : List RequestMessage
  buffer : List (ℕ × ℕ)
  receiver : CRVReceiver

/-- `GetAndClearRequests`: a map with the ids that were pushed, each one with a timestamp that was pushed for it. -/
structure TakenFrom (buffer : List (ℕ × ℕ)) (batch : Requests) : Prop where
  keys : ∀ req ∈ buffer, req.1 ∈ batch.entries.map (·.1)
  entries : ∀ req ∈ batch.entries, req ∈ buffer

namespace RequestProtocol

variable {σ : Type*} (P : RequestProtocol σ)

def init : RequestSystem σ := ⟨Mu2eRequestSender.init P.R, [], [], [], CRVReceiver.init P.cfg⟩

/-- What can happen next; `ok` are the calls of `getNext_` that can. The events that are analyzed have a valid header
each, with a sequence id that is not 0 and larger than those of all events before. Messages stay where they are when
they are delivered, so that they can be delivered again, or never, and they are late by at most `maxDelay` events. -/
inductive Step (ok : CRVCall → Prop) (st : RequestSystem σ) : RequestSystem σ → Prop where
  | analyze (evt : RequestEvent) (hdr : RawEventHeader)
    (hvalid : Mu2eRequestSender.firstValid evt.headers = some hdr) (hid : hdr.sequenceID ≠ 0)
    (hnew : ∀ old ∈ st.analyzed, old.sequenceID < hdr.sequenceID) :
    Step ok st { st with
      sender := Mu2eRequestSender.analyze P.R P.maxRequestCount st.sender evt
      analyzed := st.analyzed ++ [hdr] }
  | send :
    Step ok st { st with
      messages := st.messages ++ [⟨P.messages.requests st.sender.requestSender, st.analyzed.length⟩] }
  | deliver (msg : RequestMessage) (hmsg : msg ∈ st.messages) (hdelay : st.analyzed.length ≤ msg.sentAt + P.maxDelay) :
    Step ok st { st with buffer := st.buffer ++ msg.requests }
  | getNext (call : CRVCall) (batch : Requests) (hok : ok call) (hcall : call.requests = some batch)
    (htaken : TakenFrom st.buffer batch) :
    Step ok st { st with
      buffer := []
      receiver := CRVReceiver.step P.layout P.cfg st.receiver call }

abbrev Reachable (ok : CRVCall → Prop) (st : RequestSystem σ) : Prop :=
  Relation.ReflTransGen (P.Step ok) P.init st

variable {P} in
theorem reachable_mono {ok ok' : CRVCall → Prop} {st : RequestSystem σ} (hmono : ∀ call, ok call → ok' call)
    (h : P.Reachable ok st) : P.Reachable ok' st := by
  refine Relation.ReflTransGen.mono (fun before after hstep => ?_) _ _ h
  cases hstep with
  | analyze evt hdr hvalid hid hnew => exact .analyze evt hdr hvalid hid hnew
  | send => exact .send
  | deliver msg hmsg hdelay => exact .deliver msg hmsg hdelay
  | getNext call batch hok hcall htaken => exact .getNext call batch (hmono call hok) hcall htaken

/-- All reads of a call deliver something. -/
def Delivers (call : CRVCall) : Prop := ∀ id, (call.reads id).delivered ≠ []

/-! ### What holds of every state -/

/-- The header that a request is for. -/
def headerOf (req : ℕ × ℕ) : RawEventHeader := ⟨req.1, req.2⟩

/-- The ids above `id` that were passed on to the DTC. -/
def passedAbove (st : RequestSystem σ) (id : ℕ) : Finset ℕ := st.receiver.passed.toFinset.filter (id < ·)

structure Consistent (st : RequestSystem σ) : Prop where
  increasing : (Mu2eRequestSender.ids st.analyzed).Pairwise (· < ·)
  nonzero : ∀ hdr ∈ st.analyzed, hdr.sequenceID ≠ 0
  window : ∃ ghost, Mu2eRequestSender.forget ghost = st.sender ∧
    Mu2eRequestSender.Window P.R P.maxRequestCount st.analyzed ghost
  messages : ∀ msg ∈ st.messages, msg.sentAt ≤ st.analyzed.length ∧
    ∀ req, req ∈ msg.requests ↔ headerOf req ∈ (st.analyzed.take msg.sentAt).rtake P.maxRequestCount
  buffer : ∀ req ∈ st.buffer, headerOf req ∈ st.analyzed ∧
    (passedAbove st req.1).card < P.maxRequestCount + P.maxDelay
  requested : ∀ req ∈ st.receiver.requested, headerOf req ∈ st.analyzed
  memory : CRVReceiver.Memory st.receiver
  fragments : (st.receiver.frags.map (·.sequenceID)).Sublist st.receiver.passed

theorem consistent_init : Consistent P P.init where
  increasing := List.Pairwise.nil
  nonzero _ h := absurd h List.not_mem_nil
  window := ⟨Mu2eRequestSender.init P.R.logged, rfl, Mu2eRequestSender.window_init P.maxRequestCount⟩
  messages _ h := absurd h List.not_mem_nil
  buffer _ h := absurd h List.not_mem_nil
  requested _ h := absurd h List.not_mem_nil
  memory := CRVReceiver.memory_init P.cfg
  fragments := List.Sublist.refl _

variable {P} {st : RequestSystem σ}

theorem Consistent.passed_subset (h : Consistent P st) {id : ℕ} (hid : id ∈ st.receiver.passed) :
    id ∈ Mu2eRequestSender.ids st.analyzed := by
  obtain ⟨req, hreq, rfl⟩ := List.mem_map.mp hid
  exact Mu2eRequestSender.mem_ids (h.requested req hreq)

theorem Consistent.analyze (h : Consistent P st) {evt : RequestEvent} {hdr : RawEventHeader}
    (hvalid : Mu2eRequestSender.firstValid evt.headers = some hdr) (hid : hdr.sequenceID ≠ 0)
    (hnew : ∀ old ∈ st.analyzed, old.sequenceID < hdr.sequenceID) :
    Consistent P { st with
      sender := Mu2eRequestSender.analyze P.R P.maxRequestCount st.sender evt
      analyzed := st.analyzed ++ [hdr] } := by
  have hincreasing : (Mu2eRequestSender.ids (st.analyzed ++ [hdr])).Pairwise (· < ·) := by
    rw [Mu2eRequestSender.ids_append, List.pairwise_append]
    refine ⟨h.increasing, List.pairwise_singleton _ _, fun id hold id' hid' => ?_⟩
    obtain ⟨old, hmem, rfl⟩ := List.mem_map.mp hold
    obtain rfl : id' = hdr.sequenceID := List.mem_singleton.mp hid'
    exact hnew old hmem
  obtain ⟨ghost, hghost, hwindow⟩ := h.window
  refine ⟨hincreasing, ?_, ?_, ?_, ?_, ?_, h.memory, h.fragments⟩
  · exact List.forall_mem_append.mpr ⟨h.nonzero, List.forall_mem_singleton.mpr hid⟩
  · refine ⟨Mu2eRequestSender.analyze P.R.logged P.maxRequestCount ghost evt, ?_, ?_⟩
    · rw [← hghost, Mu2eRequestSender.analyze, Mu2eRequestSender.forget_trim]
      rfl
    · exact hwindow.analyze P.maxRequestCount hvalid (hincreasing.imp Nat.ne_of_lt)
  · intro msg hmsg
    obtain ⟨hsent, hrequests⟩ := h.messages msg hmsg
    refine ⟨?_, fun req => ?_⟩
    · rw [List.length_append]
      omega
    · rw [hrequests, List.take_append_of_le_length hsent]
  · intro req hreq
    obtain ⟨hmem, hcard⟩ := h.buffer req hreq
    exact ⟨List.mem_append_left _ hmem, hcard⟩
  · exact fun req hreq => List.mem_append_left _ (h.requested req hreq)

theorem Consistent.send (h : Consistent P st) :
    Consistent P { st with
      messages := st.messages ++ [⟨P.messages.requests st.sender.requestSender, st.analyzed.length⟩] } := by
  refine ⟨h.increasing, h.nonzero, h.window, ?_, h.buffer, h.requested, h.memory, h.fragments⟩
  refine List.forall_mem_append.mpr ⟨h.messages, List.forall_mem_singleton.mpr ⟨le_refl _, fun req => ?_⟩⟩
  obtain ⟨ghost, hghost, hwindow⟩ := h.window
  rw [List.take_length]
  show req ∈ P.messages.requests st.sender.requestSender ↔ _
  rw [P.messages.mem_requests, ← hghost]
  exact hwindow.active req.1 req.2

/-- A request that is not too old has few events after its own. -/
theorem Consistent.deliver (h : Consistent P st) {msg : RequestMessage} (hmsg : msg ∈ st.messages)
    (hdelay : st.analyzed.length ≤ msg.sentAt + P.maxDelay) :
    Consistent P { st with buffer := st.buffer ++ msg.requests } := by
  refine ⟨h.increasing, h.nonzero, h.window, h.messages, ?_, h.requested, h.memory, h.fragments⟩
  refine List.forall_mem_append.mpr ⟨h.buffer, fun req hreq => ?_⟩
  obtain ⟨hsent, hrequests⟩ := h.messages msg hmsg
  obtain ⟨before, after, hsplit, hafter⟩ := exists_split_of_mem_window ((hrequests req).mp hreq)
  have hmem : headerOf req ∈ st.analyzed := by
    rw [hsplit]
    exact List.mem_append_right _ List.mem_cons_self
  refine ⟨hmem, ?_⟩
  have hids : Mu2eRequestSender.ids st.analyzed =
      Mu2eRequestSender.ids before ++ req.1 :: Mu2eRequestSender.ids after := by
    rw [hsplit, Mu2eRequestSender.ids_append, Mu2eRequestSender.ids_cons]
    rfl
  have habove : passedAbove st req.1 ⊆ (Mu2eRequestSender.ids st.analyzed).toFinset.filter (req.1 < ·) :=
    Finset.filter_subset_filter _ fun id hid =>
      List.mem_toFinset.mpr (h.passed_subset (List.mem_toFinset.mp hid))
  have hbehind : ((Mu2eRequestSender.ids st.analyzed).toFinset.filter (req.1 < ·)).card ≤ after.length := by
    have hinc := h.increasing
    rw [hids] at hinc ⊢
    exact (TopSet.card_filter_lt_le hinc).trans_eq (List.length_map _)
  have hcard := (Finset.card_le_card habove).trans hbehind
  show (passedAbove st req.1).card < _
  omega

section getNext
variable {call : CRVCall} {batch : Requests}

theorem Consistent.headers_of_batch (h : Consistent P st) (htaken : TakenFrom st.buffer batch) :
    ∀ req ∈ batch.entries, headerOf req ∈ st.analyzed :=
  fun req hreq => (h.buffer req (htaken.entries req hreq)).1

theorem Consistent.nonzeroIds (h : Consistent P st) (hcall : call.requests = some batch)
    (htaken : TakenFrom st.buffer batch) : CRVReceiver.NonzeroIds call := by
  intro batch' hbatch' req hreq
  obtain rfl := Option.some.inj (hcall.symm.trans hbatch')
  exact h.nonzero _ (h.headers_of_batch htaken req hreq)

theorem toRead_sublist (hcall : call.requests = some batch) :
    (CRVReceiver.toRead P.cfg call st.receiver).Sublist batch.entries := by
  cases hstop : call.shouldStop with
  | true =>
    rw [CRVReceiver.toRead, hstop, if_pos rfl]
    exact List.nil_sublist _
  | false =>
    rw [CRVReceiver.toRead_of_batch P.requestMode hstop hcall]
    exact CRVReceiver.unseen_sublist _ _ _ _

theorem passed_step (layout : FragmentLayout) (cfg : CRVConfig) (receiver : CRVReceiver) (call : CRVCall) :
    (CRVReceiver.step layout cfg receiver call).passed =
      receiver.passed ++ (CRVReceiver.toRead cfg call receiver).map (·.1) := by
  rw [CRVReceiver.passed, CRVReceiver.step, (CRVReceiver.getNext_eq_run layout cfg receiver call).1,
    (CRVReceiver.run_readRequest_seen layout cfg _ receiver _).2, List.map_append, CRVReceiver.passed]

theorem Consistent.getNext (h : Consistent P st) (hcall : call.requests = some batch)
    (htaken : TakenFrom st.buffer batch) :
    Consistent P { st with buffer := [], receiver := CRVReceiver.step P.layout P.cfg st.receiver call } := by
  refine ⟨h.increasing, h.nonzero, h.window, h.messages, ?_, ?_, ?_, ?_⟩
  · exact fun _ hreq => absurd hreq List.not_mem_nil
  · intro req hreq
    have hrequested : req ∈ st.receiver.requested ++ CRVReceiver.toRead P.cfg call st.receiver := by
      rwa [← (CRVReceiver.run_readRequest_seen P.layout P.cfg call.reads st.receiver _).2,
        ← (CRVReceiver.getNext_eq_run P.layout P.cfg st.receiver call).1]
    rcases List.mem_append.mp hrequested with hold | hread
    · exact h.requested req hold
    · exact h.headers_of_batch htaken req ((toRead_sublist hcall).mem hread)
  · exact CRVReceiver.step_invariant P.layout P.cfg st.receiver CRVReceiver.memory_readRequest call h.memory
  · obtain ⟨new, hfrags, hnew, -⟩ :=
      (CRVReceiver.served_step P.layout P.requestMode (h.nonzeroIds hcall htaken) st.receiver).appends
    show ((CRVReceiver.step P.layout P.cfg st.receiver call).frags.map (·.sequenceID)).Sublist
      (CRVReceiver.step P.layout P.cfg st.receiver call).passed
    rw [hfrags, passed_step, List.map_append, hnew]
    exact h.fragments.append (List.filter_sublist.map _)

theorem consistent_of_reachable {ok : CRVCall → Prop} (h : P.Reachable ok st) : Consistent P st := by
  induction h with
  | refl => exact consistent_init P
  | tail _ hstep ih =>
    cases hstep with
    | analyze evt hdr hvalid hid hnew => exact ih.analyze hvalid hid hnew
    | send => exact ih.send
    | deliver msg hmsg hdelay => exact ih.deliver hmsg hdelay
    | getNext call batch _ hcall htaken => exact ih.getNext hcall htaken

/-! ### No request is read twice -/

theorem Consistent.mem_seen (h : Consistent P st) (hbound : P.maxRequestCount + P.maxDelay ≤ 1000)
    (htaken : TakenFrom st.buffer batch) {req : ℕ × ℕ} (hreq : req ∈ batch.entries)
    (hpassed : req.1 ∈ st.receiver.passed) : req.1 ∈ st.receiver.seenSequenceIds := by
  obtain ⟨-, hcard⟩ := h.buffer req (htaken.entries req hreq)
  apply h.memory.isTop.mem_iff.mpr
  refine ⟨List.mem_toFinset.mpr hpassed, ?_⟩
  show (passedAbove st req.1).card < 1000
  omega

theorem Consistent.nodup_passed_step (h : Consistent P st) (hbound : P.maxRequestCount + P.maxDelay ≤ 1000)
    (hcall : call.requests = some batch) (htaken : TakenFrom st.buffer batch) (honce : st.receiver.passed.Nodup) :
    (CRVReceiver.step P.layout P.cfg st.receiver call).passed.Nodup := by
  have hsub : (CRVReceiver.toRead P.cfg call st.receiver).Sublist batch.entries := toRead_sublist hcall
  have hids : ((CRVReceiver.toRead P.cfg call st.receiver).map (·.1)).Nodup :=
    List.Nodup.sublist (hsub.map _) (List.pairwise_map.mpr (batch.sorted.imp Nat.ne_of_lt))
  rw [passed_step]
  refine List.Nodup.append honce hids fun id hold hnew => ?_
  obtain ⟨req, hread, rfl⟩ := List.mem_map.mp hnew
  obtain ⟨-, -, -, hnot⟩ := CRVReceiver.mem_batch_of_mem_toRead P.requestMode hread
  exact hnot (h.mem_seen hbound htaken (hsub.mem hread) hold)

end getNext

theorem nodup_passed_of_reachable {ok : CRVCall → Prop} (hbound : P.maxRequestCount + P.maxDelay ≤ 1000)
    (h : P.Reachable ok st) : st.receiver.passed.Nodup := by
  induction h with
  | refl => exact List.nodup_nil
  | tail hreach hstep ih =>
    cases hstep with
    | analyze => exact ih
    | send => exact ih
    | deliver => exact ih
    | getNext call batch _ hcall htaken =>
      exact (consistent_of_reachable hreach).nodup_passed_step hbound hcall htaken ih

/-- **No request is read twice**: whatever is sent, lost, repeated or late by at most `maxDelay` events, and whatever
the reads do, every request passed on to the DTC is that of an event, with its own timestamp, no two of them have the
same id, and the fragments are in the order of these requests, with at most one for each. -/
theorem read_once {ok : CRVCall → Prop} (hbound : P.maxRequestCount + P.maxDelay ≤ 1000) (h : P.Reachable ok st) :
    (∀ req ∈ st.receiver.requested, headerOf req ∈ st.analyzed) ∧ st.receiver.passed.Nodup ∧
      (st.receiver.frags.map (·.sequenceID)).Sublist st.receiver.passed := by
  have hst := consistent_of_reachable h
  exact ⟨hst.requested, nodup_passed_of_reachable hbound h, hst.fragments⟩

/-- A hundred requests are kept, as many as by default, and messages may be ten events late. -/
def exampleProtocol : RequestProtocol (List (ℕ × ℕ)) :=
  ⟨.assoc, .assoc, 100, 10, .zeroTerminated, CRVReceiver.hardwareConfig, rfl⟩

def oneEvent : RequestEvent := ⟨[none, some ⟨7, 5⟩], ⟨0, 0⟩⟩

/-- After one event, and the message for it. -/
def sentOne : RequestSystem (List (ℕ × ℕ)) :=
  ⟨Mu2eRequestSender.analyze .assoc 100 (Mu2eRequestSender.init .assoc) oneEvent, [⟨7, 5⟩], [⟨[(7, 5)], 1⟩], [],
    CRVReceiver.init CRVReceiver.hardwareConfig⟩

theorem reachable_sentOne_of (ok : CRVCall → Prop) : exampleProtocol.Reachable ok sentOne := by
  have hnone : exampleProtocol.Reachable ok exampleProtocol.init := .refl
  exact (hnone.tail (.analyze oneEvent ⟨7, 5⟩ rfl (by decide) fun _ hold => absurd hold List.not_mem_nil)).tail .send

theorem reachable_sentOne : exampleProtocol.Reachable Delivers sentOne := reachable_sentOne_of Delivers

theorem delivers_callFor (id tag : ℕ) : Delivers (CRVReceiver.callFor id (CRVReceiver.eventFor tag)) := by
  intro _
  show (CRVReceiver.eventFor tag).delivered ≠ []
  rw [Read.delivered_of_first rfl]
  exact List.cons_ne_nil _ _

theorem takenFrom_singleton (req : ℕ × ℕ) : TakenFrom [req] ⟨[req], List.pairwise_singleton _ _⟩ where
  keys _ h := List.mem_map_of_mem h
  entries _ h := h

/-- The message comes twice, and is taken twice. -/
theorem read_once_of_repeated :
    ∃ st, exampleProtocol.Reachable Delivers st ∧ st.receiver.requested = [(7, 5)] ∧
      (∀ req ∈ st.receiver.requested, headerOf req ∈ st.analyzed) ∧ st.receiver.passed.Nodup ∧
      (st.receiver.frags.map (·.sequenceID)).Sublist st.receiver.passed := by
  have hfirst := (reachable_sentOne.tail (.deliver ⟨[(7, 5)], 1⟩ List.mem_cons_self (by decide))).tail
    (.getNext _ _ (delivers_callFor 7 7) rfl (takenFrom_singleton (7, 5)))
  have hsecond := (hfirst.tail (.deliver ⟨[(7, 5)], 1⟩ List.mem_cons_self (by decide))).tail
    (.getNext _ _ (delivers_callFor 7 7) rfl (takenFrom_singleton (7, 5)))
  exact ⟨_, hsecond, by decide, read_once (by decide) hsecond⟩

/-! ### Every request is answered -/

theorem fragments_eq_passed (h : P.Reachable Delivers st) :
    st.receiver.frags.map (·.sequenceID) = st.receiver.passed := by
  induction h with
  | refl => rfl
  | tail hreach hstep ih =>
    cases hstep with
    | analyze => exact ih
    | send => exact ih
    | deliver => exact ih
    | getNext call batch hok hcall htaken =>
      have hconsistent := consistent_of_reachable hreach
      obtain ⟨new, hfrags, hnew, -⟩ :=
        (CRVReceiver.served_step P.layout P.requestMode (hconsistent.nonzeroIds hcall htaken) _).appends
      rw [CRVReceiver.answered_of_delivered fun req _ => hok req.1] at hnew
      show (CRVReceiver.step P.layout P.cfg _ call).frags.map (·.sequenceID) =
        (CRVReceiver.step P.layout P.cfg _ call).passed
      rw [passed_step, hfrags, List.map_append, ih, hnew]

theorem mem_toRead {call : CRVCall} {batch : Requests} (hok : Delivers call) (hstop : call.shouldStop = false)
    (hcall : call.requests = some batch) {req : ℕ × ℕ} (hreq : req ∈ batch.entries)
    (hnot : req.1 ∉ st.receiver.seenSequenceIds) : req ∈ CRVReceiver.toRead P.cfg call st.receiver := by
  rw [CRVReceiver.toRead_of_batch P.requestMode hstop hcall, CRVReceiver.mem_unseen_iff batch.sorted]
  exact ⟨hreq, hnot, fun earlier _ _ _ hfail => hok earlier.1 hfail.1⟩

theorem Consistent.mem_passed_step (h : Consistent P st) {call : CRVCall} {batch : Requests} (hok : Delivers call)
    (hstop : call.shouldStop = false) (hcall : call.requests = some batch) {req : ℕ × ℕ} (hreq : req ∈ batch.entries) :
    req.1 ∈ (CRVReceiver.step P.layout P.cfg st.receiver call).passed := by
  rw [passed_step, List.mem_append]
  by_cases hseen : req.1 ∈ st.receiver.seenSequenceIds
  · exact Or.inl (List.mem_toFinset.mp (h.memory.isTop.subset hseen))
  · exact Or.inr (List.mem_map_of_mem (mem_toRead hok hstop hcall hreq hseen))

theorem Consistent.mem_requested (h : Consistent P st) {hdr : RawEventHeader} (hhdr : hdr ∈ st.analyzed)
    (hpassed : hdr.sequenceID ∈ st.receiver.passed) : (hdr.sequenceID, hdr.timestamp) ∈ st.receiver.requested := by
  obtain ⟨req, hreq, hid⟩ := List.mem_map.mp hpassed
  have hnodup : (Mu2eRequestSender.ids st.analyzed).Nodup := h.increasing.imp Nat.ne_of_lt
  have hsame : headerOf req = hdr := List.inj_on_of_nodup_map hnodup (h.requested req hreq) hhdr hid
  rw [← hsame]
  exact hreq

/-- **One message is enough**: if all reads deliver something, then after a message was delivered that is not too old,
and a call that takes it, every event of its window was read, at its own timestamp, and has exactly one fragment,
whatever became of the messages before. -/
theorem message_suffices (hbound : P.maxRequestCount + P.maxDelay ≤ 1000) (h : P.Reachable Delivers st)
    {msg : RequestMessage} (hmsg : msg ∈ st.messages) (hdelay : st.analyzed.length ≤ msg.sentAt + P.maxDelay)
    {call : CRVCall} {batch : Requests} (hok : Delivers call) (hstop : call.shouldStop = false)
    (hcall : call.requests = some batch) (htaken : TakenFrom (st.buffer ++ msg.requests) batch) :
    let receiver := CRVReceiver.step P.layout P.cfg st.receiver call
    ∀ hdr ∈ (st.analyzed.take msg.sentAt).rtake P.maxRequestCount,
      (hdr.sequenceID, hdr.timestamp) ∈ receiver.requested ∧
        (receiver.frags.map (·.sequenceID)).count hdr.sequenceID = 1 := by
  intro receiver hdr hhdr
  have hdelivered : P.Reachable Delivers { st with buffer := st.buffer ++ msg.requests } :=
    h.tail (Step.deliver msg hmsg hdelay)
  have hserved := hdelivered.tail (Step.getNext call batch hok hcall htaken)
  have hbefore := consistent_of_reachable hdelivered
  have hafter := consistent_of_reachable hserved
  obtain ⟨-, hrequests⟩ := hbefore.messages msg hmsg
  have hpushed : (hdr.sequenceID, hdr.timestamp) ∈ msg.requests := (hrequests _).mpr hhdr
  have hanalyzed : hdr ∈ st.analyzed := List.mem_of_mem_take (List.mem_of_mem_drop hhdr)
  have hpassed : hdr.sequenceID ∈ receiver.passed := by
    obtain ⟨entry, hentry, hid⟩ := List.mem_map.mp (htaken.keys _ (List.mem_append_right _ hpushed))
    have hmem := hbefore.mem_passed_step hok hstop hcall hentry
    rwa [hid] at hmem
  refine ⟨hafter.mem_requested hanalyzed hpassed, ?_⟩
  have hfrags : receiver.frags.map (·.sequenceID) = receiver.passed := fragments_eq_passed hserved
  rw [hfrags]
  exact List.count_eq_one_of_mem (nodup_passed_of_reachable hbound hserved) hpassed

theorem message_suffices_one :
    let receiver := CRVReceiver.step exampleProtocol.layout exampleProtocol.cfg sentOne.receiver
      (CRVReceiver.callFor 7 (CRVReceiver.eventFor 7))
    (7, 5) ∈ receiver.requested ∧ (receiver.frags.map (·.sequenceID)).count 7 = 1 := by
  have hmsg : (⟨[(7, 5)], 1⟩ : RequestMessage) ∈ sentOne.messages := List.mem_cons_self
  exact message_suffices (by decide) reachable_sentOne hmsg (by decide) (delivers_callFor 7 7) rfl rfl
    (takenFrom_singleton (7, 5)) ⟨7, 5⟩ (by decide)

end RequestProtocol

end ArtdaqMu2e
