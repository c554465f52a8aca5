import ArtdaqMu2e.System.RawRoundTrip
import ArtdaqMu2e.System.RequestProtocol

/-!
# From the requests to the file

The request sender, the receiver for requests and the dump together. The DTC has an event for each window. A read for a
request asks for the window of its timestamp, and gets the event of this window or fails (`FromDtc`).

What a dump of the receiver's fragments writes is then made of the events of windows that were requested: one for each
fragment, in the order in which the requests were passed on (`Dumps`, kept by every read). With the bound of the request
protocol none of them is there twice, whatever became of the messages (`dumped_once`). If no read fails, one message
that gets through is enough for all the events of its window to be there (`window_dumped`).
-/

namespace ArtdaqMu2e

open Runs

open CRVReceiver (answered)

open Mu2eRequestSender (ids)

namespace RequestProtocol

/-- The reads of a call deliver the event of the window that is asked for, or nothing. -/
def FromDtc (data : ℕ → DtcEvent) (call : CRVCall) : Prop :=
  ∀ batch, call.requests = some batch → ∀ req ∈ batch.entries,
    (call.reads req.1).delivered = [] ∨ (call.reads req.1).delivered = [data req.2]

/-- The events of the windows that the headers are for. -/
def windowEvents (data : ℕ → DtcEvent) (hdrs : List RawEventHeader) : List (List Byte) :=
  hdrs.map fun hdr => (data hdr.timestamp).rawBuffer

/-- The fragments are for requests that were passed on, and a dump of them writes the events of their windows. -/
structure Dumps {ε : Type*} {w : ℕ} {header : HeaderLayout w} (layout : FragmentLayout) (L : EventLibrary ε header)
    (data : ℕ → DtcEvent) (receiver : CRVReceiver) (hdrs : List RawEventHeader) : Prop where
  requested : hdrs.Sublist (receiver.requested.map headerOf)
  fragments : ids hdrs = receiver.frags.map (·.sequenceID)
  dumped : dumped layout L receiver.frags = (windowEvents data hdrs).flatten

section reads
variable {ε : Type*} {w : ℕ} {header : HeaderLayout w} {layout : FragmentLayout} {L : EventLibrary ε header}
  (cfg : CRVConfig) {data : ℕ → DtcEvent}
  {reads : ℕ → Read DtcEvent} {receiver : CRVReceiver} {hdrs : List RawEventHeader}

theorem Dumps.readRequest (hwhole : ∀ tag, L.Whole (data tag).rawBuffer)
    (h : Dumps layout L data receiver hdrs) {req : ℕ × ℕ} (hid : req.1 ≠ 0)
    (hread : (reads req.1).delivered = [] ∨ (reads req.1).delivered = [data req.2]) :
    ∃ new, Dumps layout L data (CRVReceiver.readRequest layout cfg reads receiver req) (hdrs ++ new) := by
  obtain ⟨frags, hfrags, hids, -⟩ := (CRVReceiver.served_readRequest layout cfg reads receiver hid).appends
  have hrequested : (CRVReceiver.readRequest layout cfg reads receiver req).requested.map headerOf =
      receiver.requested.map headerOf ++ [headerOf req] := List.map_append
  have hone : (reads req.1).delivered.length ≤ 1 := by rcases hread with hread | hread <;> simp [hread]
  have hevents : ∀ evt ∈ (reads req.1).delivered, L.Whole evt.rawBuffer := by
    rcases hread with hread | hread <;> simp [hread, hwhole]
  have hdumped : ArtdaqMu2e.dumped layout L (CRVReceiver.readRequest layout cfg reads receiver req).frags = _ :=
    dumped_getNextDTCFragment layout L cfg.toReceiverConfig hone hevents req.2 req.1 receiver.toReceiver
  rcases hread with hread | hread
  · have hnone : answered reads [req] = [] := by simp [answered, hread]
    refine ⟨[], ?_, ?_, ?_⟩
    · rw [List.append_nil, hrequested]
      exact h.requested.trans (List.sublist_append_left _ _)
    · rw [List.append_nil, hfrags, List.map_append, hids, hnone, List.map_nil, List.append_nil, h.fragments]
    · rw [List.append_nil, hdumped, hread, List.map_nil, List.flatten_nil, List.append_nil, h.dumped]
  · have hsome : answered reads [req] = [req] := by simp [answered, hread]
    refine ⟨[headerOf req], ?_, ?_, ?_⟩
    · rw [hrequested]
      exact h.requested.append (List.Sublist.refl _)
    · rw [hfrags, List.map_append, hids, hsome, Mu2eRequestSender.ids_append, h.fragments]
      rfl
    · rw [hdumped, hread, h.dumped, windowEvents, windowEvents, List.map_append, List.flatten_append]
      rfl

theorem Dumps.run (hwhole : ∀ tag, L.Whole (data tag).rawBuffer) {reqs : List (ℕ × ℕ)}
    (hreqs : ∀ req ∈ reqs, req.1 ≠ 0 ∧
      ((reads req.1).delivered = [] ∨ (reads req.1).delivered = [data req.2]))
    (h : Dumps layout L data receiver hdrs) :
    ∃ new, Dumps layout L data (Runs.run (CRVReceiver.readRequest layout cfg reads) receiver reqs)
      (hdrs ++ new) := by
  induction reqs generalizing receiver hdrs with
  | nil => exact ⟨[], by rwa [List.append_nil]⟩
  | cons req reqs ih =>
    obtain ⟨⟨hid, hread⟩, hreqs⟩ := List.forall_mem_cons.mp hreqs
    obtain ⟨first, hfirst⟩ := h.readRequest cfg hwhole hid hread
    obtain ⟨rest, hrest⟩ := ih hreqs hfirst
    refine ⟨first ++ rest, ?_⟩
    rw [run_cons, ← List.append_assoc]
    exact hrest

end reads

variable {σ ε : Type*} {P : RequestProtocol σ} {w : ℕ} {header : HeaderLayout w} {L : EventLibrary ε header}
  {data : ℕ → DtcEvent} {st : RequestSystem σ}

theorem dumps_of_reachable {ok : CRVCall → Prop} (hok : ∀ call, ok call → FromDtc data call)
    (hwhole : ∀ tag, L.Whole (data tag).rawBuffer) (h : P.Reachable ok st) :
    ∃ hdrs, Dumps P.layout L data st.receiver hdrs := by
  induction h with
  | refl => exact ⟨[], List.nil_sublist _, rfl, rfl⟩
  | @tail before _ hreach hstep ih =>
    cases hstep with
    | analyze => exact ih
    | send => exact ih
    | deliver => exact ih
    | getNext call batch hcallOk hcall htaken =>
      obtain ⟨hdrs, hdumps⟩ := ih
      have hids := (consistent_of_reachable hreach).nonzeroIds hcall htaken
      have hreads : ∀ req ∈ CRVReceiver.toRead P.cfg call before.receiver, req.1 ≠ 0 ∧
          ((call.reads req.1).delivered = [] ∨ (call.reads req.1).delivered = [data req.2]) := by
        intro req hreq
        have hmem : req ∈ batch.entries := (toRead_sublist hcall).mem hreq
        exact ⟨hids batch hcall req hmem, hok call hcallOk batch hcall req hmem⟩
      obtain ⟨new, hnew⟩ := hdumps.run P.cfg hwhole hreads
      refine ⟨hdrs ++ new, ?_⟩
      rw [CRVReceiver.step, (CRVReceiver.getNext_eq_run P.layout P.cfg _ call).1]
      exact hnew

theorem eachOneKind_of_reachable {ok : CRVCall → Prop} (h : P.Reachable ok st) :
    EachOneKind P.layout st.receiver.frags := by
  induction h with
  | refl => exact List.forall_mem_nil _
  | tail _ hstep ih =>
    cases hstep with
    | analyze => exact ih
    | send => exact ih
    | deliver => exact ih
    | getNext call =>
      exact CRVReceiver.step_invariant P.layout P.cfg (P := fun receiver => EachOneKind P.layout receiver.frags) _
        (fun reads _ req h _ => eachOneKind_getNextDTCFragment P.layout P.cfg.toReceiverConfig (reads req.1) req.2
          req.1 h) call ih

/-- **The file holds the windows that were requested, none of them twice**: whatever is sent, lost, repeated or late by
at most `maxDelay` events, and whichever reads fail: a job that gets the fragments appends to its file the events of the
windows of as many analyzed events, one for each fragment and in their order. -/
theorem dumped_once {ok : CRVCall → Prop} (hok : ∀ call, ok call → FromDtc data call)
    (hwhole : ∀ tag, L.Whole (data tag).rawBuffer) (hbound : P.maxRequestCount + P.maxDelay ≤ 1000)
    (h : P.Reachable ok st) {job : DumpJob} (hgets : DTCEventDump.Gets P.layout job st.receiver.frags)
    (binaryFileName : String) {s : FileStream String Byte} (hs : s.target = none) :
    let dumpFile := rawFileName binaryFileName job.time
    ∃ hdrs, (∀ hdr ∈ hdrs, hdr ∈ st.analyzed) ∧ (ids hdrs).Nodup ∧
      ids hdrs = st.receiver.frags.map (·.sequenceID) ∧
      ∃ s', DTCEventDump.runJob P.layout L ⟨binaryFileName, false⟩ job s = some s' ∧
        s'.files dumpFile = s.files dumpFile ++ (windowEvents data hdrs).flatten := by
  intro dumpFile
  obtain ⟨hdrs, hdumps⟩ := dumps_of_reachable hok hwhole h
  obtain ⟨hrequested, honce, hfrags⟩ := read_once hbound h
  obtain ⟨s', hjob, -, hfiles⟩ := DTCEventDump.files_runJob L ⟨binaryFileName, false⟩ hs hgets
  refine ⟨hdrs, fun hdr hhdr => ?_, ?_, hdumps.fragments, s', hjob, ?_⟩
  · obtain ⟨req, hreq, rfl⟩ := List.mem_map.mp (hdumps.requested.mem hhdr)
    exact hrequested req hreq
  · rw [hdumps.fragments]
    exact honce.sublist hfrags
  · rw [hfiles, Function.update_self, ← hdumps.dumped]
    rfl

/-- For each window an event with its tag. -/
def windowData (tag : ℕ) : DtcEvent := wholeEvent tag [7]

/-- A library that goes by the byte count. -/
def windowLibrary : EventLibrary (List Byte) .packed := .counted .packed fun _ => []

theorem whole_windowData (tag : ℕ) : windowLibrary.Whole (windowData tag).rawBuffer :=
  isEvent_wholeEvent tag (by decide)

/-- A call with the request for the window 5 under the id 7. -/
def windowCall : CRVCall := CRVReceiver.callFor 7 (Read.ofEvents [windowData 5])

theorem windowCall_ok : FromDtc windowData windowCall ∧ Delivers windowCall := by
  have hread : (Read.ofEvents [windowData 5]).delivered = [windowData 5] := Read.delivered_of_first rfl
  refine ⟨fun batch hbatch req hreq => ?_, fun _ => ?_⟩
  · obtain rfl := Option.some.inj hbatch
    obtain rfl : req = (7, 5) := List.mem_singleton.mp hreq
    exact Or.inr hread
  · show (Read.ofEvents [windowData 5]).delivered ≠ []
    rw [hread]
    exact List.cons_ne_nil _ _

/-- The message comes twice and is taken twice. -/
theorem dumped_once_of_repeated :
    let files : String → List Byte := fun _ => []
    let dumpFile := rawFileName "/tmp/dump.bin" 20
    ∃ st, exampleProtocol.Reachable (FromDtc windowData) st ∧ st.receiver.requested = [(7, 5)] ∧
      ∃ hdrs, (∀ hdr ∈ hdrs, hdr ∈ st.analyzed) ∧ (ids hdrs).Nodup ∧
        ids hdrs = st.receiver.frags.map (·.sequenceID) ∧
        ∃ s', DTCEventDump.runJob .zeroTerminated windowLibrary ⟨"/tmp/dump.bin", false⟩
            ⟨20, st.receiver.frags.map fun frag => [some [frag]]⟩ (FileStream.ofFiles files) = some s' ∧
          s'.files dumpFile = files dumpFile ++ (windowEvents windowData hdrs).flatten := by
  intro files dumpFile
  have hfirst := ((reachable_sentOne_of (FromDtc windowData)).tail
    (.deliver ⟨[(7, 5)], 1⟩ List.mem_cons_self (by decide))).tail
    (.getNext windowCall _ windowCall_ok.1 rfl (takenFrom_singleton (7, 5)))
  have hsecond := (hfirst.tail (.deliver ⟨[(7, 5)], 1⟩ List.mem_cons_self (by decide))).tail
    (.getNext windowCall _ windowCall_ok.1 rfl (takenFrom_singleton (7, 5)))
  exact ⟨_, hsecond, by decide, dumped_once (fun _ hok => hok) whole_windowData (by decide) hsecond
    (DTCEventDump.gets_singletons 20 (eachOneKind_of_reachable hsecond)) "/tmp/dump.bin" rfl⟩

/-- **One message brings the events of its windows into the file**: if no read fails, then after a message was delivered
that is not too old, and a call that takes it, a dump of the fragments writes the event of every window that the message
was for, and no window twice. -/
theorem window_dumped (hwhole : ∀ tag, L.Whole (data tag).rawBuffer)
    (hbound : P.maxRequestCount + P.maxDelay ≤ 1000)
    (h : P.Reachable (fun call => FromDtc data call ∧ Delivers call) st) {msg : RequestMessage}
    (hmsg : msg ∈ st.messages) (hdelay : st.analyzed.length ≤ msg.sentAt + P.maxDelay) {call : CRVCall}
    {batch : Requests} (hok : FromDtc data call ∧ Delivers call) (hstop : call.shouldStop = false)
    (hcall : call.requests = some batch) (htaken : TakenFrom (st.buffer ++ msg.requests) batch) {job : DumpJob}
    (hgets : DTCEventDump.Gets P.layout job (CRVReceiver.step P.layout P.cfg st.receiver call).frags)
    (binaryFileName : String) {s : FileStream String Byte} (hs : s.target = none) :
    let dumpFile := rawFileName binaryFileName job.time
    ∃ hdrs, (∀ hdr ∈ (st.analyzed.take msg.sentAt).rtake P.maxRequestCount, hdr ∈ hdrs) ∧
      (∀ hdr ∈ hdrs, hdr ∈ st.analyzed) ∧ (ids hdrs).Nodup ∧
      ∃ s', DTCEventDump.runJob P.layout L ⟨binaryFileName, false⟩ job s = some s' ∧
        s'.files dumpFile = s.files dumpFile ++ (windowEvents data hdrs).flatten := by
  intro dumpFile
  have hdelivers : P.Reachable Delivers st := reachable_mono (fun _ hboth => hboth.2) h
  have hserved := (h.tail (Step.deliver msg hmsg hdelay)).tail (Step.getNext call batch hok hcall htaken)
  obtain ⟨hdrs, hanalyzed, honce, hfrags, hfile⟩ :=
    dumped_once (fun _ hboth => hboth.1) hwhole hbound hserved hgets binaryFileName hs
  refine ⟨hdrs, fun hdr hhdr => ?_, hanalyzed, honce, hfile⟩
  obtain ⟨-, hcount⟩ := message_suffices hbound hdelivers hmsg hdelay hok.2 hstop hcall htaken hdr hhdr
  -- an event has one header, so the one with this id is its own
  have hid : hdr.sequenceID ∈ ids hdrs := by
    rw [hfrags]
    exact List.count_pos_iff.mp (hcount ▸ Nat.one_pos)
  obtain ⟨hdr', hmem, hsame⟩ := List.mem_map.mp hid
  have hnodup : (ids st.analyzed).Nodup := (consistent_of_reachable h).increasing.imp Nat.ne_of_lt
  have hhdr' : hdr ∈ st.analyzed := List.mem_of_mem_take (List.mem_of_mem_drop hhdr)
  rw [← List.inj_on_of_nodup_map hnodup (hanalyzed hdr' hmem) hhdr' hsame]
  exact hmem

theorem window_dumped_one :
    let receiver := CRVReceiver.step exampleProtocol.layout exampleProtocol.cfg sentOne.receiver windowCall
    let files : String → List Byte := fun _ => []
    let dumpFile := rawFileName "/tmp/dump.bin" 20
    ∃ hdrs, (∀ hdr ∈ ([⟨7, 5⟩] : List RawEventHeader), hdr ∈ hdrs) ∧ (∀ hdr ∈ hdrs, hdr ∈ sentOne.analyzed) ∧
      (ids hdrs).Nodup ∧
      ∃ s', DTCEventDump.runJob .zeroTerminated windowLibrary ⟨"/tmp/dump.bin", false⟩
          ⟨20, receiver.frags.map fun frag => [some [frag]]⟩ (FileStream.ofFiles files) = some s' ∧
        s'.files dumpFile = files dumpFile ++ (windowEvents windowData hdrs).flatten := by
  intro receiver files dumpFile
  have hmsg : (⟨[(7, 5)], 1⟩ : RequestMessage) ∈ sentOne.messages := List.mem_cons_self
  have hbefore := reachable_sentOne_of fun call => FromDtc windowData call ∧ Delivers call
  have hserved := (hbefore.tail (.deliver _ hmsg (by decide))).tail
    (.getNext windowCall _ windowCall_ok rfl (takenFrom_singleton (7, 5)))
  exact window_dumped whole_windowData (by decide) hbefore hmsg (by decide) windowCall_ok rfl rfl
    (takenFrom_singleton (7, 5)) (DTCEventDump.gets_singletons 20 (eachOneKind_of_reachable hserved)) "/tmp/dump.bin"
    rfl

end RequestProtocol

end ArtdaqMu2e
