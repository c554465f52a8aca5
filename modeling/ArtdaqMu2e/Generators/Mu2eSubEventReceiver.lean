import ArtdaqMu2e.Data.EventHeader
import ArtdaqMu2e.Generators.Mu2eEventReceiverBase

/-!
# The sub-event receiver

The receiver for DTCs without hardware event building. One read returns a list of sub-events; each of them is
wrapped into an event of its own, with a header in front, and goes into a fragment of its own. The counter numbers
the fragments. On the receiver with fragment id 0, a call that finds the counter at a multiple of the rollover
interval appends an end-of-subrun fragment before it reads.

The state is that of the other receivers. The throttle only waits.
-/

namespace ArtdaqMu2e

open Memory

/-- A `DTC_SubEvent`: its tag, and the bytes of its raw buffer (`GetSubEventByteCount` of them). -/
structure DtcSubEvent where
  eventWindowTag : ℕ
  rawBuffer : List Byte
  deriving DecidableEq

structure SubEventConfig extends ReceiverConfig where
  rank : ℕ
  rolloverSubrunInterval : ℕ

/-- One call of `getNext_`, with what happens during it. -/
structure SubEventCall where
  shouldStop : Bool
  read : Read DtcSubEvent

namespace Mu2eSubEventReceiver

def getCurrentSequenceID (st : Receiver) : ℕ := st.evCounter

def getCurrentEventWindowTag (st : Receiver) : ℕ :=
  if st.timestamps.firstTimestampSeen > 0 then
    u64 (getCurrentSequenceID st + st.timestamps.firstTimestampSeen)
  else 0

def sendRequest (cfg : SubEventConfig) (st : Receiver) : Receiver :=
  if cfg.mode ≠ .disabled then
    { st with cfoRequests := st.cfoRequests ++ [(getCurrentEventWindowTag st, cfg.heartbeatsAfter)] }
  else st

/-- `MetadataFragment::CreateEndOfSubrunFragment`. -/
def createEndOfSubrunFragment (rank sequenceID subrun timestamp : ℕ) : Fragment :=
  ⟨⟨sequenceID, 0, .endOfSubrun, timestamp⟩, .endOfSubrun rank subrun⟩

/-- The temporary sub-run transition. -/
def rollover (cfg : SubEventConfig) (st : Receiver) : Receiver :=
  if cfg.rolloverSubrunInterval > 0 ∧ st.evCounter % cfg.rolloverSubrunInterval = 0 ∧ cfg.fragmentId = 0 then
    { st with frags := st.frags ++ [createEndOfSubrunFragment cfg.rank (st.evCounter + 1)
      (1 + st.evCounter / cfg.rolloverSubrunInterval) 0] }
  else st

section event
variable {w : ℕ} (header : HeaderLayout w)

/-- `DTC_Event::SetEventWindowTag` on the raw buffer of an event. -/
def setEventWindowTag (evt : List Byte) (tag : ℕ) : List Byte :=
  memcpy evt (header.encode ((header.decode evt).withTag tag))

def getEventByteCount (evt : List Byte) : ℕ := (header.decode evt).inclusiveEventByteCount.toNat

/-- `evtHdr`, for a buffer of `sizeBytes` bytes. -/
def eventHeader (w sizeBytes tsOut : ℕ) : EventHeader w :=
  EventHeader.withTag ⟨BitVec.ofNat w sizeBytes, 1, 0, 0⟩ tsOut

/-- The raw buffer of the event around the `i`-th sub-event of a read; `SetupEvent` leaves it as it is. -/
def buildEvent (fresh : ℕ → (n : ℕ) → Area Byte n) (tsOut i : ℕ) (subevt : DtcSubEvent) : List Byte :=
  let sizeBytes := header.size + subevt.rawBuffer.length
  let evt := (fresh (2 * i) sizeBytes).cells
  let evt := memcpy evt (header.encode (eventHeader w sizeBytes tsOut))
  let evt := memcpyAt header.size evt subevt.rawBuffer
  setEventWindowTag header evt tsOut

variable (cfg : SubEventConfig) (fresh : ℕ → (n : ℕ) → Area Byte n) (tsOut : ℕ)

def subEventFragment (i : ℕ) (subevt : DtcSubEvent) (st : Receiver) : Fragment :=
  let evt := buildEvent header fresh tsOut i subevt
  let count := getEventByteCount header evt
  ⟨⟨getCurrentSequenceID st, cfg.fragmentId, .DTCEVT, st.timestamps.stamp tsOut⟩,
    .data (memcpy (fresh (2 * i + 1) count).cells (evt.take count))⟩

/-- The body of the loop over the sub-events. -/
def addSubEvent (i : ℕ) (subevt : DtcSubEvent) (st : Receiver) : Receiver :=
  let evt := buildEvent header fresh tsOut i subevt
  { st with
    rawOutputStream := if cfg.rawOutput then st.rawOutputStream.write [evt] else st.rawOutputStream
    timestamps := st.timestamps.next tsOut
    frags := st.frags ++ [subEventFragment header cfg fresh tsOut i subevt st]
    evCounter := st.evCounter + 1 }

/-- The tag of the first sub-event is used for all of them. -/
def addSubEvents : ℕ → List DtcSubEvent → Receiver → Receiver
  | _, [], st => st
  | i, subevt :: subevts, st => addSubEvents (i + 1) subevts (addSubEvent header cfg fresh tsOut i subevt st)

end event

def getNextDTCFragment {w : ℕ} (header : HeaderLayout w) (cfg : SubEventConfig) (read : Read DtcSubEvent)
    (tsIn : ℕ) (st : Receiver) : Bool × Receiver :=
  let st := { st with getDataCalls := st.getDataCalls ++ List.replicate read.calls tsIn }
  match read.delivered with
  | [] => (cfg.mode = .disabled, st)
  | subevt :: subevts =>
    (true, addSubEvents header cfg read.fresh subevt.eventWindowTag 0 (subevt :: subevts) st)

def getNext {w : ℕ} (header : HeaderLayout w) (cfg : SubEventConfig) (call : SubEventCall) (st : Receiver) :
    Bool × Receiver :=
  if call.shouldStop then (false, st)
  else getNextDTCFragment header cfg call.read 0 (rollover cfg (sendRequest cfg st))

def step {w : ℕ} (header : HeaderLayout w) (cfg : SubEventConfig) (st : Receiver) (call : SubEventCall) :
    Receiver :=
  (getNext header cfg call st).2

/-- What a call delivers. -/
def delivered (call : SubEventCall) : List DtcSubEvent :=
  if call.shouldStop then [] else call.read.delivered

/-- The tag used for all that a call delivers. -/
def headTag (call : SubEventCall) : ℕ := ((delivered call).head?.map (·.eventWindowTag)).getD 0

/-! ### What a call does -/

section step
variable {w : ℕ} (header : HeaderLayout w) (cfg : SubEventConfig) {call : SubEventCall}

theorem step_of_stop (hstop : call.shouldStop = true) (st : Receiver) : step header cfg st call = st := by
  rw [step, getNext, if_pos hstop]

theorem delivered_of_stop (hstop : call.shouldStop = true) : delivered call = [] := if_pos hstop

theorem step_of_not_stop (hstop : ¬ call.shouldStop = true) (st : Receiver) :
    step header cfg st call =
      addSubEvents header cfg call.read.fresh (headTag call) 0 (delivered call)
        { rollover cfg (sendRequest cfg st) with
          getDataCalls := (rollover cfg (sendRequest cfg st)).getDataCalls ++ List.replicate call.read.calls 0 } := by
  have hread : delivered call = call.read.delivered := if_neg hstop
  rw [step, getNext, if_neg hstop, headTag, hread, getNextDTCFragment]
  cases call.read.delivered <;> rfl

end step

/-! ### What a call appends -/

theorem sendRequest_spec (cfg : SubEventConfig) (st : Receiver) :
    (sendRequest cfg st).frags = st.frags ∧ (sendRequest cfg st).evCounter = st.evCounter ∧
      (sendRequest cfg st).timestamps = st.timestamps := by
  unfold sendRequest
  split <;> exact ⟨rfl, rfl, rfl⟩

/-- The fragment carries the sub-event under the given tag: the payload is a header with this tag and with the size
of both, and then the bytes of the sub-event. -/
def Carries {w : ℕ} (header : HeaderLayout w) (frag : Fragment) (subevt : DtcSubEvent) (tag : ℕ) : Prop :=
  ∃ hdr : EventHeader w,
    frag.dataArea.take (header.size + subevt.rawBuffer.length) = header.encode hdr ++ subevt.rawBuffer ∧
      hdr.inclusiveEventByteCount.toNat = header.size + subevt.rawBuffer.length ∧ hdr.eventWindowTag = tag

section spec
variable {w : ℕ} (header : HeaderLayout w) (cfg : SubEventConfig)

theorem Carries.tag_unique {header : HeaderLayout w} {frag : Fragment} {subevt : DtcSubEvent} {tag tag' : ℕ}
    (h : Carries header frag subevt tag) (h' : Carries header frag subevt tag') : tag = tag' := by
  obtain ⟨hdr, hbytes, -, htag⟩ := h
  obtain ⟨hdr', hbytes', -, htag'⟩ := h'
  have hsame : hdr = hdr' := by
    rw [← header.decode_encode hdr subevt.rawBuffer, ← header.decode_encode hdr' subevt.rawBuffer, ← hbytes,
      ← hbytes']
  rw [← htag, ← htag', hsame]

theorem buildEvent_eq (fresh : ℕ → (n : ℕ) → Area Byte n) (tsOut i : ℕ) (subevt : DtcSubEvent) :
    ∃ rest, buildEvent header fresh tsOut i subevt =
      header.encode (eventHeader w (header.size + subevt.rawBuffer.length) tsOut) ++
        (subevt.rawBuffer ++ rest) := by
  have hroom := (fresh (2 * i) (header.size + subevt.rawBuffer.length)).le_length
  refine ⟨(fresh (2 * i) (header.size + subevt.rawBuffer.length)).cells.drop
    (header.size + subevt.rawBuffer.length), ?_⟩
  simp only [buildEvent, setEventWindowTag]
  rw [memcpyAt_memcpy (header.length_encode _) hroom, header.decode_encode,
    memcpy_append (by rw [header.length_encode, header.length_encode])]
  rfl

theorem carries_subEventFragment (fresh : ℕ → (n : ℕ) → Area Byte n) {tsOut : ℕ} (htag : tsOut < 2 ^ 48) (i : ℕ)
    {subevt : DtcSubEvent} (hfits : header.size + subevt.rawBuffer.length < 2 ^ w) (st : Receiver) :
    Carries header (subEventFragment header cfg fresh tsOut i subevt st) subevt tsOut := by
  obtain ⟨rest, hevt⟩ := buildEvent_eq header fresh tsOut i subevt
  have hcount : getEventByteCount header (buildEvent header fresh tsOut i subevt) =
      header.size + subevt.rawBuffer.length := by
    rw [hevt, getEventByteCount, header.decode_encode]
    exact Nat.mod_eq_of_lt hfits
  have hbytes : (buildEvent header fresh tsOut i subevt).take (header.size + subevt.rawBuffer.length) =
      header.encode (eventHeader w (header.size + subevt.rawBuffer.length) tsOut) ++ subevt.rawBuffer := by
    rw [hevt, ← List.append_assoc]
    exact List.take_left' (by rw [List.length_append, header.length_encode])
  refine ⟨eventHeader w (header.size + subevt.rawBuffer.length) tsOut, ?_, Nat.mod_eq_of_lt hfits,
    EventHeader.eventWindowTag_withTag _ htag⟩
  have hroom := (Nat.le_of_eq hcount.symm).trans (fresh (2 * i + 1)
    (getEventByteCount header (buildEvent header fresh tsOut i subevt))).le_length
  simp only [subEventFragment, Fragment.dataArea, hcount, hbytes]
  exact take_memcpy (by rw [List.length_append, header.length_encode]) hroom

end spec

end Mu2eSubEventReceiver

end ArtdaqMu2e
