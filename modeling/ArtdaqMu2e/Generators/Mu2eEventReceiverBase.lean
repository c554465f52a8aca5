import ArtdaqMu2e.Data.Fragment
import ArtdaqMu2e.Generators.Timestamp
import ArtdaqMu2e.Lib.Stream

/-!
# The base class of the event receivers

`getNextDTCFragment` reads from the DTC, up to six times until something comes back, and packs what came back
into one fragment: a `DTCEVT` fragment for a single event, a container for several.

`Receiver` is the state: the members, and what the receiver did to the outside (`frags`, the output argument of
`getNext_`; the tags given to `GetData`; the requests sent to the software CFO). `WriteEvent`, which writes an event to
the raw output stream, is code of the DTC library, so the stream has the raw buffers of the events that it was given.
What the outside does in one call is an input: a `Read` says what the successive `GetData` calls do, and what the memory
of the fragments allocated for it held before. Log lines, metrics and the commands that switch the emulators of the DTC
off are left out.
-/

namespace ArtdaqMu2e

open Memory

/-! ### Reading from the DTC -/

inductive SimMode where
  | disabled
  | simulated
  deriving DecidableEq, Repr

/-- A `DTC_Event`: its tag, and the bytes of its raw buffer (`GetEventByteCount` of them). -/
structure DtcEvent where
  eventWindowTag : ℕ
  rawBuffer : List Byte
  deriving DecidableEq

inductive GetDataResult (ε : Type*) where
  | exception
  | data (events : List ε)

structure Read (ε : Type*) where
  getData : ℕ → GetDataResult ε
  fresh : ℕ → (n : ℕ) → Area Byte n

/-- The retry loop, with `left` for `retryCount + 1`: what was read, and the number of calls it took. -/
def retry {ε : Type*} (getData : ℕ → GetDataResult ε) : (left calls : ℕ) → List ε × ℕ
  | 0, calls => ([], calls)
  | left + 1, calls =>
    match getData calls with
    | .data (evt :: evts) => (evt :: evts, calls + 1)
    | _ => retry getData left (calls + 1)

theorem lt_retry {ε : Type*} (getData : ℕ → GetDataResult ε) (left calls : ℕ) :
    calls < (retry getData (left + 1) calls).2 := by
  induction left generalizing calls with
  | zero =>
    rw [retry]
    split <;> exact Nat.lt_succ_self calls
  | succ left ih =>
    rw [retry]
    split
    · exact Nat.lt_succ_self calls
    · exact (Nat.lt_succ_self calls).trans (ih (calls + 1))

namespace Read

variable {ε : Type*}

/-- What a read delivers; nothing if all six calls throw or return nothing. -/
def delivered (read : Read ε) : List ε := (retry read.getData 6 0).1

def calls (read : Read ε) : ℕ := (retry read.getData 6 0).2

theorem calls_pos (read : Read ε) : 0 < read.calls := lt_retry read.getData 5 0

theorem delivered_of_first {read : Read ε} {evt : ε} {evts : List ε}
    (h : read.getData 0 = .data (evt :: evts)) : read.delivered = evt :: evts := by
  simp only [delivered, retry, h]

theorem calls_of_first {read : Read ε} {evt : ε} {evts : List ε}
    (h : read.getData 0 = .data (evt :: evts)) : read.calls = 1 := by
  simp only [calls, retry, h]

/-- Memory that held zeros. -/
def zeros (_ n : ℕ) : Area Byte n := Area.replicate n 0

/-- A read whose first call returns `events`. -/
def ofEvents (events : List ε) : Read ε := ⟨fun _ => .data events, zeros⟩

/-- A read whose calls all throw. -/
def failing : Read ε := ⟨fun _ => .exception, zeros⟩

end Read

/-! ### The receiver -/

/-- The parameters: `fragment_id`, `mode_`, `raw_output_enable`,
`null_heartbeats_after_requests`, `dtc_position_in_chain` and `n_dtcs_in_chain`. -/
structure ReceiverConfig where
  fragmentId : ℕ
  mode : SimMode
  rawOutput : Bool
  heartbeatsAfter : ℕ
  dtcOffset : ℕ
  nDtcs : ℕ
  deriving DecidableEq, Repr

structure Receiver where
  evCounter : ℕ
  timestamps : TimestampState
  rawOutputStream : OutputStream (List Byte)
  getDataCalls : List ℕ
  cfoRequests : List (ℕ × ℕ)
  frags : List Fragment

namespace Receiver

/-- A receiver as it is constructed, with `ev_counter` as artdaq sets it at the start of a run. -/
def init : Receiver := ⟨1, TimestampState.init, OutputStream.closed, [], [], []⟩

/-- `size_t` arithmetic: `ev_counter() - 1` wraps. -/
def getCurrentSequenceID (cfg : ReceiverConfig) (st : Receiver) : ℕ :=
  u64 (u64 (st.evCounter + (2 ^ 64 - 1)) * cfg.nDtcs + cfg.dtcOffset + 1)

/-- The raw output file is opened for appending; its name is not modelled. -/
def start (cfg : ReceiverConfig) (st : Receiver) : Receiver :=
  if cfg.rawOutput then { st with rawOutputStream := st.rawOutputStream.openAppend } else st

def stop (st : Receiver) : Receiver := { st with rawOutputStream := st.rawOutputStream.close }

/-- `StartCmd` of artdaq, between two runs: the counter restarts, the run has its own output, and `start()` is
called. -/
def startCmd (cfg : ReceiverConfig) (st : Receiver) : Receiver :=
  start cfg { st with evCounter := 1, frags := [] }

/-- `WriteEvent` is called for each event. -/
def writeRaw (cfg : ReceiverConfig) (st : Receiver) (events : List DtcEvent) : Receiver :=
  if cfg.rawOutput then
    { st with rawOutputStream := events.foldl (fun out evt => out.write [evt.rawBuffer]) st.rawOutputStream }
  else st

end Receiver

/-! ### Packing -/

/-- The loop over the events of a container. Each one gets a new fragment `frag` of its size, and its bytes are
copied to `frags.back()`, which is the container; then `frag` is added. -/
def fillContainer (layout : FragmentLayout) (fresh : ℕ → (n : ℕ) → Area Byte n) (header : FragmentHeader) :
    ℕ → List DtcEvent → Container → Container
  | _, [], c => c
  | i, evt :: evts, c =>
    let frag := (fresh i evt.rawBuffer.length).cells
    fillContainer layout fresh header (i + 1) evts
      ((c.overwrite evt.rawBuffer).addFragment layout header frag)

def packFragment (layout : FragmentLayout) (cfg : ReceiverConfig) (fresh : ℕ → (n : ℕ) → Area Byte n)
    (seqOut timestamp : ℕ) (data : List DtcEvent) : Fragment :=
  let header : FragmentHeader := ⟨seqOut, cfg.fragmentId, .DTCEVT, timestamp⟩
  match data with
  | [evt] => { header with body := .data (memcpy (fresh 0 evt.rawBuffer.length).cells evt.rawBuffer) }
  | data =>
    { header with
      type := .container
      body := .container (fillContainer layout fresh header 0 data (Container.new.setMissingData false)) }

def getNextDTCFragment (layout : FragmentLayout) (cfg : ReceiverConfig) (read : Read DtcEvent)
    (tsIn seqIn : ℕ) (st : Receiver) : Bool × Receiver :=
  let st := { st with getDataCalls := st.getDataCalls ++ List.replicate read.calls tsIn }
  match read.delivered with
  | [] => (cfg.mode = .disabled, st)
  | evt :: evts =>
    let seqOut := if seqIn = 0 then st.getCurrentSequenceID cfg else seqIn
    let st := st.writeRaw cfg (evt :: evts)
    let (fragmentTimestamp, timestamps) := st.timestamps.assign evt.eventWindowTag
    let frag := packFragment layout cfg read.fresh seqOut fragmentTimestamp (evt :: evts)
    (true, { st with
      timestamps := timestamps
      frags := st.frags ++ [frag]
      evCounter := st.evCounter + 1 })

section packing
variable (layout : FragmentLayout) (cfg : ReceiverConfig) (fresh : ℕ → (n : ℕ) → Area Byte n)
  (seqOut timestamp : ℕ) (data : List DtcEvent)

@[simp] theorem sequenceID_packFragment :
    (packFragment layout cfg fresh seqOut timestamp data).sequenceID = seqOut := by
  unfold packFragment
  split <;> rfl

@[simp] theorem timestamp_packFragment :
    (packFragment layout cfg fresh seqOut timestamp data).timestamp = timestamp := by
  unfold packFragment
  split <;> rfl

end packing

/-! ### What one read does -/

section read
variable {layout : FragmentLayout} {cfg : ReceiverConfig} {read : Read DtcEvent} {tsIn seqIn : ℕ}
  {st : Receiver}

theorem getNextDTCFragment_of_nil (h : read.delivered = []) :
    getNextDTCFragment layout cfg read tsIn seqIn st =
      (decide (cfg.mode = .disabled),
        { st with getDataCalls := st.getDataCalls ++ List.replicate read.calls tsIn }) := by
  simp only [getNextDTCFragment, h]

/-- The fragment made of what a read delivers to a receiver in state `st`. -/
def readFragment (layout : FragmentLayout) (cfg : ReceiverConfig) (read : Read DtcEvent) (seqIn : ℕ)
    (st : Receiver) (evt : DtcEvent) (evts : List DtcEvent) : Fragment :=
  packFragment layout cfg read.fresh (if seqIn = 0 then st.getCurrentSequenceID cfg else seqIn)
    (st.timestamps.stamp evt.eventWindowTag) (evt :: evts)

theorem getNextDTCFragment_of_cons {evt : DtcEvent} {evts : List DtcEvent}
    (h : read.delivered = evt :: evts) :
    getNextDTCFragment layout cfg read tsIn seqIn st =
      (true, { st with
        getDataCalls := st.getDataCalls ++ List.replicate read.calls tsIn
        rawOutputStream := (st.writeRaw cfg (evt :: evts)).rawOutputStream
        timestamps := st.timestamps.next evt.eventWindowTag
        frags := st.frags ++ [readFragment layout cfg read seqIn st evt evts]
        evCounter := st.evCounter + 1 }) := by
  simp only [getNextDTCFragment, h, Receiver.writeRaw]
  split <;> rfl

end read

end ArtdaqMu2e
