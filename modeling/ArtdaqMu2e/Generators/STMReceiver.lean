import ArtdaqMu2e.Data.Fragment
import ArtdaqMu2e.Lib.Runs
import ArtdaqMu2e.Lib.Stream

/-!
# The STM receiver

A call of `getNext_` reads one packet from the input file: a trigger header, a slice header, and the payload whose
length is in the slice header. The packet goes into a fragment, and into the output file if there is one. The
locals of the call are not initialised, so what they hold before is an input of the call, as is the memory of the
new fragment.

The headers come from artdaq-core: a layout gives their sizes and the slice size as a function of the slice header.
-/

namespace ArtdaqMu2e

open Memory

/-- `sw_tHdr_size_bytes`, `sw_sHdr_size_bytes`, and `STM_sHdr::sliceSize`. -/
structure StmLayout where
  tHdrSizeBytes : ℕ
  sHdrSizeBytes : ℕ
  sliceSize : List Byte → UInt16

structure StmConfig where
  fragmentId : ℕ
  fromInputFile : Bool
  toOutputFile : Bool

/-- One call of `getNext_`, with the memory of its locals and of the fragment. -/
structure StmCall (layout : StmLayout) where
  shouldStop : Bool
  tHdr : Area Byte layout.tHdrSizeBytes
  sHdr : Area Byte layout.sHdrSizeBytes
  data : Area Byte (2 * 0x50000)
  fresh : (n : ℕ) → Area Byte n

/-- The locals of `getNext_`. -/
structure StmLocals where
  tHdr : List Byte
  sHdr : List Byte
  data : List Byte
  dataSize : ℕ

structure STMReceiver where
  evCounter : ℕ
  inputFileStream : InputStream Byte
  outputFileStream : OutputStream Byte
  frags : List Fragment

namespace STMReceiver

variable (layout : StmLayout) (cfg : StmConfig)

/-- A receiver whose input file, if it has one, could be opened. -/
def init (content : List Byte) : STMReceiver where
  evCounter := 1
  inputFileStream := if cfg.fromInputFile then InputStream.ofContent content else ⟨[], false, false⟩
  outputFileStream := if cfg.toOutputFile then OutputStream.closed.openAppend else OutputStream.closed
  frags := []

/-- The three reads. -/
def readPacket (call : StmCall layout) (input : InputStream Byte) : InputStream Byte × StmLocals :=
  let tHdr := input.read layout.tHdrSizeBytes call.tHdr.cells
  let sHdr := tHdr.1.read layout.sHdrSizeBytes call.sHdr.cells
  let dataSize := (layout.sliceSize (sHdr.2.take layout.sHdrSizeBytes)).toNat
  let data := sHdr.1.read dataSize call.data.cells
  (data.1, ⟨tHdr.2, sHdr.2, data.2, dataSize⟩)

/-- The three copies into the new fragment. -/
def packetFragment (call : StmCall layout) (evCounter : ℕ) (locals : StmLocals) : Fragment :=
  let size := layout.tHdrSizeBytes + layout.sHdrSizeBytes + locals.dataSize
  let area := memcpy (call.fresh size).cells (locals.tHdr.take layout.tHdrSizeBytes)
  let area := memcpyAt layout.tHdrSizeBytes area (locals.sHdr.take layout.sHdrSizeBytes)
  let area := memcpyAt (layout.tHdrSizeBytes + layout.sHdrSizeBytes) area (locals.data.take locals.dataSize)
  ⟨⟨evCounter, cfg.fragmentId, .STM, 0⟩, .data area⟩

/-- The three writes to the output file. -/
def writePacket (locals : StmLocals) (output : OutputStream Byte) : OutputStream Byte :=
  if cfg.toOutputFile then
    ((output.write (locals.tHdr.take layout.tHdrSizeBytes)).write
      (locals.sHdr.take layout.sHdrSizeBytes)).write (locals.data.take locals.dataSize)
  else output

/-- Without an input file the locals stay as they are, and there is no fragment. -/
def getNext (call : StmCall layout) (st : STMReceiver) : Bool × STMReceiver :=
  if call.shouldStop then (false, st)
  else if cfg.fromInputFile && st.inputFileStream.eof then (false, st)
  else if cfg.fromInputFile then
    let packet := readPacket layout call st.inputFileStream
    (true,
      { evCounter := st.evCounter + 1
        inputFileStream := packet.1
        outputFileStream := writePacket layout cfg packet.2 st.outputFileStream
        frags := st.frags ++ [packetFragment layout cfg call st.evCounter packet.2] })
  else
    let locals : StmLocals := ⟨call.tHdr.cells, call.sHdr.cells, call.data.cells, 0⟩
    (true,
      { st with
        evCounter := st.evCounter + 1
        outputFileStream := writePacket layout cfg locals st.outputFileStream })

def step (st : STMReceiver) (call : StmCall layout) : STMReceiver := (getNext layout cfg call st).2

/-! ### Packets -/

/-- The bytes of a packet: two headers and the payload. -/
def packetBytes (locals : StmLocals) : List Byte :=
  locals.tHdr.take layout.tHdrSizeBytes ++
    (locals.sHdr.take layout.sHdrSizeBytes ++ locals.data.take locals.dataSize)

/-- The locals have room for a packet. -/
structure HoldsPacket (layout : StmLayout) (locals : StmLocals) : Prop where
  tHdr : layout.tHdrSizeBytes ≤ locals.tHdr.length
  sHdr : layout.sHdrSizeBytes ≤ locals.sHdr.length
  data : locals.dataSize ≤ locals.data.length

theorem length_packetBytes {locals : StmLocals} (h : HoldsPacket layout locals) :
    (packetBytes layout locals).length = layout.tHdrSizeBytes + layout.sHdrSizeBytes + locals.dataSize := by
  rw [packetBytes, List.length_append, List.length_append, List.length_take_of_le h.tHdr,
    List.length_take_of_le h.sHdr, List.length_take_of_le h.data, Nat.add_assoc]

/-- However much of it is read, and whatever the slice header says: a size of 16 bits fits into the buffer. -/
theorem holdsPacket_readPacket (call : StmCall layout) (input : InputStream Byte) :
    HoldsPacket layout (readPacket layout call input).2 := by
  have hroom := call.data.le_length
  refine ⟨?_, ?_, ?_⟩
  · simpa [readPacket] using call.tHdr.le_length
  · simpa [readPacket] using call.sHdr.le_length
  · have hsize : (readPacket layout call input).2.dataSize < 2 ^ 16 := UInt16.toNat_lt _
    have hlength : (readPacket layout call input).2.data.length = call.data.cells.length := by simp [readPacket]
    omega

theorem prefix_dataArea_packetFragment (call : StmCall layout) (evCounter : ℕ) {locals : StmLocals}
    (h : HoldsPacket layout locals) :
    packetBytes layout locals <+: (packetFragment layout cfg call evCounter locals).dataArea := by
  have hroom := (call.fresh (layout.tHdrSizeBytes + layout.sHdrSizeBytes + locals.dataSize)).le_length
  have htHdr : (locals.tHdr.take layout.tHdrSizeBytes).length = layout.tHdrSizeBytes := List.length_take_of_le h.tHdr
  have hsHdr : (locals.sHdr.take layout.sHdrSizeBytes).length = layout.sHdrSizeBytes := List.length_take_of_le h.sHdr
  have hdata : (locals.data.take locals.dataSize).length = locals.dataSize := List.length_take_of_le h.data
  simp only [packetFragment, Fragment.dataArea]
  rw [memcpyAt_memcpy htHdr (by omega), ← List.append_assoc,
    memcpyAt_append (by rw [List.length_append]; omega) (by rw [List.length_drop]; omega), packetBytes,
    ← List.append_assoc]
  exact (List.prefix_append_right_inj _).mpr (List.prefix_append _ _)

theorem writePacket_opened (houtput : cfg.toOutputFile = true) (locals : StmLocals) (written : List Byte) :
    writePacket layout cfg locals (.opened written) = .opened (written ++ packetBytes layout locals) := by
  simp [writePacket, houtput, packetBytes]

section read
variable {call : StmCall layout} {st : STMReceiver}

theorem getNext_of_stop (hstop : call.shouldStop = true) : getNext layout cfg call st = (false, st) := by
  rw [getNext, if_pos hstop]

theorem getNext_of_eof (hinput : cfg.fromInputFile = true) (heof : st.inputFileStream.eof = true) :
    getNext layout cfg call st = (false, st) := by
  unfold getNext
  split_ifs with hstop hend
  · rfl
  · rfl
  · exact absurd (by rw [hinput, heof]; rfl) hend

theorem getNext_of_not_eof (hinput : cfg.fromInputFile = true) (hstop : call.shouldStop = false)
    (heof : st.inputFileStream.eof = false) :
    getNext layout cfg call st =
      (true,
        { evCounter := st.evCounter + 1
          inputFileStream := (readPacket layout call st.inputFileStream).1
          outputFileStream := writePacket layout cfg (readPacket layout call st.inputFileStream).2
            st.outputFileStream
          frags := st.frags ++
            [packetFragment layout cfg call st.evCounter (readPacket layout call st.inputFileStream).2] }) := by
  simp [getNext, hinput, hstop, heof]

theorem getNext_of_no_input (hinput : cfg.fromInputFile = false) (hstop : call.shouldStop = false) :
    getNext layout cfg call st =
      (true,
        { st with
          evCounter := st.evCounter + 1
          outputFileStream := writePacket layout cfg ⟨call.tHdr.cells, call.sHdr.cells, call.data.cells, 0⟩
            st.outputFileStream }) := by
  simp [getNext, hinput, hstop]

end read

end STMReceiver

end ArtdaqMu2e
