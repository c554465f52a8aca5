import ArtdaqMu2e.Generators.STMReadOut

/-!
# The two sinks of the STM receiver

A packet that was read goes into a fragment and, if there is one, into the output file, and is counted. What agrees
then (`SinksAgree`) stays so for any content of the input file, also where it ends within a packet: both sinks get the
same bytes of the locals (`sinksAgree_step`).

Without an input file there is no packet. The call makes no fragment, but it writes two headers that were never set to
the output file, and counts one more event (`run_of_no_input`). So the sinks agree exactly if there is an input file
or every call is stopped.
-/

namespace ArtdaqMu2e

open Runs

namespace STMReceiver

variable (layout : StmLayout) (cfg : StmConfig)

/-- The bytes that were copied into a fragment, whose slice header says how many they are. -/
def copiedBytes (frag : Fragment) : List Byte :=
  let sHdr := (frag.dataArea.drop layout.tHdrSizeBytes).take layout.sHdrSizeBytes
  frag.dataArea.take (layout.tHdrSizeBytes + layout.sHdrSizeBytes + (layout.sliceSize sHdr).toNat)

/-- The output file holds what is in the fragments, and they are the events that were counted. -/
structure SinksAgree (st : STMReceiver) : Prop where
  written : cfg.toOutputFile = true → st.outputFileStream.written = st.frags.flatMap (copiedBytes layout)
  counted : st.evCounter = 1 + st.frags.length

theorem copiedBytes_of_prefix {locals : StmLocals} (h : HoldsPacket layout locals)
    (hsize : locals.dataSize = (layout.sliceSize (locals.sHdr.take layout.sHdrSizeBytes)).toNat) {frag : Fragment}
    (hstart : packetBytes layout locals <+: frag.dataArea) : copiedBytes layout frag = packetBytes layout locals := by
  obtain ⟨rest, hrest⟩ := hstart
  have htHdr : (locals.tHdr.take layout.tHdrSizeBytes).length = layout.tHdrSizeBytes := List.length_take_of_le h.tHdr
  have hsHdr : (locals.sHdr.take layout.sHdrSizeBytes).length = layout.sHdrSizeBytes := List.length_take_of_le h.sHdr
  have hslice : ((packetBytes layout locals ++ rest).drop layout.tHdrSizeBytes).take layout.sHdrSizeBytes =
      locals.sHdr.take layout.sHdrSizeBytes := by
    rw [packetBytes, List.append_assoc, List.drop_left' htHdr, List.append_assoc, List.take_left' hsHdr]
  rw [copiedBytes, ← hrest, hslice, ← hsize, List.take_left' (length_packetBytes layout h)]

theorem copiedBytes_packetFragment (call : StmCall layout) (evCounter : ℕ) (input : InputStream Byte) :
    copiedBytes layout (packetFragment layout cfg call evCounter (readPacket layout call input).2) =
      packetBytes layout (readPacket layout call input).2 := by
  have hholds := holdsPacket_readPacket layout call input
  exact copiedBytes_of_prefix layout hholds rfl (prefix_dataArea_packetFragment layout cfg call evCounter hholds)

/-! ### With an input file -/

/-- The invariant: the output file can be written to, and holds what is in the fragments. -/
structure InStep (st : STMReceiver) : Prop where
  output : cfg.toOutputFile = true → st.outputFileStream = .opened (st.frags.flatMap (copiedBytes layout))
  counted : st.evCounter = 1 + st.frags.length

variable {layout cfg}

theorem InStep.sinksAgree {st : STMReceiver} (h : InStep layout cfg st) : SinksAgree layout cfg st where
  written houtput := congrArg OutputStream.written (h.output houtput)
  counted := h.counted

variable (layout cfg)

theorem inStep_init (content : List Byte) : InStep layout cfg (init cfg content) :=
  ⟨fun houtput => if_pos houtput, rfl⟩

variable {layout cfg}

theorem inStep_step (hinput : cfg.fromInputFile = true) (st : STMReceiver) (call : StmCall layout)
    (h : InStep layout cfg st) : InStep layout cfg (step layout cfg st call) := by
  cases hstop : call.shouldStop with
  | true =>
    rw [step, getNext_of_stop layout cfg hstop]
    exact h
  | false =>
    cases heof : st.inputFileStream.eof with
    | true =>
      rw [step, getNext_of_eof layout cfg hinput heof]
      exact h
    | false =>
      rw [step, getNext_of_not_eof layout cfg hinput hstop heof]
      refine ⟨fun houtput => ?_, ?_⟩
      · dsimp only
        rw [h.output houtput, writePacket_opened layout cfg houtput, List.flatMap_append, List.flatMap_singleton,
          copiedBytes_packetFragment]
      · dsimp only
        rw [List.length_append, List.length_singleton, h.counted, Nat.add_assoc]

/-! ### Without an input file -/

theorem run_of_no_input (hinput : cfg.fromInputFile = false) (st : STMReceiver) (calls : List (StmCall layout)) :
    (run (step layout cfg) st calls).frags = st.frags ∧
      (run (step layout cfg) st calls).evCounter = st.evCounter + calls.countP (fun call => !call.shouldStop) := by
  induction calls generalizing st with
  | nil => exact ⟨rfl, rfl⟩
  | cons call calls ih =>
    obtain ⟨hfrags, hcounted⟩ := ih (step layout cfg st call)
    rw [run_cons, hfrags, hcounted, List.countP_cons, step]
    cases hstop : call.shouldStop with
    | true =>
      rw [getNext_of_stop layout cfg hstop]
      exact ⟨rfl, rfl⟩
    | false =>
      rw [getNext_of_no_input layout cfg hinput hstop]
      refine ⟨rfl, ?_⟩
      show st.evCounter + 1 + calls.countP (fun call => !call.shouldStop) =
        st.evCounter + (calls.countP (fun call => !call.shouldStop) + 1)
      omega

theorem run_of_stopped {calls : List (StmCall layout)} (hstop : ∀ call ∈ calls, call.shouldStop = true)
    (st : STMReceiver) : run (step layout cfg) st calls = st := by
  induction calls with
  | nil => rfl
  | cons call calls ih =>
    obtain ⟨hcall, hstop⟩ := List.forall_mem_cons.mp hstop
    have hstep : step layout cfg st call = st := by rw [step, getNext_of_stop layout cfg hcall]
    rw [run_cons, hstep, ih hstop]

variable (layout cfg)

/-- **The sinks agree** after any calls, whatever the input file holds, exactly if there is an input file or all the
calls were stopped. -/
theorem sinksAgree_iff (content : List Byte) (calls : List (StmCall layout)) :
    SinksAgree layout cfg (run (step layout cfg) (init cfg content) calls) ↔
      cfg.fromInputFile = true ∨ ∀ call ∈ calls, call.shouldStop = true := by
  cases hinput : cfg.fromInputFile with
  | true =>
    refine iff_of_true ?_ (Or.inl rfl)
    exact (run_invariant (inStep_step hinput) (inStep_init layout cfg content) calls).sinksAgree
  | false =>
    rw [or_iff_right (by decide)]
    constructor
    · intro h
      obtain ⟨hfrags, hcounted⟩ := run_of_no_input hinput (init cfg content) calls
      have hnone : calls.countP (fun call => !call.shouldStop) = 0 := by
        have hagree := h.counted
        rw [hfrags, hcounted] at hagree
        exact Nat.add_left_cancel hagree
      intro call hcall
      simpa using List.countP_eq_zero.mp hnone call hcall
    · intro hstop
      rw [run_of_stopped hstop]
      exact (inStep_init layout cfg content).sinksAgree

/-- Only an output file. -/
def outputConfig : StmConfig := ⟨0, false, true⟩

/-- One call writes four bytes that nobody set, makes no fragment, and counts an event. -/
theorem sinks_differ_without_input :
    let st := run (step shortLayout outputConfig) (init outputConfig []) [zeroCall shortLayout]
    st.outputFileStream.written = [0, 0, 0, 0] ∧ st.frags.length = 0 ∧ st.evCounter = 2 ∧
      ¬ SinksAgree shortLayout outputConfig st := by
  refine ⟨rfl, rfl, rfl, fun h => ?_⟩
  have hcounted := h.counted
  revert hcounted
  decide

end STMReceiver

end ArtdaqMu2e
