import ArtdaqMu2e.Generators.STMReplay

/-!
# The STM receiver across runs

`start()` and `stop()` do nothing: both files stay open from one run to the next, and only the counter, which is
artdaq's, is reset. So it makes no difference to the packets where a run ends. However the calls are split into runs,
the runs put out, one after the other, what a single run puts out, and leave the same output file: no packet is lost at
a restart, and none comes twice. Only the sequence ids tell them apart, which every run counts from 1
(`runs_like_one`).

The simulation `Alike` goes along with both: the receiver that is restarted and the one that is not.
-/

namespace ArtdaqMu2e

open Runs

namespace STMReceiver

variable {layout : StmLayout} {cfg : StmConfig}

/-- `StartCmd` of artdaq, between two runs: the counter restarts, and the run has its own output. -/
def startCmd (st : STMReceiver) : STMReceiver := { st with evCounter := 1, frags := [] }

/-- One run after the other: what each of them puts out, and the receiver after the last one. -/
def runs (layout : StmLayout) (cfg : StmConfig) :
    STMReceiver → List (List (StmCall layout)) → List (List Fragment) × STMReceiver
  | st, [] => ([], st)
  | st, calls :: rest =>
    let after := run (step layout cfg) (startCmd st) calls
    (after.frags :: (runs layout cfg after rest).1, (runs layout cfg after rest).2)

/-- A fragment up to its sequence id. -/
def unnumbered (frag : Fragment) : Fragment := { frag with sequenceID := 0 }

/-- The receiver `st`, restarted after it put out `before`, against one that was not restarted. -/
structure Alike (before : List Fragment) (st whole : STMReceiver) : Prop where
  input : st.inputFileStream = whole.inputFileStream
  output : st.outputFileStream = whole.outputFileStream
  frags : (before ++ st.frags).map unnumbered = whole.frags.map unnumbered

theorem unnumbered_packetFragment (call : StmCall layout) (evCounter evCounter' : ℕ) (locals : StmLocals) :
    unnumbered (packetFragment layout cfg call evCounter locals) =
      unnumbered (packetFragment layout cfg call evCounter' locals) := rfl

theorem Alike.step {before : List Fragment} {st whole : STMReceiver} (h : Alike before st whole)
    (call : StmCall layout) :
    Alike before (STMReceiver.step layout cfg st call) (STMReceiver.step layout cfg whole call) := by
  cases hstop : call.shouldStop with
  | true =>
    rw [STMReceiver.step, STMReceiver.step, getNext_of_stop layout cfg hstop, getNext_of_stop layout cfg hstop]
    exact h
  | false =>
    cases hinput : cfg.fromInputFile with
    | false =>
      rw [STMReceiver.step, STMReceiver.step, getNext_of_no_input layout cfg hinput hstop,
        getNext_of_no_input layout cfg hinput hstop]
      refine ⟨h.input, ?_, h.frags⟩
      dsimp only
      rw [h.output]
    | true =>
      cases heof : whole.inputFileStream.eof with
      | true =>
        have heof' : st.inputFileStream.eof = true := h.input ▸ heof
        rw [STMReceiver.step, STMReceiver.step, getNext_of_eof layout cfg hinput heof,
          getNext_of_eof layout cfg hinput heof']
        exact h
      | false =>
        have heof' : st.inputFileStream.eof = false := h.input ▸ heof
        rw [STMReceiver.step, STMReceiver.step, getNext_of_not_eof layout cfg hinput hstop heof,
          getNext_of_not_eof layout cfg hinput hstop heof']
        refine ⟨?_, ?_, ?_⟩
        · dsimp only
          rw [h.input]
        · dsimp only
          rw [h.input, h.output]
        · dsimp only
          rw [← List.append_assoc, List.map_append, h.frags, List.map_append, h.input, List.map_singleton,
            List.map_singleton, unnumbered_packetFragment]

theorem Alike.run {before : List Fragment} {st whole : STMReceiver} (h : Alike before st whole)
    (calls : List (StmCall layout)) :
    Alike before (Runs.run (STMReceiver.step layout cfg) st calls)
      (Runs.run (STMReceiver.step layout cfg) whole calls) := by
  induction calls generalizing st whole with
  | nil => exact h
  | cons call calls ih => exact ih (h.step call)

theorem Alike.startCmd {before : List Fragment} {st whole : STMReceiver} (h : Alike before st whole) :
    Alike (before ++ st.frags) (startCmd st) whole where
  input := h.input
  output := h.output
  frags := by
    rw [STMReceiver.startCmd, List.append_nil]
    exact h.frags

theorem Alike.runs {before : List Fragment} {st whole : STMReceiver} (h : Alike before st whole)
    (calls : List (List (StmCall layout))) :
    let parts := STMReceiver.runs layout cfg st calls
    let whole' := Runs.run (STMReceiver.step layout cfg) whole calls.flatten
    parts.2.inputFileStream = whole'.inputFileStream ∧ parts.2.outputFileStream = whole'.outputFileStream ∧
      (before ++ st.frags ++ parts.1.flatten).map unnumbered = whole'.frags.map unnumbered := by
  induction calls generalizing before st whole with
  | nil =>
    refine ⟨h.input, h.output, ?_⟩
    rw [STMReceiver.runs, List.flatten_nil, List.append_nil]
    exact h.frags
  | cons calls rest ih =>
    obtain ⟨hinput, houtput, hfrags⟩ := ih (h.startCmd.run calls)
    rw [List.flatten_cons, run_append]
    refine ⟨hinput, houtput, ?_⟩
    rw [STMReceiver.runs, List.flatten_cons, ← List.append_assoc]
    exact hfrags

theorem sequenceIDs_of_run (layout : StmLayout) (cfg : StmConfig) (st : STMReceiver) (calls : List (StmCall layout)) :
    let frags := (run (step layout cfg) (startCmd st) calls).frags
    frags.map (·.sequenceID) = List.range' 1 frags.length := by
  cases hinput : cfg.fromInputFile with
  | true =>
    have hstart : Recorded layout (startCmd st) := ⟨rfl, [], rfl, rfl⟩
    obtain ⟨-, records, hcopies⟩ := run_invariant (recorded_step hinput) hstart calls
    exact hcopies.sequenceIDs
  | false =>
    have hnone : (run (step layout cfg) (startCmd st) calls).frags = [] := (run_of_no_input hinput _ calls).1
    dsimp only
    rw [hnone]
    rfl

theorem sequenceIDs_of_mem_runs {st : STMReceiver} {calls : List (List (StmCall layout))} {frags : List Fragment}
    (h : frags ∈ (runs layout cfg st calls).1) : frags.map (·.sequenceID) = List.range' 1 frags.length := by
  induction calls generalizing st with
  | nil => cases h
  | cons calls rest ih =>
    rcases List.mem_cons.mp h with rfl | hlater
    · exact sequenceIDs_of_run layout cfg st calls
    · exact ih hlater

/-- **Where a run ends makes no difference to the packets**: for any content of the input file and any calls, split
into runs in any way, the runs put out one after the other the fragments of a single run, up to the sequence ids, each
run under the ids from 1 on, and both files are left as by the single run. -/
theorem runs_like_one (layout : StmLayout) (cfg : StmConfig) (content : List Byte)
    (calls : List (List (StmCall layout))) :
    let parts := runs layout cfg (init cfg content) calls
    let whole := run (step layout cfg) (init cfg content) calls.flatten
    parts.1.flatten.map unnumbered = whole.frags.map unnumbered ∧
      (∀ frags ∈ parts.1, frags.map (·.sequenceID) = List.range' 1 frags.length) ∧
      parts.2.inputFileStream = whole.inputFileStream ∧ parts.2.outputFileStream = whole.outputFileStream := by
  intro parts whole
  have hstart : Alike [] (init cfg content) (init cfg content) := ⟨rfl, rfl, rfl⟩
  obtain ⟨hinput, houtput, hfrags⟩ := hstart.runs calls
  exact ⟨hfrags, fun frags hmem => sequenceIDs_of_mem_runs hmem, hinput, houtput⟩

end STMReceiver

end ArtdaqMu2e
