import ArtdaqMu2e.Data.RawFile
import ArtdaqMu2e.Generators.CRVReceiver
import ArtdaqMu2e.Generators.Mu2eEventReceiver
import ArtdaqMu2e.Generators.SubEventBatching
import ArtdaqMu2e.Lib.Files

/-!
# The raw output files

With `raw_output_enable` a receiver writes the events it reads to a file, which is opened at the start of a run and
closed at its end.

The state of a receiver holds one stream for all of that, with the raw buffers that were given to the DTC library. Here
the stream is on files, to which the library writes: a `RawGenerator` is any of the receivers, as far as it matters for
the raw output, and after any runs each file holds what was read in its own runs (`files_runs`). What the receiver's
stream got is all of that, run after run (`written_runs`).
-/

namespace ArtdaqMu2e

open Memory Runs

/-! ### Receivers with raw output -/

/-- A receiver as far as the raw output goes: the commands, the raw buffers of the events that a call reads, and the
stream that they are given to. -/
structure RawGenerator (σ κ : Type*) where
  start : σ → σ
  getNext : σ → κ → σ
  stop : σ → σ
  eventsRead : σ → κ → List (List Byte)
  rawOutput : Bool
  rawOutputFile : String
  stream : σ → OutputStream (List Byte)
  stream_start : ∀ st, stream (start st) = if rawOutput then (stream st).openAppend else stream st
  stream_getNext : ∀ st call, stream (getNext st call) =
    if rawOutput then (eventsRead st call).foldl (fun out evt => out.write [evt]) (stream st) else stream st
  stream_stop : ∀ st, stream (stop st) = (stream st).close

/-- What is done to a receiver: it is started at a time, it is called, it is stopped. -/
inductive RawOp (κ : Type*) where
  | start (time : ℕ)
  | getNext (call : κ)
  | stop

/-- One run: the time of the start, and the calls. -/
structure RawRun (κ : Type*) where
  time : ℕ
  calls : List κ

def RawRun.ops {κ : Type*} (r : RawRun κ) : List (RawOp κ) := .start r.time :: (r.calls.map .getNext ++ [.stop])

/-- A receiver whose raw output goes to files. -/
structure Recording (σ : Type*) where
  generator : σ
  output : FileStream String Byte

namespace RawGenerator

variable {σ κ ε : Type*} {w : ℕ} {header : HeaderLayout w} (G : RawGenerator σ κ) (L : EventLibrary ε header)

def step (m : Recording σ) : RawOp κ → Recording σ
  | .start time =>
    ⟨G.start m.generator,
      if G.rawOutput then m.output.openAppend (rawFileName G.rawOutputFile time) else m.output⟩
  | .getNext call =>
    ⟨G.getNext m.generator call,
      if G.rawOutput then
        (G.eventsRead m.generator call).foldl (fun out evt => out.write (L.rawBytes evt)) m.output
      else m.output⟩
  | .stop => ⟨G.stop m.generator, m.output.close⟩

/-- What the calls read, one raw buffer after the other. -/
def read : σ → List κ → List (List Byte)
  | _, [] => []
  | st, call :: calls => G.eventsRead st call ++ read (G.getNext st call) calls

def afterRun (st : σ) (r : RawRun κ) : σ := G.stop (run G.getNext (G.start st) r.calls)

/-- The file of each run, with what is read in it. -/
def sessions : σ → List (RawRun κ) → List (String × List (List Byte))
  | _, [] => []
  | st, r :: rs =>
    (rawFileName G.rawOutputFile r.time, G.read (G.start st) r.calls) :: sessions (G.afterRun st r) rs

/-- A session, with what the library writes in it. -/
def written (x : String × List (List Byte)) : String × List (List Byte) := (x.1, x.2.map L.rawBytes)

theorem run_getNext (hraw : G.rawOutput = true) (m : Recording σ) (calls : List κ) :
    run (G.step L) m (calls.map .getNext) =
      ⟨run G.getNext m.generator calls,
        ((G.read m.generator calls).map L.rawBytes).foldl FileStream.write m.output⟩ := by
  induction calls generalizing m with
  | nil => rfl
  | cons call calls ih =>
    have hcall : G.step L m (.getNext call) = ⟨G.getNext m.generator call,
        ((G.eventsRead m.generator call).map L.rawBytes).foldl FileStream.write m.output⟩ := by
      rw [step, if_pos hraw, List.foldl_map]
    rw [List.map_cons, run_cons, ih, hcall, run_cons, read, List.map_append, List.foldl_append]

theorem run_ops (hraw : G.rawOutput = true) (m : Recording σ) (r : RawRun κ) :
    run (G.step L) m r.ops = ⟨G.afterRun m.generator r,
      m.output.session (rawFileName G.rawOutputFile r.time,
        (G.read (G.start m.generator) r.calls).map L.rawBytes)⟩ := by
  rw [RawRun.ops, run_cons, run_append, run_getNext G L hraw, step, if_pos hraw]
  rfl

theorem run_runs (hraw : G.rawOutput = true) (m : Recording σ) (rs : List (RawRun κ)) :
    run (G.step L) m (rs.flatMap RawRun.ops) =
      ⟨rs.foldl G.afterRun m.generator,
        ((G.sessions m.generator rs).map (written L)).foldl FileStream.session m.output⟩ := by
  induction rs generalizing m with
  | nil => rfl
  | cons r rs ih =>
    rw [List.flatMap_cons, run_append, run_ops G L hraw, ih]
    rfl

theorem files_runs (hraw : G.rawOutput = true) {m : Recording σ} (hclosed : m.output.target = none)
    (rs : List (RawRun κ)) (name : String) :
    (run (G.step L) m (rs.flatMap RawRun.ops)).output.files name =
      m.output.files name ++ FileStream.writtenTo name ((G.sessions m.generator rs).map (written L)) := by
  rw [run_runs G L hraw]
  exact (FileStream.files_sessions hclosed _).2 name

theorem names_sessions (st : σ) (rs : List (RawRun κ)) :
    (G.sessions st rs).map (·.1) = (rs.map (·.time)).map (rawFileName G.rawOutputFile) := by
  induction rs generalizing st with
  | nil => rfl
  | cons r rs ih => rw [sessions, List.map_cons, List.map_cons, List.map_cons, ih]

theorem sessions_append (st : σ) (rs rs' : List (RawRun κ)) :
    G.sessions st (rs ++ rs') = G.sessions st rs ++ G.sessions (rs.foldl G.afterRun st) rs' := by
  induction rs generalizing st with
  | nil => rfl
  | cons r rs ih => rw [List.cons_append, sessions, sessions, ih, List.foldl_cons, List.cons_append]

/-- With `.bin` in the name and runs that start at different times, the file of a run gets what was read in this run,
and nothing in any other. -/
theorem file_of_run (hraw : G.rawOutput = true) (hbin : find ".bin".toList G.rawOutputFile.toList ≠ none)
    {m : Recording σ} (hclosed : m.output.target = none) {before after : List (RawRun κ)} {r : RawRun κ}
    (htimes : ((before ++ r :: after).map (·.time)).Nodup) :
    (run (G.step L) m ((before ++ r :: after).flatMap RawRun.ops)).output.files (rawFileName G.rawOutputFile r.time) =
      m.output.files (rawFileName G.rawOutputFile r.time) ++
        ((G.read (G.start (before.foldl G.afterRun m.generator)) r.calls).map L.rawBytes).flatten := by
  have hnames : (((G.sessions m.generator (before ++ r :: after)).map (written L)).map (·.1)).Nodup := by
    rw [List.map_map]
    show ((G.sessions m.generator (before ++ r :: after)).map (·.1)).Nodup
    rw [names_sessions]
    exact htimes.map fun _ _ h => rawFileName_injective hbin h
  have hmem : written L (rawFileName G.rawOutputFile r.time,
      G.read (G.start (before.foldl G.afterRun m.generator)) r.calls) ∈
      (G.sessions m.generator (before ++ r :: after)).map (written L) := by
    rw [sessions_append]
    exact List.mem_map_of_mem (List.mem_append_right _ List.mem_cons_self)
  have hwritten := FileStream.writtenTo_of_nodup hnames hmem
  rw [files_runs G L hraw hclosed]
  exact congrArg _ hwritten

/-! ### The receiver's own stream -/

theorem stream_run_getNext (hraw : G.rawOutput = true) {st : σ} {bufs : List (List Byte)}
    (hopen : G.stream st = .opened bufs) (calls : List κ) :
    G.stream (run G.getNext st calls) = .opened (bufs ++ G.read st calls) := by
  induction calls generalizing st bufs with
  | nil => rw [read, List.append_nil]; exact hopen
  | cons call calls ih =>
    have hcall : G.stream (G.getNext st call) = .opened (bufs ++ G.eventsRead st call) := by
      rw [G.stream_getNext, if_pos hraw, hopen, ← List.foldl_map (f := fun evt => [evt]) (g := OutputStream.write),
        OutputStream.foldl_write_opened]
      congr 2
      exact List.flatMap_singleton' _
    rw [run_cons, ih hcall, read, List.append_assoc]

/-- The stream of the receiver gets what is written to the files, run after run. -/
theorem written_runs (hraw : G.rawOutput = true) {st : σ} (hclosed : (G.stream st).isOpen = false)
    (rs : List (RawRun κ)) :
    (G.stream (rs.foldl G.afterRun st)).written =
      (G.stream st).written ++ (G.sessions st rs).flatMap (·.2) := by
  induction rs generalizing st with
  | nil => exact (List.append_nil _).symm
  | cons r rs ih =>
    have hstart : G.stream (G.start st) = .opened (G.stream st).written := by
      rw [G.stream_start, if_pos hraw, OutputStream.openAppend_of_closed hclosed]
    have hrun : G.stream (G.afterRun st r) =
        OutputStream.close (.opened ((G.stream st).written ++ G.read (G.start st) r.calls)) := by
      rw [afterRun, G.stream_stop, stream_run_getNext G hraw hstart]
    have hafter : (G.stream (G.afterRun st r)).isOpen = false := by
      rw [hrun]
      rfl
    rw [List.foldl_cons, ih hafter, hrun, sessions, List.flatMap_cons, ← List.append_assoc]
    rfl

end RawGenerator

/-! ### The event receivers -/

theorem rawOutputStream_start (cfg : ReceiverConfig) (st : Receiver) :
    (st.startCmd cfg).rawOutputStream =
      if cfg.rawOutput then st.rawOutputStream.openAppend else st.rawOutputStream := by
  unfold Receiver.startCmd Receiver.start
  split <;> rfl

theorem rawOutputStream_getNextDTCFragment (layout : FragmentLayout) (cfg : ReceiverConfig) (read : Read DtcEvent)
    (tsIn seqIn : ℕ) (st : Receiver) :
    (getNextDTCFragment layout cfg read tsIn seqIn st).2.rawOutputStream =
      if cfg.rawOutput then
        (read.delivered.map (·.rawBuffer)).foldl (fun out evt => out.write [evt]) st.rawOutputStream
      else st.rawOutputStream := by
  cases hread : read.delivered with
  | nil =>
    rw [getNextDTCFragment_of_nil hread]
    exact (ite_self _).symm
  | cons evt evts =>
    rw [getNextDTCFragment_of_cons hread, List.foldl_map]
    show (st.writeRaw cfg (evt :: evts)).rawOutputStream = _
    unfold Receiver.writeRaw
    split <;> rfl

namespace Mu2eEventReceiver

/-- The raw output of the event receiver. -/
def rawGenerator (layout : FragmentLayout) (cfg : ReceiverConfig) (rawOutputFile : String) :
    RawGenerator Receiver ReceiverCall where
  start := Receiver.startCmd cfg
  getNext := step layout cfg
  stop := Receiver.stop
  eventsRead _ call := (delivered call).map (·.rawBuffer)
  rawOutput := cfg.rawOutput
  rawOutputFile := rawOutputFile
  stream := Receiver.rawOutputStream
  stream_start := rawOutputStream_start cfg
  stream_getNext st call := by
    have hrequest : (sendRequest cfg st).rawOutputStream = st.rawOutputStream := by
      unfold sendRequest
      split <;> rfl
    unfold step getNext delivered
    split
    · exact (ite_self _).symm
    · rw [rawOutputStream_getNextDTCFragment, hrequest]
  stream_stop _ := rfl

end Mu2eEventReceiver

namespace CRVReceiver

variable (layout : FragmentLayout) (cfg : CRVConfig)

theorem rawOutputStream_run_readRequest (reads : ℕ → Read DtcEvent) (st : CRVReceiver) (reqs : List (ℕ × ℕ)) :
    (run (readRequest layout cfg reads) st reqs).rawOutputStream =
      if cfg.rawOutput then
        (reqs.flatMap fun req => (reads req.1).delivered.map (·.rawBuffer)).foldl (fun out evt => out.write [evt])
          st.rawOutputStream
      else st.rawOutputStream := by
  induction reqs generalizing st with
  | nil => exact (ite_self _).symm
  | cons req reqs ih =>
    have hread : (readRequest layout cfg reads st req).rawOutputStream = _ :=
      rawOutputStream_getNextDTCFragment layout cfg.toReceiverConfig (reads req.1) req.2 req.1 st.toReceiver
    rw [run_cons, ih, hread, List.flatMap_cons, List.foldl_append]
    split <;> rfl

/-- The raw output of the receiver for requests. -/
def rawGenerator (rawOutputFile : String) : RawGenerator CRVReceiver CRVCall where
  start := startCmd cfg
  getNext := step layout cfg
  stop := stop
  eventsRead st call := (toRead cfg call st).flatMap fun req => (call.reads req.1).delivered.map (·.rawBuffer)
  rawOutput := cfg.rawOutput
  rawOutputFile := rawOutputFile
  stream st := st.rawOutputStream
  stream_start st := rawOutputStream_start cfg.toReceiverConfig st.toReceiver
  stream_getNext st call := by
    rw [step, (getNext_eq_run layout cfg st call).1, rawOutputStream_run_readRequest]
  stream_stop _ := rfl

end CRVReceiver

/-! ### The sub-event receiver -/

namespace Mu2eSubEventReceiver

variable {w : ℕ} (header : HeaderLayout w) (cfg : SubEventConfig)

/-- The raw buffers of the events around the sub-events of a read. -/
def builtEvents (fresh : ℕ → (n : ℕ) → Area Byte n) (tsOut : ℕ) : ℕ → List DtcSubEvent → List (List Byte)
  | _, [] => []
  | i, subevt :: subevts => buildEvent header fresh tsOut i subevt :: builtEvents fresh tsOut (i + 1) subevts

theorem rawOutputStream_addSubEvents (fresh : ℕ → (n : ℕ) → Area Byte n) (tsOut i : ℕ) (subevts : List DtcSubEvent)
    (st : Receiver) :
    (addSubEvents header cfg fresh tsOut i subevts st).rawOutputStream =
      if cfg.rawOutput then
        (builtEvents header fresh tsOut i subevts).foldl (fun out evt => out.write [evt]) st.rawOutputStream
      else st.rawOutputStream := by
  induction subevts generalizing i st with
  | nil => exact (ite_self _).symm
  | cons subevt subevts ih =>
    rw [addSubEvents, ih, builtEvents, List.foldl_cons, addSubEvent]
    split <;> rfl

/-- The raw output of the sub-event receiver. -/
def rawGenerator (rawOutputFile : String) : RawGenerator Receiver SubEventCall where
  start := Receiver.startCmd cfg.toReceiverConfig
  getNext := step header cfg
  stop := Receiver.stop
  eventsRead _ call := builtEvents header call.read.fresh (headTag call) 0 (delivered call)
  rawOutput := cfg.rawOutput
  rawOutputFile := rawOutputFile
  stream := Receiver.rawOutputStream
  stream_start := rawOutputStream_start cfg.toReceiverConfig
  stream_getNext st call := by
    have hsame : (rollover cfg (sendRequest cfg st)).rawOutputStream = st.rawOutputStream := by
      unfold rollover sendRequest
      split <;> split <;> rfl
    by_cases hstop : call.shouldStop = true
    · rw [step_of_stop header cfg hstop, delivered_of_stop hstop]
      exact (ite_self _).symm
    · rw [step_of_not_stop header cfg hstop, rawOutputStream_addSubEvents, hsame]
  stream_stop _ := rfl

end Mu2eSubEventReceiver

end ArtdaqMu2e
