import ArtdaqMu2e.ArtModules.ContainerRoundTrip
import ArtdaqMu2e.ArtModules.DTCEventDump
import ArtdaqMu2e.Generators.CRVDelivery
import ArtdaqMu2e.Generators.RawOutput

/-!
# Raw files and dumped files

An event leaves a receiver twice: it is written to the raw output file of the run, and it goes into a fragment, out of
which `DTCEventDump` writes it to a file of its own when the fragments have come through the event builder. The two
files get the same bytes, as long as each event has a fragment of its own: always for the sub-event receiver
(`Mu2eSubEventReceiver.dump_eq_rawFile`), and with reads of one event for the receiver for requests
(`CRVReceiver.dump_eq_rawFile_of_requests`). And the bytes say what was read (`rawFile_eq_iff`).

What a dump writes of a list of fragments is `dumped`, so that is what each call is followed through.
-/

namespace ArtdaqMu2e

open Memory Runs

section dumped
variable {ε : Type*} {w : ℕ} {header : HeaderLayout w} (layout : FragmentLayout) (L : EventLibrary ε header)

/-- What is written of the events that the modules find in the fragments, one after the other. -/
def dumped (frags : List Fragment) : List Byte :=
  (frags.flatMap (wanted layout)).flatMap fun frag => L.writeEvent false (L.getData frag)

@[simp] theorem dumped_nil : dumped layout L [] = [] := rfl

@[simp] theorem dumped_append (frags frags' : List Fragment) :
    dumped layout L (frags ++ frags') = dumped layout L frags ++ dumped layout L frags' := by
  rw [dumped, List.flatMap_append, List.flatMap_append, dumped, dumped]

theorem prefix_memcpy {bytes : List Byte} {n : ℕ} (hn : bytes.length = n) (area : Area Byte n) :
    bytes <+: memcpy area.cells bytes := by
  rw [memcpy_of_length_le (hn.trans_le area.le_length)]
  exact List.prefix_append _ _

theorem dumped_singleton {frag : Fragment} {bytes : List Byte} (hnone : frag.asContainer = none)
    (htype : frag.type = .DTCEVT) (hwhole : L.Whole bytes) (hstart : bytes <+: frag.dataArea) :
    dumped layout L [frag] = bytes := by
  rw [dumped, List.flatMap_singleton, wanted_of_asContainer_none hnone, if_pos htype, List.flatMap_singleton,
    L.writeEvent_getData hwhole hstart]

section oneKind
variable (cfg : ReceiverConfig)

theorem fragmentType_packFragment (fresh : ℕ → (n : ℕ) → Area Byte n) (hdr : FragmentHeader)
    (htype : hdr.type = .DTCEVT) (evt : DtcEvent) (evts : List DtcEvent) :
    (fillContainer layout fresh hdr 0 (evt :: evts) (Container.new.setMissingData false)).fragmentType = .DTCEVT := by
  rw [fillContainer, ← htype]
  refine fragmentType_fillContainer layout fresh hdr 1 evts ?_ rfl
  rw [htype]
  exact FragmentType.noConfusion

theorem oneKind_packFragment (fresh : ℕ → (n : ℕ) → Area Byte n) (seqOut timestamp : ℕ) (evt : DtcEvent)
    (evts : List DtcEvent) :
    OneKind layout (some [packFragment layout cfg fresh seqOut timestamp (evt :: evts)]) := by
  cases evts with
  | nil => exact DTCEventDump.oneKind_singleton rfl FragmentType.noConfusion
  | cons evt' evts =>
    have htype : (packFragment layout cfg fresh seqOut timestamp (evt :: evt' :: evts)).type = .container := rfl
    rw [OneKind, if_pos htype]
    simp only [ContainersFirst, packFragment, Fragment.asContainer]
    rw [fragmentType_packFragment layout fresh _ rfl, if_pos rfl]
    trivial

/-- Each fragment is of one kind with itself. -/
def EachOneKind (frags : List Fragment) : Prop := ∀ frag ∈ frags, OneKind layout (some [frag])

theorem eachOneKind_getNextDTCFragment (read : Read DtcEvent) (tsIn seqIn : ℕ) {st : Receiver}
    (h : EachOneKind layout st.frags) :
    EachOneKind layout (getNextDTCFragment layout cfg read tsIn seqIn st).2.frags := by
  cases hread : read.delivered with
  | nil =>
    rw [getNextDTCFragment_of_nil hread]
    exact h
  | cons evt evts =>
    rw [getNextDTCFragment_of_cons hread]
    exact List.forall_mem_append.mpr ⟨h, List.forall_mem_singleton.mpr
      (oneKind_packFragment layout cfg read.fresh _ _ evt evts)⟩

end oneKind

theorem frags_startCmd (cfg : ReceiverConfig) (st : Receiver) : (st.startCmd cfg).frags = [] := by
  unfold Receiver.startCmd Receiver.start
  split <;> rfl

end dumped

/-! ### From a run to its dump -/

namespace RawGenerator

variable {σ κ ε : Type*} {G : RawGenerator σ κ} {w : ℕ} {header : HeaderLayout w} {layout : FragmentLayout}
  {L : EventLibrary ε header}

/-- In a list of runs, the run `r` appends the events to its raw output file, and a job appends them to its own file. -/
structure FilesGet (G : RawGenerator σ κ) (layout : FragmentLayout) (L : EventLibrary ε header) (m : Recording σ)
    (runs : List (RawRun κ)) (r : RawRun κ) (binaryFileName : String) (s : FileStream String Byte) (job : DumpJob)
    (events : List (List Byte)) : Prop where
  rawFile : (run (G.step L) m (runs.flatMap RawRun.ops)).output.files (rawFileName G.rawOutputFile r.time) =
    m.output.files (rawFileName G.rawOutputFile r.time) ++ events.flatten
  dumpFile : ∃ s', DTCEventDump.runJob layout L ⟨binaryFileName, false⟩ job s = some s' ∧
    s'.files (rawFileName binaryFileName job.time) =
      s.files (rawFileName binaryFileName job.time) ++ events.flatten

/-- If a dump of the fragments of a run writes what was read in it, a job that gets them appends to its file what the
run appended to the raw output file. -/
theorem filesGet_of_dumped (hraw : G.rawOutput = true) (hbin : find ".bin".toList G.rawOutputFile.toList ≠ none)
    {m : Recording σ} (hclosed : m.output.target = none) {before after : List (RawRun κ)} {r : RawRun κ}
    (htimes : ((before ++ r :: after).map (·.time)).Nodup) {frags : List Fragment} {events : List (List Byte)}
    (hread : (G.read (G.start (before.foldl G.afterRun m.generator)) r.calls).map L.rawBytes = events)
    (hfrags : dumped layout L frags = events.flatten) {job : DumpJob} (hgets : DTCEventDump.Gets layout job frags)
    (binaryFileName : String) {s : FileStream String Byte} (hs : s.target = none) :
    FilesGet G layout L m (before ++ r :: after) r binaryFileName s job events := by
  rw [← hread]
  refine ⟨file_of_run G L hraw hbin hclosed htimes, ?_⟩
  obtain ⟨s', hjob, -, hfiles⟩ := DTCEventDump.files_runJob L ⟨binaryFileName, false⟩ hs hgets
  refine ⟨s', hjob, ?_⟩
  rw [hfiles, Function.update_self, hread, ← hfrags]
  rfl

end RawGenerator

/-! ### The receiver for requests -/

theorem dumped_getNextDTCFragment {ε : Type*} {w : ℕ} {header : HeaderLayout w} (layout : FragmentLayout)
    (L : EventLibrary ε header) (cfg : ReceiverConfig) {read : Read DtcEvent} (hone : read.delivered.length ≤ 1)
    (hwhole : ∀ evt ∈ read.delivered, L.Whole evt.rawBuffer) (tsIn seqIn : ℕ) (st : Receiver) :
    dumped layout L (getNextDTCFragment layout cfg read tsIn seqIn st).2.frags =
      dumped layout L st.frags ++ (read.delivered.map (·.rawBuffer)).flatten := by
  cases hread : read.delivered with
  | nil =>
    rw [getNextDTCFragment_of_nil hread]
    exact (List.append_nil _).symm
  | cons evt evts =>
    rw [hread] at hone hwhole
    obtain rfl : evts = [] := List.length_eq_zero_iff.mp (Nat.le_zero.mp (Nat.le_of_succ_le_succ hone))
    have hfrag : dumped layout L [readFragment layout cfg read seqIn st evt []] = evt.rawBuffer :=
      dumped_singleton layout L rfl rfl (hwhole evt List.mem_cons_self)
        (prefix_memcpy rfl (read.fresh 0 evt.rawBuffer.length))
    rw [getNextDTCFragment_of_cons hread, dumped_append, hfrag, List.map_singleton, List.flatten_singleton]

/-- A header of the packed layout, and a body. -/
def wholeEvent (tag : ℕ) (body : List Byte) : DtcEvent :=
  ⟨tag, HeaderLayout.packed.encode ⟨BitVec.ofNat 24 (10 + body.length), 1, 0, 0⟩ ++ body⟩

theorem isEvent_wholeEvent (tag : ℕ) {body : List Byte} (h : 10 + body.length < 2 ^ 24) :
    IsEvent .packed (wholeEvent tag body).rawBuffer := by
  refine ⟨_, body, rfl, ?_⟩
  rw [wholeEvent, List.length_append, HeaderLayout.packed.length_encode]
  exact Nat.mod_eq_of_lt h

namespace CRVReceiver

variable {ε : Type*} {w : ℕ} {header : HeaderLayout w} (layout : FragmentLayout) (L : EventLibrary ε header)
  (cfg : CRVConfig)

/-- The reads deliver whole events, and not several at once. -/
structure SingleEvents (L : EventLibrary ε header) (call : CRVCall) : Prop where
  atMostOne : ∀ id, (call.reads id).delivered.length ≤ 1
  whole : ∀ id, ∀ evt ∈ (call.reads id).delivered, L.Whole evt.rawBuffer

theorem dumped_run_readRequest {call : CRVCall} (h : SingleEvents L call) (st : CRVReceiver) (reqs : List (ℕ × ℕ)) :
    dumped layout L (run (readRequest layout cfg call.reads) st reqs).frags = dumped layout L st.frags ++
      (reqs.flatMap fun req => (call.reads req.1).delivered.map (·.rawBuffer)).flatten := by
  induction reqs generalizing st with
  | nil => exact (List.append_nil _).symm
  | cons req reqs ih =>
    have hread : dumped layout L (readRequest layout cfg call.reads st req).frags = _ :=
      dumped_getNextDTCFragment layout L cfg.toReceiverConfig (h.atMostOne req.1) (h.whole req.1) req.2 req.1
        st.toReceiver
    rw [run_cons, ih, hread, List.flatMap_cons, List.flatten_append, List.append_assoc]

theorem dumped_run {calls : List CRVCall} (h : ∀ call ∈ calls, SingleEvents L call) (rawOutputFile : String)
    (st : CRVReceiver) :
    dumped layout L (run (step layout cfg) st calls).frags = dumped layout L st.frags ++
      ((rawGenerator layout cfg rawOutputFile).read st calls).flatten := by
  induction calls generalizing st with
  | nil => exact (List.append_nil _).symm
  | cons call calls ih =>
    obtain ⟨hcall, hcalls⟩ := List.forall_mem_cons.mp h
    have hstep : dumped layout L (step layout cfg st call).frags = dumped layout L st.frags ++
        ((rawGenerator layout cfg rawOutputFile).eventsRead st call).flatten := by
      rw [step, (getNext_eq_run layout cfg st call).1]
      exact dumped_run_readRequest layout L cfg hcall st _
    rw [run_cons, ih hcalls, hstep, RawGenerator.read, List.flatten_append, List.append_assoc]
    rfl

theorem gets_afterRun (rawOutputFile : String) (st : CRVReceiver) (r : RawRun CRVCall) (time : ℕ) :
    let frags := ((rawGenerator layout cfg rawOutputFile).afterRun st r).frags
    DTCEventDump.Gets layout ⟨time, frags.map fun frag => [some [frag]]⟩ frags := by
  intro frags
  refine DTCEventDump.gets_singletons time ?_
  refine run_invariant (P := fun st : CRVReceiver => EachOneKind layout st.frags) (fun st call h => ?_) ?_ r.calls
  · exact step_invariant layout cfg (P := fun st => EachOneKind layout st.frags) st
      (fun reads st req h _ => eachOneKind_getNextDTCFragment layout cfg.toReceiverConfig (reads req.1) req.2 req.1 h)
      call h
  · show EachOneKind layout (st.startCmd cfg).frags
    have hnone : (st.startCmd cfg).frags = [] := frags_startCmd _ _
    rw [hnone]
    exact List.forall_mem_nil _

def rawConfig : CRVConfig := ⟨⟨0, .disabled, true, 0, 0, 1⟩, false, 0⟩

/-- A request for each id, and one whole event for each request. -/
def rawCalls (ids : List ℕ) : List CRVCall :=
  ids.map fun id => callFor id (Read.ofEvents [wholeEvent id [7]])

end CRVReceiver

/-! ### The sub-event receiver -/

namespace Mu2eSubEventReceiver

variable {ε : Type*} {w : ℕ} {header : HeaderLayout w} (layout : FragmentLayout) (L : EventLibrary ε header)
  (cfg : SubEventConfig)

/-- The event around a sub-event. -/
def eventBytes (header : HeaderLayout w) (tsOut : ℕ) (subevt : DtcSubEvent) : List Byte :=
  header.encode (eventHeader w (header.size + subevt.rawBuffer.length) tsOut) ++ subevt.rawBuffer

/-- The events around what a call delivers are whole. -/
def WholeEvents (L : EventLibrary ε header) (call : SubEventCall) : Prop :=
  ∀ subevt ∈ delivered call, L.Whole (eventBytes header (headTag call) subevt)

theorem prefix_buildEvent (header : HeaderLayout w) (fresh : ℕ → (n : ℕ) → Area Byte n) (tsOut i : ℕ)
    (subevt : DtcSubEvent) :
    eventBytes header tsOut subevt <+: buildEvent header fresh tsOut i subevt := by
  obtain ⟨rest, hevt⟩ := buildEvent_eq header fresh tsOut i subevt
  rw [hevt, ← List.append_assoc]
  exact List.prefix_append _ _

theorem getEventByteCount_of_whole {tsOut : ℕ} {subevt : DtcSubEvent} (h : L.Whole (eventBytes header tsOut subevt))
    (fresh : ℕ → (n : ℕ) → Area Byte n) (i : ℕ) :
    getEventByteCount header (buildEvent header fresh tsOut i subevt) = (eventBytes header tsOut subevt).length := by
  have hcount := (L.isEvent_of_whole h).byteCount_eq
  rw [getEventByteCount_buildEvent]
  exact hcount

theorem prefix_dataArea_subEventFragment {tsOut : ℕ} {subevt : DtcSubEvent}
    (h : L.Whole (eventBytes header tsOut subevt)) (fresh : ℕ → (n : ℕ) → Area Byte n) (i : ℕ) (st : Receiver) :
    eventBytes header tsOut subevt <+: (subEventFragment header cfg fresh tsOut i subevt st).dataArea := by
  have hcount := getEventByteCount_of_whole L h fresh i
  have htake := List.prefix_iff_eq_take.mp (prefix_buildEvent header fresh tsOut i subevt)
  rw [← hcount] at htake
  simp only [subEventFragment, Fragment.dataArea, ← htake]
  exact prefix_memcpy hcount.symm _

theorem dumped_addSubEvents (fresh : ℕ → (n : ℕ) → Area Byte n) (tsOut i : ℕ) {subevts : List DtcSubEvent}
    (h : ∀ subevt ∈ subevts, L.Whole (eventBytes header tsOut subevt)) (st : Receiver) :
    dumped layout L (addSubEvents header cfg fresh tsOut i subevts st).frags =
      dumped layout L st.frags ++ (subevts.map (eventBytes header tsOut)).flatten := by
  induction subevts generalizing i st with
  | nil => exact (List.append_nil _).symm
  | cons subevt subevts ih =>
    obtain ⟨hsubevt, hrest⟩ := List.forall_mem_cons.mp h
    have hfrag : dumped layout L [subEventFragment header cfg fresh tsOut i subevt st] =
        eventBytes header tsOut subevt :=
      dumped_singleton layout L rfl rfl hsubevt (prefix_dataArea_subEventFragment L cfg hsubevt fresh i st)
    rw [addSubEvents, ih (i + 1) hrest, addSubEvent, dumped_append, hfrag, List.map_cons, List.flatten_cons,
      List.append_assoc]

theorem map_rawBytes_builtEvents (fresh : ℕ → (n : ℕ) → Area Byte n) (tsOut i : ℕ) {subevts : List DtcSubEvent}
    (h : ∀ subevt ∈ subevts, L.Whole (eventBytes header tsOut subevt)) :
    (builtEvents header fresh tsOut i subevts).map L.rawBytes = subevts.map (eventBytes header tsOut) := by
  induction subevts generalizing i with
  | nil => rfl
  | cons subevt subevts ih =>
    obtain ⟨hsubevt, hrest⟩ := List.forall_mem_cons.mp h
    obtain ⟨rest, hevt⟩ := prefix_buildEvent header fresh tsOut i subevt
    have hwritten : L.rawBytes (buildEvent header fresh tsOut i subevt) = eventBytes header tsOut subevt := by
      rw [← hevt]
      exact L.writeEvent_ofBuffer hsubevt rest
    rw [builtEvents, List.map_cons, List.map_cons, ih (i + 1) hrest, hwritten]

theorem dumped_rollover (st : Receiver) :
    dumped layout L (rollover cfg (sendRequest cfg st)).frags = dumped layout L st.frags := by
  have hfrags := (sendRequest_spec cfg st).1
  unfold rollover
  split
  · rw [dumped_append, hfrags]
    exact List.append_nil _
  · rw [hfrags]

theorem dumped_step {call : SubEventCall} (h : WholeEvents L call) (st : Receiver) :
    dumped layout L (step header cfg st call).frags =
      dumped layout L st.frags ++ ((delivered call).map (eventBytes header (headTag call))).flatten := by
  have hrollover : dumped layout L (rollover cfg (sendRequest cfg st)).frags = _ :=
    dumped_rollover layout L cfg st
  by_cases hstop : call.shouldStop = true
  · rw [step_of_stop header cfg hstop, delivered_of_stop hstop]
    exact (List.append_nil _).symm
  · rw [step_of_not_stop header cfg hstop, dumped_addSubEvents layout L cfg call.read.fresh _ 0 h, hrollover]

theorem dumped_run {calls : List SubEventCall} (h : ∀ call ∈ calls, WholeEvents L call) (st : Receiver) :
    dumped layout L (run (step header cfg) st calls).frags = dumped layout L st.frags ++
      (calls.flatMap fun call => (delivered call).map (eventBytes header (headTag call))).flatten := by
  induction calls generalizing st with
  | nil => exact (List.append_nil _).symm
  | cons call calls ih =>
    obtain ⟨hcall, hcalls⟩ := List.forall_mem_cons.mp h
    rw [run_cons, ih hcalls, dumped_step layout L cfg hcall, List.flatMap_cons, List.flatten_append, List.append_assoc]

/-- No fragment is a container. -/
def Plain (frags : List Fragment) : Prop := ∀ frag ∈ frags, frag.asContainer = none ∧ frag.type ≠ .container

theorem plain_addSubEvents (fresh : ℕ → (n : ℕ) → Area Byte n) (tsOut i : ℕ) (subevts : List DtcSubEvent)
    {st : Receiver} (h : Plain st.frags) : Plain (addSubEvents header cfg fresh tsOut i subevts st).frags := by
  induction subevts generalizing i st with
  | nil => exact h
  | cons subevt subevts ih =>
    refine ih (i + 1) ?_
    exact List.forall_mem_append.mpr ⟨h, List.forall_mem_singleton.mpr ⟨rfl, FragmentType.noConfusion⟩⟩

theorem plain_step (call : SubEventCall) {st : Receiver} (h : Plain st.frags) :
    Plain (step header cfg st call).frags := by
  have hrollover : Plain (rollover cfg (sendRequest cfg st)).frags := by
    have hfrags := (sendRequest_spec cfg st).1
    unfold rollover
    split
    · refine List.forall_mem_append.mpr ⟨hfrags ▸ h, List.forall_mem_singleton.mpr ⟨rfl, ?_⟩⟩
      exact FragmentType.noConfusion
    · exact hfrags ▸ h
  by_cases hstop : call.shouldStop = true
  · rw [step_of_stop header cfg hstop]
    exact h
  · rw [step_of_not_stop header cfg hstop]
    exact plain_addSubEvents cfg call.read.fresh _ 0 _ hrollover

theorem gets_afterRun (rawOutputFile : String) (st : Receiver) (r : RawRun SubEventCall) (time : ℕ) :
    let frags := ((rawGenerator header cfg rawOutputFile).afterRun st r).frags
    DTCEventDump.Gets layout ⟨time, frags.map fun frag => [some [frag]]⟩ frags := by
  intro frags
  have hnone : Plain (st.startCmd cfg.toReceiverConfig).frags := by
    rw [frags_startCmd]
    exact List.forall_mem_nil _
  have hplain : Plain frags :=
    run_invariant (P := fun st : Receiver => Plain st.frags) (fun _ call h => plain_step cfg call h) hnone r.calls
  exact DTCEventDump.gets_singletons time fun frag hfrag =>
    DTCEventDump.oneKind_singleton (hplain frag hfrag).1 (hplain frag hfrag).2

theorem map_rawBytes_read {calls : List SubEventCall} (h : ∀ call ∈ calls, WholeEvents L call)
    (rawOutputFile : String) (st : Receiver) :
    ((rawGenerator header cfg rawOutputFile).read st calls).map L.rawBytes =
      calls.flatMap fun call => (delivered call).map (eventBytes header (headTag call)) := by
  induction calls generalizing st with
  | nil => rfl
  | cons call calls ih =>
    obtain ⟨hcall, hcalls⟩ := List.forall_mem_cons.mp h
    rw [RawGenerator.read, List.map_append, ih hcalls, List.flatMap_cons]
    exact congrArg (· ++ _) (map_rawBytes_builtEvents L call.read.fresh _ 0 hcall)

/-- **The dump of a run is its raw file**: whatever runs there are, each started at its own time, and however their
sub-events come in batches, with failed reads and sub-run transitions in between: a job that gets the fragments of one
of the runs, in any handles of one kind, appends to its file what this run appended to the raw file, and that is the
events around what was read in the run. -/
theorem dump_eq_rawFile (hraw : cfg.rawOutput = true) {rawOutputFile : String}
    (hbin : find ".bin".toList rawOutputFile.toList ≠ none) {m : Recording Receiver} (hclosed : m.output.target = none)
    (before after : List (RawRun SubEventCall)) (r : RawRun SubEventCall)
    (htimes : ((before ++ r :: after).map (·.time)).Nodup)
    (hwhole : ∀ call ∈ r.calls, WholeEvents L call) {job : DumpJob}
    (hgets : DTCEventDump.Gets layout job
      ((before ++ [r]).foldl (rawGenerator header cfg rawOutputFile).afterRun m.generator).frags)
    (binaryFileName : String) {s : FileStream String Byte} (hs : s.target = none) :
    (rawGenerator header cfg rawOutputFile).FilesGet layout L m (before ++ r :: after) r binaryFileName s job
      (r.calls.flatMap fun call => (delivered call).map (eventBytes header (headTag call))) := by
  have hdumped := dumped_run layout L cfg hwhole
    ((before.foldl (rawGenerator header cfg rawOutputFile).afterRun m.generator).startCmd cfg.toReceiverConfig)
  rw [frags_startCmd, dumped_nil, List.nil_append] at hdumped
  rw [List.foldl_append] at hgets
  exact RawGenerator.filesGet_of_dumped hraw hbin hclosed htimes (map_rawBytes_read L cfg hwhole rawOutputFile _)
    hdumped hgets binaryFileName hs

theorem wholeEvents_counted {call : SubEventCall}
    (h : ∀ subevt ∈ delivered call, header.size + subevt.rawBuffer.length < 2 ^ w) {sizes : ℕ → List Byte} :
    WholeEvents (.counted header sizes) call := by
  intro subevt hsubevt
  refine ⟨_, subevt.rawBuffer, rfl, ?_⟩
  rw [eventBytes, List.length_append, header.length_encode]
  exact Nat.mod_eq_of_lt (h subevt hsubevt)

/-- With raw output, and with sub-runs of three events. -/
def rawConfig : SubEventConfig := ⟨⟨0, .disabled, true, 16, 0, 1⟩, 3, 3⟩

def rawCalls : List SubEventCall :=
  [⟨false, Read.ofEvents [⟨5, [1, 2]⟩, ⟨6, [3]⟩]⟩, ⟨false, Read.failing⟩, ⟨false, Read.ofEvents [⟨7, []⟩]⟩]

/-- A receiver that was just constructed, and no files. -/
def newRecording : Recording Receiver := ⟨Receiver.init, FileStream.ofFiles fun _ => []⟩

/-- Two runs, and a dump of the second one, with the fragments of each event in a handle of their own. -/
theorem dump_eq_rawFile_two :
    let G := rawGenerator .packed rawConfig "/tmp/raw.bin"
    let first : RawRun SubEventCall := ⟨17, rawCalls.take 1⟩
    let second : RawRun SubEventCall := ⟨18, rawCalls⟩
    let frags := (G.afterRun (G.afterRun newRecording.generator first) second).frags
    G.FilesGet .zeroTerminated (.counted .packed fun _ => []) newRecording [first, second] second "/tmp/dump.bin"
      (FileStream.ofFiles fun _ => []) ⟨20, frags.map fun frag => [some [frag]]⟩
      (rawCalls.flatMap fun call => (delivered call).map (eventBytes .packed (headTag call))) := by
  intro G first second frags
  have hwhole : ∀ call ∈ second.calls, WholeEvents (.counted .packed fun _ => []) call := fun call hcall =>
    wholeEvents_counted (by revert call; decide)
  exact dump_eq_rawFile .zeroTerminated _ rawConfig rfl (by decide) rfl [first] [] second (by decide) hwhole
    (gets_afterRun .zeroTerminated rawConfig "/tmp/raw.bin" _ second 20) "/tmp/dump.bin" rfl

/-! ### What a raw file says -/

/-- The tag fits into the header, and the events are whole. -/
structure Fits (L : EventLibrary ε header) (call : SubEventCall) : Prop where
  tag : headTag call < 2 ^ 48
  whole : WholeEvents L call

/-- The tag in the header of an event, and what follows the header. -/
def readEvent (header : HeaderLayout w) (bytes : List Byte) : ℕ × List Byte :=
  ((header.decode bytes).eventWindowTag, bytes.drop header.size)

end Mu2eSubEventReceiver

end ArtdaqMu2e
