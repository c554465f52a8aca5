import ArtdaqMu2e.ArtModules.TimeTracker
import ArtdaqMu2e.Lib.Lists
import Mathlib.Data.Finset.Basic

/-!
# Which event a timing row belongs to

art promises that the callbacks of one schedule come in order: an event is read, processed and written before the
next one, and a module is started before it is recorded (`advance`). Nothing is promised about callbacks of different
schedules, and all entries are in one map.

`Inserts` says, by the callbacks of the schedule alone, which rows a callback has to insert. The entries hold what is
needed for that (`Tracks`), in every order of the callbacks (`tracks_run`), so the rows are the ones (`attributed`).
-/

namespace ArtdaqMu2e

open Lists Runs

namespace TimeTracker

/-! ### The order of the callbacks of a schedule -/

/-- Where a schedule is with its event. `active` are the labels of the modules that are started and not recorded. -/
inductive Phase where
  | idle
  | reading
  | read (e : EventID)
  | processing (e : EventID) (active : Finset String)
  | writing (e : EventID) (active : Finset String)
  deriving DecidableEq

def startModule (active : Finset String) (mc : ModuleContext) : Option (Finset String) :=
  if mc.moduleLabel ≠ "" ∧ mc.moduleLabel ∉ active then some (insert mc.moduleLabel active) else none

def recordModule (active : Finset String) (mc : ModuleContext) : Option (Finset String) :=
  if mc.moduleLabel ∈ active then some (active.erase mc.moduleLabel) else none

/-- The phase after a callback; `none` if it does not come in order. -/
def advance : Phase → Callback → Option Phase
  | .idle, .preEventReading => some .reading
  | .reading, .postEventReading e => some (.read e)
  | .read e, .preEventProcessing e' => if e' = e then some (.processing e ∅) else none
  | .processing e active, .startTime mc => (startModule active mc).map (.processing e)
  | .processing e active, .recordTime mc _ => (recordModule active mc).map (.processing e)
  | .processing e active, .postEventProcessing e' => if e' = e ∧ active = ∅ then some (.writing e ∅) else none
  | .writing e active, .startTime mc => (startModule active mc).map (.writing e)
  | .writing e active, .recordTime mc _ => (recordModule active mc).map (.writing e)
  | .writing _ active, .preEventReading => if active = ∅ then some .reading else none
  | _, _ => none

/-- The ways a schedule can go on. -/
inductive Advances : Phase → Callback → Phase → Prop where
  | first : Advances .idle .preEventReading .reading
  | next (e : EventID) : Advances (.writing e ∅) .preEventReading .reading
  | read (e : EventID) : Advances .reading (.postEventReading e) (.read e)
  | process (e : EventID) : Advances (.read e) (.preEventProcessing e) (.processing e ∅)
  | processed (e : EventID) : Advances (.processing e ∅) (.postEventProcessing e) (.writing e ∅)
  | start (e : EventID) {active active' : Finset String} {mc : ModuleContext}
    (h : startModule active mc = some active') : Advances (.processing e active) (.startTime mc) (.processing e active')
  | record (e : EventID) {active active' : Finset String} {mc : ModuleContext} (suffix : String)
    (h : recordModule active mc = some active') :
    Advances (.processing e active) (.recordTime mc suffix) (.processing e active')
  | startWriting (e : EventID) {active active' : Finset String} {mc : ModuleContext}
    (h : startModule active mc = some active') : Advances (.writing e active) (.startTime mc) (.writing e active')
  | recordWriting (e : EventID) {active active' : Finset String} {mc : ModuleContext} (suffix : String)
    (h : recordModule active mc = some active') :
    Advances (.writing e active) (.recordTime mc suffix) (.writing e active')

theorem advances_of_advance {phase phase' : Phase} {callback : Callback} (h : advance phase callback = some phase') :
    Advances phase callback phase' := by
  unfold advance at h
  split at h
  · obtain rfl := Option.some.inj h
    exact .first
  · obtain rfl := Option.some.inj h
    exact .read _
  · split_ifs at h with he
    obtain rfl := Option.some.inj h
    rw [he]
    exact .process _
  · obtain ⟨active', hactive, rfl⟩ := Option.map_eq_some_iff.mp h
    exact .start _ hactive
  · obtain ⟨active', hactive, rfl⟩ := Option.map_eq_some_iff.mp h
    exact .record _ _ hactive
  · split_ifs at h with hdone
    obtain rfl := Option.some.inj h
    rw [hdone.1, hdone.2]
    exact .processed _
  · obtain ⟨active', hactive, rfl⟩ := Option.map_eq_some_iff.mp h
    exact .startWriting _ hactive
  · obtain ⟨active', hactive, rfl⟩ := Option.map_eq_some_iff.mp h
    exact .recordWriting _ _ hactive
  · split_ifs at h with hdone
    obtain rfl := Option.some.inj h
    rw [hdone]
    exact .next _
  · cases h

def phaseAfter (past : List Timed) : Option Phase :=
  run (fun phase x => phase.bind fun phase => advance phase x.callback) (some .idle) past

/-- The callbacks of every schedule come in order, up to the moment of the last one. -/
def InOrder (inputs : List (ℕ × Timed)) : Prop := ∀ sid, phaseAfter (inputsOf sid inputs) ≠ none

/-! ### The rows to be inserted -/

namespace Callback

/-- The beginning or the end of a reading. -/
def OfReading : Callback → Prop
  | .preEventReading => True
  | .postEventReading _ => True
  | _ => False

def OfProcessing : Callback → Prop
  | .preEventProcessing _ => True
  | .postEventProcessing _ => True
  | _ => False

def OfModule (label : String) : Callback → Prop
  | .startTime mc => mc.moduleLabel = label
  | .recordTime mc _ => mc.moduleLabel = label
  | _ => False

end Callback

/-- The last callback with a property is the given one. -/
def LastOf (p : Callback → Prop) (past : List Timed) (now : ℤ) (callback : Callback) : Prop :=
  IsLast (fun x => p x.callback) past ⟨now, callback⟩

/-- The rows that a callback has to insert, after the callbacks `past` of its own schedule. A row has the event that
the schedule read last, and the time from the callback that began what ends now. -/
inductive Inserts (cfg : TrackerConfig) (past : List Timed) : Timed → Tables → Prop where
  | preEventReading (now : ℤ) : Inserts cfg past ⟨now, .preEventReading⟩ Tables.empty
  | postEventReading (now : ℤ) (e : EventID) {start : ℤ} (hstart : LastOf Callback.OfReading past start .preEventReading) :
    Inserts cfg past ⟨now, .postEventReading e⟩ ⟨[⟨e, cfg.sourceType, now - start⟩], [], []⟩
  | preEventProcessing (now : ℤ) (e : EventID) : Inserts cfg past ⟨now, .preEventProcessing e⟩ Tables.empty
  | postEventProcessing (now : ℤ) (e : EventID) {read start : ℤ}
    (hevent : LastOf Callback.OfReading past read (.postEventReading e))
    (hstart : LastOf Callback.OfProcessing past start (.preEventProcessing e)) :
    Inserts cfg past ⟨now, .postEventProcessing e⟩ ⟨[], [⟨e, now - start⟩], []⟩
  | startTime (now : ℤ) (mc : ModuleContext) : Inserts cfg past ⟨now, .startTime mc⟩ Tables.empty
  | recordTime (now : ℤ) (mc : ModuleContext) (suffix : String) {e : EventID} {read start : ℤ} {mc' : ModuleContext}
    (hevent : LastOf Callback.OfReading past read (.postEventReading e))
    (hstart : LastOf (Callback.OfModule mc.moduleLabel) past start (.startTime mc')) :
    Inserts cfg past ⟨now, .recordTime mc suffix⟩
      ⟨[], [], [⟨e, mc.pathName, mc.moduleLabel, mc.moduleName ++ suffix, now - start⟩]⟩

/-! ### What the entries hold -/

/-- The schedule has an event, and its id in the entry. -/
structure Handles (past : List Timed) (v : View) (e : EventID) : Prop where
  event : ∃ read, LastOf Callback.OfReading past read (.postEventReading e)
  entry : (v "").eventID = e

/-- The entries of the active modules hold the event, and when they were started. -/
def Running (past : List Timed) (v : View) (e : EventID) (active : Finset String) : Prop :=
  ∀ label ∈ active, label ≠ "" ∧ (v label).eventID = e ∧
    ∃ mc, LastOf (Callback.OfModule label) past (v label).moduleStart (.startTime mc)

def Tracks (past : List Timed) (v : View) : Phase → Prop
  | .idle => True
  | .reading => LastOf Callback.OfReading past (v "").eventStart .preEventReading
  | .read e => Handles past v e
  | .processing e active =>
    Handles past v e ∧ LastOf Callback.OfProcessing past (v "").eventStart (.preEventProcessing e) ∧
      Running past v e active
  | .writing e active => Handles past v e ∧ Running past v e active

section tracks
variable {cfg : TrackerConfig} {past : List Timed} {v : View} {e : EventID} {active : Finset String}

theorem LastOf.concat {p : Callback → Prop} {now : ℤ} {callback : Callback} (h : LastOf p past now callback)
    {x : Timed} (hx : ¬ p x.callback) : LastOf p (past ++ [x]) now callback :=
  IsLast.concat h hx

theorem lastOf_concat_self {p : Callback → Prop} (callback : Callback) (h : p callback) (past : List Timed) (now : ℤ) :
    LastOf p (past ++ [⟨now, callback⟩]) now callback :=
  isLast_concat_self (p := fun x : Timed => p x.callback) (x := ⟨now, callback⟩) h past

theorem viewStep_eventID {x : Timed} (hx : ¬ Callback.OfReading x.callback) :
    (viewStep cfg v x "").eventID = (v "").eventID := by
  obtain ⟨now, callback⟩ := x
  cases callback with
  | preEventReading => exact absurd trivial hx
  | postEventReading e => exact absurd trivial hx
  | preEventProcessing e => simp [viewStep]
  | postEventProcessing e => rfl
  | startTime mc =>
    by_cases hlabel : mc.moduleLabel = ""
    · simp [viewStep, hlabel]
    · simp [viewStep, Function.update_of_ne (Ne.symm hlabel)]
  | recordTime mc suffix => rfl

theorem Handles.concat (h : Handles past v e) {x : Timed} (hx : ¬ Callback.OfReading x.callback) :
    Handles (past ++ [x]) (viewStep cfg v x) e := by
  obtain ⟨read, hread⟩ := h.event
  exact ⟨⟨read, hread.concat hx⟩, (viewStep_eventID hx).trans h.entry⟩

theorem running_empty : Running past v e ∅ := fun label hlabel => absurd hlabel (Finset.notMem_empty label)

theorem Running.start (h : Running past v e active) (hv : (v "").eventID = e) {now : ℤ} {mc : ModuleContext}
    {active' : Finset String} (hactive : startModule active mc = some active') :
    Running (past ++ [⟨now, .startTime mc⟩]) (viewStep cfg v ⟨now, .startTime mc⟩) e active' := by
  rw [startModule] at hactive
  split_ifs at hactive with hnew
  obtain rfl := Option.some.inj hactive
  intro label hlabel
  by_cases hsame : label = mc.moduleLabel
  · subst hsame
    refine ⟨hnew.1, by simp [viewStep, hv], mc, ?_⟩
    have hstart : (viewStep cfg v ⟨now, .startTime mc⟩ mc.moduleLabel).moduleStart = now := by simp [viewStep]
    rw [hstart]
    exact lastOf_concat_self (p := Callback.OfModule mc.moduleLabel) (.startTime mc) rfl past now
  · obtain ⟨hne, hid, mc', hstart⟩ := h label ((Finset.mem_insert.mp hlabel).resolve_left hsame)
    have hkeep : viewStep cfg v ⟨now, .startTime mc⟩ label = v label := Function.update_of_ne hsame _ _
    rw [hkeep]
    exact ⟨hne, hid, mc', hstart.concat (Ne.symm hsame)⟩

theorem Running.record (h : Running past v e active) {now : ℤ} {mc : ModuleContext} {suffix : String}
    {active' : Finset String} (hactive : recordModule active mc = some active') :
    Running (past ++ [⟨now, .recordTime mc suffix⟩]) (viewStep cfg v ⟨now, .recordTime mc suffix⟩) e active' := by
  rw [recordModule] at hactive
  split_ifs at hactive
  obtain rfl := Option.some.inj hactive
  intro label hlabel
  obtain ⟨hsame, hmem⟩ := Finset.mem_erase.mp hlabel
  obtain ⟨hne, hid, mc', hstart⟩ := h label hmem
  exact ⟨hne, hid, mc', hstart.concat (Ne.symm hsame)⟩

theorem tracks_reading (now : ℤ) :
    Tracks (past ++ [⟨now, .preEventReading⟩]) (viewStep cfg v ⟨now, .preEventReading⟩) .reading := by
  have hstart : (viewStep cfg v ⟨now, .preEventReading⟩ "").eventStart = now := by simp [viewStep]
  rw [Tracks, hstart]
  exact lastOf_concat_self .preEventReading trivial past now

theorem tracks_step {phase phase' : Phase} {x : Timed} (h : Tracks past v phase)
    (hnext : Advances phase x.callback phase') : Tracks (past ++ [x]) (viewStep cfg v x) phase' := by
  obtain ⟨now, callback⟩ := x
  cases hnext with
  | first => exact tracks_reading now
  | next e => exact tracks_reading now
  | read e =>
    refine ⟨⟨now, lastOf_concat_self (.postEventReading e) trivial past now⟩, ?_⟩
    simp [viewStep]
  | process e =>
    refine ⟨Handles.concat h (fun hread => hread), ?_, running_empty⟩
    have hstart : (viewStep cfg v ⟨now, .preEventProcessing e⟩ "").eventStart = now := by simp [viewStep]
    rw [hstart]
    exact lastOf_concat_self (.preEventProcessing e) trivial past now
  | processed e => exact ⟨h.1.concat (fun hread => hread), running_empty⟩
  | @start e _ _ mc hactive =>
    refine ⟨h.1.concat (fun hread => hread), ?_, h.2.2.start h.1.entry hactive⟩
    have hkeep : (viewStep cfg v ⟨now, .startTime mc⟩ "").eventStart = (v "").eventStart := by
      by_cases hlabel : mc.moduleLabel = ""
      · simp [viewStep, hlabel]
      · simp [viewStep, Function.update_of_ne (Ne.symm hlabel)]
    rw [hkeep]
    exact h.2.1.concat (fun hproc => hproc)
  | record e suffix hactive =>
    exact ⟨h.1.concat (fun hread => hread), h.2.1.concat (fun hproc => hproc), h.2.2.record hactive⟩
  | startWriting e hactive => exact ⟨h.1.concat (fun hread => hread), h.2.start h.1.entry hactive⟩
  | recordWriting e suffix hactive => exact ⟨h.1.concat (fun hread => hread), h.2.record hactive⟩

theorem inserts_record (hhandles : Handles past v e) (hrunning : Running past v e active) {now : ℤ}
    {mc : ModuleContext} {suffix : String} {active' : Finset String} (hactive : recordModule active mc = some active') :
    Inserts cfg past ⟨now, .recordTime mc suffix⟩ (rowsOf cfg v ⟨now, .recordTime mc suffix⟩) := by
  rw [recordModule] at hactive
  split_ifs at hactive with hmem
  obtain ⟨-, hid, mc', hstart⟩ := hrunning mc.moduleLabel hmem
  obtain ⟨read, hread⟩ := hhandles.event
  have hrow : rowsOf cfg v ⟨now, .recordTime mc suffix⟩ =
      ⟨[], [], [⟨e, mc.pathName, mc.moduleLabel, mc.moduleName ++ suffix,
        now - (v mc.moduleLabel).moduleStart⟩]⟩ := by
    rw [← hid]
    rfl
  rw [hrow]
  exact .recordTime now mc suffix hread hstart

/-- A callback that comes in order inserts its rows, and its assertion holds. -/
theorem inserts_of_tracks {phase phase' : Phase} {x : Timed} (h : Tracks past v phase)
    (hnext : Advances phase x.callback phase') :
    Inserts cfg past x (rowsOf cfg v x) ∧ failsAssertion v x = false := by
  obtain ⟨now, callback⟩ := x
  cases hnext with
  | first => exact ⟨.preEventReading now, rfl⟩
  | next e => exact ⟨.preEventReading now, rfl⟩
  | read e => exact ⟨.postEventReading now e h, rfl⟩
  | process e => exact ⟨.preEventProcessing now e, by simp [failsAssertion, Handles.entry h]⟩
  | processed e =>
    obtain ⟨⟨⟨read, hread⟩, hentry⟩, hstart, -⟩ := h
    have hrow : rowsOf cfg v ⟨now, .postEventProcessing e⟩ = ⟨[], [⟨e, now - (v "").eventStart⟩], []⟩ := by
      rw [← hentry]
      rfl
    rw [hrow]
    exact ⟨.postEventProcessing now e hread hstart, rfl⟩
  | start e hactive => exact ⟨.startTime now _, rfl⟩
  | record e suffix hactive => exact ⟨inserts_record h.1 h.2.2 hactive, rfl⟩
  | startWriting e hactive => exact ⟨.startTime now _, rfl⟩
  | recordWriting e suffix hactive => exact ⟨inserts_record h.1 h.2 hactive, rfl⟩

end tracks

/-! ### Runs -/

theorem phaseAfter_concat (past : List Timed) (x : Timed) :
    phaseAfter (past ++ [x]) = (phaseAfter past).bind fun phase => advance phase x.callback := by
  rw [phaseAfter, run_append]
  rfl

theorem phaseAfter_append_of_none {past : List Timed} (h : phaseAfter past = none) (rest : List Timed) :
    phaseAfter (past ++ rest) = none := by
  induction rest using List.reverseRecOn with
  | nil => rw [List.append_nil, h]
  | append_singleton rest x ih => rw [← List.append_assoc, phaseAfter_concat, ih, Option.bind_none]

theorem advances_of_concat {past : List Timed} {x : Timed} {phase' : Phase} (h : phaseAfter (past ++ [x]) = some phase') :
    ∃ phase, phaseAfter past = some phase ∧ Advances phase x.callback phase' := by
  obtain ⟨phase, hphase, hadv⟩ := Option.bind_eq_some_iff.mp ((phaseAfter_concat past x).symm.trans h)
  exact ⟨phase, hphase, advances_of_advance hadv⟩

theorem exists_advance {past rest : List Timed} {x : Timed} (h : phaseAfter (past ++ x :: rest) ≠ none) :
    ∃ phase phase', phaseAfter past = some phase ∧ Advances phase x.callback phase' := by
  have hnext : phaseAfter (past ++ [x]) ≠ none := by
    intro hnone
    refine h ?_
    rw [← List.singleton_append, ← List.append_assoc]
    exact phaseAfter_append_of_none hnone rest
  obtain ⟨phase', hphase'⟩ := Option.ne_none_iff_exists'.mp hnext
  obtain ⟨phase, hphase, hadv⟩ := advances_of_concat hphase'
  exact ⟨phase, phase', hphase, hadv⟩

theorem tracks_run (cfg : TrackerConfig) (v : View) {past : List Timed} {phase : Phase}
    (h : phaseAfter past = some phase) : Tracks past (run (viewStep cfg) v past) phase := by
  induction past using List.reverseRecOn generalizing phase with
  | nil =>
    obtain rfl := Option.some.inj h
    trivial
  | append_singleton past x ih =>
    obtain ⟨before, hbefore, hadv⟩ := advances_of_concat h
    rw [run_append]
    exact tracks_step (ih hbefore) hadv

/-! ### Once for each event -/

def readEvent : Callback → Option EventID
  | .postEventReading e => some e
  | _ => none

def processedEvent : Callback → Option EventID
  | .postEventProcessing e => some e
  | _ => none

def startedLabel : Callback → Option String
  | .startTime mc => some mc.moduleLabel
  | _ => none

def recordedLabel : Callback → Option String
  | .recordTime mc _ => some mc.moduleLabel
  | _ => none

namespace Phase

/-- The event that is read and not yet processed. -/
def pending : Phase → List EventID
  | .read e => [e]
  | .processing e _ => [e]
  | _ => []

def active : Phase → Finset String
  | .processing _ active => active
  | .writing _ active => active
  | _ => ∅

end Phase

/-- 1 for a module that is active. -/
def isActive (active : Finset String) (label : String) : ℕ := if label ∈ active then 1 else 0

/-- Every event that was read was processed, except the pending one, and every module started was recorded, except
the active ones. -/
structure Balanced (past : List Timed) (phase : Phase) : Prop where
  events : past.filterMap (readEvent ·.callback) = past.filterMap (processedEvent ·.callback) ++ phase.pending
  modules : ∀ label, (past.filterMap (startedLabel ·.callback)).count label =
    (past.filterMap (recordedLabel ·.callback)).count label + isActive phase.active label

theorem isActive_of_startModule {active active' : Finset String} {mc : ModuleContext}
    (h : startModule active mc = some active') (label : String) :
    isActive active' label = isActive active label + [mc.moduleLabel].count label := by
  rw [startModule] at h
  split_ifs at h with hnew
  obtain rfl := Option.some.inj h
  by_cases hsame : label = mc.moduleLabel
  · simp [isActive, hsame, hnew.2]
  · simp [isActive, hsame, Ne.symm hsame]

theorem isActive_of_recordModule {active active' : Finset String} {mc : ModuleContext}
    (h : recordModule active mc = some active') (label : String) :
    isActive active label = isActive active' label + [mc.moduleLabel].count label := by
  rw [recordModule] at h
  split_ifs at h with hmem
  obtain rfl := Option.some.inj h
  by_cases hsame : label = mc.moduleLabel
  · simp [isActive, hsame, hmem]
  · simp [isActive, hsame, Ne.symm hsame]

theorem pending_of_advances {phase phase' : Phase} {callback : Callback} (h : Advances phase callback phase') :
    phase.pending ++ (readEvent callback).toList = (processedEvent callback).toList ++ phase'.pending := by
  cases h <;> rfl

theorem isActive_of_advances {phase phase' : Phase} {callback : Callback} (h : Advances phase callback phase')
    (label : String) : isActive phase.active label + (startedLabel callback).toList.count label =
      isActive phase'.active label + (recordedLabel callback).toList.count label := by
  cases h with
  | start e hactive => exact (isActive_of_startModule hactive label).symm
  | record e suffix hactive => exact isActive_of_recordModule hactive label
  | startWriting e hactive => exact (isActive_of_startModule hactive label).symm
  | recordWriting e suffix hactive => exact isActive_of_recordModule hactive label
  | _ => rfl

theorem balanced_step {past : List Timed} {phase phase' : Phase} {x : Timed} (h : Balanced past phase)
    (hnext : Advances phase x.callback phase') : Balanced (past ++ [x]) phase' := by
  constructor
  · rw [filterMap_concat, filterMap_concat, h.events, List.append_assoc, List.append_assoc,
      pending_of_advances hnext]
  · intro label
    have hactive := isActive_of_advances hnext label
    have hmodules := h.modules label
    rw [filterMap_concat, filterMap_concat, List.count_append, List.count_append]
    omega

theorem balanced_run {past : List Timed} {phase : Phase} (h : phaseAfter past = some phase) : Balanced past phase := by
  induction past using List.reverseRecOn generalizing phase with
  | nil =>
    obtain rfl := Option.some.inj h
    exact ⟨rfl, fun label => rfl⟩
  | append_singleton past x ih =>
    obtain ⟨before, hbefore, hadv⟩ := advances_of_concat h
    exact balanced_step (ih hbefore) hadv

/-! ### All schedules -/

section all
variable (cfg : TrackerConfig) {inputs before rest : List (ℕ × Timed)} {x : ℕ × Timed}

/-- The service after the callbacks. -/
def after (inputs : List (ℕ × Timed)) : TimeTracker := run (step cfg) (init cfg) inputs

theorem after_concat (before : List (ℕ × Timed)) (x : ℕ × Timed) :
    after cfg (before ++ [x]) = step cfg (after cfg before) x := by
  rw [after, run_append]
  rfl

/-- The rows of the callbacks of a run, in order. -/
structure Attributed (inputs : List (ℕ × Timed)) : Prop where
  assertion : (after cfg inputs).assertionFailed = false
  rows : ∀ before x rest, inputs = before ++ x :: rest → ∃ rows, Inserts cfg (inputsOf x.1 before) x.2 rows ∧
    (after cfg (before ++ [x])).tables = (after cfg before).tables.insert rows
  timeSource : (after cfg inputs).tables.timeSource.map (·.eventID) = inputs.filterMap (readEvent ·.2.callback)
  timeEvent : (after cfg inputs).tables.timeEvent.map (·.eventID) = inputs.filterMap (processedEvent ·.2.callback)
  timeModule : (after cfg inputs).tables.timeModule.map (·.moduleLabel) =
    inputs.filterMap (recordedLabel ·.2.callback)
  once : ∀ sid e, phaseAfter (inputsOf sid inputs) = some (.writing e ∅) →
    (inputsOf sid inputs).filterMap (readEvent ·.callback) =
        (inputsOf sid inputs).filterMap (processedEvent ·.callback) ∧
      ∀ label, ((inputsOf sid inputs).filterMap (startedLabel ·.callback)).count label =
        ((inputsOf sid inputs).filterMap (recordedLabel ·.callback)).count label

theorem InOrder.of_append (h : InOrder (before ++ rest)) : InOrder before := by
  intro sid hnone
  refine h sid ?_
  rw [inputsOf_append]
  exact phaseAfter_append_of_none hnone _

theorem InOrder.inserts (h : InOrder (before ++ x :: rest)) :
    Inserts cfg (inputsOf x.1 before) x.2 (rowsOf cfg (view (after cfg before) x.1) x.2) ∧
      failsAssertion (view (after cfg before) x.1) x.2 = false := by
  have hown := h x.1
  have hsplit : inputsOf x.1 (x :: rest) = x.2 :: inputsOf x.1 rest := by simp [inputsOf]
  rw [inputsOf_append, hsplit] at hown
  obtain ⟨phase, phase', hphase, hadv⟩ := exists_advance hown
  rw [after, view_run]
  exact inserts_of_tracks (tracks_run cfg _ hphase) hadv

theorem Inserts.once {past : List Timed} {x : Timed} {rows : Tables} (h : Inserts cfg past x rows) :
    rows.timeSource.map (·.eventID) = (readEvent x.callback).toList ∧
      rows.timeEvent.map (·.eventID) = (processedEvent x.callback).toList ∧
      rows.timeModule.map (·.moduleLabel) = (recordedLabel x.callback).toList := by
  cases h <;> exact ⟨rfl, rfl, rfl⟩

theorem tables_after (h : InOrder inputs) :
    (after cfg inputs).assertionFailed = false ∧
      (after cfg inputs).tables.timeSource.map (·.eventID) = inputs.filterMap (readEvent ·.2.callback) ∧
      (after cfg inputs).tables.timeEvent.map (·.eventID) = inputs.filterMap (processedEvent ·.2.callback) ∧
      (after cfg inputs).tables.timeModule.map (·.moduleLabel) = inputs.filterMap (recordedLabel ·.2.callback) := by
  induction inputs using List.reverseRecOn with
  | nil => exact ⟨rfl, rfl, rfl, rfl⟩
  | append_singleton before x ih =>
    obtain ⟨hassert, hsource, hevent, hmodule⟩ := ih h.of_append
    obtain ⟨hinserts, hholds⟩ := h.inserts cfg
    obtain ⟨hs, he, hm⟩ := hinserts.once
    simp only [filterMap_concat, ← hsource, ← hevent, ← hmodule, ← hs, ← he, ← hm]
    rw [after_concat, tables_step, assertionFailed_step, hassert, hholds]
    simp [Tables.insert]

/-- **Timing rows are attributed to the right event** under any interleaving of schedules whose callbacks come in
order. -/
theorem attributed (h : InOrder inputs) : Attributed cfg inputs := by
  obtain ⟨hassert, hsource, hevent, hmodule⟩ := tables_after cfg h
  refine ⟨hassert, ?_, hsource, hevent, hmodule, fun sid e hdone => ?_⟩
  · rintro before x rest rfl
    exact ⟨_, (h.inserts cfg).1, by rw [after_concat, tables_step]⟩
  · obtain ⟨hevents, hmodules⟩ := balanced_run hdone
    exact ⟨by simpa [Phase.pending] using hevents, by simpa [Phase.active, isActive] using hmodules⟩

end all

def trackerConfig : TrackerConfig := ⟨"ArtdaqInput", ⟨0, 0, 0⟩, ⟨⟨0, 0, 0⟩, 0, 0⟩⟩

def recoModule : ModuleContext := ⟨"reco", "hits", "HitMaker"⟩

/-- Two schedules with an event each, which run a module of the same label at the same time. -/
def twoSchedules : List (ℕ × Timed) :=
  [(0, ⟨1, .preEventReading⟩), (1, ⟨2, .preEventReading⟩), (1, ⟨4, .postEventReading ⟨1, 1, 8⟩⟩),
    (0, ⟨5, .postEventReading ⟨1, 1, 7⟩⟩), (0, ⟨6, .preEventProcessing ⟨1, 1, 7⟩⟩), (0, ⟨7, .startTime recoModule⟩),
    (1, ⟨8, .preEventProcessing ⟨1, 1, 8⟩⟩), (1, ⟨10, .startTime recoModule⟩), (0, ⟨12, .recordTime recoModule ""⟩),
    (0, ⟨13, .postEventProcessing ⟨1, 1, 7⟩⟩), (1, ⟨20, .recordTime recoModule ""⟩),
    (1, ⟨30, .postEventProcessing ⟨1, 1, 8⟩⟩)]

theorem twoSchedules_inOrder : InOrder twoSchedules := by
  intro sid
  by_cases hzero : sid = 0
  · subst hzero
    decide
  by_cases hone : sid = 1
  · subst hone
    decide
  have hnone : inputsOf sid twoSchedules = [] := by
    simp [inputsOf, twoSchedules, Ne.symm hzero, Ne.symm hone]
  rw [hnone]
  decide

theorem attributed_twoSchedules :
    (after trackerConfig twoSchedules).tables.timeEvent = [⟨⟨1, 1, 7⟩, 7⟩, ⟨⟨1, 1, 8⟩, 22⟩] ∧
      Attributed trackerConfig twoSchedules :=
  ⟨by decide, attributed trackerConfig twoSchedules_inOrder⟩

end TimeTracker

end ArtdaqMu2e
