import ArtdaqMu2e.Lib.Runs
import Mathlib.Data.Int.Notation

/-!
# The time tracker

`ArtdaqTimeTrackerService` takes the callbacks of art and writes three tables: how long it took to read an event, to
process it, and to run each of the modules. Between the callbacks it keeps the times in one map for all schedules: the
entry of a schedule under an empty label, and those of its modules under theirs.

A callback touches the entries of its own schedule only, so that each schedule can be looked at alone, with `View`
for its part of the map (`view_step`). Times are ticks of the clock.
-/

namespace ArtdaqMu2e

open Runs

structure EventID where
  run : ℕ
  subRun : ℕ
  event : ℕ
  deriving DecidableEq, Repr

structure PerScheduleData where
  eventID : EventID
  eventStart : ℤ
  moduleStart : ℤ
  deriving DecidableEq, Repr

/-- A `ModuleContext`; its schedule is the one that the callback comes from. -/
structure ModuleContext where
  pathName : String
  moduleLabel : String
  moduleName : String
  deriving DecidableEq, Repr

inductive Callback where
  | preEventReading
  | postEventReading (e : EventID)
  | preEventProcessing (e : EventID)
  | postEventProcessing (e : EventID)
  | startTime (mc : ModuleContext)
  | recordTime (mc : ModuleContext) (suffix : String)
  deriving DecidableEq, Repr

/-- A callback, and what `now()` is during it. -/
structure Timed where
  now : ℤ
  callback : Callback
  deriving DecidableEq, Repr

/-! ### The tables -/

structure TimeSourceRow where
  eventID : EventID
  source : String
  time : ℤ
  deriving DecidableEq, Repr

structure TimeEventRow where
  eventID : EventID
  time : ℤ
  deriving DecidableEq, Repr

structure TimeModuleRow where
  eventID : EventID
  path : String
  moduleLabel : String
  moduleType : String
  time : ℤ
  deriving DecidableEq, Repr

structure Tables where
  timeSource : List TimeSourceRow
  timeEvent : List TimeEventRow
  timeModule : List TimeModuleRow
  deriving DecidableEq, Repr

namespace Tables

def empty : Tables := ⟨[], [], []⟩

/-- The tables with more rows inserted. -/
def insert (tables rows : Tables) : Tables where
  timeSource := tables.timeSource ++ rows.timeSource
  timeEvent := tables.timeEvent ++ rows.timeEvent
  timeModule := tables.timeModule ++ rows.timeModule

@[simp] theorem insert_empty (tables : Tables) : tables.insert empty = tables := by
  simp [insert, empty]

end Tables

/-! ### The service -/

/-- What art provides: the type of the source, the id of no event, and an entry of the map as it is made. -/
structure TrackerConfig where
  sourceType : String
  invalidEvent : EventID
  newEntry : PerScheduleData
  deriving DecidableEq, Repr

structure TimeTracker where
  data : ℕ × String → PerScheduleData
  tables : Tables
  assertionFailed : Bool

namespace TimeTracker

def scheduleKey (sid : ℕ) : ℕ × String := (sid, "")

def moduleKey (sid : ℕ) (mc : ModuleContext) : ℕ × String := (sid, mc.moduleLabel)

section service
variable (cfg : TrackerConfig)

def init : TimeTracker := ⟨fun _ => cfg.newEntry, Tables.empty, false⟩

def preEventReading (st : TimeTracker) (sid : ℕ) (now : ℤ) : TimeTracker :=
  let d := { st.data (scheduleKey sid) with eventID := cfg.invalidEvent, eventStart := now }
  { st with data := Function.update st.data (scheduleKey sid) d }

def postEventReading (st : TimeTracker) (sid : ℕ) (now : ℤ) (e : EventID) : TimeTracker :=
  let d := { st.data (scheduleKey sid) with eventID := e }
  { st with
    data := Function.update st.data (scheduleKey sid) d
    tables := st.tables.insert ⟨[⟨d.eventID, cfg.sourceType, now - d.eventStart⟩], [], []⟩ }

def preEventProcessing (st : TimeTracker) (sid : ℕ) (now : ℤ) (e : EventID) : TimeTracker :=
  let d := st.data (scheduleKey sid)
  { st with
    data := Function.update st.data (scheduleKey sid) { d with eventStart := now }
    assertionFailed := st.assertionFailed || d.eventID ≠ e }

/-- The event of the callback is not looked at. -/
def postEventProcessing (st : TimeTracker) (sid : ℕ) (now : ℤ) (_ : EventID) : TimeTracker :=
  let d := st.data (scheduleKey sid)
  { st with tables := st.tables.insert ⟨[], [⟨d.eventID, now - d.eventStart⟩], []⟩ }

def startTime (st : TimeTracker) (sid : ℕ) (now : ℤ) (mc : ModuleContext) : TimeTracker :=
  let d := { st.data (moduleKey sid mc) with eventID := (st.data (scheduleKey sid)).eventID, moduleStart := now }
  { st with data := Function.update st.data (moduleKey sid mc) d }

def recordTime (st : TimeTracker) (sid : ℕ) (now : ℤ) (mc : ModuleContext) (suffix : String) : TimeTracker :=
  let d := st.data (moduleKey sid mc)
  let row : TimeModuleRow := ⟨d.eventID, mc.pathName, mc.moduleLabel, mc.moduleName ++ suffix, now - d.moduleStart⟩
  { st with tables := st.tables.insert ⟨[], [], [row]⟩ }

/-- A callback of a schedule. -/
def step (st : TimeTracker) (x : ℕ × Timed) : TimeTracker :=
  match x.2.callback with
  | .preEventReading => preEventReading cfg st x.1 x.2.now
  | .postEventReading e => postEventReading cfg st x.1 x.2.now e
  | .preEventProcessing e => preEventProcessing st x.1 x.2.now e
  | .postEventProcessing e => postEventProcessing st x.1 x.2.now e
  | .startTime mc => startTime st x.1 x.2.now mc
  | .recordTime mc suffix => recordTime st x.1 x.2.now mc suffix

/-! ### One schedule alone -/

/-- The entries of one schedule, by label. -/
abbrev View := String → PerScheduleData

def view (st : TimeTracker) (sid : ℕ) : View := fun label => st.data (sid, label)

def viewStep (v : View) (x : Timed) : View :=
  match x.callback with
  | .preEventReading => Function.update v "" { v "" with eventID := cfg.invalidEvent, eventStart := x.now }
  | .postEventReading e => Function.update v "" { v "" with eventID := e }
  | .preEventProcessing _ => Function.update v "" { v "" with eventStart := x.now }
  | .postEventProcessing _ => v
  | .startTime mc =>
    Function.update v mc.moduleLabel
      { v mc.moduleLabel with eventID := (v "").eventID, moduleStart := x.now }
  | .recordTime _ _ => v

/-- The rows that a callback inserts. -/
def rowsOf (v : View) (x : Timed) : Tables :=
  match x.callback with
  | .postEventReading e => ⟨[⟨e, cfg.sourceType, x.now - (v "").eventStart⟩], [], []⟩
  | .postEventProcessing _ => ⟨[], [⟨(v "").eventID, x.now - (v "").eventStart⟩], []⟩
  | .recordTime mc suffix =>
    let d := v mc.moduleLabel
    ⟨[], [], [⟨d.eventID, mc.pathName, mc.moduleLabel, mc.moduleName ++ suffix, x.now - d.moduleStart⟩]⟩
  | _ => Tables.empty

/-- The assertion of a callback fails. -/
def failsAssertion (v : View) (x : Timed) : Bool :=
  match x.callback with
  | .preEventProcessing e => (v "").eventID ≠ e
  | _ => false

theorem view_update (st : TimeTracker) (sid : ℕ) (label : String) (d : PerScheduleData) (tables : Tables)
    (failed : Bool) :
    view ⟨Function.update st.data (sid, label) d, tables, failed⟩ =
      Function.update (view st) sid (Function.update (view st sid) label d) := by
  funext sid' label'
  by_cases hsid : sid' = sid
  · subst hsid
    by_cases hlabel : label' = label
    · subst hlabel
      simp [view]
    · have hkey : (sid', label') ≠ (sid', label) := fun h => hlabel (Prod.mk.inj h).2
      simp [view, Function.update_of_ne hkey, Function.update_of_ne hlabel]
  · have hkey : (sid', label') ≠ (sid, label) := fun h => hsid (Prod.mk.inj h).1
    simp [view, Function.update_of_ne hkey, Function.update_of_ne hsid]

theorem view_step (st : TimeTracker) (x : ℕ × Timed) :
    view (step cfg st x) = interleave (fun _ => viewStep cfg) (view st) x := by
  obtain ⟨sid, now, callback⟩ := x
  cases callback with
  | preEventReading => exact view_update st sid "" _ _ _
  | postEventReading e => exact view_update st sid "" _ _ _
  | preEventProcessing e => exact view_update st sid "" _ _ _
  | postEventProcessing e => exact (Function.update_eq_self sid (view st)).symm
  | startTime mc => exact view_update st sid mc.moduleLabel _ _ _
  | recordTime mc suffix => exact (Function.update_eq_self sid (view st)).symm

theorem tables_step (st : TimeTracker) (x : ℕ × Timed) :
    (step cfg st x).tables = st.tables.insert (rowsOf cfg (view st x.1) x.2) := by
  obtain ⟨sid, now, callback⟩ := x
  cases callback with
  | preEventReading => exact (Tables.insert_empty _).symm
  | postEventReading e => rfl
  | preEventProcessing e => exact (Tables.insert_empty _).symm
  | postEventProcessing e => rfl
  | startTime mc => exact (Tables.insert_empty _).symm
  | recordTime mc suffix => rfl

theorem assertionFailed_step (st : TimeTracker) (x : ℕ × Timed) :
    (step cfg st x).assertionFailed = (st.assertionFailed || failsAssertion (view st x.1) x.2) := by
  obtain ⟨sid, now, callback⟩ := x
  cases callback with
  | preEventProcessing e => rfl
  | _ => exact (Bool.or_false _).symm

theorem view_run (inputs : List (ℕ × Timed)) (sid : ℕ) :
    view (run (step cfg) (init cfg) inputs) sid =
      run (viewStep cfg) (fun _ => cfg.newEntry) (inputsOf sid inputs) :=
  run_view (fun _ => viewStep cfg) (view_step cfg) (init cfg) inputs sid

end service

end TimeTracker

end ArtdaqMu2e
