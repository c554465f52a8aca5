import ArtdaqMu2e.ArtModules.FullEventTime
import ArtdaqMu2e.ArtModules.TimingRows
import Mathlib.Algebra.BigOperators.Group.List.Lemmas
import Mathlib.Algebra.GroupWithZero.Nat

/-!
# The summary at the end of a job

`postEndJob` reads the three tables back and prints a line for the whole event, one for the source, and one for each
module. The tables are kept in a file, also where no file name is configured, for the name of the application is always
part of its name, and they are emptied for a new job only if `overwrite` is set. So what is printed is about all jobs
since the last one that did (`covered`).

The tables of these jobs cover their callbacks (`Covers`): each callback that ends something has its row, and every row
is of an event that was read. This is kept by every job that has its callbacks in order, in any interleaving of its
schedules (`covers_database`), and whatever is printed follows from it (`summary_reports`).
-/

namespace ArtdaqMu2e

open Lists Query Runs

namespace TimeTracker

/-! ### What is printed -/

/-- The columns that a line of the summary is for. -/
structure ModuleID where
  path : String
  modLabel : String
  modType : String
  deriving DecidableEq, Repr

structure Statistics (V : Type*) extends ModuleID where
  min : V
  mean : V
  max : V
  median : V
  rms : V
  n : ℕ
  deriving DecidableEq, Repr

/-- What the database computes from a column of times. -/
structure Aggregates (V : Type*) where
  min : List ℤ → V
  mean : List ℤ → V
  max : List ℤ → V
  median : List ℤ → V
  rms : List ℤ → V

inductive Printout (V : Type*) where
  | noProcessedEvents
  | lines (evt : Statistics V) (modules : List (Statistics V))
  | malformed (errMsg : String)
  deriving DecidableEq, Repr

def errMsg : String :=
  "Malformed ArtdaqTimeTrackerServiceInterface database.  The TimeEvent table is empty, but\n" ++
    "the TimeModule table is not.  This can happen if an exception has\n" ++
    "been thrown from a module while processing the first event.  Any\n" ++
    "saved database file is suspect and should not be used."

section summary
variable {V : Type*} (agg : Aggregates V)

/-- The statistics of a column of a table. -/
def statistics (id : ModuleID) (column : List ℤ) : Statistics V :=
  ⟨id, agg.min column, agg.mean column, agg.max column, agg.median column, agg.rms column, column.length⟩

/-- The statistics of nothing. -/
def noStatistics [IntCast V] : Statistics V :=
  ⟨⟨"", "", ""⟩, (-1 : ℤ), (-1 : ℤ), (-1 : ℤ), (-1 : ℤ), (-1 : ℤ), 0⟩

def logToDestination (evt : Statistics V) (modules : List (Statistics V)) : Printout V :=
  if evt.n = 0 then .noProcessedEvents else .lines evt modules

def moduleID (row : TimeModuleRow) : ModuleID := ⟨row.path, row.moduleLabel, row.moduleType⟩

/-- `SELECT DISTINCT Path,ModuleLabel,ModuleType`. -/
def selectModuleIDs (tables : Tables) : List ModuleID := (tables.timeModule.map moduleID).dedup

/-- The line of a module. -/
def moduleLine (tables : Tables) (id : ModuleID) : Statistics V :=
  statistics agg id ((tables.timeModule.filter (moduleID · = id)).map (·.time))

/-- What `postEndJob` logs. -/
def summary [IntCast V] (sourceType : String) (printSummary : Bool) (tables : Tables) : Option (Printout V) :=
  if printSummary = false then none
  else
    let nEventRows := tables.timeEvent.length
    let nModuleRows := tables.timeModule.length
    if nEventRows = 0 ∧ nModuleRows = 0 then some (logToDestination noStatistics [])
    else if nEventRows = 0 ∧ nModuleRows ≠ 0 then some (.malformed errMsg)
    else
      let evtStats := statistics agg ⟨"Full event", "", ""⟩ ((fullEventTime tables).map (·.2))
      let source := statistics agg ⟨"source", sourceType ++ "(read)", ""⟩ (tables.timeSource.map (·.time))
      some (logToDestination evtStats (source :: (selectModuleIDs tables).map (moduleLine agg tables)))

end summary

/-! ### Jobs with one database -/

structure Job where
  cfg : TrackerConfig
  overwrite : Bool
  printSummary : Bool
  callbacks : List (ℕ × Timed)

/-- The tables as a job finds them: `overwrite` empties those of earlier jobs. -/
def openTables (overwrite : Bool) (tables : Tables) : Tables := if overwrite then Tables.empty else tables

/-- The tables at the end of a job. -/
def runJob (tables : Tables) (job : Job) : Tables :=
  (run (step job.cfg) { init job.cfg with tables := openTables job.overwrite tables } job.callbacks).tables

def database (jobs : List Job) : Tables := run runJob Tables.empty jobs

/-- The callbacks of the jobs since the last one that emptied the tables. -/
def covered (jobs : List Job) : List Callback :=
  run (fun callbacks job => (if job.overwrite then [] else callbacks) ++ job.callbacks.map (·.2.callback)) [] jobs

theorem Tables.insert_assoc (tables rows rows' : Tables) :
    (tables.insert rows).insert rows' = tables.insert (rows.insert rows') := by
  simp [Tables.insert]

theorem step_behind (cfg : TrackerConfig) (tables : Tables) (st : TimeTracker) (x : ℕ × Timed) :
    step cfg { st with tables := tables.insert st.tables } x =
      { step cfg st x with tables := tables.insert (step cfg st x).tables } := by
  obtain ⟨sid, now, callback⟩ := x
  cases callback with
  | postEventReading e => simp [step, postEventReading, Tables.insert_assoc]
  | postEventProcessing e => simp [step, postEventProcessing, Tables.insert_assoc]
  | recordTime mc suffix => simp [step, recordTime, Tables.insert_assoc]
  | _ => rfl

theorem runJob_eq (tables : Tables) (job : Job) :
    runJob tables job = (openTables job.overwrite tables).insert (after job.cfg job.callbacks).tables := by
  let behind (st : TimeTracker) : TimeTracker :=
    { st with tables := (openTables job.overwrite tables).insert st.tables }
  have hinit : { init job.cfg with tables := openTables job.overwrite tables } = behind (init job.cfg) := by
    simp [behind, init]
  have hbehind : run (step job.cfg) (behind (init job.cfg)) job.callbacks = behind (after job.cfg job.callbacks) :=
    List.foldl_hom behind (fun st x => step_behind job.cfg _ st x)
  rw [runJob, hinit, hbehind]

/-! ### What the tables cover -/

def recordedModule : Callback → Option ModuleID
  | .recordTime mc suffix => some ⟨mc.pathName, mc.moduleLabel, mc.moduleName ++ suffix⟩
  | _ => none

/-- Each callback that ends something has its row, and every row is of an event that was read. -/
structure Covers (tables : Tables) (callbacks : List Callback) : Prop where
  timeSource : tables.timeSource.map (·.eventID) = callbacks.filterMap readEvent
  timeEvent : tables.timeEvent.length = (callbacks.filterMap processedEvent).length
  timeModule : tables.timeModule.map moduleID = callbacks.filterMap recordedModule
  events : ∀ row ∈ tables.timeEvent, row.eventID ∈ callbacks.filterMap readEvent
  modules : ∀ row ∈ tables.timeModule, row.eventID ∈ callbacks.filterMap readEvent

theorem covers_empty : Covers Tables.empty [] := ⟨rfl, rfl, rfl, by simp [Tables.empty], by simp [Tables.empty]⟩

theorem Covers.insert {tables rows : Tables} {callbacks callbacks' : List Callback} (h : Covers tables callbacks)
    (h' : Covers rows callbacks') : Covers (tables.insert rows) (callbacks ++ callbacks') := by
  refine ⟨?_, ?_, ?_, fun row hrow => ?_, fun row hrow => ?_⟩
  · simp [Tables.insert, h.timeSource, h'.timeSource]
  · simp [Tables.insert, h.timeEvent, h'.timeEvent]
  · simp [Tables.insert, h.timeModule, h'.timeModule]
  · rw [List.filterMap_append]
    exact List.mem_append.mpr ((List.mem_append.mp hrow).imp (h.events row) (h'.events row))
  · rw [List.filterMap_append]
    exact List.mem_append.mpr ((List.mem_append.mp hrow).imp (h.modules row) (h'.modules row))

theorem mem_readEvents {before : List (ℕ × Timed)} {sid : ℕ} {read : ℤ} {e : EventID}
    (h : LastOf Callback.OfReading (inputsOf sid before) read (.postEventReading e)) :
    e ∈ (before.map (·.2.callback)).filterMap readEvent := by
  obtain ⟨earlier, later, hsplit, -, -⟩ := h
  have hmem : ⟨read, .postEventReading e⟩ ∈ inputsOf sid before := by
    rw [hsplit]
    exact List.mem_append_right _ List.mem_cons_self
  obtain ⟨x, hx, hread⟩ := List.mem_map.mp hmem
  refine List.mem_filterMap.mpr ⟨x.2.callback, List.mem_map_of_mem (List.mem_of_mem_filter hx), ?_⟩
  rw [hread]
  rfl

theorem Inserts.moduleIDs {cfg : TrackerConfig} {past : List Timed} {x : Timed} {rows : Tables}
    (h : Inserts cfg past x rows) : rows.timeModule.map moduleID = (recordedModule x.callback).toList := by
  cases h <;> rfl

theorem Inserts.ofRead {cfg : TrackerConfig} {before : List (ℕ × Timed)} {x : ℕ × Timed} {rows : Tables}
    (h : Inserts cfg (inputsOf x.1 before) x.2 rows) :
    (∀ row ∈ rows.timeEvent, row.eventID ∈ (before.map (·.2.callback)).filterMap readEvent) ∧
      ∀ row ∈ rows.timeModule, row.eventID ∈ (before.map (·.2.callback)).filterMap readEvent := by
  generalize x.2 = timed at h
  cases h with
  | postEventProcessing now e hevent hstart =>
    refine ⟨fun row hrow => ?_, by simp⟩
    rw [List.mem_singleton.mp hrow]
    exact mem_readEvents hevent
  | recordTime now mc suffix hevent hstart =>
    refine ⟨by simp, fun row hrow => ?_⟩
    rw [List.mem_singleton.mp hrow]
    exact mem_readEvents hevent
  | _ => simp [Tables.empty]

theorem Inserts.covers {cfg : TrackerConfig} {before : List (ℕ × Timed)} {x : ℕ × Timed} {tables rows : Tables}
    (h : Inserts cfg (inputsOf x.1 before) x.2 rows) (hcovers : Covers tables (before.map (·.2.callback))) :
    Covers (tables.insert rows) ((before ++ [x]).map (·.2.callback)) := by
  obtain ⟨hsource, hevent, -⟩ := h.once
  obtain ⟨hevents, hmodules⟩ := h.ofRead
  have hread : ∀ e ∈ (before.map (·.2.callback)).filterMap readEvent,
      e ∈ ((before ++ [x]).map (·.2.callback)).filterMap readEvent := by
    intro e he
    rw [List.map_append, List.filterMap_append]
    exact List.mem_append_left _ he
  refine ⟨?_, ?_, ?_, fun row hrow => hread _ ?_, fun row hrow => hread _ ?_⟩
  · rw [List.map_append, List.map_singleton, filterMap_concat, ← hcovers.timeSource, ← hsource]
    exact List.map_append
  · rw [List.map_append, List.map_singleton, filterMap_concat, List.length_append, ← hcovers.timeEvent, ← hevent,
      List.length_map]
    exact List.length_append
  · rw [List.map_append, List.map_singleton, filterMap_concat, ← hcovers.timeModule, ← h.moduleIDs]
    exact List.map_append
  · exact (List.mem_append.mp hrow).elim (hcovers.events row) (hevents row)
  · exact (List.mem_append.mp hrow).elim (hcovers.modules row) (hmodules row)

theorem covers_after (cfg : TrackerConfig) {inputs : List (ℕ × Timed)} (h : InOrder inputs) :
    Covers (after cfg inputs).tables (inputs.map (·.2.callback)) := by
  induction inputs using List.reverseRecOn with
  | nil => exact covers_empty
  | append_singleton before x ih =>
    rw [after_concat, tables_step]
    exact (h.inserts cfg).1.covers (ih h.of_append)

theorem Covers.runJob {tables : Tables} {callbacks : List Callback} (h : Covers tables callbacks) {job : Job}
    (horder : InOrder job.callbacks) :
    Covers (runJob tables job) ((if job.overwrite then [] else callbacks) ++ job.callbacks.map (·.2.callback)) := by
  rw [runJob_eq, openTables]
  refine Covers.insert ?_ (covers_after job.cfg horder)
  split_ifs
  · exact covers_empty
  · exact h

/-- The tables cover the callbacks of all jobs since they were emptied. -/
theorem covers_database {jobs : List Job} (h : ∀ job ∈ jobs, InOrder job.callbacks) :
    Covers (database jobs) (covered jobs) := by
  induction jobs using List.reverseRecOn with
  | nil => exact covers_empty
  | append_singleton jobs job ih =>
    rw [database, covered, run_append, run_append]
    exact (ih fun earlier hearlier => h earlier (List.mem_append_left _ hearlier)).runJob (h job (by simp))

/-! ### What a summary reports -/

/-- The summary says what the callbacks did. -/
def Reports {V : Type*} (callbacks : List Callback) : Printout V → Prop
  | .noProcessedEvents => callbacks.filterMap processedEvent = [] ∧ callbacks.filterMap recordedModule = []
  | .malformed _ => callbacks.filterMap processedEvent = [] ∧ callbacks.filterMap recordedModule ≠ []
  | .lines evt modules =>
    callbacks.filterMap processedEvent ≠ [] ∧
    evt.n = (callbacks.filterMap readEvent).toFinset.card ∧
    ∃ source lines, modules = source :: lines ∧ source.n = (callbacks.filterMap readEvent).length ∧
      (lines.map Statistics.toModuleID).Nodup ∧
      (∀ id, id ∈ lines.map Statistics.toModuleID ↔ id ∈ callbacks.filterMap recordedModule) ∧
      (∀ line ∈ lines, line.n = (callbacks.filterMap recordedModule).count line.toModuleID) ∧
      (lines.map (·.n)).sum = (callbacks.filterMap recordedModule).length

section reports
variable {V : Type*} (agg : Aggregates V) {tables : Tables} {callbacks : List Callback}

theorem Covers.timeModule_eq_nil (h : Covers tables callbacks) :
    tables.timeModule.length = 0 ↔ callbacks.filterMap recordedModule = [] := by
  rw [← h.timeModule, List.length_eq_zero_iff, List.map_eq_nil_iff]

theorem Covers.timeEvent_eq_nil (h : Covers tables callbacks) :
    tables.timeEvent.length = 0 ↔ callbacks.filterMap processedEvent = [] := by
  rw [h.timeEvent, List.length_eq_zero_iff]

theorem Covers.length_fullEventTime (h : Covers tables callbacks) :
    (fullEventTime tables).length = (callbacks.filterMap readEvent).toFinset.card := by
  have hids : ∀ e,
      e ∈ (union (union (selectEvent tables) (selectModule tables)) (selectSource tables)).map (·.eventID) ↔
        e ∈ callbacks.filterMap readEvent := by
    intro e
    rw [List.mem_map]
    constructor
    · rintro ⟨part, hpart, rfl⟩
      rw [mem_union, mem_union] at hpart
      rcases hpart with (hpart | hpart) | hpart
      · obtain ⟨row, hrow, rfl⟩ := List.mem_map.mp hpart
        exact h.events row hrow
      · obtain ⟨row, hrow, rfl⟩ := List.mem_map.mp hpart
        exact h.modules row (List.mem_of_mem_filter hrow)
      · obtain ⟨row, hrow, rfl⟩ := List.mem_map.mp hpart
        rw [← h.timeSource]
        exact List.mem_map_of_mem hrow
    · intro he
      rw [← h.timeSource] at he
      obtain ⟨row, hrow, rfl⟩ := List.mem_map.mp he
      exact ⟨_, mem_union.mpr (Or.inr (List.mem_map_of_mem hrow)), rfl⟩
  rw [fullEventTime, length_groupSum]
  congr 1
  ext e
  rw [List.mem_toFinset, List.mem_toFinset, hids]

theorem n_moduleLine (id : ModuleID) : (moduleLine agg tables id).n = (tables.timeModule.map moduleID).count id := by
  rw [List.count_eq_countP, List.countP_map, List.countP_eq_length_filter]
  exact List.length_map _

theorem Covers.reports_lines (h : Covers tables callbacks) (hevents : callbacks.filterMap processedEvent ≠ [])
    (sourceType : String) :
    Reports callbacks (.lines (statistics agg ⟨"Full event", "", ""⟩ ((fullEventTime tables).map (·.2)))
      (statistics agg ⟨"source", sourceType ++ "(read)", ""⟩ (tables.timeSource.map (·.time)) ::
        (selectModuleIDs tables).map (moduleLine agg tables))) := by
  have hids : ((selectModuleIDs tables).map (moduleLine agg tables)).map Statistics.toModuleID =
      (callbacks.filterMap recordedModule).dedup := by
    rw [List.map_map, selectModuleIDs, h.timeModule]
    exact List.map_id _
  refine ⟨hevents, ?_, _, _, rfl, ?_, ?_, fun id => ?_, fun line hline => ?_, ?_⟩
  · rw [← h.length_fullEventTime]
    exact List.length_map _
  · rw [← h.timeSource, List.length_map]
    exact List.length_map _
  · rw [hids]
    exact List.nodup_dedup _
  · rw [hids, List.mem_dedup]
  · obtain ⟨id, -, rfl⟩ := List.mem_map.mp hline
    rw [n_moduleLine, h.timeModule]
    rfl
  · rw [List.map_map, selectModuleIDs, ← h.timeModule, ← List.sum_map_count_dedup_eq_length]
    exact congrArg List.sum (List.map_congr_left fun id _ => n_moduleLine agg id)

theorem Covers.reports_of_summary [IntCast V] (h : Covers tables callbacks) {sourceType : String} {printSummary : Bool}
    {printout : Printout V} (hsummary : summary agg sourceType printSummary tables = some printout) :
    Reports callbacks printout := by
  simp only [summary] at hsummary
  split_ifs at hsummary with hprint hnothing hmalformed
  · rw [← Option.some.inj hsummary]
    exact ⟨h.timeEvent_eq_nil.mp hnothing.1, h.timeModule_eq_nil.mp hnothing.2⟩
  · rw [← Option.some.inj hsummary]
    exact ⟨h.timeEvent_eq_nil.mp hmalformed.1, fun hnone => hmalformed.2 (h.timeModule_eq_nil.mpr hnone)⟩
  · have hevents : tables.timeEvent.length ≠ 0 := fun hnone =>
      (em (tables.timeModule.length = 0)).elim (fun hmodule => hnothing ⟨hnone, hmodule⟩)
        (fun hmodule => hmalformed ⟨hnone, hmodule⟩)
    have hlines := h.reports_lines agg (fun hnone => hevents (h.timeEvent_eq_nil.mpr hnone)) sourceType
    obtain ⟨row, hrow⟩ := List.exists_mem_of_length_pos (Nat.pos_of_ne_zero hevents)
    have hn := Finset.card_ne_zero_of_mem (List.mem_toFinset.mpr (h.events row hrow))
    rw [← hlines.2.1] at hn
    rw [← Option.some.inj hsummary, logToDestination, if_neg hn]
    exact hlines

end reports

/-- **What is printed at the end of a job reports on all jobs since the tables were emptied**, whatever schedules they
had and however these were interleaved: a line for each module that was recorded, with how often, and the whole event
with the number of events read, where an event that was read in several jobs counts once. -/
theorem summary_reports {V : Type*} [IntCast V] (agg : Aggregates V) {jobs : List Job} {job : Job}
    (horder : ∀ ended ∈ jobs ++ [job], InOrder ended.callbacks) {printout : Printout V}
    (hprintout : summary agg job.cfg.sourceType job.printSummary (database (jobs ++ [job])) = some printout) :
    Reports (covered (jobs ++ [job])) printout :=
  (covers_database horder).reports_of_summary agg hprintout

/-- What the database computes from a column of equal times. -/
def equalColumn : Aggregates ℤ := ⟨(·.headD 0), (·.headD 0), (·.headD 0), (·.headD 0), fun _ => 0⟩

/-- A job with one event and one module. -/
def oneEventJob : Job where
  cfg := trackerConfig
  overwrite := false
  printSummary := true
  callbacks := [(0, ⟨1, .preEventReading⟩), (0, ⟨5, .postEventReading ⟨1, 1, 7⟩⟩),
    (0, ⟨6, .preEventProcessing ⟨1, 1, 7⟩⟩), (0, ⟨7, .startTime recoModule⟩), (0, ⟨12, .recordTime recoModule ""⟩),
    (0, ⟨13, .postEventProcessing ⟨1, 1, 7⟩⟩)]

theorem oneEventJob_inOrder : InOrder oneEventJob.callbacks := by
  intro sid
  by_cases hzero : sid = 0
  · subst hzero
    decide
  have hnone : inputsOf sid oneEventJob.callbacks = [] := by
    simp [inputsOf, oneEventJob, Ne.symm hzero]
  rw [hnone]
  decide

/-- The second of two jobs with the same event prints what was read and recorded in both. -/
def bothJobs : Printout ℤ :=
  .lines ⟨⟨"Full event", "", ""⟩, 11, 11, 11, 11, 0, 1⟩
    [⟨⟨"source", "ArtdaqInput(read)", ""⟩, 4, 4, 4, 4, 0, 2⟩, ⟨⟨"reco", "hits", "HitMaker"⟩, 5, 5, 5, 5, 0, 2⟩]

theorem summary_reports_bothJobs :
    summary equalColumn "ArtdaqInput" true (database [oneEventJob, oneEventJob]) = some bothJobs ∧
      Reports (covered [oneEventJob, oneEventJob]) bothJobs := by
  have hprintout : summary equalColumn "ArtdaqInput" true (database [oneEventJob, oneEventJob]) = some bothJobs := by
    decide
  have horder : ∀ ended ∈ [oneEventJob] ++ [oneEventJob], InOrder ended.callbacks := by
    intro ended hended
    obtain rfl : ended = oneEventJob := by simpa using hended
    exact oneEventJob_inOrder
  exact ⟨hprintout, summary_reports equalColumn horder hprintout⟩

end TimeTracker

end ArtdaqMu2e
