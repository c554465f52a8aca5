import ArtdaqMu2e.ArtModules.TimeTracker
import ArtdaqMu2e.Lib.Query
import Mathlib.Algebra.Order.Group.Int

/-!
# The full event time

At the end of a job the time tracker adds up what each event took: its row in the event table, and the times of the
source and of writing the output, which "must be added in". The rows of the three tables are taken together with
`UNION`, which keeps one of several equal rows. So two times of an event that are the same to the tick, say of two
outputs, count once, and the sum is right exactly if the repeats of every event add up to nothing
(`fullEventTime_iff`).
-/

namespace ArtdaqMu2e

open Query

namespace TimeTracker

/-- A row of `SELECT Run,Subrun,Event,Time`. -/
structure EventTime where
  eventID : EventID
  time : ℤ
  deriving DecidableEq, Repr

/-- `ModuleType LIKE '%(write)'`, which does not tell upper case letters from lower case ones. -/
def likeWrite (row : TimeModuleRow) : Bool :=
  "(write)".toList.isSuffixOf (row.moduleType.toList.map Char.toLower)

def selectEvent (tables : Tables) : List EventTime := tables.timeEvent.map fun row => ⟨row.eventID, row.time⟩

def selectModule (tables : Tables) : List EventTime :=
  (tables.timeModule.filter likeWrite).map fun row => ⟨row.eventID, row.time⟩

def selectSource (tables : Tables) : List EventTime := tables.timeSource.map fun row => ⟨row.eventID, row.time⟩

/-- The table `temp.fullEventTime`. -/
def fullEventTime (tables : Tables) : List (EventID × ℤ) :=
  groupSum EventTime.eventID EventTime.time (union (union (selectEvent tables) (selectModule tables)) (selectSource tables))

/-- The table that `postEndJob` builds, if it gets that far. -/
def postEndJob (printSummary : Bool) (tables : Tables) : Option (List (EventID × ℤ)) :=
  if printSummary = false then none
  else
    let nEventRows := tables.timeEvent.length
    let nModuleRows := tables.timeModule.length
    if nEventRows = 0 ∧ nModuleRows = 0 then none
    else if nEventRows = 0 ∧ nModuleRows ≠ 0 then none
    else some (fullEventTime tables)

/-! ### The sum of all parts -/

/-- Everything that an event took, each row once. -/
def parts (tables : Tables) : List EventTime := selectEvent tables ++ selectModule tables ++ selectSource tables

/-- The sum of the rows of an event. -/
abbrev fullTime (rows : List EventTime) (id : EventID) : ℤ := sumAt EventTime.eventID EventTime.time rows id

/-- Every event has one row, with the sum of all its parts. -/
def SumsAllParts (tables : Tables) (table : List (EventID × ℤ)) : Prop :=
  ∀ id ∈ (parts tables).map (·.eventID), table.filter (·.1 = id) = [(id, fullTime (parts tables) id)]

section sum
variable (tables : Tables)

theorem mem_unions {row : EventTime} :
    row ∈ union (union (selectEvent tables) (selectModule tables)) (selectSource tables) ↔ row ∈ parts tables := by
  rw [mem_union, mem_union, parts, List.mem_append, List.mem_append]

theorem filter_fullEventTime {id : EventID} (hid : id ∈ (parts tables).map (·.eventID)) :
    (fullEventTime tables).filter (·.1 = id) = [(id, fullTime (parts tables).dedup id)] := by
  obtain ⟨row, hrow, rfl⟩ := List.mem_map.mp hid
  rw [fullEventTime,
    filter_groupSum EventTime.eventID EventTime.time (List.mem_map_of_mem ((mem_unions tables).mpr hrow))]
  congr 2
  refine sumAt_of_nodup EventTime.eventID EventTime.time (nodup_union _ _) (List.nodup_dedup _) (fun row => ?_) _
  rw [mem_unions, List.mem_dedup]

theorem fullTime_parts (id : EventID) :
    fullTime (parts tables) id = fullTime (parts tables).dedup id + fullTime (repeats (parts tables)) id :=
  sumAt_eq_dedup_add_repeats _ _ _ _

theorem sumsAllParts_iff :
    SumsAllParts tables (fullEventTime tables) ↔ ∀ id, fullTime (repeats (parts tables)) id = 0 := by
  constructor
  · intro h id
    by_cases hid : id ∈ (parts tables).map (·.eventID)
    · have hsame := (filter_fullEventTime tables hid).symm.trans (h id hid)
      have hsum : fullTime (parts tables).dedup id = fullTime (parts tables) id :=
        (Prod.mk.inj (List.singleton_inj.mp hsame)).2
      rw [fullTime_parts] at hsum
      exact left_eq_add.mp hsum
    · have hnone : (repeats (parts tables)).filter (·.eventID = id) = [] := by
        rw [List.filter_eq_nil_iff]
        intro row hrow hkey
        exact hid (List.mem_map.mpr ⟨row, mem_of_mem_repeats hrow, by simpa using hkey⟩)
      rw [fullTime, sumAt, hnone]
      rfl
  · intro h id hid
    rw [filter_fullEventTime tables hid, fullTime_parts, h id, add_zero]

/-- **The full event time is the sum of all parts** exactly if no summary is asked for, there are no event rows, or
the repeats of every event add up to nothing. -/
theorem fullEventTime_iff (printSummary : Bool) :
    (∀ table, postEndJob printSummary tables = some table → SumsAllParts tables table) ↔
      printSummary = false ∨ tables.timeEvent = [] ∨
        ∀ id, fullTime (repeats (parts tables)) id = 0 := by
  rw [← sumsAllParts_iff]
  by_cases hprint : printSummary = false
  · simp [postEndJob, hprint]
  by_cases hevents : tables.timeEvent = []
  · by_cases hmodules : tables.timeModule = [] <;> simp [postEndJob, hevents, hmodules]
  · have hsome : postEndJob printSummary tables = some (fullEventTime tables) := by
      simp [postEndJob, hprint, hevents]
    rw [hsome]
    simp [hprint, hevents]

/-- With times that are not negative, as those of a clock, that is so exactly if only times of zero repeat. -/
theorem sumsAllParts_iff_of_nonneg (h : ∀ row ∈ parts tables, 0 ≤ row.time) :
    SumsAllParts tables (fullEventTime tables) ↔ ∀ row : EventTime, 2 ≤ (parts tables).count row → row.time = 0 := by
  rw [sumsAllParts_iff, sumAt_eq_zero_iff fun row hrow => h row (mem_of_mem_repeats hrow)]
  simp only [mem_repeats_iff]

end sum

/-- An event that took as long to read as to process. -/
def equalTimes : Tables := ⟨[⟨⟨1, 1, 1⟩, "ArtdaqInput", 5⟩], [⟨⟨1, 1, 1⟩, 5⟩], []⟩

/-- 5 ticks to read and 5 to process are 5 in all. -/
theorem fullEventTime_drops_equal_times :
    postEndJob true equalTimes = some [(⟨1, 1, 1⟩, 5)] ∧ fullTime (parts equalTimes) ⟨1, 1, 1⟩ = 10 ∧
      ¬ ∀ table, postEndJob true equalTimes = some table → SumsAllParts equalTimes table := by
  refine ⟨by decide, by decide, fun h => ?_⟩
  have hsum := h [(⟨1, 1, 1⟩, 5)] (by decide) ⟨1, 1, 1⟩ (by decide)
  revert hsum
  decide

end TimeTracker

end ArtdaqMu2e
