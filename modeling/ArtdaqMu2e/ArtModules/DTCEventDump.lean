import ArtdaqMu2e.ArtModules.FragmentCollection
import ArtdaqMu2e.Data.RawFile
import ArtdaqMu2e.Lib.Files

/-!
# Dumping events to a file

`DTCEventDump` opens its file at the beginning of a job and closes it at the end. For each art event it collects the
fragments, and has the DTC library write the event in each of them, in the format of the detector emulator if it is
configured so. An exception while the fragments are collected ends the job.

A job on handles of one kind is one session on its file, in which the events of all wanted fragments are written
(`job_eq`).
-/

namespace ArtdaqMu2e

/-- The parameters `raw_output_file` and `raw_output_in_detector_emulator_format`. -/
structure DumpConfig where
  binaryFileName : String
  detemuFormat : Bool

/-- One job: the time of its beginning, and the fragment handles of each event. -/
structure DumpJob where
  time : ℕ
  events : List (List FragmentHandle)

namespace DTCEventDump

variable {ε : Type*} {w : ℕ} {header : HeaderLayout w} (layout : FragmentLayout) (L : EventLibrary ε header)
  (cfg : DumpConfig)

def beginJob (time : ℕ) (s : FileStream String Byte) : FileStream String Byte :=
  s.openAppend (rawFileName cfg.binaryFileName time)

/-- `none` if an exception is thrown. -/
def analyze (s : FileStream String Byte) (handles : List FragmentHandle) : Option (FileStream String Byte) :=
  (fragments layout handles).map fun frags =>
    frags.foldl (fun s frag => if s.failed then s else s.write (L.writeEvent cfg.detemuFormat (L.getData frag))) s

def endJob (s : FileStream String Byte) : FileStream String Byte := s.close

def runJob (job : DumpJob) (s : FileStream String Byte) : Option (FileStream String Byte) :=
  (job.events.foldlM (analyze layout L cfg) (beginJob cfg job.time s)).map endJob

/-- What is written of the event in a fragment. -/
def eventBytes (frag : Fragment) : List Byte := L.writeEvent cfg.detemuFormat (L.getData frag)

section job
variable {layout}

theorem analyze_writing (files : String → List Byte) (name : String) {handles : List FragmentHandle}
    (hkind : ∀ handle ∈ handles, OneKind layout handle) :
    analyze layout L cfg (.writing files name) handles =
      some (((handles.flatMap (wantedOf layout)).map (eventBytes L cfg)).foldl FileStream.write
        (.writing files name)) := by
  rw [analyze, fragments, collectFragments_eq_wanted hkind, Option.map_some, List.foldl_map]
  congr 1
  generalize handles.flatMap (wantedOf layout) = frags
  induction frags generalizing files with
  | nil => rfl
  | cons frag frags ih => exact ih _

theorem foldlM_analyze_writing (files : String → List Byte) (name : String) {events : List (List FragmentHandle)}
    (hkind : ∀ handles ∈ events, ∀ handle ∈ handles, OneKind layout handle) :
    events.foldlM (analyze layout L cfg) (.writing files name) =
      some (((events.flatMap (·.flatMap (wantedOf layout))).map (eventBytes L cfg)).foldl
        FileStream.write (.writing files name)) := by
  induction events generalizing files with
  | nil => rfl
  | cons handles events ih =>
    obtain ⟨hhandles, hevents⟩ := List.forall_mem_cons.mp hkind
    rw [List.foldlM_cons, analyze_writing L cfg files name hhandles, List.flatMap_cons,
      List.map_append, List.foldl_append, FileStream.foldl_write_writing]
    exact ih _ hevents

theorem job_eq {s : FileStream String Byte} (hclosed : s.target = none) {job : DumpJob}
    (hkind : ∀ handles ∈ job.events, ∀ handle ∈ handles, OneKind layout handle) :
    runJob layout L cfg job s =
      some (s.session (rawFileName cfg.binaryFileName job.time,
        (job.events.flatMap (·.flatMap (wantedOf layout))).map (eventBytes L cfg))) := by
  rw [runJob, beginJob, FileStream.openAppend_of_closed hclosed,
    foldlM_analyze_writing L cfg s.files _ hkind, Option.map_some]
  congr 1
  rw [FileStream.session, FileStream.openAppend_of_closed hclosed]
  rfl

/-- The job gets the fragments: its handles are of one kind, and in them is what is wanted of the fragments. -/
structure Gets (layout : FragmentLayout) (job : DumpJob) (frags : List Fragment) : Prop where
  oneKind : ∀ handles ∈ job.events, ∀ handle ∈ handles, OneKind layout handle
  wanted : job.events.flatMap (·.flatMap (wantedOf layout)) = frags.flatMap (wanted layout)

theorem oneKind_singleton {frag : Fragment} (hnone : frag.asContainer = none) (htype : frag.type ≠ .container) :
    OneKind layout (some [frag]) := by
  rw [OneKind, if_neg htype]
  split
  · next hdtc => exact List.forall_mem_singleton.mpr ⟨hnone, hdtc⟩
  · next hdtc =>
    rw [wantedOf, List.flatMap_singleton, wanted_of_asContainer_none hnone, if_neg hdtc]

theorem gets_singletons (time : ℕ) {frags : List Fragment} (h : ∀ frag ∈ frags, OneKind layout (some [frag])) :
    Gets layout ⟨time, frags.map fun frag => [some [frag]]⟩ frags where
  oneKind := by
    intro handles hhandles handle hhandle
    obtain ⟨frag, hfrag, rfl⟩ := List.mem_map.mp hhandles
    rw [List.mem_singleton.mp hhandle]
    exact h frag hfrag
  wanted := by
    rw [List.flatMap_map]
    simp [wantedOf]

theorem files_runJob {s : FileStream String Byte} (hclosed : s.target = none) {job : DumpJob} {frags : List Fragment}
    (hgets : Gets layout job frags) :
    ∃ s', runJob layout L cfg job s = some s' ∧ s'.target = none ∧
      s'.files = Function.update s.files (rawFileName cfg.binaryFileName job.time)
        (s.files (rawFileName cfg.binaryFileName job.time) ++
          (frags.flatMap (wanted layout)).flatMap (eventBytes L cfg)) := by
  refine ⟨_, job_eq L cfg hclosed hgets.oneKind, ?_⟩
  rw [hgets.wanted, FileStream.session_eq hclosed, ← List.flatMap_def]
  exact ⟨rfl, rfl⟩

end job

end DTCEventDump

end ArtdaqMu2e
