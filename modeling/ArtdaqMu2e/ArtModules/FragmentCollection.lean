import ArtdaqMu2e.Data.Fragment

/-!
# Collecting the fragments of an event

`DTCEventDump::analyze` and `DTCEventVerifier::filter` begin with the same loop over the fragment handles of an
event. The first fragment of a handle decides how the handle is read: as containers, which are unpacked until one
has another type inside, or as `DTCEVT` fragments.

What they look for is `wanted`: the `DTCEVT` fragments, and the blocks of the containers with `DTCEVT` inside. The
loop gets all of them and nothing else out of a handle exactly if the first fragment speaks for the whole handle
(`collectHandle_eq_wanted_iff`).
-/

namespace ArtdaqMu2e

/-- An `art::Handle<artdaq::Fragments>`; `none` if it is not valid. -/
abbrev FragmentHandle := Option (List Fragment)

/-- The loop over the containers of a handle. `ContainerFragment` throws on anything else. -/
def collectContainers (layout : FragmentLayout) : List Fragment → Option (List Fragment)
  | [] => some []
  | cont :: conts =>
    match cont.asContainer with
    | none => none
    | some contf =>
      if contf.fragmentType ≠ .DTCEVT then some []
      else (collectContainers layout conts).map (contf.unpack layout ++ ·)

def collectHandle (layout : FragmentLayout) : FragmentHandle → Option (List Fragment)
  | none => some []
  | some [] => some []
  | some (front :: rest) =>
    if front.type = .container then collectContainers layout (front :: rest)
    else if front.type = .DTCEVT then some (front :: rest)
    else some []

def collectFragments (layout : FragmentLayout) : List FragmentHandle → Option (List Fragment)
  | [] => some []
  | handle :: handles =>
    match collectHandle layout handle with
    | none => none
    | some fragments => (collectFragments layout handles).map (fragments ++ ·)

/-- `fragments` in `DTCEventDump::analyze`. -/
def DTCEventDump.fragments (layout : FragmentLayout) (handles : List FragmentHandle) : Option (List Fragment) :=
  collectFragments layout handles

/-- `fragments` in `DTCEventVerifier::filter`. -/
def DTCEventVerifier.fragments (layout : FragmentLayout) (handles : List FragmentHandle) :
    Option (List Fragment) :=
  collectFragments layout handles

theorem collectFragments_container (layout : FragmentLayout) {frag : Fragment} {c : Container}
    (htype : frag.type = .container) (hbody : frag.body = .container c) (hinner : c.fragmentType = .DTCEVT) :
    collectFragments layout [some [frag]] = some (c.unpack layout) := by
  have hcont : frag.asContainer = some c := by rw [Fragment.asContainer, hbody]
  simp [collectFragments, collectHandle, collectContainers, htype, hcont, hinner]

/-! ### What the modules look for -/

/-- A container with `DTCEVT` inside stands for its blocks, and any other fragment of type `DTCEVT` for itself. -/
def wanted (layout : FragmentLayout) (frag : Fragment) : List Fragment :=
  match frag.asContainer with
  | some c => if c.fragmentType = .DTCEVT then c.unpack layout else []
  | none => if frag.type = .DTCEVT then [frag] else []

def wantedOf (layout : FragmentLayout) : FragmentHandle → List Fragment
  | none => []
  | some frags => frags.flatMap (wanted layout)

/-- Containers with `DTCEVT` inside up to the first one with another type, and nothing wanted after that. -/
def ContainersFirst (layout : FragmentLayout) : List Fragment → Prop
  | [] => True
  | cont :: conts =>
    match cont.asContainer with
    | none => False
    | some c =>
      if c.fragmentType = .DTCEVT then ContainersFirst layout conts else conts.flatMap (wanted layout) = []

/-- The first fragment of the handle speaks for all of them: the others are containers, or `DTCEVT` fragments, or
not wanted, as it is itself. -/
def OneKind (layout : FragmentLayout) : FragmentHandle → Prop
  | none => True
  | some [] => True
  | some (front :: rest) =>
    if front.type = .container then ContainersFirst layout (front :: rest)
    else if front.type = .DTCEVT then ∀ frag ∈ front :: rest, frag.asContainer = none ∧ frag.type = .DTCEVT
    else wantedOf layout (some (front :: rest)) = []

section wanted
variable {layout : FragmentLayout}

theorem asContainer_of_mem_unpack {c : Container} {frag : Fragment} (h : frag ∈ c.unpack layout) :
    frag.asContainer = none := by
  obtain ⟨slice, -, rfl⟩ := List.mem_map.mp h
  rfl

theorem asContainer_of_mem_wanted {frag frag' : Fragment} (h : frag' ∈ wanted layout frag) :
    frag'.asContainer = none := by
  unfold wanted at h
  split at h
  · split_ifs at h
    · exact asContainer_of_mem_unpack h
    · cases h
  · rename_i hnone
    split_ifs at h
    · rw [List.mem_singleton.mp h]
      exact hnone
    · cases h

theorem wanted_of_asContainer_none {frag : Fragment} (h : frag.asContainer = none) :
    wanted layout frag = if frag.type = .DTCEVT then [frag] else [] := by
  rw [wanted, h]

theorem collectContainers_eq_wanted_iff {conts : List Fragment} :
    collectContainers layout conts = some (conts.flatMap (wanted layout)) ↔ ContainersFirst layout conts := by
  induction conts with
  | nil => exact iff_of_true rfl trivial
  | cons cont conts ih =>
    rw [collectContainers, ContainersFirst, List.flatMap_cons]
    cases hcont : cont.asContainer with
    | none => simp
    | some c =>
      by_cases htype : c.fragmentType = .DTCEVT
      · have hwanted : wanted layout cont = c.unpack layout := by simp [wanted, hcont, htype]
        simp only [htype, ne_eq, not_true_eq_false, if_false, if_true, hwanted, ← ih]
        cases collectContainers layout conts <;> simp
      · have hwanted : wanted layout cont = [] := by simp [wanted, hcont, htype]
        simp only [htype, ne_eq, not_false_eq_true, if_true, if_false, hwanted, List.nil_append,
          Option.some.injEq]
        exact eq_comm

theorem flatMap_wanted_eq_self_iff {frags : List Fragment} :
    frags.flatMap (wanted layout) = frags ↔ ∀ frag ∈ frags, frag.asContainer = none ∧ frag.type = .DTCEVT := by
  constructor
  · intro h
    have hnone : ∀ frag ∈ frags, frag.asContainer = none := by
      intro frag hfrag
      rw [← h] at hfrag
      obtain ⟨_, -, hwanted⟩ := List.mem_flatMap.mp hfrag
      exact asContainer_of_mem_wanted hwanted
    intro frag hfrag
    refine ⟨hnone frag hfrag, ?_⟩
    have hmem := hfrag
    rw [← h] at hmem
    obtain ⟨other, hother, hwanted⟩ := List.mem_flatMap.mp hmem
    rw [wanted_of_asContainer_none (hnone other hother)] at hwanted
    split_ifs at hwanted with htype
    · rw [List.mem_singleton.mp hwanted]
      exact htype
    · cases hwanted
  · intro h
    induction frags with
    | nil => rfl
    | cons frag frags ih =>
      obtain ⟨⟨hnone, htype⟩, hrest⟩ := List.forall_mem_cons.mp h
      rw [List.flatMap_cons, ih hrest, wanted_of_asContainer_none hnone, if_pos htype, List.singleton_append]

theorem collectHandle_eq_wanted_iff {handle : FragmentHandle} :
    collectHandle layout handle = some (wantedOf layout handle) ↔ OneKind layout handle := by
  match handle with
  | none => exact iff_of_true rfl trivial
  | some [] => exact iff_of_true rfl trivial
  | some (front :: rest) =>
    rw [collectHandle, OneKind]
    split_ifs
    · exact collectContainers_eq_wanted_iff
    · rw [Option.some.injEq, eq_comm]
      exact flatMap_wanted_eq_self_iff
    · rw [Option.some.injEq, eq_comm]

theorem collectFragments_eq_wanted {handles : List FragmentHandle} (h : ∀ handle ∈ handles, OneKind layout handle) :
    collectFragments layout handles = some (handles.flatMap (wantedOf layout)) := by
  induction handles with
  | nil => rfl
  | cons handle handles ih =>
    obtain ⟨hhandle, hrest⟩ := List.forall_mem_cons.mp h
    rw [collectFragments, collectHandle_eq_wanted_iff.mpr hhandle, ih hrest]
    rfl

theorem collectFragments_singleton (handle : FragmentHandle) :
    collectFragments layout [handle] = collectHandle layout handle := by
  rw [collectFragments]
  cases collectHandle layout handle <;> simp [collectFragments]

end wanted

/-- **Both modules collect what is wanted**, each fragment once and in order, from handles of one kind, and a handle
that is not of one kind is not collected right even when it is the only one. -/
theorem fragments_eq_wanted (layout : FragmentLayout) :
    (∀ handles : List FragmentHandle, (∀ handle ∈ handles, OneKind layout handle) →
        DTCEventDump.fragments layout handles = some (handles.flatMap (wantedOf layout)) ∧
          DTCEventVerifier.fragments layout handles = some (handles.flatMap (wantedOf layout))) ∧
      ∀ handle, ¬ OneKind layout handle →
        DTCEventDump.fragments layout [handle] ≠ some (wantedOf layout handle) ∧
          DTCEventVerifier.fragments layout [handle] ≠ some (wantedOf layout handle) := by
  constructor
  · intro handles hkind
    exact ⟨collectFragments_eq_wanted hkind, collectFragments_eq_wanted hkind⟩
  · intro handle hmixed
    have hne : collectFragments layout [handle] ≠ some (wantedOf layout handle) := by
      rw [collectFragments_singleton]
      exact fun h => hmixed (collectHandle_eq_wanted_iff.mp h)
    exact ⟨hne, hne⟩

def dtcFragment (sequenceID : ℕ) : Fragment := ⟨⟨sequenceID, 0, .DTCEVT, sequenceID⟩, .data [7]⟩

def stmFragment : Fragment := ⟨⟨1, 0, .STM, 1⟩, .data [9]⟩

/-- A container fragment with one `DTCEVT` block. -/
def dtcContainer : Fragment :=
  ⟨⟨1, 0, .container, 1⟩, .container (Container.new.addFragment .zeroTerminated ⟨2, 0, .DTCEVT, 2⟩ [5])⟩

theorem fragments_eq_wanted_three :
    DTCEventDump.fragments .zeroTerminated [some [dtcContainer, dtcContainer], none, some [dtcFragment 3]] =
      some ([some [dtcContainer, dtcContainer], none, some [dtcFragment 3]].flatMap (wantedOf .zeroTerminated)) := by
  refine ((fragments_eq_wanted .zeroTerminated).1 _ ?_).1
  simp only [List.forall_mem_cons]
  refine ⟨trivial, trivial, ?_, by simp⟩
  intro frag hfrag
  rw [List.mem_singleton.mp hfrag]
  exact ⟨rfl, rfl⟩

/-- The same two fragments in one handle: behind an `STM` fragment the `DTCEVT` fragment is lost, and in front of
it the `STM` fragment is let in. -/
theorem mixed_handle_not_wanted :
    DTCEventDump.fragments .zeroTerminated [some [stmFragment, dtcFragment 3]] = some [] ∧
      wantedOf .zeroTerminated (some [stmFragment, dtcFragment 3]) = [dtcFragment 3] ∧
      DTCEventVerifier.fragments .zeroTerminated [some [dtcFragment 3, stmFragment]] =
        some [dtcFragment 3, stmFragment] ∧
      wantedOf .zeroTerminated (some [dtcFragment 3, stmFragment]) = [dtcFragment 3] ∧ stmFragment.type ≠ .DTCEVT :=
  ⟨rfl, rfl, rfl, rfl, by decide⟩

end ArtdaqMu2e
