import ArtdaqMu2e.ArtModules.DTCEventVerifier
import Mathlib.Data.Nat.Init

/-!
# The walk over the payload of a data block

`DTCEventVerifier::filter` reads the payload of every data block that it dumps. The loop counts `l` in steps of two up
to the bytes of the payload, as an offset in bytes would go, and takes `l` for the index of a 16-bit word. It reads
every other word, and the second half of what it reads lies behind the payload (`payloadIndices_eq`). That is right
only where there is nothing to read, or a single word (`covers_iff`).
-/

namespace ArtdaqMu2e

namespace DTCEventVerifier

/-! ### What the walk is for -/

/-- The word `l` lies in the payload, which is what the header of 16 bytes leaves of the data block. -/
def Inside (byteCount l : ℕ) : Prop := 2 * l + 2 ≤ byteCount - 16

instance (byteCount l : ℕ) : Decidable (Inside byteCount l) := inferInstanceAs (Decidable (_ ≤ _))

/-- What is read lies in the payload, and every complete word of the payload is read once, in order. -/
structure CoversPayload (byteCount : ℕ) (read : List ℕ) : Prop where
  inside : ∀ l ∈ read, Inside byteCount l
  complete : read.filter (fun l => Inside byteCount l) = List.range ((byteCount - 16) / 2)
  empty : byteCount ≤ 16 → read = []

theorem inside_iff_lt {byteCount l : ℕ} : Inside byteCount l ↔ l < (byteCount - 16) / 2 := by
  unfold Inside
  omega

theorem coversPayload_iff_eq_range {byteCount : ℕ} {read : List ℕ} :
    CoversPayload byteCount read ↔ read = List.range ((byteCount - 16) / 2) := by
  constructor
  · intro h
    rw [← h.complete]
    exact (List.filter_eq_self.mpr fun l hl => decide_eq_true (h.inside l hl)).symm
  · rintro rfl
    have hinside : ∀ l ∈ List.range ((byteCount - 16) / 2), Inside byteCount l :=
      fun l hl => inside_iff_lt.mpr (List.mem_range.mp hl)
    refine ⟨hinside, List.filter_eq_self.mpr fun l hl => decide_eq_true (hinside l hl), fun hsmall => ?_⟩
    rw [Nat.sub_eq_zero_of_le hsmall]
    rfl

/-! ### The loop -/

theorem payloadLoop_eq (bound : ℕ) {left l : ℕ} (hleft : bound ≤ l + left) :
    payloadLoop bound left l = (List.range ((bound - l + 1) / 2)).map fun k => l + 2 * k := by
  induction left generalizing l with
  | zero =>
    have hnone : (bound - l + 1) / 2 = 0 := by omega
    rw [hnone]
    rfl
  | succ left ih =>
    rw [payloadLoop]
    split_ifs with hl
    · have hsome : (bound - l + 1) / 2 = (bound - (l + 2) + 1) / 2 + 1 := by omega
      rw [ih (by omega), hsome, List.range_succ_eq_map, List.map_cons, List.map_map]
      refine congrArg₂ List.cons (by omega) (List.map_congr_left fun k _ => ?_)
      dsimp only [Function.comp_apply]
      omega
    · have hnone : (bound - l + 1) / 2 = 0 := by omega
      rw [hnone]
      rfl

theorem payloadIndices_eq (byteCount : ℕ) :
    payloadIndices byteCount = (List.range ((byteCount - 16 + 1) / 2)).map fun k => 2 * k := by
  rw [payloadIndices, payloadLoop_eq _ (by omega)]
  simp

theorem covers_iff (byteCount : ℕ) :
    CoversPayload byteCount (payloadIndices byteCount) ↔ byteCount ≤ 16 ∨ byteCount = 18 := by
  rw [coversPayload_iff_eq_range, payloadIndices_eq]
  constructor
  · intro h
    have hlength := congrArg List.length h
    simp only [List.length_map, List.length_range] at hlength
    -- as many words as there are complete ones, but the second word that is read is not the second word
    by_cases hone : (byteCount - 16) / 2 ≤ 1
    · omega
    · have hsecond := congrArg (fun read => read[1]?) h
      simp [hlength, Nat.lt_of_not_le hone] at hsecond
  · rintro (hsmall | rfl)
    · rw [Nat.sub_eq_zero_of_le hsmall]
      rfl
    · rfl

/-! ### Every block of an event -/

/-- The data blocks of a sub-event that are dumped, each with the indices of the words that are read for it. -/
def walkSubEvent (subevent : SubEventData) : List (DataBlock × List ℕ) :=
  if 0 < subevent.link0Status then []
  else subevent.dataBlocks.map fun block => (block, payloadIndices block.byteCount)

section walk
variable (layout : FragmentLayout) (getData : Fragment → EventData)

/-- An event whose fragments cannot be collected is not walked over. -/
def walk (handles : List FragmentHandle) : List (DataBlock × List ℕ) :=
  ((DTCEventVerifier.fragments layout handles).getD []).flatMap fun frag =>
    (getData frag).subEvents.flatMap walkSubEvent

theorem dumpSubEvent_eq_walk (subevent : SubEventData) :
    dumpSubEvent subevent = (walkSubEvent subevent).flatMap fun w => w.2.map w.1.words := by
  unfold dumpSubEvent walkSubEvent
  split_ifs
  · rfl
  · rw [List.flatMap_map]

theorem of_mem_walk {handles : List FragmentHandle} {w : DataBlock × List ℕ} (hw : w ∈ walk layout getData handles) :
    w.2 = payloadIndices w.1.byteCount := by
  obtain ⟨frag, -, hw⟩ := List.mem_flatMap.mp hw
  obtain ⟨subevent, -, hw⟩ := List.mem_flatMap.mp hw
  unfold walkSubEvent at hw
  split_ifs at hw
  · cases hw
  · obtain ⟨block, -, rfl⟩ := List.mem_map.mp hw
    rfl

/-- **The words that the filter reads** for an event are those of the walk, and of every block that it walks over it
reads the payload as it should exactly if the block is no longer than its header, or has a payload of two bytes. -/
theorem filter_covers_iff (checks : EventChecks) (st : DTCEventVerifier) (handles : List FragmentHandle) :
    ((filter layout getData checks st handles).elim [] (·.dump) =
        (walk layout getData handles).flatMap fun w => w.2.map w.1.words) ∧
      ∀ w ∈ walk layout getData handles,
        CoversPayload w.1.byteCount w.2 ↔ w.1.byteCount ≤ 16 ∨ w.1.byteCount = 18 := by
  constructor
  · unfold filter walk
    cases DTCEventVerifier.fragments layout handles with
    | none => rfl
    | some fragments =>
      have hdump : dumpSubEvent = fun subevent => (walkSubEvent subevent).flatMap fun w => w.2.map w.1.words :=
        funext dumpSubEvent_eq_walk
      simp only [Option.elim_some, Option.getD_some, List.flatMap_assoc, hdump]
  · intro w hw
    rw [of_mem_walk layout getData hw]
    exact covers_iff w.1.byteCount

end walk

/-- The data of a fragment with one data block, with a payload of two words. -/
def twoWords (frag : Fragment) : EventData :=
  ⟨1, frag.timestamp, [⟨3, frag.timestamp, 0, [⟨20, fun l => 100 + l⟩]⟩]⟩

/-- The second word is not read, and the third, which is behind the block, is. -/
theorem filter_misses_second_word :
    ((filter .zeroTerminated twoWords ⟨0, true, true⟩ init [some [dtcFragment 5]]).map (·.dump)) =
        some [100, 102] ∧
      ¬ Inside 20 2 ∧ Inside 20 1 ∧
      ¬ ∀ w ∈ walk .zeroTerminated twoWords [some [dtcFragment 5]], CoversPayload w.1.byteCount w.2 := by
  refine ⟨by decide, by decide, by decide, fun h => ?_⟩
  have hblock := (h (⟨20, fun l => 100 + l⟩, [0, 2]) List.mem_cons_self).inside 2 (by simp)
  exact absurd hblock (by decide)

end DTCEventVerifier

end ArtdaqMu2e
