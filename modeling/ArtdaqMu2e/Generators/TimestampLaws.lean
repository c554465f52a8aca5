import ArtdaqMu2e.Generators.CRVReceiver
import ArtdaqMu2e.Generators.Playback
import Mathlib.Data.List.Induction

/-!
# Laws of the timestamps

What the three branches of `assign` come to over a whole run, for a receiver that starts with any maximum and no loop:
the maximum and the loop count are those of the tags (`top`, `meets`), and a tag that is not above the maximum is
shifted by their product (`getElem?_stamps_of_fits`). Both only grow, and the laws follow from that
(`timestampLaws_run`).

All of it as long as no sum and no product leaves 64 bits (`Fits`).
-/

namespace ArtdaqMu2e

open Runs

namespace TimestampState

/-! ### Maximum and loop count of the tags -/

/-- The maximum of the initial value and the tags. -/
def top (first : ℕ) (tags : List ℕ) : ℕ := tags.foldl max first

/-- The number of tags that are the maximum of what was before them. -/
def meets (first : ℕ) (tags : List ℕ) : ℕ :=
  (List.range tags.length).countP fun i => tags[i]? = some (top first (tags.take i))

@[simp] theorem top_concat (first : ℕ) (tags : List ℕ) (tag : ℕ) :
    top first (tags ++ [tag]) = max (top first tags) tag := by
  simp [top]

theorem meets_concat (first : ℕ) (tags : List ℕ) (tag : ℕ) :
    meets first (tags ++ [tag]) = meets first tags + if tag = top first tags then 1 else 0 := by
  have hbefore : (List.range tags.length).countP (fun i => (tags ++ [tag])[i]? =
      some (top first ((tags ++ [tag]).take i))) = meets first tags := by
    refine List.countP_congr fun i hi => ?_
    have hi := List.mem_range.mp hi
    rw [List.getElem?_append_left hi, List.take_append_of_le_length hi.le]
  rw [meets, List.length_append, List.length_singleton, List.range_succ, List.countP_append, hbefore]
  simp [List.countP_cons]

theorem top_mono {first : ℕ} {done tags : List ℕ} (h : done <+: tags) : top first done ≤ top first tags := by
  obtain ⟨rest, rfl⟩ := h
  induction rest using List.reverseRecOn with
  | nil => simp
  | append_singleton rest tag ih =>
    rw [← List.append_assoc, top_concat]
    exact ih.trans (le_max_left _ _)

theorem meets_mono {first : ℕ} {done tags : List ℕ} (h : done <+: tags) : meets first done ≤ meets first tags := by
  obtain ⟨rest, rfl⟩ := h
  induction rest using List.reverseRecOn with
  | nil => simp
  | append_singleton rest tag ih =>
    rw [← List.append_assoc, meets_concat]
    exact ih.trans (Nat.le_add_right _ _)

theorem le_top_of_mem {first tag : ℕ} {tags : List ℕ} (h : tag ∈ tags) : tag ≤ top first tags := by
  obtain ⟨done, rest, rfl⟩ := List.append_of_mem h
  have hmax : tag ≤ top first (done ++ [tag]) := by
    rw [top_concat]
    exact le_max_right _ _
  exact hmax.trans (top_mono ⟨rest, by simp⟩)

/-- What is added to a tag that is read after the tags `done`. -/
def offset (first : ℕ) (done : List ℕ) (tag : ℕ) : ℕ :=
  if tag ≤ top first done then meets first done * top first done else 0

/-! ### A run without overflow -/

/-- Neither the timestamp nor the loop count overflows. The product is not above the sum. -/
def Fits (st : TimestampState) (tag : ℕ) : Prop :=
  tag < 2 ^ 64 ∧
    (tag ≤ st.highestTimestampSeen → tag + st.timestampLoops * st.highestTimestampSeen < 2 ^ 64) ∧
    (tag = st.highestTimestampSeen → st.timestampLoops + 1 < 2 ^ 64)

instance (st : TimestampState) (tag : ℕ) : Decidable (Fits st tag) := inferInstanceAs (Decidable (_ ∧ _ ∧ _))

/-- The members of a receiver whose maximum starts from `first`. -/
def startingFrom (first : ℕ) : TimestampState := { init with highestTimestampSeen := first }

variable {first : ℕ} {tags : List ℕ}

theorem highest_after (first : ℕ) (tags : List ℕ) :
    ((startingFrom first).after tags).highestTimestampSeen = top first tags := by
  induction tags using List.reverseRecOn with
  | nil => rfl
  | append_singleton tags tag ih =>
    rw [after_concat, highest_next, ih, top_concat]

theorem loops_after (hfits : Steps next Fits (startingFrom first) tags) :
    ((startingFrom first).after tags).timestampLoops = meets first tags := by
  induction tags using List.reverseRecOn with
  | nil => rfl
  | append_singleton tags tag ih =>
    have hloops := ih hfits.of_append
    obtain ⟨-, -, hcount⟩ := hfits.of_append_cons
    rw [highest_after, hloops] at hcount
    rw [after_concat, loops_next, highest_after, hloops, meets_concat]
    split_ifs with hmeets
    · exact u64_of_lt (hcount hmeets)
    · rfl

theorem getElem?_stamps (st : TimestampState) (tags : List ℕ) (i : ℕ) :
    (st.stamps tags)[i]? = tags[i]?.map (st.after (tags.take i)).stamp := by
  induction tags generalizing st i with
  | nil => rfl
  | cons tag tags ih =>
    cases i with
    | zero => rfl
    | succ i =>
      rw [stamps, List.getElem?_cons_succ, List.getElem?_cons_succ, List.take_succ_cons, ih]
      rfl

theorem getElem?_stamps_of_fits (hfits : Steps next Fits (startingFrom first) tags) (i : ℕ) :
    ((startingFrom first).stamps tags)[i]? = tags[i]?.map fun tag => tag + offset first (tags.take i) tag := by
  rw [getElem?_stamps]
  cases htag : tags[i]? with
  | none => rfl
  | some tag =>
    obtain ⟨hi, hget⟩ := List.getElem?_eq_some_iff.mp htag
    have hsplit : tags.take i ++ tag :: tags.drop (i + 1) = tags := by
      rw [← hget, ← List.drop_eq_getElem_cons hi, List.take_append_drop]
    rw [← hsplit] at hfits
    obtain ⟨-, hsum, -⟩ := hfits.of_append_cons
    have hloops := loops_after hfits.of_append
    rw [highest_after, hloops] at hsum
    rw [Option.map_some, Option.map_some, offset]
    split_ifs with hle
    · rw [stamp_of_le (by rw [highest_after]; exact hle), highest_after, hloops, u64_of_lt (hsum hle)]
    · rw [stamp_of_gt (by rw [highest_after]; exact Nat.lt_of_not_le hle), Nat.add_zero]

/-! ### The laws -/

/-- What a run is to do with the tags it reads: the members it ends with, and the timestamps it gives. -/
structure Laws (first : ℕ) (tags : List ℕ) (st : TimestampState) (times : List ℕ) : Prop where
  highest : st.highestTimestampSeen = top first tags
  loops : st.timestampLoops = meets first tags
  length : times.length = tags.length
  atLeast : ∀ i tag time : ℕ, tags[i]? = some tag → times[i]? = some time → tag ≤ time
  repeated : ∀ i j tag time time' : ℕ, i < j → tags[i]? = some tag → tags[j]? = some tag →
    times[i]? = some time → times[j]? = some time' → time ≤ time'
  ordered : ∀ i j tag tag' time time' : ℕ, tags[i]? = some tag → tags[j]? = some tag' →
    times[i]? = some time → times[j]? = some time' →
    top first (tags.take i) = top first (tags.take j) → meets first (tags.take i) = meets first (tags.take j) →
    tag < tag' → tag' ≤ top first (tags.take j) → time < time'

theorem offset_le (first : ℕ) (done : List ℕ) (tag : ℕ) :
    offset first done tag ≤ meets first done * top first done := by
  unfold offset
  split_ifs
  · exact le_refl _
  · exact Nat.zero_le _

theorem offset_le_offset {i j tag : ℕ} (hij : i < j) (htag : tags[i]? = some tag) :
    offset first (tags.take i) tag ≤ offset first (tags.take j) tag := by
  have hstart : tags.take i <+: tags.take j := List.take_prefix_take_left hij.le
  have hread : tag ∈ tags.take j := by
    refine List.mem_of_getElem? (i := i) ?_
    rw [List.getElem?_take_of_lt hij, htag]
  calc offset first (tags.take i) tag
      ≤ meets first (tags.take i) * top first (tags.take i) := offset_le first _ tag
    _ ≤ meets first (tags.take j) * top first (tags.take j) := Nat.mul_le_mul (meets_mono hstart) (top_mono hstart)
    _ = offset first (tags.take j) tag := (if_pos (le_top_of_mem hread)).symm

theorem laws_of_fits (hfits : Steps next Fits (startingFrom first) tags) :
    Laws first tags ((startingFrom first).after tags) ((startingFrom first).stamps tags) := by
  have htime : ∀ {i tag time : ℕ}, tags[i]? = some tag → ((startingFrom first).stamps tags)[i]? = some time →
      time = tag + offset first (tags.take i) tag := by
    intro i tag time htag hstamp
    rw [getElem?_stamps_of_fits hfits, htag] at hstamp
    exact (Option.some.inj hstamp).symm
  refine ⟨highest_after first tags, loops_after hfits, ?_, ?_, ?_, ?_⟩
  · exact length_stamps _ tags
  · intro i tag time htag hstamp
    rw [htime htag hstamp]
    exact Nat.le_add_right _ _
  · intro i j tag time time' hij htag htag' hstamp hstamp'
    rw [htime htag hstamp, htime htag' hstamp']
    exact Nat.add_le_add_left (offset_le_offset hij htag) tag
  · intro i j tag tag' time time' htag htag' hstamp hstamp' htop hmeets hlt hle
    have hoffset : offset first (tags.take i) tag = offset first (tags.take j) tag' := by
      rw [offset, offset, htop, hmeets, if_pos (hlt.le.trans hle), if_pos hle]
    rw [htime htag hstamp, htime htag' hstamp', hoffset]
    exact Nat.add_lt_add_right hlt _

end TimestampState

/-! ### The receivers -/

open TimestampState

/-- A receiver whose maximum starts from `first`: 0 for a new receiver, and for the receiver for requests the first
timestamp of its configuration. -/
def Receiver.startingFrom (first : ℕ) : Receiver :=
  { Receiver.init with timestamps := TimestampState.startingFrom first }

variable (layout : FragmentLayout) (cfg : ReceiverConfig)

/-- **The laws hold of every run of reads** in which nothing overflows, whatever maximum it starts from. -/
theorem timestampLaws_run (first : ℕ) (calls : List ReadCall)
    (hfits : Steps next Fits (TimestampState.startingFrom first) (headTags calls)) :
    let st := run (readStep layout cfg) (Receiver.startingFrom first) calls
    Laws first (headTags calls) st.timestamps (st.frags.map (·.timestamp)) := by
  obtain ⟨htimes, hstate, -⟩ := run_readStep layout cfg (Receiver.startingFrom first) calls
  dsimp only
  rw [htimes, hstate]
  exact laws_of_fits hfits

/-- Two events read twice, from a maximum that the first one meets. -/
theorem timestampLaws_run_playback :
    let st := run (readStep .zeroTerminated playbackConfig) (Receiver.startingFrom 5) playbackCalls
    Laws 5 (headTags playbackCalls) st.timestamps (st.frags.map (·.timestamp)) ∧
      headTags playbackCalls = [5, 9, 5, 9] ∧ st.frags.map (·.timestamp) = [5, 9, 14, 18] :=
  ⟨timestampLaws_run .zeroTerminated playbackConfig 5 playbackCalls
    ⟨by decide, by decide, by decide, by decide, trivial⟩, by decide, by decide⟩

end ArtdaqMu2e
