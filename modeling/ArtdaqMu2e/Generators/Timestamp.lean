import ArtdaqMu2e.Lib.Runs
import Mathlib.Algebra.Group.Nat.Defs
import Mathlib.Data.List.Induction
import Mathlib.Order.Lattice
import Mathlib.Order.MinMax
import Mathlib.Tactic.Common

/-!
# Fragment timestamps

Both receivers turn the event window tag they read into the timestamp of the fragment with the same block of
code over the same three members. `assign` is that block; `stamps` are the timestamps it gives to the tags of a
sequence of reads.

A tag above the maximum is its own timestamp. A tag at or below it is shifted by the loop count times the
maximum, and meeting the maximum again counts as the end of a pass. From the initial state the first pass over
an increasing list is stamped with its own tags (`stamps_init_pass`), and so is the first event of the second
pass (or with the maximum, if it is 0): the loop count goes up only when the second pass is over. So the
timestamps of a list that is played back are distinct only if it is played once (`nodup_stamps_playback`).

A pass also counts as over when the first tag that meets the maximum is no repetition but the number that the
maximum started from. For distinct tags in any order, this is the only way to shift one of them
(`stamps_eq_self_iff`).

What was read leaves a trace in later timestamps unless it was the tag 0 alone, in a multiple of 2^64
(`fresh_iff_stamps`, `fresh_after_iff`).
-/

namespace ArtdaqMu2e

/-- Arithmetic of `size_t` and `uint64_t`. -/
def u64 (n : ℕ) : ℕ := n % 2 ^ 64

theorem u64_of_lt {n : ℕ} (h : n < 2 ^ 64) : u64 n = n := Nat.mod_eq_of_lt h

/-- `highest_timestamp_seen_`, `timestamp_loops_` and `first_timestamp_seen_`. -/
structure TimestampState where
  highestTimestampSeen : ℕ
  timestampLoops : ℕ
  firstTimestampSeen : ℕ
  deriving DecidableEq, Repr

namespace TimestampState

def noteFirst (st : TimestampState) (tag : ℕ) : TimestampState :=
  if st.firstTimestampSeen = 0 then { st with firstTimestampSeen := tag } else st

/-- The timestamp of a fragment read with `tag`, and the members afterwards. -/
def assign (st : TimestampState) (tag : ℕ) : ℕ × TimestampState :=
  let st := st.noteFirst tag
  if tag < st.highestTimestampSeen then
    (u64 (tag + st.timestampLoops * st.highestTimestampSeen), st)
  else if tag > st.highestTimestampSeen then
    (tag, { st with highestTimestampSeen := tag })
  else
    (u64 (tag + st.timestampLoops * st.highestTimestampSeen),
      { st with timestampLoops := u64 (st.timestampLoops + 1) })

def stamp (st : TimestampState) (tag : ℕ) : ℕ := (st.assign tag).1

def next (st : TimestampState) (tag : ℕ) : TimestampState := (st.assign tag).2

/-- The members of a new receiver. -/
def init : TimestampState := ⟨0, 0, 0⟩

variable {st : TimestampState} {tag : ℕ}

@[simp] theorem highest_noteFirst (st : TimestampState) (tag : ℕ) :
    (st.noteFirst tag).highestTimestampSeen = st.highestTimestampSeen := by
  unfold noteFirst
  split <;> rfl

@[simp] theorem loops_noteFirst (st : TimestampState) (tag : ℕ) :
    (st.noteFirst tag).timestampLoops = st.timestampLoops := by
  unfold noteFirst
  split <;> rfl

theorem stamp_of_le (h : tag ≤ st.highestTimestampSeen) :
    st.stamp tag = u64 (tag + st.timestampLoops * st.highestTimestampSeen) := by
  by_cases hlt : tag < st.highestTimestampSeen
  · simp [stamp, assign, hlt]
  · simp [stamp, assign, hlt, Nat.not_lt.mpr h]

theorem stamp_of_gt (h : st.highestTimestampSeen < tag) : st.stamp tag = tag := by
  simp [stamp, assign, h, Nat.lt_asymm h]

/-- What is added to a tag, modulo 2^64. -/
def shift (st : TimestampState) (tag : ℕ) : ℕ :=
  if st.highestTimestampSeen < tag then 0 else u64 (st.timestampLoops * st.highestTimestampSeen)

theorem stamp_eq_shift (htag : tag < 2 ^ 64) : st.stamp tag = u64 (tag + st.shift tag) := by
  unfold shift
  split_ifs with h
  · rw [stamp_of_gt h, Nat.add_zero, u64_of_lt htag]
  · rw [stamp_of_le (Nat.not_lt.mp h), u64, u64, u64, Nat.add_mod_mod]

theorem highest_next (st : TimestampState) (tag : ℕ) :
    (st.next tag).highestTimestampSeen = max st.highestTimestampSeen tag := by
  unfold next assign
  rcases Nat.lt_trichotomy tag st.highestTimestampSeen with hlt | heq | hgt
  · simp [hlt, hlt.le]
  · simp [heq]
  · simp [hgt, hgt.le, Nat.lt_asymm hgt]

theorem loops_next (st : TimestampState) (tag : ℕ) :
    (st.next tag).timestampLoops =
      if tag = st.highestTimestampSeen then u64 (st.timestampLoops + 1) else st.timestampLoops := by
  unfold next assign
  rcases Nat.lt_trichotomy tag st.highestTimestampSeen with hlt | heq | hgt
  · simp [hlt, Nat.ne_of_lt hlt]
  · simp [heq]
  · simp [hgt, Nat.lt_asymm hgt, Nat.ne_of_gt hgt]

theorem first_next (st : TimestampState) (tag : ℕ) :
    (st.next tag).firstTimestampSeen = if st.firstTimestampSeen = 0 then tag else st.firstTimestampSeen := by
  have hnote : (st.next tag).firstTimestampSeen = (st.noteFirst tag).firstTimestampSeen := by
    unfold next assign
    rcases Nat.lt_trichotomy tag st.highestTimestampSeen with hlt | heq | hgt
    · simp [hlt]
    · simp [heq]
    · simp [hgt, Nat.lt_asymm hgt]
  rw [hnote, noteFirst]
  split <;> rfl

/-! ### Sequences of reads -/

def stamps (st : TimestampState) : List ℕ → List ℕ
  | [] => []
  | tag :: tags => st.stamp tag :: stamps (st.next tag) tags

abbrev after (st : TimestampState) (tags : List ℕ) : TimestampState := Runs.run next st tags

theorem after_append (st : TimestampState) (first second : List ℕ) :
    st.after (first ++ second) = (st.after first).after second :=
  Runs.run_append next st first second

theorem after_concat (st : TimestampState) (tags : List ℕ) (tag : ℕ) :
    st.after (tags ++ [tag]) = (st.after tags).next tag :=
  after_append st tags [tag]

theorem length_stamps (st : TimestampState) (tags : List ℕ) : (st.stamps tags).length = tags.length := by
  induction tags generalizing st with
  | nil => rfl
  | cons tag tags ih => rw [stamps, List.length_cons, List.length_cons, ih]

theorem stamps_append (st : TimestampState) (first second : List ℕ) :
    st.stamps (first ++ second) = st.stamps first ++ (st.after first).stamps second := by
  induction first generalizing st with
  | nil => rfl
  | cons tag tags ih => simp only [List.cons_append, stamps, ih]; rfl

def SameShift (ts : TimestampState × TimestampState) (tag : ℕ) : Prop := ts.1.shift tag = ts.2.shift tag

theorem stamp_eq_iff {st' : TimestampState} (htag : tag < 2 ^ 64) :
    st.stamp tag = st'.stamp tag ↔ SameShift (st, st') tag := by
  have hlt : ∀ st : TimestampState, st.shift tag < 2 ^ 64 := by
    intro st
    unfold shift
    split_ifs
    · decide
    · exact Nat.mod_lt _ (by decide)
  have hshift := hlt st
  have hshift' := hlt st'
  rw [stamp_eq_shift htag, stamp_eq_shift htag]
  unfold SameShift u64
  constructor
  · intro h
    show st.shift tag = st'.shift tag
    omega
  · intro h
    have h : st.shift tag = st'.shift tag := h
    rw [h]

/-- The same tags get the same timestamps from two states exactly if each one is shifted by the same amount. -/
theorem stamps_eq_iff {st' : TimestampState} {tags : List ℕ} (htags : ∀ tag ∈ tags, tag < 2 ^ 64) :
    st.stamps tags = st'.stamps tags ↔ Runs.Steps (Runs.both next next) SameShift (st, st') tags := by
  induction tags generalizing st st' with
  | nil => exact ⟨fun _ => trivial, fun _ => rfl⟩
  | cons tag tags ih =>
    obtain ⟨htag, htags⟩ := List.forall_mem_cons.mp htags
    rw [stamps, stamps, List.cons.injEq, stamp_eq_iff htag, ih htags]
    rfl

theorem stamps_of_increasing {tags : List ℕ} (hinc : tags.Pairwise (· < ·))
    (habove : ∀ tag ∈ tags, st.highestTimestampSeen < tag) :
    st.stamps tags = tags ∧ (st.after tags).timestampLoops = st.timestampLoops := by
  induction tags generalizing st with
  | nil => exact ⟨rfl, rfl⟩
  | cons tag tags ih =>
    obtain ⟨hlt, hinc⟩ := List.pairwise_cons.mp hinc
    have htag := habove tag (by simp)
    have hnext : ∀ u ∈ tags, (st.next tag).highestTimestampSeen < u := by
      intro u hu
      rw [highest_next, max_eq_right htag.le]
      exact hlt u hu
    obtain ⟨hstamps, hloops⟩ := ih hinc hnext
    refine ⟨?_, ?_⟩
    · rw [stamps, stamp_of_gt htag, hstamps]
    · rw [after, Runs.run_cons, hloops, loops_next, if_neg (by omega)]

theorem highest_after_spec (st : TimestampState) (tags : List ℕ) :
    (∀ tag ∈ st.highestTimestampSeen :: tags, tag ≤ (st.after tags).highestTimestampSeen) ∧
      (st.after tags).highestTimestampSeen ∈ st.highestTimestampSeen :: tags := by
  induction tags generalizing st with
  | nil => simp [after]
  | cons tag tags ih =>
    obtain ⟨hle, hmem⟩ := ih (st.next tag)
    rw [after, Runs.run_cons]
    have hmax := hle _ List.mem_cons_self
    rw [highest_next] at hmem hmax
    refine ⟨fun u hu => ?_, ?_⟩
    · rcases List.mem_cons.mp hu with rfl | hu
      · exact (le_max_left _ _).trans hmax
      rcases List.mem_cons.mp hu with rfl | hu
      · exact (le_max_right _ _).trans hmax
      · exact hle u (List.mem_cons_of_mem _ hu)
    · rcases List.mem_cons.mp hmem with hmem | hmem
      · rcases max_choice st.highestTimestampSeen tag with h | h
        · rw [hmem, h]
          exact List.mem_cons_self
        · rw [hmem, h]
          simp
      · exact List.mem_cons_of_mem _ (List.mem_cons_of_mem _ hmem)

theorem stamps_congr {st' : TimestampState} (hhighest : st.highestTimestampSeen = st'.highestTimestampSeen)
    (hloops : st.timestampLoops = st'.timestampLoops) (tags : List ℕ) : st.stamps tags = st'.stamps tags := by
  induction tags generalizing st st' with
  | nil => rfl
  | cons tag tags ih =>
    have hstamp : st.stamp tag = st'.stamp tag := by
      rcases Nat.lt_or_ge st.highestTimestampSeen tag with hgt | hle
      · rw [stamp_of_gt hgt, stamp_of_gt (hhighest ▸ hgt)]
      · rw [stamp_of_le hle, stamp_of_le (hhighest ▸ hle), hhighest, hloops]
    rw [stamps, stamps, hstamp, ih]
    · rw [highest_next, highest_next, hhighest]
    · rw [loops_next, loops_next, hhighest, hloops]

theorem first_after_eq_zero_iff (tags : List ℕ) :
    (init.after tags).firstTimestampSeen = 0 ↔ ∀ tag ∈ tags, tag = 0 := by
  induction tags using List.reverseRecOn with
  | nil => exact ⟨fun _ _ htag => (List.not_mem_nil htag).elim, fun _ => rfl⟩
  | append_singleton tags tag ih =>
    rw [after_concat, first_next, List.forall_mem_append, ← ih, List.forall_mem_singleton]
    split_ifs with hzero
    · exact (and_iff_right hzero).symm
    · exact ⟨fun h => absurd h hzero, fun h => absurd h.1 hzero⟩

theorem first_after_congr {st st' : TimestampState} (h : st.firstTimestampSeen = st'.firstTimestampSeen)
    (tags : List ℕ) : (st.after tags).firstTimestampSeen = (st'.after tags).firstTimestampSeen := by
  induction tags generalizing st st' with
  | nil => exact h
  | cons tag tags ih => exact ih (by rw [first_next, first_next, h])

theorem first_after_lt {tags : List ℕ} (h : ∀ tag ∈ tags, tag < 2 ^ 48) :
    (init.after tags).firstTimestampSeen < 2 ^ 48 := by
  induction tags using List.reverseRecOn with
  | nil => decide
  | append_singleton tags tag ih =>
    rw [after_concat, first_next]
    split_ifs
    · exact h tag (by simp)
    · exact ih fun u hu => h u (List.mem_append_left _ hu)

theorem loops_after_zeros (h : ∀ tag ∈ tags, tag = 0) : (init.after tags).timestampLoops = u64 tags.length := by
  induction tags using List.reverseRecOn with
  | nil => rfl
  | append_singleton tags tag ih =>
    have hbefore : ∀ u ∈ tags, u = 0 := fun u hu => h u (List.mem_append_left _ hu)
    have hhigh : (init.after tags).highestTimestampSeen = 0 := by
      rcases List.mem_cons.mp (highest_after_spec init tags).2 with hstart | hread
      · exact hstart
      · exact hbefore _ hread
    rw [after_concat, loops_next, hhigh, if_pos (h tag (by simp)), ih hbefore, List.length_append,
      List.length_singleton]
    exact Nat.mod_add_mod _ _ _

theorem loops_after_lt (tags : List ℕ) : (init.after tags).timestampLoops < 2 ^ 64 := by
  refine Runs.run_invariant (P := fun st : TimestampState => st.timestampLoops < 2 ^ 64) (fun st tag hlt => ?_)
    (by decide) tags
  rw [loops_next]
  split_ifs
  · exact Nat.mod_lt _ (by decide)
  · exact hlt

theorem highest_after_lt (h : ∀ tag ∈ tags, tag < 2 ^ 48) : (init.after tags).highestTimestampSeen < 2 ^ 48 := by
  rcases List.mem_cons.mp (highest_after_spec init tags).2 with hstart | hread
  · rw [hstart]
    decide
  · exact h _ hread

/-! ### Distinct tags -/

theorem stamps_of_notMem (hloops : st.timestampLoops = 0) {tags : List ℕ} (hnodup : tags.Nodup)
    (hbound : ∀ tag ∈ tags, tag < 2 ^ 64) (hnot : st.highestTimestampSeen ∉ tags) : st.stamps tags = tags := by
  induction tags generalizing st with
  | nil => rfl
  | cons tag tags ih =>
    obtain ⟨htag, hbound⟩ := List.forall_mem_cons.mp hbound
    obtain ⟨hfresh, hnodup⟩ := List.nodup_cons.mp hnodup
    obtain ⟨hne, hnot⟩ := not_or.mp (List.mem_cons.not.mp hnot)
    have hstamp : st.stamp tag = tag := by
      rcases Nat.lt_or_ge st.highestTimestampSeen tag with hgt | hle
      · exact stamp_of_gt hgt
      · rw [stamp_of_le hle, hloops, Nat.zero_mul, Nat.add_zero, u64_of_lt htag]
    have hnext : (st.next tag).highestTimestampSeen ∉ tags := by
      rw [highest_next]
      rcases max_choice st.highestTimestampSeen tag with h | h
      · rw [h]
        exact hnot
      · rw [h]
        exact hfresh
    have hloops' : (st.next tag).timestampLoops = 0 := by rw [loops_next, if_neg (Ne.symm hne), hloops]
    rw [stamps, hstamp, ih hloops' hnodup hbound hnext]

theorem stamps_eq_self_iff_of_met (hloops : st.timestampLoops = 1) (hmax : st.highestTimestampSeen < 2 ^ 64)
    {tags : List ℕ} (hnodup : tags.Nodup) (hbound : ∀ tag ∈ tags, tag < 2 ^ 64)
    (hnot : st.highestTimestampSeen ∉ tags) :
    st.stamps tags = tags ↔ (st.highestTimestampSeen :: tags).Pairwise (· < ·) := by
  induction tags generalizing st with
  | nil => simp [stamps]
  | cons tag tags ih =>
    obtain ⟨htag, hbound⟩ := List.forall_mem_cons.mp hbound
    obtain ⟨hfresh, hnodup⟩ := List.nodup_cons.mp hnodup
    obtain ⟨hne, -⟩ := not_or.mp (List.mem_cons.not.mp hnot)
    rw [stamps, List.cons.injEq, ← List.isChain_iff_pairwise, List.isChain_cons_cons,
      List.isChain_iff_pairwise]
    rcases Nat.lt_or_gt_of_ne hne with hgt | hlt
    · have hnext : (st.next tag).highestTimestampSeen = tag := by rw [highest_next, max_eq_right hgt.le]
      have hloops' : (st.next tag).timestampLoops = 1 := by rw [loops_next, if_neg (Ne.symm hne), hloops]
      have hrest := ih hloops' (by rw [hnext]; exact htag) hnodup hbound (by rw [hnext]; exact hfresh)
      rw [stamp_of_gt hgt, hrest, hnext]
      exact and_congr_left fun _ => ⟨fun _ => hgt, fun _ => rfl⟩
    · -- below the maximum the tag is shifted by it
      have hshift : st.stamp tag ≠ tag := by
        rw [stamp_of_le hlt.le, hloops, Nat.one_mul, u64]
        omega
      exact ⟨fun h => absurd h.1 hshift, fun h => absurd h.1 (Nat.lt_asymm hlt)⟩

/-- Wherever the number `h` is met by tags that have not gone above it, the tags from there on increase. -/
def MetInOrder (h : ℕ) (tags : List ℕ) : Prop :=
  ∀ before after, tags = before ++ h :: after → (∀ tag ∈ before, tag < h) → (h :: after).Pairwise (· < ·)

section metInOrder
variable {h : ℕ} {tags : List ℕ}

theorem metInOrder_cons_of_lt (hlt : tag < h) : MetInOrder h (tag :: tags) ↔ MetInOrder h tags := by
  constructor
  · intro hmet before after hsplit hbefore
    exact hmet (tag :: before) after (by rw [hsplit]; rfl) (List.forall_mem_cons.mpr ⟨hlt, hbefore⟩)
  · intro hmet before after hsplit hbefore
    rcases List.cons_eq_append_iff.mp hsplit with ⟨-, hcons⟩ | ⟨before', rfl, htail⟩
    · exact absurd (List.cons.inj hcons).1 (Nat.ne_of_gt hlt)
    · exact hmet before' after htail fun u hu => hbefore u (List.mem_cons_of_mem _ hu)

theorem metInOrder_cons_self (hnot : h ∉ tags) : MetInOrder h (h :: tags) ↔ (h :: tags).Pairwise (· < ·) := by
  constructor
  · intro hmet
    exact hmet [] tags rfl (by simp)
  · intro hinc before after hsplit _
    rcases List.cons_eq_append_iff.mp hsplit with ⟨-, hcons⟩ | ⟨before', -, htail⟩
    · rw [(List.cons.inj hcons).2]
      exact hinc
    · exact absurd (htail ▸ List.mem_append_right _ List.mem_cons_self) hnot

theorem metInOrder_cons_of_gt (hgt : h < tag) : MetInOrder h (tag :: tags) := by
  intro before after hsplit hbefore
  rcases List.cons_eq_append_iff.mp hsplit with ⟨-, hcons⟩ | ⟨before', rfl, -⟩
  · exact absurd (List.cons.inj hcons).1 (Nat.ne_of_lt hgt)
  · exact absurd (hbefore tag List.mem_cons_self) (Nat.lt_asymm hgt)

end metInOrder

/-- Before the first pass is over, distinct tags are their own timestamps unless one of them meets the maximum and
is followed by tags that do not increase. -/
theorem stamps_eq_self_iff (hloops : st.timestampLoops = 0) (hmax : st.highestTimestampSeen < 2 ^ 64)
    {tags : List ℕ} (hnodup : tags.Nodup) (hbound : ∀ tag ∈ tags, tag < 2 ^ 64) :
    st.stamps tags = tags ↔ MetInOrder st.highestTimestampSeen tags := by
  induction tags generalizing st with
  | nil => simp [stamps, MetInOrder]
  | cons tag tags ih =>
    obtain ⟨htag, hrestBound⟩ := List.forall_mem_cons.mp hbound
    obtain ⟨hfresh, hrestNodup⟩ := List.nodup_cons.mp hnodup
    have hhigh := highest_next st tag
    have hnext := loops_next st tag
    rw [hloops] at hnext
    have hunshifted : ∀ u ≤ st.highestTimestampSeen, u < 2 ^ 64 → st.stamp u = u := by
      intro u hle hu
      rw [stamp_of_le hle, hloops, Nat.zero_mul, Nat.add_zero, u64_of_lt hu]
    rw [stamps, List.cons.injEq]
    rcases Nat.lt_trichotomy tag st.highestTimestampSeen with hlt | heq | hgt
    · rw [max_eq_left hlt.le] at hhigh
      rw [if_neg (Nat.ne_of_lt hlt)] at hnext
      have hrest := ih hnext (by rw [hhigh]; exact hmax) hrestNodup hrestBound
      rw [hhigh] at hrest
      rw [metInOrder_cons_of_lt hlt, hrest]
      exact and_iff_right (hunshifted tag hlt.le htag)
    · -- the maximum is met, and the next one below it is shifted
      subst heq
      rw [max_self] at hhigh
      rw [if_pos rfl] at hnext
      have hrest := stamps_eq_self_iff_of_met hnext (by rw [hhigh]; exact hmax) hrestNodup hrestBound
        (by rw [hhigh]; exact hfresh)
      rw [hhigh] at hrest
      rw [metInOrder_cons_self hfresh, hrest]
      exact and_iff_right (hunshifted _ (le_refl _) htag)
    · -- the maximum is passed before it is met
      rw [max_eq_right hgt.le] at hhigh
      rw [if_neg (Nat.ne_of_gt hgt)] at hnext
      have hrest := stamps_of_notMem hnext hrestNodup hrestBound (by rw [hhigh]; exact hfresh)
      exact iff_of_true ⟨stamp_of_gt hgt, hrest⟩ (metInOrder_cons_of_gt hgt)

/-! ### The timestamps of a new receiver -/

/-- As in a new receiver, as far as the timestamps depend on it. -/
def Fresh (st : TimestampState) : Prop := st.highestTimestampSeen = 0 ∧ st.timestampLoops = 0

theorem highest_eq_zero_of_stamps (hmax : st.highestTimestampSeen < 2 ^ 48)
    (h : st.stamps [st.highestTimestampSeen, st.highestTimestampSeen] =
      init.stamps [st.highestTimestampSeen, st.highestTimestampSeen]) : st.highestTimestampSeen = 0 := by
  by_contra hne
  have hpos : init.highestTimestampSeen < st.highestTimestampSeen := Nat.pos_of_ne_zero hne
  have hhigh : (st.next st.highestTimestampSeen).highestTimestampSeen = st.highestTimestampSeen := by
    rw [highest_next, max_self]
  have hhigh' : (init.next st.highestTimestampSeen).highestTimestampSeen = st.highestTimestampSeen := by
    rw [highest_next, max_eq_right hpos.le]
  simp only [stamps, List.cons.injEq, and_true] at h
  obtain ⟨hfirst, hsecond⟩ := h
  rw [stamp_of_le (le_refl _), stamp_of_gt hpos] at hfirst
  rw [stamp_of_le hhigh.ge, stamp_of_le hhigh'.ge, hhigh, hhigh', loops_next, loops_next, if_pos rfl,
    if_neg (Nat.ne_of_gt hpos)] at hsecond
  generalize st.highestTimestampSeen = h at *
  have hmore : u64 (st.timestampLoops + 1) * h % 2 ^ 64 = (st.timestampLoops * h + h) % 2 ^ 64 := by
    rw [u64, Nat.mod_mul_mod, Nat.add_one_mul]
  generalize u64 (st.timestampLoops + 1) * h = q at *
  generalize st.timestampLoops * h = p at *
  simp only [init, Nat.zero_mul, u64] at hfirst hsecond
  omega

theorem loops_eq_zero_of_stamps (hmax : st.highestTimestampSeen = 0) (hloops : st.timestampLoops < 2 ^ 64)
    (h : st.stamps [1, 0] = init.stamps [1, 0]) : st.timestampLoops = 0 := by
  have hhigh : (st.next 1).highestTimestampSeen = 1 := by rw [highest_next, hmax]; rfl
  have hcount : (st.next 1).timestampLoops = st.timestampLoops := by
    rw [loops_next, hmax, if_neg (by decide)]
  simp only [stamps, List.cons.injEq, and_true] at h
  have hsecond : (st.next 1).stamp 0 = 0 := h.2
  rw [stamp_of_le (by rw [hhigh]; exact Nat.zero_le 1), hhigh, hcount, Nat.mul_one, Nat.zero_add,
    u64_of_lt hloops] at hsecond
  exact hsecond

theorem fresh_iff_stamps (hmax : st.highestTimestampSeen < 2 ^ 48) (hloops : st.timestampLoops < 2 ^ 64) :
    Fresh st ↔ ∀ tags, (∀ tag ∈ tags, tag < 2 ^ 48) → st.stamps tags = init.stamps tags := by
  constructor
  · intro h tags _
    exact stamps_congr h.1 h.2 tags
  · intro h
    have hzero : st.highestTimestampSeen = 0 :=
      highest_eq_zero_of_stamps hmax (h _ fun tag htag => by simp_all)
    exact ⟨hzero, loops_eq_zero_of_stamps hzero hloops (h _ fun tag htag => by simp_all; omega)⟩

/-- Nothing is left of the tags only if they are all 0, and come in a multiple of 2^64. -/
theorem fresh_after_iff (tags : List ℕ) :
    Fresh (init.after tags) ↔ (∀ tag ∈ tags, tag = 0) ∧ 2 ^ 64 ∣ tags.length := by
  obtain ⟨hle, hmem⟩ := highest_after_spec init tags
  have hzeros : (init.after tags).highestTimestampSeen = 0 ↔ ∀ tag ∈ tags, tag = 0 := by
    constructor
    · intro hzero tag htag
      exact Nat.le_zero.mp (hzero ▸ hle tag (List.mem_cons_of_mem _ htag))
    · intro hall
      rcases List.mem_cons.mp hmem with hstart | hread
      · exact hstart
      · exact hall _ hread
  rw [Fresh, hzeros]
  refine and_congr_right fun hall => ?_
  rw [loops_after_zeros hall]
  exact Nat.dvd_iff_mod_eq_zero.symm

/-! ### Playback -/

/-- The first pass from the initial state: the timestamps are the tags, and the loop count is 1 if the list
starts with a tag 0, which meets the initial maximum. -/
theorem stamps_init_pass {tag : ℕ} {tags : List ℕ} (hinc : (tag :: tags).Pairwise (· < ·)) :
    init.stamps (tag :: tags) = tag :: tags ∧
      (init.after (tag :: tags)).timestampLoops = if tag = 0 then 1 else 0 := by
  by_cases hzero : tag = 0
  · subst hzero
    have hrest : ∀ u ∈ tags, (init.next 0).highestTimestampSeen < u :=
      (List.pairwise_cons.mp hinc).1
    obtain ⟨hstamps, hloops⟩ := stamps_of_increasing (List.pairwise_cons.mp hinc).2 hrest
    refine ⟨?_, ?_⟩
    · rw [stamps, hstamps]
      rfl
    · rw [after, Runs.run_cons, hloops]
      rfl
  · have habove : ∀ u ∈ tag :: tags, init.highestTimestampSeen < u := by
      intro u hu
      show 0 < u
      rcases List.mem_cons.mp hu with rfl | hu
      · omega
      · have := (List.pairwise_cons.mp hinc).1 u hu
        omega
    obtain ⟨hstamps, hloops⟩ := stamps_of_increasing hinc habove
    exact ⟨hstamps, by rw [hloops, if_neg hzero]; rfl⟩

theorem stamp_second_pass_mem {tag : ℕ} {tags : List ℕ} (hinc : (tag :: tags).Pairwise (· < ·))
    (hbound : ∀ u ∈ tag :: tags, u < 2 ^ 48) :
    (init.after (tag :: tags)).stamp tag ∈ tag :: tags := by
  obtain ⟨hle, hmax⟩ := highest_after_spec init (tag :: tags)
  rw [stamp_of_le (hle tag (by simp)), (stamps_init_pass hinc).2]
  split_ifs with hzero
  · -- no tag below 0: the maximum is a tag of the list, and it is the shift
    have hmem : (init.after (tag :: tags)).highestTimestampSeen ∈ tag :: tags := by
      rcases List.mem_cons.mp hmax with hmax | hmax
      · rw [hmax, hzero]
        exact List.mem_cons_self
      · exact hmax
    have := hbound _ hmem
    rw [u64_of_lt (by omega), hzero]
    simpa [hzero] using hmem
  · have := hbound tag (by simp)
    rw [u64_of_lt (by omega)]
    simp

/-- The list `pass` read `passes` times over. -/
def playback (pass : List ℕ) (passes : ℕ) : List ℕ := (List.replicate passes pass).flatten

theorem nodup_stamps_playback {pass : List ℕ} (hne : pass ≠ []) (hinc : pass.Pairwise (· < ·))
    (hbound : ∀ tag ∈ pass, tag < 2 ^ 48) (passes : ℕ) :
    (init.stamps (playback pass passes)).Nodup ↔ passes ≤ 1 := by
  obtain ⟨tag, tags, rfl⟩ := List.exists_cons_of_ne_nil hne
  have hfirst := (stamps_init_pass hinc).1
  match passes with
  | 0 => simp [playback, stamps]
  | 1 =>
    have hpass : playback (tag :: tags) 1 = tag :: tags := by simp [playback]
    rw [hpass, hfirst]
    exact ⟨fun _ => le_refl _, fun _ => hinc.imp fun h => Nat.ne_of_lt h⟩
  | n + 2 =>
    have hsplit : playback (tag :: tags) (n + 2) =
        (tag :: tags) ++ (tag :: (tags ++ playback (tag :: tags) n)) := by
      simp [playback, List.replicate_succ]
    refine ⟨fun hnodup => absurd hnodup ?_, fun hle => absurd hle (by omega)⟩
    rw [hsplit, stamps_append, hfirst, stamps, List.nodup_append]
    rintro ⟨-, -, hdisj⟩
    exact hdisj _ (stamp_second_pass_mem hinc hbound) _ List.mem_cons_self rfl

end TimestampState

end ArtdaqMu2e
