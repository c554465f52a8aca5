import Mathlib.Data.Finset.Dedup
import Mathlib.Data.Finset.Max
import Mathlib.Tactic.Common

/-!
# A finite set that keeps its largest elements

`push k s x` inserts `x` into `s` and, if more than `k` elements are left, erases the smallest one. A set
filled that way is the set of the `k` largest elements ever pushed (`IsTop`), in whatever order they came,
also when an element comes back after it was erased (`IsTop.push`). Membership is then a matter of counting
(`IsTop.mem_iff`): an element is in as long as fewer than `k` larger ones were pushed.
-/

namespace TopSet

variable {α : Type*} [LinearOrder α]

/-- Erase the smallest element, if there is one. -/
def eraseMin (s : Finset α) : Finset α :=
  if h : s.Nonempty then s.erase (s.min' h) else s

/-- Insert `x`, then erase the smallest element if there are more than `k`. -/
def push (k : ℕ) (s : Finset α) (x : α) : Finset α :=
  if k < (insert x s).card then eraseMin (insert x s) else insert x s

/-- `s` holds the `k` largest elements of `p` (all of them, if there are no more than `k`). -/
structure IsTop (k : ℕ) (p s : Finset α) : Prop where
  subset : s ⊆ p
  card : s.card = min k p.card
  lt_of_mem : ∀ a ∈ s, ∀ b ∈ p, b ∉ s → b < a

variable {k : ℕ} {p s : Finset α} {x y : α}

/-! ### One push -/

theorem eraseMin_of_nonempty (h : s.Nonempty) : eraseMin s = s.erase (s.min' h) := dif_pos h

theorem card_eraseMin (h : s.Nonempty) : (eraseMin s).card = s.card - 1 := by
  rw [eraseMin_of_nonempty h, Finset.card_erase_of_mem (s.min'_mem h)]

theorem mem_eraseMin (h : s.Nonempty) : y ∈ eraseMin s ↔ y ∈ s ∧ s.min' h < y := by
  rw [eraseMin_of_nonempty h, Finset.mem_erase]
  constructor
  · rintro ⟨hne, hy⟩
    exact ⟨hy, lt_of_le_of_ne (s.min'_le y hy) (Ne.symm hne)⟩
  · rintro ⟨hy, hlt⟩
    exact ⟨ne_of_gt hlt, hy⟩

theorem push_of_mem (hx : x ∈ s) (hk : s.card ≤ k) : push k s x = s := by
  rw [push, Finset.insert_eq_of_mem hx, if_neg (not_lt.mpr hk)]

theorem push_of_card_lt (hk : s.card < k) : push k s x = insert x s :=
  if_neg (by have := Finset.card_insert_le x s; omega)

theorem push_of_card_eq (hx : x ∉ s) (hk : s.card = k) : push k s x = eraseMin (insert x s) :=
  if_pos (by rw [Finset.card_insert_of_notMem hx]; omega)

theorem card_push_le (hk : s.card ≤ k) : (push k s x).card ≤ k := by
  have hle := Finset.card_insert_le x s
  rw [push]
  split_ifs
  · rw [card_eraseMin (Finset.insert_nonempty x s)]
    omega
  · omega

theorem push_subset : push k s x ⊆ insert x s := by
  rw [push]
  split_ifs
  · rw [eraseMin_of_nonempty (Finset.insert_nonempty x s)]
    exact Finset.erase_subset _ _
  · exact Finset.Subset.refl _

theorem pushAll_subset (k : ℕ) (s : Finset α) (xs : List α) : xs.foldl (push k) s ⊆ s ∪ xs.toFinset := by
  induction xs generalizing s with
  | nil => simp
  | cons x xs ih =>
    have hunion : s ∪ (x :: xs).toFinset = insert x s ∪ xs.toFinset := by
      rw [List.toFinset_cons, Finset.union_insert, Finset.insert_union]
    rw [hunion]
    exact (ih (push k s x)).trans (Finset.union_subset_union_left push_subset)

theorem push_nonempty (hk : 0 < k) : (push k s x).Nonempty := by
  rw [push]
  split_ifs with hlt
  · rw [← Finset.card_pos, card_eraseMin (Finset.insert_nonempty x s)]
    omega
  · exact Finset.insert_nonempty x s

theorem mem_push_of_lt (hy : y ∈ s) (hlt : x < y) : y ∈ push k s x := by
  have hmem : y ∈ insert x s := Finset.mem_insert_of_mem hy
  rw [push]
  split_ifs
  · rw [mem_eraseMin (Finset.insert_nonempty x s)]
    exact ⟨hmem, lt_of_le_of_lt (Finset.min'_le _ x (Finset.mem_insert_self x s)) hlt⟩
  · exact hmem

theorem mem_push_of_forall_le (hk : 0 < k) (h : ∀ y ∈ s, y ≤ x) : x ∈ push k s x := by
  have hmem := Finset.mem_insert_self x s
  rw [push]
  split_ifs with hlt
  · rw [mem_eraseMin (Finset.insert_nonempty x s)]
    refine ⟨hmem, lt_of_le_of_ne (Finset.min'_le _ x hmem) fun hmin => ?_⟩
    -- if `x` were the minimum too, it would be alone
    have hall : ∀ y ∈ insert x s, y = x := by
      intro y hy
      refine le_antisymm ?_ (hmin ▸ Finset.min'_le _ y hy)
      rcases Finset.mem_insert.mp hy with rfl | hy
      · exact le_refl _
      · exact h y hy
    have hcard : (insert x s).card ≤ 1 :=
      Finset.card_le_one.mpr fun a ha b hb => (hall a ha).trans (hall b hb).symm
    omega
  · exact hmem

theorem mem_push_iff_of_lt (hlt : x < y) : y ∈ push k s x ↔ y ∈ s := by
  constructor
  · intro hy
    rcases Finset.mem_insert.mp (push_subset hy) with rfl | hy
    · exact absurd hlt (lt_irrefl _)
    · exact hy
  · intro hy
    exact mem_push_of_lt hy hlt

/-! ### Counting larger elements -/

theorem card_filter_lt_le {before after : List α} (hinc : (before ++ x :: after).Pairwise (· < ·)) :
    ((before ++ x :: after).toFinset.filter (x < ·)).card ≤ after.length := by
  have hsub : (before ++ x :: after).toFinset.filter (x < ·) ⊆ after.toFinset := by
    intro y hy
    obtain ⟨hy, hlt⟩ := Finset.mem_filter.mp hy
    rw [List.mem_toFinset, List.mem_append, List.mem_cons] at hy
    rcases hy with hbefore | rfl | hafter
    · exact absurd ((List.pairwise_append.mp hinc).2.2 y hbefore x List.mem_cons_self) (lt_asymm hlt)
    · exact absurd hlt (lt_irrefl y)
    · exact List.mem_toFinset.mpr hafter
  exact (Finset.card_le_card hsub).trans (List.toFinset_card_le after)

/-! ### The set of the largest elements -/

namespace IsTop

theorem empty (k : ℕ) : IsTop k (∅ : Finset α) ∅ :=
  ⟨Finset.Subset.refl _, by simp, by simp⟩

theorem of_card_le (h : s.card ≤ k) : IsTop k s s :=
  ⟨Finset.Subset.refl _, by omega, fun _ _ _ hb hnot => absurd hb hnot⟩

theorem card_le (h : IsTop k p s) : s.card ≤ k := by
  rw [h.card]
  exact min_le_left _ _

theorem card_eq_of_notMem (h : IsTop k p s) (hx : x ∈ p) (hnot : x ∉ s) : s.card = k := by
  have hlt : s.card < p.card :=
    Finset.card_lt_card ⟨h.subset, fun hsub => hnot (hsub hx)⟩
  have := h.card
  omega

theorem push_again (h : IsTop k p s) (hx : x ∈ p) (hnot : x ∉ s) : push k s x = s := by
  have hmin : ∀ y ∈ insert x s, x ≤ y := by
    intro y hy
    rcases Finset.mem_insert.mp hy with rfl | hy
    · exact le_refl _
    · exact le_of_lt (h.lt_of_mem y hy x hx hnot)
  have hne := Finset.insert_nonempty x s
  have heq : (insert x s).min' hne = x :=
    le_antisymm (Finset.min'_le _ x (Finset.mem_insert_self x s)) (Finset.le_min' _ hne x hmin)
  rw [push_of_card_eq hnot (h.card_eq_of_notMem hx hnot), eraseMin_of_nonempty hne, heq,
    Finset.erase_insert hnot]

theorem push_full (h : IsTop k p s) (hx : x ∉ p) (hk : s.card = k) :
    IsTop k (insert x p) (push k s x) := by
  have hnot : x ∉ s := fun hmem => hx (h.subset hmem)
  have hne := Finset.insert_nonempty x s
  have hpk : k ≤ p.card := by have := h.card; omega
  rw [push_of_card_eq hnot hk]
  refine ⟨?_, ?_, ?_⟩
  · rw [eraseMin_of_nonempty hne]
    exact (Finset.erase_subset _ _).trans (Finset.insert_subset_insert x h.subset)
  · rw [card_eraseMin hne, Finset.card_insert_of_notMem hnot, Finset.card_insert_of_notMem hx]
    omega
  · intro a ha b hb hbnot
    obtain ⟨ha, hmina⟩ := (mem_eraseMin hne).mp ha
    by_cases hbs : b ∈ insert x s
    · -- in the old set or new, but gone: `b` is the minimum
      refine lt_of_le_of_lt (not_lt.mp fun hlt => ?_) hmina
      exact hbnot ((mem_eraseMin hne).mpr ⟨hbs, hlt⟩)
    · obtain ⟨hbx, hbout⟩ := not_or.mp (Finset.mem_insert.not.mp hbs)
      have hbp : b ∈ p := (Finset.mem_insert.mp hb).resolve_left hbx
      rcases Finset.mem_insert.mp ha with rfl | ha
      · -- `a` is the new element; the minimum below it is an old one
        have hmin := Finset.mem_of_mem_insert_of_ne ((insert a s).min'_mem hne) (ne_of_lt hmina)
        exact (h.lt_of_mem _ hmin b hbp hbout).trans hmina
      · exact h.lt_of_mem a ha b hbp hbout

/-- **A push keeps the set of the largest elements**, for every element, new or not. -/
theorem push (h : IsTop k p s) (x : α) : IsTop k (insert x p) (push k s x) := by
  by_cases hx : x ∈ s
  · rw [push_of_mem hx h.card_le, Finset.insert_eq_of_mem (h.subset hx)]
    exact h
  by_cases hp : x ∈ p
  · rw [h.push_again hp hx, Finset.insert_eq_of_mem hp]
    exact h
  by_cases hk : s.card = k
  · exact h.push_full hp hk
  · -- not full: nothing was ever left out
    have hlt : s.card < k := lt_of_le_of_ne h.card_le hk
    have hcard := h.card
    have heq : s = p := Finset.eq_of_subset_of_card_le h.subset (by omega)
    rw [push_of_card_lt hlt, heq]
    refine of_card_le ?_
    rw [Finset.card_insert_of_notMem hp]
    omega

theorem pushAll (h : IsTop k p s) (xs : List α) :
    IsTop k (p ∪ xs.toFinset) (xs.foldl (TopSet.push k) s) := by
  induction xs generalizing p s with
  | nil => simpa using h
  | cons x xs ih =>
    have hunion : p ∪ (x :: xs).toFinset = insert x p ∪ xs.toFinset := by
      rw [List.toFinset_cons, Finset.union_insert, Finset.insert_union]
    rw [hunion]
    exact ih (h.push x)

/-- An element is in the set exactly when it was pushed and fewer than `k` larger ones were. -/
theorem mem_iff (h : IsTop k p s) : x ∈ s ↔ x ∈ p ∧ (p.filter (x < ·)).card < k := by
  constructor
  · intro hx
    refine ⟨h.subset hx, ?_⟩
    have hsub : p.filter (x < ·) ⊆ s.erase x := by
      intro y hy
      obtain ⟨hy, hlt⟩ := Finset.mem_filter.mp hy
      refine Finset.mem_erase.mpr ⟨ne_of_gt hlt, ?_⟩
      by_contra hnot
      exact lt_asymm hlt (h.lt_of_mem x hx y hy hnot)
    have hle := Finset.card_le_card hsub
    have hpos := Finset.card_pos.mpr ⟨x, hx⟩
    have hcard := h.card_le
    rw [Finset.card_erase_of_mem hx] at hle
    omega
  · rintro ⟨hx, hlt⟩
    by_contra hnot
    have hsub : s ⊆ p.filter (x < ·) := fun y hy =>
      Finset.mem_filter.mpr ⟨h.subset hy, h.lt_of_mem y hy x hx hnot⟩
    have hle := Finset.card_le_card hsub
    rw [h.card_eq_of_notMem hx hnot] at hle
    omega

end IsTop

end TopSet
