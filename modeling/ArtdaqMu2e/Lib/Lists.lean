import Mathlib.Data.List.DropRight
import Mathlib.Data.List.Forall2
import Mathlib.Tactic.Common

/-!
# Lists

Where an element sits in a list that got one more element at its end, the last element with a property, the last `n`
elements as a window that slides on, lists related element by element, a counter that counts some of the steps, and
concatenations that can be taken apart.
-/

namespace Lists

variable {α β γ : Type*}

theorem snoc_eq_append_cons {l before after : List α} {x y : α} (h : l ++ [x] = before ++ y :: after) :
    (after = [] ∧ l = before ∧ x = y) ∨ ∃ rest, after = rest ++ [x] ∧ l = before ++ y :: rest := by
  rcases List.eq_nil_or_concat after with rfl | ⟨rest, last, rfl⟩
  · obtain ⟨hl, hx⟩ := List.append_inj' h rfl
    exact Or.inl ⟨rfl, hl, by simpa using hx⟩
  · have h' : l ++ [x] = (before ++ y :: rest) ++ [last] := by simpa using h
    obtain ⟨hl, hx⟩ := List.append_inj' h' rfl
    obtain rfl : x = last := by simpa using hx
    exact Or.inr ⟨rest, List.concat_eq_append, hl⟩

theorem filterMap_concat (f : α → Option β) (l : List α) (x : α) :
    (l ++ [x]).filterMap f = l.filterMap f ++ (f x).toList := by
  rw [List.filterMap_append]
  cases hx : f x <;> simp [hx]

theorem exists_rest_of_append_eq {l missing front more : List α} (h : l ++ missing = front ++ more)
    (hlen : front.length ≤ l.length) : ∃ rest, l = front ++ rest ∧ rest ++ missing = more := by
  have hfront : front <+: l :=
    List.prefix_of_prefix_length_le ⟨more, h.symm⟩ (List.prefix_append l missing) hlen
  obtain ⟨rest, rfl⟩ := hfront
  rw [List.append_assoc] at h
  exact ⟨rest, rfl, List.append_cancel_left h⟩

/-- `x` is the last element with a property. -/
def IsLast (p : α → Prop) (l : List α) (x : α) : Prop :=
  ∃ before after, l = before ++ x :: after ∧ p x ∧ ∀ y ∈ after, ¬ p y

theorem exists_isLast {p : α → Prop} {l : List α} (h : ∃ x ∈ l, p x) : ∃ x, IsLast p l x := by
  induction l with
  | nil =>
    obtain ⟨x, hx, -⟩ := h
    cases hx
  | cons a l ih =>
    by_cases hrest : ∃ x ∈ l, p x
    · obtain ⟨x, before, after, rfl, hx, hafter⟩ := ih hrest
      exact ⟨x, a :: before, after, rfl, hx, hafter⟩
    · obtain ⟨x, hx, hpx⟩ := h
      rcases List.mem_cons.mp hx with rfl | hx
      · exact ⟨x, [], l, rfl, hpx, fun y hy hpy => hrest ⟨y, hy, hpy⟩⟩
      · exact absurd ⟨x, hx, hpx⟩ hrest

theorem isLast_concat_self {p : α → Prop} {x : α} (hx : p x) (l : List α) : IsLast p (l ++ [x]) x :=
  ⟨l, [], rfl, hx, by simp⟩

theorem IsLast.concat {p : α → Prop} {l : List α} {x y : α} (h : IsLast p l x) (hy : ¬ p y) :
    IsLast p (l ++ [y]) x := by
  obtain ⟨before, after, rfl, hx, hafter⟩ := h
  refine ⟨before, after ++ [y], by simp, hx, ?_⟩
  exact List.forall_mem_append.mpr ⟨hafter, List.forall_mem_singleton.mpr hy⟩

/-! ### Windows -/

theorem rtake_of_le {l : List α} {n : ℕ} (h : l.length ≤ n) : l.rtake n = l := by
  rw [List.rtake, Nat.sub_eq_zero_of_le h, List.drop_zero]

theorem rdrop_of_le {l : List α} {n : ℕ} (h : l.length ≤ n) : l.rdrop n = [] := by
  rw [List.rdrop, Nat.sub_eq_zero_of_le h, List.take_zero]

theorem rtake_cons_of_lt {x : α} {l : List α} {n : ℕ} (h : n < (x :: l).length) : (x :: l).rtake n = l.rtake n := by
  rw [List.length_cons] at h
  rw [List.rtake, List.rtake, List.length_cons, Nat.sub_add_comm (Nat.le_of_lt_succ h), List.drop_succ_cons]

theorem rdrop_cons_of_lt {x : α} {l : List α} {n : ℕ} (h : n < (x :: l).length) :
    (x :: l).rdrop n = x :: l.rdrop n := by
  rw [List.length_cons] at h
  rw [List.rdrop, List.rdrop, List.length_cons, Nat.sub_add_comm (Nat.le_of_lt_succ h), List.take_succ_cons]

theorem rtake_concat (l : List α) (x : α) (n : ℕ) : (l ++ [x]).rtake n = (l.rtake n ++ [x]).rtake n := by
  cases n with
  | zero => simp
  | succ n =>
    have hinner : (l.rtake (n + 1)).rtake n = l.rtake n := by
      simp only [List.rtake, List.drop_drop, List.length_drop]
      congr 1
      omega
    rw [List.rtake_concat_succ, List.rtake_concat_succ, hinner]

theorem rdrop_append_rtake (l : List α) (n : ℕ) : l.rdrop n ++ l.rtake n = l :=
  List.take_append_drop _ l

theorem rdrop_concat (l : List α) (x : α) (n : ℕ) :
    (l ++ [x]).rdrop n = l.rdrop n ++ (l.rtake n ++ [x]).rdrop n := by
  have hwhole : (l ++ [x]).rdrop n ++ (l ++ [x]).rtake n =
      (l.rdrop n ++ (l.rtake n ++ [x]).rdrop n) ++ (l ++ [x]).rtake n := by
    rw [rdrop_append_rtake, rtake_concat, List.append_assoc, rdrop_append_rtake, ← List.append_assoc,
      rdrop_append_rtake]
  exact List.append_cancel_right hwhole

theorem exists_split_of_mem_window {l : List α} {n m : ℕ} {x : α}
    (h : x ∈ (l.take n).rtake m) :
    ∃ before after, l = before ++ x :: after ∧ after.length < m + (l.length - n) := by
  obtain ⟨skipped, behind, hwindow⟩ := List.append_of_mem h
  have hlength : ((l.take n).rtake m).length ≤ m := by
    rw [List.rtake, List.length_drop]
    omega
  refine ⟨(l.take n).rdrop m ++ skipped, behind ++ l.drop n, ?_, ?_⟩
  · rw [List.append_assoc, ← List.cons_append, ← List.append_assoc skipped, ← hwindow, ← List.append_assoc,
      rdrop_append_rtake, List.take_append_drop]
  · rw [hwindow, List.length_append, List.length_cons] at hlength
    rw [List.length_append, List.length_drop]
    omega

theorem map_prod_eq_iff {f : α → β} {g : α → γ} {l l' : List α} :
    l.map (fun a => (f a, g a)) = l'.map (fun a => (f a, g a)) ↔ l.map f = l'.map f ∧ l.map g = l'.map g := by
  induction l generalizing l' with
  | nil => cases l' <;> simp
  | cons a l ih =>
    cases l' with
    | nil => simp
    | cons a' l' =>
      simp only [List.map_cons, List.cons.injEq, Prod.mk.injEq, ih]
      exact and_and_and_comm

variable {R S : α → β → Prop}

theorem rel_of_forall₂_append {a : α} {b : β} {before after : List α} {before' after' : List β}
    (h : List.Forall₂ R (before ++ a :: after) (before' ++ b :: after'))
    (hlen : before.length = before'.length) : R a b := by
  induction before generalizing before' with
  | nil =>
    rw [List.length_eq_zero_iff.mp hlen.symm] at h
    exact (List.forall₂_cons.mp h).1
  | cons x before ih =>
    cases before' with
    | nil => cases hlen
    | cons y before' => exact ih (List.forall₂_cons.mp h).2 (Nat.succ.inj hlen)

theorem forall_of_forall₂ {P : β → Prop} (h : ∀ a b, R a b → S a b → P b) {l : List α} {l' : List β}
    (hR : List.Forall₂ R l l') (hS : List.Forall₂ S l l') : ∀ b ∈ l', P b := by
  induction hR with
  | nil => simp
  | cons hab _ ih =>
    cases hS with
    | cons hab' hrest => exact List.forall_mem_cons.mpr ⟨h _ _ hab hab', ih hrest⟩

theorem forall₂_of_map_eq {f : α → γ} {g : β → γ} (h : ∀ a b, R a b → f a = g b → S a b) {l : List α}
    {l' : List β} (hR : List.Forall₂ R l l') (hmap : l.map f = l'.map g) : List.Forall₂ S l l' := by
  induction hR with
  | nil => exact List.Forall₂.nil
  | cons hab _ ih =>
    obtain ⟨hhead, htail⟩ := List.cons.inj hmap
    exact List.Forall₂.cons (h _ _ hab hhead) (ih htail)

/-! ### Counting on -/

/-- The values of a counter before each of the steps; a step counts if it is `true`. -/
def levels : ℕ → List Bool → List ℕ
  | _, [] => []
  | k, d :: ds => k :: levels (if d then k + 1 else k) ds

/-- The counter takes every value up to the last one. -/
theorem mem_levels_iff {k v : ℕ} {ds : List Bool} (h : ds ≠ []) :
    v ∈ levels k ds ↔ k ≤ v ∧ v ≤ k + ds.dropLast.count true := by
  induction ds generalizing k with
  | nil => exact absurd rfl h
  | cons d ds ih =>
    rcases List.eq_nil_or_concat ds with rfl | ⟨_, _, hds⟩
    · simp [levels, Nat.le_antisymm_iff, and_comm]
    · have hne : ds ≠ [] := by simp [hds]
      rw [levels, List.mem_cons, ih hne, List.dropLast_cons_of_ne_nil hne, List.count_cons]
      cases d <;> simp <;> omega

theorem le_of_mem_levels {k v : ℕ} {ds : List Bool} (h : v ∈ levels k ds) : k ≤ v ∧ v ≤ k + ds.count true := by
  have hne : ds ≠ [] := by
    rintro rfl
    cases h
  obtain ⟨hle, hlast⟩ := (mem_levels_iff hne).mp h
  exact ⟨hle, hlast.trans (Nat.add_le_add_left ((List.dropLast_sublist ds).count_le true) k)⟩

theorem pairwise_levels (k : ℕ) (ds : List Bool) : (levels k ds).Pairwise (· ≤ ·) := by
  induction ds generalizing k with
  | nil => exact List.Pairwise.nil
  | cons d ds ih =>
    refine List.Pairwise.cons (fun v hv => ?_) (ih _)
    have hle := (le_of_mem_levels hv).1
    split at hle <;> omega

theorem length_levels (k : ℕ) (ds : List Bool) : (levels k ds).length = ds.length := by
  induction ds generalizing k with
  | nil => rfl
  | cons d ds ih => rw [levels, List.length_cons, ih, List.length_cons]

theorem getElem?_levels (k : ℕ) {ds : List Bool} {i : ℕ} (hi : i < ds.length) :
    (levels k ds)[i]? = some (k + (ds.take i).count true) := by
  induction ds generalizing k i with
  | nil => exact absurd hi (Nat.not_lt_zero i)
  | cons d ds ih =>
    cases i with
    | zero => rfl
    | succ i =>
      rw [levels, List.getElem?_cons_succ, ih _ (Nat.lt_of_succ_lt_succ hi), List.take_succ_cons, List.count_cons]
      cases d with
      | false => simp
      | true => simp [Nat.add_right_comm, Nat.add_assoc]

/-- The counter is the same before two steps exactly if no step from the first one up to the second counts. -/
theorem levels_eq_iff (k : ℕ) {ds : List Bool} {i j : ℕ} (hij : i ≤ j) (hj : j < ds.length) :
    (levels k ds)[i]? = (levels k ds)[j]? ↔ ∀ m, i ≤ m → m < j → ds[m]? = some false := by
  obtain ⟨d, rfl⟩ := Nat.exists_eq_add_of_le hij
  have hnone : (levels k ds)[i]? = (levels k ds)[i + d]? ↔ true ∉ (ds.drop i).take d := by
    rw [getElem?_levels k (by omega), getElem?_levels k hj, List.take_add, List.count_append, Option.some_inj,
      ← List.count_eq_zero]
    omega
  rw [hnone, List.mem_iff_getElem?]
  constructor
  · intro h m him hm
    obtain ⟨n, rfl⟩ := Nat.exists_eq_add_of_le him
    cases hds : ds[i + n] with
    | false => rw [List.getElem?_eq_getElem (by omega), hds]
    | true =>
      refine absurd ⟨n, ?_⟩ h
      rw [List.getElem?_take_of_lt (by omega), List.getElem?_drop, List.getElem?_eq_getElem (by omega), hds]
  · rintro h ⟨n, hn⟩
    have hlt : n < d := by
      have hlen := (List.getElem?_eq_some_iff.mp hn).1
      rw [List.length_take] at hlen
      omega
    rw [List.getElem?_take_of_lt hlt, List.getElem?_drop, h (i + n) (by omega) (by omega)] at hn
    cases hn

/-! ### Concatenations that can be taken apart -/

end Lists
