import Mathlib.Algebra.BigOperators.Group.List.Basic
import Mathlib.Algebra.Order.BigOperators.Group.List
import Mathlib.Data.Finset.Card
import Mathlib.Data.List.Dedup
import Mathlib.Tactic.Common

/-!
# Queries over lists of rows

`union` takes the rows of two tables without repeats, and `groupSum` has one row for each key, with the sum over the
rows of that key. What a sum over a union misses are the repeats: the copies of a row after its first one
(`sumAt_eq_dedup_add_repeats`).
-/

namespace Query

variable {α κ M : Type*}

section sum
variable [DecidableEq κ] [AddCommMonoid M] (key : α → κ) (val : α → M)

/-- `SUM` over the rows with a key. -/
def sumAt (rows : List α) (k : κ) : M := ((rows.filter (key · = k)).map val).sum

/-- `GROUP BY`, with a sum. -/
def groupSum (rows : List α) : List (κ × M) := (rows.map key).dedup.map fun k => (k, sumAt key val rows k)

theorem filter_groupSum {rows : List α} {k : κ} (hk : k ∈ rows.map key) :
    (groupSum key val rows).filter (·.1 = k) = [(k, sumAt key val rows k)] := by
  have hone : (rows.map key).dedup.filter (· = k) = [k] := by
    rw [List.filter_eq, List.count_dedup, if_pos hk, List.replicate_one]
  rw [groupSum, List.filter_map]
  show ((rows.map key).dedup.filter (· = k)).map _ = _
  rw [hone, List.map_singleton]

theorem length_groupSum (rows : List α) : (groupSum key val rows).length = (rows.map key).toFinset.card := by
  rw [groupSum, List.length_map, List.card_toFinset]

theorem sumAt_append (rows rows' : List α) (k : κ) :
    sumAt key val (rows ++ rows') k = sumAt key val rows k + sumAt key val rows' k := by
  rw [sumAt, List.filter_append, List.map_append, List.sum_append, sumAt, sumAt]

theorem sumAt_perm {rows rows' : List α} (h : rows.Perm rows') (k : κ) : sumAt key val rows k = sumAt key val rows' k :=
  ((h.filter _).map val).sum_eq

theorem sumAt_of_nodup {rows rows' : List α} (h : rows.Nodup) (h' : rows'.Nodup) (hmem : ∀ row, row ∈ rows ↔ row ∈ rows')
    (k : κ) : sumAt key val rows k = sumAt key val rows' k :=
  sumAt_perm key val ((List.perm_ext_iff_of_nodup h h').mpr hmem) k

end sum

section union
variable [DecidableEq α]

/-- `UNION`: each row once. -/
def union (rows rows' : List α) : List α := (rows ++ rows').dedup

/-- The copies of rows after the first. -/
def repeats (rows : List α) : List α := rows.diff rows.dedup

theorem nodup_union (rows rows' : List α) : (union rows rows').Nodup := List.nodup_dedup _

theorem mem_union {rows rows' : List α} {row : α} : row ∈ union rows rows' ↔ row ∈ rows ∨ row ∈ rows' := by
  rw [union, List.mem_dedup, List.mem_append]

theorem dedup_append_repeats_perm (rows : List α) : (rows.dedup ++ repeats rows).Perm rows := by
  refine List.subperm_append_diff_self_of_count_le fun row hrow => ?_
  rw [List.count_dedup, if_pos (List.mem_dedup.mp hrow)]
  exact List.count_pos_iff.mpr (List.mem_dedup.mp hrow)

theorem mem_repeats_iff {rows : List α} {row : α} : row ∈ repeats rows ↔ 2 ≤ rows.count row := by
  have hcount := (dedup_append_repeats_perm rows).count_eq row
  rw [List.count_append, List.count_dedup] at hcount
  rw [← List.count_pos_iff]
  split_ifs at hcount with hmem
  · omega
  · rw [List.count_eq_zero_of_not_mem hmem] at hcount ⊢
    omega

theorem mem_of_mem_repeats {rows : List α} {row : α} (h : row ∈ repeats rows) : row ∈ rows :=
  (dedup_append_repeats_perm rows).subset (List.mem_append_right _ h)

/-- What a sum over the rows without repeats misses. -/
theorem sumAt_eq_dedup_add_repeats [DecidableEq κ] [AddCommMonoid M] (key : α → κ) (val : α → M) (rows : List α) (k : κ) :
    sumAt key val rows k = sumAt key val rows.dedup k + sumAt key val (repeats rows) k := by
  rw [← sumAt_append]
  exact sumAt_perm key val (dedup_append_repeats_perm rows).symm k

end union

theorem sumAt_eq_zero_iff [DecidableEq κ] [AddCommMonoid M] [PartialOrder M] [IsOrderedAddMonoid M] {key : α → κ}
    {val : α → M} {rows : List α} (h : ∀ row ∈ rows, 0 ≤ val row) :
    (∀ k, sumAt key val rows k = 0) ↔ ∀ row ∈ rows, val row = 0 := by
  constructor
  · intro hsum row hrow
    have hmem : val row ∈ (rows.filter (key · = key row)).map val :=
      List.mem_map_of_mem (List.mem_filter.mpr ⟨hrow, by simp⟩)
    refine List.all_zero_of_le_zero_le_of_sum_eq_zero (fun time htime => ?_) (hsum (key row)) hmem
    obtain ⟨other, hother, rfl⟩ := List.mem_map.mp htime
    exact h other (List.mem_of_mem_filter hother)
  · intro hzero k
    refine List.sum_eq_zero fun time htime => ?_
    obtain ⟨row, hrow, rfl⟩ := List.mem_map.mp htime
    exact hzero row (List.mem_of_mem_filter hrow)

end Query
