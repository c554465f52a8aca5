import Mathlib.Data.Finset.Union
import Mathlib.Data.Fintype.Basic
import Mathlib.Order.Interval.Finset.Nat
import Mathlib.Tactic.Common

/-!
# Round-robin numbering

`n` parties number what they produce without talking to each other: the `j`-th product of party `p` (both
counted from 0) gets the number `slot n p j = j * n + p + 1`. No two products get the same number, and as long
as all parties have produced the same, no number is left out.
-/

namespace RoundRobin

def slot (n p j : ℕ) : ℕ := j * n + p + 1

theorem slot_pos (n p j : ℕ) : 1 ≤ slot n p j := Nat.le_add_left _ _

theorem slot_succ (n p j : ℕ) : slot n p (j + 1) = n + slot n p j := by
  rw [slot, slot, Nat.succ_mul]
  omega

theorem slot_mono (n p : ℕ) {i j : ℕ} (h : i ≤ j) : slot n p i ≤ slot n p j := by
  have hmul := Nat.mul_le_mul_right n h
  unfold slot
  omega

theorem slot_injective {n p q i j : ℕ} (hp : p < n) (hq : q < n) (h : slot n p i = slot n q j) :
    p = q ∧ i = j := by
  have hsum : p + n * i = q + n * j := by
    simp only [slot, Nat.mul_comm _ n] at h
    omega
  have hn : 0 < n := by omega
  refine ⟨?_, ?_⟩
  · have hmod := congrArg (· % n) hsum
    simpa [Nat.mod_eq_of_lt hp, Nat.mod_eq_of_lt hq] using hmod
  · have hdiv := congrArg (· / n) hsum
    simpa [Nat.add_mul_div_left _ _ hn, Nat.div_eq_of_lt hp, Nat.div_eq_of_lt hq] using hdiv

theorem slot_le {n p j m : ℕ} (hp : p < n) (hj : j < m) : slot n p j ≤ m * n := by
  have hmul : (j + 1) * n ≤ m * n := Nat.mul_le_mul_right n hj
  rw [Nat.succ_mul] at hmul
  unfold slot
  omega

theorem exists_slot {n m id : ℕ} (hpos : 1 ≤ id) (hle : id ≤ m * n) :
    ∃ p j, p < n ∧ j < m ∧ slot n p j = id := by
  have hn : 0 < n := by
    rcases Nat.eq_zero_or_pos n with rfl | hn
    · omega
    · exact hn
  refine ⟨(id - 1) % n, (id - 1) / n, Nat.mod_lt _ hn, ?_, ?_⟩
  · rw [Nat.div_lt_iff_lt_mul hn]
    omega
  · have := Nat.div_add_mod' (id - 1) n
    unfold slot
    omega

theorem biUnion_slots (n m : ℕ) :
    (Finset.univ.biUnion fun p : Fin n => ((List.range m).map (slot n p)).toFinset) = Finset.Icc 1 (m * n) := by
  ext id
  simp only [Finset.mem_biUnion, Finset.mem_univ, true_and, List.mem_toFinset, List.mem_map, List.mem_range,
    Finset.mem_Icc]
  constructor
  · rintro ⟨p, j, hj, rfl⟩
    exact ⟨slot_pos n p j, slot_le p.isLt hj⟩
  · rintro ⟨hpos, hle⟩
    obtain ⟨p, j, hp, hj, hid⟩ := exists_slot hpos hle
    exact ⟨⟨p, hp⟩, j, hj, hid⟩

end RoundRobin
