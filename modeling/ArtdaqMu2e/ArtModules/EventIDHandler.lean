import ArtdaqMu2e.Lib.Runs
import Mathlib.Data.Nat.Init
import Mathlib.Algebra.Group.Nat.Defs

/-!
# The event ID handler

`EventIDHandler` makes the ids of art from a run id and a timestamp: the upper half of the timestamp is the subrun and
the lower half the event, both counted from one. Without a bound that is a numbering of the timestamps in their order
(`artID`). In 32 bits the last value of a half wraps around to zero, and the handler is faithful to the numbering
exactly as long as no timestamp has such a half (`faithful_iff`).
-/

namespace ArtdaqMu2e

/-- What `update` gets: the run id of the raw event header, and the timestamp. -/
structure UpdateCall where
  runID : UInt32
  timestamp : UInt64
  deriving DecidableEq, Repr

structure EventIDHandler where
  run : UInt32
  subRun : UInt32
  event : UInt32
  deriving DecidableEq, Repr

namespace EventIDHandler

def init : EventIDHandler := ⟨0, 0, 0⟩

def update (st : EventIDHandler) (call : UpdateCall) : EventIDHandler :=
  let st := if st.run ≠ call.runID then { st with run := call.runID, event := 0 } else st
  { st with subRun := (call.timestamp >>> 32).toUInt32 + 1, event := call.timestamp.toUInt32 + 1 }

theorem update_eq (st : EventIDHandler) (call : UpdateCall) :
    update st call = ⟨call.runID, (call.timestamp >>> 32).toUInt32 + 1, call.timestamp.toUInt32 + 1⟩ := by
  unfold update
  split_ifs with hrun
  · rfl
  · rw [← not_not.mp hrun]

/-! ### The numbering -/

/-- Subrun and event of a timestamp, both from one. -/
def artID (timestamp : ℕ) : ℕ × ℕ := (timestamp / 2 ^ 32 + 1, timestamp % 2 ^ 32 + 1)

theorem artID_lt {a b : ℕ} (h : a < b) : Prod.Lex (· < ·) (· < ·) (artID a) (artID b) := by
  rw [Prod.lex_def]
  dsimp only [artID]
  omega

/-- No half of the timestamp is the last value of 32 bits. -/
def NoWrap (timestamp : UInt64) : Prop :=
  (timestamp >>> 32).toUInt32 ≠ 0xFFFFFFFF ∧ timestamp.toUInt32 ≠ 0xFFFFFFFF

theorem toNat_high (timestamp : UInt64) : (timestamp >>> 32).toUInt32.toNat = timestamp.toNat / 2 ^ 32 := by
  have hlt := timestamp.toNat_lt
  rw [UInt64.toNat_toUInt32, UInt64.toNat_shiftRight, Nat.shiftRight_eq_div_pow]
  exact Nat.mod_eq_of_lt (Nat.div_lt_of_lt_mul hlt)

theorem toNat_low (timestamp : UInt64) : timestamp.toUInt32.toNat = timestamp.toNat % 2 ^ 32 :=
  UInt64.toNat_toUInt32 timestamp

theorem toNat_add_one (half : UInt32) : (half + 1).toNat = if half = 0xFFFFFFFF then 0 else half.toNat + 1 := by
  have hlt := half.toNat_lt
  rw [UInt32.toNat_add]
  split_ifs with hlast
  · rw [hlast]
    rfl
  · have hne : half.toNat ≠ 0xFFFFFFFF := fun h => hlast (UInt32.toNat_inj.mp h)
    exact Nat.mod_eq_of_lt (by rw [UInt32.toNat_one]; omega)

/-! ### The handler -/

def ids (st : EventIDHandler) : ℕ × ℕ := (st.subRun.toNat, st.event.toNat)

/-- The handler after the calls `done` and `call`. -/
def after (done : List UpdateCall) (call : UpdateCall) : EventIDHandler := Runs.run update init (done ++ [call])

theorem after_eq (done : List UpdateCall) (call : UpdateCall) :
    after done call = ⟨call.runID, (call.timestamp >>> 32).toUInt32 + 1, call.timestamp.toUInt32 + 1⟩ := by
  rw [after, Runs.run_append]
  exact update_eq _ call

/-- Each call of a run gives its run id, ids that are at least one and are those of its timestamp, whatever was
called before; and the ids of two calls are in the order of their timestamps. -/
structure Faithful (calls : List UpdateCall) : Prop where
  run : ∀ done call, done ++ [call] <+: calls → (after done call).run = call.runID
  oneBased : ∀ done call, done ++ [call] <+: calls → 1 ≤ (after done call).subRun ∧ 1 ≤ (after done call).event
  ofTimestamp : ∀ done call, done ++ [call] <+: calls → ∀ done' call', call'.timestamp = call.timestamp →
    ids (after done' call') = ids (after done call)
  ordered : ∀ done call done' call', done ++ [call] <+: calls → done' ++ [call'] <+: calls →
    call.timestamp < call'.timestamp → Prod.Lex (· < ·) (· < ·) (ids (after done call)) (ids (after done' call'))

theorem ids_after (done : List UpdateCall) {call : UpdateCall} (h : NoWrap call.timestamp) :
    ids (after done call) = artID call.timestamp.toNat := by
  obtain ⟨hhigh, hlow⟩ := h
  rw [ids, after_eq, artID, toNat_add_one, toNat_add_one, if_neg hhigh, if_neg hlow, toNat_high, toNat_low]

theorem noWrap_of_oneBased {done : List UpdateCall} {call : UpdateCall}
    (h : 1 ≤ (after done call).subRun ∧ 1 ≤ (after done call).event) : NoWrap call.timestamp := by
  have hzero : ¬ (1 : UInt32) ≤ 0xFFFFFFFF + 1 := by decide
  rw [after_eq] at h
  refine ⟨fun hlast => ?_, fun hlast => ?_⟩
  · rw [hlast] at h
    exact hzero h.1
  · rw [hlast] at h
    exact hzero h.2

theorem oneBased_of_noWrap (done : List UpdateCall) {call : UpdateCall} (h : NoWrap call.timestamp) :
    1 ≤ (after done call).subRun ∧ 1 ≤ (after done call).event := by
  obtain ⟨hsubRun, hevent⟩ := Prod.mk.inj (ids_after done h)
  rw [UInt32.le_iff_toNat_le, UInt32.le_iff_toNat_le, hsubRun, hevent]
  exact ⟨Nat.le_add_left 1 _, Nat.le_add_left 1 _⟩

/-- **The handler is faithful** exactly if no half of a timestamp is the last value of 32 bits. -/
theorem faithful_iff (calls : List UpdateCall) : Faithful calls ↔ ∀ call ∈ calls, NoWrap call.timestamp := by
  have hmem : ∀ {done call}, done ++ [call] <+: calls → call ∈ calls :=
    fun h => h.subset (List.mem_append_right _ List.mem_cons_self)
  constructor
  · intro h call hcall
    obtain ⟨done, rest, rfl⟩ := List.append_of_mem hcall
    exact noWrap_of_oneBased (h.oneBased done call ⟨rest, by simp⟩)
  · intro h
    refine ⟨?_, ?_, ?_, ?_⟩
    · intro done call _
      rw [after_eq]
    · intro done call hcall
      exact oneBased_of_noWrap done (h call (hmem hcall))
    · intro done call _ done' call' hsame
      rw [ids, ids, after_eq, after_eq, hsame]
    · intro done call done' call' hcall hcall' hlt
      rw [ids_after done (h call (hmem hcall)), ids_after done' (h call' (hmem hcall'))]
      exact artID_lt hlt

/-- The event after the last one of a subrun gets the number zero, and comes before it. -/
theorem event_wraps :
    let calls : List UpdateCall := [⟨1, 0xFFFFFFFE⟩, ⟨1, 0xFFFFFFFF⟩]
    ids (after [] ⟨1, 0xFFFFFFFE⟩) = (1, 0xFFFFFFFF) ∧ ids (after [⟨1, 0xFFFFFFFE⟩] ⟨1, 0xFFFFFFFF⟩) = (1, 0) ∧
      ¬ Faithful calls := by
  refine ⟨by decide, by decide, fun h => ?_⟩
  have hevent := (h.oneBased [⟨1, 0xFFFFFFFE⟩] ⟨1, 0xFFFFFFFF⟩ (List.prefix_refl _)).2
  revert hevent
  decide

end EventIDHandler

end ArtdaqMu2e
