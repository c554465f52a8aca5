import Mathlib.Data.List.Basic
import Mathlib.Logic.Function.Basic
import Mathlib.Tactic.Common

/-!
# Runs of a step function

`run step s inputs` feeds the inputs to `step` one after the other. Three ways to reason about such runs:

* invariants (`run_invariant`), also under a condition `C` met by every step (`Steps`, `run_of_steps`);
* the exact form: if one step keeps `P` exactly when it meets `C`, then `P` holds in every state reached
  exactly when every step meets `C` (`always_iff_steps`);
* two machines on the same inputs, as one machine (`both`), and machines interleaved into one
  (`interleave`), where each component runs on its own inputs only (`run_interleave`, and `run_view` for a
  machine that can be viewed as such).
-/

namespace Runs

variable {σ τ ι κ : Type*}

/-- The state after the inputs, one step for each. -/
def run (step : σ → ι → σ) (s : σ) (inputs : List ι) : σ :=
  inputs.foldl step s

variable (step : σ → ι → σ)

@[simp] theorem run_nil (s : σ) : run step s [] = s := rfl

@[simp] theorem run_cons (s : σ) (i : ι) (inputs : List ι) :
    run step s (i :: inputs) = run step (step s i) inputs := rfl

theorem run_append (s : σ) (first second : List ι) :
    run step s (first ++ second) = run step (run step s first) second :=
  List.foldl_append

/-! ### Invariants -/

/-- `C` holds of every step: of the state before it and of the input it takes. -/
def Steps (C : σ → ι → Prop) : σ → List ι → Prop
  | _, [] => True
  | s, i :: inputs => C s i ∧ Steps C (step s i) inputs

/-- `P` holds in every state the run goes through, the first one included. -/
def Always (P : σ → Prop) (s : σ) (inputs : List ι) : Prop :=
  ∀ done, done <+: inputs → P (run step s done)

variable {step}

theorem run_invariant {P : σ → Prop} (hstep : ∀ s i, P s → P (step s i)) {s : σ} (hs : P s)
    (inputs : List ι) : P (run step s inputs) := by
  induction inputs generalizing s with
  | nil => exact hs
  | cons i inputs ih => exact ih (hstep s i hs)

theorem run_of_steps {P : σ → Prop} {C : σ → ι → Prop} (hstep : ∀ s i, P s → C s i → P (step s i))
    {s : σ} (hs : P s) {inputs : List ι} (hC : Steps step C s inputs) : P (run step s inputs) := by
  induction inputs generalizing s with
  | nil => exact hs
  | cons i inputs ih => exact ih (hstep s i hs hC.1) hC.2

theorem Steps.of_forall {C : σ → ι → Prop} {inputs : List ι} (h : ∀ i ∈ inputs, ∀ s, C s i) (s : σ) :
    Steps step C s inputs := by
  induction inputs generalizing s with
  | nil => trivial
  | cons i inputs ih =>
    obtain ⟨hi, h⟩ := List.forall_mem_cons.mp h
    exact ⟨hi s, ih h (step s i)⟩

theorem Steps.of_append {C : σ → ι → Prop} {s : σ} {done rest : List ι}
    (hC : Steps step C s (done ++ rest)) : Steps step C s done := by
  induction done generalizing s with
  | nil => trivial
  | cons i done ih => exact ⟨hC.1, ih hC.2⟩

theorem Steps.of_append_cons {C : σ → ι → Prop} {s : σ} {done rest : List ι} {i : ι}
    (hC : Steps step C s (done ++ i :: rest)) : C (run step s done) i := by
  induction done generalizing s with
  | nil => exact hC.1
  | cons j done ih => exact ih hC.2

theorem always_nil {P : σ → Prop} {s : σ} : Always step P s [] ↔ P s := by
  constructor
  · intro h
    exact h [] (List.prefix_refl _)
  · intro h done hdone
    rw [List.prefix_nil.mp hdone]
    exact h

theorem always_cons {P : σ → Prop} {s : σ} {i : ι} {inputs : List ι} :
    Always step P s (i :: inputs) ↔ P s ∧ Always step P (step s i) inputs := by
  constructor
  · intro h
    refine ⟨h [] List.nil_prefix, fun done hdone => ?_⟩
    exact h (i :: done) ((List.prefix_cons_inj i).mpr hdone)
  · rintro ⟨hs, h⟩ done hdone
    cases done with
    | nil => exact hs
    | cons j done =>
      obtain ⟨hj, htail⟩ := List.cons_prefix_cons.mp hdone
      rw [hj]
      exact h done htail

theorem Always.of_steps {P : σ → Prop} {C : σ → ι → Prop}
    (hstep : ∀ s i, P s → C s i → P (step s i)) {s : σ} (hs : P s) {inputs : List ι}
    (hC : Steps step C s inputs) : Always step P s inputs := by
  rintro done ⟨rest, rfl⟩
  exact run_of_steps hstep hs hC.of_append

/-- If a step from a state with `P` keeps `P` exactly when it meets `C`, then `P` holds throughout exactly
when every step meets `C`. `I` is what else is known of the states, and `V` of the inputs. -/
theorem always_iff_steps {I P : σ → Prop} {V : ι → Prop} {C : σ → ι → Prop}
    (hI : ∀ s i, V i → I s → I (step s i)) (hstep : ∀ s i, V i → I s → P s → (P (step s i) ↔ C s i)) {s : σ}
    (hs : I s) (hP : P s) {inputs : List ι} (hV : ∀ i ∈ inputs, V i) :
    Always step P s inputs ↔ Steps step C s inputs := by
  induction inputs generalizing s with
  | nil => exact ⟨fun _ => trivial, fun _ => always_nil.mpr hP⟩
  | cons i inputs ih =>
    rw [always_cons, Steps, ← hstep s i (hV i (by simp)) hs hP]
    have hrest : ∀ j ∈ inputs, V j := fun j hj => hV j (List.mem_cons_of_mem _ hj)
    constructor
    · rintro ⟨-, h⟩
      have hnext : P (step s i) := h [] List.nil_prefix
      exact ⟨hnext, (ih (hI s i (hV i (by simp)) hs) hnext hrest).mp h⟩
    · rintro ⟨hnext, h⟩
      exact ⟨hP, (ih (hI s i (hV i (by simp)) hs) hnext hrest).mpr h⟩

/-! ### Two machines on the same inputs -/

/-- Both machines take the same input. -/
def both (step : σ → ι → σ) (step' : τ → ι → τ) : σ × τ → ι → σ × τ :=
  fun st i => (step st.1 i, step' st.2 i)

/-! ### Interleaving -/

section interleave
variable [DecidableEq κ]

/-- One machine made of the machines `step k`: an input names the component that takes it. -/
def interleave (step : κ → σ → ι → σ) : (κ → σ) → κ × ι → κ → σ :=
  fun s x => Function.update s x.1 (step x.1 (s x.1) x.2)

/-- The inputs of component `k`, in order. -/
def inputsOf (k : κ) (inputs : List (κ × ι)) : List ι :=
  (inputs.filter (·.1 = k)).map (·.2)

/-- However the components are interleaved, each one runs on its own inputs. -/
theorem run_interleave (step : κ → σ → ι → σ) (s : κ → σ) (inputs : List (κ × ι)) (k : κ) :
    run (interleave step) s inputs k = run (step k) (s k) (inputsOf k inputs) := by
  induction inputs generalizing s with
  | nil => rfl
  | cons x inputs ih =>
    rw [run_cons, ih]
    by_cases hk : x.1 = k
    · subst hk
      simp [interleave, inputsOf]
    · simp [interleave, inputsOf, hk, Function.update_of_ne (Ne.symm hk)]

/-- A machine whose state, viewed by component, moves like an interleaving: each view runs on its own inputs. -/
theorem run_view {ρ : Type*} {machine : ρ → κ × ι → ρ} {view : ρ → κ → σ} (step : κ → σ → ι → σ)
    (hview : ∀ s x, view (machine s x) = interleave step (view s) x) (s : ρ) (inputs : List (κ × ι)) (k : κ) :
    view (run machine s inputs) k = run (step k) (view s k) (inputsOf k inputs) := by
  have hrun : view (run machine s inputs) = run (interleave step) (view s) inputs := by
    induction inputs generalizing s with
    | nil => rfl
    | cons x inputs ih => rw [run_cons, ih, hview, run_cons]
  rw [hrun, run_interleave]

theorem inputsOf_append (k : κ) (first second : List (κ × ι)) :
    inputsOf k (first ++ second) = inputsOf k first ++ inputsOf k second := by
  simp [inputsOf]

end interleave

end Runs
