import ArtdaqMu2e.Lib.Runs

/-!
# Waiting for the simulation file

The constructor of a receiver may start a thread that writes a simulation file to the DTC. `simFileRead_` tells
`getNext_` that there is nothing (more) to wait for: its head is a loop that ends once the flag is set or the
receiver is stopping.

Three threads of control touch the flag: what is left of the constructor, the reader, and a caller of `getNext_`
once the object is constructed. One action is a step of one of them, so that a list of actions is an interleaving.
`Settled` is the invariant: what is left of the constructor, run now, leaves a flag that is false only while the
reader is writing.

`Mu2eEventReceiverBase` does not initialise the flag, and two paths through its constructor do not assign it
either. `Mu2eSubEventReceiver` has a copy of the same code, and an initialiser.
-/

namespace ArtdaqMu2e

open Runs

namespace SimFile

/-- The parameters `skip_dtc_init`, `load_sim_file` and `sim_file`, and `DTCLIB_SIM_FILE` of the environment. -/
structure SimFileConfig where
  skipDtcInit : Bool
  loadSimFile : Bool
  simFile : String
  envSimFile : Option String
  deriving DecidableEq, Repr

/-- The environment goes before the parameter, also if it holds an empty string. -/
def SimFileConfig.fileName (cfg : SimFileConfig) : String := cfg.envSimFile.getD cfg.simFile

/-- The statements of a constructor that have to do with the flag or the thread. -/
inductive Statement where
  | setFlag (value : Bool)
  | startReader
  | detachReader
  deriving DecidableEq, Repr

def startReading (cfg : SimFileConfig) : List Statement :=
  if 0 < cfg.fileName.length then [.setFlag false, .startReader, .detachReader] else []

/-- The constructor of `Mu2eEventReceiverBase`. -/
def baseConstructor (cfg : SimFileConfig) : List Statement :=
  if cfg.skipDtcInit then []
  else if cfg.loadSimFile then startReading cfg
  else [.setFlag true]

/-- The constructor of `Mu2eSubEventReceiver`, which leaves the flag alone if no file is to be loaded. -/
def subEventConstructor (cfg : SimFileConfig) : List Statement :=
  if cfg.skipDtcInit then []
  else if cfg.loadSimFile then startReading cfg
  else []

/-- Where `readSimFile_` is: it sets the flag between writing and its last log line. -/
inductive Reader where
  | notStarted
  | writing
  | logging
  | finished
  deriving DecidableEq, Repr

/-- Started, and not finished. -/
def Reader.Running (reader : Reader) : Prop := reader = .writing ∨ reader = .logging

instance (reader : Reader) : Decidable reader.Running := inferInstanceAs (Decidable (_ ∨ _))

structure State where
  simFileRead : Bool
  toConstruct : List Statement
  reader : Reader
  waiting : Bool
  deriving DecidableEq, Repr

inductive Action where
  | construct
  | read
  | call
  | poll (shouldStop : Bool)
  deriving DecidableEq, Repr

/-- Before the first statement, with what the memory held, or the initialiser set, for the flag. -/
def init (constructor : List Statement) (simFileRead : Bool) : State := ⟨simFileRead, constructor, .notStarted, false⟩

def exec (st : State) : Statement → State
  | .setFlag value => { st with simFileRead := value }
  | .startReader => { st with reader := .writing }
  | .detachReader => st

/-- A step of the constructor. -/
def construct (st : State) : State :=
  match st.toConstruct with
  | [] => st
  | stmt :: rest => { exec st stmt with toConstruct := rest }

/-- A step of `readSimFile_`. -/
def readSimFile (st : State) : State :=
  match st.reader with
  | .notStarted => st
  | .writing => { st with simFileRead := true, reader := .logging }
  | .logging => { st with reader := .finished }
  | .finished => st

/-- A poll is one evaluation of the condition `!simFileRead_ && !should_stop()`. -/
def step (st : State) : Action → State
  | .construct => construct st
  | .read => readSimFile st
  | .call => { st with waiting := st.waiting || st.toConstruct.isEmpty }
  | .poll shouldStop => { st with waiting := st.waiting && (!st.simFileRead && !shouldStop) }

/-- After construction the flag is false only while a reader runs, and without one a caller leaves the loop at its
next poll, stopping or not. -/
structure WaitsForReader (st : State) : Prop where
  flag : st.toConstruct = [] → st.simFileRead = false → st.reader.Running
  leaves : st.toConstruct = [] → ¬ st.reader.Running → (step st (.poll false)).waiting = false

/-- What is left of a constructor, run now, leaves a flag that is false only while the reader writes. The flag is
assigned before the reader starts. -/
def Settled : List Statement → Bool → Reader → Prop
  | [], flag, reader => flag = false → reader = .writing
  | .setFlag value :: rest, _, reader => reader = .notStarted ∧ Settled rest value reader
  | .startReader :: rest, flag, reader => reader = .notStarted ∧ Settled rest flag .writing
  | .detachReader :: rest, flag, reader => Settled rest flag reader

theorem Settled.reads {rest : List Statement} {flag : Bool} (h : Settled rest flag .writing) :
    Settled rest true .logging := by
  induction rest with
  | nil => exact fun htrue => absurd htrue (by decide)
  | cons stmt rest ih =>
    cases stmt with
    | setFlag value => exact absurd h.1 (by decide)
    | startReader => exact absurd h.1 (by decide)
    | detachReader => exact ih h

theorem Settled.finishes {rest : List Statement} {flag : Bool} (h : Settled rest flag .logging) :
    Settled rest flag .finished := by
  induction rest with
  | nil => exact fun hfalse => absurd (h hfalse) (by decide)
  | cons stmt rest ih =>
    cases stmt with
    | setFlag value => exact absurd h.1 (by decide)
    | startReader => exact absurd h.1 (by decide)
    | detachReader => exact ih h

theorem settled_step (st : State) (action : Action) (h : Settled st.toConstruct st.simFileRead st.reader) :
    Settled (step st action).toConstruct (step st action).simFileRead (step st action).reader := by
  obtain ⟨flag, toConstruct, reader, waiting⟩ := st
  cases action with
  | construct =>
    cases toConstruct with
    | nil => exact h
    | cons stmt rest =>
      cases stmt with
      | setFlag value => exact h.2
      | startReader => exact h.2
      | detachReader => exact h
  | read =>
    cases reader with
    | notStarted => exact h
    | writing => exact h.reads
    | logging => exact h.finishes
    | finished => exact h
  | call => exact h
  | poll shouldStop => exact h

theorem waitsForReader_of_settled {st : State} (h : Settled st.toConstruct st.simFileRead st.reader) :
    WaitsForReader st := by
  have hflag : st.toConstruct = [] → st.simFileRead = false → st.reader = .writing := by
    intro hdone hfalse
    rw [hdone] at h
    exact h hfalse
  refine ⟨fun hdone hfalse => Or.inl (hflag hdone hfalse), fun hdone hidle => ?_⟩
  have hset : st.simFileRead = true := by
    by_contra hfalse
    exact hidle (Or.inl (hflag hdone (by simpa using hfalse)))
  simp [step, hset]

theorem waitsForReader_of_run {constructor : List Statement} {simFileRead : Bool}
    (h : Settled constructor simFileRead .notStarted) (actions : List Action) :
    WaitsForReader (run step (init constructor simFileRead) actions) :=
  waitsForReader_of_settled (run_invariant settled_step h actions)

theorem fileName_length_pos {cfg : SimFileConfig} : 0 < cfg.fileName.length ↔ cfg.fileName ≠ "" := by
  rw [Nat.pos_iff_ne_zero, ne_eq, String.length_eq_zero_iff]

theorem settled_startReading {cfg : SimFileConfig} {flag : Bool} (h : flag = true ∨ cfg.fileName ≠ "") :
    Settled (startReading cfg) flag .notStarted := by
  rw [startReading]
  split_ifs with hname
  · exact ⟨rfl, rfl, fun _ => rfl⟩
  · intro hfalse
    rcases h with hset | hne
    · exact absurd (hset.symm.trans hfalse) (by decide)
    · exact absurd (fileName_length_pos.mpr hne) hname

theorem not_waitsForReader_init : ¬ WaitsForReader (init [] false) := by
  intro h
  exact absurd (h.flag rfl rfl) (by decide)

/-- **The base class waits for a reader only**, in every interleaving, exactly if the memory happened to hold true
or its constructor assigns the flag. -/
theorem base_waits_iff (cfg : SimFileConfig) (memory : Bool) :
    (∀ actions, WaitsForReader (run step (init (baseConstructor cfg) memory) actions)) ↔
      memory = true ∨ (cfg.skipDtcInit = false ∧ (cfg.loadSimFile = true → cfg.fileName ≠ "")) := by
  constructor
  · intro h
    by_contra hcond
    obtain ⟨hmem, hpath⟩ := not_or.mp hcond
    have hnone : baseConstructor cfg = [] := by
      unfold baseConstructor
      split_ifs with hskip hload
      · rfl
      · rw [startReading, if_neg]
        intro hname
        exact hpath ⟨by simpa using hskip, fun _ => fileName_length_pos.mp hname⟩
      · exact absurd ⟨by simpa using hskip, fun hyes => absurd hyes hload⟩ hpath
    have hfirst := h []
    rw [hnone, (Bool.not_eq_true memory).mp hmem] at hfirst
    exact not_waitsForReader_init hfirst
  · intro h actions
    refine waitsForReader_of_run ?_ actions
    unfold baseConstructor
    split_ifs with hskip hload
    · intro hfalse
      rcases h with hset | ⟨hgo, -⟩
      · exact absurd (hset.symm.trans hfalse) (by decide)
      · exact absurd (hgo.symm.trans hskip) (by decide)
    · exact settled_startReading (h.imp_right fun hpath => hpath.2 hload)
    · exact ⟨rfl, fun hfalse => absurd hfalse (by decide)⟩

/-- An emulated DTC that is not to be initialised, and memory that held a zero: the constructor returns early, no
reader was started, and a caller polls until the receiver is stopping. -/
theorem base_waits_without_reader :
    let cfg : SimFileConfig := ⟨true, false, "", none⟩
    let st := run step (init (baseConstructor cfg) false) [.call, .poll false, .poll false]
    st.toConstruct = [] ∧ st.reader = .notStarted ∧ st.simFileRead = false ∧ st.waiting = true ∧
      ¬ WaitsForReader st := by
  refine ⟨by decide, by decide, by decide, by decide, fun h => ?_⟩
  exact absurd (h.flag (by decide) (by decide)) (by decide)

theorem subEvent_waitsForReader (cfg : SimFileConfig) (actions : List Action) :
    WaitsForReader (run step (init (subEventConstructor cfg) true) actions) := by
  refine waitsForReader_of_run ?_ actions
  unfold subEventConstructor
  split_ifs with hskip hload
  · exact fun hfalse => absurd hfalse (by decide)
  · exact settled_startReading (Or.inl rfl)
  · exact fun hfalse => absurd hfalse (by decide)

end SimFile

end ArtdaqMu2e
