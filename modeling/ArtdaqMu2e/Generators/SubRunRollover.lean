import ArtdaqMu2e.Generators.Mu2eSubEventReceiver
import ArtdaqMu2e.Lib.Lists
import ArtdaqMu2e.Lib.Runs

/-!
# Sub-run rollover

With an interval `R`, sub-run `m` is to end once, before the data fragments with sequence ids above `m * R`. The
receiver checks for a boundary with an equality: a call appends the end-of-subrun fragment if the counter is a
multiple of `R` when the call begins. The counter jumps by the size of a list of sub-events, so a call may pass a
boundary that lies inside its list; and it stays where it is when a read delivers nothing, so the next call finds
the same boundary again.

`MeetsBoundary` excludes both, and then the sub-runs end as they should in every state reached
(`rolledOver_of_steps`). The invariant `Ended R b` says that exactly the boundaries up to `b` have their fragments:
a call raises `b` to the counter before its read, and the data fragments of the call are appended under that bound.
-/

namespace ArtdaqMu2e

open Lists Runs

/-- The sequence id and the sub-run that an end-of-subrun fragment names. -/
def Fragment.subrunEnd (frag : Fragment) : Option (ℕ × ℕ) :=
  match frag.body with
  | .endOfSubrun _ subrun => some (frag.sequenceID, subrun)
  | _ => none

namespace Mu2eSubEventReceiver

/-- The fragment that ends sub-run `m`. -/
def endsSubrun (R m : ℕ) (frag : Fragment) : Bool := frag.subrunEnd = some (m * R + 1, m + 1)

structure RolledOver (R : ℕ) (frags : List Fragment) : Prop where
  named : ∀ frag ∈ frags, ∀ x, frag.subrunEnd = some x → ∃ m ≥ 1, x = (m * R + 1, m + 1)
  once : ∀ before frag after, frags = before ++ frag :: after → frag.type = .DTCEVT →
    ∀ m ≥ 1, m * R < frag.sequenceID →
      before.countP (endsSubrun R m) = 1 ∧ frags.countP (endsSubrun R m) = 1

/-- A call from a boundary delivers something, and no call passes a boundary within its list. -/
structure MeetsBoundary (R : ℕ) (st : Receiver) (call : SubEventCall) : Prop where
  readsAtBoundary : call.shouldStop = false → R ∣ st.evCounter → call.read.delivered ≠ []
  noneInside : ∀ m, ¬ (st.evCounter < m * R ∧ m * R < st.evCounter + (delivered call).length)

theorem MeetsBoundary.le_evCounter {R : ℕ} {st : Receiver} {call : SubEventCall} (h : MeetsBoundary R st call) {m : ℕ}
    (hlt : m * R < st.evCounter + (delivered call).length) : m * R ≤ st.evCounter := by
  by_contra hgt
  exact h.noneInside m ⟨Nat.lt_of_not_le hgt, hlt⟩

/-! ### The boundaries that have ended -/

/-- The boundaries up to `b` have ended, each one before the data above it. -/
structure Ended (R b : ℕ) (frags : List Fragment) : Prop where
  named : ∀ frag ∈ frags, ∀ x, frag.subrunEnd = some x → ∃ m ≥ 1, x = (m * R + 1, m + 1)
  count : ∀ m ≥ 1, frags.countP (endsSubrun R m) = if m * R ≤ b then 1 else 0
  before : ∀ before frag after, frags = before ++ frag :: after → frag.type = .DTCEVT →
    ∀ m ≥ 1, m * R < frag.sequenceID → before.countP (endsSubrun R m) = 1
  below : ∀ frag ∈ frags, frag.type = .DTCEVT → ∀ m ≥ 1, m * R < frag.sequenceID → m * R ≤ b

section ended
variable {R b : ℕ} {frags : List Fragment}

theorem Ended.rolledOver (h : Ended R b frags) : RolledOver R frags := by
  refine ⟨h.named, fun before frag after hsplit hdata m hm hlt => ?_⟩
  have hmem : frag ∈ frags := by simp [hsplit]
  refine ⟨h.before before frag after hsplit hdata m hm hlt, ?_⟩
  rw [h.count m hm, if_pos (h.below frag hmem hdata m hm hlt)]

theorem Ended.congr {b' : ℕ} (h : Ended R b frags) (hb : ∀ m ≥ 1, m * R ≤ b ↔ m * R ≤ b') :
    Ended R b' frags := by
  refine ⟨h.named, fun m hm => ?_, h.before, fun frag hfrag hdata m hm hlt => ?_⟩
  · rw [h.count m hm]
    simp only [hb m hm]
  · exact (hb m hm).mp (h.below frag hfrag hdata m hm hlt)

theorem Ended.append_data (h : Ended R b frags) {frag : Fragment} (hend : frag.subrunEnd = none)
    (hbelow : ∀ m ≥ 1, m * R < frag.sequenceID → m * R ≤ b) : Ended R b (frags ++ [frag]) := by
  have hnot : ∀ m, endsSubrun R m frag = false := by simp [endsSubrun, hend]
  refine ⟨?_, ?_, ?_, ?_⟩
  · refine List.forall_mem_append.mpr ⟨h.named, List.forall_mem_singleton.mpr fun x hx => ?_⟩
    rw [hend] at hx
    cases hx
  · intro m hm
    rw [List.countP_append, h.count m hm, List.countP_singleton, hnot m]
    rfl
  · intro before frag' after hsplit hdata m hm hlt
    rcases snoc_eq_append_cons hsplit with ⟨-, rfl, rfl⟩ | ⟨rest, -, hfrags⟩
    · rw [h.count m hm, if_pos (hbelow m hm hlt)]
    · exact h.before before frag' rest hfrags hdata m hm hlt
  · exact List.forall_mem_append.mpr ⟨h.below, List.forall_mem_singleton.mpr fun _ => hbelow⟩

theorem Ended.append_end (h : Ended R b frags) (hR : 0 < R) {k : ℕ} (hk : 1 ≤ k) (hb : b + 1 = k * R)
    {frag : Fragment} (hend : frag.subrunEnd = some (k * R + 1, k + 1)) (htype : frag.type ≠ .DTCEVT) :
    Ended R (b + 1) (frags ++ [frag]) := by
  refine ⟨?_, ?_, ?_, ?_⟩
  · refine List.forall_mem_append.mpr ⟨h.named, List.forall_mem_singleton.mpr fun x hx => ?_⟩
    rw [hend] at hx
    exact ⟨k, hk, (Option.some.inj hx).symm⟩
  · intro m hm
    rw [List.countP_append, h.count m hm, List.countP_singleton]
    by_cases hmk : m = k
    · subst hmk
      simp [endsSubrun, hend, ← hb]
    · have hne : m * R ≠ k * R := fun heq => hmk (Nat.eq_of_mul_eq_mul_right hR heq)
      have hiff : m * R ≤ b ↔ m * R ≤ b + 1 := by omega
      have hnot : endsSubrun R m frag = false := by
        simp only [endsSubrun, hend, decide_eq_false_iff_not, Option.some.injEq, Prod.mk.injEq]
        omega
      simp only [hnot, hiff]
      rfl
  · intro before frag' after hsplit hdata m hm hlt
    rcases snoc_eq_append_cons hsplit with ⟨-, -, rfl⟩ | ⟨rest, -, hfrags⟩
    · exact absurd hdata htype
    · exact h.before before frag' rest hfrags hdata m hm hlt
  · refine List.forall_mem_append.mpr ⟨fun frag' hfrag' hdata m hm hlt => ?_, List.forall_mem_singleton.mpr ?_⟩
    · exact (h.below frag' hfrag' hdata m hm hlt).trans (Nat.le_succ b)
    · exact fun hdata => absurd hdata htype

end ended

/-! ### Calls and runs -/

section run
variable {w : ℕ} (header : HeaderLayout w) {cfg : SubEventConfig}

theorem ended_addSubEvents (cfg : SubEventConfig) (fresh : ℕ → (n : ℕ) → Memory.Area Byte n) {R b : ℕ}
    (tsOut i : ℕ) (subevts : List DtcSubEvent) (st : Receiver) (h : Ended R b st.frags)
    (hbelow : ∀ m ≥ 1, m * R < st.evCounter + subevts.length → m * R ≤ b) :
    Ended R b (addSubEvents header cfg fresh tsOut i subevts st).frags ∧
      (addSubEvents header cfg fresh tsOut i subevts st).evCounter = st.evCounter + subevts.length := by
  induction subevts generalizing i st with
  | nil => exact ⟨h, rfl⟩
  | cons subevt subevts ih =>
    rw [List.length_cons] at hbelow
    have hnext : Ended R b (addSubEvent header cfg fresh tsOut i subevt st).frags := by
      refine h.append_data rfl fun m hm hlt => hbelow m hm ?_
      have hlt : m * R < st.evCounter := hlt
      omega
    have hcount : (addSubEvent header cfg fresh tsOut i subevt st).evCounter = st.evCounter + 1 := rfl
    obtain ⟨hrest, hev⟩ := ih (i + 1) _ hnext fun m hm hlt => hbelow m hm (by omega)
    refine ⟨hrest, ?_⟩
    rw [addSubEvents, hev, hcount, List.length_cons]
    omega

/-- At a boundary the sub-run ends, so that the boundaries up to the counter have ended in any case. -/
theorem ended_rollover (hid : cfg.fragmentId = 0) (hR : 0 < cfg.rolloverSubrunInterval) {b : ℕ} {st : Receiver}
    (hcount : st.evCounter = b + 1) (h : Ended cfg.rolloverSubrunInterval b st.frags) :
    Ended cfg.rolloverSubrunInterval (b + 1) (rollover cfg st).frags ∧
      (rollover cfg st).evCounter = b + 1 ∧
      (¬ cfg.rolloverSubrunInterval ∣ st.evCounter → rollover cfg st = st) := by
  unfold rollover
  rw [Nat.dvd_iff_mod_eq_zero]
  by_cases hmod : st.evCounter % cfg.rolloverSubrunInterval = 0
  · rw [if_pos ⟨hR, hmod, hid⟩]
    have hk := Nat.div_add_mod st.evCounter cfg.rolloverSubrunInterval
    rw [hmod, Nat.add_zero, Nat.mul_comm] at hk
    have hpos : 1 ≤ st.evCounter / cfg.rolloverSubrunInterval := by
      rcases Nat.eq_zero_or_pos (st.evCounter / cfg.rolloverSubrunInterval) with hzero | hpos
      · rw [hzero, Nat.zero_mul] at hk
        omega
      · exact hpos
    refine ⟨?_, hcount, fun hnot => absurd hmod hnot⟩
    refine h.append_end hR hpos (hcount.symm.trans hk.symm) ?_ ?_
    · show some (st.evCounter + 1, 1 + st.evCounter / cfg.rolloverSubrunInterval) = _
      rw [hk, Nat.add_comm 1]
    · show FragmentType.endOfSubrun ≠ .DTCEVT
      decide
  · rw [if_neg fun hcond => hmod hcond.2.1]
    refine ⟨h.congr fun m _ => ?_, hcount, fun _ => rfl⟩
    have hne : m * cfg.rolloverSubrunInterval ≠ b + 1 := by
      intro heq
      rw [hcount, ← heq, Nat.mul_mod_left] at hmod
      exact hmod rfl
    omega

/-- The counter is one above the boundaries that have ended. -/
def BoundariesDone (R : ℕ) (st : Receiver) : Prop := ∃ b, st.evCounter = b + 1 ∧ Ended R b st.frags

theorem boundariesDone_step (hid : cfg.fragmentId = 0) (hR : 0 < cfg.rolloverSubrunInterval) (st : Receiver)
    (call : SubEventCall) (h : BoundariesDone cfg.rolloverSubrunInterval st)
    (hmeets : MeetsBoundary cfg.rolloverSubrunInterval st call) :
    BoundariesDone cfg.rolloverSubrunInterval (step header cfg st call) := by
  obtain ⟨b, hcount, hended⟩ := h
  obtain ⟨hfrags, hev, -⟩ := sendRequest_spec cfg st
  unfold step getNext
  by_cases hstop : call.shouldStop = true
  · rw [if_pos hstop]
    exact ⟨b, hcount, hended⟩
  rw [if_neg hstop]
  rw [← hfrags] at hended
  obtain ⟨hrolled, hsame, hkept⟩ := ended_rollover hid hR (hev.trans hcount) hended
  rw [hev] at hkept
  cases hread : call.read.delivered with
  | nil =>
    simp only [getNextDTCFragment, hread]
    have hnot : ¬ cfg.rolloverSubrunInterval ∣ st.evCounter := fun hdvd =>
      hmeets.readsAtBoundary (by simpa using hstop) hdvd hread
    rw [hkept hnot]
    exact ⟨b, hev.trans hcount, hended⟩
  | cons subevt subevts =>
    have hlen : (delivered call).length = subevts.length + 1 := by simp [delivered, hstop, hread]
    have hnone : ∀ m, m * cfg.rolloverSubrunInterval < b + 1 + (subevts.length + 1) →
        m * cfg.rolloverSubrunInterval ≤ b + 1 := by
      intro m hlt
      rw [← hcount] at hlt ⊢
      exact hmeets.le_evCounter (by rwa [hlen])
    obtain ⟨hdone, hcount'⟩ := ended_addSubEvents header cfg call.read.fresh subevt.eventWindowTag 0
      (subevt :: subevts)
      { rollover cfg (sendRequest cfg st) with
        getDataCalls := (rollover cfg (sendRequest cfg st)).getDataCalls ++ List.replicate call.read.calls 0 }
      hrolled (by rw [hsame]; exact fun m _ => hnone m)
    simp only [getNextDTCFragment, hread]
    refine ⟨b + 1 + subevts.length, ?_, ?_⟩
    · rw [hcount', hsame, List.length_cons]
      omega
    · refine hdone.congr fun m _ => ⟨fun hle => by omega, fun hle => hnone m (by omega)⟩

/-- **The sub-runs end once and in time** in every run whose calls meet the boundaries: in every state reached,
each boundary below a data fragment has one end-of-subrun fragment, which comes before that data fragment, and no
end-of-subrun fragment names anything else. -/
theorem rolledOver_of_steps (hid : cfg.fragmentId = 0) (hR : 0 < cfg.rolloverSubrunInterval)
    {calls : List SubEventCall}
    (h : Steps (step header cfg) (MeetsBoundary cfg.rolloverSubrunInterval) Receiver.init calls) :
    Always (step header cfg) (fun st => RolledOver cfg.rolloverSubrunInterval st.frags) Receiver.init calls := by
  have hinit : BoundariesDone cfg.rolloverSubrunInterval Receiver.init := by
    refine ⟨0, rfl, ?_, ?_, ?_, ?_⟩
    · intro frag hfrag
      exact absurd hfrag List.not_mem_nil
    · intro m hm
      have hpos : 0 < m * cfg.rolloverSubrunInterval := Nat.mul_pos hm hR
      rw [if_neg (by omega)]
      rfl
    · intro before frag after hsplit
      exact absurd (congrArg List.length hsplit) (by simp [Receiver.init])
    · intro frag hfrag
      exact absurd hfrag List.not_mem_nil
  intro done hdone
  obtain ⟨b, -, hended⟩ := Always.of_steps (boundariesDone_step header hid hR) hinit h done hdone
  exact hended.rolledOver

end run

theorem meetsBoundary_of_single {R : ℕ} {call : SubEventCall} {subevt : DtcSubEvent}
    (h : call.read.delivered = [subevt]) (st : Receiver) : MeetsBoundary R st call := by
  refine ⟨fun _ _ hnone => ?_, fun m hm => ?_⟩
  · rw [hnone] at h
    cases h
  · have hle : (delivered call).length ≤ 1 := by
      unfold delivered
      split_ifs <;> simp [h]
    omega

/-- The call of a read that returns sub-events with the given tags. -/
def callOf (tags : List ℕ) : SubEventCall := ⟨false, Read.ofEvents (tags.map (⟨·, [7]⟩))⟩

/-- Sub-runs of two events. -/
def rolloverConfig : SubEventConfig := ⟨⟨0, .disabled, false, 16, 0, 1⟩, 3, 2⟩

theorem rolledOver_of_steps_single :
    Always (step .packed rolloverConfig) (fun st => RolledOver 2 st.frags) Receiver.init
      ([1, 2, 3, 4, 5].map fun tag => callOf [tag]) := by
  refine rolledOver_of_steps .packed rfl (by decide) (Steps.of_forall (fun call hcall st => ?_) _)
  obtain ⟨tag, -, rfl⟩ := List.mem_map.mp hcall
  exact meetsBoundary_of_single (Read.delivered_of_first rfl) st

theorem RolledOver.countP_eq_one {R m : ℕ} {frags : List Fragment} (h : RolledOver R frags) (hm : 1 ≤ m)
    (hlate : ∃ frag ∈ frags, frag.type = .DTCEVT ∧ m * R < frag.sequenceID) :
    frags.countP (endsSubrun R m) = 1 := by
  obtain ⟨frag, hfrag, hdata, hlt⟩ := hlate
  obtain ⟨before, after, hsplit⟩ := List.append_of_mem hfrag
  exact (h.once before frag after hsplit hdata m hm hlt).2

/-- A list of three sub-events passes the boundary, and no sub-run ends; a failed read at the boundary ends the
sub-run twice. -/
theorem rollover_missed_and_repeated :
    let missed := (run (step .packed rolloverConfig) Receiver.init [callOf [1, 2, 3]]).frags
    let repeated := (run (step .packed rolloverConfig) Receiver.init
      [callOf [1], ⟨false, Read.failing⟩, callOf [2], callOf [3]]).frags
    (missed.map (·.sequenceID) = [1, 2, 3] ∧ missed.filterMap (·.subrunEnd) = [] ∧ ¬ RolledOver 2 missed) ∧
      repeated.filterMap (·.subrunEnd) = [(3, 2), (3, 2)] ∧ ¬ RolledOver 2 repeated := by
  refine ⟨⟨by decide, by decide, fun h => ?_⟩, by decide, fun h => ?_⟩
  · have hone := h.countP_eq_one (le_refl 1) (by decide)
    revert hone
    decide
  · have hone := h.countP_eq_one (le_refl 1) (by decide)
    revert hone
    decide

end Mu2eSubEventReceiver

end ArtdaqMu2e
