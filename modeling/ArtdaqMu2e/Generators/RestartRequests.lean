import ArtdaqMu2e.Generators.ChainRequests
import ArtdaqMu2e.Generators.ReceiverRestart

/-!
# The requests to the software CFO in later runs

The first tag that was seen is a member that no start resets, and the windows asked for are counted from it with the
number of the next fragment, which begins anew in each run. So once a tag other than 0 was read, each later run asks for
the windows behind that tag again, and its first request already tells it from a new receiver, which asks for no window
in particular (`restart_requests_iff`). A window is here the number that `DTC_EventWindowTag` is given, and not yet cut
to 48 bits.
-/

namespace ArtdaqMu2e

open Runs TimestampState

/-- A receiver that asks for a window in each call that goes ahead, by its counter and the first tag. -/
structure Asking {ι : Type*} (step : Receiver → ι → Receiver) (tags : ι → List ℕ) (shouldStop : ι → Bool)
    (window : ℕ → ℕ → ℕ) : Prop extends Stamping step tags where
  requests : ∀ st call, (step st call).cfoRequests.map (·.1) = st.cfoRequests.map (·.1) ++
    if shouldStop call then [] else [window st.evCounter st.timestamps.firstTimestampSeen]
  stopped : ∀ call, shouldStop call = true → tags call = []
  noTag : ∀ count, window count 0 = 0
  someTag : ∀ tag, 0 < tag → tag < 2 ^ 48 → window 1 tag ≠ 0

/-- The windows that calls on a receiver ask for. -/
def requestsOf {ι : Type*} (step : Receiver → ι → Receiver) (st : Receiver) (calls : List ι) : List ℕ :=
  ((run step st calls).cfoRequests.map (·.1)).drop st.cfoRequests.length

section asking
variable {ι : Type*} {step : Receiver → ι → Receiver} {tags : ι → List ℕ} {shouldStop : ι → Bool}
  {window : ℕ → ℕ → ℕ}

/-- What calls ask for, by the counter and the members at their beginning. -/
def asked (tags : ι → List ℕ) (shouldStop : ι → Bool) (window : ℕ → ℕ → ℕ) : ℕ → TimestampState → List ι → List ℕ
  | _, _, [] => []
  | count, ts, call :: calls =>
    (if shouldStop call then [] else [window count ts.firstTimestampSeen]) ++
      asked tags shouldStop window (count + (tags call).length) (ts.after (tags call)) calls

theorem asked_congr (count : ℕ) {ts ts' : TimestampState} (h : ts.firstTimestampSeen = ts'.firstTimestampSeen)
    (calls : List ι) : asked tags shouldStop window count ts calls = asked tags shouldStop window count ts' calls := by
  induction calls generalizing count ts ts' with
  | nil => rfl
  | cons call calls ih => rw [asked, asked, h, ih _ (first_after_congr h _)]

theorem Asking.requests_run (h : Asking step tags shouldStop window) (st : Receiver) (calls : List ι) :
    (run step st calls).cfoRequests.map (·.1) =
      st.cfoRequests.map (·.1) ++ asked tags shouldStop window st.evCounter st.timestamps calls := by
  induction calls generalizing st with
  | nil => exact (List.append_nil _).symm
  | cons call calls ih =>
    rw [run_cons, ih, h.requests, h.evCounter, h.timestamps, asked, List.append_assoc]

theorem Asking.requestsOf_eq (h : Asking step tags shouldStop window) (st : Receiver) (calls : List ι) :
    requestsOf step st calls = asked tags shouldStop window st.evCounter st.timestamps calls := by
  rw [requestsOf, h.requests_run]
  exact List.drop_left' (List.length_map _)

theorem asked_of_stopped (count : ℕ) (ts : TimestampState) {calls : List ι}
    (h : ∀ call ∈ calls, shouldStop call = true) : asked tags shouldStop window count ts calls = [] := by
  induction calls generalizing count ts with
  | nil => rfl
  | cons call calls ih =>
    obtain ⟨hcall, hcalls⟩ := List.forall_mem_cons.mp h
    rw [asked, if_pos hcall, ih _ _ hcalls]
    rfl

theorem Asking.head_asked (h : Asking step tags shouldStop window) (count : ℕ) (ts : TimestampState) {calls : List ι}
    (hcalls : ∃ call ∈ calls, shouldStop call = false) :
    (asked tags shouldStop window count ts calls).head? = some (window count ts.firstTimestampSeen) := by
  induction calls with
  | nil =>
    obtain ⟨call, hcall, -⟩ := hcalls
    cases hcall
  | cons call calls ih =>
    cases hstop : shouldStop call with
    | false =>
      rw [asked, hstop]
      rfl
    | true =>
      have hrest : ∃ call ∈ calls, shouldStop call = false := by simpa [hstop] using hcalls
      rw [asked, if_pos hstop, h.stopped call hstop]
      exact ih hrest

theorem Asking.requestsOf_restarted_iff (h : Asking step tags shouldStop window) (cfg : ReceiverConfig)
    {runs : List (List ι)} (hbound : ∀ tag ∈ runs.flatten.flatMap tags, tag < 2 ^ 48) (calls : List ι) :
    requestsOf step (restarted step cfg runs) calls = requestsOf step (restarted step cfg []) calls ↔
      (∀ tag ∈ runs.flatten.flatMap tags, tag = 0) ∨ ∀ call ∈ calls, shouldStop call = true := by
  obtain ⟨hcount, -, htimes, -⟩ := Receiver.startCmd_spec cfg (afterRuns step cfg runs)
  obtain ⟨hcount', -, htimes', -⟩ := Receiver.startCmd_spec cfg (afterRuns step cfg [])
  have hnew : (restarted step cfg []).timestamps = TimestampState.init := htimes'
  have hold : (restarted step cfg runs).timestamps = TimestampState.init.after (runs.flatten.flatMap tags) :=
    htimes.trans (h.timestamps_afterRuns cfg runs)
  have hone : (restarted step cfg runs).evCounter = 1 := hcount
  have hone' : (restarted step cfg []).evCounter = 1 := hcount'
  rw [h.requestsOf_eq, h.requestsOf_eq, hone, hone', hold, hnew, ← first_after_eq_zero_iff]
  constructor
  · intro heq
    by_contra hneither
    obtain ⟨hseen, hgoes⟩ := not_or.mp hneither
    have hcalls : ∃ call ∈ calls, shouldStop call = false := by simpa using hgoes
    have hheads := congrArg List.head? heq
    rw [h.head_asked 1 _ hcalls, h.head_asked 1 _ hcalls] at hheads
    have hsome := h.someTag _ (Nat.pos_of_ne_zero hseen) (first_after_lt hbound)
    exact hsome ((Option.some.inj hheads).trans (h.noTag 1))
  · rintro (hzero | hstop)
    · exact asked_congr 1 hzero calls
    · rw [asked_of_stopped 1 _ hstop, asked_of_stopped 1 _ hstop]

end asking

namespace Mu2eEventReceiver

/-- The window asked for with a counter and a first tag. -/
def windowOf (cfg : ReceiverConfig) (count first : ℕ) : ℕ :=
  getCurrentEventWindowTag cfg { Receiver.init with
    evCounter := count
    timestamps := { TimestampState.init with firstTimestampSeen := first } }

theorem asking (layout : FragmentLayout) {cfg : ReceiverConfig} (hmode : cfg.mode ≠ .disabled)
    (hoffset : cfg.dtcOffset + 1 + 2 ^ 48 ≤ 2 ^ 64) :
    Asking (step layout cfg) tagsRead (·.shouldStop) (windowOf cfg) where
  toStamping := stamping layout cfg
  requests st call := by
    cases hstop : call.shouldStop with
    | true =>
      rw [step, getNext, if_pos hstop]
      exact (List.append_nil _).symm
    | false => exact cfoRequests_step layout hmode hstop st
  stopped call hstop := by
    rw [tagsRead, delivered, if_pos hstop]
    rfl
  noTag count := rfl
  someTag tag hpos hlt := by
    have hwindow : windowOf cfg 1 tag = cfg.dtcOffset + 1 + tag := by
      have hwrap : u64 (1 + (2 ^ 64 - 1)) = 0 := by decide
      rw [windowOf, getCurrentEventWindowTag, if_pos hpos]
      show u64 (u64 (u64 (1 + (2 ^ 64 - 1)) * cfg.nDtcs + cfg.dtcOffset + 1) + tag) = _
      rw [hwrap, Nat.zero_mul, Nat.zero_add, u64_of_lt (show cfg.dtcOffset + 1 < 2 ^ 64 by omega),
        u64_of_lt (by omega)]
    omega

end Mu2eEventReceiver

namespace Mu2eSubEventReceiver

def windowOf (count first : ℕ) : ℕ :=
  getCurrentEventWindowTag { Receiver.init with
    evCounter := count
    timestamps := { TimestampState.init with firstTimestampSeen := first } }

theorem cfoRequests_addSubEvents {w : ℕ} (header : HeaderLayout w) (cfg : SubEventConfig)
    (fresh : ℕ → (n : ℕ) → Memory.Area Byte n) (tsOut i : ℕ) (subevts : List DtcSubEvent) (st : Receiver) :
    (addSubEvents header cfg fresh tsOut i subevts st).cfoRequests = st.cfoRequests := by
  induction subevts generalizing i st with
  | nil => rfl
  | cons subevt subevts ih => exact ih (i + 1) _

theorem cfoRequests_step {w : ℕ} (header : HeaderLayout w) {cfg : SubEventConfig} (hmode : cfg.mode ≠ .disabled)
    {call : SubEventCall} (hstop : call.shouldStop = false) (st : Receiver) :
    (step header cfg st call).cfoRequests.map (·.1) = st.cfoRequests.map (·.1) ++ [getCurrentEventWindowTag st] := by
  have hsend : (sendRequest cfg st).cfoRequests.map (·.1) =
      st.cfoRequests.map (·.1) ++ [getCurrentEventWindowTag st] := by
    rw [sendRequest, if_pos hmode, List.map_append]
    rfl
  have hroll : (rollover cfg (sendRequest cfg st)).cfoRequests = (sendRequest cfg st).cfoRequests := by
    unfold rollover
    split <;> rfl
  rw [step_of_not_stop header cfg (by rw [hstop]; exact Bool.false_ne_true), cfoRequests_addSubEvents, ← hsend, ← hroll]

theorem asking {w : ℕ} (header : HeaderLayout w) {cfg : SubEventConfig} (hmode : cfg.mode ≠ .disabled) :
    Asking (step header cfg) tagsRead (·.shouldStop) windowOf where
  toStamping := stamping header cfg
  requests st call := by
    cases hstop : call.shouldStop with
    | true =>
      rw [step_of_stop header cfg hstop]
      exact (List.append_nil _).symm
    | false => exact cfoRequests_step header hmode hstop st
  stopped call hstop := tagsRead_of_stop hstop
  noTag count := rfl
  someTag tag hpos hlt := by
    have hwindow : windowOf 1 tag = 1 + tag := by
      rw [windowOf, getCurrentEventWindowTag, if_pos hpos]
      exact u64_of_lt (show 1 + tag < 2 ^ 64 by omega)
    omega

end Mu2eSubEventReceiver

/-- **Requests of later runs are those of a new receiver only if there are none**, in simulated runs of both receivers:
once a tag other than 0 was read in any run, every run after it asks from its first call on, where a new receiver asks
for no window in particular, for windows counted from that tag. -/
theorem restart_requests_iff (layout : FragmentLayout) {cfg : ReceiverConfig} {w : ℕ} (header : HeaderLayout w)
    {subCfg : SubEventConfig} (hmode : cfg.mode ≠ .disabled) (hsubMode : subCfg.mode ≠ .disabled)
    (hoffset : cfg.dtcOffset + 1 + 2 ^ 48 ≤ 2 ^ 64) :
    (∀ (runs : List (List ReceiverCall)) (calls : List ReceiverCall),
        (∀ tag ∈ runs.flatten.flatMap Mu2eEventReceiver.tagsRead, tag < 2 ^ 48) →
        (requestsOf (Mu2eEventReceiver.step layout cfg) (restarted (Mu2eEventReceiver.step layout cfg) cfg runs) calls =
            requestsOf (Mu2eEventReceiver.step layout cfg) (restarted (Mu2eEventReceiver.step layout cfg) cfg []) calls ↔
          (∀ tag ∈ runs.flatten.flatMap Mu2eEventReceiver.tagsRead, tag = 0) ∨
            ∀ call ∈ calls, call.shouldStop = true)) ∧
      ∀ (runs : List (List SubEventCall)) (calls : List SubEventCall),
        (∀ tag ∈ runs.flatten.flatMap Mu2eSubEventReceiver.tagsRead, tag < 2 ^ 48) →
        (requestsOf (Mu2eSubEventReceiver.step header subCfg)
              (restarted (Mu2eSubEventReceiver.step header subCfg) subCfg.toReceiverConfig runs) calls =
            requestsOf (Mu2eSubEventReceiver.step header subCfg)
              (restarted (Mu2eSubEventReceiver.step header subCfg) subCfg.toReceiverConfig []) calls ↔
          (∀ tag ∈ runs.flatten.flatMap Mu2eSubEventReceiver.tagsRead, tag = 0) ∨
            ∀ call ∈ calls, call.shouldStop = true) :=
  ⟨fun _ calls hbound => (Mu2eEventReceiver.asking layout hmode hoffset).requestsOf_restarted_iff cfg hbound calls,
    fun _ calls hbound => (Mu2eSubEventReceiver.asking header hsubMode).requestsOf_restarted_iff
      subCfg.toReceiverConfig hbound calls⟩

/-- After a run that read the tag 5, a call asks for the window 6, and a new receiver for none. -/
theorem restart_requests_iff_five :
    requestsOf (Mu2eEventReceiver.step .zeroTerminated simulatedConfig)
        (restarted (Mu2eEventReceiver.step .zeroTerminated simulatedConfig) simulatedConfig [eventCalls [5]])
        (eventCalls [5]) = [6] ∧
      requestsOf (Mu2eSubEventReceiver.step .packed simulatedSubConfig)
        (restarted (Mu2eSubEventReceiver.step .packed simulatedSubConfig) simulatedConfig [subEventCalls [5]])
        (subEventCalls [5]) ≠
      requestsOf (Mu2eSubEventReceiver.step .packed simulatedSubConfig)
        (restarted (Mu2eSubEventReceiver.step .packed simulatedSubConfig) simulatedConfig [])
        (subEventCalls [5]) := by
  obtain ⟨-, hsub⟩ := restart_requests_iff .zeroTerminated .packed (show simulatedConfig.mode ≠ .disabled by decide)
    (show simulatedSubConfig.mode ≠ .disabled by decide) (by decide)
  exact ⟨by decide, fun heq => absurd ((hsub _ _ (by decide)).mp heq) (by decide)⟩

end ArtdaqMu2e
