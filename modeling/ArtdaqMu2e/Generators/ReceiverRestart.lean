import ArtdaqMu2e.Generators.CfoRequests
import ArtdaqMu2e.Generators.CRVRestart
import ArtdaqMu2e.Generators.SubEventPackaging

/-!
# The receivers without requests across restarts

The generator object is kept from one run to the next. `StartCmd` resets the counter, so every run numbers its fragments
like the first one. The members that make the timestamps stay as they are.

`Stamping` is what is needed of a receiver for that: the counter and the timestamps go on with the tags that a call
reads, and what a call appends depends on them alone. Then a run after others is like the first run of a new receiver
exactly if every tag is shifted by the same amount in both, and all runs are only if nothing was read before that leaves
a trace: any tag other than 0 does, and 0 does until it was read 2^64 times (`restart_like_new`).
-/

namespace ArtdaqMu2e

open Runs

open CRVReceiver (stampOf)

/-! ### Restarts -/

open TimestampState

/-- Two receivers have appended the same numbers and timestamps. -/
def SameStamps (st : Receiver × Receiver) : Prop := st.1.frags.map stampOf = st.2.frags.map stampOf

/-- A receiver whose counter and timestamps go on with the tags that a call reads. What a call appends is the same for
two receivers with the same counter exactly if the timestamps of these tags are. -/
structure Stamping {ι : Type*} (step : Receiver → ι → Receiver) (tags : ι → List ℕ) : Prop where
  timestamps : ∀ st call, (step st call).timestamps = st.timestamps.after (tags call)
  evCounter : ∀ st call, (step st call).evCounter = st.evCounter + (tags call).length
  same_iff : ∀ st st' call, st.evCounter = st'.evCounter → SameStamps (st, st') →
    (SameStamps (step st call, step st' call) ↔
      st.timestamps.stamps (tags call) = st'.timestamps.stamps (tags call))
  reads : ∀ tag, ∃ call, tags call = [tag]

/-- A receiver after some runs, all of them over. -/
def afterRuns {ι : Type*} (step : Receiver → ι → Receiver) (cfg : ReceiverConfig) (runs : List (List ι)) : Receiver :=
  runs.foldl (fun st calls => (run step (st.startCmd cfg) calls).stop) Receiver.init

/-- The receiver at the start of the next run. -/
def restarted {ι : Type*} (step : Receiver → ι → Receiver) (cfg : ReceiverConfig) (runs : List (List ι)) : Receiver :=
  (afterRuns step cfg runs).startCmd cfg

theorem Receiver.startCmd_spec (cfg : ReceiverConfig) (st : Receiver) :
    (st.startCmd cfg).evCounter = 1 ∧ (st.startCmd cfg).frags = [] ∧ (st.startCmd cfg).timestamps = st.timestamps ∧
      (st.startCmd cfg).cfoRequests = st.cfoRequests := by
  unfold Receiver.startCmd Receiver.start
  split <;> exact ⟨rfl, rfl, rfl, rfl⟩

section stamping
variable {ι : Type*} {step : Receiver → ι → Receiver} {tags : ι → List ℕ}

theorem Stamping.timestamps_run (h : Stamping step tags) (st : Receiver) (calls : List ι) :
    (run step st calls).timestamps = st.timestamps.after (calls.flatMap tags) := by
  induction calls generalizing st with
  | nil => rfl
  | cons call calls ih => rw [run_cons, ih, h.timestamps, List.flatMap_cons, after_append]

theorem Stamping.timestamps_afterRuns (h : Stamping step tags) (cfg : ReceiverConfig) (runs : List (List ι)) :
    (afterRuns step cfg runs).timestamps = TimestampState.init.after (runs.flatten.flatMap tags) := by
  induction runs using List.reverseRecOn with
  | nil => rfl
  | append_singleton runs calls ih =>
    obtain ⟨-, -, htimes, -⟩ := Receiver.startCmd_spec cfg (afterRuns step cfg runs)
    rw [List.flatten_append, List.flatten_singleton, List.flatMap_append, after_append, ← ih, ← htimes,
      ← h.timestamps_run, afterRuns, List.foldl_append]
    rfl

theorem Stamping.steps_iff (h : Stamping step tags) (st : Receiver × Receiver) (calls : List ι) :
    Steps (both step step) (fun st call => st.1.timestamps.stamps (tags call) = st.2.timestamps.stamps (tags call)) st
        calls ↔
      st.1.timestamps.stamps (calls.flatMap tags) = st.2.timestamps.stamps (calls.flatMap tags) := by
  induction calls generalizing st with
  | nil => exact ⟨fun _ => rfl, fun _ => trivial⟩
  | cons call calls ih =>
    rw [Steps, ih, both, h.timestamps, h.timestamps, List.flatMap_cons, stamps_append, stamps_append]
    constructor
    · rintro ⟨hcall, hcalls⟩
      rw [hcall, hcalls]
    · intro hsame
      exact List.append_inj hsame (by rw [length_stamps, length_stamps])

theorem Stamping.always_iff (h : Stamping step tags) {st : Receiver × Receiver}
    (hcount : st.1.evCounter = st.2.evCounter) (hsame : SameStamps st) {calls : List ι}
    (hbound : ∀ tag ∈ calls.flatMap tags, tag < 2 ^ 48) :
    Always (both step step) SameStamps st calls ↔
      Steps (both next next) SameShift (st.1.timestamps, st.2.timestamps) (calls.flatMap tags) := by
  have hcounts : ∀ (st : Receiver × Receiver) (call : ι), True → st.1.evCounter = st.2.evCounter →
      (both step step st call).1.evCounter = (both step step st call).2.evCounter := by
    intro st call _ heq
    show (step st.1 call).evCounter = (step st.2 call).evCounter
    rw [h.evCounter, h.evCounter, heq]
  have hsteps : Always (both step step) SameStamps st calls ↔ Steps (both step step)
      (fun st call => st.1.timestamps.stamps (tags call) = st.2.timestamps.stamps (tags call)) st calls :=
    always_iff_steps hcounts (fun st call _ heq hprev => h.same_iff st.1 st.2 call heq hprev) hcount hsame
      fun _ _ => trivial
  rw [hsteps, h.steps_iff, stamps_eq_iff fun tag htag => (hbound tag htag).trans (by decide)]

/-- After some runs, a receiver is like a new one. -/
structure LikeNew (step : Receiver → ι → Receiver) (tags : ι → List ℕ) (cfg : ReceiverConfig) (runs : List (List ι)) :
    Prop where
  /-- In one run, exactly if every tag is shifted by the same amount. -/
  oneRun : ∀ calls : List ι, (∀ tag ∈ calls.flatMap tags, tag < 2 ^ 48) →
    (Always (both step step) SameStamps (restarted step cfg runs, restarted step cfg []) calls ↔
      Steps (both next next) SameShift
        (TimestampState.init.after (runs.flatten.flatMap tags), TimestampState.init) (calls.flatMap tags))
  /-- In every run, exactly if nothing but zeros was read, in a multiple of 2^64. -/
  everyRun : (∀ calls : List ι, (∀ tag ∈ calls.flatMap tags, tag < 2 ^ 48) →
      Always (both step step) SameStamps (restarted step cfg runs, restarted step cfg []) calls) ↔
    (∀ tag ∈ runs.flatten.flatMap tags, tag = 0) ∧ 2 ^ 64 ∣ (runs.flatten.flatMap tags).length

theorem Stamping.exists_calls (h : Stamping step tags) (wanted : List ℕ) :
    ∃ calls : List ι, calls.flatMap tags = wanted := by
  induction wanted with
  | nil => exact ⟨[], rfl⟩
  | cons tag wanted ih =>
    obtain ⟨call, hcall⟩ := h.reads tag
    obtain ⟨calls, hcalls⟩ := ih
    exact ⟨call :: calls, by rw [List.flatMap_cons, hcall, hcalls, List.singleton_append]⟩

theorem Stamping.likeNew (h : Stamping step tags) (cfg : ReceiverConfig) {runs : List (List ι)}
    (hbound : ∀ tag ∈ runs.flatten.flatMap tags, tag < 2 ^ 48) : LikeNew step tags cfg runs := by
  obtain ⟨hcount, hfrags, htimes, -⟩ := Receiver.startCmd_spec cfg (afterRuns step cfg runs)
  obtain ⟨hcount', hfrags', htimes', -⟩ := Receiver.startCmd_spec cfg (afterRuns step cfg [])
  have hnew : (restarted step cfg []).timestamps = TimestampState.init := htimes'
  have hold : (restarted step cfg runs).timestamps = TimestampState.init.after (runs.flatten.flatMap tags) :=
    htimes.trans (h.timestamps_afterRuns cfg runs)
  have hsame : SameStamps (restarted step cfg runs, restarted step cfg []) :=
    congrArg (List.map stampOf) (hfrags.trans hfrags'.symm)
  have hone : ∀ calls : List ι, (∀ tag ∈ calls.flatMap tags, tag < 2 ^ 48) →
      (Always (both step step) SameStamps (restarted step cfg runs, restarted step cfg []) calls ↔
        Steps (both next next) SameShift
          (TimestampState.init.after (runs.flatten.flatMap tags), TimestampState.init) (calls.flatMap tags)) := by
    intro calls hcalls
    rw [h.always_iff (hcount.trans hcount'.symm) hsame hcalls, hnew, hold]
  refine ⟨hone, ?_⟩
  rw [← fresh_after_iff, fresh_iff_stamps (highest_after_lt hbound) (loops_after_lt _)]
  constructor
  · intro hall wanted hwanted
    obtain ⟨calls, rfl⟩ := h.exists_calls wanted
    have hsteps := (hone calls hwanted).mp (hall calls hwanted)
    exact (stamps_eq_iff fun tag htag => (hwanted tag htag).trans (by decide)).mpr hsteps
  · intro hall calls hcalls
    have hlt : ∀ tag ∈ calls.flatMap tags, tag < 2 ^ 64 := fun tag htag => (hcalls tag htag).trans (by decide)
    exact (hone calls hcalls).mpr ((stamps_eq_iff hlt).mp (hall _ hcalls))

end stamping

/-! ### The two receivers -/

theorem sameStamps_append_iff {st st' : Receiver} (hsame : SameStamps (st, st')) {next next' : Receiver}
    {new new' : List (ℕ × ℕ)} (hnext : next.frags.map stampOf = st.frags.map stampOf ++ new)
    (hnext' : next'.frags.map stampOf = st'.frags.map stampOf ++ new') : SameStamps (next, next') ↔ new = new' := by
  have hsame : st.frags.map stampOf = st'.frags.map stampOf := hsame
  rw [SameStamps, hnext, hnext', hsame]
  exact List.append_right_inj _

namespace Mu2eEventReceiver

/-- The tag that a call reads, if any: that of its first event. -/
def tagsRead (call : ReceiverCall) : List ℕ := ((delivered call).head?.map (·.eventWindowTag)).toList

theorem stamps_step (layout : FragmentLayout) (cfg : ReceiverConfig) (st : Receiver) (call : ReceiverCall) :
    (step layout cfg st call).timestamps = st.timestamps.after (tagsRead call) ∧
      (step layout cfg st call).evCounter = st.evCounter + (tagsRead call).length ∧
      (step layout cfg st call).frags.map stampOf = st.frags.map stampOf ++
        (st.timestamps.stamps (tagsRead call)).map fun time => (st.getCurrentSequenceID cfg, time) := by
  by_cases hnone : call.shouldStop = true ∨ call.read.delivered = []
  · obtain ⟨hfrags, hev, htimes⟩ := getNext_of_nil layout cfg st hnone
    have htags : tagsRead call = [] := by
      unfold tagsRead delivered
      rcases hnone with hstop | hread
      · rw [if_pos hstop]
        rfl
      · split_ifs
        · rfl
        · rw [hread]
          rfl
    rw [step, hfrags, hev, htimes, htags]
    exact ⟨rfl, rfl, (List.append_nil _).symm⟩
  · obtain ⟨hstop, hread⟩ := not_or.mp hnone
    obtain ⟨evt, evts, hread⟩ := List.exists_cons_of_ne_nil hread
    obtain ⟨hfrags, hev, htimes⟩ := sendRequest_spec cfg st
    have htags : tagsRead call = [evt.eventWindowTag] := by
      rw [tagsRead, delivered, if_neg hstop, hread]
      rfl
    rw [step, getNext, if_neg hstop, getNextDTCFragment_of_cons hread, htags]
    refine ⟨congrArg (·.next evt.eventWindowTag) htimes, congrArg (· + 1) hev, ?_⟩
    rw [List.map_append, hfrags]
    simp [stampOf, readFragment, stamps, Receiver.getCurrentSequenceID, hev, htimes]

theorem stamping (layout : FragmentLayout) (cfg : ReceiverConfig) : Stamping (step layout cfg) tagsRead where
  timestamps st call := (stamps_step layout cfg st call).1
  evCounter st call := (stamps_step layout cfg st call).2.1
  same_iff st st' call hcount hsame := by
    rw [sameStamps_append_iff hsame (stamps_step layout cfg st call).2.2 (stamps_step layout cfg st' call).2.2,
      Receiver.getCurrentSequenceID, hcount, Receiver.getCurrentSequenceID]
    refine List.map_inj_right fun time time' heq => (Prod.mk.inj heq).2
  reads tag := ⟨⟨false, Read.ofEvents [⟨tag, []⟩]⟩, by
    have hread : (Read.ofEvents [(⟨tag, []⟩ : DtcEvent)]).delivered = [⟨tag, []⟩] := Read.delivered_of_first rfl
    rw [tagsRead, delivered, if_neg Bool.false_ne_true, hread]
    rfl⟩

end Mu2eEventReceiver

namespace Mu2eSubEventReceiver

/-- The tags that a call reads: that of its first sub-event, for each of them. -/
def tagsRead (call : SubEventCall) : List ℕ := (labelled call).map (·.2)

theorem tagsRead_eq (call : SubEventCall) : tagsRead call = (delivered call).map fun _ => headTag call := by
  rw [tagsRead, labelled, List.map_map]
  rfl

theorem tagsRead_of_stop {call : SubEventCall} (hstop : call.shouldStop = true) : tagsRead call = [] := by
  rw [tagsRead_eq, delivered_of_stop hstop, List.map_nil]

section call
variable {w : ℕ} (header : HeaderLayout w) (cfg : SubEventConfig)

theorem stamps_addSubEvents (fresh : ℕ → (n : ℕ) → Memory.Area Byte n) (tsOut i : ℕ) (subevts : List DtcSubEvent)
    (st : Receiver) :
    (addSubEvents header cfg fresh tsOut i subevts st).timestamps = st.timestamps.after (subevts.map fun _ => tsOut) ∧
      (addSubEvents header cfg fresh tsOut i subevts st).evCounter = st.evCounter + subevts.length ∧
      (addSubEvents header cfg fresh tsOut i subevts st).frags.map stampOf = st.frags.map stampOf ++
        (List.range' st.evCounter subevts.length).zip (st.timestamps.stamps (subevts.map fun _ => tsOut)) := by
  induction subevts generalizing i st with
  | nil => exact ⟨rfl, rfl, (List.append_nil _).symm⟩
  | cons subevt subevts ih =>
    obtain ⟨htimes, hev, hfrags⟩ := ih (i + 1) (addSubEvent header cfg fresh tsOut i subevt st)
    refine ⟨htimes, ?_, ?_⟩
    · rw [addSubEvents, hev, List.length_cons]
      exact Nat.add_right_comm _ _ _
    · rw [addSubEvents, hfrags, addSubEvent, List.map_append, List.append_assoc, List.length_cons, List.range'_succ]
      rfl

/-- The number of a sub-run transition, if there is one. -/
def transition (cfg : SubEventConfig) (evCounter : ℕ) : List (ℕ × ℕ) :=
  if cfg.rolloverSubrunInterval > 0 ∧ evCounter % cfg.rolloverSubrunInterval = 0 ∧ cfg.fragmentId = 0 then
    [(evCounter + 1, 0)]
  else []

theorem stamps_rollover (st : Receiver) :
    (rollover cfg (sendRequest cfg st)).timestamps = st.timestamps ∧
      (rollover cfg (sendRequest cfg st)).evCounter = st.evCounter ∧
      (rollover cfg (sendRequest cfg st)).frags.map stampOf =
        st.frags.map stampOf ++ transition cfg st.evCounter := by
  obtain ⟨hfrags, hev, htimes⟩ := sendRequest_spec cfg st
  unfold rollover transition
  rw [hev]
  split_ifs
  · refine ⟨htimes, rfl, ?_⟩
    rw [List.map_append, hfrags]
    rfl
  · exact ⟨htimes, hev, by rw [hfrags, List.append_nil]⟩

theorem stamps_step (st : Receiver) (call : SubEventCall) :
    (step header cfg st call).timestamps = st.timestamps.after (tagsRead call) ∧
      (step header cfg st call).evCounter = st.evCounter + (tagsRead call).length ∧
      (step header cfg st call).frags.map stampOf = st.frags.map stampOf ++
        ((if call.shouldStop then [] else transition cfg st.evCounter) ++
          (List.range' st.evCounter (tagsRead call).length).zip (st.timestamps.stamps (tagsRead call))) := by
  obtain ⟨htimes, hev, hfrags⟩ := stamps_rollover cfg st
  by_cases hstop : call.shouldStop = true
  · rw [step_of_stop header cfg hstop, tagsRead_of_stop hstop, if_pos hstop]
    exact ⟨rfl, rfl, (List.append_nil _).symm⟩
  · rw [step_of_not_stop header cfg hstop, tagsRead_eq, if_neg hstop]
    obtain ⟨htimes', hev', hfrags'⟩ := stamps_addSubEvents header cfg call.read.fresh (headTag call) 0 (delivered call)
      { rollover cfg (sendRequest cfg st) with
        getDataCalls := (rollover cfg (sendRequest cfg st)).getDataCalls ++ List.replicate call.read.calls 0 }
    refine ⟨htimes'.trans ?_, hev'.trans ?_, hfrags'.trans ?_⟩
    · rw [htimes]
    · rw [hev, List.length_map]
    · rw [hfrags, hev, htimes, List.length_map, List.append_assoc]

end call

theorem stamping {w : ℕ} (header : HeaderLayout w) (cfg : SubEventConfig) : Stamping (step header cfg) tagsRead where
  timestamps st call := (stamps_step header cfg st call).1
  evCounter st call := (stamps_step header cfg st call).2.1
  same_iff st st' call hcount hsame := by
    rw [sameStamps_append_iff hsame (stamps_step header cfg st call).2.2 (stamps_step header cfg st' call).2.2, hcount,
      List.append_right_inj]
    have hlength : ∀ st : Receiver, (st.timestamps.stamps (tagsRead call)).length ≤
        (List.range' st'.evCounter (tagsRead call).length).length := by
      intro st
      rw [length_stamps, List.length_range']
    constructor
    · intro heq
      have hsnd := congrArg (List.map Prod.snd) heq
      rwa [List.map_snd_zip (hlength st), List.map_snd_zip (hlength st')] at hsnd
    · intro heq
      rw [heq]
  reads tag := ⟨⟨false, Read.ofEvents [⟨tag, []⟩]⟩, by
    have hread : (Read.ofEvents [(⟨tag, []⟩ : DtcSubEvent)]).delivered = [⟨tag, []⟩] := Read.delivered_of_first rfl
    rw [tagsRead, labelled, headTag, delivered, if_neg Bool.false_ne_true, hread]
    rfl⟩

end Mu2eSubEventReceiver

/-- **Only the tags of earlier runs stay behind**, in both receivers: after any runs, another one appends what the first
run of a new receiver does, after every call, if and only if every tag is shifted by the same amount in both, and this
is so for all runs if and only if nothing but the tag 0 was read before, and that not at all or 2^64 times over. -/
theorem restart_like_new (layout : FragmentLayout) (cfg : ReceiverConfig) {w : ℕ} (header : HeaderLayout w)
    (subCfg : SubEventConfig) :
    (∀ runs : List (List ReceiverCall), (∀ tag ∈ runs.flatten.flatMap Mu2eEventReceiver.tagsRead, tag < 2 ^ 48) →
        LikeNew (Mu2eEventReceiver.step layout cfg) Mu2eEventReceiver.tagsRead cfg runs) ∧
      ∀ runs : List (List SubEventCall), (∀ tag ∈ runs.flatten.flatMap Mu2eSubEventReceiver.tagsRead, tag < 2 ^ 48) →
        LikeNew (Mu2eSubEventReceiver.step header subCfg) Mu2eSubEventReceiver.tagsRead subCfg.toReceiverConfig runs :=
  ⟨fun _ hbound => (Mu2eEventReceiver.stamping layout cfg).likeNew cfg hbound,
    fun _ hbound => (Mu2eSubEventReceiver.stamping header subCfg).likeNew subCfg.toReceiverConfig hbound⟩

theorem restart_like_new_five :
    LikeNew (Mu2eEventReceiver.step .zeroTerminated simulatedConfig) Mu2eEventReceiver.tagsRead simulatedConfig
        [eventCalls [5]] ∧
      LikeNew (Mu2eSubEventReceiver.step .packed simulatedSubConfig) Mu2eSubEventReceiver.tagsRead simulatedConfig
        [subEventCalls [5]] := by
  obtain ⟨hevent, hsub⟩ := restart_like_new .zeroTerminated simulatedConfig .packed simulatedSubConfig
  exact ⟨hevent _ (by decide), hsub _ (by decide)⟩

end ArtdaqMu2e
