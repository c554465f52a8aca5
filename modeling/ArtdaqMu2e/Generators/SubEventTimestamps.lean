import ArtdaqMu2e.Generators.ReceiverRestart
import Mathlib.Algebra.BigOperators.Group.List.Basic
import Mathlib.Algebra.GroupWithZero.Nat

/-!
# Timestamps of batches

All sub-events of a read go through the timestamp code with the tag of the first one. From the second one on this tag
meets the maximum, which counts as the end of a playback pass each time. So a batch repeats a timestamp if no pass was
counted before it, and shifts it otherwise.

For reads with increasing tags this can be said exactly. The timestamps are distinct only if no read delivers two
sub-events, for the first one that does has the same timestamp for both; and they are the tags of the reads only as long
as there was no more than one sub-event too many in all (`timestamps_of_batches_iff`).
-/

namespace ArtdaqMu2e

open Runs

/-! ### Repeated tags -/

namespace TimestampState

/-- A tag, and how often it is repeated right after it was read. -/
abbrev Batch := ℕ × ℕ

def tagsOf (batches : List Batch) : List ℕ := batches.flatMap fun b => List.replicate (b.2 + 1) b.1

/-- The tags go up from one batch to the next, from a maximum on. -/
def Rising (highest : ℕ) (batches : List Batch) : Prop :=
  (∀ b ∈ batches, highest < b.1 ∧ b.1 < 2 ^ 48) ∧ (batches.map (·.1)).Pairwise (· < ·)

variable {st : TimestampState} {tag n : ℕ} {b : Batch} {batches : List Batch}

theorem Rising.tail (h : Rising st.highestTimestampSeen (b :: batches)) : Rising b.1 batches := by
  obtain ⟨hbound, hinc⟩ := h
  obtain ⟨hlt, hinc⟩ := List.pairwise_cons.mp hinc
  refine ⟨fun other hother => ⟨hlt _ (List.mem_map_of_mem hother), ?_⟩, hinc⟩
  exact (hbound other (List.mem_cons_of_mem _ hother)).2

theorem stamp_meet_eq_iff (hmax : st.highestTimestampSeen = tag) (hloops : st.timestampLoops ≤ 1) (hpos : 0 < tag)
    (hlt : tag < 2 ^ 48) : st.stamp tag = tag ↔ st.timestampLoops = 0 := by
  rw [stamp_of_le hmax.ge, hmax]
  rcases Nat.le_one_iff_eq_zero_or_eq_one.mp hloops with hzero | hone
  · rw [hzero, Nat.zero_mul, Nat.add_zero, u64_of_lt (by omega)]
    exact iff_of_true rfl rfl
  · rw [hone, Nat.one_mul, u64_of_lt (by omega)]
    omega

theorem next_meet (hmax : st.highestTimestampSeen = tag) (hloops : st.timestampLoops ≤ 1) :
    (st.next tag).highestTimestampSeen = tag ∧ (st.next tag).timestampLoops = st.timestampLoops + 1 := by
  rw [highest_next, loops_next, hmax, max_self, if_pos rfl, u64_of_lt (by omega)]
  exact ⟨rfl, rfl⟩

theorem stamps_repeated_iff (hmax : st.highestTimestampSeen = tag) (hloops : st.timestampLoops ≤ 1) (hpos : 0 < tag)
    (hlt : tag < 2 ^ 48) (n : ℕ) :
    st.stamps (List.replicate n tag) = List.replicate n tag ↔ st.timestampLoops + n ≤ 1 := by
  match n with
  | 0 => exact iff_of_true rfl hloops
  | 1 =>
    have hstamp := stamp_meet_eq_iff hmax hloops hpos hlt
    rw [List.replicate_one, stamps, stamps, List.cons.injEq, hstamp, and_iff_left rfl]
    omega
  | n + 2 =>
    obtain ⟨hmax', hloops'⟩ := next_meet hmax hloops
    refine iff_of_false (fun heq => ?_) (by omega)
    rw [List.replicate_succ, stamps, List.cons.injEq, stamp_meet_eq_iff hmax hloops hpos hlt, List.replicate_succ,
      stamps, List.cons.injEq] at heq
    obtain ⟨hzero, hsecond, -⟩ := heq
    rw [stamp_meet_eq_iff hmax' (by omega) hpos hlt] at hsecond
    omega

theorem after_repeated (hmax : st.highestTimestampSeen = tag) (hle : st.timestampLoops + n ≤ 1) :
    (st.after (List.replicate n tag)).highestTimestampSeen = tag ∧
      (st.after (List.replicate n tag)).timestampLoops = st.timestampLoops + n := by
  match n with
  | 0 => exact ⟨hmax, rfl⟩
  | 1 => exact next_meet hmax (by omega)

theorem next_new (hnew : st.highestTimestampSeen < tag) :
    st.stamp tag = tag ∧ (st.next tag).highestTimestampSeen = tag ∧
      (st.next tag).timestampLoops = st.timestampLoops := by
  rw [highest_next, loops_next, max_eq_right hnew.le, if_neg (Nat.ne_of_gt hnew)]
  exact ⟨stamp_of_gt hnew, rfl, rfl⟩

theorem stamps_tagsOf_cons (st : TimestampState) (b : Batch) (batches : List Batch) :
    st.stamps (tagsOf (b :: batches)) = st.stamp b.1 :: ((st.next b.1).stamps (List.replicate b.2 b.1) ++
      ((st.next b.1).after (List.replicate b.2 b.1)).stamps (tagsOf batches)) := by
  rw [tagsOf, List.flatMap_cons, List.replicate_succ, List.cons_append, stamps, stamps_append]
  rfl

theorem stamps_tagsOf_eq_iff (hloops : st.timestampLoops ≤ 1) (h : Rising st.highestTimestampSeen batches) :
    st.stamps (tagsOf batches) = tagsOf batches ↔ st.timestampLoops + (batches.map (·.2)).sum ≤ 1 := by
  induction batches generalizing st with
  | nil => exact iff_of_true rfl hloops
  | cons b batches ih =>
    obtain ⟨hnew, hlt⟩ := h.1 b List.mem_cons_self
    obtain ⟨hstamp, hmax, hsame⟩ := next_new hnew
    have hrepeated := stamps_repeated_iff hmax (hsame ▸ hloops) (by omega) hlt b.2
    have htags : tagsOf (b :: batches) = b.1 :: (List.replicate b.2 b.1 ++ tagsOf batches) := rfl
    rw [stamps_tagsOf_cons, htags, hstamp, List.cons.injEq, and_iff_right rfl, List.map_cons, List.sum_cons]
    constructor
    · intro heq
      obtain ⟨hfirst, hrest⟩ := List.append_inj heq (length_stamps _ _)
      have hle := hrepeated.mp hfirst
      obtain ⟨hmax', hloops'⟩ := after_repeated hmax hle
      have hrise : Rising ((st.next b.1).after (List.replicate b.2 b.1)).highestTimestampSeen batches :=
        hmax'.symm ▸ h.tail
      rw [ih (by omega) hrise, hloops', hsame] at hrest
      omega
    · intro hle
      have hfirst : (st.next b.1).timestampLoops + b.2 ≤ 1 := by omega
      obtain ⟨hmax', hloops'⟩ := after_repeated hmax hfirst
      have hrise : Rising ((st.next b.1).after (List.replicate b.2 b.1)).highestTimestampSeen batches :=
        hmax'.symm ▸ h.tail
      have hrest := (ih (by omega) hrise).mpr (by omega)
      rw [hrepeated.mpr hfirst, hrest]

theorem tagsOf_of_single (h : ∀ b ∈ batches, b.2 = 0) :
    tagsOf batches = batches.map (·.1) ∧ (batches.map (·.2)).sum = 0 := by
  induction batches with
  | nil => exact ⟨rfl, rfl⟩
  | cons b batches ih =>
    obtain ⟨hb, hbatches⟩ := List.forall_mem_cons.mp h
    obtain ⟨htags, hsum⟩ := ih hbatches
    rw [tagsOf, List.flatMap_cons, ← tagsOf, htags, hb, List.map_cons, List.map_cons, List.sum_cons, hb, hsum]
    exact ⟨rfl, rfl⟩

theorem nodup_stamps_tagsOf_iff (hloops : st.timestampLoops = 0) (h : Rising st.highestTimestampSeen batches) :
    (st.stamps (tagsOf batches)).Nodup ↔ ∀ b ∈ batches, b.2 = 0 := by
  constructor
  · intro hnodup
    induction batches generalizing st with
    | nil => simp
    | cons b batches ih =>
      obtain ⟨hnew, hlt⟩ := h.1 b List.mem_cons_self
      obtain ⟨hstamp, hmax, hsame⟩ := next_new hnew
      rw [stamps_tagsOf_cons, hstamp] at hnodup
      rcases Nat.eq_zero_or_pos b.2 with hzero | hpos
      · rw [hzero] at hnodup
        refine List.forall_mem_cons.mpr ⟨hzero, ih (hsame.trans hloops) (hmax.symm ▸ h.tail) ?_⟩
        exact (List.nodup_cons.mp hnodup).2
      · -- the first repetition has the timestamp of the tag that it repeats
        obtain ⟨n, hn⟩ := Nat.exists_eq_succ_of_ne_zero (Nat.ne_of_gt hpos)
        have hagain := (stamp_meet_eq_iff hmax (by omega) (by omega) hlt).mpr (hsame.trans hloops)
        rw [hn, List.replicate_succ, stamps, hagain] at hnodup
        exact absurd List.mem_cons_self (List.nodup_cons.mp hnodup).1
  · intro hzero
    obtain ⟨htags, hsum⟩ := tagsOf_of_single hzero
    rw [(stamps_tagsOf_eq_iff (by omega) h).mpr (by omega), htags]
    exact h.2.imp fun hlt => Nat.ne_of_lt hlt

end TimestampState

/-! ### The sub-event receiver -/

namespace Mu2eSubEventReceiver

open TimestampState

section data
variable {w : ℕ} (header : HeaderLayout w) (cfg : SubEventConfig)

theorem timestamps_addSubEvents (fresh : ℕ → (n : ℕ) → Memory.Area Byte n) (tsOut i : ℕ) (subevts : List DtcSubEvent)
    (st : Receiver) :
    (dataFragments (addSubEvents header cfg fresh tsOut i subevts st)).map (·.timestamp) =
      (dataFragments st).map (·.timestamp) ++ st.timestamps.stamps (subevts.map fun _ => tsOut) := by
  induction subevts generalizing i st with
  | nil => exact (List.append_nil _).symm
  | cons subevt subevts ih =>
    rw [addSubEvents, ih]
    simp [dataFragments, addSubEvent, subEventFragment, stamps]

theorem timestamps_step (st : Receiver) (call : SubEventCall) :
    (dataFragments (step header cfg st call)).map (·.timestamp) =
      (dataFragments st).map (·.timestamp) ++ st.timestamps.stamps (tagsRead call) := by
  obtain ⟨hdata, htimes⟩ := rollover_sendRequest cfg st
  by_cases hstop : call.shouldStop = true
  · rw [step_of_stop header cfg hstop, tagsRead_of_stop hstop]
    exact (List.append_nil _).symm
  · rw [step_of_not_stop header cfg hstop, tagsRead_eq, timestamps_addSubEvents, htimes]
    exact congrArg (fun frags : List Fragment => frags.map (·.timestamp) ++ _) hdata

theorem timestamps_run (st : Receiver) (calls : List SubEventCall) :
    (dataFragments (run (step header cfg) st calls)).map (·.timestamp) =
      (dataFragments st).map (·.timestamp) ++ st.timestamps.stamps (calls.flatMap tagsRead) := by
  induction calls generalizing st with
  | nil => exact (List.append_nil _).symm
  | cons call calls ih =>
    have hstate := (stamps_step header cfg st call).1
    rw [run_cons, ih, timestamps_step, hstate, List.flatMap_cons, stamps_append, List.append_assoc]

end data

/-- The reads of the calls that deliver something, as batches. -/
def batchesOf (calls : List SubEventCall) : List Batch :=
  (calls.filter fun call => delivered call ≠ []).map fun call => (headTag call, (delivered call).length - 1)

theorem tagsOf_batchesOf (calls : List SubEventCall) : tagsOf (batchesOf calls) = calls.flatMap tagsRead := by
  induction calls with
  | nil => rfl
  | cons call calls ih =>
    rw [List.flatMap_cons, ← ih, tagsRead, labelled, List.map_map]
    cases hread : delivered call with
    | nil =>
      rw [batchesOf, List.filter_cons_of_neg (by simp [hread])]
      rfl
    | cons subevt subevts =>
      rw [batchesOf, List.filter_cons_of_pos (by simp [hread]), List.map_cons, tagsOf, List.flatMap_cons, hread]
      refine congrArg (· ++ _) ?_
      simp [Function.comp_def, List.map_const', List.replicate_succ]

/-- How many sub-events of a run came with an earlier one. -/
def repeated (calls : List SubEventCall) : ℕ := (calls.map fun call => (delivered call).length - 1).sum

theorem sum_batchesOf (calls : List SubEventCall) : ((batchesOf calls).map (·.2)).sum = repeated calls := by
  induction calls with
  | nil => rfl
  | cons call calls ih =>
    rw [repeated, List.map_cons, List.sum_cons, ← repeated, ← ih]
    cases hread : delivered call with
    | nil =>
      rw [batchesOf, List.filter_cons_of_neg (by simp [hread]), ← batchesOf]
      exact (Nat.zero_add _).symm
    | cons subevt subevts =>
      rw [batchesOf, List.filter_cons_of_pos (by simp [hread]), List.map_cons, ← batchesOf, List.map_cons,
        List.sum_cons, hread]

theorem single_batchesOf_iff (calls : List SubEventCall) :
    (∀ b ∈ batchesOf calls, b.2 = 0) ↔ ∀ call ∈ calls, (delivered call).length ≤ 1 := by
  constructor
  · intro h call hcall
    by_cases hnone : delivered call = []
    · rw [hnone]
      exact Nat.zero_le 1
    · have hextra := h _ (List.mem_map_of_mem (List.mem_filter.mpr ⟨hcall, by simpa using hnone⟩))
      exact Nat.sub_eq_zero_iff_le.mp hextra
  · intro h b hb
    obtain ⟨call, hcall, rfl⟩ := List.mem_map.mp hb
    exact Nat.sub_eq_zero_iff_le.mpr (h call (List.mem_of_mem_filter hcall))

/-- **Timestamps of batches**: in a run whose reads have increasing tags, the timestamps of the data fragments are
distinct exactly if no read delivers more than one sub-event, and they are the tags of the reads exactly if no more than
one sub-event came with an earlier one. -/
theorem timestamps_of_batches_iff {w : ℕ} (header : HeaderLayout w) (cfg : SubEventConfig) {calls : List SubEventCall}
    (hrise : Rising 0 (batchesOf calls)) :
    let times := (dataFragments (run (step header cfg) Receiver.init calls)).map (·.timestamp)
    (times.Nodup ↔ ∀ call ∈ calls, (delivered call).length ≤ 1) ∧
      (times = calls.flatMap tagsRead ↔ repeated calls ≤ 1) := by
  intro times
  have htimes : times = TimestampState.init.stamps (tagsOf (batchesOf calls)) := by
    rw [tagsOf_batchesOf]
    exact timestamps_run header cfg Receiver.init calls
  rw [htimes, nodup_stamps_tagsOf_iff rfl hrise, single_batchesOf_iff, ← tagsOf_batchesOf,
    stamps_tagsOf_eq_iff (Nat.zero_le 1) hrise, sum_batchesOf]
  exact ⟨Iff.rfl, by rw [show TimestampState.init.timestampLoops = 0 from rfl, Nat.zero_add]⟩

/-- A read with two sub-events and a read with one: the first two have the same timestamp, which is the tag. -/
theorem timestamps_of_batches_iff_two :
    let calls : List SubEventCall :=
      [⟨false, Read.ofEvents [⟨5, [1, 2]⟩, ⟨6, [3]⟩]⟩, ⟨false, Read.failing⟩, ⟨false, Read.ofEvents [⟨9, [4]⟩]⟩]
    let times := (dataFragments (run (step .packed packingConfig) Receiver.init calls)).map (·.timestamp)
    times = [5, 5, 9] ∧ (times.Nodup ↔ ∀ call ∈ calls, (delivered call).length ≤ 1) ∧
      (times = calls.flatMap tagsRead ↔ repeated calls ≤ 1) := by
  refine ⟨by decide, timestamps_of_batches_iff .packed packingConfig ⟨by decide, by decide⟩⟩

end Mu2eSubEventReceiver

end ArtdaqMu2e
