import ArtdaqMu2e.Generators.Chain
import ArtdaqMu2e.Lib.Lists

/-!
# The requests of a chain to the software CFO

In simulation each receiver of a chain asks for an event window before it reads. As long as it has no fragment it asks
for no window in particular, and then for the first tag plus the number of its next fragment: a request is a function
of the number of fragments so far, and is repeated until there is one more (`cfoRequests_run`).

So the chain shares out the windows as it shares out the numbers. If all receivers begin with the same tag, which is not
0, no two of them ask for the same window, and what they ask for is without gap, but it begins behind the first windows:
as many as there are receivers are never asked for (`requestsShared`).
-/

namespace ArtdaqMu2e

open Lists Runs RoundRobin

namespace Mu2eEventReceiver

/-- The calls that go ahead: whether the read delivers something. -/
def deliveries (calls : List ReceiverCall) : List Bool :=
  (calls.filter fun call => !call.shouldStop).map fun call => !call.read.delivered.isEmpty

/-- The window asked for by a receiver that has `k` fragments, the first of them with the tag `first`. -/
def windowAfter (cfg : ReceiverConfig) (first k : ℕ) : ℕ :=
  if k = 0 then 0 else u64 (u64 (k * cfg.nDtcs + cfg.dtcOffset + 1) + first)

/-- The receiver has `k` fragments, the first of them with the tag `first`. -/
structure Counts (first k : ℕ) (st : Receiver) : Prop where
  evCounter : st.evCounter = k + 1
  firstTag : st.timestamps.firstTimestampSeen = if k = 0 then 0 else first

section run
variable (layout : FragmentLayout) {cfg : ReceiverConfig} {first k : ℕ} {call : ReceiverCall} {st : Receiver}

theorem Counts.getCurrentEventWindowTag_eq (h : Counts first k st) (hpos : 0 < first) :
    getCurrentEventWindowTag cfg st = windowAfter cfg first k := by
  rw [getCurrentEventWindowTag, windowAfter, getCurrentSequenceID_of_evCounter h.evCounter, h.firstTag]
  by_cases hk : k = 0
  · simp [hk]
  · simp [hk, hpos]

theorem Counts.step_of_nil (h : Counts first k st) (hread : call.read.delivered = []) :
    Counts first k (step layout cfg st call) := by
  obtain ⟨-, hev, htimes⟩ := getNext_of_nil layout cfg st (Or.inr hread)
  exact ⟨hev.trans h.evCounter, (congrArg (·.firstTimestampSeen) htimes).trans h.firstTag⟩

theorem Counts.step_of_cons (h : Counts first k st) (hpos : 0 < first) (hstop : call.shouldStop = false)
    {evt : DtcEvent} {evts : List DtcEvent} (hread : call.read.delivered = evt :: evts)
    (htag : k = 0 → evt.eventWindowTag = first) : Counts first (k + 1) (step layout cfg st call) := by
  obtain ⟨hev, -⟩ := getNext_of_cons layout cfg st hstop hread
  refine ⟨hev.trans (congrArg (· + 1) h.evCounter), ?_⟩
  have hnext : (step layout cfg st call).timestamps = st.timestamps.next evt.eventWindowTag := by
    rw [step, getNext, hstop, if_neg (by decide), getNextDTCFragment_of_cons hread, (sendRequest_spec cfg st).2.2]
  rw [hnext, TimestampState.first_next, h.firstTag, if_neg (Nat.succ_ne_zero k)]
  by_cases hk : k = 0
  · rw [if_pos hk, if_pos rfl, htag hk]
  · rw [if_neg hk, if_neg (Nat.ne_of_gt hpos)]

theorem cfoRequests_step (hmode : cfg.mode ≠ .disabled) (hstop : call.shouldStop = false) (st : Receiver) :
    (step layout cfg st call).cfoRequests.map (·.1) =
      st.cfoRequests.map (·.1) ++ [getCurrentEventWindowTag cfg st] := by
  have hsend : (sendRequest cfg st).cfoRequests.map (·.1) =
      st.cfoRequests.map (·.1) ++ [getCurrentEventWindowTag cfg st] := by
    rw [sendRequest, if_pos hmode, List.map_append]
    rfl
  rw [step, getNext, hstop, if_neg (by decide), ← hsend]
  cases hread : call.read.delivered with
  | nil => rw [getNextDTCFragment_of_nil hread]
  | cons evt evts => rw [getNextDTCFragment_of_cons hread]

theorem cfoRequests_run_from (hmode : cfg.mode ≠ .disabled) (hpos : 0 < first) {calls : List ReceiverCall}
    (hcounts : Counts first k st) (htag : k = 0 → ∀ evt ∈ (calls.flatMap delivered).head?, evt.eventWindowTag = first) :
    (run (step layout cfg) st calls).cfoRequests.map (·.1) =
      st.cfoRequests.map (·.1) ++ (levels k (deliveries calls)).map (windowAfter cfg first) := by
  induction calls generalizing k st with
  | nil => exact (List.append_nil _).symm
  | cons call calls ih =>
    rw [List.flatMap_cons] at htag
    rw [run_cons]
    cases hstop : call.shouldStop with
    | true =>
      have hstep : step layout cfg st call = st := by rw [step, getNext, if_pos hstop]
      have hnone : delivered call = [] := if_pos hstop
      rw [hnone, List.nil_append] at htag
      rw [hstep, ih hcounts htag, deliveries, deliveries, List.filter_cons_of_neg (by simp [hstop])]
    | false =>
      have hdelivered : delivered call = call.read.delivered := if_neg (by simp [hstop])
      have hflags : deliveries (call :: calls) = (!call.read.delivered.isEmpty) :: deliveries calls := by
        rw [deliveries, List.filter_cons_of_pos (by simp [hstop]), List.map_cons, deliveries]
      have hrequest := cfoRequests_step layout hmode hstop st
      rw [hcounts.getCurrentEventWindowTag_eq hpos] at hrequest
      rw [hdelivered] at htag
      rw [hflags, levels, List.map_cons]
      cases hread : call.read.delivered with
      | nil =>
        rw [hread, List.nil_append] at htag
        rw [ih (hcounts.step_of_nil layout hread) htag, hrequest, List.append_assoc]
        rfl
      | cons evt evts =>
        have hnext : Counts first (k + 1) (step layout cfg st call) :=
          hcounts.step_of_cons layout hpos hstop hread fun hk => htag hk evt (by rw [hread]; rfl)
        rw [ih hnext fun h => absurd h (Nat.succ_ne_zero k), hrequest, List.append_assoc]
        rfl

theorem cfoRequests_run (hmode : cfg.mode ≠ .disabled) (hpos : 0 < first) {calls : List ReceiverCall}
    (htag : ∀ evt ∈ (calls.flatMap delivered).head?, evt.eventWindowTag = first) :
    (run (step layout cfg) Receiver.init calls).cfoRequests.map (·.1) =
      (levels 0 (deliveries calls)).map (windowAfter cfg first) := by
  rw [cfoRequests_run_from layout hmode hpos ⟨rfl, rfl⟩ fun _ => htag]
  rfl

end run

end Mu2eEventReceiver

/-! ### The chain -/

namespace ReceiverChain

open Mu2eEventReceiver

variable {n : ℕ} (layout : FragmentLayout) (chain : ReceiverChain n)

/-- The windows that the receiver at position `p` asks for. -/
def requests (calls : List (Fin n × ReceiverCall)) (p : Fin n) : List ℕ :=
  (chain.runAll layout calls p).cfoRequests.map (·.1)

/-- The number of fragments of the receiver at position `p`, and the number before its last call. -/
def made (calls : List (Fin n × ReceiverCall)) (p : Fin n) : ℕ := (deliveries (inputsOf p calls)).count true

def madeBefore (calls : List (Fin n × ReceiverCall)) (p : Fin n) : ℕ :=
  (deliveries (inputsOf p calls)).dropLast.count true

/-- A simulated chain whose receivers begin with the same tag, which is not 0. -/
structure Begins (calls : List (Fin n × ReceiverCall)) (first : ℕ) : Prop where
  simulated : ∀ p, (chain.cfg p).mode ≠ .disabled
  pos : 0 < first
  firstTag : ∀ p, ∀ evt ∈ ((inputsOf p calls).flatMap delivered).head?, evt.eventWindowTag = first
  fits : ∀ p : Fin n, first + slot n p (made calls p) < 2 ^ 64

section shared
variable {layout chain} {calls : List (Fin n × ReceiverCall)} {first : ℕ}

theorem window_injective (hpos : 0 < first) (p : Fin n) :
    Function.Injective fun k => if k = 0 then 0 else first + slot n p k := by
  intro k k' hsame
  dsimp only at hsame
  split_ifs at hsame with hk hk' hk'
  · exact hk.trans hk'.symm
  · omega
  · omega
  · exact (slot_injective p.isLt p.isLt (Nat.add_left_cancel hsame)).2

theorem requests_eq (h : Begins chain calls first) (p : Fin n) :
    chain.requests layout calls p =
      (levels 0 (deliveries (inputsOf p calls))).map fun k => if k = 0 then 0 else first + slot n p k := by
  have hrun : chain.runAll layout calls p =
      run (Mu2eEventReceiver.step layout (chain.cfg p)) Receiver.init (inputsOf p calls) :=
    run_interleave _ _ _ _
  rw [requests, hrun, cfoRequests_run layout (h.simulated p) h.pos (h.firstTag p)]
  refine List.map_congr_left fun k hk => ?_
  have hle : k ≤ made calls p := by
    have hmem := (le_of_mem_levels hk).2
    rwa [Nat.zero_add] at hmem
  have hfits := h.fits p
  have hslot := slot_mono n p hle
  rw [windowAfter, chain.nDtcs, chain.dtcOffset]
  refine if_congr Iff.rfl rfl ?_
  rw [u64_of_lt (show k * n + (p : ℕ) + 1 < 2 ^ 64 by unfold slot at *; omega),
    u64_of_lt (by unfold slot at *; omega), Nat.add_comm]
  rfl

theorem mem_requests_iff (h : Begins chain calls first) {p : Fin n} {tag : ℕ} (htag : tag ≠ 0) :
    tag ∈ chain.requests layout calls p ↔ ∃ k, 1 ≤ k ∧ k ≤ madeBefore calls p ∧ tag = first + slot n p k := by
  rw [requests_eq h, List.mem_map]
  rcases Decidable.em (deliveries (inputsOf p calls) = []) with hnil | hne
  · constructor
    · rintro ⟨k, hk, -⟩
      rw [hnil] at hk
      cases hk
    · rintro ⟨k, hk, hle, -⟩
      rw [madeBefore, hnil] at hle
      exact absurd (hk.trans hle) (by decide)
  · constructor
    · rintro ⟨k, hk, rfl⟩
      have hle := ((mem_levels_iff hne).mp hk).2
      rw [Nat.zero_add] at hle
      by_cases hzero : k = 0
      · rw [if_pos hzero] at htag
        exact absurd rfl htag
      · exact ⟨k, Nat.one_le_iff_ne_zero.mpr hzero, hle, if_neg hzero⟩
    · rintro ⟨k, hk, hle, rfl⟩
      refine ⟨k, (mem_levels_iff hne).mpr ⟨Nat.zero_le k, ?_⟩, if_neg (Nat.ne_of_gt hk)⟩
      rwa [Nat.zero_add]

theorem lt_of_mem_requests (h : Begins chain calls first) {p : Fin n} {tag : ℕ}
    (hmem : tag ∈ chain.requests layout calls p) (htag : tag ≠ 0) : first + n < tag := by
  obtain ⟨k, hk, -, rfl⟩ := (mem_requests_iff h htag).mp hmem
  have hslot := slot_mono n p hk
  unfold slot at *
  omega

theorem exists_mem_requests_iff (h : Begins chain calls first) {m : ℕ} (hm : ∀ p, madeBefore calls p = m) {tag : ℕ}
    (htag : tag ≠ 0) :
    (∃ p, tag ∈ chain.requests layout calls p) ↔ first + n + 1 ≤ tag ∧ tag ≤ first + n + m * n := by
  constructor
  · rintro ⟨p, hmem⟩
    refine ⟨lt_of_mem_requests h hmem htag, ?_⟩
    obtain ⟨k, hk, hle, rfl⟩ := (mem_requests_iff h htag).mp hmem
    rw [hm p] at hle
    have hsucc := slot_succ n p (k - 1)
    rw [Nat.sub_add_cancel hk] at hsucc
    have hupper := slot_le p.isLt (show k - 1 < m by omega)
    omega
  · rintro ⟨hlower, hupper⟩
    obtain ⟨p, j, hp, hj, hslot⟩ :=
      exists_slot (show 1 ≤ tag - first - n by omega) (show tag - first - n ≤ m * n by omega)
    refine ⟨⟨p, hp⟩, (mem_requests_iff h htag).mpr ⟨j + 1, Nat.le_add_left 1 j, ?_, ?_⟩⟩
    · rw [hm]
      exact hj
    · show tag = first + slot n p (j + 1)
      rw [slot_succ, hslot]
      omega

end shared

/-- How a chain shares the windows. -/
structure SharesRequests (calls : List (Fin n × ReceiverCall)) (first : ℕ) : Prop where
  /-- The first windows, as many as there are receivers, are not asked for. -/
  behind : ∀ p, ∀ tag ∈ chain.requests layout calls p, tag = 0 ∨ first + n < tag
  ordered : ∀ p, (chain.requests layout calls p).Pairwise (· ≤ ·)
  /-- Two requests of a receiver are for the same window exactly if all reads in between delivered nothing. -/
  repeated : ∀ p i j, i ≤ j → j < (chain.requests layout calls p).length →
    ((chain.requests layout calls p)[i]? = (chain.requests layout calls p)[j]? ↔
      ∀ m, i ≤ m → m < j → (deliveries (inputsOf p calls))[m]? = some false)
  distinct : ∀ p q, ∀ tag ∈ chain.requests layout calls p, tag ∈ chain.requests layout calls q → tag ≠ 0 → p = q
  complete : ∀ m, (∀ p, madeBefore calls p = m) →
    (Finset.univ.biUnion fun p => (chain.requests layout calls p).toFinset.erase 0) =
      Finset.Icc (first + n + 1) (first + n + m * n)

/-- **A chain shares the windows between its receivers**, however their calls are interleaved and whichever reads
fail: each receiver asks for its windows in order and for the same one again only after a failed read, no two receivers
ask for the same one other than 0, and when all are equally far there is no gap in what was asked for, except that the
windows right after the first event, as many as there are receivers, are left out. -/
theorem requestsShared {calls : List (Fin n × ReceiverCall)} {first : ℕ} (h : Begins chain calls first) :
    SharesRequests layout chain calls first := by
  refine ⟨fun p tag htag => ?_, fun p => ?_, fun p i j hij hj => ?_, fun p q tag hp hq htag => ?_, fun m hm => ?_⟩
  · by_cases hzero : tag = 0
    · exact Or.inl hzero
    · exact Or.inr (lt_of_mem_requests h htag hzero)
  · rw [requests_eq h, List.pairwise_map]
    refine (pairwise_levels 0 _).imp fun {k k'} hle => ?_
    have hslot := slot_mono n p hle
    split_ifs <;> omega
  · rw [requests_eq h] at hj ⊢
    rw [List.length_map, length_levels] at hj
    rw [List.getElem?_map, List.getElem?_map, (Option.map_injective (window_injective h.pos p)).eq_iff]
    exact levels_eq_iff 0 hij hj
  · obtain ⟨k, -, -, hk⟩ := (mem_requests_iff h htag).mp hp
    obtain ⟨k', -, -, hk'⟩ := (mem_requests_iff h htag).mp hq
    exact Fin.ext (slot_injective p.isLt q.isLt (Nat.add_left_cancel (hk.symm.trans hk'))).1
  · ext tag
    simp only [Finset.mem_biUnion, Finset.mem_univ, true_and, Finset.mem_erase, List.mem_toFinset, exists_and_left,
      Finset.mem_Icc]
    constructor
    · rintro ⟨hzero, hasked⟩
      exact (exists_mem_requests_iff h hm hzero).mp hasked
    · rintro ⟨hlower, hupper⟩
      have hzero : tag ≠ 0 := by omega
      exact ⟨hzero, (exists_mem_requests_iff h hm hzero).mpr ⟨hlower, hupper⟩⟩

/-- Two simulated receivers. -/
def simulatedPair : ReceiverChain 2 where
  cfg p := ⟨p, .simulated, false, 16, p, 2⟩
  nDtcs _ := rfl
  dtcOffset _ := rfl

/-- Both read the windows 5 and 6, and the second one fails in between. -/
def simulatedCalls : List (Fin 2 × ReceiverCall) :=
  [(⟨0, Nat.two_pos⟩, ⟨false, Read.ofEvents [⟨5, [1]⟩]⟩), (⟨1, Nat.one_lt_two⟩, ⟨false, Read.ofEvents [⟨5, [2]⟩]⟩),
    (⟨1, Nat.one_lt_two⟩, ⟨false, Read.failing⟩), (⟨0, Nat.two_pos⟩, ⟨false, Read.ofEvents [⟨6, [3]⟩]⟩),
    (⟨1, Nat.one_lt_two⟩, ⟨false, Read.ofEvents [⟨6, [4]⟩]⟩)]

theorem requestsShared_pair :
    simulatedPair.requests .zeroTerminated simulatedCalls 0 = [0, 8] ∧
      simulatedPair.requests .zeroTerminated simulatedCalls 1 = [0, 9, 9] ∧
      SharesRequests .zeroTerminated simulatedPair simulatedCalls 5 :=
  ⟨by decide, by decide, requestsShared .zeroTerminated simulatedPair ⟨by decide, by decide, by decide, by decide⟩⟩

end ReceiverChain

end ArtdaqMu2e
