import ArtdaqMu2e.Generators.Mu2eEventReceiver
import ArtdaqMu2e.Generators.Mu2eSubEventReceiver
import ArtdaqMu2e.Lib.Runs
import Mathlib.Data.List.Forall2

/-!
# Requests to the software CFO

In simulation both receivers without requests ask the software CFO for the next event window before they read. The
tag is the number of the next fragment plus the tag of the first event, once there is a first tag that is not 0.
Fragments are numbered from 1, so after `k` events the tag is one more than `k` windows after the first one: with
one event a read, the window right after the first is never asked for (`requested_of_pos`), and the windows are asked
for in order and once each only if there is nothing to ask for after a first event with the tag 0
(`requests_in_order_iff`).
-/

namespace ArtdaqMu2e

open Runs

namespace CfoRequests

/-- The tag of a request, from the number of the next fragment and `first_timestamp_seen_`. -/
def requestTag (next first : ℕ) : ℕ := if first > 0 then u64 (next + first) else 0

/-- The tags requested while events with the given tags are read, one a call. -/
def requested (next first : ℕ) : List ℕ → List ℕ
  | [] => []
  | tag :: tags => requestTag next first :: requested (next + 1) (if first = 0 then tag else first) tags

/-- The `k`-th request after the first one is for the `k`-th window after that of the first event, and each window from
that of the first event on is asked for once, for as many windows as there are calls. -/
def InOrder (tags requests : List ℕ) : Prop :=
  ∀ first ∈ tags.head?, (∀ k, 1 ≤ k → k < tags.length → requests[k]? = some (first + k)) ∧
    ∀ k < tags.length, requests.count (first + k) = 1

theorem requested_of_pos {first : ℕ} (hfirst : 0 < first) (next : ℕ) (tags : List ℕ) :
    requested next first tags = (List.range tags.length).map fun k => u64 (next + k + first) := by
  induction tags generalizing next with
  | nil => rfl
  | cons tag tags ih =>
    rw [requested, if_neg (Nat.ne_of_gt hfirst), ih, List.length_cons, List.range_succ_eq_map, List.map_cons,
      List.map_map, requestTag, if_pos hfirst]
    refine congrArg₂ _ rfl (List.map_congr_left fun k _ => ?_)
    show u64 (next + 1 + k + first) = u64 (next + (k + 1) + first)
    rw [Nat.add_assoc next 1 k, Nat.add_comm 1 k]

theorem not_inOrder_requested {first second : ℕ} {rest : List ℕ} (hbound : first < 2 ^ 48) :
    ¬ InOrder (first :: second :: rest) (requested 1 0 (first :: second :: rest)) := by
  intro h
  have hsecond := (h first rfl).1 1 (le_refl _) (by simp)
  rcases Nat.eq_zero_or_pos first with rfl | hpos
  · -- 0 still counts as no tag
    have htag : 0 = 0 + 1 := Option.some.inj hsecond
    cases htag
  · have hrest : (requested 2 first (second :: rest))[0]? = some (first + 1) := by
      simpa [requested, Nat.ne_of_gt hpos] using hsecond
    rw [requested_of_pos hpos] at hrest
    have htag : u64 (2 + 0 + first) = first + 1 := by simpa [List.range_succ_eq_map] using hrest
    rw [u64_of_lt (by omega)] at htag
    omega

theorem inOrder_requested_iff {tags : List ℕ} (hbound : ∀ tag ∈ tags, tag < 2 ^ 48) :
    InOrder tags (requested 1 0 tags) ↔ tags = [] ∨ tags = [0] := by
  match tags with
  | [] => simp [InOrder]
  | [first] =>
    -- the one request is for 0, which is the window of the first event only if that is 0
    have hrequested : requested 1 0 [first] = [0] := rfl
    rw [hrequested]
    constructor
    · intro h
      have honce := (h first rfl).2 0 Nat.one_pos
      rw [Nat.add_zero] at honce
      have hmem : first ∈ [0] := List.count_pos_iff.mp (honce ▸ Nat.one_pos)
      rw [List.mem_singleton.mp hmem]
      exact Or.inr rfl
    · intro h
      obtain rfl : first = 0 := by simpa using h
      intro first hfirst
      obtain rfl : 0 = first := Option.some.inj hfirst
      refine ⟨fun k hk hlt => absurd hlt (Nat.not_lt.mpr hk), fun k hk => ?_⟩
      rw [Nat.lt_one_iff.mp hk]
      rfl
  | first :: second :: rest =>
    refine iff_of_false (not_inOrder_requested (hbound first List.mem_cons_self)) ?_
    simp

/-- What a call does that asks for a window and reads one event. -/
structure Asks (st st' : Receiver) (tag : ℕ) : Prop where
  requests : st'.cfoRequests.map (·.1) =
    st.cfoRequests.map (·.1) ++ [requestTag st.evCounter st.timestamps.firstTimestampSeen]
  evCounter : st'.evCounter = st.evCounter + 1
  first : st'.timestamps.firstTimestampSeen =
    if st.timestamps.firstTimestampSeen = 0 then tag else st.timestamps.firstTimestampSeen

theorem requests_run {ι : Type*} {step : Receiver → ι → Receiver} {calls : List ι} {tags : List ℕ}
    (hcalls : List.Forall₂ (fun call tag => ∀ st, Asks st (step st call) tag) calls tags) (st : Receiver) :
    (run step st calls).cfoRequests.map (·.1) =
      st.cfoRequests.map (·.1) ++ requested st.evCounter st.timestamps.firstTimestampSeen tags := by
  induction hcalls generalizing st with
  | nil => exact (List.append_nil _).symm
  | cons hcall _ ih =>
    obtain ⟨hrequests, hev, hfirst⟩ := hcall st
    rw [run_cons, ih, hrequests, hev, hfirst, List.append_assoc]
    rfl

theorem forall₂_of_single {ι ε : Type*} {delivered : ι → List ε} {tagOf : ε → ℕ} {P : ι → Prop} {calls : List ι}
    {tags : List ℕ} (hP : ∀ call ∈ calls, P call)
    (h : calls.map (fun call => (delivered call).map tagOf) = tags.map ([·])) :
    List.Forall₂ (fun call tag => P call ∧ ∃ evt, delivered call = [evt] ∧ tagOf evt = tag) calls tags := by
  induction tags generalizing calls with
  | nil =>
    rw [List.map_eq_nil_iff.mp h]
    exact List.Forall₂.nil
  | cons tag tags ih =>
    obtain ⟨call, calls, rfl, hcall, hcalls⟩ := List.map_eq_cons_iff.mp h
    obtain ⟨hfirst, hP⟩ := List.forall_mem_cons.mp hP
    obtain ⟨evt, hread, htag⟩ := List.map_eq_singleton_iff.mp hcall
    exact List.Forall₂.cons ⟨hfirst, evt, hread, htag⟩ (ih hP hcalls)

end CfoRequests

/-! ### The two receivers -/

open CfoRequests

namespace Mu2eEventReceiver

theorem asks_step (layout : FragmentLayout) {cfg : ReceiverConfig} (hmode : cfg.mode ≠ .disabled)
    (hchain : cfg.nDtcs = 1) (hoffset : cfg.dtcOffset = 0) {call : ReceiverCall} (hstop : call.shouldStop = false)
    {evt : DtcEvent} (hread : call.read.delivered = [evt]) (st : Receiver) :
    Asks st (step layout cfg st call) evt.eventWindowTag := by
  have htag : getCurrentEventWindowTag cfg st =
      requestTag st.evCounter st.timestamps.firstTimestampSeen := by
    unfold getCurrentEventWindowTag requestTag
    refine if_congr Iff.rfl ?_ rfl
    unfold Receiver.getCurrentSequenceID u64
    rw [hchain, hoffset]
    omega
  have hsend : sendRequest cfg st = { st with
      cfoRequests := st.cfoRequests ++
        [(requestTag st.evCounter st.timestamps.firstTimestampSeen, cfg.heartbeatsAfter)] } := by
    rw [sendRequest, if_pos hmode, htag]
  rw [step, getNext, hstop, if_neg (by decide), hsend, getNextDTCFragment_of_cons hread]
  exact ⟨by simp, rfl, TimestampState.first_next _ _⟩

end Mu2eEventReceiver

namespace Mu2eSubEventReceiver

theorem asks_step {w : ℕ} (header : HeaderLayout w) {cfg : SubEventConfig} (hmode : cfg.mode ≠ .disabled)
    {call : SubEventCall} (hstop : call.shouldStop = false) {subevt : DtcSubEvent}
    (hread : call.read.delivered = [subevt]) (st : Receiver) :
    Asks st (step header cfg st call) subevt.eventWindowTag := by
  have hsend : sendRequest cfg st = { st with
      cfoRequests := st.cfoRequests ++
        [(requestTag st.evCounter st.timestamps.firstTimestampSeen, cfg.heartbeatsAfter)] } := by
    rw [sendRequest, if_pos hmode]
    rfl
  obtain ⟨-, hev, htimes⟩ := sendRequest_spec cfg st
  have hroll : (rollover cfg (sendRequest cfg st)).cfoRequests = (sendRequest cfg st).cfoRequests ∧
      (rollover cfg (sendRequest cfg st)).evCounter = st.evCounter ∧
      (rollover cfg (sendRequest cfg st)).timestamps = st.timestamps := by
    unfold rollover
    split <;> exact ⟨rfl, hev, htimes⟩
  obtain ⟨hrequests, hcount, hstate⟩ := hroll
  rw [step, getNext, hstop, if_neg (by decide)]
  simp only [getNextDTCFragment, hread, addSubEvents, addSubEvent]
  refine ⟨?_, congrArg (· + 1) hcount, ?_⟩
  · rw [hrequests, hsend]
    simp
  · rw [hstate]
    exact TimestampState.first_next _ _

end Mu2eSubEventReceiver

/-- **No request after the first is for the window that is due**: in simulated runs of the event receiver of a chain of
one, and of the sub-event receiver, with one event a read, the windows from that of the first event on are asked for in
order and once each only if there is no call, or a single one whose event has the tag 0, which every first request is
for. -/
theorem requests_in_order_iff (layout : FragmentLayout) {w : ℕ} (header : HeaderLayout w) (cfg : ReceiverConfig)
    (subCfg : SubEventConfig) (hmode : cfg.mode ≠ .disabled) (hsubMode : subCfg.mode ≠ .disabled)
    (hchain : cfg.nDtcs = 1) (hoffset : cfg.dtcOffset = 0) {tags : List ℕ}
    (hbound : ∀ tag ∈ tags, tag < 2 ^ 48) :
    (∀ calls : List ReceiverCall, (∀ call ∈ calls, call.shouldStop = false) →
        calls.map (fun call => call.read.delivered.map (·.eventWindowTag)) = tags.map ([·]) →
        (InOrder tags ((run (Mu2eEventReceiver.step layout cfg) Receiver.init calls).cfoRequests.map (·.1)) ↔
          tags = [] ∨ tags = [0])) ∧
      ∀ calls : List SubEventCall, (∀ call ∈ calls, call.shouldStop = false) →
        calls.map (fun call => call.read.delivered.map (·.eventWindowTag)) = tags.map ([·]) →
        (InOrder tags ((run (Mu2eSubEventReceiver.step header subCfg) Receiver.init calls).cfoRequests.map (·.1)) ↔
          tags = [] ∨ tags = [0]) := by
  constructor
  · intro calls hstop hcalls
    have hasks : List.Forall₂ (fun call tag => ∀ st,
        Asks st (Mu2eEventReceiver.step layout cfg st call) tag) calls tags := by
      refine (forall₂_of_single hstop hcalls).imp fun call tag => ?_
      rintro ⟨hcall, evt, hread, rfl⟩ st
      exact Mu2eEventReceiver.asks_step layout hmode hchain hoffset hcall hread st
    rw [requests_run hasks]
    exact inOrder_requested_iff hbound
  · intro calls hstop hcalls
    have hasks : List.Forall₂ (fun call tag => ∀ st,
        Asks st (Mu2eSubEventReceiver.step header subCfg st call) tag) calls tags := by
      refine (forall₂_of_single hstop hcalls).imp fun call tag => ?_
      rintro ⟨hcall, subevt, hread, rfl⟩ st
      exact Mu2eSubEventReceiver.asks_step header hsubMode hcall hread st
    rw [requests_run hasks]
    exact inOrder_requested_iff hbound

def simulatedConfig : ReceiverConfig := ⟨0, .simulated, false, 16, 0, 1⟩

def simulatedSubConfig : SubEventConfig := ⟨simulatedConfig, 0, 0⟩

/-- Reads of one event each, for both receivers. -/
def eventCalls (tags : List ℕ) : List ReceiverCall := tags.map fun tag => ⟨false, Read.ofEvents [⟨tag, [7]⟩]⟩

def subEventCalls (tags : List ℕ) : List SubEventCall := tags.map fun tag => ⟨false, Read.ofEvents [⟨tag, [7]⟩]⟩

/-- Two events after the window 5, and a single one of the window 0. -/
theorem requests_in_order_iff_two :
    (¬ InOrder [5, 6] ((run (Mu2eEventReceiver.step .zeroTerminated simulatedConfig) Receiver.init
          (eventCalls [5, 6])).cfoRequests.map (·.1)) ∧
        ¬ InOrder [5, 6] ((run (Mu2eSubEventReceiver.step .packed simulatedSubConfig) Receiver.init
          (subEventCalls [5, 6])).cfoRequests.map (·.1))) ∧
      InOrder [0] ((run (Mu2eEventReceiver.step .zeroTerminated simulatedConfig) Receiver.init
          (eventCalls [0])).cfoRequests.map (·.1)) ∧
        InOrder [0] ((run (Mu2eSubEventReceiver.step .packed simulatedSubConfig) Receiver.init
          (subEventCalls [0])).cfoRequests.map (·.1)) := by
  obtain ⟨hevent, hsub⟩ := requests_in_order_iff .zeroTerminated .packed simulatedConfig simulatedSubConfig
    (by decide) (by decide) rfl rfl (show ∀ tag ∈ [5, 6], tag < 2 ^ 48 by decide)
  obtain ⟨hevent', hsub'⟩ := requests_in_order_iff .zeroTerminated .packed simulatedConfig simulatedSubConfig
    (by decide) (by decide) rfl rfl (show ∀ tag ∈ [0], tag < 2 ^ 48 by decide)
  refine ⟨⟨fun h => ?_, fun h => ?_⟩, ?_, ?_⟩
  · exact absurd ((hevent (eventCalls [5, 6]) (by decide) (by decide)).mp h) (by decide)
  · exact absurd ((hsub (subEventCalls [5, 6]) (by decide) (by decide)).mp h) (by decide)
  · exact (hevent' (eventCalls [0]) (by decide) (by decide)).mpr (Or.inr rfl)
  · exact (hsub' (subEventCalls [0]) (by decide) (by decide)).mpr (Or.inr rfl)

/-- The first event is that of the window 5, and the requests after it are for 7 and 8: 5 and 6 are never asked for. -/
theorem requests_skip_window :
    let requests := (run (Mu2eEventReceiver.step .zeroTerminated simulatedConfig) Receiver.init
      (eventCalls [5, 6, 7])).cfoRequests.map (·.1)
    let subRequests := (run (Mu2eSubEventReceiver.step .packed simulatedSubConfig) Receiver.init
      (subEventCalls [5, 6, 7])).cfoRequests.map (·.1)
    requests = [0, 7, 8] ∧ subRequests = [0, 7, 8] ∧ ¬ InOrder [5, 6, 7] requests ∧
      ¬ InOrder [5, 6, 7] subRequests := by
  have hskip : ¬ InOrder [5, 6, 7] [0, 7, 8] := by
    intro h
    have hsecond := (h 5 rfl).1 1 (by decide) (by decide)
    revert hsecond
    decide
  have hrequests : (run (Mu2eEventReceiver.step .zeroTerminated simulatedConfig) Receiver.init
      (eventCalls [5, 6, 7])).cfoRequests.map (·.1) = [0, 7, 8] := by decide
  have hsub : (run (Mu2eSubEventReceiver.step .packed simulatedSubConfig) Receiver.init
      (subEventCalls [5, 6, 7])).cfoRequests.map (·.1) = [0, 7, 8] := by decide
  refine ⟨hrequests, hsub, ?_, ?_⟩
  · rw [hrequests]
    exact hskip
  · rw [hsub]
    exact hskip

end ArtdaqMu2e
