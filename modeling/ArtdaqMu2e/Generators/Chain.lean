import ArtdaqMu2e.Generators.Mu2eEventReceiver
import ArtdaqMu2e.Lib.RoundRobin

/-!
# A chain of event receivers

`n` event receivers that know the length of their chain and their own position number the event windows between
them without talking to each other. Their calls may be interleaved in any way: each receiver runs on its own
calls only (`run_interleave`), so its fragments carry the round-robin numbers of its position.
-/

namespace ArtdaqMu2e

open Runs RoundRobin

/-- The parameters of the receivers of a chain, by position. -/
structure ReceiverChain (n : ℕ) where
  cfg : Fin n → ReceiverConfig
  nDtcs : ∀ p, (cfg p).nDtcs = n
  dtcOffset : ∀ p, (cfg p).dtcOffset = p

namespace ReceiverChain

variable {n : ℕ} (layout : FragmentLayout) (chain : ReceiverChain n)

/-- The receivers after an interleaving of their calls, from the start of a run. -/
def runAll (calls : List (Fin n × ReceiverCall)) : Fin n → Receiver :=
  run (interleave fun p => Mu2eEventReceiver.step layout (chain.cfg p)) (fun _ => Receiver.init) calls

/-- The sequence ids of the fragments of the receiver at position `p`. -/
def ids (calls : List (Fin n × ReceiverCall)) (p : Fin n) : List ℕ :=
  (chain.runAll layout calls p).frags.map (·.sequenceID)

/-- The ids that are used fit in the 48 bits of the fragment header. -/
def Fits (calls : List (Fin n × ReceiverCall)) : Prop :=
  ∀ p : Fin n, ∀ j < (chain.ids layout calls p).length, slot n p j < 2 ^ 48

theorem ids_eq_slots (calls : List (Fin n × ReceiverCall)) (hfits : chain.Fits layout calls) (p : Fin n) :
    chain.ids layout calls p = (List.range (chain.ids layout calls p).length).map (slot n p) := by
  have hrun : chain.runAll layout calls p =
      run (Mu2eEventReceiver.step layout (chain.cfg p)) Receiver.init (inputsOf p calls) :=
    run_interleave _ _ _ _
  have hids : chain.ids layout calls p =
      (List.range (chain.ids layout calls p).length).map fun j => u64 (slot n p j) := by
    rw [ids, List.length_map, hrun]
    simpa only [slot, chain.nDtcs, chain.dtcOffset] using
      (Mu2eEventReceiver.sequenceIDs_run layout (chain.cfg p) (inputsOf p calls)).2
  rw [hids, List.length_map, List.length_range]
  refine List.map_congr_left fun j hj => u64_of_lt ?_
  have := hfits p j (List.mem_range.mp hj)
  omega

/-- What the ids of a chain are like after any interleaving of calls. -/
structure Partitioned (calls : List (Fin n × ReceiverCall)) : Prop where
  id_eq : ∀ p j (hj : j < (chain.ids layout calls p).length),
    (chain.ids layout calls p)[j] = j * n + p + 1
  one_le : ∀ p, ∀ id ∈ chain.ids layout calls p, 1 ≤ id
  distinct : ∀ p q i j (hi : i < (chain.ids layout calls p).length)
    (hj : j < (chain.ids layout calls q).length),
    (chain.ids layout calls p)[i] = (chain.ids layout calls q)[j] → p = q ∧ i = j
  complete : ∀ m, (∀ p, (chain.ids layout calls p).length = m) →
    (Finset.univ.biUnion fun p => (chain.ids layout calls p).toFinset) = Finset.Icc 1 (m * n)
  noData : ∀ p (call : ReceiverCall), call.read.delivered = [] →
    let st := chain.runAll layout calls p
    let st' := Mu2eEventReceiver.step layout (chain.cfg p) st call
    st'.frags = st.frags ∧ st'.evCounter = st.evCounter ∧ st'.timestamps = st.timestamps

/-- **A chain of event receivers partitions the sequence ids**, however the calls of its receivers are
interleaved and whatever their reads return. -/
theorem partitions_sequenceIDs (calls : List (Fin n × ReceiverCall)) (hfits : chain.Fits layout calls) :
    chain.Partitioned layout calls := by
  have hslots := chain.ids_eq_slots layout calls hfits
  have hid : ∀ p j (hj : j < (chain.ids layout calls p).length),
      (chain.ids layout calls p)[j] = slot n p j := by
    intro p j hj
    have hget := List.getElem_of_eq (hslots p) hj
    simpa using hget
  refine ⟨hid, ?_, ?_, ?_, ?_⟩
  · intro p id hmem
    rw [hslots p, List.mem_map] at hmem
    obtain ⟨j, -, rfl⟩ := hmem
    exact slot_pos n p j
  · intro p q i j hi hj heq
    rw [hid p i hi, hid q j hj] at heq
    obtain ⟨hpq, hij⟩ := slot_injective p.isLt q.isLt heq
    exact ⟨Fin.ext hpq, hij⟩
  · intro m hm
    rw [← biUnion_slots n m]
    refine Finset.biUnion_congr rfl fun p _ => ?_
    rw [hslots p, hm p]
  · intro p call hread
    exact Mu2eEventReceiver.getNext_of_nil layout (chain.cfg p) _ (Or.inr hread)

/-- Two receivers: the first one reads three times (two events at once, nothing, one event), the second once. -/
def pair : ReceiverChain 2 where
  cfg p := ⟨p, .disabled, false, 16, p, 2⟩
  nDtcs _ := rfl
  dtcOffset _ := rfl

def pairCalls : List (Fin 2 × ReceiverCall) :=
  [(0, ⟨false, Read.ofEvents [⟨7, [1]⟩, ⟨8, [2]⟩]⟩), (0, ⟨false, Read.failing⟩),
    (1, ⟨false, Read.ofEvents [⟨7, [3]⟩]⟩), (0, ⟨false, Read.ofEvents [⟨9, [4]⟩]⟩)]

theorem partitions_sequenceIDs_pair :
    pair.ids .zeroTerminated pairCalls 0 = [1, 3] ∧ pair.ids .zeroTerminated pairCalls 1 = [2] ∧
      pair.Partitioned .zeroTerminated pairCalls := by
  have h0 : pair.ids .zeroTerminated pairCalls 0 = [1, 3] := by decide
  have h1 : pair.ids .zeroTerminated pairCalls 1 = [2] := by decide
  refine ⟨h0, h1, partitions_sequenceIDs .zeroTerminated pair pairCalls ?_⟩
  intro p j hj
  have hlen : ∀ q, (pair.ids .zeroTerminated pairCalls q).length ≤ 2 := by decide
  have := hlen p
  have := p.isLt
  unfold slot
  omega

end ReceiverChain

end ArtdaqMu2e
