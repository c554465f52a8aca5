import ArtdaqMu2e.Generators.Mu2eEventReceiverBase

/-!
# The event receiver

`getNext` of the receiver without requests: it asks the software CFO for the next event window in simulation,
and makes one read. A fragment is numbered by the counter, which counts the fragments, so the `j`-th fragment of
the receiver at position `dtcOffset` of a chain of `nDtcs` has the number `(j - 1) * nDtcs + dtcOffset + 1`
(`sequenceIDs_run`). The waits for the simulation file and for the request rate have no effect on the state.
-/

namespace ArtdaqMu2e

open Runs

/-- One call of `getNext_`, with what happens during it. -/
structure ReceiverCall where
  shouldStop : Bool
  read : Read DtcEvent

namespace Mu2eEventReceiver

def getCurrentEventWindowTag (cfg : ReceiverConfig) (st : Receiver) : ℕ :=
  if st.timestamps.firstTimestampSeen > 0 then
    u64 (st.getCurrentSequenceID cfg + st.timestamps.firstTimestampSeen)
  else 0

def sendRequest (cfg : ReceiverConfig) (st : Receiver) : Receiver :=
  if cfg.mode ≠ .disabled then
    { st with cfoRequests := st.cfoRequests ++ [(getCurrentEventWindowTag cfg st, cfg.heartbeatsAfter)] }
  else st

def getNext (layout : FragmentLayout) (cfg : ReceiverConfig) (call : ReceiverCall) (st : Receiver) :
    Bool × Receiver :=
  if call.shouldStop then (false, st)
  else getNextDTCFragment layout cfg call.read 0 0 (sendRequest cfg st)

def step (layout : FragmentLayout) (cfg : ReceiverConfig) (st : Receiver) (call : ReceiverCall) : Receiver :=
  (getNext layout cfg call st).2

/-- The events that a call reads. -/
def delivered (call : ReceiverCall) : List DtcEvent := if call.shouldStop then [] else call.read.delivered

theorem sendRequest_spec (cfg : ReceiverConfig) (st : Receiver) :
    (sendRequest cfg st).frags = st.frags ∧ (sendRequest cfg st).evCounter = st.evCounter ∧
      (sendRequest cfg st).timestamps = st.timestamps := by
  unfold sendRequest
  split <;> exact ⟨rfl, rfl, rfl⟩

section call
variable (layout : FragmentLayout) (cfg : ReceiverConfig) {call : ReceiverCall} (st : Receiver)

theorem getNext_of_nil (h : call.shouldStop = true ∨ call.read.delivered = []) :
    (getNext layout cfg call st).2.frags = st.frags ∧
      (getNext layout cfg call st).2.evCounter = st.evCounter ∧
      (getNext layout cfg call st).2.timestamps = st.timestamps := by
  unfold getNext
  by_cases hstop : call.shouldStop = true
  · rw [if_pos hstop]
    exact ⟨rfl, rfl, rfl⟩
  · rw [if_neg hstop, getNextDTCFragment_of_nil (h.resolve_left hstop)]
    exact sendRequest_spec cfg st

theorem getNext_of_cons {evt : DtcEvent} {evts : List DtcEvent} (hstop : call.shouldStop = false)
    (hread : call.read.delivered = evt :: evts) :
    (getNext layout cfg call st).2.evCounter = st.evCounter + 1 ∧
      ∃ frag : Fragment, (getNext layout cfg call st).2.frags = st.frags ++ [frag] ∧
        frag.sequenceID = st.getCurrentSequenceID cfg := by
  obtain ⟨hfrags, hev, -⟩ := sendRequest_spec cfg st
  rw [getNext, hstop, if_neg (by decide), getNextDTCFragment_of_cons hread]
  refine ⟨congrArg (· + 1) hev, _, by rw [hfrags], ?_⟩
  rw [readFragment, sequenceID_packFragment, if_pos rfl, Receiver.getCurrentSequenceID, hev]
  rfl

end call

theorem getCurrentSequenceID_of_evCounter {cfg : ReceiverConfig} {st : Receiver} {j : ℕ}
    (h : st.evCounter = j + 1) :
    st.getCurrentSequenceID cfg = u64 (j * cfg.nDtcs + cfg.dtcOffset + 1) := by
  have hwrap : u64 (j + 1 + (2 ^ 64 - 1)) = j % 2 ^ 64 := by
    unfold u64
    omega
  rw [Receiver.getCurrentSequenceID, h, hwrap]
  simp only [u64, Nat.add_assoc]
  rw [Nat.add_mod, Nat.mod_mul_mod, ← Nat.add_mod]

theorem sequenceIDs_run (layout : FragmentLayout) (cfg : ReceiverConfig) (calls : List ReceiverCall) :
    (run (step layout cfg) Receiver.init calls).evCounter =
        (run (step layout cfg) Receiver.init calls).frags.length + 1 ∧
      (run (step layout cfg) Receiver.init calls).frags.map (·.sequenceID) =
        (List.range (run (step layout cfg) Receiver.init calls).frags.length).map
          fun j => u64 (j * cfg.nDtcs + cfg.dtcOffset + 1) := by
  refine run_invariant (P := fun st : Receiver => st.evCounter = st.frags.length + 1 ∧
    st.frags.map (·.sequenceID) =
      (List.range st.frags.length).map fun j => u64 (j * cfg.nDtcs + cfg.dtcOffset + 1))
    (fun st call => ?_) ⟨rfl, rfl⟩ calls
  rintro ⟨hcount, hids⟩
  by_cases hnone : call.shouldStop = true ∨ call.read.delivered = []
  · obtain ⟨hfrags, hev, -⟩ := getNext_of_nil layout cfg st hnone
    rw [step, hfrags, hev]
    exact ⟨hcount, hids⟩
  · obtain ⟨hstop, hread⟩ := not_or.mp hnone
    obtain ⟨evt, evts, hread⟩ := List.exists_cons_of_ne_nil hread
    obtain ⟨hev, frag, hfrags, hid⟩ :=
      getNext_of_cons layout cfg st (by simpa using hstop) hread
    rw [step, hfrags, hev]
    refine ⟨by simp [hcount], ?_⟩
    rw [List.length_append, List.length_singleton, List.range_succ, List.map_append, List.map_append, hids,
      List.map_singleton, List.map_singleton, hid, getCurrentSequenceID_of_evCounter hcount]

end Mu2eEventReceiver

end ArtdaqMu2e
