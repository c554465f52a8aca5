import ArtdaqMu2e.Generators.SubEventPackaging

/-!
# Batches of sub-events

How many sub-events a read returns is up to the DTC, and reads may fail in between. The counter goes up by one for
each sub-event and for nothing else, so the numbers of the data fragments are positions in the stream of sub-events,
and what a fragment carries of its sub-event does not depend on the read it came with (`numbered_run`). Boards that
read the same stream agree on the numbers, however it is split (`batching_irrelevant`).
-/

namespace ArtdaqMu2e

open Memory Runs

namespace Mu2eSubEventReceiver

section payload
variable {w : ℕ} (header : HeaderLayout w)

/-- The byte count of the event around a sub-event, as far as the field holds it. -/
def byteCount (subevt : DtcSubEvent) : ℕ := (header.size + subevt.rawBuffer.length) % 2 ^ w

/-- What the payload holds behind the header, up to the byte count. -/
def subEventBytes (frag : Fragment) (subevt : DtcSubEvent) : List Byte :=
  (frag.dataArea.take (byteCount header subevt)).drop header.size

/-- The payload holds the sub-event, as far as the byte count goes. -/
structure HoldsBytes (frag : Fragment) (subevt : DtcSubEvent) : Prop where
  bytes : subEventBytes header frag subevt = subevt.rawBuffer.take (byteCount header subevt - header.size)
  whole : header.size + subevt.rawBuffer.length < 2 ^ w → subEventBytes header frag subevt = subevt.rawBuffer

/-- The fragments number the sub-events of the stream from 1, and hold one each. -/
structure Numbered (frags : List Fragment) (stream : List DtcSubEvent) : Prop where
  sequenceIDs : frags.map (·.sequenceID) = List.range' 1 stream.length
  payloads : List.Forall₂ (HoldsBytes header) frags stream

theorem getEventByteCount_buildEvent (fresh : ℕ → (n : ℕ) → Area Byte n) (tsOut i : ℕ) (subevt : DtcSubEvent) :
    getEventByteCount header (buildEvent header fresh tsOut i subevt) = byteCount header subevt := by
  obtain ⟨rest, hevt⟩ := buildEvent_eq header fresh tsOut i subevt
  rw [hevt, getEventByteCount, header.decode_encode]
  rfl

theorem holdsBytes_subEventFragment (cfg : SubEventConfig) (fresh : ℕ → (n : ℕ) → Area Byte n) (tsOut i : ℕ)
    (subevt : DtcSubEvent) (st : Receiver) :
    HoldsBytes header (subEventFragment header cfg fresh tsOut i subevt st) subevt := by
  obtain ⟨rest, hevt⟩ := buildEvent_eq header fresh tsOut i subevt
  have hle : byteCount header subevt ≤ header.size + subevt.rawBuffer.length := Nat.mod_le _ _
  have hcount := getEventByteCount_buildEvent header fresh tsOut i subevt
  have hroom := (Nat.le_of_eq hcount.symm).trans (fresh (2 * i + 1)
    (getEventByteCount header (buildEvent header fresh tsOut i subevt))).le_length
  have hbytes : subEventBytes header (subEventFragment header cfg fresh tsOut i subevt st) subevt =
      subevt.rawBuffer.take (byteCount header subevt - header.size) := by
    have harea : (subEventFragment header cfg fresh tsOut i subevt st).dataArea.take (byteCount header subevt) =
        (buildEvent header fresh tsOut i subevt).take (byteCount header subevt) := by
      simp only [subEventFragment, Fragment.dataArea, hcount]
      refine take_memcpy ?_ hroom
      rw [hevt, List.length_take, List.length_append, List.length_append, header.length_encode]
      omega
    rw [subEventBytes, harea, List.drop_take, hevt, List.drop_left' (header.length_encode _),
      List.take_append_of_le_length (by omega)]
  refine ⟨hbytes, fun hfits => ?_⟩
  rw [hbytes, byteCount, Nat.mod_eq_of_lt hfits, Nat.add_sub_cancel_left, List.take_length]

end payload

/-! ### Numbering -/

section numbering
variable {w : ℕ} (header : HeaderLayout w) (cfg : SubEventConfig)

/-- From `st` to `st'` the sub-events were numbered on from the counter. -/
structure Continues (subevts : List DtcSubEvent) (st st' : Receiver) : Prop where
  appends : ∃ new : List Fragment, dataFragments st' = dataFragments st ++ new ∧
    new.map (·.sequenceID) = List.range' st.evCounter subevts.length ∧
    List.Forall₂ (HoldsBytes header) new subevts
  evCounter : st'.evCounter = st.evCounter + subevts.length

theorem Continues.append {subevts subevts' : List DtcSubEvent} {st st' st'' : Receiver}
    (h : Continues header subevts st st') (h' : Continues header subevts' st' st'') :
    Continues header (subevts ++ subevts') st st'' := by
  obtain ⟨new, hnew, hids, hbytes⟩ := h.appends
  obtain ⟨new', hnew', hids', hbytes'⟩ := h'.appends
  refine ⟨⟨new ++ new', ?_, ?_, List.rel_append hbytes hbytes'⟩, ?_⟩
  · rw [hnew', hnew, List.append_assoc]
  · rw [List.map_append, hids, hids', h.evCounter, List.length_append, List.range'_append_1]
  · rw [h'.evCounter, h.evCounter, List.length_append, Nat.add_assoc]

theorem continues_addSubEvents (fresh : ℕ → (n : ℕ) → Area Byte n) (tsOut i : ℕ) (subevts : List DtcSubEvent)
    (st : Receiver) : Continues header subevts st (addSubEvents header cfg fresh tsOut i subevts st) := by
  induction subevts generalizing i st with
  | nil => exact ⟨⟨[], (List.append_nil _).symm, rfl, List.Forall₂.nil⟩, rfl⟩
  | cons subevt subevts ih =>
    have hfirst : Continues header [subevt] st (addSubEvent header cfg fresh tsOut i subevt st) := by
      refine ⟨⟨[subEventFragment header cfg fresh tsOut i subevt st], ?_, rfl, ?_⟩, rfl⟩
      · simp [dataFragments, addSubEvent, subEventFragment]
      · exact List.Forall₂.cons (holdsBytes_subEventFragment header cfg fresh tsOut i subevt st) List.Forall₂.nil
    exact hfirst.append header (ih (i + 1) _)

/-- A call numbers what it delivers; requests, sub-run transitions and failed reads do not count. -/
theorem continues_step (st : Receiver) (call : SubEventCall) :
    Continues header (delivered call) st (step header cfg st call) := by
  obtain ⟨-, hev, -⟩ := sendRequest_spec cfg st
  obtain ⟨hdata, -⟩ := rollover_sendRequest cfg st
  have hcount : (rollover cfg (sendRequest cfg st)).evCounter = st.evCounter := by
    unfold rollover
    split <;> exact hev
  unfold step getNext delivered
  by_cases hstop : call.shouldStop = true
  · rw [if_pos hstop, if_pos hstop]
    exact ⟨⟨[], (List.append_nil _).symm, rfl, List.Forall₂.nil⟩, rfl⟩
  rw [if_neg hstop, if_neg hstop]
  cases hread : call.read.delivered with
  | nil =>
    simp only [getNextDTCFragment, hread]
    exact ⟨⟨[], by simpa [dataFragments] using hdata, rfl, List.Forall₂.nil⟩, hcount⟩
  | cons subevt subevts =>
    simp only [getNextDTCFragment, hread]
    obtain ⟨⟨new, hnew, hids, hbytes⟩, hadded⟩ := continues_addSubEvents header cfg call.read.fresh
      subevt.eventWindowTag 0 (subevt :: subevts)
      { rollover cfg (sendRequest cfg st) with
        getDataCalls := (rollover cfg (sendRequest cfg st)).getDataCalls ++ List.replicate call.read.calls 0 }
    refine ⟨⟨new, hnew.trans (congrArg (· ++ new) hdata), ?_, hbytes⟩, ?_⟩
    · rw [hids, hcount]
    · rw [hadded, hcount]

theorem continues_run (st : Receiver) (calls : List SubEventCall) :
    Continues header (calls.flatMap delivered) st (run (step header cfg) st calls) := by
  induction calls generalizing st with
  | nil => exact ⟨⟨[], (List.append_nil _).symm, rfl, List.Forall₂.nil⟩, rfl⟩
  | cons call calls ih =>
    rw [List.flatMap_cons]
    exact (continues_step header cfg st call).append header (ih _)

theorem numbered_run (calls : List SubEventCall) :
    Numbered header (dataFragments (run (step header cfg) Receiver.init calls)) (calls.flatMap delivered) := by
  obtain ⟨new, hnew, hids, hbytes⟩ := (continues_run header cfg Receiver.init calls).appends
  rw [hnew]
  exact ⟨hids, hbytes⟩

end numbering

/-- **Batching is irrelevant**: two receivers that read the same stream of sub-events, each split into reads in any
way and with any failed reads and sub-run transitions in between, both number it from 1 and hold the same bytes of
each sub-event under the same number. -/
theorem batching_irrelevant {w : ℕ} (header : HeaderLayout w) (cfg cfg' : SubEventConfig)
    {calls calls' : List SubEventCall} (hstream : calls.flatMap delivered = calls'.flatMap delivered) :
    let stream := calls.flatMap delivered
    let frags := dataFragments (run (step header cfg) Receiver.init calls)
    let frags' := dataFragments (run (step header cfg') Receiver.init calls')
    Numbered header frags stream ∧ Numbered header frags' stream ∧
      frags.map (·.sequenceID) = frags'.map (·.sequenceID) ∧
      List.zipWith (subEventBytes header) frags stream = List.zipWith (subEventBytes header) frags' stream := by
  intro stream frags frags'
  have h : Numbered header frags stream := numbered_run header cfg calls
  have h' : Numbered header frags' stream := by
    have hrun := numbered_run header cfg' calls'
    rwa [← hstream] at hrun
  have hbytes : ∀ {frags : List Fragment} {stream : List DtcSubEvent},
      List.Forall₂ (HoldsBytes header) frags stream → List.zipWith (subEventBytes header) frags stream =
        stream.map fun subevt => subevt.rawBuffer.take (byteCount header subevt - header.size) := by
    intro frags stream hholds
    induction hholds with
    | nil => rfl
    | cons hfirst _ ih => rw [List.zipWith_cons_cons, List.map_cons, hfirst.bytes, ih]
  refine ⟨h, h', ?_, ?_⟩
  · rw [h.sequenceIDs, h'.sequenceIDs]
  · rw [hbytes h.payloads, hbytes h'.payloads]

/-- The same three sub-events, three at once, or one and two with a failed read in between. -/
theorem batching_irrelevant_three :
    let subevts : List DtcSubEvent := [⟨5, [1, 2]⟩, ⟨6, [3]⟩, ⟨7, []⟩]
    let calls : List SubEventCall := [⟨false, Read.ofEvents subevts⟩]
    let calls' : List SubEventCall := [⟨false, Read.ofEvents (subevts.take 1)⟩, ⟨false, Read.failing⟩,
      ⟨false, Read.ofEvents (subevts.drop 1)⟩]
    let frags := dataFragments (run (step .packed packingConfig) Receiver.init calls)
    let frags' := dataFragments (run (step .packed ⟨packingConfig.toReceiverConfig, 3, 2⟩) Receiver.init calls')
    Numbered .packed frags subevts ∧ Numbered .packed frags' subevts ∧
      frags.map (·.sequenceID) = frags'.map (·.sequenceID) ∧
      List.zipWith (subEventBytes .packed) frags subevts = List.zipWith (subEventBytes .packed) frags' subevts := by
  intro subevts calls calls'
  have hstream : calls.flatMap delivered = calls'.flatMap delivered := by decide
  exact batching_irrelevant .packed packingConfig ⟨packingConfig.toReceiverConfig, 3, 2⟩ hstream

end Mu2eSubEventReceiver

end ArtdaqMu2e
