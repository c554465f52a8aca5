import ArtdaqMu2e.Generators.STMSinks
import Mathlib.Data.List.Infix

/-!
# Reading the output file of the STM receiver back

The output file of a receiver that reads an input file is itself an input file: whatever the input held, also where it
ended within a record, the output is complete records, one for each fragment. So a second receiver that reads it puts
out the same packets under the same numbers. But its last call finds nothing left and goes ahead, so a file that is
read back to its end has one fragment more than it had records, and its output file one record more (`replay`).
-/

namespace ArtdaqMu2e

open Runs

namespace STMReceiver

variable {layout : StmLayout}

/-! ### Packets are records -/

/-- What is in the locals after the reads is a record. -/
def readRecord (call : StmCall layout) (input : InputStream Byte) : StmRecord layout where
  tHdr := (readPacket layout call input).2.tHdr.take layout.tHdrSizeBytes
  sHdr := (readPacket layout call input).2.sHdr.take layout.sHdrSizeBytes
  payload := (readPacket layout call input).2.data.take (readPacket layout call input).2.dataSize
  length_tHdr := List.length_take_of_le (holdsPacket_readPacket layout call input).tHdr
  length_sHdr := List.length_take_of_le (holdsPacket_readPacket layout call input).sHdr
  length_payload := List.length_take_of_le (holdsPacket_readPacket layout call input).data

theorem bytes_readRecord (call : StmCall layout) (input : InputStream Byte) :
    (readRecord call input).bytes = packetBytes layout (readPacket layout call input).2 := rfl

theorem copiedBytes_of_record {frag : Fragment} {r : StmRecord layout} (h : r.bytes <+: frag.dataArea) :
    copiedBytes layout frag = r.bytes := by
  have hread := readPacket_record (zeroCall layout) r []
  have hholds := holdsPacket_readPacket layout (zeroCall layout) (InputStream.ofContent (r.bytes ++ []))
  rw [hread] at hholds
  obtain ⟨htHdr, hsHdr, hdata⟩ := take_recordLocals (zeroCall layout) r
  have hbytes : r.bytes = packetBytes layout (recordLocals (zeroCall layout) r) := by
    rw [packetBytes, htHdr, hsHdr, hdata, StmRecord.bytes]
  rw [hbytes] at h ⊢
  refine copiedBytes_of_prefix layout hholds ?_ h
  rw [hsHdr]
  rfl

/-- The number of a fragment and its packet. -/
def numberedPacket (layout : StmLayout) (frag : Fragment) : ℕ × List Byte :=
  (frag.sequenceID, copiedBytes layout frag)

/-- The fragments are copies of the records, numbered on from `first`. -/
structure Copies (layout : StmLayout) (first : ℕ) (frags : List Fragment) (records : List (StmRecord layout)) :
    Prop where
  sequenceIDs : frags.map (·.sequenceID) = List.range' first frags.length
  packets : frags.map (copiedBytes layout) = records.map StmRecord.bytes

theorem Copies.length_eq {first : ℕ} {frags : List Fragment} {records : List (StmRecord layout)}
    (h : Copies layout first frags records) : frags.length = records.length := by
  have hlen := congrArg List.length h.packets
  rwa [List.length_map, List.length_map] at hlen

theorem Copies.map_numberedPacket {first : ℕ} {frags frags' : List Fragment} {records : List (StmRecord layout)}
    (h : Copies layout first frags records) (h' : Copies layout first frags' records) :
    frags.map (numberedPacket layout) = frags'.map (numberedPacket layout) := by
  refine Lists.map_prod_eq_iff.mpr ⟨?_, ?_⟩
  · rw [h.sequenceIDs, h'.sequenceIDs, h.length_eq, h'.length_eq]
  · rw [h.packets, h'.packets]

theorem Copies.take {first : ℕ} {frags : List Fragment} {records : List (StmRecord layout)}
    (h : Copies layout first frags records) (n : ℕ) : Copies layout first (frags.take n) (records.take n) where
  sequenceIDs := by
    rw [List.map_take, h.sequenceIDs, List.length_take]
    rcases Nat.le_total n frags.length with hle | hle
    · rw [List.take_range'_of_length_ge hle, Nat.min_eq_left hle]
    · rw [List.take_range'_of_length_le hle, Nat.min_eq_right hle]
  packets := by
    rw [List.map_take, h.packets, List.map_take]

/-! ### Any run makes copies of records -/

/-- The counter is at the next fragment, and the fragments are copies of some records. -/
def Recorded (layout : StmLayout) (st : STMReceiver) : Prop :=
  st.evCounter = 1 + st.frags.length ∧ ∃ records, Copies layout 1 st.frags records

theorem recorded_step {cfg : StmConfig} (hinput : cfg.fromInputFile = true) (st : STMReceiver)
    (call : StmCall layout) (h : Recorded layout st) : Recorded layout (step layout cfg st call) := by
  obtain ⟨hcounted, records, hcopies⟩ := h
  cases hstop : call.shouldStop with
  | true =>
    rw [step, getNext_of_stop layout cfg hstop]
    exact ⟨hcounted, records, hcopies⟩
  | false =>
    cases heof : st.inputFileStream.eof with
    | true =>
      rw [step, getNext_of_eof layout cfg hinput heof]
      exact ⟨hcounted, records, hcopies⟩
    | false =>
      rw [step, getNext_of_not_eof layout cfg hinput hstop heof]
      refine ⟨?_, records ++ [readRecord call st.inputFileStream], ⟨?_, ?_⟩⟩
      · rw [List.length_append, List.length_singleton, hcounted, Nat.add_assoc]
      · rw [List.map_append, hcopies.sequenceIDs, List.length_append, List.length_singleton, List.range'_1_concat,
          ← hcounted]
        rfl
      · rw [List.map_append, hcopies.packets, List.map_append, List.map_singleton, List.map_singleton,
          copiedBytes_packetFragment, bytes_readRecord]

theorem recorded_run {cfg : StmConfig} (hinput : cfg.fromInputFile = true) (content : List Byte)
    (calls : List (StmCall layout)) : Recorded layout (run (step layout cfg) (init cfg content) calls) :=
  run_invariant (recorded_step hinput) ⟨rfl, [], rfl, rfl⟩ calls

/-! ### Reading back -/

theorem sinksAgree_run {cfg : StmConfig} (hinput : cfg.fromInputFile = true) (content : List Byte)
    (calls : List (StmCall layout)) : SinksAgree layout cfg (run (step layout cfg) (init cfg content) calls) :=
  (run_invariant (inStep_step hinput) (inStep_init layout cfg content) calls).sinksAgree

theorem written_of_copies {cfg : StmConfig} {st : STMReceiver} (hagree : SinksAgree layout cfg st)
    (houtput : cfg.toOutputFile = true) {first : ℕ} {records : List (StmRecord layout)}
    (h : Copies layout first st.frags records) : st.outputFileStream.written = fileContent records [] := by
  rw [hagree.written houtput, List.flatMap_def, h.packets, fileContent, List.append_nil, List.flatMap_def]

theorem run_filter (cfg : StmConfig) (st : STMReceiver) (calls : List (StmCall layout)) :
    run (step layout cfg) st calls = run (step layout cfg) st (calls.filter fun call => !call.shouldStop) := by
  induction calls generalizing st with
  | nil => rfl
  | cons call calls ih =>
    cases hstop : call.shouldStop with
    | true =>
      have hstep : step layout cfg st call = st := by rw [step, getNext_of_stop layout cfg hstop]
      rw [run_cons, hstep, ih, List.filter_cons_of_neg (by simp [hstop])]
    | false => rw [run_cons, ih, List.filter_cons_of_pos (by simp [hstop]), run_cons]

theorem packets_of_forall₂ {frags : List Fragment} {records : List (StmRecord layout)}
    (h : List.Forall₂ (fun frag r => r.bytes <+: frag.dataArea) frags records) :
    frags.map (copiedBytes layout) = records.map StmRecord.bytes := by
  induction h with
  | nil => rfl
  | cons hfirst _ ih => rw [List.map_cons, List.map_cons, copiedBytes_of_record hfirst, ih]

theorem copies_of_le {cfg : StmConfig} (hinput : cfg.fromInputFile = true) (records : List (StmRecord layout))
    {calls : List (StmCall layout)} (hstop : ∀ call ∈ calls, call.shouldStop = false)
    (hlen : calls.length ≤ records.length) :
    Copies layout 1 (run (step layout cfg) (init cfg (fileContent records [])) calls).frags
      (records.take calls.length) := by
  have hsplit : fileContent records [] =
      fileContent (records.take calls.length) (fileContent (records.drop calls.length) []) := by
    rw [fileContent, fileContent, fileContent, ← List.append_assoc, ← List.flatMap_append, List.take_append_drop]
  have htake : calls.length = (records.take calls.length).length := (List.length_take_of_le hlen).symm
  obtain ⟨-, -, new, hfrags, hnew⟩ := run_records layout hinput htake hstop _
    ((init_inputFileStream hinput (fileContent records [])).trans (congrArg _ hsplit))
  obtain ⟨-, others, hothers⟩ := recorded_run hinput (fileContent records []) calls
  refine ⟨hothers.sequenceIDs, ?_⟩
  rw [hfrags]
  exact packets_of_forall₂ hnew

theorem frags_run_start (cfg : StmConfig) (st : STMReceiver) (calls : List (StmCall layout)) :
    st.frags <+: (run (step layout cfg) st calls).frags := by
  refine run_invariant (P := fun st' : STMReceiver => st.frags <+: st'.frags) (fun st' call h => ?_)
    (List.prefix_refl _) calls
  unfold step getNext
  split_ifs
  · exact h
  · exact h
  · exact h.trans (List.prefix_append _ _)
  · exact h

theorem isTail_of_pos (hpos : 0 < layout.tHdrSizeBytes) : IsTail layout [] := by
  let r : StmRecord layout := readRecord (zeroCall layout) (InputStream.ofContent [])
  refine ⟨r, List.nil_prefix, fun hnil => ?_⟩
  have htHdr : r.tHdr = [] := (List.append_eq_nil_iff.mp hnil.symm).1
  have hlen := r.length_tHdr
  rw [htHdr] at hlen
  exact absurd hlen.symm (Nat.ne_of_gt hpos)

theorem copies_of_gt (hpos : 0 < layout.tHdrSizeBytes) {cfg : StmConfig} (hinput : cfg.fromInputFile = true)
    (records : List (StmRecord layout)) {calls : List (StmCall layout)}
    (hstop : ∀ call ∈ calls, call.shouldStop = false) (hlen : records.length < calls.length) :
    let st := run (step layout cfg) (init cfg (fileContent records [])) calls
    st.frags.length = records.length + 1 ∧ Copies layout 1 (st.frags.take records.length) records := by
  intro st
  have hlength := length_frags_past_end layout hinput records (isTail_of_pos hpos) hlen hstop
  refine ⟨hlength, ?_⟩
  have hfirst : (calls.take records.length).length = records.length := List.length_take_of_le (Nat.le_of_lt hlen)
  have hcopies := copies_of_le hinput records
    (fun call hcall => hstop call (List.mem_of_mem_take hcall)) (Nat.le_of_eq hfirst)
  rw [hfirst, List.take_length] at hcopies
  have hstart : (run (step layout cfg) (init cfg (fileContent records [])) (calls.take records.length)).frags <+:
      st.frags := by
    have hrun : st = run (step layout cfg) (run (step layout cfg) (init cfg (fileContent records []))
        (calls.take records.length)) (calls.drop records.length) := by
      rw [← run_append, List.take_append_drop]
    rw [hrun]
    exact frags_run_start cfg _ _
  have hsame := List.prefix_iff_eq_take.mp hstart
  rw [hcopies.length_eq] at hsame
  rw [← hsame]
  exact hcopies

theorem copies_of_records (hpos : 0 < layout.tHdrSizeBytes) {cfg : StmConfig} (hinput : cfg.fromInputFile = true)
    (records : List (StmRecord layout)) {calls : List (StmCall layout)}
    (hstop : ∀ call ∈ calls, call.shouldStop = false) :
    let st := run (step layout cfg) (init cfg (fileContent records [])) calls
    st.frags.length = min calls.length (records.length + 1) ∧
      Copies layout 1 (st.frags.take records.length) (records.take calls.length) := by
  intro st
  rcases Nat.lt_or_ge records.length calls.length with hmore | hle
  · obtain ⟨hlen, hsame⟩ := copies_of_gt hpos hinput records hstop hmore
    rw [List.take_of_length_le (Nat.le_of_lt hmore), Nat.min_eq_right hmore]
    exact ⟨hlen, hsame⟩
  · have hsame : Copies layout 1 st.frags (records.take calls.length) := copies_of_le hinput records hstop hle
    have hlen : st.frags.length = calls.length := hsame.length_eq.trans (List.length_take_of_le hle)
    rw [List.take_of_length_le (hlen.trans_le hle), Nat.min_eq_left (Nat.le_succ_of_le hle)]
    exact ⟨hlen, hsame⟩

/-- **A replay is the run it replays, and one fragment more**: for any content of the input file and any calls, the
output file that was written can be read back. As long as there are packets left, each call that goes ahead puts out
the next one under the same number; the first call after that makes one fragment more, and the others do nothing. -/
theorem replay (hpos : 0 < layout.tHdrSizeBytes) {cfg cfg' : StmConfig} (hinput : cfg.fromInputFile = true)
    (houtput : cfg.toOutputFile = true) (hinput' : cfg'.fromInputFile = true) (content : List Byte)
    (calls calls' : List (StmCall layout)) :
    let st := run (step layout cfg) (init cfg content) calls
    let st' := run (step layout cfg') (init cfg' st.outputFileStream.written) calls'
    let n := (calls'.filter fun call => !call.shouldStop).length
    st'.frags.length = min n (st.frags.length + 1) ∧
      (st'.frags.take st.frags.length).map (numberedPacket layout) =
        (st.frags.take n).map (numberedPacket layout) ∧
      (cfg'.toOutputFile = true → st.frags.length ≤ n →
        st.outputFileStream.written <+: st'.outputFileStream.written) := by
  intro st st' n
  obtain ⟨-, records, hcopies⟩ := recorded_run hinput content calls
  have hagree : SinksAgree layout cfg st := sinksAgree_run hinput content calls
  have hagree' : SinksAgree layout cfg' st' := sinksAgree_run hinput' _ calls'
  have hwritten : st.outputFileStream.written = fileContent records [] := written_of_copies hagree houtput hcopies
  have hrun : st' = run (step layout cfg') (init cfg' (fileContent records []))
      (calls'.filter fun call => !call.shouldStop) := by
    rw [← run_filter, ← hwritten]
  have hstop : ∀ call ∈ calls'.filter fun call => !call.shouldStop, call.shouldStop = false :=
    fun call hcall => by simpa using (List.mem_filter.mp hcall).2
  have hlength : st.frags.length = records.length := hcopies.length_eq
  have hreplayed : st'.frags.length = min n (records.length + 1) ∧
      Copies layout 1 (st'.frags.take records.length) (records.take n) := by
    rw [hrun]
    exact copies_of_records hpos hinput' records hstop
  rw [hlength]
  refine ⟨hreplayed.1, hreplayed.2.map_numberedPacket (hcopies.take n), fun houtput' hall => ?_⟩
  have hsame := hreplayed.2.packets
  rw [List.take_of_length_le hall] at hsame
  rw [hwritten, hagree'.written houtput', fileContent, List.append_nil, List.flatMap_def, ← hsame, List.flatMap_def,
    List.map_take]
  exact List.IsPrefix.flatten <| List.take_prefix _ _

def copyConfig : StmConfig := ⟨0, true, true⟩

/-- A record and two bytes of the next: two calls make two records of it, and a replay with four calls three. -/
theorem replay_two :
    let calls := List.replicate 2 (zeroCall shortLayout)
    let calls' := List.replicate 4 (zeroCall shortLayout)
    let st := run (step shortLayout copyConfig) (init copyConfig (fileContent [shortRecord] [9, 9])) calls
    let st' := run (step shortLayout copyConfig) (init copyConfig st.outputFileStream.written) calls'
    let n := (calls'.filter fun call => !call.shouldStop).length
    st'.frags.length = min n (st.frags.length + 1) ∧
      (st'.frags.take st.frags.length).map (numberedPacket shortLayout) =
        (st.frags.take n).map (numberedPacket shortLayout) ∧
      (copyConfig.toOutputFile = true → st.frags.length ≤ n →
        st.outputFileStream.written <+: st'.outputFileStream.written) :=
  replay (by decide) rfl rfl rfl (fileContent [shortRecord] [9, 9]) (List.replicate 2 (zeroCall shortLayout))
    (List.replicate 4 (zeroCall shortLayout))

end STMReceiver

end ArtdaqMu2e
