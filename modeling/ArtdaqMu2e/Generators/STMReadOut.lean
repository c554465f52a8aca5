import ArtdaqMu2e.Generators.STMReceiver
import ArtdaqMu2e.Lib.Lists

/-!
# Reading out an STM file

For a file of complete records and an incomplete tail, the first calls read out the records (`run_records`). The
end of the file is tested before the reads of a call only, and reading exactly to the end does not set the flag.
So there is always one call more that goes ahead, reads what is left of the file over the contents of its locals,
and appends a fragment (`step_tail`); the calls after it do nothing. The read-out is as it should be as long as
fewer calls were made than there are records, and never afterwards (`readsOut_iff`).
-/

namespace ArtdaqMu2e

open Lists Memory Runs

/-- A complete record of the file. -/
structure StmRecord (layout : StmLayout) where
  tHdr : List Byte
  sHdr : List Byte
  payload : List Byte
  length_tHdr : tHdr.length = layout.tHdrSizeBytes
  length_sHdr : sHdr.length = layout.sHdrSizeBytes
  length_payload : payload.length = (layout.sliceSize sHdr).toNat

def StmRecord.bytes {layout : StmLayout} (r : StmRecord layout) : List Byte := r.tHdr ++ (r.sHdr ++ r.payload)

/-- A proper prefix of a record, possibly empty. -/
def IsTail (layout : StmLayout) (tail : List Byte) : Prop :=
  ∃ r : StmRecord layout, tail <+: r.bytes ∧ tail ≠ r.bytes

namespace STMReceiver

section packet
variable {layout : StmLayout} (cfg : StmConfig) (call : StmCall layout)

/-- The locals after a complete record was read. -/
def recordLocals (r : StmRecord layout) : StmLocals :=
  ⟨memcpy call.tHdr.cells r.tHdr, memcpy call.sHdr.cells r.sHdr, memcpy call.data.cells r.payload,
    (layout.sliceSize r.sHdr).toNat⟩

theorem take_recordLocals (r : StmRecord layout) :
    (recordLocals call r).tHdr.take layout.tHdrSizeBytes = r.tHdr ∧
      (recordLocals call r).sHdr.take layout.sHdrSizeBytes = r.sHdr ∧
      (recordLocals call r).data.take (recordLocals call r).dataSize = r.payload := by
  have hroom := call.data.le_length
  have hsize := (layout.sliceSize r.sHdr).toNat_lt
  refine ⟨?_, ?_, ?_⟩
  · exact take_memcpy r.length_tHdr call.tHdr.le_length
  · exact take_memcpy r.length_sHdr call.sHdr.le_length
  · refine take_memcpy r.length_payload ?_
    show (layout.sliceSize r.sHdr).toNat ≤ _
    omega

theorem readPacket_record (r : StmRecord layout) (rest : List Byte) :
    readPacket layout call (InputStream.ofContent (r.bytes ++ rest)) =
      (InputStream.ofContent rest, recordLocals call r) := by
  have hslice : (memcpy call.sHdr.cells r.sHdr).take layout.sHdrSizeBytes = r.sHdr :=
    (take_recordLocals call r).2.1
  simp only [readPacket, StmRecord.bytes, List.append_assoc]
  rw [InputStream.read_append r.length_tHdr, InputStream.read_append r.length_sHdr, hslice,
    InputStream.read_append r.length_payload]
  rfl

theorem prefix_packetFragment (r : StmRecord layout) (evCounter : ℕ) :
    r.bytes <+: (packetFragment layout cfg call evCounter (recordLocals call r)).dataArea := by
  obtain ⟨htHdr, hsHdr, hdata⟩ := take_recordLocals call r
  have hholds : HoldsPacket layout (recordLocals call r) := by
    have hread := holdsPacket_readPacket layout call (InputStream.ofContent (r.bytes ++ []))
    rwa [readPacket_record] at hread
  have hbytes : r.bytes = packetBytes layout (recordLocals call r) := by
    rw [packetBytes, htHdr, hsHdr, hdata, StmRecord.bytes]
  rw [hbytes]
  exact prefix_dataArea_packetFragment layout cfg call evCounter hholds

theorem eof_readPacket_tail {tail : List Byte} (htail : IsTail layout tail) :
    (readPacket layout call (InputStream.ofContent tail)).1.eof = true := by
  obtain ⟨r, ⟨missing, hr⟩, hne⟩ := htail
  have hmissing : missing ≠ [] := by
    intro hnil
    rw [hnil, List.append_nil] at hr
    exact hne hr
  simp only [readPacket]
  rcases Nat.lt_or_ge tail.length layout.tHdrSizeBytes with hshort | hlong
  · -- cut in the trigger header
    rw [InputStream.read_short hshort]
    exact InputStream.eof_read (InputStream.eof_read rfl _ _) _ _
  obtain ⟨rest, rfl, hrest⟩ := exists_rest_of_append_eq hr (by rw [r.length_tHdr]; exact hlong)
  rw [InputStream.read_append r.length_tHdr]
  rcases Nat.lt_or_ge rest.length layout.sHdrSizeBytes with hshort | hlong
  · -- cut in the slice header
    rw [InputStream.read_short hshort]
    exact InputStream.eof_read rfl _ _
  obtain ⟨rest', rfl, hrest'⟩ := exists_rest_of_append_eq hrest (by rw [r.length_sHdr]; exact hlong)
  -- cut in the payload
  have hslice : (memcpy call.sHdr.cells r.sHdr).take layout.sHdrSizeBytes = r.sHdr :=
    (take_recordLocals call r).2.1
  have hshort : rest'.length < (layout.sliceSize r.sHdr).toNat := by
    have hpos := List.length_pos_iff.mpr hmissing
    rw [← r.length_payload, ← hrest', List.length_append]
    omega
  rw [InputStream.read_append r.length_sHdr, hslice, InputStream.read_short hshort]

end packet

/-! ### Runs -/

/-- What a file with the given records and tail holds. -/
def fileContent {layout : StmLayout} (records : List (StmRecord layout)) (tail : List Byte) : List Byte :=
  records.flatMap StmRecord.bytes ++ tail

section run
variable (layout : StmLayout) {cfg : StmConfig}

theorem run_records (hinput : cfg.fromInputFile = true) {records : List (StmRecord layout)}
    {calls : List (StmCall layout)} (hlen : calls.length = records.length)
    (hstop : ∀ call ∈ calls, call.shouldStop = false) {rest : List Byte} (st : STMReceiver)
    (hst : st.inputFileStream = InputStream.ofContent (fileContent records rest)) :
    (run (step layout cfg) st calls).inputFileStream = InputStream.ofContent rest ∧
      (run (step layout cfg) st calls).evCounter = st.evCounter + records.length ∧
      ∃ new : List Fragment, (run (step layout cfg) st calls).frags = st.frags ++ new ∧
        List.Forall₂ (fun frag r => r.bytes <+: frag.dataArea) new records := by
  induction records generalizing calls st with
  | nil =>
    rw [List.length_eq_zero_iff.mp hlen]
    exact ⟨hst, rfl, [], (List.append_nil _).symm, List.Forall₂.nil⟩
  | cons r records ih =>
    obtain ⟨call, calls, rfl⟩ := List.exists_cons_of_length_eq_add_one hlen
    obtain ⟨hcall, hstop⟩ := List.forall_mem_cons.mp hstop
    have hread : readPacket layout call st.inputFileStream =
        (InputStream.ofContent (fileContent records rest), recordLocals call r) := by
      rw [hst, fileContent, List.flatMap_cons, List.append_assoc]
      exact readPacket_record call r _
    have hnext := getNext_of_not_eof layout cfg hinput hcall
      (show st.inputFileStream.eof = false by rw [hst]; rfl)
    rw [hread] at hnext
    obtain ⟨hin, hev, new, hfrags, hnew⟩ := ih (Nat.succ.inj hlen) hstop (step layout cfg st call)
      (by rw [step, hnext])
    refine ⟨hin, ?_, packetFragment layout cfg call st.evCounter (recordLocals call r) :: new, ?_, ?_⟩
    · rw [run_cons, hev, step, hnext, List.length_cons]
      show st.evCounter + 1 + records.length = st.evCounter + (records.length + 1)
      omega
    · rw [run_cons, hfrags, step, hnext, List.append_assoc]
      rfl
    · exact List.Forall₂.cons (prefix_packetFragment cfg call r st.evCounter) hnew

theorem step_tail (hinput : cfg.fromInputFile = true) {tail : List Byte} (htail : IsTail layout tail)
    (call : StmCall layout) (hstop : call.shouldStop = false) {st : STMReceiver}
    (hst : st.inputFileStream = InputStream.ofContent tail) :
    (getNext layout cfg call st).1 = true ∧ (step layout cfg st call).inputFileStream.eof = true ∧
      ∃ frag, (step layout cfg st call).frags = st.frags ++ [frag] := by
  have hnext := getNext_of_not_eof layout cfg hinput hstop
    (show st.inputFileStream.eof = false by rw [hst]; rfl)
  rw [step, hnext]
  refine ⟨rfl, ?_, _, rfl⟩
  rw [hst]
  exact eof_readPacket_tail call htail

theorem run_of_eof (hinput : cfg.fromInputFile = true) {st : STMReceiver}
    (heof : st.inputFileStream.eof = true) (calls : List (StmCall layout)) :
    run (step layout cfg) st calls = st := by
  induction calls with
  | nil => rfl
  | cons call calls ih => rw [run_cons, step, getNext_of_eof layout cfg hinput heof, ih]

theorem init_inputFileStream (hinput : cfg.fromInputFile = true) (content : List Byte) :
    (init cfg content).inputFileStream = InputStream.ofContent content := by
  rw [init, hinput]
  rfl

theorem length_frags_past_end (hinput : cfg.fromInputFile = true) (records : List (StmRecord layout))
    {tail : List Byte} (htail : IsTail layout tail) {calls : List (StmCall layout)}
    (hlen : records.length < calls.length) (hstop : ∀ call ∈ calls, call.shouldStop = false) :
    (run (step layout cfg) (init cfg (fileContent records tail)) calls).frags.length = records.length + 1 := by
  have htake : (calls.take records.length).length = records.length := by
    rw [List.length_take]
    omega
  have hstop' : ∀ call ∈ calls.take records.length, call.shouldStop = false :=
    fun call hcall => hstop call (List.mem_of_mem_take hcall)
  obtain ⟨hin, -, new, hfrags, hnew⟩ :=
    run_records layout hinput htake hstop' _ (init_inputFileStream hinput (fileContent records tail))
  obtain ⟨call, more, hmore⟩ : ∃ call more, calls.drop records.length = call :: more := by
    apply List.exists_cons_of_length_pos
    rw [List.length_drop]
    omega
  have hcall : call.shouldStop = false :=
    hstop call (List.mem_of_mem_drop (hmore ▸ List.mem_cons_self))
  obtain ⟨-, heof, frag, hlast⟩ := step_tail layout hinput htail call hcall hin
  rw [← List.take_append_drop records.length calls, hmore, run_append, run_cons,
    run_of_eof layout hinput heof, hlast, hfrags, List.length_append, List.length_append, hnew.length_eq]
  simp [init]

end run

/-- The read-out of the file is as it should be after the given calls: one fragment for each record so far, which
begins with the record, and once all records are read the next call does nothing. -/
structure ReadsOut (layout : StmLayout) (cfg : StmConfig) (records : List (StmRecord layout)) (tail : List Byte)
    (calls : List (StmCall layout)) : Prop where
  frags : List.Forall₂ (fun frag r => r.bytes <+: frag.dataArea)
    (run (step layout cfg) (init cfg (fileContent records tail)) calls).frags (records.take calls.length)
  ends : records.length ≤ calls.length → ∀ call : StmCall layout, call.shouldStop = false →
    let st := run (step layout cfg) (init cfg (fileContent records tail)) calls
    (getNext layout cfg call st).1 = false ∧ (getNext layout cfg call st).2.frags = st.frags ∧
      (getNext layout cfg call st).2.evCounter = st.evCounter

/-- A call whose memory holds zeros. -/
def zeroCall (layout : StmLayout) : StmCall layout :=
  ⟨false, Area.replicate _ 0, Area.replicate _ 0, Area.replicate _ 0, fun n => Area.replicate n 0⟩

section readOut
variable (layout : StmLayout) {cfg : StmConfig}

theorem readsOut_iff (hinput : cfg.fromInputFile = true) (records : List (StmRecord layout)) {tail : List Byte}
    (htail : IsTail layout tail) {calls : List (StmCall layout)}
    (hstop : ∀ call ∈ calls, call.shouldStop = false) :
    ReadsOut layout cfg records tail calls ↔ calls.length < records.length := by
  constructor
  · intro h
    by_contra hge
    rcases Nat.lt_or_eq_of_le (Nat.not_lt.mp hge) with hmore | hall
    · have hlen := h.frags.length_eq
      rw [length_frags_past_end layout hinput records htail hmore hstop, List.length_take] at hlen
      omega
    · -- all records are read, and the next call still goes ahead
      obtain ⟨hin, -, -⟩ := run_records layout hinput hall.symm hstop _
        (init_inputFileStream hinput (fileContent records tail))
      obtain ⟨htrue, -⟩ := step_tail layout hinput htail (zeroCall layout) rfl hin
      have hfalse := (h.ends (Nat.le_of_eq hall) (zeroCall layout) rfl).1
      rw [htrue] at hfalse
      cases hfalse
  · intro hlt
    refine ⟨?_, fun hge => absurd hge (Nat.not_le.mpr hlt)⟩
    have hsplit : fileContent records tail =
        fileContent (records.take calls.length) (fileContent (records.drop calls.length) tail) := by
      rw [fileContent, fileContent, fileContent, ← List.append_assoc, ← List.flatMap_append,
        List.take_append_drop]
    have hlen : calls.length = (records.take calls.length).length := by
      rw [List.length_take]
      omega
    obtain ⟨-, -, new, hfrags, hnew⟩ := run_records layout hinput hlen hstop _
      ((init_inputFileStream hinput (fileContent records tail)).trans (congrArg _ hsplit))
    rw [hfrags]
    exact hnew

/-- **No file is read out as it should be.** For every file of complete records and an incomplete tail, the
read-out is right as long as fewer calls were made than there are records, and wrong from then on. -/
theorem readOut_never (hinput : cfg.fromInputFile = true) (records : List (StmRecord layout)) {tail : List Byte}
    (htail : IsTail layout tail) :
    (∀ calls : List (StmCall layout), (∀ call ∈ calls, call.shouldStop = false) →
        (ReadsOut layout cfg records tail calls ↔ calls.length < records.length)) ∧
      ¬ ∀ calls : List (StmCall layout), (∀ call ∈ calls, call.shouldStop = false) →
        ReadsOut layout cfg records tail calls := by
  refine ⟨fun calls hstop => readsOut_iff layout hinput records htail hstop, fun hall => ?_⟩
  have hstop : ∀ call ∈ List.replicate records.length (zeroCall layout), call.shouldStop = false := by
    intro call hcall
    rw [List.eq_of_mem_replicate hcall]
    rfl
  have hlt := (readsOut_iff layout hinput records htail hstop).mp (hall _ hstop)
  rw [List.length_replicate] at hlt
  exact Nat.lt_irrefl _ hlt

end readOut

/-- Headers of two bytes, the first byte of the slice header being the slice size. -/
def shortLayout : StmLayout := ⟨2, 2, fun sHdr => (sHdr.headD 0).toUInt16⟩

def readOutConfig : StmConfig := ⟨0, true, false⟩

/-- A record with three bytes of payload. -/
def shortRecord : StmRecord shortLayout := ⟨[9, 9], [3, 0], [1, 2, 3], rfl, rfl, by decide⟩

theorem isTail_nil : IsTail shortLayout [] := ⟨shortRecord, List.nil_prefix, by decide⟩

theorem readOut_never_short :
    ¬ ∀ calls : List (StmCall shortLayout), (∀ call ∈ calls, call.shouldStop = false) →
      ReadsOut shortLayout readOutConfig [shortRecord] [] calls :=
  (readOut_never shortLayout rfl [shortRecord] isTail_nil).2

/-- A file of exactly one record: two calls make two fragments. -/
theorem readOut_repeats :
    let calls := [zeroCall shortLayout, zeroCall shortLayout]
    (run (step shortLayout readOutConfig) (init readOutConfig (fileContent [shortRecord] [])) calls).frags.length =
        2 ∧
      ¬ ReadsOut shortLayout readOutConfig [shortRecord] [] calls := by
  have hstop : ∀ call ∈ [zeroCall shortLayout, zeroCall shortLayout], call.shouldStop = false := by
    simp [zeroCall]
  refine ⟨length_frags_past_end shortLayout rfl [shortRecord] isTail_nil (by decide) hstop, fun h => ?_⟩
  have hlt := (readsOut_iff shortLayout rfl [shortRecord] isTail_nil hstop).mp h
  exact absurd hlt (by simp)

end STMReceiver

end ArtdaqMu2e
