import ArtdaqMu2e.ArtModules.FragmentCollection
import ArtdaqMu2e.Generators.Mu2eEventReceiverBase
import ArtdaqMu2e.Lib.Lists

/-!
# Reads of several events: what comes back

A read of several events makes a container with a fragment for each one, and the modules unpack it again. The
bytes of an event are copied to `frags.back()`, which is the container, and not to the fragment made for the event:
the fragment is added with whatever its memory held, and the copy writes over the blocks added before.

The blocks are as many as the events (`blockCount_fillContainer`). But the block of the last event that has any
bytes is never written to before it is read back, so its contents are those of fresh memory. The events come back
for every contents of that memory only if none of them has any bytes (`recovers_iff`).
-/

namespace ArtdaqMu2e

open Lists Memory

/-- The modules get the events back from the fragment: as many `DTCEVT` blocks, which begin with their bytes. -/
def Recovers (layout : FragmentLayout) (frag : Fragment) (data : List DtcEvent) : Prop :=
  ∃ blocks : List Fragment, DTCEventDump.fragments layout [some [frag]] = some blocks ∧
    DTCEventVerifier.fragments layout [some [frag]] = some blocks ∧
    List.Forall₂ (fun block evt => block.type = .DTCEVT ∧
      block.dataArea.take evt.rawBuffer.length = evt.rawBuffer) blocks data

section fill
variable (layout : FragmentLayout) (fresh : ℕ → (n : ℕ) → Area Byte n) (header : FragmentHeader)

theorem fillContainer_append (i : ℕ) (first second : List DtcEvent) (c : Container) :
    fillContainer layout fresh header i (first ++ second) c =
      fillContainer layout fresh header (i + first.length) second
        (fillContainer layout fresh header i first c) := by
  induction first generalizing i c with
  | nil => rfl
  | cons evt evts ih =>
    rw [List.cons_append, fillContainer, fillContainer, ih, List.length_cons]
    congr 1
    omega

theorem blockCount_fillContainer (i : ℕ) (data : List DtcEvent) (c : Container) :
    (fillContainer layout fresh header i data c).blockCount = c.blockCount + data.length := by
  induction data generalizing i c with
  | nil => rfl
  | cons evt evts ih =>
    rw [fillContainer, ih, List.length_cons, Container.blockCount_addFragment, Container.blockCount_overwrite]
    omega

theorem fragmentType_fillContainer (i : ℕ) (data : List DtcEvent) {c : Container}
    (htype : header.type ≠ .empty) (h : c.fragmentType = header.type) :
    (fillContainer layout fresh header i data c).fragmentType = header.type := by
  induction data generalizing i c with
  | nil => exact h
  | cons evt evts ih =>
    refine ih (i + 1) ?_
    show (if c.fragmentType = .empty then header.type else c.fragmentType) = header.type
    rw [h, if_neg htype]

theorem unpack_fillContainer_of_empty (i : ℕ) {data : List DtcEvent} (h : ∀ evt ∈ data, evt.rawBuffer = [])
    (c : Container) :
    ∃ new : List Fragment, (fillContainer layout fresh header i data c).unpack layout =
        c.unpack layout ++ new ∧
      List.Forall₂ (fun block _ => block.type = header.type) new data := by
  induction data generalizing i c with
  | nil => exact ⟨[], (List.append_nil _).symm, List.Forall₂.nil⟩
  | cons evt evts ih =>
    obtain ⟨hevt, hevts⟩ := List.forall_mem_cons.mp h
    obtain ⟨new, hnew, htypes⟩ := ih (i + 1) hevts (c.addFragment layout header (fresh i evt.rawBuffer.length).cells)
    refine ⟨{ header with body := .data (fresh i evt.rawBuffer.length).cells } :: new, ?_, ?_⟩
    · rw [fillContainer, hevt, Container.overwrite_nil]
      rw [hevt] at hnew
      simpa using hnew
    · exact List.Forall₂.cons rfl htypes

theorem unpack_fillContainer_last (before : List DtcEvent) (evt : DtcEvent) {after : List DtcEvent}
    (hafter : ∀ evt ∈ after, evt.rawBuffer = []) {c : Container} (hempty : c.blockCount = 0) :
    ∃ blocks blocks' : List Fragment, blocks.length = before.length ∧
      (fillContainer layout fresh header 0 (before ++ evt :: after) c).unpack layout =
        blocks ++ { header with body := .data (fresh before.length evt.rawBuffer.length).cells } :: blocks' := by
  obtain ⟨new, hnew, -⟩ := unpack_fillContainer_of_empty layout fresh header (before.length + 1) hafter
    (((fillContainer layout fresh header 0 before c).overwrite evt.rawBuffer).addFragment layout header
      (fresh before.length evt.rawBuffer.length).cells)
  refine ⟨((fillContainer layout fresh header 0 before c).overwrite evt.rawBuffer).unpack layout, new, ?_, ?_⟩
  · rw [Container.length_unpack, Container.blockCount_overwrite, blockCount_fillContainer, hempty, Nat.zero_add]
  · rw [fillContainer_append, fillContainer, Nat.zero_add, hnew, Container.unpack_addFragment,
      List.append_assoc]
    rfl

end fill

/-! ### The round trip -/

section pack
variable (layout : FragmentLayout) (cfg : ReceiverConfig) (fresh : ℕ → (n : ℕ) → Area Byte n)
  (seqOut timestamp : ℕ)

/-- The blocks that the modules find in the container. -/
def packedBlocks (data : List DtcEvent) : List Fragment :=
  (fillContainer layout fresh ⟨seqOut, cfg.fragmentId, .DTCEVT, timestamp⟩ 0 data
    (Container.new.setMissingData false)).unpack layout

theorem collectFragments_packFragment {data : List DtcEvent} (hdata : 2 ≤ data.length) :
    collectFragments layout [some [packFragment layout cfg fresh seqOut timestamp data]] =
      some (packedBlocks layout cfg fresh seqOut timestamp data) := by
  match data, hdata with
  | evt :: evt' :: evts, _ =>
    refine collectFragments_container layout rfl rfl ?_
    rw [fillContainer]
    exact fragmentType_fillContainer layout fresh _ 1 (evt' :: evts) FragmentType.noConfusion rfl

theorem recovers_packFragment_iff {data : List DtcEvent} (hdata : 2 ≤ data.length) :
    Recovers layout (packFragment layout cfg fresh seqOut timestamp data) data ↔
      List.Forall₂ (fun block evt => block.type = .DTCEVT ∧
        block.dataArea.take evt.rawBuffer.length = evt.rawBuffer)
        (packedBlocks layout cfg fresh seqOut timestamp data) data := by
  have hcollect := collectFragments_packFragment layout cfg fresh seqOut timestamp hdata
  constructor
  · rintro ⟨blocks, hblocks, -, hsame⟩
    have heq := Option.some.inj (hcollect.symm.trans hblocks)
    rw [heq]
    exact hsame
  · intro hsame
    exact ⟨_, hcollect, hcollect, hsame⟩

theorem recovers_of_empty {data : List DtcEvent} (hdata : 2 ≤ data.length)
    (h : ∀ evt ∈ data, evt.rawBuffer = []) :
    Recovers layout (packFragment layout cfg fresh seqOut timestamp data) data := by
  rw [recovers_packFragment_iff layout cfg fresh seqOut timestamp hdata]
  obtain ⟨new, hnew, htypes⟩ := unpack_fillContainer_of_empty layout fresh
    ⟨seqOut, cfg.fragmentId, .DTCEVT, timestamp⟩ 0 h (Container.new.setMissingData false)
  rw [packedBlocks, hnew]
  show List.Forall₂ _ new data
  refine List.forall₂_iff_zip.mpr ⟨htypes.length_eq, fun hmem => ⟨(List.forall₂_iff_zip.mp htypes).2 hmem, ?_⟩⟩
  rw [h _ (List.of_mem_zip hmem).2]
  rfl

theorem exists_not_recovers {data : List DtcEvent} (hdata : 2 ≤ data.length)
    (h : ∃ evt ∈ data, evt.rawBuffer ≠ []) :
    ∃ fresh, ∀ seqOut timestamp,
      ¬ Recovers layout (packFragment layout cfg fresh seqOut timestamp data) data := by
  obtain ⟨evt, before, after, hsplit, hne, hafter⟩ := exists_isLast h
  obtain ⟨byte, bytes, hraw⟩ := List.exists_cons_of_ne_nil hne
  refine ⟨fun _ n => Area.replicate n (byte + 1), fun seqOut timestamp hrec => ?_⟩
  rw [recovers_packFragment_iff layout cfg _ seqOut timestamp hdata] at hrec
  obtain ⟨blocks, blocks', hlen, hblocks⟩ := unpack_fillContainer_last layout
    (fun _ n => Area.replicate n (byte + 1)) ⟨seqOut, cfg.fragmentId, .DTCEVT, timestamp⟩ before evt
    (fun evt hevt => not_not.mp (hafter evt hevt)) (c := Container.new.setMissingData false) rfl
  rw [packedBlocks, hsplit, hblocks] at hrec
  have hblock := (rel_of_forall₂_append hrec hlen).2
  rw [hraw] at hblock
  have hbyte : byte + 1 = byte := (List.cons.inj hblock).1
  have hval := congrArg UInt8.toNat hbyte
  rw [UInt8.toNat_add] at hval
  have := byte.toNat_lt
  have hone : (1 : UInt8).toNat = 1 := rfl
  omega

theorem frags_getNextDTCFragment (read : Read DtcEvent) (tsIn seqIn : ℕ) (st : Receiver)
    (hread : read.delivered ≠ []) :
    ∃ seqOut timestamp, (getNextDTCFragment layout cfg read tsIn seqIn st).2.frags =
      st.frags ++ [packFragment layout cfg read.fresh seqOut timestamp read.delivered] := by
  obtain ⟨evt, evts, hread⟩ := List.exists_cons_of_ne_nil hread
  rw [getNextDTCFragment_of_cons hread, hread]
  exact ⟨_, _, rfl⟩

end pack

/-- **Several events come back only if they are empty**: the container made of a read of several events gives
them back, whatever fresh memory holds, if and only if none of them has any bytes. -/
theorem recovers_iff (layout : FragmentLayout) (cfg : ReceiverConfig) (read : Read DtcEvent) (tsIn seqIn : ℕ)
    (st : Receiver) (hdata : 2 ≤ read.delivered.length) :
    (∀ fresh, ∃ frag,
        (getNextDTCFragment layout cfg { read with fresh := fresh } tsIn seqIn st).2.frags = st.frags ++ [frag] ∧
          Recovers layout frag read.delivered) ↔
      ∀ evt ∈ read.delivered, evt.rawBuffer = [] := by
  have hsome : read.delivered ≠ [] := by
    intro hnil
    rw [hnil] at hdata
    exact absurd hdata (by decide)
  constructor
  · intro hall
    by_contra hbytes
    obtain ⟨fresh, hnot⟩ := exists_not_recovers layout cfg hdata (by simpa using hbytes)
    obtain ⟨frag, hfrag, hrec⟩ := hall fresh
    obtain ⟨seqOut, timestamp, hpack⟩ :=
      frags_getNextDTCFragment layout cfg { read with fresh := fresh } tsIn seqIn st hsome
    have hsame := List.cons.inj (List.append_cancel_left (hfrag.symm.trans hpack))
    rw [hsame.1] at hrec
    exact hnot seqOut timestamp hrec
  · intro hempty fresh
    obtain ⟨seqOut, timestamp, hpack⟩ :=
      frags_getNextDTCFragment layout cfg { read with fresh := fresh } tsIn seqIn st hsome
    exact ⟨_, hpack, recovers_of_empty layout cfg fresh seqOut timestamp hdata hempty⟩

/-- Two events in one read, of two bytes and of one. -/
def twoEvents : Read DtcEvent := Read.ofEvents [⟨5, [1, 2]⟩, ⟨5, [3]⟩]

def containerConfig : ReceiverConfig := ⟨0, .disabled, false, 16, 0, 1⟩

theorem recovers_iff_two :
    ¬ ∀ fresh, ∃ frag,
      (getNextDTCFragment .zeroTerminated containerConfig { twoEvents with fresh := fresh } 0 0
        Receiver.init).2.frags = Receiver.init.frags ++ [frag] ∧
        Recovers .zeroTerminated frag twoEvents.delivered := by
  intro hall
  have hempty := (recovers_iff .zeroTerminated containerConfig twoEvents 0 0 Receiver.init (by decide)).mp hall
  exact absurd hempty (by decide)

theorem Recovers.head {layout : FragmentLayout} {frag : Fragment} {evt : DtcEvent} {evts : List DtcEvent}
    (h : Recovers layout frag (evt :: evts)) {areas : List (List Byte)}
    (hareas : (DTCEventDump.fragments layout [some [frag]]).map (·.map (·.dataArea)) = some areas) :
    ∃ area ∈ areas.head?, area.take evt.rawBuffer.length = evt.rawBuffer := by
  obtain ⟨blocks, hblocks, -, hsame⟩ := h
  cases hsame with
  | cons hfirst _ =>
    rw [hblocks] at hareas
    rw [← Option.some.inj hareas]
    exact ⟨_, rfl, hfirst.2⟩

/-- With memory that held zeros, zeros come back. -/
theorem container_loses_bytes :
    ∃ frag, (getNextDTCFragment .zeroTerminated containerConfig twoEvents 0 0 Receiver.init).2.frags = [frag] ∧
      (DTCEventDump.fragments .zeroTerminated [some [frag]]).map (·.map (·.dataArea)) = some [[0, 0], [0]] ∧
      ¬ Recovers .zeroTerminated frag twoEvents.delivered := by
  refine ⟨_, rfl, ?_⟩
  have hareas : (DTCEventDump.fragments .zeroTerminated [some [packFragment .zeroTerminated containerConfig
      Read.zeros 1 5 twoEvents.delivered]]).map (·.map (·.dataArea)) = some [[0, 0], [0]] := by decide
  refine ⟨hareas, fun hrec => ?_⟩
  obtain ⟨area, harea, hbytes⟩ := Recovers.head hrec hareas
  rw [← Option.some.inj harea] at hbytes
  revert hbytes
  decide

end ArtdaqMu2e
