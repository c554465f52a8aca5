import ArtdaqMu2e.Data.EventHeader
import ArtdaqMu2e.Data.Fragment
import ArtdaqMu2e.Lib.Lists

/-!
# Raw files

The binary files that the receivers and `DTCEventDump` write. The name of a file is the one configured with the time
of its opening put in front of `.bin`; without `.bin` in it every opening is of the same file
(`rawFileName_injective`). The file holds events one after the other, and each begins with a header that has its
length, so what is in the file says which events they are (`eq_of_flatten_eq`).

What an event looks like in a file is the business of the DTC library, which is not part of this repository: an
`EventLibrary` is any library that writes whole events as they are in memory.
-/

namespace ArtdaqMu2e

open Memory

/-! ### File names -/

/-- `std::string::find`. -/
def find (sub : List Char) : List Char → Option ℕ
  | [] => if sub = [] then some 0 else none
  | c :: cs => if sub.isPrefixOf (c :: cs) then some 0 else (find sub cs).map (· + 1)

/-- The name of a raw output file that is opened at `time`. -/
def rawFileName (rawOutputFile : String) (time : ℕ) : String :=
  match find ".bin".toList rawOutputFile.toList with
  | none => rawOutputFile
  | some i =>
    let timestr := "_" ++ Nat.repr time
    String.ofList (rawOutputFile.toList.take i ++ (timestr.toList ++ rawOutputFile.toList.drop i))

theorem repr_injective {n m : ℕ} (h : Nat.repr n = Nat.repr m) : n = m := by
  have hdigits := congrArg String.toList h
  rw [Nat.toList_repr, Nat.toList_repr] at hdigits
  rw [← Nat.ofDigitChars_ten_toDigits (n := n), hdigits, Nat.ofDigitChars_ten_toDigits]

theorem rawFileName_injective {rawOutputFile : String} (hbin : find ".bin".toList rawOutputFile.toList ≠ none)
    {time time' : ℕ} (h : rawFileName rawOutputFile time = rawFileName rawOutputFile time') : time = time' := by
  obtain ⟨i, hi⟩ := Option.ne_none_iff_exists'.mp hbin
  simp only [rawFileName, hi] at h
  have hlist := List.append_cancel_left (String.ofList_injective h)
  have hstr := String.toList_inj.mp (List.append_cancel_right hlist)
  have hrepr := congrArg String.toList hstr
  rw [String.toList_append, String.toList_append] at hrepr
  exact repr_injective (String.toList_inj.mp (List.append_cancel_left hrepr))

example : rawFileName "/tmp/Mu2eReceiver.bin" 17 = "/tmp/Mu2eReceiver_17.bin" := by decide

/-! ### Events in a file -/

section events
variable {w : ℕ} (header : HeaderLayout w)

/-- The event at the beginning of a buffer, as long as its header says. -/
def eventAt (bytes : List Byte) : List Byte := bytes.take (header.decode bytes).inclusiveEventByteCount.toNat

/-- The bytes are one event: a header with their number, and what comes behind it. -/
def IsEvent (bytes : List Byte) : Prop :=
  ∃ hdr rest, bytes = header.encode hdr ++ rest ∧ hdr.inclusiveEventByteCount.toNat = bytes.length

variable {header}

theorem IsEvent.byteCount_eq {hdr : EventHeader w} {body : List Byte} (h : IsEvent header (header.encode hdr ++ body)) :
    hdr.inclusiveEventByteCount.toNat = (header.encode hdr ++ body).length := by
  obtain ⟨hdr', body', hbytes, hcount⟩ := h
  obtain rfl : hdr = hdr' := by
    rw [← header.decode_encode hdr body, hbytes, header.decode_encode]
  exact hcount

theorem IsEvent.eventAt_append {bytes : List Byte} (h : IsEvent header bytes) (rest : List Byte) :
    eventAt header (bytes ++ rest) = bytes := by
  obtain ⟨hdr, body, rfl, hcount⟩ := h
  rw [eventAt, List.append_assoc, header.decode_encode, hcount, ← List.append_assoc]
  exact List.take_left' rfl

end events

/-! ### The library that writes them -/

/-- `DTC_Event` on a raw buffer, `DTCEventFragment::getData`, and `DTC_Event::WriteEvent`, whose flag asks for the
format of the detector emulator. -/
structure EventLibrary (ε : Type*) {w : ℕ} (header : HeaderLayout w) where
  ofBuffer : List Byte → ε
  getData : Fragment → ε
  writeEvent : Bool → ε → List Byte
  /-- The bytes are one event, down to the data blocks in it. -/
  Whole : List Byte → Prop
  isEvent_of_whole : ∀ {bytes}, Whole bytes → IsEvent header bytes
  /-- What is in an event does not depend on its tag. -/
  whole_withTag : ∀ {hdr body}, Whole (header.encode hdr ++ body) →
    ∀ tag, Whole (header.encode (hdr.withTag tag) ++ body)
  /-- A whole event at the beginning of a buffer is written as it is there. -/
  writeEvent_ofBuffer : ∀ {bytes}, Whole bytes → ∀ rest, writeEvent false (ofBuffer (bytes ++ rest)) = bytes
  /-- And so is one at the beginning of the data area of a fragment. -/
  writeEvent_getData : ∀ {bytes}, Whole bytes → ∀ {frag : Fragment}, bytes <+: frag.dataArea →
    writeEvent false (getData frag) = bytes

namespace EventLibrary

variable {ε : Type*} {w : ℕ} {header : HeaderLayout w} (L : EventLibrary ε header)

/-- What a receiver writes to its raw output file of the event in a raw buffer. -/
def rawBytes (rawBuffer : List Byte) : List Byte := L.writeEvent false (L.ofBuffer rawBuffer)

theorem rawBytes_of_whole {bytes : List Byte} (h : L.Whole bytes) : L.rawBytes bytes = bytes := by
  have hwritten := L.writeEvent_ofBuffer h []
  rwa [List.append_nil] at hwritten

theorem map_rawBytes {events : List (List Byte)} (h : ∀ bytes ∈ events, L.Whole bytes) :
    events.map L.rawBytes = events :=
  (List.map_congr_left fun bytes hbytes => L.rawBytes_of_whole (h bytes hbytes)).trans (List.map_id' events)

/-- A library that goes by the byte count in the header. For the detector emulator it puts some sizes in front. -/
def counted (header : HeaderLayout w) (sizes : ℕ → List Byte) : EventLibrary (List Byte) header where
  ofBuffer := eventAt header
  getData frag := eventAt header frag.dataArea
  writeEvent detemuFormat evt := (if detemuFormat then sizes evt.length else []) ++ evt
  Whole := IsEvent header
  isEvent_of_whole h := h
  whole_withTag := by
    intro hdr body h tag
    have hcount := h.byteCount_eq
    refine ⟨hdr.withTag tag, body, rfl, ?_⟩
    rw [List.length_append, header.length_encode] at hcount ⊢
    exact hcount
  writeEvent_ofBuffer h rest := by
    rw [h.eventAt_append]
    rfl
  writeEvent_getData h frag hstart := by
    obtain ⟨rest, hrest⟩ := hstart
    rw [← hrest, h.eventAt_append]
    rfl

end EventLibrary

end ArtdaqMu2e
