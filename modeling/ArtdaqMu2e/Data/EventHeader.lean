import ArtdaqMu2e.Data.Fragment
import ArtdaqMu2e.Lib.Bytes

/-!
# The DTC event header

The fields of `DTCLib::DTC_EventHeader` that the generators write and the modules check. The event window tag is
stored in two fields; below 2^48 they recombine to the tag they were set from (`eventWindowTag_withTag`).

The header of the DTC library is not part of this repository: a `HeaderLayout w` is any way of storing the
fields in a fixed number of bytes, with `w` bits for the byte count.
-/

namespace ArtdaqMu2e

structure EventHeader (w : ℕ) where
  inclusiveEventByteCount : BitVec w
  numDtcs : BitVec 8
  eventTagLow : BitVec 32
  eventTagHigh : BitVec 16
  deriving DecidableEq

namespace EventHeader

variable {w : ℕ}

/-- The tag goes into the header in two parts. -/
def withTag (hdr : EventHeader w) (tag : ℕ) : EventHeader w :=
  { hdr with
    eventTagLow := BitVec.ofNat 32 (tag &&& 0xFFFFFFFF)
    eventTagHigh := BitVec.ofNat 16 ((tag >>> 32) &&& 0xFFFF) }

def eventWindowTag (hdr : EventHeader w) : ℕ := hdr.eventTagLow.toNat + hdr.eventTagHigh.toNat * 2 ^ 32

theorem eventWindowTag_withTag (hdr : EventHeader w) {tag : ℕ} (htag : tag < 2 ^ 48) :
    (hdr.withTag tag).eventWindowTag = tag := by
  have hlow : tag &&& 0xFFFFFFFF = tag % 2 ^ 32 := Nat.and_two_pow_sub_one_eq_mod tag 32
  have hhigh : (tag >>> 32) &&& 0xFFFF = tag / 2 ^ 32 % 2 ^ 16 := by
    rw [Nat.shiftRight_eq_div_pow]
    exact Nat.and_two_pow_sub_one_eq_mod _ 16
  simp only [eventWindowTag, withTag, BitVec.toNat_ofNat, hlow, hhigh]
  omega

end EventHeader

structure HeaderLayout (w : ℕ) where
  size : ℕ
  encode : EventHeader w → List Byte
  decode : List Byte → EventHeader w
  length_encode : ∀ hdr, (encode hdr).length = size
  decode_encode : ∀ hdr rest, decode (encode hdr ++ rest) = hdr

namespace HeaderLayout

open Bytes

/-- The fields one after the other, with a byte count of 24 bits. -/
def packed : HeaderLayout 24 where
  size := 10
  encode hdr :=
    toLE 3 hdr.inclusiveEventByteCount.toNat ++ (toLE 1 hdr.numDtcs.toNat ++
      (toLE 4 hdr.eventTagLow.toNat ++ toLE 2 hdr.eventTagHigh.toNat))
  decode bytes :=
    let count := readLE 3 bytes
    let dtcs := readLE 1 count.2
    let low := readLE 4 dtcs.2
    let high := readLE 2 low.2
    ⟨BitVec.ofNat 24 count.1, BitVec.ofNat 8 dtcs.1, BitVec.ofNat 32 low.1, BitVec.ofNat 16 high.1⟩
  length_encode hdr := by simp
  decode_encode hdr rest := by
    obtain ⟨count, dtcs, low, high⟩ := hdr
    simp only [List.append_assoc, readLE_toLE, EventHeader.mk.injEq]
    refine ⟨?_, ?_, ?_, ?_⟩ <;>
      · apply BitVec.eq_of_toNat_eq
        simp only [BitVec.toNat_ofNat]
        omega

end HeaderLayout

end ArtdaqMu2e
