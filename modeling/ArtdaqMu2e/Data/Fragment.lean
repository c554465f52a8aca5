import ArtdaqMu2e.Lib.Memory

/-!
# Fragments and containers

What the generators put into fragments and the modules read from them. A fragment has a header and one of three
bodies: a data area, a container, or the contents of an end-of-subrun fragment. Sequence ids, fragment ids and
timestamps are the numbers given to the constructor.

A container keeps its blocks in its own data area, each one as a copy of a whole fragment. How a fragment is
laid out in memory is the business of artdaq-core, which is not part of this repository: `FragmentLayout` is any
layout that can be read back.
-/

namespace ArtdaqMu2e

open Memory

abbrev Byte := UInt8

inductive FragmentType where
  | invalid
  | empty
  | container
  | endOfSubrun
  | DTCEVT
  | STM
  | other (code : ℕ)
  deriving DecidableEq, Repr

structure FragmentHeader where
  sequenceID : ℕ
  fragmentID : ℕ
  type : FragmentType
  timestamp : ℕ
  deriving DecidableEq, Repr

/-- How a fragment with a data area is stored in memory. -/
structure FragmentLayout where
  write : FragmentHeader → List Byte → List Byte
  read : List Byte → FragmentHeader × List Byte
  read_write : ∀ header data, read (write header data) = (header, data)

/-! ### A layout that can be computed with

The four numbers of the header as zero-terminated runs, then the data. -/

namespace FragmentType

def code : FragmentType → ℕ
  | .invalid => 0
  | .empty => 1
  | .container => 2
  | .endOfSubrun => 3
  | .DTCEVT => 4
  | .STM => 5
  | .other n => n + 6

def ofCode : ℕ → FragmentType
  | 0 => .invalid
  | 1 => .empty
  | 2 => .container
  | 3 => .endOfSubrun
  | 4 => .DTCEVT
  | 5 => .STM
  | n + 6 => .other n

@[simp] theorem ofCode_code (type : FragmentType) : ofCode type.code = type := by
  cases type <;> rfl

end FragmentType

namespace FragmentLayout

def writeRun (n : ℕ) : List Byte := List.replicate n 1 ++ [0]

def readRun : List Byte → ℕ × List Byte
  | [] => (0, [])
  | byte :: bytes => if byte = 0 then (0, bytes) else ((readRun bytes).1 + 1, (readRun bytes).2)

@[simp] theorem readRun_writeRun (n : ℕ) (rest : List Byte) : readRun (writeRun n ++ rest) = (n, rest) := by
  induction n with
  | zero => rfl
  | succ n ih =>
    rw [writeRun, List.replicate_succ, List.append_assoc, List.cons_append, ← List.append_assoc, ← writeRun,
      readRun, if_neg (by decide), ih]

def zeroTerminated : FragmentLayout where
  write header data :=
    writeRun header.sequenceID ++ (writeRun header.fragmentID ++ (writeRun header.type.code ++
      (writeRun header.timestamp ++ data)))
  read bytes :=
    let seq := readRun bytes
    let frag := readRun seq.2
    let type := readRun frag.2
    let time := readRun type.2
    (⟨seq.1, frag.1, FragmentType.ofCode type.1, time.1⟩, time.2)
  read_write header data := by simp

end FragmentLayout

/-! ### Containers and fragments -/

/-- `missing_data` and `fragment_type` of the container metadata, and the data area with its blocks. -/
structure Container where
  fragmentType : FragmentType
  missingData : Bool
  blocks : Blocks Byte

inductive Body where
  | data (bytes : List Byte)
  | container (c : Container)
  | endOfSubrun (rank subrun : ℕ)

structure Fragment extends FragmentHeader where
  body : Body

namespace Fragment

/-- The data area; a container's is the buffer of its blocks. -/
def dataArea (frag : Fragment) : List Byte :=
  match frag.body with
  | .data bytes => bytes
  | .container c => c.blocks.data
  | .endOfSubrun _ _ => []

/-- `ContainerFragment`: the view of a fragment as a container, which throws if it has no such metadata. -/
def asContainer (frag : Fragment) : Option Container :=
  match frag.body with
  | .container c => some c
  | _ => none

end Fragment

namespace Container

/-- A container as `ContainerFragmentLoader` sets it up. -/
def new : Container := ⟨.empty, true, Blocks.empty⟩

def setMissingData (c : Container) (missing : Bool) : Container := { c with missingData := missing }

/-- The first fragment added gives the container its type; each one is stored as a copy. -/
def addFragment (layout : FragmentLayout) (c : Container) (header : FragmentHeader) (data : List Byte) :
    Container where
  fragmentType := if c.fragmentType = .empty then header.type else c.fragmentType
  missingData := c.missingData
  blocks := c.blocks.append (layout.write header data)

/-- Copy to the beginning of the data area. -/
def overwrite (c : Container) (src : List Byte) : Container := { c with blocks := c.blocks.overwrite src }

def blockCount (c : Container) : ℕ := c.blocks.index.length

/-- `contf[0]`, ..., `contf[block_count - 1]`. -/
def unpack (layout : FragmentLayout) (c : Container) : List Fragment :=
  c.blocks.slices.map fun slice => { (layout.read slice).1 with body := .data (layout.read slice).2 }

@[simp] theorem overwrite_nil (c : Container) : c.overwrite [] = c := by
  rw [overwrite, Blocks.overwrite_nil]

@[simp] theorem blockCount_overwrite (c : Container) (src : List Byte) :
    (c.overwrite src).blockCount = c.blockCount := rfl

@[simp] theorem blockCount_addFragment (layout : FragmentLayout) (c : Container) (header : FragmentHeader)
    (data : List Byte) : (c.addFragment layout header data).blockCount = c.blockCount + 1 :=
  List.length_append

@[simp] theorem length_unpack (layout : FragmentLayout) (c : Container) :
    (c.unpack layout).length = c.blockCount := by
  simp [unpack, blockCount]

@[simp] theorem unpack_addFragment (layout : FragmentLayout) (c : Container) (header : FragmentHeader)
    (data : List Byte) :
    (c.addFragment layout header data).unpack layout =
      c.unpack layout ++ [{ header with body := .data data }] := by
  simp [unpack, addFragment, layout.read_write]

end Container

end ArtdaqMu2e
