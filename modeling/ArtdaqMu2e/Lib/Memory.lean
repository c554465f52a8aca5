import Mathlib.Data.List.Basic
import Mathlib.Tactic.Common

/-!
# Memory areas and blocks stored in one buffer

`memcpy dst src` overwrites the beginning of `dst`. An `Area n` is freshly allocated memory: at least `n`
cells with unspecified contents. A `Blocks` value is one buffer that holds blocks one after the other, with an
index of where each one is: what is appended is read back (`slices_append`), until somebody writes over the
buffer (`overwrite`).
-/

namespace Memory

variable {α : Type*}

/-- Copy `src` to the beginning of `dst`. What does not fit is not stored. -/
def memcpy (dst src : List α) : List α :=
  src.take dst.length ++ dst.drop src.length

@[simp] theorem memcpy_nil (dst : List α) : memcpy dst [] = dst := by simp [memcpy]

@[simp] theorem length_memcpy (dst src : List α) : (memcpy dst src).length = dst.length := by
  simp only [memcpy, List.length_append, List.length_take, List.length_drop]
  omega

theorem memcpy_of_length_le {dst src : List α} (h : src.length ≤ dst.length) :
    memcpy dst src = src ++ dst.drop src.length := by
  rw [memcpy, List.take_of_length_le h]

theorem take_memcpy {dst src : List α} {n : ℕ} (hn : src.length = n) (h : n ≤ dst.length) :
    (memcpy dst src).take n = src := by
  subst hn
  rw [memcpy_of_length_le h, List.take_left]

theorem memcpy_append {src front : List α} (h : src.length = front.length) (rest : List α) :
    memcpy (front ++ rest) src = src ++ rest := by
  rw [memcpy_of_length_le (by rw [List.length_append]; omega), h, List.drop_left]

/-- Copy `src` to `dst` from offset `off` on. -/
def memcpyAt (off : ℕ) (dst src : List α) : List α := dst.take off ++ memcpy (dst.drop off) src

theorem memcpyAt_append {front rest src : List α} {n : ℕ} (hn : front.length = n)
    (h : src.length ≤ rest.length) :
    memcpyAt n (front ++ rest) src = front ++ (src ++ rest.drop src.length) := by
  rw [memcpyAt, List.take_left' hn, List.drop_left' hn, memcpy_of_length_le h]

theorem memcpyAt_memcpy {dst header src : List α} {n : ℕ} (hn : header.length = n)
    (h : n + src.length ≤ dst.length) :
    memcpyAt n (memcpy dst header) src = header ++ (src ++ dst.drop (n + src.length)) := by
  subst hn
  rw [memcpy_of_length_le (by omega), memcpyAt_append rfl (by rw [List.length_drop]; omega), List.drop_drop]

/-! ### Fresh memory -/

/-- At least `n` cells with unspecified contents. -/
structure Area (α : Type*) (n : ℕ) where
  cells : List α
  le_length : n ≤ cells.length

/-- An area with `n` copies of `a`. -/
def Area.replicate (n : ℕ) (a : α) : Area α n := ⟨List.replicate n a, by simp⟩

/-! ### Blocks in one buffer -/

/-- A buffer of blocks with the offset and the length of each one. -/
structure Blocks (α : Type*) where
  data : List α
  index : List (ℕ × ℕ)
  inBounds : ∀ entry ∈ index, entry.1 + entry.2 ≤ data.length

namespace Blocks

def empty : Blocks α := ⟨[], [], by simp⟩

/-- Store a copy of `block` behind the others. -/
def append (b : Blocks α) (block : List α) : Blocks α where
  data := b.data ++ block
  index := b.index ++ [(b.data.length, block.length)]
  inBounds := by
    intro entry hentry
    rw [List.length_append]
    rcases List.mem_append.mp hentry with hentry | hentry
    · have := b.inBounds entry hentry
      omega
    · simp [List.mem_singleton.mp hentry]

/-- Write over the beginning of the buffer. -/
def overwrite (b : Blocks α) (src : List α) : Blocks α where
  data := memcpy b.data src
  index := b.index
  inBounds := by simpa using b.inBounds

/-- What the buffer holds where an entry of the index points. -/
def slice (b : Blocks α) (entry : ℕ × ℕ) : List α := (b.data.drop entry.1).take entry.2

/-- The blocks as they are read back. -/
def slices (b : Blocks α) : List (List α) := b.index.map b.slice

@[simp] theorem overwrite_nil (b : Blocks α) : b.overwrite [] = b := by
  cases b
  simp [overwrite]

@[simp] theorem length_slices (b : Blocks α) : b.slices.length = b.index.length := by simp [slices]

@[simp] theorem slices_append (b : Blocks α) (block : List α) :
    (b.append block).slices = b.slices ++ [block] := by
  have hold : ∀ entry ∈ b.index, (b.append block).slice entry = b.slice entry := by
    intro entry hentry
    have hin := b.inBounds entry hentry
    simp only [slice, append]
    rw [List.drop_append_of_le_length (by omega), List.take_append_of_le_length]
    rw [List.length_drop]
    omega
  have hnew : (b.append block).slice (b.data.length, block.length) = block := by
    simp [slice, append]
  rw [slices, show (b.append block).index = b.index ++ [(b.data.length, block.length)] from rfl,
    List.map_append, List.map_congr_left hold, List.map_singleton, hnew]
  rfl

end Blocks

end Memory
