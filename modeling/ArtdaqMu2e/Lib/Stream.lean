import ArtdaqMu2e.Lib.Memory

/-!
# File streams

Streams after the standard library's rules.

`InputStream.read n dst` copies the next `n` elements to `dst`. Asking for more than is left copies what is left,
leaves the rest of `dst` as it was, and sets the end-of-file and the failure flag; on a stream that has failed a
read copies nothing. Reading exactly to the end sets no flag.

What is written to an `OutputStream` is appended while it is open and has not failed, and lost otherwise. Opening a
stream that is open fails. Opening one that is closed clears the failure flag, so it is not kept while the stream is
closed.
-/

structure InputStream (α : Type*) where
  rest : List α
  eof : Bool
  fail : Bool
  deriving DecidableEq

namespace InputStream

open Memory

variable {α : Type*}

def ofContent (content : List α) : InputStream α := ⟨content, false, false⟩

def read (s : InputStream α) (n : ℕ) (dst : List α) : InputStream α × List α :=
  if s.eof || s.fail then ({ s with fail := true }, dst)
  else if n ≤ s.rest.length then ({ s with rest := s.rest.drop n }, memcpy dst (s.rest.take n))
  else (⟨[], true, true⟩, memcpy dst s.rest)

theorem read_append {head tail dst : List α} {n : ℕ} (hn : head.length = n) :
    (ofContent (head ++ tail)).read n dst = (ofContent tail, memcpy dst head) := by
  subst hn
  simp [read, ofContent]

theorem read_short {rest dst : List α} {n : ℕ} (hn : rest.length < n) :
    (ofContent rest).read n dst = (⟨[], true, true⟩, memcpy dst rest) := by
  simp [read, ofContent, Nat.not_le.mpr hn]

theorem read_eof {s : InputStream α} (h : s.eof = true) (n : ℕ) (dst : List α) :
    s.read n dst = ({ s with fail := true }, dst) := by
  simp [read, h]

@[simp] theorem length_read (s : InputStream α) (n : ℕ) (dst : List α) : (s.read n dst).2.length = dst.length := by
  unfold read
  split_ifs
  · rfl
  · exact length_memcpy _ _
  · exact length_memcpy _ _

theorem eof_read {s : InputStream α} (h : s.eof = true) (n : ℕ) (dst : List α) :
    (s.read n dst).1.eof = true := by
  rw [read_eof h]
  exact h

end InputStream

structure OutputStream (α : Type*) where
  isOpen : Bool
  fail : Bool
  written : List α
  deriving DecidableEq

namespace OutputStream

variable {α : Type*}

def closed : OutputStream α := ⟨false, false, []⟩

/-- A stream that can be written to. -/
def opened (written : List α) : OutputStream α := ⟨true, false, written⟩

def openAppend (s : OutputStream α) : OutputStream α :=
  if s.isOpen then { s with fail := true } else opened s.written

def close (s : OutputStream α) : OutputStream α := ⟨false, false, s.written⟩

def write (s : OutputStream α) (src : List α) : OutputStream α :=
  if s.isOpen && !s.fail then { s with written := s.written ++ src } else s

theorem openAppend_of_closed {s : OutputStream α} (h : s.isOpen = false) : s.openAppend = opened s.written := by
  simp [openAppend, h]

@[simp] theorem write_opened (written src : List α) : (opened written).write src = opened (written ++ src) := rfl

theorem foldl_write_opened (written : List α) (chunks : List (List α)) :
    chunks.foldl write (opened written) = opened (written ++ chunks.flatten) := by
  induction chunks generalizing written with
  | nil => rw [List.foldl_nil, List.flatten_nil, List.append_nil]
  | cons chunk chunks ih => rw [List.foldl_cons, write_opened, ih, List.flatten_cons, List.append_assoc]

end OutputStream
