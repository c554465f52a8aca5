import Mathlib.Data.List.Basic
import Mathlib.Logic.Function.Basic
import Mathlib.Tactic.Common

/-!
# Files, and a stream that appends to them

A `FileStream` is an output stream after the standard library's rules together with the files it may write to.
Opening a stream that is open fails and leaves it open, opening one that is closed clears the failure; closing a
stream that is closed fails; and on a stream that has failed nothing is written. In a session, from opening to closing,
everything goes to one file (`session_eq`), and what a file holds after some sessions is what it held before and what
was written in its own sessions, in their order (`files_sessions`).
-/

/-- The contents of the files, the one that is open, and the failure flag. -/
structure FileStream (ν α : Type*) where
  files : ν → List α
  target : Option ν
  failed : Bool

namespace FileStream

variable {ν α : Type*}

def ofFiles (files : ν → List α) : FileStream ν α := ⟨files, none, false⟩

def openAppend (s : FileStream ν α) (name : ν) : FileStream ν α :=
  match s.target with
  | some _ => { s with failed := true }
  | none => { s with target := some name, failed := false }

def close (s : FileStream ν α) : FileStream ν α :=
  match s.target with
  | some _ => { s with target := none }
  | none => { s with failed := true }

def write [DecidableEq ν] (s : FileStream ν α) (src : List α) : FileStream ν α :=
  match s.target with
  | some name =>
    if s.failed then s else { s with files := Function.update s.files name (s.files name ++ src) }
  | none => { s with failed := true }

/-- A stream on which a file is open. -/
def writing (files : ν → List α) (name : ν) : FileStream ν α := ⟨files, some name, false⟩

theorem openAppend_of_closed {s : FileStream ν α} (h : s.target = none) (name : ν) :
    s.openAppend name = writing s.files name := by
  rw [openAppend, h]
  rfl

@[simp] theorem close_writing (files : ν → List α) (name : ν) : (writing files name).close = ofFiles files := rfl

@[simp] theorem files_close (s : FileStream ν α) : s.close.files = s.files := by
  unfold close
  split <;> rfl

variable [DecidableEq ν]

@[simp] theorem write_writing (files : ν → List α) (name : ν) (src : List α) :
    (writing files name).write src = writing (Function.update files name (files name ++ src)) name := rfl

theorem foldl_write_writing (files : ν → List α) (name : ν) (chunks : List (List α)) :
    chunks.foldl write (writing files name) =
      writing (Function.update files name (files name ++ chunks.flatten)) name := by
  induction chunks generalizing files with
  | nil => simp
  | cons chunk chunks ih =>
    rw [List.foldl_cons, write_writing, ih, Function.update_self, Function.update_idem, List.flatten_cons,
      List.append_assoc]

/-! ### Sessions -/

/-- The stream is opened, written to, and closed. -/
def session (s : FileStream ν α) (x : ν × List (List α)) : FileStream ν α :=
  (x.2.foldl write (s.openAppend x.1)).close

theorem session_eq {s : FileStream ν α} (h : s.target = none) (x : ν × List (List α)) :
    s.session x = ofFiles (Function.update s.files x.1 (s.files x.1 ++ x.2.flatten)) := by
  rw [session, openAppend_of_closed h, foldl_write_writing, close_writing]

/-- What is written to a file in a list of sessions. -/
def writtenTo (name : ν) (sessions : List (ν × List (List α))) : List α :=
  (sessions.filter (·.1 = name)).flatMap (·.2.flatten)

theorem files_sessions {s : FileStream ν α} (h : s.target = none) (sessions : List (ν × List (List α))) :
    (sessions.foldl session s).target = none ∧
      ∀ name, (sessions.foldl session s).files name = s.files name ++ writtenTo name sessions := by
  induction sessions generalizing s with
  | nil => exact ⟨h, fun name => (List.append_nil _).symm⟩
  | cons x sessions ih =>
    rw [List.foldl_cons, session_eq h]
    obtain ⟨hclosed, hfiles⟩ := ih (s := ofFiles (Function.update s.files x.1 (s.files x.1 ++ x.2.flatten))) rfl
    refine ⟨hclosed, fun name => ?_⟩
    rw [hfiles name]
    show Function.update s.files x.1 _ name ++ _ = _
    by_cases hname : x.1 = name
    · subst hname
      rw [Function.update_self, List.append_assoc, writtenTo, writtenTo, List.filter_cons_of_pos (by simp),
        List.flatMap_cons]
    · rw [Function.update_of_ne (Ne.symm hname), writtenTo, writtenTo, List.filter_cons_of_neg (by simpa using hname)]

theorem writtenTo_of_nodup {sessions : List (ν × List (List α))} (h : (sessions.map (·.1)).Nodup)
    {x : ν × List (List α)} (hx : x ∈ sessions) : writtenTo x.1 sessions = x.2.flatten := by
  induction sessions with
  | nil => cases hx
  | cons y sessions ih =>
    obtain ⟨hfresh, hnodup⟩ := List.nodup_cons.mp h
    rw [writtenTo]
    rcases List.mem_cons.mp hx with rfl | hx
    · have hnone : sessions.filter (·.1 = x.1) = [] := by
        rw [List.filter_eq_nil_iff]
        intro z hz hsame
        exact hfresh (List.mem_map.mpr ⟨z, hz, by simpa using hsame⟩)
      rw [List.filter_cons_of_pos (by simp), hnone, List.flatMap_singleton]
    · have hne : ¬ y.1 = x.1 := fun hsame => hfresh (List.mem_map.mpr ⟨x, hx, hsame.symm⟩)
      rw [List.filter_cons_of_neg (by simpa using hne)]
      exact ih hnodup hx

end FileStream
