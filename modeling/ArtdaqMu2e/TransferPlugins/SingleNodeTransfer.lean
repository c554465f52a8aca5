import Mathlib.Data.Int.Notation
import Mathlib.Data.List.Induction
import Mathlib.Tactic.Common

/-!
# The transfer within a node

The constructor of `SingleNodeTransfer` looks for the hosts of its two ranks in the host map, and builds a transport
through shared memory if they are the same. A rank is on the host of its last entry (`lastHost`). One without an entry
leaves its string empty, as it was, and two empty strings are the same host: a pair of ranks is accepted also if the
host map has neither of them (`construct_spec`, `acceptsColocated_iff`).

`ShmemTransfer` belongs to artdaq: `shmemTransfer` is what its constructor returns.
-/

namespace ArtdaqMu2e

/-- An entry of the host map. Both keys may be absent. -/
structure HostEntry where
  rank : Option ℤ
  host : Option String
  deriving DecidableEq, Repr

structure SingleNodeTransfer (τ : Type*) where
  theTransfer : Option τ
  deriving DecidableEq, Repr

inductive ConstructError where
  /-- There is no `host_map` in the configuration. -/
  | noHostMap
  | notTheSameHost
  deriving DecidableEq, Repr

namespace SingleNodeTransfer

def entryRank (ps : HostEntry) : ℤ := ps.rank.getD (-1)

def entryHost (ps : HostEntry) : String := ps.host.getD "localhost"

section
variable {τ : Type*} (shmemTransfer : τ) (sourceRank destinationRank : ℤ)

/-- A round of the loop, on `srcHost` and `destHost`. -/
def findHosts (found : String × String) (ps : HostEntry) : String × String :=
  (if entryRank ps = sourceRank then entryHost ps else found.1,
    if entryRank ps = destinationRank then entryHost ps else found.2)

def construct : Option (List HostEntry) → Except ConstructError (SingleNodeTransfer τ)
  | none => .error .noHostMap
  | some hosts =>
    let found := hosts.foldl (findHosts sourceRank destinationRank) ("", "")
    if found.1 = found.2 then .ok ⟨some shmemTransfer⟩ else .error .notTheSameHost

/-! ### The host of a rank -/

/-- The host of a rank, if the host map has an entry for it: that of the last one. -/
def lastHost (rank : ℤ) (hosts : List HostEntry) : Option String :=
  ((hosts.filter fun ps => entryRank ps = rank).getLast?).map entryHost

@[simp] theorem lastHost_nil (rank : ℤ) : lastHost rank [] = none := rfl

theorem lastHost_concat (rank : ℤ) (hosts : List HostEntry) (ps : HostEntry) :
    lastHost rank (hosts ++ [ps]) = if entryRank ps = rank then some (entryHost ps) else lastHost rank hosts := by
  unfold lastHost
  by_cases hrank : entryRank ps = rank
  · simp [hrank]
  · simp [hrank]

theorem foldl_findHosts (hosts : List HostEntry) :
    hosts.foldl (findHosts sourceRank destinationRank) ("", "") =
      ((lastHost sourceRank hosts).getD "", (lastHost destinationRank hosts).getD "") := by
  induction hosts using List.reverseRecOn with
  | nil => rfl
  | append_singleton hosts ps ih =>
    rw [List.foldl_append, ih, List.foldl_cons, List.foldl_nil, findHosts, lastHost_concat, lastHost_concat]
    split_ifs <;> rfl

/-! ### Which pairs are accepted -/

theorem construct_spec (hosts : List HostEntry) :
    construct shmemTransfer sourceRank destinationRank (some hosts) =
      if (lastHost sourceRank hosts).getD "" = (lastHost destinationRank hosts).getD "" then .ok ⟨some shmemTransfer⟩
      else .error .notTheSameHost := by
  rw [construct, foldl_findHosts]

/-- Both ranks have an entry, and they are on the same host. -/
def Colocated (hosts : List HostEntry) : Prop :=
  ∃ host, lastHost sourceRank hosts = some host ∧ lastHost destinationRank hosts = some host

/-- What the constructor is for, on a pair of ranks. -/
structure AcceptsColocated (hosts : List HostEntry) : Prop where
  builds : Colocated sourceRank destinationRank hosts →
    construct shmemTransfer sourceRank destinationRank (some hosts) = .ok ⟨some shmemTransfer⟩
  throws : ¬ Colocated sourceRank destinationRank hosts →
    construct shmemTransfer sourceRank destinationRank (some hosts) = .error .notTheSameHost
  transport : ∀ transfer, construct shmemTransfer sourceRank destinationRank (some hosts) = .ok transfer →
    transfer.theTransfer = some shmemTransfer

/-- Both ranks have an entry, or one of them has, and its host is not the empty string. -/
def Listed (hosts : List HostEntry) : Prop :=
  match lastHost sourceRank hosts, lastHost destinationRank hosts with
  | none, none => False
  | some host, none => host ≠ ""
  | none, some host => host ≠ ""
  | some _, some _ => True

theorem listed_iff (hosts : List HostEntry) :
    Listed sourceRank destinationRank hosts ↔
      ((lastHost sourceRank hosts).getD "" = (lastHost destinationRank hosts).getD "" ↔
        Colocated sourceRank destinationRank hosts) := by
  unfold Listed Colocated
  cases lastHost sourceRank hosts with
  | none =>
    cases lastHost destinationRank hosts with
    | none => simp
    | some host => simp [eq_comm]
  | some host =>
    cases lastHost destinationRank hosts with
    | none => simp
    | some other => simp [eq_comm]

/-- **The constructor accepts exactly the pairs on one host** for the pairs that are listed: it is right about a pair
exactly if both ranks have an entry, or one has and its host is not the empty string. -/
theorem acceptsColocated_iff (hosts : List HostEntry) :
    AcceptsColocated shmemTransfer sourceRank destinationRank hosts ↔ Listed sourceRank destinationRank hosts := by
  rw [listed_iff]
  constructor
  · intro h
    by_cases hcolocated : Colocated sourceRank destinationRank hosts
    · refine iff_of_true ?_ hcolocated
      by_contra hdiffer
      have hbuilds := h.builds hcolocated
      rw [construct_spec, if_neg hdiffer] at hbuilds
      cases hbuilds
    · refine iff_of_false (fun hsame => ?_) hcolocated
      have hthrows := h.throws hcolocated
      rw [construct_spec, if_pos hsame] at hthrows
      cases hthrows
  · intro h
    refine ⟨fun hcolocated => ?_, fun hcolocated => ?_, fun transfer hok => ?_⟩
    · rw [construct_spec, if_pos (h.mpr hcolocated)]
    · rw [construct_spec, if_neg fun hsame => hcolocated (h.mp hsame)]
    · rw [construct_spec] at hok
      split_ifs at hok
      rw [← Except.ok.inj hok]

/-- With a host map for the ranks 0 and 1, the ranks 2 and 3 are on the same host. -/
theorem accepts_unlisted :
    let hosts : List HostEntry := [⟨some 0, some "mu2edaq01"⟩, ⟨some 1, some "mu2edaq02"⟩]
    lastHost 2 hosts = none ∧ lastHost 3 hosts = none ∧ construct () 2 3 (some hosts) = .ok ⟨some ()⟩ ∧
      ¬ AcceptsColocated () 2 3 hosts := by
  refine ⟨by decide, by decide, by decide, fun h => ?_⟩
  have hthrows := h.throws (by
    rintro ⟨host, hhost, -⟩
    cases hhost)
  revert hthrows
  decide

end

end SingleNodeTransfer

end ArtdaqMu2e
