import ArtdaqMu2e.System.RequestProtocol
import Mathlib.Data.Finset.Sort
import Mathlib.Order.Interval.Finset.Nat

/-!
# The bound of the request protocol

The memory of the receiver, the number of active requests and the delay of the messages fit together exactly: as long
as `max_request_count + maxDelay` is at most 1000, no request is read twice (`read_once`), and beyond that some are
(`read_once_iff`).

The run that shows it has 1001 events in a row, each one read at once. The receiver has forgotten the first of them
by then, and a message that held the first request, sent as late as possible, may still arrive.
-/

namespace ArtdaqMu2e

open Lists Runs

theorem exists_takenFrom (buffer : List (ℕ × ℕ)) : ∃ batch, TakenFrom buffer batch := by
  have hlookup : ∀ id ∈ (buffer.map (·.1)).toFinset.sort, ∃ ts, buffer.lookup id = some ts := by
    intro id hid
    obtain ⟨req, hreq, rfl⟩ := List.mem_map.mp (List.mem_toFinset.mp ((Finset.mem_sort _).mp hid))
    apply Option.isSome_iff_exists.mp
    rw [List.lookup_isSome_iff]
    exact ⟨req, hreq, beq_self_eq_true _⟩
  refine ⟨⟨(buffer.map (·.1)).toFinset.sort.map fun id => (id, (buffer.lookup id).getD 0), ?_⟩, fun req hreq => ?_,
    fun req hreq => ?_⟩
  · exact List.pairwise_map.mpr (Finset.sortedLT_sort _).pairwise
  · rw [List.map_map]
    refine List.mem_map.mpr ⟨req.1, ?_, rfl⟩
    exact (Finset.mem_sort _).mpr (List.mem_toFinset.mpr (List.mem_map_of_mem hreq))
  · obtain ⟨id, hid, rfl⟩ := List.mem_map.mp hreq
    obtain ⟨ts, hts⟩ := hlookup id hid
    obtain ⟨before, after, hsplit, -⟩ := List.lookup_eq_some_iff.mp hts
    rw [hts, hsplit]
    exact List.mem_append_right _ List.mem_cons_self

namespace RequestProtocol

variable {σ : Type*} {P : RequestProtocol σ}

/-- The headers of `n` events in a row. -/
def eventsUpTo (n : ℕ) : List RawEventHeader := (List.range' 1 n).map fun id => ⟨id, 0⟩

theorem eventsUpTo_succ (n : ℕ) : eventsUpTo (n + 1) = eventsUpTo n ++ [⟨n + 1, 0⟩] := by
  rw [eventsUpTo, List.range'_concat, List.map_append, eventsUpTo, Nat.one_mul, Nat.add_comm 1 n]
  rfl

/-- A call that takes a batch, with reads that deliver something. -/
def takes (batch : Requests) : CRVCall := ⟨false, some batch, CRVReceiver.eventFor⟩

theorem delivers_takes (batch : Requests) : Delivers (takes batch) := by
  intro id
  show (CRVReceiver.eventFor id).delivered ≠ []
  rw [Read.delivered_of_first rfl]
  exact List.cons_ne_nil _ _

/-- The first `n` events were read, and a message was sent after each of them. -/
structure ServedUpTo (n : ℕ) (st : RequestSystem σ) : Prop where
  reachable : P.Reachable Delivers st
  analyzed : st.analyzed = eventsUpTo n
  passed : ∀ id, 1 ≤ id → id ≤ n → id ∈ st.receiver.passed
  messages : ∀ sentAt, 1 ≤ sentAt → sentAt ≤ n → ∃ msg ∈ st.messages, msg.sentAt = sentAt

theorem exists_taken {st : RequestSystem σ} (h : P.Reachable Delivers st) {msg : RequestMessage}
    (hmsg : msg ∈ st.messages) (hdelay : st.analyzed.length ≤ msg.sentAt + P.maxDelay) :
    ∃ batch, (∀ req ∈ msg.requests, req.1 ∈ batch.entries.map (·.1)) ∧
      P.Reachable Delivers { st with
        buffer := []
        receiver := CRVReceiver.step P.layout P.cfg st.receiver (takes batch) } := by
  obtain ⟨batch, htaken⟩ := exists_takenFrom (st.buffer ++ msg.requests)
  refine ⟨batch, fun req hreq => htaken.keys req (List.mem_append_right _ hreq), ?_⟩
  exact (h.tail (.deliver msg hmsg hdelay)).tail (.getNext _ batch (delivers_takes batch) rfl htaken)

theorem mem_window_concat (hcount : 1 ≤ P.maxRequestCount) (hdrs : List RawEventHeader) (hdr : RawEventHeader) :
    hdr ∈ ((hdrs ++ [hdr]).take (hdrs ++ [hdr]).length).rtake P.maxRequestCount := by
  obtain ⟨m, hm⟩ := Nat.exists_eq_add_of_le' hcount
  rw [List.take_length, hm, List.rtake_concat_succ]
  exact List.mem_append_right _ List.mem_cons_self

theorem ServedUpTo.next (hcount : 1 ≤ P.maxRequestCount) {n : ℕ} {st : RequestSystem σ}
    (h : ServedUpTo (P := P) n st) : ∃ st', ServedUpTo (P := P) (n + 1) st' := by
  have hnew : ∀ old ∈ st.analyzed, old.sequenceID < n + 1 := by
    intro old hold
    rw [h.analyzed] at hold
    obtain ⟨id, hid, rfl⟩ := List.mem_map.mp hold
    have hrange := List.mem_range'_1.mp hid
    show id < n + 1
    omega
  have hsent := (h.reachable.tail (.analyze ⟨[some ⟨n + 1, 0⟩], ⟨0, 0⟩⟩ ⟨n + 1, 0⟩ rfl (Nat.succ_ne_zero n) hnew)).tail
    .send
  have hlast := (consistent_of_reachable hsent).messages _ (List.mem_append_right _ List.mem_cons_self)
  obtain ⟨batch, hkeys, hserved⟩ := exists_taken hsent (List.mem_append_right _ List.mem_cons_self)
    (Nat.le_add_right _ _)
  refine ⟨_, hserved, ?_, fun id hpos hle => ?_, fun sentAt hpos hle => ?_⟩
  · show st.analyzed ++ [_] = _
    rw [h.analyzed, eventsUpTo_succ]
  · rcases Nat.lt_or_eq_of_le hle with hlt | rfl
    · show id ∈ (CRVReceiver.step _ _ _ _).passed
      rw [passed_step]
      exact List.mem_append_left _ (h.passed id hpos (Nat.le_of_lt_succ hlt))
    · have hmem := (hlast.2 (n + 1, 0)).mpr (mem_window_concat hcount st.analyzed ⟨n + 1, 0⟩)
      obtain ⟨entry, hentry, hid⟩ := List.mem_map.mp (hkeys _ hmem)
      have hpassed := (consistent_of_reachable hsent).mem_passed_step (delivers_takes batch) rfl rfl hentry
      rwa [hid] at hpassed
  · rcases Nat.lt_or_eq_of_le hle with hlt | rfl
    · obtain ⟨msg, hmsg, hat⟩ := h.messages sentAt hpos (Nat.le_of_lt_succ hlt)
      exact ⟨msg, List.mem_append_left _ hmsg, hat⟩
    · refine ⟨_, List.mem_append_right _ List.mem_cons_self, ?_⟩
      show (st.analyzed ++ [_]).length = n + 1
      rw [h.analyzed, List.length_append, eventsUpTo, List.length_map, List.length_range']
      rfl

theorem exists_servedUpTo (hcount : 1 ≤ P.maxRequestCount) (n : ℕ) : ∃ st, ServedUpTo (P := P) n st := by
  induction n with
  | zero =>
    refine ⟨P.init, .refl, rfl, fun id hpos hle => ?_, fun sentAt hpos hle => ?_⟩
    · omega
    · omega
  | succ n ih =>
    obtain ⟨st, hst⟩ := ih
    exact hst.next hcount

theorem ServedUpTo.notMem_seen {st : RequestSystem σ} (h : ServedUpTo (P := P) 1001 st) :
    1 ∉ st.receiver.seenSequenceIds := by
  intro hseen
  obtain ⟨-, hcard⟩ := (consistent_of_reachable h.reachable).memory.isTop.mem_iff.mp hseen
  have habove : Finset.Icc 2 1001 ⊆ st.receiver.passed.toFinset.filter (1 < ·) := by
    intro id hid
    obtain ⟨hlow, hhigh⟩ := Finset.mem_Icc.mp hid
    exact Finset.mem_filter.mpr ⟨List.mem_toFinset.mpr (h.passed id (by omega) hhigh), by omega⟩
  have hle := Finset.card_le_card habove
  rw [Nat.card_Icc] at hle
  have hmax : sequenceIdListMaxSize = 1000 := rfl
  omega

theorem exists_read_twice (hcount : 1 ≤ P.maxRequestCount) (hbound : 1000 < P.maxRequestCount + P.maxDelay) :
    ∃ st, P.Reachable Delivers st ∧ ¬ st.receiver.passed.Nodup := by
  obtain ⟨st, hst⟩ := exists_servedUpTo (P := P) hcount 1001
  obtain ⟨msg, hmsg, hat⟩ := hst.messages (min P.maxRequestCount 1001) (by omega) (by omega)
  have hlength : st.analyzed.length = 1001 := by
    rw [hst.analyzed, eventsUpTo, List.length_map, List.length_range']
  have hfirst : (1, 0) ∈ msg.requests := by
    obtain ⟨-, hrequests⟩ := (consistent_of_reachable hst.reachable).messages msg hmsg
    refine (hrequests _).mpr ?_
    have hshort : (st.analyzed.take msg.sentAt).length ≤ P.maxRequestCount := by
      rw [List.length_take]
      omega
    rw [rtake_of_le hshort, hst.analyzed, hat]
    obtain ⟨k, hk⟩ : ∃ k, min P.maxRequestCount 1001 = k + 1 := Nat.exists_eq_add_of_le' (by omega)
    rw [hk, eventsUpTo, List.range'_succ, List.map_cons, List.take_succ_cons]
    exact List.mem_cons_self
  obtain ⟨batch, hkeys, hserved⟩ := exists_taken hst.reachable hmsg (by omega)
  refine ⟨_, hserved, fun hnodup => ?_⟩
  have hnodup : (CRVReceiver.step P.layout P.cfg st.receiver (takes batch)).passed.Nodup := hnodup
  obtain ⟨entry, hentry, hid⟩ := List.mem_map.mp (hkeys _ hfirst)
  have hagain : entry ∈ CRVReceiver.toRead P.cfg (takes batch) st.receiver := by
    refine mem_toRead (delivers_takes batch) rfl rfl hentry ?_
    rw [hid]
    exact hst.notMem_seen
  rw [passed_step] at hnodup
  refine List.disjoint_of_nodup_append hnodup (hst.passed 1 (le_refl _) (by decide)) ?_
  exact List.mem_map.mpr ⟨entry, hagain, hid⟩

/-- **The bound is exact**: no run reads a request twice if and only if the active requests and the events that a
message may be late by are at most 1000 together, whatever the reads do, as long as all calls whose reads deliver
something can come. -/
theorem read_once_iff (P : RequestProtocol σ) (hcount : 1 ≤ P.maxRequestCount) {ok : CRVCall → Prop}
    (hok : ∀ call, Delivers call → ok call) :
    (∀ st, P.Reachable ok st → st.receiver.passed.Nodup) ↔ P.maxRequestCount + P.maxDelay ≤ 1000 := by
  constructor
  · intro h
    by_contra hbound
    obtain ⟨st, hst, htwice⟩ := exists_read_twice hcount (Nat.lt_of_not_le hbound)
    exact htwice (h st (reachable_mono hok hst))
  · intro hbound st hst
    exact nodup_passed_of_reachable hbound hst

/-- A hundred active requests, and messages that are ten events late, or a thousand. -/
theorem read_once_iff_late :
    (∀ st, exampleProtocol.Reachable (fun _ => True) st → st.receiver.passed.Nodup) ∧
      ¬ ∀ st, { exampleProtocol with maxDelay := 1000 }.Reachable Delivers st → st.receiver.passed.Nodup :=
  ⟨(read_once_iff exampleProtocol (by decide) fun _ _ => trivial).mpr (by decide),
    fun h => absurd ((read_once_iff { exampleProtocol with maxDelay := 1000 } (by decide) fun _ hdelivers =>
      hdelivers).mp h) (by decide)⟩

end RequestProtocol

end ArtdaqMu2e
