import ArtdaqMu2e.Generators.Mu2eSubEventReceiver
import ArtdaqMu2e.Lib.Lists
import ArtdaqMu2e.Lib.Runs

/-!
# What the fragments of the sub-event receiver carry

A read may return sub-events of several event windows, and each one goes into a fragment of its own. But the tag
that goes into the header and into the timestamp is read once, from the first sub-event of the list. So the
fragment for each sub-event carries it under the tag of the first one (`run_spec`), and it is the sub-event's own
tag only in lists of one (`packs_iff`).
-/

namespace ArtdaqMu2e

open Lists Memory Runs

namespace Mu2eSubEventReceiver

/-- The fragments other than those of the sub-run transitions. -/
def dataFragments (st : Receiver) : List Fragment := st.frags.filter (·.type = .DTCEVT)

/-- The sub-events of a call, each with the tag used for it. -/
def labelled (call : SubEventCall) : List (DtcSubEvent × ℕ) := (delivered call).map (·, headTag call)

/-- The fragment keeps the identity of the sub-event. -/
def Packs {w : ℕ} (header : HeaderLayout w) (frag : Fragment) (subevt : DtcSubEvent) : Prop :=
  Carries header frag subevt subevt.eventWindowTag ∧ frag.timestamp = subevt.eventWindowTag

/-! ### A call -/

section call
variable {w : ℕ} (header : HeaderLayout w) (cfg : SubEventConfig)

theorem addSubEvents_spec (fresh : ℕ → (n : ℕ) → Area Byte n) {tsOut : ℕ} (htag : tsOut < 2 ^ 48) (i : ℕ)
    {subevts : List DtcSubEvent} (hfits : ∀ subevt ∈ subevts, header.size + subevt.rawBuffer.length < 2 ^ w)
    (st : Receiver) :
    ∃ new : List Fragment,
      dataFragments (addSubEvents header cfg fresh tsOut i subevts st) = dataFragments st ++ new ∧
        List.Forall₂ (fun frag x => Carries header frag x.1 x.2) new (subevts.map (·, tsOut)) ∧
        new.map (·.timestamp) = st.timestamps.stamps (subevts.map fun _ => tsOut) ∧
        (addSubEvents header cfg fresh tsOut i subevts st).timestamps =
          st.timestamps.after (subevts.map fun _ => tsOut) := by
  induction subevts generalizing i st with
  | nil => exact ⟨[], by simp [addSubEvents], List.Forall₂.nil, rfl, rfl⟩
  | cons subevt subevts ih =>
    obtain ⟨hfit, hfits⟩ := List.forall_mem_cons.mp hfits
    obtain ⟨new, hnew, hcarries, htimes, hstate⟩ :=
      ih (i + 1) hfits (addSubEvent header cfg fresh tsOut i subevt st)
    have hfirst := carries_subEventFragment header cfg fresh htag i hfit st
    refine ⟨subEventFragment header cfg fresh tsOut i subevt st :: new, ?_, ?_, ?_, hstate⟩
    · rw [addSubEvents, hnew]
      simp [dataFragments, addSubEvent, subEventFragment]
    · exact List.Forall₂.cons hfirst hcarries
    · rw [List.map_cons, htimes]
      rfl

theorem rollover_sendRequest (st : Receiver) :
    dataFragments (rollover cfg (sendRequest cfg st)) = dataFragments st ∧
      (rollover cfg (sendRequest cfg st)).timestamps = st.timestamps := by
  obtain ⟨hfrags, -, htimes⟩ := sendRequest_spec cfg st
  unfold rollover
  split_ifs
  · simp [dataFragments, createEndOfSubrunFragment, hfrags, htimes]
  · exact ⟨by rw [dataFragments, hfrags, dataFragments], htimes⟩

theorem step_spec {call : SubEventCall} (htag : headTag call < 2 ^ 48)
    (hfits : ∀ subevt ∈ delivered call, header.size + subevt.rawBuffer.length < 2 ^ w) (st : Receiver) :
    ∃ new : List Fragment,
      dataFragments (step header cfg st call) = dataFragments st ++ new ∧
        List.Forall₂ (fun frag x => Carries header frag x.1 x.2) new (labelled call) ∧
        new.map (·.timestamp) = st.timestamps.stamps ((labelled call).map (·.2)) ∧
        (step header cfg st call).timestamps = st.timestamps.after ((labelled call).map (·.2)) := by
  obtain ⟨hdata, htimes⟩ := rollover_sendRequest cfg st
  unfold step getNext
  by_cases hstop : call.shouldStop = true
  · have hnone : labelled call = [] := by simp [labelled, delivered, hstop]
    rw [if_pos hstop, hnone]
    exact ⟨[], by simp, List.Forall₂.nil, rfl, rfl⟩
  rw [if_neg hstop]
  cases hread : call.read.delivered with
  | nil =>
    have hnone : labelled call = [] := by simp [labelled, delivered, hread]
    simp only [getNextDTCFragment, hread, hnone]
    exact ⟨[], by simpa [dataFragments] using hdata, List.Forall₂.nil, rfl, htimes⟩
  | cons subevt subevts =>
    have hsome : delivered call = subevt :: subevts := by simp [delivered, hstop, hread]
    have hhead : headTag call = subevt.eventWindowTag := by simp [headTag, hsome]
    rw [hhead] at htag
    rw [hsome] at hfits
    obtain ⟨new, hnew, hcarries, hstamps, hstate⟩ := addSubEvents_spec header cfg call.read.fresh htag 0 hfits
      { rollover cfg (sendRequest cfg st) with
        getDataCalls := (rollover cfg (sendRequest cfg st)).getDataCalls ++ List.replicate call.read.calls 0 }
    have htags : (labelled call).map (·.2) = (subevt :: subevts).map fun _ => subevt.eventWindowTag := by
      rw [labelled, hsome, hhead, List.map_map]
      rfl
    simp only [getNextDTCFragment, hread]
    refine ⟨new, hnew.trans (congrArg (· ++ new) hdata), ?_, ?_, ?_⟩
    · rw [labelled, hsome, hhead]
      exact hcarries
    · rw [hstamps, htags, htimes]
    · rw [hstate, htags, htimes]

end call

/-! ### A run -/

section run
variable {w : ℕ} (header : HeaderLayout w) (cfg : SubEventConfig)

/-- Every sub-event of a run is carried under the tag of the first one of its read, and the timestamps are those of
these tags. -/
theorem run_spec {calls : List SubEventCall} (htags : ∀ call ∈ calls, headTag call < 2 ^ 48)
    (hfits : ∀ call ∈ calls, ∀ subevt ∈ delivered call, header.size + subevt.rawBuffer.length < 2 ^ w)
    (st : Receiver) :
    ∃ new : List Fragment,
      dataFragments (run (step header cfg) st calls) = dataFragments st ++ new ∧
        List.Forall₂ (fun frag x => Carries header frag x.1 x.2) new (calls.flatMap labelled) ∧
        new.map (·.timestamp) = st.timestamps.stamps ((calls.flatMap labelled).map (·.2)) := by
  induction calls generalizing st with
  | nil => exact ⟨[], by simp, List.Forall₂.nil, rfl⟩
  | cons call calls ih =>
    obtain ⟨htag, htags⟩ := List.forall_mem_cons.mp htags
    obtain ⟨hfit, hfits⟩ := List.forall_mem_cons.mp hfits
    obtain ⟨new, hnew, hcarries, hstamps, hstate⟩ := step_spec header cfg htag hfit st
    obtain ⟨rest, hrest, hcarries', hstamps'⟩ := ih htags hfits (step header cfg st call)
    refine ⟨new ++ rest, ?_, ?_, ?_⟩
    · rw [run_cons, hrest, hnew, List.append_assoc]
    · rw [List.flatMap_cons]
      exact List.rel_append hcarries hcarries'
    · rw [List.map_append, hstamps, hstamps', hstate, List.flatMap_cons, List.map_append,
        TimestampState.stamps_append]

end run

/-! ### Whose tag it is -/

theorem labelled_own_iff {call : SubEventCall}
    (hinc : ((delivered call).map (·.eventWindowTag)).Pairwise (· < ·)) :
    (∀ x ∈ labelled call, x.2 = x.1.eventWindowTag) ↔ (delivered call).length ≤ 1 := by
  unfold labelled headTag
  match hread : delivered call with
  | [] => simp
  | [subevt] => simp
  | first :: second :: rest =>
    rw [hread] at hinc
    have hlt : first.eventWindowTag < second.eventWindowTag :=
      (List.pairwise_cons.mp hinc).1 _ (by simp)
    refine ⟨fun h => ?_, fun h => absurd h (by simp)⟩
    have hown := h (second, first.eventWindowTag) (by simp)
    exact absurd hown (Nat.ne_of_lt hlt)

theorem map_fst_labelled (calls : List SubEventCall) :
    (calls.flatMap labelled).map (·.1) = calls.flatMap delivered := by
  simp [List.map_flatMap, labelled, List.map_map, Function.comp_def]

theorem labelled_run_own_iff {calls : List SubEventCall}
    (hinc : ((calls.flatMap delivered).map (·.eventWindowTag)).Pairwise (· < ·)) :
    (∀ x ∈ calls.flatMap labelled, x.2 = x.1.eventWindowTag) ↔ ∀ call ∈ calls, (delivered call).length ≤ 1 := by
  rw [List.map_flatMap, List.pairwise_flatMap] at hinc
  rw [List.forall_mem_flatMap]
  exact forall₂_congr fun call hcall => labelled_own_iff (hinc.1 call hcall)

theorem labelled_eq_of_own {calls : List SubEventCall}
    (hown : ∀ x ∈ calls.flatMap labelled, x.2 = x.1.eventWindowTag) :
    calls.flatMap labelled = (calls.flatMap delivered).map fun subevt => (subevt, subevt.eventWindowTag) := by
  rw [← map_fst_labelled, List.map_map]
  refine (List.map_id _).symm.trans (List.map_congr_left fun x hx => ?_)
  exact Prod.ext rfl (hown x hx)

theorem headTag_lt {call : SubEventCall} (hbound : ∀ subevt ∈ delivered call, subevt.eventWindowTag < 2 ^ 48) :
    headTag call < 2 ^ 48 := by
  unfold headTag
  cases hread : delivered call with
  | nil => simp
  | cons subevt subevts => exact hbound subevt (by simp [hread])

/-- **The sub-events keep their identity exactly in lists of one.** For every run with increasing tags, each
fragment carries its sub-event under the sub-event's own tag, in the header and as its timestamp, if and only if
no read delivers more than one sub-event. -/
theorem packs_iff {w : ℕ} (header : HeaderLayout w) (cfg : SubEventConfig) {calls : List SubEventCall}
    (hinc : ((calls.flatMap delivered).map (·.eventWindowTag)).Pairwise (· < ·))
    (hbound : ∀ subevt ∈ calls.flatMap delivered,
      1 ≤ subevt.eventWindowTag ∧ subevt.eventWindowTag < 2 ^ 48)
    (hfits : ∀ subevt ∈ calls.flatMap delivered, header.size + subevt.rawBuffer.length < 2 ^ w) :
    List.Forall₂ (Packs header) (dataFragments (run (step header cfg) Receiver.init calls))
        (calls.flatMap delivered) ↔
      ∀ call ∈ calls, (delivered call).length ≤ 1 := by
  have hmem : ∀ call ∈ calls, ∀ subevt ∈ delivered call, subevt ∈ calls.flatMap delivered :=
    fun call hcall subevt hsub => List.mem_flatMap.mpr ⟨call, hcall, hsub⟩
  have htags : ∀ call ∈ calls, headTag call < 2 ^ 48 := fun call hcall =>
    headTag_lt fun subevt hsub => (hbound subevt (hmem call hcall subevt hsub)).2
  obtain ⟨new, hnew, hcarries, hstamps⟩ := run_spec header cfg htags
    (fun call hcall subevt hsub => hfits subevt (hmem call hcall subevt hsub)) Receiver.init
  rw [← labelled_run_own_iff hinc, hnew]
  show List.Forall₂ _ new _ ↔ _
  constructor
  · -- a fragment carries its sub-event under one tag only
    intro hpacks
    rw [← map_fst_labelled, List.forall₂_map_right_iff] at hpacks
    exact forall_of_forall₂ (fun frag x hc hp => hc.tag_unique hp.1) hcarries hpacks
  · intro hown
    have hsame := labelled_eq_of_own hown
    have habove : ∀ tag ∈ (calls.flatMap delivered).map (·.eventWindowTag),
        TimestampState.init.highestTimestampSeen < tag := by
      intro tag htag
      obtain ⟨subevt, hsub, rfl⟩ := List.mem_map.mp htag
      exact (hbound subevt hsub).1
    have htimes : new.map (·.timestamp) = (calls.flatMap delivered).map (·.eventWindowTag) := by
      rw [hstamps, hsame, List.map_map]
      exact (TimestampState.stamps_of_increasing hinc habove).1
    rw [hsame, List.forall₂_map_right_iff] at hcarries
    exact forall₂_of_map_eq (fun frag subevt hc htime => ⟨hc, htime⟩) hcarries htimes

/-- A receiver that starts no sub-runs. -/
def packingConfig : SubEventConfig := ⟨⟨0, .disabled, false, 16, 0, 1⟩, 0, 0⟩

theorem packs_iff_two :
    let calls : List SubEventCall := [⟨false, Read.ofEvents [⟨5, [1, 2]⟩]⟩, ⟨false, Read.ofEvents [⟨6, [3]⟩]⟩]
    List.Forall₂ (Packs .packed) (dataFragments (run (step .packed packingConfig) Receiver.init calls))
      (calls.flatMap delivered) :=
  (packs_iff .packed packingConfig (by decide) (by decide) (by decide)).mpr (by decide)

theorem timestamps_of_packs {w : ℕ} {header : HeaderLayout w} {frags : List Fragment}
    {subevts : List DtcSubEvent} (h : List.Forall₂ (Packs header) frags subevts) :
    frags.map (·.timestamp) = subevts.map (·.eventWindowTag) := by
  induction h with
  | nil => rfl
  | cons hpacks _ ih => rw [List.map_cons, List.map_cons, hpacks.2, ih]

/-- One read returns the sub-events of the windows 5 and 6: both fragments have the tag 5 in their headers. -/
theorem packs_first_tag :
    let calls : List SubEventCall := [⟨false, Read.ofEvents [⟨5, [1, 2]⟩, ⟨6, [3]⟩]⟩]
    let frags := dataFragments (run (step .packed packingConfig) Receiver.init calls)
    ((calls.flatMap delivered).map (·.eventWindowTag) = [5, 6]) ∧
      frags.map (fun frag => (HeaderLayout.packed.decode frag.dataArea).eventWindowTag) = [5, 5] ∧
      frags.map (·.timestamp) = [5, 5] ∧
      ¬ List.Forall₂ (Packs .packed) frags (calls.flatMap delivered) := by
  refine ⟨by decide, by decide, by decide, ?_⟩
  intro hpacks
  have htimes := timestamps_of_packs hpacks
  revert htimes
  decide

end Mu2eSubEventReceiver

end ArtdaqMu2e
