import XdebugFst.Waveform.ReadPaths

/-!
# Sampling before an edge

`sampled_value_at` with the point `Before` has a branch of its own: when the index carries a change
it reads the entry in front of the first delta of the index. That should be what the point `Raw`
reads one index earlier, the last delta of the time before.

The number of deltas at one time is kept in 16 bits, so that both points fail on a multiple of
`2 ^ 16` deltas, and `Raw` reads an inner delta when there are more. `before_eq_raw_iff` says for
which lists of changes the two still agree.
-/

namespace XdebugFst.Waveform

open Lib Lib.History

/-! ### Samples of a list of changes -/

/-- The text that a sample of a list of changes shows. -/
def sampleText (cs : List Change) (timeIdx : ℕ) (point : ObservationPoint) : Option String :=
  (sampledValue (fun start element => (cs[start + element]?).map Change.value)
    (offsetAt cs timeIdx) timeIdx point).map fun sample => sample.value.text

/-- Counting in 16 bits does not matter at `timeIdx`: nothing changes there, or nothing changed
before, or the numbers of deltas there and at the time before are both multiples of `2 ^ 16`, or
neither is and the delta that counts as the last one of the time before has the text of the last. -/
def Settled (cs : List Change) (timeIdx : ℕ) : Prop :=
  deltasAt cs timeIdx = [] ∨
    ∀ last ∈ lastWhere (fun c => c.timeIdx < timeIdx) cs,
      (2 ^ 16 ∣ (deltasAt cs timeIdx).length ∧ countedLast (deltasAt cs last.timeIdx) = none) ∨
        (¬ 2 ^ 16 ∣ (deltasAt cs timeIdx).length ∧
          (countedLast (deltasAt cs last.timeIdx)).map Change.text = some last.text)

section Samples

variable {cs pre grp post : List Change} {timeIdx g : ℕ}

lemma sampleText_eq_none (h : ∀ c ∈ cs, timeIdx < c.timeIdx) (point : ObservationPoint) :
    sampleText cs timeIdx point = none := by
  rw [sampleText, offsetAt_eq_none h]
  rfl

/-- The branch that the points share reads the delta that counts as the last one. -/
lemma sampleText_of_group (h : IsLastGroup Change.timeIdx timeIdx cs pre grp post g)
    {point : ObservationPoint} (hpoint : ¬ (point = .before ∧ g = timeIdx)) :
    sampleText cs timeIdx point = (countedLast grp).map Change.text := by
  have hvalue := congrArg (Option.map WaveformValue.text)
    (sampledValue_of_group (fun _ _ => rfl) h hpoint)
  rw [Option.map_map, Option.map_map] at hvalue
  exact hvalue

/-- At a change the point before it reads the entry in front of the deltas. -/
lemma sampleText_before (h : IsLastGroup Change.timeIdx timeIdx cs pre grp post timeIdx) :
    sampleText cs timeIdx .before =
      if 2 ^ 16 ∣ grp.length then none else pre.getLast?.map Change.text := by
  have hvalue := congrArg (Option.map WaveformValue.text) (sampledValue_before (fun _ _ => rfl) h)
  rw [Option.map_map, apply_ite (Option.map WaveformValue.text), Option.map_map] at hvalue
  exact hvalue

/-- The last group before a time is the last group up to the index before. -/
lemma isLastGroup_pred (h : IsLastGroup Change.timeIdx timeIdx cs pre grp post g)
    (hg : g ≠ timeIdx) : IsLastGroup Change.timeIdx (timeIdx - 1) cs pre grp post g := by
  have hle := h.le
  exact ⟨h.eq, h.nonempty, by omega, h.before, h.same, fun c hc => by have := h.after c hc; omega⟩

/-- No change stands at an index that the last group does not stand at. -/
lemma deltasAt_eq_nil (h : IsLastGroup Change.timeIdx timeIdx cs pre grp post g)
    (hg : g ≠ timeIdx) : deltasAt cs timeIdx = [] := by
  have hle := h.le
  refine List.filter_eq_nil_iff.2 fun c hc => ?_
  rw [decide_eq_true_eq]
  rw [h.eq, List.mem_append, List.mem_append] at hc
  rcases hc with hc | hc | hc
  · have := h.before c hc
    omega
  · have := h.same c hc
    omega
  · have := h.after c hc
    omega

lemma lastWhere_lt_eq (hpos : 0 < timeIdx) :
    lastWhere (fun c : Change => c.timeIdx < timeIdx) cs =
      lastWhere (fun c : Change => c.timeIdx ≤ timeIdx - 1) cs := by
  refine congrArg (fun p => lastWhere p cs) (funext fun c => decide_eq_decide.2 ?_)
  omega

/-- At a change, with the last entry before it. -/
lemma sampleText_before_iff_of_change
    (hsorted : cs.Pairwise fun a b => a.timeIdx ≤ b.timeIdx) (hpos : 0 < timeIdx)
    (h : IsLastGroup Change.timeIdx timeIdx cs pre (deltasAt cs timeIdx) post timeIdx) :
    sampleText cs timeIdx .before = sampleText cs (timeIdx - 1) .raw ↔ Settled cs timeIdx := by
  have hpre : pre.getLast? = lastWhere (fun c => c.timeIdx < timeIdx) cs :=
    (h.lastWhere_lt.trans (if_pos rfl)).symm
  rw [sampleText_before h, hpre, Settled, or_iff_right h.nonempty]
  cases hprev : lastWhere (fun c => c.timeIdx < timeIdx) cs with
  | none =>
      rw [lastWhere_lt_eq hpos] at hprev
      rw [sampleText_eq_none (lastWhere_eq_none_iff.1 hprev), Option.map_none, ite_self]
      simp
  | some last =>
      rw [lastWhere_lt_eq hpos] at hprev
      have hraw := @sampleText_of_group _ _ _ _ _ _ (exists_isLastGroup hsorted hprev) .raw
        fun hp => by cases hp.1
      rw [hraw, Option.map_some]
      simp only [Option.mem_some_iff, forall_eq']
      by_cases hdvd : 2 ^ 16 ∣ (deltasAt cs timeIdx).length
      · rw [if_pos hdvd, eq_comm, Option.map_eq_none_iff]
        exact ⟨fun hnone => Or.inl ⟨hdvd, hnone⟩, fun hor => (hor.resolve_right (·.1 hdvd)).2⟩
      · rw [if_neg hdvd, eq_comm]
        exact ⟨fun heq => Or.inr ⟨hdvd, heq⟩, fun hor => (hor.resolve_left (hdvd ·.1)).2⟩

lemma sampleText_before_iff (hsorted : cs.Pairwise fun a b => a.timeIdx ≤ b.timeIdx)
    (hpos : 0 < timeIdx) :
    sampleText cs timeIdx .before = sampleText cs (timeIdx - 1) .raw ↔ Settled cs timeIdx := by
  cases hlast : lastWhere (fun c => c.timeIdx ≤ timeIdx) cs with
  | none =>
      have hlt := lastWhere_eq_none_iff.1 hlast
      have hnil : deltasAt cs timeIdx = [] := List.filter_eq_nil_iff.2 fun c hc => by
        simpa using (hlt c hc).ne'
      refine iff_of_true ?_ (Or.inl hnil)
      rw [sampleText_eq_none hlt,
        sampleText_eq_none fun c hc => (Nat.sub_le timeIdx 1).trans_lt (hlt c hc)]
  | some last =>
      have h := exists_isLastGroup hsorted hlast
      by_cases hg : last.timeIdx = timeIdx
      · rw [hg] at h
        exact sampleText_before_iff_of_change hsorted hpos h
      · refine iff_of_true ?_ (Or.inl (deltasAt_eq_nil h hg))
        rw [sampleText_of_group h fun hp => hg hp.2,
          sampleText_of_group (isLastGroup_pred h hg) fun hp => by cases hp.1]

/-- Fewer than `2 ^ 16` deltas at each time are enough. -/
lemma IsHistory.settled (h : IsHistory cs) (hpos : 0 < timeIdx) : Settled cs timeIdx := by
  have hlength : ∀ g, (deltasAt cs g).length < 2 ^ 16 := fun g => by
    rw [deltasAt, ← List.countP_eq_length_filter]
    exact h.deltas_lt g
  rcases List.eq_nil_or_concat (deltasAt cs timeIdx) with hnil | hcons
  · exact Or.inl hnil
  · refine Or.inr fun last hlast => Or.inr ⟨fun hdvd => ?_, ?_⟩
    · have hzero := Nat.eq_zero_of_dvd_of_lt hdvd (hlength timeIdx)
      obtain ⟨init, delta, heq⟩ := hcons
      rw [heq] at hzero
      simp at hzero
    · rw [Option.mem_def, lastWhere_lt_eq hpos] at hlast
      have hgroup := (exists_isLastGroup h.sorted hlast).lastWhere_le
      rw [hlast] at hgroup
      rw [countedLast_eq_getLast? (hlength _), deltasAt, ← hgroup, Option.map_some]

end Samples

/-! ### Samples of the backend -/

namespace Wellen

/-- What the C interface promises about a signal that is loaded, with any number of deltas at one
time: its offsets keep the number of deltas in 16 bits. -/
structure LoadedChanges (capi : Capi) (st : Wellen) (ref : ℕ) (cs : List Change) : Prop where
  loaded : ref ∈ st.loaded
  sorted : cs.Pairwise fun a b => a.timeIdx ≤ b.timeIdx
  /-- `num_changes` is a `uint32_t`. -/
  count_lt : cs.length < 2 ^ 32
  indices : capi.timeIndices ref = some (cs.map Change.timeIdx)
  values : ∀ start element, capi.typedValue ref start element =
    (cs[start + element]?).map Change.value
  offset : ∀ timeIdx, IsOffset cs timeIdx (capi.signalOffset ref timeIdx)

/-- The changes of a signal of the waveform, or of a packed selection on one. -/
def HasChanges (capi : Capi) (st : Wellen) (ref : ℕ) (cs : List Change) : Prop :=
  (st.packedSelection ref = none ∧ LoadedChanges capi st ref cs) ∨
    ∃ sel base, st.packedSelection ref = some sel ∧ LoadedChanges capi st sel.baseRef base ∧
      cs = (st.computeSelected capi sel).getD []

variable {capi : Capi} {tables : Tables} {st : Wellen} {ref : ℕ} {cs : List Change}

lemma HasChanges.sorted (h : HasChanges capi st ref cs) :
    cs.Pairwise fun a b => a.timeIdx ≤ b.timeIdx := by
  rcases h with ⟨-, h⟩ | ⟨sel, base, -, h, rfl⟩
  · exact h.sorted
  · exact List.pairwise_map.1
      ((List.pairwise_map.2 h.sorted).sublist (computeSelected_sublist st h.indices))

/-- Sampling a signal samples its list of changes. -/
lemma HasChanges.sampledValueAt_eq (h : HasChanges capi st ref cs) (hinv : Inv capi st)
    (timeIdx : ℕ) (point : ObservationPoint) :
    (st.sampledValueAt capi ref timeIdx point).1 =
      sampledValue (fun start element => (cs[start + element]?).map Change.value)
        (offsetAt cs timeIdx) timeIdx point := by
  rcases h with ⟨hsel, h⟩ | ⟨sel, base, hsel, h, rfl⟩
  · have hoffset : capi.signalOffset ref timeIdx = offsetAt cs timeIdx := by
      rcases h.offset timeIdx with ⟨hnone, hlt⟩ | ⟨pre, grp, post, g, hgrp, hsome⟩
      · rw [hnone, offsetAt_eq_none hlt]
      · rw [hsome, offsetAt_of_isLastGroup hgrp]
    have hloaded : st.loaded.contains ref = true := by simpa using h.loaded
    rw [sampledValueAt_native hsel]
    simp only [hloaded, if_true, hoffset, nativeTypedValueAt, h.values]
  · rw [(hinv.sampledValueAt hsel timeIdx point).1]

lemma HasChanges.sampledValueAt (h : HasChanges capi st ref cs) (hinv : Inv capi st)
    (timeIdx : ℕ) (point : ObservationPoint) :
    (st.sampledValueAt capi ref timeIdx point).1.map (fun sample => sample.value.text) =
      sampleText cs timeIdx point := by
  rw [h.sampledValueAt_eq hinv, sampleText]

end Wellen

/-- In every state that calls lead to, sampling a loaded signal before an index is reading it one
index earlier exactly if counting the deltas in 16 bits does not matter there. -/
theorem before_eq_raw_iff (capi : Capi) (tables : Tables) (st : Wellen) (ref : ℕ)
    (cs : List Change) (hst : Wellen.Reachable capi tables st)
    (h : Wellen.HasChanges capi st ref cs) (timeIdx : ℕ) (hpos : 0 < timeIdx) :
    (st.sampledValueAt capi ref timeIdx .before).1.map (fun sample => sample.value.text) =
        (st.sampledValueAt capi ref (timeIdx - 1) .raw).1.map (fun sample => sample.value.text) ↔
      Settled cs timeIdx := by
  rw [h.sampledValueAt hst.inv, h.sampledValueAt hst.inv]
  exact sampleText_before_iff h.sorted hpos

/-- Before the deltas of the index 5, the selection `bus[1:0]` of `busState` reads what it is at the
index 4. -/
theorem busState_before :
    Wellen.Reachable busCapi busTables busState ∧
      ((busState.sampledValueAt busCapi (kVirtualSignalFlag + 1) 5 .before).1.map
          (fun sample => sample.value.text) =
        (busState.sampledValueAt busCapi (kVirtualSignalFlag + 1) 4 .raw).1.map
          (fun sample => sample.value.text) ↔
        Settled ((busState.computeSelected busCapi ⟨1, 3, 0, 1, 0, 2⟩).getD []) 5) :=
  ⟨busState_reachable, before_eq_raw_iff _ _ _ _ _ busState_reachable
    (Or.inr ⟨_, _, busState_packedSelection,
      { loaded := busState_loaded.loaded
        sorted := busState_loaded.sorted
        count_lt := busState_loaded.count_lt
        indices := busState_loaded.indices
        values := busState_loaded.values
        offset := busState_loaded.offset }, rfl⟩) 5 (by decide)⟩

/-! ### A glitch -/

/-- A list without repetitions loses nothing. -/
lemma dedup_eq_self {α β : Type} [DecidableEq β] {f : α → β} {l : List α}
    (h : l.IsChain fun a b => f a ≠ f b) (prev : Option β) (hprev : ∀ a ∈ l.head?, prev ≠ some (f a)) :
    dedup f prev l = l := by
  induction l generalizing prev with
  | nil => rfl
  | cons a l ih =>
      rw [dedup, if_neg (hprev a rfl)]
      refine congrArg (a :: ·) (ih h.tail _ fun b hb heq => ?_)
      cases l with
      | nil => cases hb
      | cons c l =>
          obtain rfl : c = b := Option.some.inj hb
          exact (List.isChain_cons_cons.1 h).1 (Option.some.inj heq)

/-- A change at the index 0 and `2 ^ 16` deltas at the index 1, between two texts. -/
def glitch (low high : String) : List Change :=
  (List.range (2 ^ 16 + 1)).map fun i =>
    { timeIdx := min i 1, value := { text := if i % 2 = 0 then low else high } }

/-- A waveform with one signal. -/
def oneSignalCapi (cs : List Change) : Capi where
  hasInfo ref := ref = 1
  timeIndices ref := if ref = 1 then some (cs.map Change.timeIdx) else none
  typedValue ref start element := if ref = 1 then (cs[start + element]?).map Change.value else none
  signalOffset ref timeIdx := if ref = 1 then offsetAt cs timeIdx else none

lemma oneSignalCapi_timeIndices (cs : List Change) :
    (oneSignalCapi cs).timeIndices 1 = some (cs.map Change.timeIdx) := rfl

lemma oneSignalCapi_typedValue (cs : List Change) (start element : ℕ) :
    (oneSignalCapi cs).typedValue 1 start element = (cs[start + element]?).map Change.value := rfl

lemma oneSignalCapi_signalOffset (cs : List Change) (timeIdx : ℕ) :
    (oneSignalCapi cs).signalOffset 1 timeIdx = offsetAt cs timeIdx := rfl

def glitchState : Wellen :=
  Wellen.run (oneSignalCapi (glitch "0000" "0001")) (OrderedMap.empty.insert "bus" 1)
    (OrderedMap.empty.insert "bus" ⟨3, 0, 4⟩)
    [.createPackedSelection "bus[1:0]", .loadSignals [kVirtualSignalFlag + 1]]

lemma glitchState_packedSelection :
    glitchState.packedSelection (kVirtualSignalFlag + 1) = some ⟨1, 3, 0, 1, 0, 2⟩ := by
  decide +kernel

lemma glitchState_loaded : 1 ∈ glitchState.loaded := by
  decide +kernel

lemma glitch_sorted (low high : String) :
    (glitch low high).Pairwise fun a b => a.timeIdx ≤ b.timeIdx := by
  refine List.pairwise_map.2 (List.pairwise_lt_range.imp fun h => ?_)
  dsimp only
  omega

/-- The selection has the deltas of the bus. -/
lemma glitchState_computeSelected :
    glitchState.computeSelected (oneSignalCapi (glitch "0000" "0001")) ⟨1, 3, 0, 1, 0, 2⟩ =
      some (glitch "00" "01") := by
  have hinfo : glitchState.hasInfo (oneSignalCapi (glitch "0000" "0001")) 1 = true := by
    rw [Wellen.hasInfo, List.contains_iff_mem.2 glitchState_loaded]
    rfl
  have hselect : ∀ c ∈ glitch "0000" "0001", ∃ text,
      selectPackedBits ⟨1, 3, 0, 1, 0, 2⟩ c.value.text = some text := by
    intro c hc
    obtain ⟨i, -, rfl⟩ := List.mem_map.1 hc
    dsimp only
    split_ifs
    · exact ⟨"00", by decide +kernel⟩
    · exact ⟨"01", by decide +kernel⟩
  have hloop := selectLoop_eq (fun ordinal =>
      glitchState.nativeTypedValueAt (oneSignalCapi (glitch "0000" "0001")) 1 ordinal 0)
    ⟨1, 3, 0, 1, 0, 2⟩ (glitch "0000" "0001") 0 [] ""
    (fun i c hc => by
      rw [Wellen.nativeTypedValueAt, if_pos (List.contains_iff_mem.2 glitchState_loaded)]
      rw [oneSignalCapi_typedValue, Nat.zero_add, Nat.add_zero, hc, Option.map_some])
    (fun c hc => by
      obtain ⟨i, -, rfl⟩ := List.mem_map.1 hc
      rfl) hselect
  have hmap : (glitch "0000" "0001").map (selectChange ⟨1, 3, 0, 1, 0, 2⟩) =
      glitch "00" "01" := by
    rw [glitch, List.map_map, glitch]
    refine List.map_congr_left fun i _ => ?_
    have htext : (selectPackedBits ⟨1, 3, 0, 1, 0, 2⟩ (if i % 2 = 0 then "0000" else "0001")).getD
        "" = if i % 2 = 0 then "00" else "01" := by
      split_ifs
      · decide +kernel
      · decide +kernel
    exact congrArg (fun text => Change.mk (min i 1) { text := text }) htext
  have hchain : (glitch "00" "01").IsChain fun a b => Change.text a ≠ Change.text b := by
    rw [glitch, List.isChain_map, List.isChain_range_succ]
    intro i _
    -- the parity of the index alternates
    rcases Nat.mod_two_eq_zero_or_one i with h | h
    · have hsucc : i.succ % 2 = 1 := by omega
      simp [Change.text, h, hsucc]
    · have hsucc : i.succ % 2 = 0 := by omega
      simp [Change.text, h, hsucc]
  rw [Wellen.computeSelected, if_pos hinfo, Wellen.nativeTimeIndicesOf, if_pos hinfo,
    oneSignalCapi_timeIndices, Option.getD_some]
  rw [List.isEmpty_nil] at hloop
  rw [hloop, hmap, List.nil_append, dedup_eq_self hchain _ fun a _ h => by cases h]

lemma glitch_cons (low high : String) : glitch low high = { timeIdx := 0, value := { text := low } } ::
    (List.range (2 ^ 16)).map fun i =>
      { timeIdx := 1, value := { text := if (i + 1) % 2 = 0 then low else high } } := by
  rw [glitch, List.range_succ_eq_map, List.map_cons, List.map_map]
  refine congrArg₂ List.cons rfl (List.map_congr_left fun i _ => ?_)
  show Change.mk (min (i + 1) 1) _ = _
  rw [Nat.min_eq_right (Nat.le_add_left 1 i)]

/-- The time before the glitch has one delta, which is not counted away. -/
lemma glitch_not_settled (low high : String) : ¬ Settled (glitch low high) 1 := by
  set tail : List Change := (List.range (2 ^ 16)).map fun i =>
    { timeIdx := 1, value := { text := if (i + 1) % 2 = 0 then low else high } } with htail
  have htimes : ∀ c ∈ tail, c.timeIdx = 1 := by
    intro c hc
    obtain ⟨i, -, rfl⟩ := List.mem_map.1 hc
    rfl
  have hdeltas : deltasAt (glitch low high) 1 = tail := by
    rw [glitch_cons, deltasAt, List.filter_cons_of_neg (by simp)]
    exact List.filter_eq_self.2 fun c hc => decide_eq_true (htimes c hc)
  have hfirst : ∀ p : Change → Bool, p { timeIdx := 0, value := { text := low } } = true →
      (∀ c ∈ tail, p c = false) →
      (glitch low high).filter p = [{ timeIdx := 0, value := { text := low } }] := by
    intro p hp hall
    rw [glitch_cons, List.filter_cons_of_pos hp]
    exact congrArg _ (List.filter_eq_nil_iff.2 fun c hc => by rw [hall c hc]; exact Bool.false_ne_true)
  have hlength : (deltasAt (glitch low high) 1).length = 2 ^ 16 := by
    rw [hdeltas, htail, List.length_map, List.length_range]
  rintro (hnil | hsettled)
  · rw [hnil] at hlength
    cases hlength
  · have hlast : lastWhere (fun c : Change => c.timeIdx < 1) (glitch low high) =
        some { timeIdx := 0, value := { text := low } } := by
      rw [lastWhere, hfirst _ rfl fun c hc => decide_eq_false (htimes c hc).ge.not_gt]
      rfl
    have hzero : deltasAt (glitch low high) 0 = [{ timeIdx := 0, value := { text := low } }] :=
      hfirst _ rfl fun c hc => decide_eq_false (by rw [htimes c hc]; exact Nat.one_ne_zero)
    rcases hsettled _ hlast with ⟨-, hnone⟩ | ⟨hdvd, -⟩
    · dsimp only at hnone
      rw [hzero] at hnone
      cases hnone
    · exact hdvd (dvd_of_eq hlength.symm)

/-- After `2 ^ 16` deltas at one time, the sample before them fails, although there is a value. -/
theorem glitch_before_ne_raw : ¬ ∀ (capi : Capi) (tables : Tables) (st : Wellen) (ref : ℕ)
    (cs : List Change), Wellen.Reachable capi tables st → Wellen.HasChanges capi st ref cs →
    ∀ timeIdx, 0 < timeIdx →
      (st.sampledValueAt capi ref timeIdx .before).1.map (fun sample => sample.value.text) =
        (st.sampledValueAt capi ref (timeIdx - 1) .raw).1.map
          (fun sample => sample.value.text) := by
  intro h
  have hchanges : Wellen.HasChanges (oneSignalCapi (glitch "0000" "0001")) glitchState
      (kVirtualSignalFlag + 1)
      (glitch "00" "01") := by
    refine Or.inr ⟨_, glitch "0000" "0001", glitchState_packedSelection, ?_, ?_⟩
    · exact
        { loaded := glitchState_loaded
          sorted := glitch_sorted _ _
          count_lt := by rw [glitch, List.length_map, List.length_range]; decide
          indices := oneSignalCapi_timeIndices _
          values := oneSignalCapi_typedValue _
          offset := fun timeIdx => by
            rw [oneSignalCapi_signalOffset]
            exact isOffset_offsetAt (glitch_sorted _ _) timeIdx }
    · rw [glitchState_computeSelected, Option.getD_some]
  have hst : Wellen.Reachable (oneSignalCapi (glitch "0000" "0001")) busTables glitchState := by
    rw [glitchState, Wellen.run, List.foldl_cons, List.foldl_cons, List.foldl_nil]
    exact .call _ (.call _ (.opened _ _))
  have heq := h _ _ _ _ _ hst hchanges 1 Nat.one_pos
  rw [hchanges.sampledValueAt hst.inv, hchanges.sampledValueAt hst.inv] at heq
  exact glitch_not_settled _ _ ((sampleText_before_iff (glitch_sorted _ _) Nat.one_pos).1 heq)


end XdebugFst.Waveform
