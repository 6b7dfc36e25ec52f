import XdebugFst.Trace.Sample
import XdebugFst.Lib.Runs

/-!
# The readers of a value at a time

Three functions answer what a signal is at a time: `sample_at` of the trace actions,
`WellenFstBackend::value_at` and the action `value.at`. The changes of a signal may have
several deltas at one time. `value.at` samples the one that counts as the last of them, when
their number is kept in 16 bits: with fewer than `2 ^ 16` deltas that is the value that the signal
settles to. The other two read the first. And `x_onset_time` walks back over the first deltas.

`readersAgree_iff` says exactly when this makes no difference: when the delta that counts as the
last one has the value of the last, when the first and the last delta show the same value, and,
along the run of X values and at the change before it, are both X or both not.
-/

namespace XdebugFst.Waveform

open Lib Lib.History

/-- The text of a value, as `signal_value_str` writes it. -/
def WaveformValue.shown (value : WaveformValue) : String :=
  match value.kind with
  | .real => value.real
  | .event => "event"
  | _ => value.text

namespace Backend

variable (wf : Backend)

/-- What `value_at` reports. -/
structure ValueAt where
  value : String
  width : ℕ
  timeMatch : Bool
  timeIdx : ℕ
  deriving DecidableEq, Repr

/-- The width that `signal_info` gives. -/
def widthOf (ref : ℕ) : ℕ := ((wf.signal ref).map SignalData.width).getD 0

/-- `WellenFstBackend::value_at`. -/
def valueAt (path : String) (time : ℕ) : Option ValueAt :=
  let ref := wf.findSignal path
  if ref = kInvalidSignalRef then none
  else
    let ti := wf.timeIdxOf time
    (wf.signalOffsetAt ref ti).map fun offset =>
      { value := wf.signalValueStr ref offset.start 0
        width := wf.widthOf ref
        timeMatch := offset.timeMatch
        timeIdx := ti }

/-- A cell of `value.at`, with the value it is rendered from. -/
inductive ValueCell
  | signalNotFound
  | missingValue
  | ok (value : WaveformValue) (width : ℕ)
  deriving DecidableEq, Repr

/-- The cell of `value.at` for a path and a time, without a clock. -/
def valueCellAt (path : String) (time : ℕ) : ValueCell :=
  let ref := wf.findSignal path
  if ref = kInvalidSignalRef then .signalNotFound
  else
    match wf.sampledValueAt ref (wf.timeIdxOf time) .raw with
    | none => .missingValue
    | some sampled => .ok sampled.value (wf.widthOf ref)

end Backend

end XdebugFst.Waveform

namespace XdebugFst.Trace

open Lib Lib.History Waveform

section Definitions

variable (wf : Backend) (signal : String) (time : ℕ)

/-- The value of the last change at or before a time. -/
def settledAt : Option WaveformValue :=
  (lastWhere (fun c : Change => wf.timeAt c.timeIdx ≤ time)
    (wf.changesOf (wf.findSignal signal))).map Change.value

/-- The value shows an X. -/
def ShowsX (value : Option WaveformValue) : Prop := ∃ v ∈ value, hasX v.shown = true

/-- The readers agree on the last change at or before a time, and `x_onset_time` on the
earliest time of the run of X that ends there. -/
structure ReadersAgree : Prop where
  sampleAt : (sampleAt wf signal time).bits = ((settledAt wf signal time).map
    WaveformValue.shown).getD ""
  valueAt : (wf.valueAt signal time).map Backend.ValueAt.value =
    (settledAt wf signal time).map WaveformValue.shown
  valueCell : wf.valueCellAt signal time = ((settledAt wf signal time).map fun value =>
    Backend.ValueCell.ok value (wf.widthOf (wf.findSignal signal))).getD .missingValue
  onset : ShowsX (settledAt wf signal time) →
    IsLeast (runStarts {t | ChangesAt wf signal t} (fun t => ShowsX (settledAt wf signal t)) time)
      (xOnsetTime wf (Trace.sampleAt wf signal time))

/-- The value of the first delta at a time index. -/
def firstDelta (ref idx : ℕ) : Option WaveformValue :=
  ((wf.changesOf ref).find? fun c => c.timeIdx = idx).map Change.value

/-- The value of the last delta at a time index. -/
def lastDelta (ref idx : ℕ) : Option WaveformValue :=
  (lastWhere (fun c : Change => c.timeIdx = idx) (wf.changesOf ref)).map Change.value

/-- At the last change, the delta that counts as the last one has the value of the last, and the
first and the last delta show the same; and on the run of X that ends there, and at the change
before it, both show an X or neither does. -/
structure DeltasAgree : Prop where
  counted : ∀ g, IsLastChange wf (wf.findSignal signal) (wf.timeIdxOf time) g →
    (countedLast (deltasAt (wf.changesOf (wf.findSignal signal)) g)).map Change.value =
      lastDelta wf (wf.findSignal signal) g
  value : ∀ g, IsLastChange wf (wf.findSignal signal) (wf.timeIdxOf time) g →
    (firstDelta wf (wf.findSignal signal) g).map WaveformValue.shown =
      (lastDelta wf (wf.findSignal signal) g).map WaveformValue.shown
  onset : ShowsX (settledAt wf signal time) →
    AgreeOnRun {i | i ∈ wf.timeIndicesOf (wf.findSignal signal)}
      (fun g => ShowsX (firstDelta wf (wf.findSignal signal) g))
      (fun g => ShowsX (lastDelta wf (wf.findSignal signal) g)) (wf.timeIdxOf time)

end Definitions

variable {wf : Backend} {signal : String} {time ref idx g : ℕ}

/-! ### Deltas -/

lemma IsLastChange.exists_group (h : IsLastChange wf ref idx g) :
    ∃ pre grp post, IsLastGroup Change.timeIdx idx (wf.changesOf ref) pre grp post g := by
  rcases isLastGroup_cases (@Backend.changesOf_sorted wf ref) idx with
    hnone | ⟨pre, grp, post, g', hgrp⟩
  · obtain ⟨c, hc, rfl⟩ := mem_timeIndicesOf.1 h.1
    exact absurd h.2.1 (not_le.2 (hnone c hc))
  · obtain ⟨c, hc⟩ := List.exists_mem_of_ne_nil _ hgrp.nonempty
    have hg' : g' ∈ wf.timeIndicesOf ref := by
      refine mem_timeIndicesOf.2 ⟨c, ?_, hgrp.same c hc⟩
      rw [hgrp.eq]
      simp [hc]
    have hle : g ≤ g' := by
      obtain ⟨d, hd, hdg⟩ := mem_timeIndicesOf.1 h.1
      rw [hgrp.eq] at hd
      rcases List.mem_append.1 hd with hd | hd
      · exact hdg ▸ (hgrp.before d hd).le
      rcases List.mem_append.1 hd with hd | hd
      · exact (hdg ▸ hgrp.same d hd).le
      · exact absurd (hdg ▸ hgrp.after d hd) (not_lt.2 h.2.1)
    obtain rfl : g' = g := le_antisymm (h.2.2 g' hg' hgrp.le) hle
    exact ⟨pre, grp, post, hgrp⟩

lemma firstDelta_of_isLastGroup {pre grp post : List Change}
    (h : IsLastGroup Change.timeIdx idx (wf.changesOf ref) pre grp post g) :
    firstDelta wf ref g = grp.head?.map Change.value := by
  obtain ⟨c, grp, rfl⟩ := List.exists_cons_of_ne_nil h.nonempty
  have hpre : pre.find? (fun c => c.timeIdx = g) = none :=
    List.find?_eq_none.2 fun c hc => by simpa using (h.before c hc).ne
  rw [firstDelta, h.eq, List.find?_append, hpre, Option.none_or, List.cons_append,
    List.find?_cons_of_pos (by simpa using h.same c List.mem_cons_self)]
  rfl

lemma lastDelta_of_isLastGroup {pre grp post : List Change}
    (h : IsLastGroup Change.timeIdx idx (wf.changesOf ref) pre grp post g) :
    lastDelta wf ref g = grp.getLast?.map Change.value := by
  rw [lastDelta, lastWhere, h.filter_eq]

lemma signalValueStr_eq (start element : ℕ) : wf.signalValueStr ref start element =
    ((wf.signalTypedValueAt ref start element).map WaveformValue.shown).getD "" := by
  unfold Backend.signalValueStr WaveformValue.shown
  cases wf.signalTypedValueAt ref start element <;> rfl

/-- What `sample_at` and `value_at` read at an index is the first delta. -/
lemma readAt_eq_firstDelta (h : IsLastChange wf ref idx g) :
    readAt wf ref idx = (firstDelta wf ref g).map WaveformValue.shown := by
  obtain ⟨pre, grp, post, hgrp⟩ := h.exists_group
  obtain ⟨c, grp, rfl⟩ := List.exists_cons_of_ne_nil hgrp.nonempty
  rw [readAt_of_isLastGroup hgrp, signalValueStr_eq, firstDelta_of_isLastGroup hgrp,
    Backend.signalTypedValueAt, hgrp.eq]
  simp

/-- What `value.at` samples at an index is the delta that counts as the last one. -/
lemma sampledValueAt_eq_countedLast (h : IsLastChange wf ref idx g) :
    (wf.sampledValueAt ref idx .raw).map SampledValue.value =
      (countedLast (deltasAt (wf.changesOf ref) g)).map Change.value := by
  obtain ⟨pre, grp, post, hgrp⟩ := h.exists_group
  rw [deltasAt, hgrp.filter_eq]
  exact sampledValue_of_group (fun _ _ => rfl) hgrp fun hp => ObservationPoint.noConfusion hp.1

/-! ### Times and time indices -/

/-- A change is at or before a time exactly when its index is. -/
lemma timeAt_le_iff (hmin : wf.minTime ≤ time) (hidx : idx < wf.timeTable.length) :
    wf.timeAt idx ≤ time ↔ idx ≤ wf.timeIdxOf time := by
  constructor
  · exact Backend.le_timeIdxOf hidx
  · intro hle
    have hne : wf.timeTable ≠ [] := List.ne_nil_of_length_pos (Nat.zero_lt_of_lt hidx)
    exact (Backend.timeAt_le_of_le hle (Backend.timeIdxOf_lt hne time)).trans
      (Backend.timeAt_timeIdxOf_le hne hmin)

lemma settledAt_eq (hmin : wf.minTime ≤ time) :
    settledAt wf signal time =
      (lastWhere (fun c : Change => c.timeIdx ≤ wf.timeIdxOf time)
        (wf.changesOf (wf.findSignal signal))).map Change.value := by
  rw [settledAt, lastWhere, lastWhere]
  refine congrArg (fun l => (List.getLast? l).map Change.value) (List.filter_congr fun c hc => ?_)
  exact decide_eq_decide.2 (timeAt_le_iff hmin (Backend.changesOf_lt hc))

/-- The value of the last change at or before a time is its last delta. -/
lemma settledAt_eq_lastDelta (hmin : wf.minTime ≤ time)
    (hg : IsLastChange wf (wf.findSignal signal) (wf.timeIdxOf time) g) :
    settledAt wf signal time = lastDelta wf (wf.findSignal signal) g := by
  obtain ⟨pre, grp, post, hgrp⟩ := hg.exists_group
  rw [settledAt_eq hmin, hgrp.lastWhere_le, lastDelta_of_isLastGroup hgrp]

/-- Without an offset there is no change at or before the time. -/
lemma settledAt_eq_none (hmin : wf.minTime ≤ time)
    (h : wf.signalOffsetAt (wf.findSignal signal) (wf.timeIdxOf time) = none) :
    settledAt wf signal time = none := by
  rcases isOffset_offsetAt (Backend.changesOf_sorted (wf.findSignal signal))
      (wf.timeIdxOf time) with ⟨-, hnone⟩ | ⟨pre, grp, post, g, -, hsome⟩
  · rw [settledAt_eq hmin, lastWhere_eq_none_iff.2 hnone]
    rfl
  · rw [Backend.signalOffsetAt, hsome] at h
    cases h

/-- Either there is no change at or before the time, or there is a last one. -/
lemma exists_isLastChange (wf : Backend) (ref idx : ℕ) :
    (wf.signalOffsetAt ref idx = none ∧ wf.sampledValueAt ref idx .raw = none) ∨
      ∃ g, IsLastChange wf ref idx g := by
  cases hoff : wf.signalOffsetAt ref idx with
  | none =>
      refine Or.inl ⟨rfl, ?_⟩
      rw [Backend.sampledValueAt, hoff]
      rfl
  | some offset =>
      obtain ⟨g, hg, -⟩ := @readAt_eq wf ref idx _ (by rw [readAt, hoff]; rfl)
      exact Or.inr ⟨g, hg⟩

lemma not_isLastChange (h : wf.signalOffsetAt ref idx = none) (g : ℕ) :
    ¬ IsLastChange wf ref idx g := by
  intro hg
  obtain ⟨s, hs⟩ := exists_readAt hg.1 hg.2.1
  rw [readAt, h] at hs
  cases hs

/-- There is only one last change. -/
lemma forall_isLastChange_iff (hg : IsLastChange wf ref idx g) {p : ℕ → Prop} :
    (∀ g', IsLastChange wf ref idx g' → p g') ↔ p g := by
  refine ⟨fun h => h g hg, fun h g' hg' => ?_⟩
  obtain rfl : g = g' := le_antisymm (hg'.2.2 g hg.1 hg.2.1) (hg.2.2 g' hg'.1 hg'.2.1)
  exact h

/-! ### The readers -/

lemma bits_sampleAt (hfound : wf.findSignal signal ≠ 0) :
    (sampleAt wf signal time).bits =
      (readAt wf (wf.findSignal signal) (wf.timeIdxOf time)).getD "" := by
  unfold sampleAt readAt
  dsimp only
  rw [if_neg (show _ ≠ Backend.kInvalidSignalRef from hfound)]
  cases wf.signalOffsetAt (wf.findSignal signal) (wf.timeIdxOf time) <;> rfl

lemma value_valueAt (hfound : wf.findSignal signal ≠ 0) :
    (wf.valueAt signal time).map Backend.ValueAt.value =
      readAt wf (wf.findSignal signal) (wf.timeIdxOf time) := by
  unfold Backend.valueAt readAt
  dsimp only
  rw [if_neg (show _ ≠ Backend.kInvalidSignalRef from hfound), Option.map_map]
  rfl

lemma okCell_eq_iff {x y : Option WaveformValue} {width : ℕ} :
    (x.map fun value => Backend.ValueCell.ok value width).getD .missingValue =
        (y.map fun value => Backend.ValueCell.ok value width).getD .missingValue ↔ x = y := by
  cases x <;> cases y <;> simp

/-- `value.at` reports the settled value exactly when the delta that counts as the last one of the
last change has it. -/
lemma valueCellAt_eq_iff (hfound : wf.findSignal signal ≠ 0) (hmin : wf.minTime ≤ time) :
    wf.valueCellAt signal time = ((settledAt wf signal time).map fun value =>
        Backend.ValueCell.ok value (wf.widthOf (wf.findSignal signal))).getD .missingValue ↔
      ∀ g, IsLastChange wf (wf.findSignal signal) (wf.timeIdxOf time) g →
        (countedLast (deltasAt (wf.changesOf (wf.findSignal signal)) g)).map Change.value =
          lastDelta wf (wf.findSignal signal) g := by
  have hcell : wf.valueCellAt signal time =
      (((wf.sampledValueAt (wf.findSignal signal) (wf.timeIdxOf time) .raw).map
        SampledValue.value).map fun value =>
          Backend.ValueCell.ok value (wf.widthOf (wf.findSignal signal))).getD .missingValue := by
    unfold Backend.valueCellAt
    dsimp only
    rw [if_neg (show _ ≠ Backend.kInvalidSignalRef from hfound)]
    cases wf.sampledValueAt (wf.findSignal signal) (wf.timeIdxOf time) .raw <;> rfl
  rw [hcell, okCell_eq_iff]
  rcases exists_isLastChange wf (wf.findSignal signal) (wf.timeIdxOf time) with
    ⟨hoff, hraw⟩ | ⟨g, hg⟩
  · rw [hraw, settledAt_eq_none hmin hoff]
    exact iff_of_true rfl fun g hg => absurd hg (not_isLastChange hoff g)
  · rw [sampledValueAt_eq_countedLast hg, settledAt_eq_lastDelta hmin hg]
    rw [forall_isLastChange_iff hg]

/-- The two other readers read the settled value exactly when the deltas of the last change
show the same. -/
lemma reads_settled_iff (hmin : wf.minTime ≤ time) :
    readAt wf (wf.findSignal signal) (wf.timeIdxOf time) =
        (settledAt wf signal time).map WaveformValue.shown ↔
      ∀ g, IsLastChange wf (wf.findSignal signal) (wf.timeIdxOf time) g →
        (firstDelta wf (wf.findSignal signal) g).map WaveformValue.shown =
          (lastDelta wf (wf.findSignal signal) g).map WaveformValue.shown := by
  rcases exists_isLastChange wf (wf.findSignal signal) (wf.timeIdxOf time) with
    ⟨hoff, -⟩ | ⟨g, hg⟩
  · rw [settledAt_eq_none hmin hoff, readAt, hoff]
    exact iff_of_true rfl fun g hg => absurd hg (not_isLastChange hoff g)
  · rw [readAt_eq_firstDelta hg, settledAt_eq_lastDelta hmin hg]
    rw [forall_isLastChange_iff hg]

/-! ### The onset -/

lemma showsX_firstDelta (hidx : idx ∈ wf.timeIndicesOf ref) :
    ShowsX (firstDelta wf ref idx) ↔ readsXAt wf ref idx = true := by
  rw [readsXAt, readAt_eq_firstDelta (isLastChange_self hidx), Option.any_map,
    Option.any_eq_true]
  rfl

/-- At the time of a change the settled value is its last delta. -/
lemma settledAt_timeAt (hidx : idx ∈ wf.timeIndicesOf (wf.findSignal signal)) :
    settledAt wf signal (wf.timeAt idx) = lastDelta wf (wf.findSignal signal) idx := by
  have hlt := Backend.timeIndicesOf_lt hidx
  refine settledAt_eq_lastDelta ?_ ?_
  · exact Backend.minTime_eq_timeAt_zero.trans_le (Backend.timeAt_le_of_le (Nat.zero_le idx) hlt)
  · rw [Backend.timeIdxOf_timeAt hlt]
    exact isLastChange_self hidx

lemma changesAt_eq_image (wf : Backend) (signal : String) :
    {t | ChangesAt wf signal t} =
      Set.image wf.timeAt {i | i ∈ wf.timeIndicesOf (wf.findSignal signal)} := rfl

/-- A last point below another one. -/
lemma exists_last_below {l : List ℕ} {k w : ℕ} (hw : w ∈ l) (hwk : w < k) :
    ∃ v ∈ l, w ≤ v ∧ v < k ∧ ∀ j ∈ l, j < k → j ≤ v := by
  have hmem : w ∈ l.toFinset.filter (· < k) := by simp [hw, hwk]
  have hmax := Finset.max'_mem _ ⟨w, hmem⟩
  rw [Finset.mem_filter, List.mem_toFinset] at hmax
  refine ⟨_, hmax.1, Finset.le_max' _ w hmem, hmax.2, fun j hj hjk => ?_⟩
  exact Finset.le_max' _ j (by simp [hj, hjk])

/-- `x_onset_time` finds the start of the run of first deltas that show an X. -/
lemma exists_isLeast_xOnsetTime (h : ReadsX wf signal time) :
    ∃ k ∈ wf.timeIndicesOf (wf.findSignal signal),
      xOnsetTime wf (sampleAt wf signal time) = wf.timeAt k ∧
      IsLeast (runStarts {i | i ∈ wf.timeIndicesOf (wf.findSignal signal)}
        (fun g => ShowsX (firstDelta wf (wf.findSignal signal) g)) (wf.timeIdxOf time)) k := by
  obtain ⟨href, hx⟩ := readsX_iff.1 h
  obtain ⟨hsref, hsidx, -⟩ := sampleAt_ref h
  obtain ⟨k, hk, hkle, -, hkonset, hrun, hfirst⟩ :=
    exists_onset (sampleAt wf signal time).time hx
  refine ⟨k, hk, ?_, isLeast_runStarts hk hkle ?_ ?_⟩
  · unfold xOnsetTime
    rw [onsetLoop_eq _ (by simp), hsref, hsidx, hkonset]
  · intro v hv hkv hvn
    exact (showsX_firstDelta hv).2 (hrun v hv hkv hvn)
  · intro w hw hwk
    obtain ⟨v, hv, hwv, hvk, hlast⟩ := exists_last_below hw hwk
    refine ⟨v, hv, hwv, hvk, fun hxv => ?_⟩
    rw [showsX_firstDelta hv, hfirst v hv hvk fun j hj hjk => hlast j hj hjk] at hxv
    exact absurd hxv (by decide)

/-- The times of a run are the times of its indices. -/
lemma isLeast_settled_iff (hmin : wf.minTime ≤ time) {k : ℕ}
    (hk : k ∈ wf.timeIndicesOf (wf.findSignal signal)) :
    IsLeast (runStarts {t | ChangesAt wf signal t} (fun t => ShowsX (settledAt wf signal t)) time)
        (wf.timeAt k) ↔
      IsLeast (runStarts {i | i ∈ wf.timeIndicesOf (wf.findSignal signal)}
        (fun g => ShowsX (lastDelta wf (wf.findSignal signal) g)) (wf.timeIdxOf time)) k := by
  rw [changesAt_eq_image]
  refine isLeast_runStarts_image ?_ ?_ ?_ hk
  · intro i hi j hj hij
    exact (timeAt_lt_iff hi hj).2 hij
  · intro i hi
    exact timeAt_le_iff hmin (Backend.timeIndicesOf_lt hi)
  · intro i hi
    rw [settledAt_timeAt hi]

/-- `x_onset_time` finds the start of the settled run exactly when the deltas agree along it. -/
lemma isLeast_xOnsetTime_iff (hmin : wf.minTime ≤ time) (h : ReadsX wf signal time) :
    IsLeast (runStarts {t | ChangesAt wf signal t} (fun t => ShowsX (settledAt wf signal t)) time)
        (xOnsetTime wf (sampleAt wf signal time)) ↔
      AgreeOnRun {i | i ∈ wf.timeIndicesOf (wf.findSignal signal)}
        (fun g => ShowsX (firstDelta wf (wf.findSignal signal) g))
        (fun g => ShowsX (lastDelta wf (wf.findSignal signal) g)) (wf.timeIdxOf time) := by
  obtain ⟨k, hk, honset, hleast⟩ := exists_isLeast_xOnsetTime h
  rw [honset, isLeast_settled_iff hmin hk]
  constructor
  · exact agree_of_isLeast hleast
  · intro hagree
    rwa [← runStarts_eq_of_agree hagree]

/-- The readers of a value agree exactly when the deltas do. -/
theorem readersAgree_iff (wf : Backend) (signal : String) (time : ℕ)
    (hfound : wf.findSignal signal ≠ 0) (hmin : wf.minTime ≤ time) :
    ReadersAgree wf signal time ↔ DeltasAgree wf signal time := by
  have hreads := @reads_settled_iff wf signal time hmin
  -- once the value is read, an X is seen by `sample_at` as well
  have hx : readAt wf (wf.findSignal signal) (wf.timeIdxOf time) =
        (settledAt wf signal time).map WaveformValue.shown →
      ShowsX (settledAt wf signal time) → ReadsX wf signal time := by
    rintro hread ⟨v, hv, hvx⟩
    refine readsX_iff.2 ⟨hfound, ?_⟩
    rw [readsXAt, hread, Option.mem_def.1 hv]
    exact hvx
  constructor
  · intro h
    have hread := (value_valueAt hfound).symm.trans h.valueAt
    refine ⟨(valueCellAt_eq_iff hfound hmin).1 h.valueCell, hreads.1 hread, fun hshows => ?_⟩
    exact (isLeast_xOnsetTime_iff hmin (hx hread hshows)).1 (h.onset hshows)
  · intro h
    have hread := hreads.2 h.value
    refine ⟨?_, ?_, (valueCellAt_eq_iff hfound hmin).2 h.counted, fun hshows => ?_⟩
    · rw [bits_sampleAt hfound, hread]
    · rw [value_valueAt hfound, hread]
    · exact (isLeast_xOnsetTime_iff hmin (hx hread hshows)).2 (h.onset hshows)

/-- A signal that settles from X to 0 within one time. -/
def glitchWave : Backend :=
  Backend.ofTable [0, 5] [("s", [(0, "0"), (1, "x"), (1, "0")])] (by decide) (by decide) (by decide)

/-- `sample_at` reads the X that `value.at` does not show. -/
theorem glitchWave_not_readersAgree :
    glitchWave.findSignal "s" ≠ 0 ∧ glitchWave.minTime ≤ 5 ∧
      ¬ ReadersAgree glitchWave "s" 5 := by
  refine ⟨by decide +kernel, by decide +kernel, fun h => ?_⟩
  have hbits : (sampleAt glitchWave "s" 5).bits = "x" := by decide +kernel
  have hsettled : settledAt glitchWave "s" 5 = some { text := "0" } := by decide +kernel
  have := h.sampleAt
  rw [hbits, hsettled] at this
  exact absurd this (by decide)

/-- Before the glitch there is one delta, and the readers agree. -/
theorem glitchWave_readersAgree_zero :
    glitchWave.findSignal "s" ≠ 0 ∧ glitchWave.minTime ≤ 0 ∧ ReadersAgree glitchWave "s" 0 := by
  refine ⟨by decide +kernel, by decide +kernel, ?_⟩
  refine (readersAgree_iff glitchWave "s" 0 (by decide +kernel) (by decide +kernel)).2 ⟨?_, ?_, ?_⟩
  · rintro g ⟨-, hle, -⟩
    have hidx : glitchWave.timeIdxOf 0 = 0 := by decide +kernel
    obtain rfl : g = 0 := by omega
    decide +kernel
  · rintro g ⟨-, hle, -⟩
    have hidx : glitchWave.timeIdxOf 0 = 0 := by decide +kernel
    obtain rfl : g = 0 := by omega
    decide +kernel
  · have hsettled : settledAt glitchWave "s" 0 = some { text := "0" } := by decide +kernel
    rintro ⟨v, hv, hx⟩
    rw [hsettled] at hv
    obtain rfl := Option.mem_some_iff.1 hv
    exact absurd hx (by decide +kernel)

end XdebugFst.Trace
