import XdebugFst.Lib.History

/-!
# The waveform backend

What the handlers see of a waveform, `IWaveformBackend`: a table of times, signals found
by name, and for each signal the list of its changes.  A change stands at an index of the
time table; several changes at one index are the deltas of that time, in order.

`offsetAt` finds the deltas of the last time up to a time index, and `sampledValue` reads
one of them.  Read as a history, sampling is simple: `raw` and `after` see the last change
up to the index, `before` the last change before it.
-/

namespace XdebugFst.Waveform

open Lib Lib.History

/-- `ValueKind`. -/
inductive ValueKind
  | bitVector | real | string | event
  deriving DecidableEq, Repr, Inhabited

/-- `WaveformValue`. -/
structure WaveformValue where
  kind : ValueKind := .bitVector
  text : String := ""
  /-- The number of a `real`, written with the seventeen digits that determine it. -/
  real : String := ""
  deriving DecidableEq, Repr, Inhabited

/-- A change of a signal. -/
structure Change where
  timeIdx : ℕ
  value : WaveformValue
  deriving DecidableEq, Repr, Inhabited

/-- `ObservationPoint`. -/
inductive ObservationPoint
  | raw | before | after
  deriving DecidableEq, Repr

/-- `SignalOffset`: the deltas of one time in the list of changes. -/
structure SignalOffset where
  start : ℕ
  /-- A `uint16_t`. -/
  elements : ℕ
  timeMatch : Bool
  nextIdx : ℕ
  hasNext : Bool
  deriving DecidableEq, Repr

/-- `SampledValue`. -/
structure SampledValue where
  value : WaveformValue
  timeIdx : ℕ
  element : ℕ
  elementsAtTime : ℕ
  timeMatch : Bool
  deriving DecidableEq, Repr

/-- The search of `signal_offset_at` in a list of changes: `std::upper_bound` for the time
index, then the two loops that walk over the deltas of the time found. -/
def offsetAt (changes : List Change) (timeIdx : ℕ) : Option SignalOffset :=
  let upper := (changes.takeWhile fun c => c.timeIdx ≤ timeIdx).length
  if upper = 0 then none
  else
    let selectedTime := (changes.getD (upper - 1) default).timeIdx
    let first := upper - 1 -
      ((changes.take (upper - 1)).reverse.takeWhile fun c => c.timeIdx = selectedTime).length
    let last := upper - 1 +
      ((changes.drop upper).takeWhile fun c => c.timeIdx = selectedTime).length
    some
      { start := first
        elements := (last - first + 1) % 2 ^ 16
        timeMatch := selectedTime = timeIdx
        nextIdx := if last + 1 < changes.length then (changes.getD (last + 1) default).timeIdx
          else 0
        hasNext := last + 1 < changes.length }

/-- `sampled_value_at` from the offset of the time index and the values at the offsets. -/
def sampledValue (value : ℕ → ℕ → Option WaveformValue) (offset : Option SignalOffset)
    (timeIdx : ℕ) (point : ObservationPoint) : Option SampledValue :=
  match offset with
  | none => none
  | some offset =>
      if offset.elements = 0 then none
      else if point = .before ∧ offset.timeMatch then
        if offset.start = 0 then none
        else (value (offset.start - 1) 0).map fun value =>
          ⟨value, timeIdx, 0, offset.elements, offset.timeMatch⟩
      else (value offset.start (offset.elements - 1)).map fun value =>
        ⟨value, timeIdx, offset.elements - 1, offset.elements, offset.timeMatch⟩

/-! ### Offsets as groups -/

/-- The offset is that of the last group of changes up to the time index. -/
def IsOffset (changes : List Change) (timeIdx : ℕ) (offset : Option SignalOffset) : Prop :=
  (offset = none ∧ ∀ c ∈ changes, timeIdx < c.timeIdx) ∨
    ∃ pre grp post g, IsLastGroup Change.timeIdx timeIdx changes pre grp post g ∧
      offset = some
        { start := pre.length
          elements := grp.length % 2 ^ 16
          timeMatch := g = timeIdx
          nextIdx := (post.head?.map Change.timeIdx).getD 0
          hasNext := !post.isEmpty }

/-- The changes are in the order of their times, with fewer than `2 ^ 16` deltas at each. -/
structure IsHistory (changes : List Change) : Prop where
  sorted : changes.Pairwise fun a b => a.timeIdx ≤ b.timeIdx
  deltas_lt : ∀ g, changes.countP (fun c => c.timeIdx = g) < 2 ^ 16

lemma IsHistory.sublist {l l' : List Change} (h : IsHistory l) (hl : l'.Sublist l) :
    IsHistory l' :=
  ⟨h.sorted.sublist hl, fun g => (hl.countP_le).trans_lt (h.deltas_lt g)⟩

lemma isHistory_of_length_lt {l : List Change} (h : l.Pairwise fun a b => a.timeIdx ≤ b.timeIdx)
    (hl : l.length < 2 ^ 16) : IsHistory l :=
  ⟨h, fun _ => List.countP_le_length.trans_lt hl⟩

lemma takeWhile_eq_nil {p : Change → Bool} {l : List Change} (h : ∀ c ∈ l, p c = false) :
    l.takeWhile p = [] := by
  cases l with
  | nil => rfl
  | cons c l => exact List.takeWhile_cons_of_neg (by simp [h c])

/-- The offset of a group, computed from its parts. -/
lemma offsetAt_of_isLastGroup {changes pre grp post : List Change} {timeIdx g : ℕ}
    (h : IsLastGroup Change.timeIdx timeIdx changes pre grp post g) :
    offsetAt changes timeIdx = some
      { start := pre.length
        elements := grp.length % 2 ^ 16
        timeMatch := g = timeIdx
        nextIdx := (post.head?.map Change.timeIdx).getD 0
        hasNext := !post.isEmpty } := by
  obtain ⟨init, last, rfl⟩ : ∃ init last, grp = init ++ [last] :=
    ⟨grp.dropLast, grp.getLast h.nonempty, (List.dropLast_append_getLast h.nonempty).symm⟩
  have hlast : last.timeIdx = g := h.same last (by simp)
  -- the search finds the last change of the group, and the group is completed in both directions
  have hupper : changes.takeWhile (fun c => c.timeIdx ≤ timeIdx) = pre ++ (init ++ [last]) := by
    rw [h.eq, ← List.append_assoc]
    rw [List.takeWhile_append_of_pos]
    · rw [takeWhile_eq_nil fun c hc => by simpa using h.after c hc, List.append_nil]
    · intro c hc
      rcases List.mem_append.1 hc with hc | hc
      · simpa using (h.before c hc).le.trans h.le
      · simpa [h.same c hc] using h.le
  have hlen : (pre ++ (init ++ [last])).length = pre.length + init.length + 1 := by
    simp [Nat.add_assoc]
  have hsel : changes.getD (pre.length + init.length) default = last := by
    rw [h.eq]
    simp [List.getD_eq_getElem?_getD]
  have htake : changes.take (pre.length + init.length) = pre ++ init := by
    rw [h.eq]
    simp [List.take_append]
  have hdrop : changes.drop (pre.length + init.length + 1) = post := by
    rw [h.eq, ← List.append_assoc, ← hlen, List.drop_left]
  have hback : ((pre ++ init).reverse.takeWhile fun c => c.timeIdx = g).length =
      init.length := by
    rw [List.reverse_append, List.takeWhile_append_of_pos fun c hc => by
      simpa using h.same c (by simp at hc; simp [hc])]
    rw [takeWhile_eq_nil fun c hc => by simpa using (h.before c (List.mem_reverse.1 hc)).ne]
    simp
  have hfwd : post.takeWhile (fun c => c.timeIdx = g) = [] :=
    takeWhile_eq_nil fun c hc => by simpa using (h.le.trans_lt (h.after c hc)).ne'
  have hsize : changes.length = pre.length + init.length + 1 + post.length := by
    rw [h.eq]
    simp
    omega
  have hnext : changes.getD (pre.length + init.length + 1) default = post.getD 0 default := by
    rw [← hdrop]
    simp
  simp only [offsetAt, hupper, hlen, Nat.add_sub_cancel, hsel, hlast, htake, hback, hdrop, hfwd,
    List.length_nil, Nat.add_zero, Nat.succ_ne_zero, if_false, hsize, hnext]
  cases post <;> simp

lemma offsetAt_eq_none {changes : List Change} {timeIdx : ℕ}
    (h : ∀ c ∈ changes, timeIdx < c.timeIdx) : offsetAt changes timeIdx = none := by
  have hnil : changes.takeWhile (fun c => c.timeIdx ≤ timeIdx) = [] :=
    takeWhile_eq_nil fun c hc => by simpa using h c hc
  simp [offsetAt, hnil]

lemma lastWhere_eq_none_iff {changes : List Change} {timeIdx : ℕ} :
    lastWhere (fun c : Change => c.timeIdx ≤ timeIdx) changes = none ↔
      ∀ c ∈ changes, timeIdx < c.timeIdx := by
  rw [lastWhere, List.getLast?_eq_none_iff, List.filter_eq_nil_iff]
  simp

/-- There is either no change up to the time index or a last group. -/
lemma isLastGroup_cases {changes : List Change}
    (h : changes.Pairwise fun a b => a.timeIdx ≤ b.timeIdx) (timeIdx : ℕ) :
    (∀ c ∈ changes, timeIdx < c.timeIdx) ∨
      ∃ pre grp post g, IsLastGroup Change.timeIdx timeIdx changes pre grp post g := by
  cases hlast : lastWhere (fun c : Change => c.timeIdx ≤ timeIdx) changes with
  | none => exact Or.inl (lastWhere_eq_none_iff.1 hlast)
  | some last => exact Or.inr ⟨_, _, _, _, exists_isLastGroup h hlast⟩

/-- The search finds the last group. -/
lemma isOffset_offsetAt {changes : List Change}
    (h : changes.Pairwise fun a b => a.timeIdx ≤ b.timeIdx) (timeIdx : ℕ) :
    IsOffset changes timeIdx (offsetAt changes timeIdx) := by
  rcases isLastGroup_cases h timeIdx with hnone | ⟨pre, grp, post, g, hgrp⟩
  · exact Or.inl ⟨offsetAt_eq_none hnone, hnone⟩
  · exact Or.inr ⟨pre, grp, post, g, hgrp, offsetAt_of_isLastGroup hgrp⟩

/-! ### What a sample reads -/

/-- The deltas of one time. -/
def deltasAt (cs : List Change) (timeIdx : ℕ) : List Change :=
  cs.filter fun c => c.timeIdx = timeIdx

/-- The delta that counts as the last one when the number of deltas is kept in 16 bits. -/
def countedLast (deltas : List Change) : Option Change :=
  if deltas.length % 2 ^ 16 = 0 then none else deltas[deltas.length % 2 ^ 16 - 1]?

lemma countedLast_eq_getLast? {deltas : List Change} (h : deltas.length < 2 ^ 16) :
    countedLast deltas = deltas.getLast? := by
  rw [countedLast, Nat.mod_eq_of_lt h, List.getLast?_eq_getElem?]
  split_ifs with hzero
  · rw [List.length_eq_zero_iff.1 hzero]
    rfl
  · rfl

lemma countedLast_eq_none_iff {deltas : List Change} :
    countedLast deltas = none ↔ 2 ^ 16 ∣ deltas.length := by
  rw [countedLast, Nat.dvd_iff_mod_eq_zero]
  split_ifs with hzero
  · exact iff_of_true rfl hzero
  · have hle := Nat.mod_le deltas.length (2 ^ 16)
    refine iff_of_false ?_ hzero
    rw [List.getElem?_eq_none_iff]
    omega

/-- The deltas of a change are the last group up to its time. -/
lemma isLastGroup_deltasAt {cs : List Change} {timeIdx : ℕ}
    (hsorted : cs.Pairwise fun a b => a.timeIdx ≤ b.timeIdx)
    (hmem : timeIdx ∈ cs.map Change.timeIdx) :
    ∃ pre post, IsLastGroup Change.timeIdx timeIdx cs pre (deltasAt cs timeIdx) post timeIdx := by
  obtain ⟨c, hc, rfl⟩ := List.mem_map.1 hmem
  cases hlast : lastWhere (fun a : Change => a.timeIdx ≤ c.timeIdx) cs with
  | none => exact absurd (lastWhere_eq_none_iff.1 hlast c hc) (lt_irrefl _)
  | some last =>
      have hgroup := exists_isLastGroup hsorted hlast
      have hsame : last.timeIdx = c.timeIdx :=
        le_antisymm hgroup.le (le_of_lastWhere hsorted hlast hc le_rfl)
      rw [hsame] at hgroup
      exact ⟨_, _, hgroup⟩

section Samples

variable {changes pre grp post : List Change} {timeIdx g : ℕ} {value : ℕ → ℕ → Option WaveformValue}
  (hvalue : ∀ start element, value start element = (changes[start + element]?).map Change.value)
include hvalue

/-- A sample reads the delta of the last group that counts as the last one. -/
lemma sampledValue_of_group (h : IsLastGroup Change.timeIdx timeIdx changes pre grp post g)
    {point : ObservationPoint} (hpoint : ¬ (point = .before ∧ g = timeIdx)) :
    (sampledValue value (offsetAt changes timeIdx) timeIdx point).map SampledValue.value =
      (countedLast grp).map Change.value := by
  rw [offsetAt_of_isLastGroup h, sampledValue, countedLast]
  simp only [decide_eq_true_eq, if_neg hpoint]
  split_ifs with hzero
  · rfl
  · have hlt : grp.length % 2 ^ 16 - 1 < grp.length := by
      have hle := Nat.mod_le grp.length (2 ^ 16)
      omega
    rw [hvalue, h.eq, List.getElem?_append_right (Nat.le_add_right _ _), Nat.add_sub_cancel_left,
      List.getElem?_append_left hlt, Option.map_map, Option.map_map]
    rfl

/-- At a change the point before it reads the entry in front of the deltas. -/
lemma sampledValue_before (h : IsLastGroup Change.timeIdx timeIdx changes pre grp post timeIdx) :
    (sampledValue value (offsetAt changes timeIdx) timeIdx .before).map SampledValue.value =
      if 2 ^ 16 ∣ grp.length then none else pre.getLast?.map Change.value := by
  rw [offsetAt_of_isLastGroup h, sampledValue]
  simp only [decide_true, and_self, if_true, Nat.dvd_iff_mod_eq_zero]
  split_ifs with hzero hpre
  · rfl
  · rw [List.length_eq_zero_iff.1 hpre]
    rfl
  · have hlt : pre.length - 1 < pre.length := by omega
    rw [hvalue, h.eq, Nat.add_zero, List.getElem?_append_left hlt, List.getLast?_eq_getElem?,
      Option.map_map, Option.map_map]
    rfl

/-- A sample is the value of a change. -/
lemma exists_of_sampledValue {offset : Option SignalOffset} {point : ObservationPoint}
    {v : WaveformValue}
    (h : (sampledValue value offset timeIdx point).map SampledValue.value = some v) :
    ∃ c ∈ changes, c.value = v := by
  obtain ⟨sampled, hsampled, rfl⟩ := Option.map_eq_some_iff.1 h
  -- each of the two branches reads a value of the list
  have hread : ∃ start element, value start element = some sampled.value := by
    unfold sampledValue at hsampled
    split at hsampled
    · cases hsampled
    · split_ifs at hsampled
      all_goals
        obtain ⟨v, hv, rfl⟩ := Option.map_eq_some_iff.1 hsampled
        exact ⟨_, _, hv⟩
  obtain ⟨start, element, hread⟩ := hread
  rw [hvalue] at hread
  obtain ⟨c, hc, heq⟩ := Option.map_eq_some_iff.1 hread
  exact ⟨c, List.mem_of_getElem? hc, heq⟩

end Samples

/-- The changes that an observation point can see. -/
def ObservationPoint.sees (point : ObservationPoint) (timeIdx : ℕ) (c : Change) : Bool :=
  match point with
  | .before => c.timeIdx < timeIdx
  | _ => c.timeIdx ≤ timeIdx

/-- With fewer than `2 ^ 16` deltas at each time, sampling reads the last change that the observation
point sees. -/
lemma sampledValue_eq {changes : List Change} (h : IsHistory changes)
    {value : ℕ → ℕ → Option WaveformValue}
    (hvalue : ∀ start element, value start element = (changes[start + element]?).map Change.value)
    {offset : Option SignalOffset} {timeIdx : ℕ} (hoffset : IsOffset changes timeIdx offset)
    (point : ObservationPoint) :
    (sampledValue value offset timeIdx point).map SampledValue.value =
      (lastWhere (point.sees timeIdx) changes).map Change.value := by
  rcases hoffset with ⟨rfl, hnone⟩ | ⟨pre, grp, post, g, hgrp, rfl⟩
  · have : lastWhere (point.sees timeIdx) changes = none := by
      rw [lastWhere, List.getLast?_eq_none_iff, List.filter_eq_nil_iff]
      intro c hc
      have := hnone c hc
      cases point <;> simp [ObservationPoint.sees] <;> omega
    simp [sampledValue, this]
  · have hsize : grp.length < 2 ^ 16 := hgrp.countP_eq ▸ h.deltas_lt g
    rw [← offsetAt_of_isLastGroup hgrp]
    by_cases hb : point = .before ∧ g = timeIdx
    · obtain ⟨rfl, rfl⟩ := hb
      have hsee : lastWhere (ObservationPoint.before.sees g) changes = pre.getLast? :=
        hgrp.lastWhere_lt.trans (if_pos rfl)
      have hdvd : ¬ 2 ^ 16 ∣ grp.length := fun hdvd =>
        hgrp.nonempty (List.length_eq_zero_iff.1 (Nat.eq_zero_of_dvd_of_lt hdvd hsize))
      rw [sampledValue_before hvalue hgrp, if_neg hdvd, hsee]
    · have hsee : lastWhere (point.sees timeIdx) changes = grp.getLast? := by
        cases point with
        | before =>
            have hne : g ≠ timeIdx := fun hg => hb ⟨rfl, hg⟩
            exact hgrp.lastWhere_lt.trans (if_neg hne)
        | raw => exact hgrp.lastWhere_le
        | after => exact hgrp.lastWhere_le
      rw [sampledValue_of_group hvalue hgrp hb, countedLast_eq_getLast? hsize, hsee]

/-! ### The interface -/

/-- The data of a signal that is loaded: its changes in the order of their times, with any number of
deltas at one time. -/
structure SignalData where
  width : ℕ
  changes : List Change
  sorted : changes.Pairwise fun a b => a.timeIdx ≤ b.timeIdx

/-- `IWaveformBackend`: what the handlers can ask about a waveform. -/
structure Backend where
  /-- The times of the waveform, as `uint64_t` ticks. -/
  timeTable : List ℕ
  times_sorted : timeTable.Pairwise (· < ·)
  times_lt : ∀ t ∈ timeTable, t < 2 ^ 64
  /-- The reference of a signal, 0 when there is none. -/
  findSignal : String → ℕ
  /-- The signal that the data of a reference is loaded with; 0 when the reference is
  invalid. -/
  nativeRef : ℕ → ℕ
  /-- The data of a reference once it is loaded. -/
  signal : ℕ → Option SignalData
  changes_lt : ∀ ref data, signal ref = some data →
    ∀ c ∈ data.changes, c.timeIdx < timeTable.length

namespace Backend

/-- `kInvalidSignalRef`. -/
def kInvalidSignalRef : ℕ := 0

variable (wf : Backend)

/-- `time_at`. -/
def timeAt (idx : ℕ) : ℕ := wf.timeTable.getD idx 0

/-- `min_time`. -/
def minTime : ℕ := wf.timeTable.headD 0

/-- `max_time`. -/
def maxTime : ℕ := wf.timeTable.getLastD 0

/-- `time_idx_of`: the last index whose time is not behind `t`, or 0. -/
def timeIdxOf (t : ℕ) : ℕ := (wf.timeTable.takeWhile (· ≤ t)).length - 1

/-- The changes of a loaded signal. -/
def changesOf (ref : ℕ) : List Change := ((wf.signal ref).map SignalData.changes).getD []

/-- `time_indices_of`. -/
def timeIndicesOf (ref : ℕ) : List ℕ := (wf.changesOf ref).map Change.timeIdx

/-- `signal_offset_at`. -/
def signalOffsetAt (ref timeIdx : ℕ) : Option SignalOffset := offsetAt (wf.changesOf ref) timeIdx

/-- `signal_typed_value_at`. -/
def signalTypedValueAt (ref start element : ℕ) : Option WaveformValue :=
  ((wf.changesOf ref)[start + element]?).map Change.value

/-- `signal_value_str`: the text of a value, empty when there is none. -/
def signalValueStr (ref start element : ℕ) : String :=
  match wf.signalTypedValueAt ref start element with
  | none => ""
  | some value =>
      match value.kind with
      | .real => value.real
      | .event => "event"
      | _ => value.text

/-- The number that `load_signals` returns: nothing is loaded when one of the references is
invalid. -/
def loadCount (refs : List ℕ) : ℕ :=
  if refs.all fun ref => wf.nativeRef ref ≠ 0 then refs.length else 0

/-- `sampled_value_at`. -/
def sampledValueAt (ref timeIdx : ℕ) (point : ObservationPoint) : Option SampledValue :=
  sampledValue (wf.signalTypedValueAt ref) (wf.signalOffsetAt ref timeIdx) timeIdx point

variable {wf}

lemma changesOf_sorted (ref : ℕ) :
    (wf.changesOf ref).Pairwise fun a b => a.timeIdx ≤ b.timeIdx := by
  unfold changesOf
  cases wf.signal ref with
  | none => exact List.Pairwise.nil
  | some data => exact data.sorted

lemma changesOf_lt {ref : ℕ} {c : Change} (h : c ∈ wf.changesOf ref) :
    c.timeIdx < wf.timeTable.length := by
  unfold changesOf at h
  cases hd : wf.signal ref with
  | none => simp [hd] at h
  | some data =>
      rw [hd] at h
      exact wf.changes_lt ref data hd c h

lemma timeAt_lt_of_lt {i j : ℕ} (hij : i < j) (hj : j < wf.timeTable.length) :
    wf.timeAt i < wf.timeAt j := by
  have h := List.pairwise_iff_getElem.1 wf.times_sorted i j (hij.trans hj) hj hij
  simpa [timeAt, hij.trans hj, hj] using h

lemma timeAt_le_of_le {i j : ℕ} (hij : i ≤ j) (hj : j < wf.timeTable.length) :
    wf.timeAt i ≤ wf.timeAt j := by
  rcases hij.lt_or_eq with h | rfl
  · exact (timeAt_lt_of_lt h hj).le
  · rfl

lemma timeAt_lt_two_pow (i : ℕ) : wf.timeAt i < 2 ^ 64 := by
  unfold timeAt
  rcases lt_or_ge i wf.timeTable.length with h | h
  · rw [List.getD_eq_getElem?_getD, List.getElem?_eq_getElem h]
    exact wf.times_lt _ (List.getElem_mem h)
  · rw [List.getD_eq_getElem?_getD, List.getElem?_eq_none h]
    exact Nat.two_pow_pos 64

lemma timeIndicesOf_lt {ref ti : ℕ} (h : ti ∈ wf.timeIndicesOf ref) :
    ti < wf.timeTable.length := by
  obtain ⟨c, hc, rfl⟩ := List.mem_map.1 h
  exact changesOf_lt hc

/-- The prefix of the times up to `t` holds exactly the times up to `t`. -/
lemma lt_length_takeWhile {l : List ℕ} (h : l.Pairwise (· < ·)) {k t : ℕ} (hk : k < l.length) :
    k < (l.takeWhile (· ≤ t)).length ↔ l[k] ≤ t := by
  induction l generalizing k with
  | nil => simp at hk
  | cons a l ih =>
      rw [List.pairwise_cons] at h
      by_cases ha : a ≤ t
      · rw [List.takeWhile_cons_of_pos (by simpa using ha)]
        cases k with
        | zero => simpa using ha
        | succ k =>
            rw [List.length_cons] at hk
            simpa using ih h.2 (by omega)
      · rw [List.takeWhile_cons_of_neg (by simpa using ha)]
        have hle : a ≤ (a :: l)[k] := by
          cases k with
          | zero => simp
          | succ k => simpa using (h.1 _ (List.getElem_mem (by simpa using hk))).le
        simp
        omega

/-- `time_idx_of` finds the last time up to `t`. -/
lemma le_timeIdxOf {k t : ℕ} (hk : k < wf.timeTable.length) (hkt : wf.timeAt k ≤ t) :
    k ≤ wf.timeIdxOf t := by
  rw [timeAt, List.getD_eq_getElem?_getD, List.getElem?_eq_getElem hk] at hkt
  have := (lt_length_takeWhile wf.times_sorted hk).2 hkt
  unfold timeIdxOf
  omega

lemma timeIdxOf_lt (h : wf.timeTable ≠ []) (t : ℕ) : wf.timeIdxOf t < wf.timeTable.length := by
  have hle := (List.takeWhile_sublist (fun x => decide (x ≤ t)) (l := wf.timeTable)).length_le
  have hpos := List.length_pos_iff.2 h
  unfold timeIdxOf
  omega

lemma minTime_eq_timeAt_zero : wf.minTime = wf.timeAt 0 := by
  unfold minTime timeAt
  cases wf.timeTable <;> rfl

lemma timeAt_timeIdxOf_le (h : wf.timeTable ≠ []) {t : ℕ} (ht : wf.minTime ≤ t) :
    wf.timeAt (wf.timeIdxOf t) ≤ t := by
  have hlt := timeIdxOf_lt h t
  have hpos := List.length_pos_iff.2 h
  rw [minTime_eq_timeAt_zero, timeAt, List.getD_eq_getElem?_getD,
    List.getElem?_eq_getElem hpos] at ht
  have hcut := (lt_length_takeWhile wf.times_sorted hpos).2 ht
  rw [timeAt, List.getD_eq_getElem?_getD, List.getElem?_eq_getElem hlt]
  refine (lt_length_takeWhile wf.times_sorted hlt).1 ?_
  unfold timeIdxOf at hlt ⊢
  omega

/-- A time before the first recorded one is rounded to that one. -/
lemma timeIdxOf_eq_zero {time : ℕ} (h : time < wf.minTime) : wf.timeIdxOf time = 0 := by
  rw [timeIdxOf, List.length_eq_zero_iff.2, Nat.zero_sub]
  rw [minTime] at h
  cases htable : wf.timeTable with
  | nil => rfl
  | cons t rest =>
      rw [htable] at h
      exact List.takeWhile_cons_of_neg (by simpa using h)

lemma timeIdxOf_timeAt {k : ℕ} (hk : k < wf.timeTable.length) : wf.timeIdxOf (wf.timeAt k) = k := by
  have hne : wf.timeTable ≠ [] := List.ne_nil_of_length_pos (by omega)
  refine le_antisymm ?_ (le_timeIdxOf hk le_rfl)
  by_contra hlt
  have hmin : wf.minTime ≤ wf.timeAt k :=
    minTime_eq_timeAt_zero.trans_le (timeAt_le_of_le (Nat.zero_le k) hk)
  have h1 := timeAt_timeIdxOf_le hne hmin
  have h2 := @timeAt_lt_of_lt wf _ _ (not_le.1 hlt) (timeIdxOf_lt hne _)
  omega

/-- A waveform of one-bit signals given by name. -/
def ofTable (timeTable : List ℕ) (signals : List (String × List (ℕ × String)))
    (htimes : timeTable.Pairwise (· < ·)) (hlt : ∀ t ∈ timeTable, t < 2 ^ 64)
    (hsignals : ∀ s ∈ signals, s.2.Pairwise (fun a b => a.1 ≤ b.1) ∧
      ∀ c ∈ s.2, c.1 < timeTable.length) : Backend where
  timeTable := timeTable
  times_sorted := htimes
  times_lt := hlt
  findSignal name := ((signals.findIdx? fun s => s.1 = name).map (· + 1)).getD 0
  nativeRef ref := ref
  signal ref :=
    if h : 0 < ref ∧ ref - 1 < signals.length then
      some
        { width := 1
          changes := signals[ref - 1].2.map fun c => { timeIdx := c.1, value := { text := c.2 } }
          sorted := List.pairwise_map.2 (hsignals _ (List.getElem_mem h.2)).1 }
    else none
  changes_lt := by
    intro ref data hdata c hc
    split_ifs at hdata with h
    cases hdata
    obtain ⟨c', hc', rfl⟩ := List.mem_map.1 hc
    exact (hsignals _ (List.getElem_mem h.2)).2 c' hc'

lemma timeIndicesOf_sorted (ref : ℕ) : (wf.timeIndicesOf ref).Pairwise (· ≤ ·) :=
  List.pairwise_map.2 (changesOf_sorted ref)

end Backend

end XdebugFst.Waveform
