import Mathlib
import XdebugFst.Waveform.Backend

/-!
# Waveforms with unknown bits filled in

A waveform that results from another one by replacing unknown bits of some signals with 0 or 1.
Nothing else changes: the times, the names and the other signals are the same, and a value
without unknown bits stays what it is. So what a handler may conclude from known values it
concludes on both waveforms.
-/

namespace XdebugFst.Waveform

open Lib Lib.History

/-! ### Values -/

/-- An unknown bit. -/
def isXz (bit : Char) : Bool := bit = 'x' || bit = 'X' || bit = 'z' || bit = 'Z'

/-- The second bit is the first one or takes the place of an unknown bit. -/
def FillsBit (bit bit' : Char) : Prop :=
  bit' = bit ∨ isXz bit = true ∧ (bit' = '0' ∨ bit' = '1')

/-- Some unknown bits of a text are replaced. -/
def FillsText (text text' : String) : Prop := List.Forall₂ FillsBit text.toList text'.toList

/-- Some unknown bits of a value are replaced, if it consists of bits. -/
structure FillsValue (value value' : WaveformValue) : Prop where
  kind : value'.kind = value.kind
  real : value'.real = value.real
  text : if value.kind = .bitVector then FillsText value.text value'.text
    else value'.text = value.text

/-- Some unknown bits of a change are replaced. -/
structure FillsChange (c c' : Change) : Prop where
  timeIdx : c'.timeIdx = c.timeIdx
  value : FillsValue c.value c'.value

lemma FillsBit.refl (bit : Char) : FillsBit bit bit := Or.inl rfl

lemma FillsText.refl (text : String) : FillsText text text :=
  List.forall₂_same.2 fun bit _ => FillsBit.refl bit

lemma FillsValue.refl (value : WaveformValue) : FillsValue value value := by
  refine ⟨rfl, rfl, ?_⟩
  split
  · exact FillsText.refl value.text
  · rfl

lemma FillsValue.fillsText {value value' : WaveformValue} (h : FillsValue value value') :
    FillsText value.text value'.text := by
  have htext := h.text
  split at htext
  · exact htext
  · rw [htext]
    exact FillsText.refl value.text

/-- A text without unknown bits stays. -/
lemma FillsText.eq_of_known {text text' : String} (h : FillsText text text')
    (hknown : text.toList.any isXz = false) : text' = text := by
  have hlist : text'.toList = text.toList := by
    rw [FillsText] at h
    generalize text.toList = l at h hknown
    generalize text'.toList = l' at h
    induction h with
    | nil => rfl
    | cons hbit _ ih =>
        rw [List.any_cons, Bool.or_eq_false_iff] at hknown
        rcases hbit with rfl | ⟨hunknown, -⟩
        · rw [ih hknown.2]
        · rw [hknown.1] at hunknown
          cases hunknown
  exact String.toList_inj.1 hlist

/-- A value without unknown bits stays. -/
lemma FillsValue.eq_of_known {value value' : WaveformValue} (h : FillsValue value value')
    (hknown : value.kind = .bitVector → value.text.toList.any isXz = false) :
    value' = value := by
  obtain ⟨kind, text, real⟩ := value
  obtain ⟨kind', text', real'⟩ := value'
  obtain ⟨rfl, rfl, htext⟩ := h
  have hsame : text' = text := by
    split at htext
    · rename_i hbits
      exact htext.eq_of_known (hknown hbits)
    · exact htext
  rw [hsame]

lemma rel_getElem? {α β : Type} {r : α → β → Prop} {l : List α} {l' : List β}
    (h : List.Forall₂ r l l') (i : ℕ) : Option.Rel r l[i]? l'[i]? := by
  induction h generalizing i with
  | nil => exact Option.Rel.none
  | cons hab _ ih =>
      cases i with
      | zero => exact Option.Rel.some hab
      | succ i => exact ih i

/-- The search for an offset only looks at the time indices. -/
lemma offsetAt_map {f : Change → Change} (hf : ∀ c, (f c).timeIdx = c.timeIdx) (cs : List Change)
    (timeIdx : ℕ) : offsetAt (cs.map f) timeIdx = offsetAt cs timeIdx := by
  have hget (i : ℕ) : ((cs.map f).getD i default).timeIdx = (cs.getD i default).timeIdx := by
    rw [List.getD_eq_getElem?_getD, List.getD_eq_getElem?_getD, List.getElem?_map]
    cases cs[i]? with
    | none => rfl
    | some c => exact hf c
  simp only [offsetAt, List.takeWhile_map, ← List.map_take, ← List.map_drop, ← List.map_reverse,
    List.length_map, hget, Function.comp_def, hf]

/-- Changes at the same time indices have the same offsets. -/
lemma offsetAt_congr {cs cs' : List Change}
    (h : cs'.map Change.timeIdx = cs.map Change.timeIdx) (timeIdx : ℕ) :
    offsetAt cs' timeIdx = offsetAt cs timeIdx := by
  let bare (c : Change) : Change := { timeIdx := c.timeIdx, value := {} }
  have hbare : cs'.map bare = cs.map bare := by
    have hmap := congrArg (List.map fun idx => ({ timeIdx := idx, value := {} } : Change)) h
    rwa [List.map_map, List.map_map] at hmap
  rw [← @offsetAt_map bare (fun _ => rfl) cs', hbare, @offsetAt_map bare (fun _ => rfl) cs]

/-- A sample is filled in as the values that it is chosen from. -/
lemma rel_sampledValue {value value' : ℕ → ℕ → Option WaveformValue}
    (h : ∀ start element, Option.Rel FillsValue (value start element) (value' start element))
    (offset : Option SignalOffset) (timeIdx : ℕ) (point : ObservationPoint) :
    Option.Rel FillsValue ((sampledValue value offset timeIdx point).map SampledValue.value)
      ((sampledValue value' offset timeIdx point).map SampledValue.value) := by
  have hmap (start element : ℕ) (build : WaveformValue → SampledValue)
      (hbuild : ∀ v, (build v).value = v) :
      Option.Rel FillsValue (((value start element).map build).map SampledValue.value)
        (((value' start element).map build).map SampledValue.value) := by
    have hrel := h start element
    generalize value start element = v at hrel
    generalize value' start element = v' at hrel
    cases hrel with
    | none => exact Option.Rel.none
    | some hv =>
        refine Option.Rel.some ?_
        rw [hbuild, hbuild]
        exact hv
  cases offset with
  | none => exact Option.Rel.none
  | some offset =>
      dsimp only [sampledValue]
      split_ifs
      · exact Option.Rel.none
      · exact Option.Rel.none
      · exact hmap _ _ _ fun _ => rfl
      · exact hmap _ _ _ fun _ => rfl

/-! ### Waveforms -/

/-- The second waveform is the first one with unknown bits of the signals in `filled` replaced. -/
structure Fills (filled : ℕ → Prop) (wf wf' : Backend) : Prop where
  timeTable : wf'.timeTable = wf.timeTable
  findSignal : wf'.findSignal = wf.findSignal
  nativeRef : wf'.nativeRef = wf.nativeRef
  width : ∀ ref, (wf'.signal ref).map SignalData.width = (wf.signal ref).map SignalData.width
  changes : ∀ ref, filled ref → List.Forall₂ FillsChange (wf.changesOf ref) (wf'.changesOf ref)
  others : ∀ ref, ¬ filled ref → wf'.changesOf ref = wf.changesOf ref

/-- The value that `sampled_value_at` gives. -/
def Backend.sample (wf : Backend) (ref ti : ℕ) (point : ObservationPoint) :
    Option WaveformValue :=
  (wf.sampledValueAt ref ti point).map SampledValue.value

/-- A sample is the value of a change. -/
lemma Backend.exists_of_sample {wf : Backend} {ref ti : ℕ} {point : ObservationPoint}
    {value : WaveformValue} (h : wf.sample ref ti point = some value) :
    ∃ c ∈ wf.changesOf ref, c.value = value :=
  exists_of_sampledValue (fun _ _ => rfl) h

/-- With fewer than `2 ^ 16` deltas at each time, a sample is the last change that its point sees. -/
lemma Backend.sample_eq {wf : Backend} {ref : ℕ} (h : IsHistory (wf.changesOf ref)) (ti : ℕ)
    (point : ObservationPoint) :
    wf.sample ref ti point = (lastWhere (point.sees ti) (wf.changesOf ref)).map Change.value :=
  sampledValue_eq h (fun _ _ => rfl) (isOffset_offsetAt h.sorted ti) point

namespace Fills

variable {filled : ℕ → Prop} {wf wf' : Backend}

lemma timeAt (h : Fills filled wf wf') (ti : ℕ) : wf'.timeAt ti = wf.timeAt ti := by
  rw [Backend.timeAt, Backend.timeAt, h.timeTable]

lemma offsetAt_changesOf (h : Fills filled wf wf') (ref ti : ℕ) :
    offsetAt (wf'.changesOf ref) ti = offsetAt (wf.changesOf ref) ti := by
  by_cases hfilled : filled ref
  · refine offsetAt_congr ?_ ti
    have hrel := h.changes ref hfilled
    generalize wf.changesOf ref = cs at hrel
    generalize wf'.changesOf ref = cs' at hrel
    induction hrel with
    | nil => rfl
    | cons hc _ ih => rw [List.map_cons, List.map_cons, hc.timeIdx, ih]
  · rw [h.others ref hfilled]

/-- Every sample of the second waveform is one of the first with unknown bits replaced. -/
lemma rel_sample (h : Fills filled wf wf') (ref ti : ℕ) (point : ObservationPoint) :
    Option.Rel FillsValue (wf.sample ref ti point) (wf'.sample ref ti point) := by
  rw [Backend.sample, Backend.sample, Backend.sampledValueAt, Backend.sampledValueAt,
    Backend.signalOffsetAt, Backend.signalOffsetAt, h.offsetAt_changesOf ref ti]
  refine rel_sampledValue (fun start element => ?_) _ ti point
  rw [Backend.signalTypedValueAt, Backend.signalTypedValueAt]
  have hchange : Option.Rel FillsChange (wf.changesOf ref)[start + element]?
      (wf'.changesOf ref)[start + element]? := by
    by_cases hfilled : filled ref
    · exact rel_getElem? (h.changes ref hfilled) _
    · rw [h.others ref hfilled]
      cases (wf.changesOf ref)[start + element]? with
      | none => exact Option.Rel.none
      | some c => exact Option.Rel.some ⟨rfl, FillsValue.refl c.value⟩
  generalize (wf.changesOf ref)[start + element]? = c at hchange
  generalize (wf'.changesOf ref)[start + element]? = c' at hchange
  cases hchange with
  | none => exact Option.Rel.none
  | some hc => exact Option.Rel.some hc.value

/-- The text of a sample, with the texts that stand for a missing sample. -/
lemma fillsText_sample (h : Fills filled wf wf') {ref : ℕ} (ti : ℕ) (point : ObservationPoint)
    {missing missing' : String} (hmissing : FillsText missing missing') :
    FillsText (((wf.sample ref ti point).map WaveformValue.text).getD missing)
      (((wf'.sample ref ti point).map WaveformValue.text).getD missing') := by
  have hsample := h.rel_sample ref ti point
  generalize wf.sample ref ti point = sample at hsample
  generalize wf'.sample ref ti point = sample' at hsample
  cases hsample with
  | none => exact hmissing
  | some hvalue => exact hvalue.fillsText

/-- The other signals have the same samples. -/
lemma sampledValueAt (h : Fills filled wf wf') {ref : ℕ} (hother : ¬ filled ref) (ti : ℕ)
    (point : ObservationPoint) : wf'.sampledValueAt ref ti point = wf.sampledValueAt ref ti point := by
  have hchanges := h.others ref hother
  rw [Backend.sampledValueAt, Backend.sampledValueAt, Backend.signalOffsetAt,
    Backend.signalOffsetAt, hchanges]
  congr 1
  funext start element
  rw [Backend.signalTypedValueAt, Backend.signalTypedValueAt, hchanges]

end Fills

end XdebugFst.Waveform
