import XdebugFst.Lib.Throws
import XdebugFst.Waveform.PackedSelect

/-!
# A packed selection refines its base signal

Sampling a selection gives the selected bits of what sampling the base gives, at every
time index and observation point.  The changes of the selection are those of the base with
the selected bits as values, less those that change nothing: a `History.dedup`.  Sampling
looks at the last change it can see, and `dedup` does not change what that change shows.

The backend keeps the changes of a selection in a cache.  `Inv` says that a cached list is
the one that would be computed, and every call of the backend keeps that.
-/

namespace XdebugFst.Waveform

open Lib Lib.History

/-! ### Selecting bits -/

/-- The bounds of the selection lie in the declared range, and its base is a signal of the
waveform. -/
structure PackedSelection.InRange (sel : PackedSelection) : Prop where
  native : sel.baseRef < kVirtualSignalFlag
  msb_low : min sel.declaredMsb sel.declaredLsb ≤ sel.selectedMsb
  msb_high : sel.selectedMsb ≤ max sel.declaredMsb sel.declaredLsb
  lsb_low : min sel.declaredMsb sel.declaredLsb ≤ sel.selectedLsb
  lsb_high : sel.selectedLsb ≤ max sel.declaredMsb sel.declaredLsb

lemma selectedIndices_bounds {msb lsb bit : ℤ} (h : bit ∈ selectedIndices msb lsb) :
    min msb lsb ≤ bit ∧ bit ≤ max msb lsb := by
  obtain ⟨k, hk, rfl⟩ := List.mem_map.1 h
  have hk' : k < rangeWidth msb lsb := List.mem_range.1 hk
  unfold rangeWidth at hk'
  split_ifs at hk' ⊢ <;> omega

lemma packedBit_isSome {declaredMsb declaredLsb bit : ℤ} {source : List Char}
    (hlen : source.length = rangeWidth declaredMsb declaredLsb)
    (hlow : min declaredMsb declaredLsb ≤ bit) (hhigh : bit ≤ max declaredMsb declaredLsb) :
    (packedBit declaredMsb declaredLsb source bit).isSome := by
  unfold packedBit
  unfold rangeWidth at hlen
  simp only
  have hnonneg : 0 ≤ if declaredMsb ≥ declaredLsb then declaredMsb - bit else bit - declaredMsb := by
    split_ifs <;> omega
  rw [if_pos hnonneg, List.getElem?_eq_getElem, Option.isSome_some]
  split_ifs at hlen ⊢ <;> omega

/-- The selected bits of a text of the declared width. -/
lemma PackedSelection.InRange.exists_select {sel : PackedSelection} (h : sel.InRange)
    {source : String} (hlen : source.length = rangeWidth sel.declaredMsb sel.declaredLsb) :
    ∃ text, selectPackedBits sel source = some text := by
  rw [← Option.isSome_iff_exists]
  unfold selectPackedBits
  rw [if_neg (by simpa using hlen.symm), Option.isSome_map]
  refine Lib.isSome_mapM.2 fun bit hbit => ?_
  obtain ⟨hlow, hhigh⟩ := selectedIndices_bounds hbit
  refine packedBit_isSome (by rwa [String.length_toList]) ?_ ?_
  · have := h.msb_low
    have := h.lsb_low
    omega
  · have := h.msb_high
    have := h.lsb_high
    omega

/-! ### The changes of a selection -/

/-- The change with the selected bits as value. -/
def selectChange (sel : PackedSelection) (c : Change) : Change :=
  { timeIdx := c.timeIdx, value := { text := (selectPackedBits sel c.value.text).getD "" } }

/-- The text that a change shows. -/
def Change.text (c : Change) : String := c.value.text

/-- The loop keeps the changes that are not equal to their predecessor. -/
lemma selectLoop_eq (value : ℕ → Option WaveformValue) (sel : PackedSelection) (cs : List Change)
    (k : ℕ) (selected : List Change) (previous : String)
    (hvalue : ∀ i c, cs[i]? = some c → value (k + i) = some c.value)
    (hkind : ∀ c ∈ cs, c.value.kind = .bitVector)
    (hsel : ∀ c ∈ cs, ∃ text, selectPackedBits sel c.value.text = some text) :
    Wellen.selectLoop value sel ((cs.map Change.timeIdx).zipIdx k) selected previous =
      some (selected ++ dedup Change.text (if selected.isEmpty then none else some previous)
        (cs.map (selectChange sel))) := by
  induction cs generalizing k selected previous with
  | nil => simp [Wellen.selectLoop, dedup]
  | cons c cs ih =>
      have hv : value k = some c.value := by simpa using hvalue 0 c rfl
      obtain ⟨text, htext⟩ := hsel c (by simp)
      have hchange : selectChange sel c = { timeIdx := c.timeIdx, value := { text := text } } := by
        simp [selectChange, htext]
      have ih' := fun selected previous => ih (k + 1) selected previous
        (fun i c hc => by
          rw [Nat.add_assoc, Nat.add_comm 1 i]
          exact hvalue (i + 1) c (by simpa using hc))
        (fun c hc => hkind c (List.mem_cons_of_mem _ hc))
        (fun c hc => hsel c (List.mem_cons_of_mem _ hc))
      rw [List.map_cons, List.zipIdx_cons, List.map_cons]
      simp only [Wellen.selectLoop, hv, hkind c (by simp), htext, ne_eq, not_true_eq_false,
        if_false, dedup, hchange, Change.text]
      cases selected with
      | nil =>
          simp only [List.isEmpty_nil, Bool.not_true, Bool.false_and, Bool.false_eq_true, if_false,
            if_true, reduceCtorEq, ih']
          rfl
      | cons first selected =>
          simp only [List.isEmpty_cons, Bool.not_false, Bool.true_and, decide_eq_true_eq,
            Bool.false_eq_true, if_false, Option.some.injEq]
          by_cases hp : text = previous
          · subst hp
            rw [if_pos rfl, if_pos rfl, ih']
            rfl
          · rw [if_neg hp, if_neg (Ne.symm hp), ih']
            simp

/-- What the C interface promises about a bit vector that is loaded: a list of changes in
the order of their times, with values of the given width. -/
structure LoadedBitVector (capi : Capi) (st : Wellen) (ref width : ℕ) (cs : List Change) :
    Prop where
  loaded : ref ∈ st.loaded
  info : capi.hasInfo ref = true
  history : IsHistory cs
  indices : capi.timeIndices ref = some (cs.map Change.timeIdx)
  values : ∀ start element, capi.typedValue ref start element =
    (cs[start + element]?).map Change.value
  kind : ∀ c ∈ cs, c.value.kind = .bitVector
  width_eq : ∀ c ∈ cs, c.value.text.length = width
  offset : ∀ timeIdx, IsOffset cs timeIdx (capi.signalOffset ref timeIdx)

lemma LoadedBitVector.computeSelected {capi : Capi} {st : Wellen} {sel : PackedSelection}
    {cs : List Change} (hsel : sel.InRange)
    (h : LoadedBitVector capi st sel.baseRef (rangeWidth sel.declaredMsb sel.declaredLsb) cs) :
    st.computeSelected capi sel = some (dedup Change.text none (cs.map (selectChange sel))) := by
  have hinfo : st.hasInfo capi sel.baseRef = true := by
    simp [Wellen.hasInfo, h.loaded, h.info]
  have hloop := selectLoop_eq
    (fun ordinal => st.nativeTypedValueAt capi sel.baseRef ordinal 0) sel cs 0 [] ""
    (fun i c hc => by simp [Wellen.nativeTypedValueAt, h.loaded, h.values, hc]) h.kind
    (fun c hc => hsel.exists_select (h.width_eq c hc))
  rw [Wellen.computeSelected, if_pos hinfo, Wellen.nativeTimeIndicesOf, if_pos hinfo, h.indices]
  simpa using hloop

lemma isHistory_map_selectChange {cs : List Change} (h : IsHistory cs) (sel : PackedSelection) :
    IsHistory (cs.map (selectChange sel)) := by
  refine ⟨List.pairwise_map.2 h.sorted, fun g => ?_⟩
  rw [List.countP_map]
  exact h.deltas_lt g

lemma lastWhere_map_selectChange (sel : PackedSelection) (point : ObservationPoint)
    (timeIdx : ℕ) (cs : List Change) :
    lastWhere (point.sees timeIdx) (cs.map (selectChange sel)) =
      (lastWhere (point.sees timeIdx) cs).map (selectChange sel) := by
  rw [lastWhere, List.filter_map, List.getLast?_map, lastWhere]
  congr 3

/-- The changes that an observation point sees are an initial part of a history. -/
lemma IsHistory.pairwise_sees {cs : List Change} (h : IsHistory cs) (point : ObservationPoint)
    (timeIdx : ℕ) :
    cs.Pairwise fun a b => point.sees timeIdx b = true → point.sees timeIdx a = true := by
  refine h.sorted.imp fun {a b} hab hb => ?_
  cases point <;> simp only [ObservationPoint.sees, decide_eq_true_eq] at hb ⊢ <;> omega

/-! ### The states of the backend -/

namespace Wellen

variable {capi : Capi} {st : Wellen}

/-- The selections are in range, and the cache holds what would be computed. -/
structure Inv (capi : Capi) (st : Wellen) : Prop where
  inRange : ∀ sel ∈ st.packedSelections, sel.InRange
  cache : ∀ handle cs, st.selectedChangeCache.find? handle = some cs →
    ∃ sel, st.packedSelection handle = some sel ∧ st.computeSelected capi sel = some cs

lemma mem_of_packedSelection {handle : ℕ} {sel : PackedSelection}
    (h : st.packedSelection handle = some sel) : sel ∈ st.packedSelections := by
  unfold packedSelection at h
  simp only at h
  split_ifs at h
  exact List.mem_of_getElem? h

lemma packedSelection_of_lt {ref : ℕ} (h : ref < kVirtualSignalFlag) :
    st.packedSelection ref = none := by
  simp [packedSelection, h]

/-- A handle keeps its selection when further ones are created. -/
lemma packedSelection_append {handle : ℕ} {sel : PackedSelection} (new : PackedSelection)
    {index : OrderedMap String ℕ} (h : st.packedSelection handle = some sel) :
    ({ st with
        packedSelections := st.packedSelections ++ [new]
        packedSelectionIndex := index } : Wellen).packedSelection handle = some sel := by
  unfold packedSelection at h ⊢
  simp only at h ⊢
  split_ifs at h ⊢
  rw [List.getElem?_append_left (List.getElem?_eq_some_iff.1 h).1]
  exact h

/-- The changes of a selection depend only on whether its base is loaded. -/
lemma computeSelected_congr {st' : Wellen} {sel : PackedSelection}
    (h : st'.loaded.contains sel.baseRef = st.loaded.contains sel.baseRef) :
    st'.computeSelected capi sel = st.computeSelected capi sel := by
  cases hc : st.loaded.contains sel.baseRef <;>
    simp only [computeSelected, hasInfo, nativeTimeIndicesOf, nativeTypedValueAt, h, hc]

lemma loaded_of_computeSelected {sel : PackedSelection} {cs : List Change}
    (h : st.computeSelected capi sel = some cs) : st.loaded.contains sel.baseRef = true := by
  unfold computeSelected at h
  split_ifs at h with hinfo
  exact (Bool.and_eq_true_iff.1 hinfo).1

/-- What a valid path asks for is in range. -/
lemma inRange_of_selectionOf {path : String} {sel : PackedSelection}
    (h : st.selectionOf path = some sel) : sel.InRange := by
  unfold selectionOf at h
  split at h
  · cases h
  · split at h
    · split_ifs at h with hvalid
      cases h
      obtain ⟨hbase, -, -, h₁, h₂, h₃, h₄, -⟩ := hvalid
      exact ⟨hbase, h₁, h₂, h₃, h₄⟩
    · cases h

lemma Inv.createPackedSelection (h : Inv capi st) (path : String) :
    Inv capi (st.createPackedSelection path).2 := by
  unfold Wellen.createPackedSelection
  cases hidx : st.packedSelectionIndex.find? path with
  | some handle => exact h
  | none =>
      cases hsel : st.selectionOf path with
      | none => exact h
      | some sel =>
          refine ⟨fun sel' hmem => ?_, fun handle cs hcs => ?_⟩
          · rcases List.mem_append.1 hmem with hmem | hmem
            · exact h.inRange sel' hmem
            · rw [List.mem_singleton.1 hmem]
              exact inRange_of_selectionOf hsel
          · obtain ⟨sel', hsel', hcomp⟩ := h.cache handle cs hcs
            exact ⟨sel', packedSelection_append sel hsel', hcomp⟩

lemma Inv.loadSignals (h : Inv capi st) (refs : List ℕ) : Inv capi (st.loadSignals refs) := by
  unfold Wellen.loadSignals
  dsimp only
  split_ifs
  · exact h
  · refine ⟨h.inRange, fun handle cs hcs => ?_⟩
    obtain ⟨sel, hsel, hcomp⟩ := h.cache handle cs hcs
    have hbase := loaded_of_computeSelected hcomp
    refine ⟨sel, hsel, (computeSelected_congr ?_).trans hcomp⟩
    simp only [List.contains_eq_mem, decide_eq_true_eq] at hbase ⊢
    simp [hbase]

lemma Inv.unloadSignals (h : Inv capi st) (refs : List ℕ) : Inv capi (st.unloadSignals refs) := by
  unfold Wellen.unloadSignals
  dsimp only
  split_ifs
  · exact h
  · refine ⟨h.inRange, fun handle cs hcs => ?_⟩
    obtain ⟨hcs, hkeep⟩ := (OrderedMap.find?_filter_eq_some_iff _).1 hcs
    obtain ⟨sel, hsel, hcomp⟩ := h.cache handle cs hcs
    have hbase := loaded_of_computeSelected hcomp
    rw [hsel] at hkeep
    refine ⟨sel, hsel, (computeSelected_congr ?_).trans hcomp⟩
    simp only [List.contains_eq_mem, decide_eq_true_eq] at hbase
    rw [List.contains_eq_mem, List.contains_eq_mem, decide_eq_true hbase, decide_eq_true_eq]
    exact List.mem_filter.2 ⟨hbase, hkeep⟩

/-- Asking for the changes of a selection leaves the state as it is, or puts them into the
cache. -/
lemma selectedChanges_cases (st : Wellen) (handle : ℕ) :
    (st.selectedChanges capi handle).2 = st ∨
      ∃ sel changes, st.packedSelection handle = some sel ∧
        st.computeSelected capi sel = some changes ∧
        (st.selectedChanges capi handle).2 =
          { st with selectedChangeCache := st.selectedChangeCache.insert handle changes } := by
  rw [Wellen.selectedChanges]
  cases st.selectedChangeCache.find? handle with
  | some changes => exact .inl rfl
  | none =>
      cases hsel : st.packedSelection handle with
      | none => exact .inl rfl
      | some sel =>
          dsimp only
          cases hcomp : st.computeSelected capi sel with
          | none => exact .inl rfl
          | some changes => exact .inr ⟨sel, changes, rfl, hcomp, rfl⟩

/-- What a query puts into the cache is what would be computed. -/
lemma Inv.selectedChanges_state (h : Inv capi st) (handle : ℕ) :
    Inv capi (st.selectedChanges capi handle).2 := by
  rcases selectedChanges_cases st handle with heq | ⟨sel, cs, hsel, hcomp, heq⟩
  · rw [heq]
    exact h
  · rw [heq]
    refine ⟨h.inRange, fun handle' cs' hcs' => ?_⟩
    rcases (OrderedMap.find?_insert_eq_some_iff _).1 hcs' with ⟨rfl, rfl⟩ | ⟨-, hcs'⟩
    · exact ⟨sel, hsel, hcomp⟩
    · exact h.cache handle' cs' hcs'

lemma selectedChanges_loaded (st : Wellen) (handle : ℕ) :
    (st.selectedChanges capi handle).2.loaded = st.loaded ∧
      (st.selectedChanges capi handle).2.packedSelections = st.packedSelections := by
  rcases selectedChanges_cases st handle with heq | ⟨sel, changes, -, -, heq⟩ <;>
    rw [heq]
  · exact ⟨rfl, rfl⟩
  · exact ⟨rfl, rfl⟩

/-- The list that a query gets, and the state it leaves. -/
lemma Inv.selectedChanges (h : Inv capi st) {handle : ℕ} {sel : PackedSelection}
    (hsel : st.packedSelection handle = some sel) :
    (st.selectedChanges capi handle).1 = (st.computeSelected capi sel).getD [] ∧
      Inv capi (st.selectedChanges capi handle).2 ∧
      (st.selectedChanges capi handle).2.loaded = st.loaded ∧
      (st.selectedChanges capi handle).2.packedSelections = st.packedSelections := by
  refine ⟨?_, h.selectedChanges_state handle, selectedChanges_loaded st handle⟩
  rw [Wellen.selectedChanges]
  cases hcache : st.selectedChangeCache.find? handle with
  | some cs =>
      obtain ⟨sel', hsel', hcomp⟩ := h.cache handle cs hcache
      obtain rfl : sel = sel' := Option.some.inj (hsel.symm.trans hsel')
      rw [hcomp]
      rfl
  | none =>
      dsimp only
      rw [hsel]
      dsimp only
      cases st.computeSelected capi sel <;> rfl

lemma packedSelection_congr {st' : Wellen} (h : st'.packedSelections = st.packedSelections)
    (ref : ℕ) : st'.packedSelection ref = st.packedSelection ref := by
  simp only [packedSelection, h]

/-- Sampling a selection samples its list of changes. -/
lemma Inv.sampledValueAt (h : Inv capi st) {handle : ℕ} {sel : PackedSelection}
    (hsel : st.packedSelection handle = some sel) (timeIdx : ℕ) (point : ObservationPoint) :
    (st.sampledValueAt capi handle timeIdx point).1 =
        sampledValue
          (fun start element =>
            (((st.computeSelected capi sel).getD [])[start + element]?).map Change.value)
          (offsetAt ((st.computeSelected capi sel).getD []) timeIdx) timeIdx point ∧
      Inv capi (st.sampledValueAt capi handle timeIdx point).2 := by
  obtain ⟨heq, hinv, hloaded, hsels⟩ := h.selectedChanges hsel
  have hoff : st.signalOffsetAt capi handle timeIdx =
      (offsetAt ((st.computeSelected capi sel).getD []) timeIdx,
        (st.selectedChanges capi handle).2) := by
    simp only [signalOffsetAt, hsel, heq]
  have hsel' : (st.selectedChanges capi handle).2.packedSelection handle = some sel := by
    rw [packedSelection_congr hsels, hsel]
  obtain ⟨heq', -, -, -⟩ := hinv.selectedChanges hsel'
  have hcomp : (st.selectedChanges capi handle).2.computeSelected capi sel =
      st.computeSelected capi sel := computeSelected_congr (by rw [hloaded])
  simp only [Wellen.sampledValueAt, hoff, signalTypedValueAt, hsel', heq', hcomp]
  exact ⟨trivial, hinv⟩

/-- Sampling a signal of the waveform asks the C interface. -/
lemma sampledValueAt_native {ref : ℕ} (h : st.packedSelection ref = none) (timeIdx : ℕ)
    (point : ObservationPoint) :
    st.sampledValueAt capi ref timeIdx point =
      (sampledValue (fun start element => st.nativeTypedValueAt capi ref start element)
        (if st.loaded.contains ref then capi.signalOffset ref timeIdx else none) timeIdx point,
        st) := by
  simp only [Wellen.sampledValueAt, signalOffsetAt, signalTypedValueAt, h]

/-- A call of the backend. -/
inductive Call
  | createPackedSelection (normalizedPath : String)
  | loadSignals (refs : List ℕ)
  | unloadSignals (refs : List ℕ)
  | sampledValueAt (ref timeIdx : ℕ) (point : ObservationPoint)

/-- The state after a call. -/
def step (capi : Capi) (st : Wellen) : Call → Wellen
  | .createPackedSelection path => (st.createPackedSelection path).2
  | .loadSignals refs => st.loadSignals refs
  | .unloadSignals refs => st.unloadSignals refs
  | .sampledValueAt ref timeIdx point => (st.sampledValueAt capi ref timeIdx point).2

/-- The backend right after the signal index has been built. -/
def opened (signalIndex : OrderedMap String ℕ) (declaredRanges : OrderedMap String DeclaredRange) :
    Wellen :=
  { signalIndex := signalIndex, declaredRanges := declaredRanges }

/-- The state after a list of calls. -/
def run (capi : Capi) (signalIndex : OrderedMap String ℕ)
    (declaredRanges : OrderedMap String DeclaredRange) (calls : List Call) : Wellen :=
  calls.foldl (step capi) (opened signalIndex declaredRanges)

lemma Inv.step (h : Inv capi st) (call : Call) : Inv capi (st.step capi call) := by
  cases call with
  | createPackedSelection path => exact h.createPackedSelection path
  | loadSignals refs => exact h.loadSignals refs
  | unloadSignals refs => exact h.unloadSignals refs
  | sampledValueAt ref timeIdx point =>
      cases hsel : st.packedSelection ref with
      | none =>
          simp only [Wellen.step, sampledValueAt_native hsel]
          exact h
      | some sel => exact (h.sampledValueAt hsel timeIdx point).2

/-- The invariant holds after every list of calls. -/
lemma inv_run (capi : Capi) (signalIndex : OrderedMap String ℕ)
    (declaredRanges : OrderedMap String DeclaredRange) (calls : List Call) :
    Inv capi (run capi signalIndex declaredRanges calls) := by
  have hopened : Inv capi (opened signalIndex declaredRanges) := by
    refine ⟨by simp [opened], ?_⟩
    intro handle cs hcs
    simp [opened] at hcs
  unfold run
  induction calls using List.reverseRecOn with
  | nil => exact hopened
  | append_singleton calls call ih =>
      rw [List.foldl_append]
      exact ih.step call

end Wellen

/-- Sampling the base reads the last change that the observation point sees. -/
lemma LoadedBitVector.sampledValueAt {capi : Capi} {st : Wellen} {ref width : ℕ}
    {cs : List Change} (h : LoadedBitVector capi st ref width cs) (hnative : ref < kVirtualSignalFlag)
    (timeIdx : ℕ) (point : ObservationPoint) :
    ((st.sampledValueAt capi ref timeIdx point).1).map SampledValue.value =
      (lastWhere (point.sees timeIdx) cs).map Change.value := by
  rw [Wellen.sampledValueAt_native (Wellen.packedSelection_of_lt hnative)]
  refine sampledValue_eq h.history (fun start element => ?_) ?_ point
  · simp [Wellen.nativeTypedValueAt, h.loaded, h.values]
  · simpa [h.loaded] using h.offset timeIdx

/-- Sampling a selection shows the selected bits of the last change of the base. -/
lemma LoadedBitVector.text_sampledValueAt {capi : Capi} {st : Wellen}
    (hinv : Wellen.Inv capi st) {handle : ℕ} {sel : PackedSelection}
    (hsel : st.packedSelection handle = some sel) {cs : List Change}
    (hbase : LoadedBitVector capi st sel.baseRef
      (rangeWidth sel.declaredMsb sel.declaredLsb) cs)
    (timeIdx : ℕ) (point : ObservationPoint) :
    ((st.sampledValueAt capi handle timeIdx point).1).map (fun v => v.value.text) =
      (lastWhere (point.sees timeIdx) cs).map fun c => (selectChange sel c).text := by
  have hrange := hinv.inRange sel (Wellen.mem_of_packedSelection hsel)
  have hvirtual := (hinv.sampledValueAt hsel timeIdx point).1
  rw [hbase.computeSelected hrange, Option.getD_some] at hvirtual
  set vs := dedup Change.text none (cs.map (selectChange sel)) with hvs
  have hvsHistory : IsHistory vs :=
    (isHistory_map_selectChange hbase.history sel).sublist (dedup_sublist _ _ _)
  have hv := sampledValue_eq hvsHistory (fun _ _ => rfl) (isOffset_offsetAt hvsHistory.sorted timeIdx)
    point
  rw [← hvirtual] at hv
  have hshow : (lastWhere (point.sees timeIdx) vs).map Change.text =
      (lastWhere (point.sees timeIdx) cs).map fun c => (selectChange sel c).text := by
    rw [hvs, lastWhere_dedup_none
        ((isHistory_map_selectChange hbase.history sel).pairwise_sees point timeIdx),
      lastWhere_map_selectChange, Option.map_map]
    rfl
  rw [← hshow]
  have := congrArg (Option.map WaveformValue.text) hv
  rwa [Option.map_map, Option.map_map] at this

/-- After every list of calls, sampling a selection succeeds when sampling its base does, and
gives the selected bits of what the base gives. -/
theorem sampledValueAt_packedSelection (capi : Capi) (signalIndex : OrderedMap String ℕ)
    (declaredRanges : OrderedMap String DeclaredRange) (calls : List Wellen.Call)
    {st : Wellen} (hst : st = Wellen.run capi signalIndex declaredRanges calls)
    {handle : ℕ} {sel : PackedSelection} (hsel : st.packedSelection handle = some sel)
    {cs : List Change}
    (hbase : LoadedBitVector capi st sel.baseRef
      (rangeWidth sel.declaredMsb sel.declaredLsb) cs)
    (timeIdx : ℕ) (point : ObservationPoint) :
    ((st.sampledValueAt capi handle timeIdx point).1.isSome ↔
      (st.sampledValueAt capi sel.baseRef timeIdx point).1.isSome) ∧
    ∀ v base, (st.sampledValueAt capi handle timeIdx point).1 = some v →
      (st.sampledValueAt capi sel.baseRef timeIdx point).1 = some base →
      selectPackedBits sel base.value.text = some v.value.text := by
  have hinv : Wellen.Inv capi st := hst ▸ Wellen.inv_run capi signalIndex declaredRanges calls
  have hrange := hinv.inRange sel (Wellen.mem_of_packedSelection hsel)
  have hb := hbase.sampledValueAt hrange.native timeIdx point
  have htext := hbase.text_sampledValueAt hinv hsel timeIdx point
  cases hlast : lastWhere (point.sees timeIdx) cs with
  | none =>
      rw [hlast, Option.map_none, Option.map_eq_none_iff] at hb htext
      simp [hb, htext]
  | some c =>
      rw [hlast, Option.map_some, Option.map_eq_some_iff] at hb htext
      obtain ⟨b, hb, hbc⟩ := hb
      obtain ⟨v, hv, hvc⟩ := htext
      have hmem : c ∈ cs := (List.mem_filter.1 (List.mem_of_getLast? hlast)).1
      obtain ⟨text, hsome⟩ := hrange.exists_select (hbase.width_eq c hmem)
      refine ⟨by simp [hb, hv], fun v' b' hv' hb' => ?_⟩
      obtain rfl : v = v' := Option.some.inj (hv.symm.trans hv')
      obtain rfl : b = b' := Option.some.inj (hb.symm.trans hb')
      rw [hbc, hvc, hsome]
      simp [selectChange, Change.text, hsome]

/-- Changes of a four-bit signal, two of them at one time. -/
def busChanges : List Change :=
  [⟨0, { text := "0001" }⟩, ⟨5, { text := "0011" }⟩, ⟨5, { text := "0111" }⟩]

/-- A waveform with that signal. -/
def busCapi : Capi where
  hasInfo ref := ref = 1
  timeIndices ref := if ref = 1 then some (busChanges.map Change.timeIdx) else none
  typedValue ref start element :=
    if ref = 1 then (busChanges[start + element]?).map Change.value else none
  signalOffset ref timeIdx := if ref = 1 then offsetAt busChanges timeIdx else none

/-- The backend after `bus[1:0]` has been looked up and loaded. -/
def busState : Wellen :=
  Wellen.run busCapi (OrderedMap.empty.insert "bus" 1) (OrderedMap.empty.insert "bus" ⟨3, 0, 4⟩)
    [.createPackedSelection "bus[1:0]", .loadSignals [kVirtualSignalFlag + 1]]

lemma busChanges_isHistory : IsHistory busChanges := by
  refine ⟨by decide, fun g => ?_⟩
  have hle : busChanges.countP (fun c => c.timeIdx = g) ≤ busChanges.length :=
    List.countP_le_length
  exact hle.trans_lt (by decide)

lemma busState_packedSelection :
    busState.packedSelection (kVirtualSignalFlag + 1) = some ⟨1, 3, 0, 1, 0, 2⟩ := by
  decide +kernel

theorem sampledValueAt_busState :
    ((busState.sampledValueAt busCapi (kVirtualSignalFlag + 1) 5 .before).1.isSome ↔
      (busState.sampledValueAt busCapi 1 5 .before).1.isSome) ∧
    ∀ v base, (busState.sampledValueAt busCapi (kVirtualSignalFlag + 1) 5 .before).1 = some v →
      (busState.sampledValueAt busCapi 1 5 .before).1 = some base →
      selectPackedBits ⟨1, 3, 0, 1, 0, 2⟩ base.value.text = some v.value.text :=
  sampledValueAt_packedSelection busCapi _ _ _ rfl busState_packedSelection
    { loaded := by decide +kernel
      info := rfl
      history := busChanges_isHistory
      indices := rfl
      values := fun _ _ => rfl
      kind := by decide
      width_eq := by decide
      offset := fun timeIdx => isOffset_offsetAt busChanges_isHistory.sorted timeIdx } 5 .before

end XdebugFst.Waveform
