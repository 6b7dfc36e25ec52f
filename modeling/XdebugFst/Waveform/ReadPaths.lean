import XdebugFst.Waveform.SelectRefines

/-!
# The read paths of the Wellen backend

Besides sampling, the backend has `scan_changes`, which lists the changes in a window of time
indices, `signal_change_at`, which reads one change by its ordinal, and `delta_values_at`,
which reads all values of one time. Each walks over the changes in its own way, and each
asks the C interface for a signal of the waveform and the cache for a packed selection.

`Queries` says that a function does nothing to the state but ask for the changes of selections,
and `Kept` that this leaves the signals as they were. From these, every function is described
by the list alone: `readsAgree_of_reachable`.

An offset keeps the number of deltas of its time in 16 bits. Sampling and `delta_values_at` read
by that number, so that what they answer is stated for times with fewer than `2 ^ 16` deltas. The
two other paths do not depend on it.
-/

namespace XdebugFst.Waveform

open Lib Lib.History

/-- `SignalInfo`. -/
structure SignalInfo where
  encoding : ValueKind
  numChanges : ℕ
  maxStates : ℕ
  width : ℕ
  bytesPerEntry : ℕ
  hasMetaByte : Bool
  deriving DecidableEq, Repr

/-- `SignalChange`. -/
structure SignalChange where
  timeIdx : ℕ
  time : ℕ
  /-- A `uint16_t`. -/
  delta : ℕ
  value : WaveformValue
  deriving DecidableEq, Repr

/-- `ScanDiagnostics`. -/
structure ScanDiagnostics where
  totalCount : ℕ
  returnedCount : ℕ
  width : ℕ
  encoding : ValueKind
  scanComplete : Bool
  analysisComplete : Bool
  truncated : Bool
  deriving DecidableEq, Repr

/-- What `wellen_signal_info` says about the signals, and the time table. -/
structure Tables where
  nativeInfo : ℕ → SignalInfo
  timeTable : List ℕ

/-- `time_at`. -/
def Tables.timeAt (tables : Tables) (idx : ℕ) : ℕ := tables.timeTable.getD idx 0

/-- The loop that counts the changes before an ordinal which have the same time. -/
def deltaLoop (indices : List ℕ) (timeIdx : ℕ) : ℕ → ℕ → ℕ
  | 0, delta => delta
  | index + 1, delta =>
      if indices.getD index 0 = timeIdx then deltaLoop indices timeIdx index ((delta + 1) % 2 ^ 16)
      else delta

namespace Wellen

section Definitions

variable (capi : Capi) (tables : Tables)

/-- `signal_info`. -/
def signalInfo (st : Wellen) (signalRef : ℕ) : Option SignalInfo × Wellen :=
  let native := st.nativeSignalRef signalRef
  if !st.hasInfo capi native then (none, st)
  else
    let info := tables.nativeInfo native
    match st.packedSelection signalRef with
    | none => (some info, st)
    | some selection =>
        let (changes, st) := st.selectedChanges capi signalRef
        (some
          { info with
            width := selection.width
            numChanges := changes.length
            bytesPerEntry := (selection.width + 7) / 8
            hasMetaByte := info.maxStates > 2 && selection.width ≥ 8 }, st)

/-- `time_indices_of`. -/
def timeIndicesOf (st : Wellen) (signalRef : ℕ) : List ℕ × Wellen :=
  match st.packedSelection signalRef with
  | some _ =>
      let (changes, st) := st.selectedChanges capi signalRef
      (changes.map Change.timeIdx, st)
  | none => (st.nativeTimeIndicesOf capi signalRef, st)

/-- `signal_change_at`. -/
def signalChangeAt (st : Wellen) (signalRef ordinal : ℕ) : Option SignalChange × Wellen :=
  let (indices, st) := st.timeIndicesOf capi signalRef
  match indices[ordinal]? with
  | none => (none, st)
  | some timeIdx =>
      let (value, st) := st.signalTypedValueAt capi signalRef ordinal 0
      (value.map fun value =>
        ⟨timeIdx, tables.timeAt timeIdx, deltaLoop indices timeIdx ordinal 0, value⟩, st)

/-- The loop of `scan_changes` over the time indices with their ordinals. -/
def scanLoop (signalRef beginTimeIdx endTimeIdx limit : ℕ) (indices : List ℕ) :
    List (ℕ × ℕ) → List SignalChange → ℕ → Wellen → Option (List SignalChange × ℕ) × Wellen
  | [], out, totalCount, st => (some (out, totalCount), st)
  | (timeIdx, ordinal) :: rest, out, totalCount, st =>
      if timeIdx < beginTimeIdx || timeIdx > endTimeIdx then
        scanLoop signalRef beginTimeIdx endTimeIdx limit indices rest out totalCount st
      else
        let totalCount := (totalCount + 1) % 2 ^ 32
        if limit ≠ 0 && out.length ≥ limit then
          scanLoop signalRef beginTimeIdx endTimeIdx limit indices rest out totalCount st
        else
          let (value, st) := st.signalTypedValueAt capi signalRef ordinal 0
          match value with
          | none => (none, st)
          | some value =>
              scanLoop signalRef beginTimeIdx endTimeIdx limit indices rest
                (out ++ [⟨timeIdx, tables.timeAt timeIdx, deltaLoop indices timeIdx ordinal 0,
                  value⟩]) totalCount st

/-- `scan_changes`; a limit of 0 is none. -/
def scanChanges (st : Wellen) (signalRef beginTimeIdx endTimeIdx limit : ℕ) :
    Option (List SignalChange × ScanDiagnostics) × Wellen :=
  if beginTimeIdx > endTimeIdx then (none, st)
  else
    let (info, st) := st.signalInfo capi tables signalRef
    match info with
    | none => (none, st)
    | some info =>
        let (indices, st) := st.timeIndicesOf capi signalRef
        let (result, st) := scanLoop capi tables signalRef beginTimeIdx endTimeIdx limit indices
          indices.zipIdx [] 0 st
        (result.map fun (out, totalCount) =>
          (out,
            { totalCount := totalCount
              returnedCount := out.length % 2 ^ 32
              width := info.width
              encoding := info.encoding
              scanComplete := true
              analysisComplete := true
              truncated := out.length % 2 ^ 32 < totalCount }), st)

/-- The loop of `delta_values_at` over the elements of an offset. -/
def deltaValuesLoop (signalRef start : ℕ) :
    List ℕ → List WaveformValue → Wellen → Option (List WaveformValue) × Wellen
  | [], out, st => (some out, st)
  | element :: rest, out, st =>
      let (value, st) := st.signalTypedValueAt capi signalRef start element
      match value with
      | none => (none, st)
      | some value => deltaValuesLoop signalRef start rest (out ++ [value]) st

/-- `delta_values_at`, with `out_time_match`. -/
def deltaValuesAt (st : Wellen) (signalRef timeIdx : ℕ) :
    Option (List WaveformValue × Bool) × Wellen :=
  let (offset, st) := st.signalOffsetAt capi signalRef timeIdx
  match offset with
  | none => (none, st)
  | some offset =>
      if offset.elements = 0 then (none, st)
      else
        let (values, st) := deltaValuesLoop capi signalRef offset.start
          (List.range offset.elements) [] st
        (values.map fun values => (values, offset.timeMatch), st)

/-- The states that calls of the backend lead to. -/
inductive Reachable : Wellen → Prop
  | opened (signalIndex : OrderedMap String ℕ) (declaredRanges : OrderedMap String DeclaredRange) :
      Reachable (opened signalIndex declaredRanges)
  | call {st : Wellen} (call : Call) (h : Reachable st) : Reachable (st.step capi call)
  | signalInfo {st : Wellen} (ref : ℕ) (h : Reachable st) :
      Reachable (st.signalInfo capi tables ref).2
  | timeIndicesOf {st : Wellen} (ref : ℕ) (h : Reachable st) :
      Reachable (st.timeIndicesOf capi ref).2
  | signalChangeAt {st : Wellen} (ref ordinal : ℕ) (h : Reachable st) :
      Reachable (st.signalChangeAt capi tables ref ordinal).2
  | scanChanges {st : Wellen} (ref beginTimeIdx endTimeIdx limit : ℕ) (h : Reachable st) :
      Reachable (st.scanChanges capi tables ref beginTimeIdx endTimeIdx limit).2
  | deltaValuesAt {st : Wellen} (ref timeIdx : ℕ) (h : Reachable st) :
      Reachable (st.deltaValuesAt capi ref timeIdx).2

/-- What the C interface promises about a signal that is loaded: its changes are in the order
of their times, any number of them at one time, and an offset is that of the last time at or
before an index. -/
structure LoadedSignal (st : Wellen) (ref : ℕ) (cs : List Change) : Prop where
  loaded : ref ∈ st.loaded
  info : capi.hasInfo ref = true
  sorted : cs.Pairwise fun a b => a.timeIdx ≤ b.timeIdx
  /-- `num_changes` is a `uint32_t`. -/
  count_lt : cs.length < 2 ^ 32
  indices : capi.timeIndices ref = some (cs.map Change.timeIdx)
  values : ∀ start element, capi.typedValue ref start element =
    (cs[start + element]?).map Change.value
  offset : ∀ timeIdx, IsOffset cs timeIdx (capi.signalOffset ref timeIdx)

/-- The changes of a loaded signal: of the waveform, or of a packed selection on one. -/
def IsChanges (st : Wellen) (ref : ℕ) (cs : List Change) : Prop :=
  (st.packedSelection ref = none ∧ ref < kVirtualSignalFlag ∧ LoadedSignal capi st ref cs) ∨
    ∃ sel base, st.packedSelection ref = some sel ∧ LoadedSignal capi st sel.baseRef base ∧
      cs = (st.computeSelected capi sel).getD []

end Definitions

end Wellen

section Specification

variable (tables : Tables)

/-- The entry of a scan for the change with an ordinal. The number among the deltas of its time is
a `uint16_t`. -/
def entryAt (cs : List Change) (ordinal : ℕ) (c : Change) : SignalChange :=
  { timeIdx := c.timeIdx
    time := tables.timeAt c.timeIdx
    delta := ((cs.take ordinal).countP fun d => d.timeIdx = c.timeIdx) % 2 ^ 16
    value := c.value }

/-- The entries of all changes. -/
def entries (cs : List Change) : List SignalChange :=
  cs.zipIdx.map fun c => entryAt tables cs c.2 c.1

/-- The entries of the changes in a window. -/
def window (cs : List Change) (beginTimeIdx endTimeIdx : ℕ) : List SignalChange :=
  (entries tables cs).filter fun e => beginTimeIdx ≤ e.timeIdx ∧ e.timeIdx ≤ endTimeIdx

/-- The number of entries that a limit leaves; a limit of 0 is none. -/
def limited (limit count : ℕ) : ℕ := if limit = 0 then count else min limit count

/-- Offsets count the changes of the last time at or before an index in full. -/
def CountsDeltas (cs : List Change) (timeIdx : ℕ) : Prop :=
  ∀ last ∈ lastWhere (fun c : Change => c.timeIdx ≤ timeIdx) cs,
    (deltasAt cs last.timeIdx).length < 2 ^ 16

/-- The read paths of a signal agree on its changes. -/
structure ReadsAgree (capi : Capi) (st : Wellen) (ref : ℕ) (cs : List Change) : Prop where
  scan : ∀ beginTimeIdx endTimeIdx limit, beginTimeIdx ≤ endTimeIdx →
    ∃ out diagnostics,
      (st.scanChanges capi tables ref beginTimeIdx endTimeIdx limit).1 = some (out, diagnostics) ∧
      out = (window tables cs beginTimeIdx endTimeIdx).take diagnostics.returnedCount ∧
      diagnostics.totalCount = (window tables cs beginTimeIdx endTimeIdx).length ∧
      diagnostics.returnedCount = limited limit diagnostics.totalCount ∧
      (diagnostics.truncated = true ↔ diagnostics.returnedCount < diagnostics.totalCount)
  unlimited : ∀ endTimeIdx, (∀ c ∈ cs, c.timeIdx ≤ endTimeIdx) →
    ∃ diagnostics, (st.scanChanges capi tables ref 0 endTimeIdx 0).1 =
      some (entries tables cs, diagnostics)
  change : ∀ ordinal, (st.signalChangeAt capi tables ref ordinal).1 = (entries tables cs)[ordinal]?
  /-- `delta_values_at` reads the values of the last time at or before the index, and says
  whether that is the index. -/
  deltas : ∀ timeIdx, CountsDeltas cs timeIdx → (st.deltaValuesAt capi ref timeIdx).1 =
    (lastWhere (fun c : Change => c.timeIdx ≤ timeIdx) cs).map fun last =>
      ((cs.filter fun c => c.timeIdx = last.timeIdx).map Change.value,
        decide (last.timeIdx = timeIdx))
  raw : ∀ timeIdx, CountsDeltas cs timeIdx →
    (st.sampledValueAt capi ref timeIdx .raw).1.map SampledValue.value =
      (lastWhere (fun e : SignalChange => e.timeIdx ≤ timeIdx) (entries tables cs)).map
        SignalChange.value

end Specification

namespace Wellen

variable {capi : Capi} {tables : Tables} {st st' st'' : Wellen} {ref : ℕ} {cs : List Change}

/-! ### Queries keep the signals -/

/-- A query leaves the loaded signals, the selections and the invariant as they were. -/
structure Kept (capi : Capi) (st st' : Wellen) : Prop where
  inv : Inv capi st'
  loaded : st'.loaded = st.loaded
  selections : st'.packedSelections = st.packedSelections

lemma Kept.refl (h : Inv capi st) : Kept capi st st := ⟨h, rfl, rfl⟩

lemma Kept.trans (h : Kept capi st st') (h' : Kept capi st' st'') : Kept capi st st'' :=
  ⟨h'.inv, h'.loaded.trans h.loaded, h'.selections.trans h.selections⟩

lemma kept_selectedChanges (h : Inv capi st) (ref : ℕ) :
    Kept capi st (st.selectedChanges capi ref).2 :=
  ⟨h.selectedChanges_state ref, (selectedChanges_loaded st ref).1, (selectedChanges_loaded st ref).2⟩

/-- One after the other, the changes of some selections are asked for. -/
def Queries (capi : Capi) : Wellen → Wellen → Prop :=
  Relation.ReflTransGen fun st st' => ∃ ref, st' = (st.selectedChanges capi ref).2

lemma Queries.kept (h : Inv capi st) (hqueries : Queries capi st st') : Kept capi st st' := by
  induction hqueries with
  | refl => exact Kept.refl h
  | tail _ hstep ih =>
      obtain ⟨ref, rfl⟩ := hstep
      exact ih.trans (kept_selectedChanges ih.inv ref)

lemma queries_selectedChanges (st : Wellen) (ref : ℕ) :
    Queries capi st (st.selectedChanges capi ref).2 := .single ⟨ref, rfl⟩

lemma queries_timeIndicesOf (st : Wellen) (ref : ℕ) : Queries capi st (st.timeIndicesOf capi ref).2 := by
  rw [timeIndicesOf]
  cases st.packedSelection ref with
  | none => exact .refl
  | some sel => exact queries_selectedChanges st ref

lemma queries_signalTypedValueAt (st : Wellen) (ref start element : ℕ) :
    Queries capi st (st.signalTypedValueAt capi ref start element).2 := by
  rw [signalTypedValueAt]
  cases st.packedSelection ref with
  | none => exact .refl
  | some sel => exact queries_selectedChanges st ref

lemma queries_signalOffsetAt (st : Wellen) (ref timeIdx : ℕ) :
    Queries capi st (st.signalOffsetAt capi ref timeIdx).2 := by
  rw [signalOffsetAt]
  cases st.packedSelection ref with
  | none => exact .refl
  | some sel => exact queries_selectedChanges st ref

lemma queries_signalInfo (st : Wellen) (ref : ℕ) : Queries capi st (st.signalInfo capi tables ref).2 := by
  rw [signalInfo]
  dsimp only
  split
  · exact .refl
  · cases st.packedSelection ref with
    | none => exact .refl
    | some sel => exact queries_selectedChanges st ref

lemma queries_signalChangeAt (st : Wellen) (ref ordinal : ℕ) :
    Queries capi st (st.signalChangeAt capi tables ref ordinal).2 := by
  have hidx : Queries capi st (st.timeIndicesOf capi ref).2 := queries_timeIndicesOf st ref
  rw [signalChangeAt]
  dsimp only
  split
  · exact hidx
  · exact hidx.trans (queries_signalTypedValueAt _ ref ordinal 0)

lemma queries_scanLoop (ref beginTimeIdx endTimeIdx limit : ℕ) (indices : List ℕ)
    (l : List (ℕ × ℕ)) (out : List SignalChange) (totalCount : ℕ) (st : Wellen) :
    Queries capi st (scanLoop capi tables ref beginTimeIdx endTimeIdx limit indices l out
      totalCount st).2 := by
  induction l generalizing out totalCount st with
  | nil => exact .refl
  | cons a l ih =>
      obtain ⟨timeIdx, ordinal⟩ := a
      have hvalue : Queries capi st (st.signalTypedValueAt capi ref ordinal 0).2 :=
        queries_signalTypedValueAt st ref ordinal 0
      rw [scanLoop]
      dsimp only
      split
      · exact ih _ _ st
      · split
        · exact ih _ _ st
        · split
          · exact hvalue
          · exact hvalue.trans (ih _ _ _)

lemma queries_scanChanges (st : Wellen) (ref beginTimeIdx endTimeIdx limit : ℕ) :
    Queries capi st (st.scanChanges capi tables ref beginTimeIdx endTimeIdx limit).2 := by
  have hinfo : Queries capi st (st.signalInfo capi tables ref).2 := queries_signalInfo st ref
  rw [scanChanges]
  dsimp only
  split
  · exact .refl
  · split
    · exact hinfo
    · exact (hinfo.trans (queries_timeIndicesOf _ ref)).trans (queries_scanLoop _ _ _ _ _ _ _ _ _)

lemma queries_deltaValuesLoop (ref start : ℕ) (l : List ℕ) (out : List WaveformValue)
    (st : Wellen) : Queries capi st (deltaValuesLoop capi ref start l out st).2 := by
  induction l generalizing out st with
  | nil => exact .refl
  | cons element l ih =>
      have hvalue : Queries capi st (st.signalTypedValueAt capi ref start element).2 :=
        queries_signalTypedValueAt st ref start element
      rw [deltaValuesLoop]
      dsimp only
      split
      · exact hvalue
      · exact hvalue.trans (ih _ _)

lemma queries_deltaValuesAt (st : Wellen) (ref timeIdx : ℕ) :
    Queries capi st (st.deltaValuesAt capi ref timeIdx).2 := by
  have hoff : Queries capi st (st.signalOffsetAt capi ref timeIdx).2 :=
    queries_signalOffsetAt st ref timeIdx
  rw [deltaValuesAt]
  dsimp only
  split
  · exact hoff
  · split
    · exact hoff
    · exact hoff.trans (queries_deltaValuesLoop _ _ _ _ _)

/-- The invariant holds in every state that calls lead to. -/
lemma Reachable.inv (h : Reachable capi tables st) : Inv capi st := by
  induction h with
  | opened signalIndex declaredRanges =>
      exact inv_run capi signalIndex declaredRanges []
  | call call _ ih => exact ih.step call
  | signalInfo ref _ ih => exact ((queries_signalInfo _ ref).kept ih).inv
  | timeIndicesOf ref _ ih => exact ((queries_timeIndicesOf _ ref).kept ih).inv
  | signalChangeAt ref ordinal _ ih => exact ((queries_signalChangeAt _ ref ordinal).kept ih).inv
  | scanChanges ref beginTimeIdx endTimeIdx limit _ ih =>
      exact ((queries_scanChanges _ ref beginTimeIdx endTimeIdx limit).kept ih).inv
  | deltaValuesAt ref timeIdx _ ih => exact ((queries_deltaValuesAt _ ref timeIdx).kept ih).inv

/-! ### What the queries answer -/

/-- The changes of a selection stand at time indices of its base. -/
lemma selectLoop_sublist {value : ℕ → Option WaveformValue} {sel : PackedSelection}
    {l : List (ℕ × ℕ)} {selected r : List Change} {previous : String}
    (h : selectLoop value sel l selected previous = some r) :
    ∃ s, r = selected ++ s ∧ (s.map Change.timeIdx).Sublist (l.map Prod.fst) := by
  induction l generalizing selected previous with
  | nil =>
      rw [selectLoop, Option.some.injEq] at h
      exact ⟨[], by simp [h], List.Sublist.refl _⟩
  | cons a l ih =>
      obtain ⟨timeIdx, ordinal⟩ := a
      rw [selectLoop] at h
      split at h
      · cases h
      · split at h
        · cases h
        · split at h
          · cases h
          · split at h
            · obtain ⟨s, hs, hsub⟩ := ih h
              exact ⟨s, hs, hsub.cons timeIdx⟩
            · obtain ⟨s, hs, hsub⟩ := ih h
              refine ⟨_ :: s, by rw [hs, List.append_assoc]; rfl, ?_⟩
              exact hsub.cons_cons timeIdx

lemma LoadedSignal.hasInfo (h : LoadedSignal capi st ref cs) : st.hasInfo capi ref = true := by
  simp [Wellen.hasInfo, h.loaded, h.info]

lemma LoadedSignal.nativeTimeIndicesOf (h : LoadedSignal capi st ref cs) :
    st.nativeTimeIndicesOf capi ref = cs.map Change.timeIdx := by
  rw [Wellen.nativeTimeIndicesOf, if_pos h.hasInfo, h.indices]
  rfl

lemma computeSelected_sublist (st : Wellen) {sel : PackedSelection}
    (hindices : capi.timeIndices sel.baseRef = some (cs.map Change.timeIdx)) :
    (((st.computeSelected capi sel).getD []).map Change.timeIdx).Sublist
      (cs.map Change.timeIdx) := by
  cases hsel : st.computeSelected capi sel with
  | none => exact List.nil_sublist _
  | some vs =>
      rw [computeSelected] at hsel
      split_ifs at hsel with hinfo
      rw [nativeTimeIndicesOf, if_pos hinfo, hindices, Option.getD_some] at hsel
      obtain ⟨s, hs, hsub⟩ := selectLoop_sublist hsel
      rw [List.nil_append] at hs
      rw [Option.getD_some, hs]
      simpa using hsub

lemma IsChanges.sorted (h : IsChanges capi st ref cs) :
    cs.Pairwise fun a b => a.timeIdx ≤ b.timeIdx := by
  rcases h with ⟨-, -, h⟩ | ⟨sel, base, -, h, rfl⟩
  · exact h.sorted
  · exact List.pairwise_map.1
      ((List.pairwise_map.2 h.sorted).sublist (computeSelected_sublist st h.indices))

lemma IsChanges.count_lt (h : IsChanges capi st ref cs) : cs.length < 2 ^ 32 := by
  rcases h with ⟨-, -, h⟩ | ⟨sel, base, -, h, rfl⟩
  · exact h.count_lt
  · have hle := (computeSelected_sublist st h.indices).length_le
    rw [List.length_map, List.length_map] at hle
    exact hle.trans_lt h.count_lt

lemma LoadedSignal.kept (hk : Kept capi st st') (h : LoadedSignal capi st ref cs) :
    LoadedSignal capi st' ref cs :=
  ⟨hk.loaded ▸ h.loaded, h.info, h.sorted, h.count_lt, h.indices, h.values, h.offset⟩

/-- A query does not change what the changes are. -/
lemma IsChanges.kept (h : IsChanges capi st ref cs) (hk : Kept capi st st') :
    IsChanges capi st' ref cs := by
  rcases h with ⟨hsel, hlt, h⟩ | ⟨sel, base, hsel, h, rfl⟩
  · exact Or.inl ⟨(packedSelection_congr hk.selections ref).trans hsel, hlt, h.kept hk⟩
  · refine Or.inr ⟨sel, base, (packedSelection_congr hk.selections ref).trans hsel, h.kept hk, ?_⟩
    rw [computeSelected_congr (by rw [hk.loaded])]

lemma IsChanges.timeIndicesOf (h : IsChanges capi st ref cs) (hinv : Inv capi st) :
    (st.timeIndicesOf capi ref).1 = cs.map Change.timeIdx := by
  rw [Wellen.timeIndicesOf]
  rcases h with ⟨hsel, -, h⟩ | ⟨sel, base, hsel, h, rfl⟩
  · rw [hsel]
    exact h.nativeTimeIndicesOf
  · rw [hsel]
    show (st.selectedChanges capi ref).1.map _ = _
    rw [(hinv.selectedChanges hsel).1]

lemma IsChanges.typedValueAt (h : IsChanges capi st ref cs) (hinv : Inv capi st)
    (start element : ℕ) : (st.signalTypedValueAt capi ref start element).1 =
      (cs[start + element]?).map Change.value := by
  rw [signalTypedValueAt]
  rcases h with ⟨hsel, -, h⟩ | ⟨sel, base, hsel, h, rfl⟩
  · rw [hsel]
    show st.nativeTypedValueAt capi ref start element = _
    rw [nativeTypedValueAt, if_pos (by simpa using h.loaded), h.values]
  · rw [hsel]
    show ((st.selectedChanges capi ref).1[start + element]?).map _ = _
    rw [(hinv.selectedChanges hsel).1]

lemma IsChanges.isOffset (h : IsChanges capi st ref cs) (hinv : Inv capi st) (timeIdx : ℕ) :
    IsOffset cs timeIdx (st.signalOffsetAt capi ref timeIdx).1 := by
  have hsorted := h.sorted
  rw [signalOffsetAt]
  rcases h with ⟨hsel, -, h⟩ | ⟨sel, base, hsel, h, rfl⟩
  · rw [hsel]
    show IsOffset cs timeIdx (if _ then _ else _)
    rw [if_pos (by simpa using h.loaded)]
    exact h.offset timeIdx
  · rw [hsel]
    show IsOffset _ timeIdx (offsetAt (st.selectedChanges capi ref).1 timeIdx)
    rw [(hinv.selectedChanges hsel).1]
    exact isOffset_offsetAt hsorted timeIdx

lemma IsChanges.exists_info (h : IsChanges capi st ref cs) :
    ∃ info, (st.signalInfo capi tables ref).1 = some info := by
  rw [signalInfo]
  rcases h with ⟨hsel, hlt, h⟩ | ⟨sel, base, hsel, h, rfl⟩
  · have hnative : st.nativeSignalRef ref = ref := by simp [nativeSignalRef, hsel, hlt]
    rw [hnative, h.hasInfo, hsel]
    exact ⟨_, rfl⟩
  · have hnative : st.nativeSignalRef ref = sel.baseRef := by simp [nativeSignalRef, hsel]
    rw [hnative, h.hasInfo, hsel]
    exact ⟨_, rfl⟩

end Wellen

/-! ### The loops -/

/-- The loop counts the changes of the same time, since in sorted changes they stand together. -/
lemma deltaLoop_eq {indices : List ℕ} {timeIdx k : ℕ} (hs : indices.Pairwise (· ≤ ·))
    (hk : k ≤ indices.length) (hle : ∀ t ∈ indices.take k, t ≤ timeIdx) (delta : ℕ)
    (hlt : delta < 2 ^ 16) :
    deltaLoop indices timeIdx k delta = (delta + (indices.take k).count timeIdx) % 2 ^ 16 := by
  induction k generalizing delta with
  | zero =>
      rw [deltaLoop, List.take_zero, List.count_nil, Nat.add_zero, Nat.mod_eq_of_lt hlt]
  | succ k ih =>
      have hget : indices.getD k 0 = indices[k] := by
        rw [List.getD_eq_getElem?_getD, List.getElem?_eq_getElem hk, Option.getD_some]
      have htake : indices.take (k + 1) = indices.take k ++ [indices[k]] := by
        rw [List.take_add_one, List.getElem?_eq_getElem hk]
        rfl
      rw [htake] at hle ⊢
      rw [deltaLoop, hget]
      by_cases heq : indices[k] = timeIdx
      · have hcount : (indices.take k ++ [indices[k]]).count timeIdx =
            (indices.take k).count timeIdx + 1 := by
          rw [List.count_append, heq, List.count_singleton_self]
        rw [hcount, if_pos heq, ih (by omega) (fun t ht => hle t (List.mem_append_left _ ht))
          ((delta + 1) % 2 ^ 16) (Nat.mod_lt _ (by decide)), Nat.mod_add_mod]
        congr 1
        omega
      · -- the index before is smaller, and so are all the earlier ones
        have hlast : indices[k] < timeIdx :=
          lt_of_le_of_ne (hle _ (List.mem_append_right _ (List.mem_singleton_self _))) heq
        have hzero : (indices.take k ++ [indices[k]]).count timeIdx = 0 := by
          refine List.count_eq_zero.2 fun hmem => ?_
          rcases List.mem_append.1 hmem with hmem | hmem
          · obtain ⟨i, hi, hit⟩ := List.getElem_of_mem hmem
            rw [List.getElem_take] at hit
            have hik : i < k := by
              rw [List.length_take] at hi
              omega
            have := List.pairwise_iff_getElem.1 hs i k (by omega) hk hik
            omega
          · exact heq (List.mem_singleton.1 hmem).symm
        rw [if_neg heq, hzero, Nat.add_zero, Nat.mod_eq_of_lt hlt]

lemma deltaLoop_of_sorted {cs : List Change} (hs : cs.Pairwise fun a b => a.timeIdx ≤ b.timeIdx)
    {k : ℕ} {c : Change} (hc : cs[k]? = some c) :
    deltaLoop (cs.map Change.timeIdx) c.timeIdx k 0 =
      ((cs.take k).countP fun d => d.timeIdx = c.timeIdx) % 2 ^ 16 := by
  obtain ⟨hk, hck⟩ := List.getElem?_eq_some_iff.1 hc
  have hcount : ((cs.map Change.timeIdx).take k).count c.timeIdx =
      (cs.take k).countP fun d => d.timeIdx = c.timeIdx := by
    rw [← List.map_take, List.count_eq_countP, List.countP_map]
    refine List.countP_congr fun d _ => ?_
    simp
  rw [deltaLoop_eq (List.pairwise_map.2 hs) (by simpa using hk.le) ?_ 0 (by decide), hcount,
    Nat.zero_add]
  intro t ht
  rw [← List.map_take] at ht
  obtain ⟨d, hd, rfl⟩ := List.mem_map.1 ht
  obtain ⟨i, hi, rfl⟩ := List.getElem_of_mem hd
  rw [List.length_take] at hi
  rw [List.getElem_take, ← hck]
  exact List.pairwise_iff_getElem.1 hs i k (by omega) hk (by omega)

/-- What a limit leaves of the entries when some are out already. -/
def takeLimit (limit used : ℕ) (w : List SignalChange) : List SignalChange :=
  if limit = 0 then w else w.take (limit - used)

lemma takeLimit_full {limit used : ℕ} (h : limit ≠ 0 ∧ limit ≤ used) (w : List SignalChange) :
    takeLimit limit used w = [] := by
  rw [takeLimit, if_neg h.1, Nat.sub_eq_zero_of_le h.2, List.take_zero]

lemma takeLimit_cons {limit used : ℕ} (h : ¬ (limit ≠ 0 ∧ limit ≤ used)) (e : SignalChange)
    (w : List SignalChange) : takeLimit limit used (e :: w) = e :: takeLimit limit (used + 1) w := by
  rw [takeLimit, takeLimit]
  split_ifs with hlimit
  · rfl
  · have hroom : limit - used = limit - (used + 1) + 1 := by omega
    rw [hroom, List.take_succ_cons]

namespace Wellen

variable {capi : Capi} {tables : Tables} {st : Wellen} {ref : ℕ} {cs : List Change}

/-- The loop of a scan adds the entries of the window that are left, up to the limit. -/
lemma scanLoop_eq (beginTimeIdx endTimeIdx limit : ℕ) {pre suf : List Change}
    (hcs : cs = pre ++ suf) (out : List SignalChange) (totalCount : ℕ)
    (htotal : totalCount + suf.length < 2 ^ 32) (h : IsChanges capi st ref cs)
    (hinv : Inv capi st) :
    (scanLoop capi tables ref beginTimeIdx endTimeIdx limit (cs.map Change.timeIdx)
        ((suf.map Change.timeIdx).zipIdx pre.length) out totalCount st).1 =
      some (out ++ takeLimit limit out.length
          (((suf.zipIdx pre.length).map fun c => entryAt tables cs c.2 c.1).filter
            fun e => beginTimeIdx ≤ e.timeIdx ∧ e.timeIdx ≤ endTimeIdx),
        totalCount + (((suf.zipIdx pre.length).map fun c => entryAt tables cs c.2 c.1).filter
            fun e => beginTimeIdx ≤ e.timeIdx ∧ e.timeIdx ≤ endTimeIdx).length) := by
  induction suf generalizing pre out totalCount st with
  | nil =>
      have hnil : takeLimit limit out.length [] = [] := by simp [takeLimit]
      simp [scanLoop, hnil]
  | cons c suf ih =>
      have hget : cs[pre.length]? = some c := by simp [hcs]
      have hcs' : cs = (pre ++ [c]) ++ suf := by simp [hcs]
      have hlen : (pre ++ [c]).length = pre.length + 1 := by simp
      rw [List.length_cons] at htotal
      rw [List.map_cons, List.zipIdx_cons, List.zipIdx_cons, List.map_cons, scanLoop]
      have ih' := fun out totalCount htotal st h hinv =>
        @ih st (pre ++ [c]) hcs' out totalCount htotal h hinv
      simp only [hlen] at ih'
      by_cases hwin : beginTimeIdx ≤ c.timeIdx ∧ c.timeIdx ≤ endTimeIdx
      · have hin : (decide (c.timeIdx < beginTimeIdx) || decide (c.timeIdx > endTimeIdx)) =
            false := by
          simp only [Bool.or_eq_false_iff, decide_eq_false_iff_not]
          omega
        -- the counter of 32 bits does not wrap, as there are fewer changes
        have htotal' : (totalCount + 1) % 2 ^ 32 = totalCount + 1 := Nat.mod_eq_of_lt (by omega)
        rw [hin, List.filter_cons_of_pos (by exact decide_eq_true hwin), List.length_cons]
        simp only [Bool.false_eq_true, if_false, htotal']
        by_cases hfull : limit ≠ 0 ∧ limit ≤ out.length
        · -- beyond the limit the changes are only counted
          have hfull' : (decide (limit ≠ 0) && decide (out.length ≥ limit)) = true := by
            simpa using hfull
          rw [if_pos hfull', ih' out _ (by omega) st h hinv, takeLimit_full hfull,
            takeLimit_full hfull, Nat.add_assoc, Nat.add_comm 1]
        · have hfull' : (decide (limit ≠ 0) && decide (out.length ≥ limit)) = false := by
            simpa [imp_iff_not_or] using not_and_or.1 hfull
          have hvalue := h.typedValueAt hinv pre.length 0
          have hkept := (queries_signalTypedValueAt st ref pre.length 0).kept hinv
          rw [Nat.add_zero, hget, Option.map_some] at hvalue
          rw [hfull', hvalue, takeLimit_cons hfull]
          simp only [Bool.false_eq_true, if_false]
          rw [ih' _ _ (by omega) _ (h.kept hkept) hkept.inv, List.append_assoc,
            List.length_append, List.length_singleton, deltaLoop_of_sorted h.sorted hget, Nat.add_assoc,
            Nat.add_comm 1]
          rfl
      · have hout : (decide (c.timeIdx < beginTimeIdx) || decide (c.timeIdx > endTimeIdx)) =
            true := by
          simp only [Bool.or_eq_true, decide_eq_true_eq]
          omega
        rw [if_pos hout, ih' out totalCount (by omega) st h hinv,
          List.filter_cons_of_neg (by rw [decide_eq_true_eq]; exact hwin)]

/-- The loop over the elements of an offset reads the changes that stand there. -/
lemma deltaValuesLoop_eq (start : ℕ) {l : List ℕ} (hl : ∀ e ∈ l, start + e < cs.length)
    (out : List WaveformValue) (h : IsChanges capi st ref cs) (hinv : Inv capi st) :
    (deltaValuesLoop capi ref start l out st).1 =
      some (out ++ l.filterMap fun e => (cs[start + e]?).map Change.value) := by
  induction l generalizing out st with
  | nil => simp [deltaValuesLoop]
  | cons e l ih =>
      have hvalue := h.typedValueAt hinv start e
      have hkept := (queries_signalTypedValueAt st ref start e).kept hinv
      rw [List.getElem?_eq_getElem (hl e List.mem_cons_self), Option.map_some] at hvalue
      rw [deltaValuesLoop]
      dsimp only
      rw [hvalue]
      dsimp only
      rw [ih (fun e' he' => hl e' (List.mem_cons_of_mem _ he')) _ (h.kept hkept) hkept.inv,
        List.filterMap_cons, List.getElem?_eq_getElem (hl e List.mem_cons_self),
        List.append_assoc]
      rfl

end Wellen

/-! ### Agreement -/

lemma takeLimit_zero (limit : ℕ) (w : List SignalChange) :
    takeLimit limit 0 w = w.take (limited limit w.length) := by
  rw [takeLimit, limited]
  split_ifs
  · rw [List.take_length]
  · rw [Nat.sub_zero, ← List.take_eq_take_min]

lemma entries_timeIdx_value (tables : Tables) (cs : List Change) :
    (entries tables cs).map (fun e => (⟨e.timeIdx, e.value⟩ : Change)) = cs := by
  rw [entries, List.map_map]
  exact List.zipIdx_map_fst 0 cs

/-- The last entry up to an index shows the last change up to it. -/
lemma lastWhere_entries (tables : Tables) (cs : List Change) (timeIdx : ℕ) :
    (lastWhere (fun e : SignalChange => e.timeIdx ≤ timeIdx) (entries tables cs)).map
        SignalChange.value =
      (lastWhere (fun c : Change => c.timeIdx ≤ timeIdx) cs).map Change.value := by
  conv_rhs => rw [← entries_timeIdx_value tables cs]
  rw [lastWhere, lastWhere, List.filter_map, List.getLast?_map, Option.map_map]
  rfl

lemma filterMap_range_getElem? {α β : Type} (l : List α) (f : α → β) :
    ((List.range l.length).filterMap fun k => (l[k]?).map f) = l.map f := by
  induction l with
  | nil => rfl
  | cons a l ih =>
      rw [List.length_cons, List.range_succ_eq_map, List.filterMap_cons, List.filterMap_map,
        List.map_cons, ← ih]
      rfl

lemma entries_getElem? (tables : Tables) (cs : List Change) (ordinal : ℕ) :
    (entries tables cs)[ordinal]? = (cs[ordinal]?).map (entryAt tables cs ordinal) := by
  rw [entries, List.getElem?_map, List.getElem?_zipIdx, Option.map_map, Nat.zero_add]
  rfl

namespace Wellen

variable {capi : Capi} {tables : Tables} {st : Wellen} {ref : ℕ} {cs : List Change}

/-- What a scan of a window answers. -/
lemma IsChanges.scanChanges (h : IsChanges capi st ref cs) (hinv : Inv capi st)
    {beginTimeIdx endTimeIdx : ℕ} (hle : beginTimeIdx ≤ endTimeIdx) (limit : ℕ) :
    ∃ diagnostics, (st.scanChanges capi tables ref beginTimeIdx endTimeIdx limit).1 =
        some ((window tables cs beginTimeIdx endTimeIdx).take diagnostics.returnedCount,
          diagnostics) ∧
      diagnostics.totalCount = (window tables cs beginTimeIdx endTimeIdx).length ∧
      diagnostics.returnedCount = limited limit diagnostics.totalCount ∧
      (diagnostics.truncated = true ↔ diagnostics.returnedCount < diagnostics.totalCount) := by
  obtain ⟨info, hinfo⟩ := @IsChanges.exists_info capi tables st ref cs h
  have hkept := (@queries_signalInfo capi tables st ref).kept hinv
  have hidx := (h.kept hkept).timeIndicesOf hkept.inv
  have hkept' := (queries_timeIndicesOf _ ref).kept hkept.inv
  have hloop := @scanLoop_eq capi tables _ ref cs beginTimeIdx endTimeIdx limit [] cs rfl [] 0
    (by simpa using h.count_lt) ((h.kept hkept).kept hkept') hkept'.inv
  have hlt : (window tables cs beginTimeIdx endTimeIdx).length < 2 ^ 32 := by
    refine lt_of_le_of_lt ((List.length_filter_le _ _).trans ?_) h.count_lt
    rw [entries, List.length_map, List.length_zipIdx]
  rw [List.nil_append, Nat.zero_add] at hloop
  change _ = some (takeLimit limit 0 (window tables cs beginTimeIdx endTimeIdx),
    (window tables cs beginTimeIdx endTimeIdx).length) at hloop
  rw [takeLimit_zero] at hloop
  have hreturned : ((window tables cs beginTimeIdx endTimeIdx).take
      (limited limit (window tables cs beginTimeIdx endTimeIdx).length)).length % 2 ^ 32 =
      limited limit (window tables cs beginTimeIdx endTimeIdx).length := by
    have hlim : limited limit (window tables cs beginTimeIdx endTimeIdx).length ≤
        (window tables cs beginTimeIdx endTimeIdx).length := by
      rw [limited]
      split_ifs
      · exact le_rfl
      · exact min_le_right _ _
    rw [List.length_take, min_eq_left hlim, Nat.mod_eq_of_lt (by omega)]
  rw [Wellen.scanChanges, if_neg (by omega)]
  dsimp only
  rw [hinfo]
  dsimp only
  rw [hidx]
  erw [hloop]
  rw [Option.map_some]
  dsimp only
  rw [hreturned]
  refine ⟨{ totalCount := (window tables cs beginTimeIdx endTimeIdx).length
            returnedCount := limited limit (window tables cs beginTimeIdx endTimeIdx).length
            width := info.width
            encoding := info.encoding
            scanComplete := true
            analysisComplete := true
            truncated := limited limit (window tables cs beginTimeIdx endTimeIdx).length <
              (window tables cs beginTimeIdx endTimeIdx).length }, rfl, rfl, rfl, ?_⟩
  exact decide_eq_true_iff

/-- A last group that offsets count in full. -/
lemma length_lt_of_countsDeltas {pre grp post : List Change} {timeIdx g : ℕ}
    (hgrp : IsLastGroup Change.timeIdx timeIdx cs pre grp post g)
    (hcount : CountsDeltas cs timeIdx) : grp.length < 2 ^ 16 := by
  have hlast := hgrp.lastWhere_le
  rw [List.getLast?_eq_some_getLast hgrp.nonempty] at hlast
  have hlt := hcount _ hlast
  rwa [hgrp.same _ (List.getLast_mem _), deltasAt, hgrp.filter_eq] at hlt

/-- What the values of a time are. -/
lemma IsChanges.deltaValuesAt (h : IsChanges capi st ref cs) (hinv : Inv capi st)
    {timeIdx : ℕ} (hcount : CountsDeltas cs timeIdx) : (st.deltaValuesAt capi ref timeIdx).1 =
      (lastWhere (fun c : Change => c.timeIdx ≤ timeIdx) cs).map fun last =>
        ((cs.filter fun c => c.timeIdx = last.timeIdx).map Change.value,
          decide (last.timeIdx = timeIdx)) := by
  have hkept := (queries_signalOffsetAt st ref timeIdx).kept hinv
  rw [Wellen.deltaValuesAt]
  dsimp only
  rcases h.isOffset hinv timeIdx with ⟨hnone, hbehind⟩ | ⟨pre, grp, post, g, hgrp, hsome⟩
  · rw [hnone, lastWhere_eq_none_iff.2 hbehind]
    rfl
  · have hsize : grp.length % 2 ^ 16 = grp.length :=
      Nat.mod_eq_of_lt (length_lt_of_countsDeltas hgrp hcount)
    have hpos : grp.length ≠ 0 := by simpa using hgrp.nonempty
    have hbound : ∀ e ∈ List.range grp.length, pre.length + e < cs.length := by
      intro e he
      rw [List.mem_range] at he
      rw [hgrp.eq, List.length_append, List.length_append]
      omega
    have hread : ((List.range grp.length).filterMap fun e =>
        (cs[pre.length + e]?).map Change.value) = grp.map Change.value := by
      rw [← filterMap_range_getElem? grp Change.value]
      refine List.filterMap_congr fun e he => ?_
      rw [hgrp.eq, List.getElem?_append_right (by omega), Nat.add_sub_cancel_left,
        List.getElem?_append_left (List.mem_range.1 he)]
    have hlast : grp.getLast? = some (grp.getLast hgrp.nonempty) :=
      List.getLast?_eq_some_getLast hgrp.nonempty
    have hg : (grp.getLast hgrp.nonempty).timeIdx = g := hgrp.same _ (List.getLast_mem _)
    rw [hsome, hgrp.lastWhere_le, hlast]
    dsimp only
    rw [hsize, if_neg hpos, deltaValuesLoop_eq pre.length hbound [] (h.kept hkept) hkept.inv,
      hread, Option.map_some, Option.map_some, hg, hgrp.filter_eq]
    rfl

lemma IsChanges.raw (h : IsChanges capi st ref cs) (hinv : Inv capi st) {timeIdx : ℕ}
    (hcount : CountsDeltas cs timeIdx) :
    (st.sampledValueAt capi ref timeIdx .raw).1.map SampledValue.value =
      (lastWhere (fun c : Change => c.timeIdx ≤ timeIdx) cs).map Change.value := by
  have hkept := (queries_signalOffsetAt st ref timeIdx).kept hinv
  have hvalue (start element : ℕ) := (h.kept hkept).typedValueAt hkept.inv start element
  rw [Wellen.sampledValueAt]
  dsimp only
  rcases h.isOffset hinv timeIdx with ⟨hnone, hbehind⟩ | ⟨pre, grp, post, g, hgrp, hsome⟩
  · rw [hnone, lastWhere_eq_none_iff.2 hbehind]
    rfl
  · rw [hsome, ← offsetAt_of_isLastGroup hgrp, hgrp.lastWhere_le,
      ← countedLast_eq_getLast? (length_lt_of_countsDeltas hgrp hcount)]
    exact sampledValue_of_group hvalue hgrp fun hp => ObservationPoint.noConfusion hp.1

lemma IsChanges.signalChangeAt (h : IsChanges capi st ref cs) (hinv : Inv capi st)
    (ordinal : ℕ) :
    (st.signalChangeAt capi tables ref ordinal).1 = (entries tables cs)[ordinal]? := by
  have hidx := h.timeIndicesOf hinv
  have hkept := (queries_timeIndicesOf st ref).kept hinv
  have hvalue := (h.kept hkept).typedValueAt hkept.inv ordinal 0
  rw [Wellen.signalChangeAt, entries_getElem?]
  dsimp only
  rw [hidx, List.getElem?_map]
  cases hc : cs[ordinal]? with
  | none => rfl
  | some c =>
      rw [Nat.add_zero, hc, Option.map_some] at hvalue
      rw [Option.map_some]
      dsimp only
      rw [hvalue, deltaLoop_of_sorted h.sorted hc]
      rfl

end Wellen

/-- In every state that calls lead to, the read paths of a loaded signal agree. -/
theorem readsAgree_of_reachable (capi : Capi) (tables : Tables) (st : Wellen) (ref : ℕ)
    (cs : List Change) (hst : Wellen.Reachable capi tables st)
    (h : Wellen.IsChanges capi st ref cs) : ReadsAgree tables capi st ref cs := by
  have hinv := hst.inv
  refine ⟨fun beginTimeIdx endTimeIdx limit hle => ?_, fun endTimeIdx hend => ?_,
    h.signalChangeAt hinv, fun timeIdx hcount => h.deltaValuesAt hinv hcount,
    fun timeIdx hcount => ?_⟩
  · obtain ⟨diagnostics, hscan, hrest⟩ := h.scanChanges hinv hle limit
    exact ⟨_, diagnostics, hscan, rfl, hrest⟩
  · obtain ⟨diagnostics, hscan, htotal, hreturned, -⟩ :=
      @Wellen.IsChanges.scanChanges capi tables st ref cs h hinv 0 endTimeIdx (Nat.zero_le _) 0
    have hall : window tables cs 0 endTimeIdx = entries tables cs := by
      refine List.filter_eq_self.2 fun e he => ?_
      obtain ⟨⟨c, k⟩, hc, rfl⟩ := List.mem_map.1 he
      exact decide_eq_true ⟨Nat.zero_le _, hend c (List.fst_mem_of_mem_zipIdx hc)⟩
    refine ⟨diagnostics, ?_⟩
    rw [hscan, hreturned, htotal, hall]
    simp [limited]
  · rw [h.raw hinv hcount, lastWhere_entries]

/-- The time table of `busCapi` and what it says about its signal. -/
def busTables : Tables where
  nativeInfo _ := ⟨.bitVector, 3, 2, 4, 1, false⟩
  timeTable := [0, 10, 20, 30, 40, 50]

lemma busState_reachable : Wellen.Reachable busCapi busTables busState := by
  rw [busState, Wellen.run, List.foldl_cons, List.foldl_cons, List.foldl_nil]
  exact .call _ (.call _ (.opened _ _))

lemma busState_loaded : Wellen.LoadedSignal busCapi busState 1 busChanges where
  loaded := by decide +kernel
  info := rfl
  sorted := busChanges_isHistory.sorted
  count_lt := by decide
  indices := rfl
  values := fun _ _ => rfl
  offset := fun timeIdx => isOffset_offsetAt busChanges_isHistory.sorted timeIdx

/-- Between two changes `delta_values_at` reads the values of the earlier one, although there
is no change at the index; and a scan with the limit 0 returns everything. -/
theorem busState_between :
    Wellen.Reachable busCapi busTables busState ∧
      Wellen.IsChanges busCapi busState 1 busChanges ∧
      (¬ ∀ timeIdx, ((busState.deltaValuesAt busCapi 1 timeIdx).1.map Prod.fst).getD [] =
        (busChanges.filter fun c => c.timeIdx = timeIdx).map Change.value) ∧
      ¬ ∀ limit, ∃ out diagnostics,
        (busState.scanChanges busCapi busTables 1 0 5 limit).1 = some (out, diagnostics) ∧
          diagnostics.returnedCount = min limit diagnostics.totalCount := by
  refine ⟨busState_reachable, Or.inl ⟨by decide +kernel, by decide, busState_loaded⟩, ?_, ?_⟩
  · intro h
    have hread : (busState.deltaValuesAt busCapi 1 3).1 = some ([{ text := "0001" }], false) := by
      decide +kernel
    have hthree := h 3
    rw [hread] at hthree
    exact absurd hthree (by decide)
  · intro h
    obtain ⟨out, diagnostics, hscan, hcount⟩ := h 0
    have hreturned : ((busState.scanChanges busCapi busTables 1 0 5 0).1.map fun r =>
        r.2.returnedCount) = some 3 := by decide +kernel
    rw [hscan, Option.map_some, Option.some.injEq] at hreturned
    dsimp only at hreturned
    omega

/-- The read paths agree on the selection `bus[1:0]`. -/
theorem busState_readsAgree :
    Wellen.Reachable busCapi busTables busState ∧
      ReadsAgree busTables busCapi busState (kVirtualSignalFlag + 1)
        ((busState.computeSelected busCapi ⟨1, 3, 0, 1, 0, 2⟩).getD []) :=
  ⟨busState_reachable, readsAgree_of_reachable _ _ _ _ _ busState_reachable
    (Or.inr ⟨_, _, busState_packedSelection, busState_loaded, rfl⟩)⟩

end XdebugFst.Waveform
