import XdebugFst.Waveform.FindSignal
import XdebugFst.Waveform.ReadPaths

/-!
# The selections over any sequence of calls

A selection that was found once keeps its handle, its base and its bounds, and what the cache
holds for it is what its base says now, however signals are found, loaded, unloaded and read in
between.

The four things that a call can do to the state are in `Move`. `reaches_perform` brings every
call down to them, so that an invariant needs one argument for each of the four.
-/

namespace XdebugFst.Waveform.Wellen

open Lib

/-! ### Calls -/

section Definitions

variable (capi : Capi) (tables : Tables)

/-- `typed_values_at`; `values_at` reads the same values at the raw point. -/
def typedValuesAt (timeIdx : ℕ) (point : ObservationPoint) :
    List ℕ → Wellen → List (Option SampledValue) × Wellen
  | [], st => ([], st)
  | ref :: refs, st =>
      let (value, st) := st.sampledValueAt capi ref timeIdx point
      let (values, st) := typedValuesAt timeIdx point refs st
      (value :: values, st)

/-- The text of a value in `signal_value_str`. -/
def valueStr (value : Option WaveformValue) : String :=
  match value with
  | none => ""
  | some value =>
      match value.kind with
      | .real => value.real
      | .event => "event"
      | .bitVector | .string => value.text

/-- `time_idx_of`. -/
def timeIdxOf (t : ℕ) : ℕ := (tables.timeTable.takeWhile (· ≤ t)).length - 1

/-- The outputs of `value_at`. The width stays unset where the signal is not loaded. -/
structure ValueAt where
  value : String
  width : Option ℕ
  timeMatch : Bool
  timeIdx : ℕ
  deriving DecidableEq, Repr

/-- `value_at`: the first value of a time, of a signal that is loaded if need be. -/
def valueAt (st : Wellen) (path : String) (time : ℕ) : Option ValueAt × Wellen :=
  let (ref, st) := st.findSignal path
  if ref = 0 then (none, st)
  else
    let st := if st.hasInfo capi (st.nativeSignalRef ref) then st else st.loadSignals [ref]
    let timeIdx := timeIdxOf tables time
    let (info, st) := st.signalInfo capi tables ref
    let (offset, st) := st.signalOffsetAt capi ref timeIdx
    match offset with
    | none => (none, st)
    | some offset =>
        let (value, st) := st.signalTypedValueAt capi ref offset.start 0
        (some ⟨valueStr value, info.map SignalInfo.width, offset.timeMatch, timeIdx⟩, st)

/-- A call of the backend. -/
inductive Request
  | findSignal (path : String)
  | loadSignals (refs : List ℕ)
  | unloadSignals (refs : List ℕ)
  | signalInfo (ref : ℕ)
  | timeIndicesOf (ref : ℕ)
  | signalOffsetAt (ref timeIdx : ℕ)
  | signalTypedValueAt (ref start element : ℕ)
  | signalChangeAt (ref ordinal : ℕ)
  | scanChanges (ref beginTimeIdx endTimeIdx limit : ℕ)
  | sampledValueAt (ref timeIdx : ℕ) (point : ObservationPoint)
  | typedValuesAt (refs : List ℕ) (timeIdx : ℕ) (point : ObservationPoint)
  | deltaValuesAt (ref timeIdx : ℕ)
  | valueAt (path : String) (time : ℕ)

/-- The state after a call. -/
def perform (st : Wellen) : Request → Wellen
  | .findSignal path => (st.findSignal path).2
  | .loadSignals refs => st.loadSignals refs
  | .unloadSignals refs => st.unloadSignals refs
  | .signalInfo ref => (st.signalInfo capi tables ref).2
  | .timeIndicesOf ref => (st.timeIndicesOf capi ref).2
  | .signalOffsetAt ref timeIdx => (st.signalOffsetAt capi ref timeIdx).2
  | .signalTypedValueAt ref start element => (st.signalTypedValueAt capi ref start element).2
  | .signalChangeAt ref ordinal => (st.signalChangeAt capi tables ref ordinal).2
  | .scanChanges ref beginTimeIdx endTimeIdx limit =>
      (st.scanChanges capi tables ref beginTimeIdx endTimeIdx limit).2
  | .sampledValueAt ref timeIdx point => (st.sampledValueAt capi ref timeIdx point).2
  | .typedValuesAt refs timeIdx point => (typedValuesAt capi timeIdx point refs st).2
  | .deltaValuesAt ref timeIdx => (st.deltaValuesAt capi ref timeIdx).2
  | .valueAt path time => (st.valueAt capi tables path time).2

/-- The state after a sequence of calls. -/
def after (st : Wellen) (requests : List Request) : Wellen :=
  requests.foldl (perform capi tables) st

/-! ### Moves -/

/-- What a call can do to the state. -/
inductive Move : Wellen → Wellen → Prop
  | create (st : Wellen) (path : String) : Move st (st.createPackedSelection path).2
  | load (st : Wellen) (refs : List ℕ) : Move st (st.loadSignals refs)
  | unload (st : Wellen) (refs : List ℕ) : Move st (st.unloadSignals refs)
  | query (st : Wellen) (ref : ℕ) : Move st (st.selectedChanges capi ref).2

/-- A sequence of moves. -/
def Reaches : Wellen → Wellen → Prop := Relation.ReflTransGen (Move capi)

end Definitions

variable {capi : Capi} {tables : Tables} {st st' : Wellen}

lemma Queries.reaches (h : Queries capi st st') : Reaches capi st st' := by
  induction h with
  | refl => exact .refl
  | tail _ hstep ih =>
      obtain ⟨ref, rfl⟩ := hstep
      exact ih.tail (Move.query _ ref)

lemma reaches_findSignal (st : Wellen) (path : String) :
    Reaches capi st (st.findSignal path).2 :=
  findSignal_induction (fun st' path' h => h.tail (Move.create st' path')) .refl path

lemma queries_sampledValueAt (st : Wellen) (ref timeIdx : ℕ) (point : ObservationPoint) :
    Queries capi st (st.sampledValueAt capi ref timeIdx point).2 :=
  queries_signalOffsetAt st ref timeIdx

lemma queries_typedValuesAt (timeIdx : ℕ) (point : ObservationPoint) (refs : List ℕ)
    (st : Wellen) : Queries capi st (typedValuesAt capi timeIdx point refs st).2 := by
  induction refs generalizing st with
  | nil => exact .refl
  | cons ref refs ih => exact (queries_sampledValueAt st ref timeIdx point).trans (ih _)

lemma reaches_valueAt (st : Wellen) (path : String) (time : ℕ) :
    Reaches capi st (st.valueAt capi tables path time).2 := by
  have hfind : Reaches capi st (st.findSignal path).2 := reaches_findSignal st path
  have hload : ∀ (st' : Wellen) (ref : ℕ), Reaches capi st'
      (if st'.hasInfo capi (st'.nativeSignalRef ref) then st' else st'.loadSignals [ref]) := by
    intro st' ref
    split
    · exact .refl
    · exact .single (Move.load st' [ref])
  have hinfo : ∀ (st' : Wellen) (ref : ℕ), Reaches capi st' (st'.signalInfo capi tables ref).2 :=
    fun st' ref => (queries_signalInfo st' ref).reaches
  rw [valueAt]
  generalize st.findSignal path = found at hfind ⊢
  obtain ⟨ref, st₁⟩ := found
  dsimp only at hfind ⊢
  split
  · exact hfind
  · have hoffset := ((hfind.trans (hload st₁ ref)).trans (hinfo _ ref)).trans
      (queries_signalOffsetAt _ ref (timeIdxOf tables time)).reaches
    split
    · exact hoffset
    · exact hoffset.trans (queries_signalTypedValueAt _ ref _ 0).reaches

/-- Every call is a sequence of moves. -/
lemma reaches_perform (st : Wellen) (request : Request) :
    Reaches capi st (st.perform capi tables request) := by
  cases request with
  | findSignal path => exact reaches_findSignal st path
  | loadSignals refs => exact .single (Move.load st refs)
  | unloadSignals refs => exact .single (Move.unload st refs)
  | signalInfo ref => exact (queries_signalInfo st ref).reaches
  | timeIndicesOf ref => exact (queries_timeIndicesOf st ref).reaches
  | signalOffsetAt ref timeIdx => exact (queries_signalOffsetAt st ref timeIdx).reaches
  | signalTypedValueAt ref start element =>
      exact (queries_signalTypedValueAt st ref start element).reaches
  | signalChangeAt ref ordinal => exact (queries_signalChangeAt st ref ordinal).reaches
  | scanChanges ref beginTimeIdx endTimeIdx limit =>
      exact (queries_scanChanges st ref beginTimeIdx endTimeIdx limit).reaches
  | sampledValueAt ref timeIdx point => exact (queries_sampledValueAt st ref timeIdx point).reaches
  | typedValuesAt refs timeIdx point => exact (queries_typedValuesAt timeIdx point refs st).reaches
  | deltaValuesAt ref timeIdx => exact (queries_deltaValuesAt st ref timeIdx).reaches
  | valueAt path time => exact reaches_valueAt st path time

lemma reaches_after (st : Wellen) (requests : List Request) :
    Reaches capi st (st.after capi tables requests) := by
  induction requests generalizing st with
  | nil => exact .refl
  | cons request requests ih => exact (reaches_perform st request).trans (ih _)

/-- What every move keeps, every sequence of calls keeps. -/
lemma Reaches.induction {P : Wellen → Prop} (hmove : ∀ st st', Move capi st st' → P st → P st')
    (h : Reaches capi st st') (hst : P st) : P st' := by
  induction h with
  | refl => exact hst
  | tail _ hstep ih => exact hmove _ _ hstep ih

/-! ### The cache -/

/-- No move leaves something stale in the cache. -/
lemma Inv.move (hinv : Inv capi st) (h : Move capi st st') : Inv capi st' := by
  cases h with
  | create path => exact hinv.createPackedSelection path
  | load refs => exact hinv.loadSignals refs
  | unload refs => exact hinv.unloadSignals refs
  | query ref => exact hinv.selectedChanges_state ref

/-! ### Paths and handles -/

lemma create_of_find? {path : String} {handle : ℕ}
    (h : st.packedSelectionIndex.find? path = some handle) :
    st.createPackedSelection path = (handle, st) := by
  rw [createPackedSelection, h]

lemma create_of_selectionOf_eq_none {path : String}
    (hnew : st.packedSelectionIndex.find? path = none) (h : st.selectionOf path = none) :
    st.createPackedSelection path = (0, st) := by
  rw [createPackedSelection, hnew, h]

lemma create_of_selectionOf_eq_some {path : String} {sel : PackedSelection}
    (hnew : st.packedSelectionIndex.find? path = none) (h : st.selectionOf path = some sel) :
    st.createPackedSelection path =
      (kVirtualSignalFlag + (st.packedSelections.length + 1),
        { st with
          packedSelections := st.packedSelections ++ [sel]
          packedSelectionIndex := st.packedSelectionIndex.insert path
            (kVirtualSignalFlag + (st.packedSelections.length + 1)) }) := by
  rw [createPackedSelection, hnew, h]

/-- The paths in the index are those of the selections, one for each. -/
structure PathInv (st : Wellen) : Prop where
  handle : ∀ path handle, st.packedSelectionIndex.find? path = some handle →
    ∃ i < st.packedSelections.length, handle = kVirtualSignalFlag + (i + 1)
  path : ∀ i < st.packedSelections.length, ∃! path,
    st.packedSelectionIndex.find? path = some (kVirtualSignalFlag + (i + 1))

lemma PathInv.of_eq (h : PathInv st)
    (hindex : st'.packedSelectionIndex = st.packedSelectionIndex)
    (hsels : st'.packedSelections = st.packedSelections) : PathInv st' := by
  refine ⟨fun path handle => ?_, fun i => ?_⟩
  · rw [hindex, hsels]
    exact h.handle path handle
  · rw [hindex, hsels]
    exact h.path i

lemma PathInv.create (h : PathInv st) (path : String) :
    PathInv (st.createPackedSelection path).2 := by
  cases hidx : st.packedSelectionIndex.find? path with
  | some handle =>
      rw [create_of_find? hidx]
      exact h
  | none =>
      cases hsel : st.selectionOf path with
      | none =>
          rw [create_of_selectionOf_eq_none hidx hsel]
          exact h
      | some sel =>
          rw [create_of_selectionOf_eq_some hidx hsel]
          refine ⟨fun path' handle hfind => ?_, fun i hi => ?_⟩
          · dsimp only at hfind ⊢
            rw [List.length_append, List.length_singleton]
            rcases (OrderedMap.find?_insert_eq_some_iff _).1 hfind with ⟨rfl, rfl⟩ | ⟨-, hold⟩
            · exact ⟨_, Nat.lt_succ_self _, rfl⟩
            · obtain ⟨i, hi, rfl⟩ := h.handle path' handle hold
              exact ⟨i, by omega, rfl⟩
          · dsimp only at hi ⊢
            rw [List.length_append, List.length_singleton] at hi
            simp only [OrderedMap.find?_insert_eq_some_iff]
            obtain hlt | rfl := Nat.lt_succ_iff_lt_or_eq.1 hi
            · obtain ⟨old, hold, huniq⟩ := h.path i hlt
              have hne : old ≠ path := by
                rintro rfl
                rw [hidx] at hold
                cases hold
              refine ⟨old, .inr ⟨hne, hold⟩, ?_⟩
              rintro path' (⟨-, heq⟩ | ⟨-, hfind⟩)
              · omega
              · exact huniq path' hfind
            · refine ⟨path, .inl ⟨rfl, rfl⟩, ?_⟩
              rintro path' (⟨heq, -⟩ | ⟨-, hfind⟩)
              · exact heq
              · obtain ⟨i, hi, heq⟩ := h.handle path' _ hfind
                omega

/-- What a state keeps of an earlier one. -/
structure Extends (st st' : Wellen) : Prop where
  signalIndex : st'.signalIndex = st.signalIndex
  declaredRanges : st'.declaredRanges = st.declaredRanges
  selections : st.packedSelections <+: st'.packedSelections
  paths : ∀ path handle, st.packedSelectionIndex.find? path = some handle →
    st'.packedSelectionIndex.find? path = some handle
  /-- A path that gets a selection later asked for a valid one all along. -/
  valid : ∀ path, (st'.packedSelectionIndex.find? path).isSome →
    st.packedSelectionIndex.find? path = none → (st.selectionOf path).isSome

/-- A selection that is valid is valid in an earlier state, where there are fewer of them. -/
lemma selectionOf_isSome_of_prefix {path : String} (hindex : st'.signalIndex = st.signalIndex)
    (hranges : st'.declaredRanges = st.declaredRanges)
    (hsels : st.packedSelections <+: st'.packedSelections)
    (h : (st'.selectionOf path).isSome) : (st.selectionOf path).isSome := by
  have hlen := hsels.length_le
  rw [selectionOf] at h ⊢
  split at h
  · cases h
  · next base selector hsplit =>
      rw [hindex, hranges] at h
      split at h
      · next ref declared msb lsb href hdeclared hbounds =>
          split at h
          · next hvalid =>
              rw [if_pos, Option.isSome_some]
              obtain ⟨h₁, h₂, h₃, h₄, h₅, h₆, h₇, h₈, h₉, h₁₀⟩ := hvalid
              exact ⟨h₁, h₂, h₃, h₄, h₅, h₆, h₇, h₈, h₉, by omega⟩
          · cases h
      · cases h

lemma Extends.refl (st : Wellen) : Extends st st where
  signalIndex := rfl
  declaredRanges := rfl
  selections := List.prefix_rfl
  paths := fun _ _ h => h
  valid := fun path hsome hnone => by simp [hnone] at hsome

lemma Extends.trans {st'' : Wellen} (h : Extends st st') (h' : Extends st' st'') :
    Extends st st'' where
  signalIndex := h'.signalIndex.trans h.signalIndex
  declaredRanges := h'.declaredRanges.trans h.declaredRanges
  selections := h.selections.trans h'.selections
  paths := fun path handle hfind => h'.paths path handle (h.paths path handle hfind)
  valid := fun path hsome hnone => by
    cases hmid : st'.packedSelectionIndex.find? path with
    | some handle => exact h.valid path (by rw [hmid]; rfl) hnone
    | none =>
        exact selectionOf_isSome_of_prefix h.signalIndex h.declaredRanges h.selections
          (h'.valid path hsome hmid)

/-- A state with the same index and selections. -/
lemma Extends.of_eq (hindex : st'.signalIndex = st.signalIndex)
    (hranges : st'.declaredRanges = st.declaredRanges)
    (hsels : st'.packedSelections = st.packedSelections)
    (hpaths : st'.packedSelectionIndex = st.packedSelectionIndex) : Extends st st' where
  signalIndex := hindex
  declaredRanges := hranges
  selections := by rw [hsels]
  paths := fun path handle hfind => by rwa [hpaths]
  valid := fun path hsome hnone => by simp [hpaths, hnone] at hsome

lemma extends_create (st : Wellen) (path : String) :
    Extends st (st.createPackedSelection path).2 := by
  cases hidx : st.packedSelectionIndex.find? path with
  | some handle =>
      rw [create_of_find? hidx]
      exact .refl st
  | none =>
      cases hsel : st.selectionOf path with
      | none =>
          rw [create_of_selectionOf_eq_none hidx hsel]
          exact .refl st
      | some sel =>
          rw [create_of_selectionOf_eq_some hidx hsel]
          refine ⟨rfl, rfl, List.prefix_append _ _, fun path' handle hfind => ?_, fun path' hsome hnone => ?_⟩
          · have hne : path' ≠ path := by
              rintro rfl
              rw [hidx] at hfind
              cases hfind
            exact (OrderedMap.find?_insert_of_ne _ hne _).trans hfind
          · by_cases heq : path' = path
            · rw [heq, hsel, Option.isSome_some]
            · rw [OrderedMap.find?_insert_of_ne _ heq, hnone] at hsome
              cases hsome

/-- What is known of the state after a move. -/
lemma Move.extends (h : Move capi st st') :
    Extends st st' ∧ (PathInv st → PathInv st') := by
  cases h with
  | create path => exact ⟨extends_create st path, fun hpath => hpath.create path⟩
  | load refs =>
      rw [loadSignals]
      split_ifs
      · exact ⟨.refl st, id⟩
      · exact ⟨.of_eq rfl rfl rfl rfl, fun hpath => hpath.of_eq rfl rfl⟩
  | unload refs =>
      rw [unloadSignals]
      split_ifs
      · exact ⟨.refl st, id⟩
      · exact ⟨.of_eq rfl rfl rfl rfl, fun hpath => hpath.of_eq rfl rfl⟩
  | query ref =>
      rcases selectedChanges_cases st ref with heq | ⟨sel, changes, -, -, heq⟩
      · rw [heq]
        exact ⟨.refl st, id⟩
      · rw [heq]
        exact ⟨.of_eq rfl rfl rfl rfl, fun hpath => hpath.of_eq rfl rfl⟩

lemma Reaches.extends (h : Reaches capi st st') : Extends st st' :=
  h.induction (fun _ _ hmove hext => hext.trans hmove.extends.1) (.refl st)

lemma exists_handle {handle : ℕ} {sel : PackedSelection} (h : st.packedSelection handle = some sel) :
    ∃ i < st.packedSelections.length, handle = kVirtualSignalFlag + (i + 1) := by
  unfold packedSelection at h
  simp only at h
  split_ifs at h with hvirtual hzero
  have hlt := (List.getElem?_eq_some_iff.1 h).1
  exact ⟨handle - kVirtualSignalFlag - 1, hlt, by omega⟩

/-- A handle keeps its selection. -/
lemma Extends.packedSelection (h : Extends st st') {handle : ℕ} {sel : PackedSelection}
    (hsel : st.packedSelection handle = some sel) : st'.packedSelection handle = some sel := by
  obtain ⟨more, hmore⟩ := h.selections
  unfold Wellen.packedSelection at hsel ⊢
  simp only at hsel ⊢
  split_ifs at hsel ⊢
  rw [← hmore, List.getElem?_append_left (List.getElem?_eq_some_iff.1 hsel).1]
  exact hsel

/-! ### Finding a signal again -/

/-- The answer for a path that has a selection stays the same. -/
lemma Extends.create_of_ne_zero {path : String}
    (hext : Extends (st.createPackedSelection path).2 st')
    (hne : (st.createPackedSelection path).1 ≠ 0) :
    st'.createPackedSelection path = ((st.createPackedSelection path).1, st') := by
  refine create_of_find? (hext.paths path _ ?_)
  cases hidx : st.packedSelectionIndex.find? path with
  | some handle => rw [create_of_find? hidx, hidx]
  | none =>
      cases hsel : st.selectionOf path with
      | none =>
          rw [create_of_selectionOf_eq_none hidx hsel] at hne
          exact absurd rfl hne
      | some sel =>
          rw [create_of_selectionOf_eq_some hidx hsel]
          exact OrderedMap.find?_insert_self _ _ _

/-- A path that cannot have a selection never gets one. -/
lemma Extends.create_of_eq_zero {path : String} (hpath : PathInv st) (hext : Extends st st')
    (hzero : (st.createPackedSelection path).1 = 0) :
    (st.createPackedSelection path).2 = st ∧ st'.createPackedSelection path = (0, st') := by
  cases hidx : st.packedSelectionIndex.find? path with
  | some handle =>
      obtain ⟨i, -, rfl⟩ := hpath.handle path handle hidx
      rw [create_of_find? hidx] at hzero
      omega
  | none =>
      cases hsel : st.selectionOf path with
      | some sel =>
          rw [create_of_selectionOf_eq_some hidx hsel] at hzero
          omega
      | none =>
          rw [create_of_selectionOf_eq_none hidx hsel]
          refine ⟨rfl, create_of_selectionOf_eq_none ?_ ?_⟩
          · rw [← Option.not_isSome_iff_eq_none]
            intro hsome
            have hvalid := hext.valid path hsome hidx
            rw [hsel] at hvalid
            cases hvalid
          · rw [← Option.not_isSome_iff_eq_none]
            intro hsome
            have hvalid := selectionOf_isSome_of_prefix hext.signalIndex hext.declaredRanges
              hext.selections hsome
            rw [hsel] at hvalid
            cases hvalid

/-- A path is found again under the handle it was found under first. -/
lemma Extends.findSignal_eq (hpath : PathInv st) {path path' : String}
    (hnormal : normalizePath path.toList = normalizePath path'.toList)
    (hext : Extends (st.findSignal path).2 st') (hne : (st.findSignal path).1 ≠ 0)
    (hne' : (st'.findSignal path').1 ≠ 0) :
    (st'.findSignal path').1 = (st.findSignal path).1 := by
  have hfind : Extends st (st.findSignal path).2 :=
    findSignal_induction (P := Extends st) (fun _ path' h => h.trans (extends_create _ path'))
      (.refl st) path
  have hall := hfind.trans hext
  have hpath₁ : path ≠ "" := by
    rintro rfl
    exact hne rfl
  have hpath₂ : path' ≠ "" := by
    rintro rfl
    exact hne' rfl
  rw [findSignal, if_neg hpath₂, ← hnormal, hall.signalIndex] at hne' ⊢
  rw [findSignal, if_neg hpath₁] at hext hne ⊢
  generalize normalizePath path.toList = key at hext hne hne' ⊢
  dsimp only at hext hne hne' ⊢
  cases hsignal : st.signalIndex.find? (String.ofList key) with
  | some ref => rfl
  | none =>
      rw [hsignal] at hext hne hne'
      dsimp only at hext hne hne' ⊢
      by_cases hfirst : (st.createPackedSelection (String.ofList key)).1 = 0
      · -- the path itself is no selection, now or later
        obtain ⟨hsame, hlater⟩ := hall.create_of_eq_zero hpath hfirst
        rw [hfirst, hsame] at hext hne ⊢
        rw [hlater] at hne' ⊢
        simp only [ne_eq, not_true_eq_false, ↓reduceIte] at hext hne hne' ⊢
        cases hdrop : dropTop key with
        | none => rfl
        | some rest =>
            rw [hdrop] at hext hne hne'
            rw [hall.signalIndex]
            dsimp only at hext hne hne' ⊢
            cases hsignal' : st.signalIndex.find? (String.ofList rest) with
            | some ref => rfl
            | none =>
                rw [hsignal'] at hext hne
                dsimp only
                rw [hext.create_of_ne_zero hne]
      · rw [if_pos hfirst] at hext hne ⊢
        rw [hext.create_of_ne_zero hfirst, if_pos hfirst]

/-- **The selections and their cache over any sequence of calls.** -/
theorem selections_never_stale (capi : Capi) (tables : Tables)
    (signalIndex : OrderedMap String ℕ) (declaredRanges : OrderedMap String DeclaredRange)
    (requests : List Request) :
    let st := after capi tables (opened signalIndex declaredRanges) requests
    (∀ handle, (st.packedSelection handle).isSome →
      ∃! path, st.packedSelectionIndex.find? path = some handle) ∧
    (∀ (path path' : String) (later : List Request),
      normalizePath path.toList = normalizePath path'.toList →
      (st.findSignal path).1 ≠ 0 →
      ((after capi tables (st.findSignal path).2 later).findSignal path').1 ≠ 0 →
      ((after capi tables (st.findSignal path).2 later).findSignal path').1 =
        (st.findSignal path).1) ∧
    (∀ (handle : ℕ) (sel : PackedSelection) (later : List Request),
      st.packedSelection handle = some sel →
      (after capi tables st later).packedSelection handle = some sel) ∧
    ∀ handle changes, st.selectedChangeCache.find? handle = some changes →
      ∃ sel, st.packedSelection handle = some sel ∧
        st.computeSelected capi sel = some changes := by
  intro st
  have hreaches : Reaches capi (opened signalIndex declaredRanges) st := reaches_after _ _
  have hpath : PathInv st := hreaches.induction (fun _ _ hmove => hmove.extends.2)
    ⟨fun path handle h => by simp [opened] at h, fun i hi => by simp [opened] at hi⟩
  have hinv : Inv capi st := hreaches.induction (fun _ _ hmove hinv => hinv.move hmove)
    (inv_run capi signalIndex declaredRanges [])
  refine ⟨fun handle hsome => ?_, fun path path' later hnormal hne hne' => ?_,
    fun handle sel later hsel => (reaches_after st later).extends.packedSelection hsel,
    hinv.cache⟩
  · obtain ⟨sel, hsel⟩ := Option.isSome_iff_exists.1 hsome
    obtain ⟨i, hi, rfl⟩ := exists_handle hsel
    exact hpath.path i hi
  · exact (reaches_after _ later).extends.findSignal_eq hpath hnormal hne hne'

end XdebugFst.Waveform.Wellen
