import XdebugFst.Waveform.SelectRefines

/-!
# Finding a signal by its path

`find_signal` normalises a path and looks it up in the signal index; a path that is not there
may be a packed selection on a signal that is. With a top module that is itself called `top`,
the path is tried once more without that name.

What a handle selects is written in the path it was found by: `Asks` says how, and every
state that calls lead to keeps it for the handles in its index.
-/

namespace XdebugFst.Waveform

open Lib

/-- The dot before an opening bracket is dropped. -/
def dropArrayDots : List Char → List Char
  | '.' :: '[' :: rest => '[' :: dropArrayDots rest
  | c :: rest => c :: dropArrayDots rest
  | [] => []

/-- The text without a leading `top.`, or nothing when it has none. -/
def dropTop : List Char → Option (List Char)
  | 't' :: 'o' :: 'p' :: '.' :: rest => some rest
  | _ => none

/-- `normalize_path`. -/
def normalizePath (path : List Char) : List Char :=
  let out := path.map Char.toLower
  dropArrayDots ((dropTop out).getD out)

namespace Wellen

/-- `find_signal`: the reference of a path, or 0. -/
def findSignal (st : Wellen) (path : String) : ℕ × Wellen :=
  if path = "" then (0, st)
  else
    let key := normalizePath path.toList
    match st.signalIndex.find? (String.ofList key) with
    | some ref => (ref, st)
    | none =>
        let (selected, st) := st.createPackedSelection (String.ofList key)
        if selected ≠ 0 then (selected, st)
        else
          match dropTop key with
          | none => (0, st)
          | some key =>
              match st.signalIndex.find? (String.ofList key) with
              | some ref => (ref, st)
              | none => st.createPackedSelection (String.ofList key)

/-- A path asks for a selection: its parts name the base and the bounds. -/
def Asks (signalIndex : OrderedMap String ℕ) (path : String) (sel : PackedSelection) : Prop :=
  ∃ base selector, splitSelector path.toList = some (base, selector) ∧
    signalIndex.find? (String.ofList base) = some sel.baseRef ∧
    selectorBounds selector = some (sel.selectedMsb, sel.selectedLsb)

/-- Every path in the index asks for the selection of its handle. -/
def IndexInv (st : Wellen) : Prop :=
  ∀ path handle, st.packedSelectionIndex.find? path = some handle →
    ∃ sel, st.packedSelection handle = some sel ∧ Asks st.signalIndex path sel

variable {capi : Capi} {st : Wellen} {path : String} {sel : PackedSelection}

lemma asks_of_selectionOf (h : st.selectionOf path = some sel) : Asks st.signalIndex path sel := by
  unfold selectionOf at h
  split at h
  · cases h
  · rename_i base selector hsplit
    split at h
    · rename_i hbase hdeclared hbounds
      split_ifs at h
      cases h
      exact ⟨base, selector, hsplit, hbase, hbounds⟩
    · cases h

/-- What `create_packed_selection` answers for a path selects what the path asks for. -/
lemma IndexInv.exists_asks (h : IndexInv st) {handle : ℕ}
    (hhandle : (st.createPackedSelection path).1 = handle) (hne : handle ≠ 0) :
    ∃ sel, (st.createPackedSelection path).2.packedSelection handle = some sel ∧
      Asks st.signalIndex path sel := by
  rw [createPackedSelection] at hhandle ⊢
  cases hidx : st.packedSelectionIndex.find? path with
  | some known =>
      rw [hidx] at hhandle
      obtain rfl : known = handle := hhandle
      exact h path known hidx
  | none =>
      cases hsel : st.selectionOf path with
      | none =>
          rw [hidx, hsel] at hhandle
          exact absurd hhandle.symm hne
      | some sel =>
          rw [hidx, hsel] at hhandle
          obtain rfl : kVirtualSignalFlag + (st.packedSelections.length + 1) = handle := hhandle
          refine ⟨sel, ?_, asks_of_selectionOf hsel⟩
          rw [packedSelection, if_neg (by omega)]
          simp

lemma IndexInv.createPackedSelection (h : IndexInv st) (path : String) :
    IndexInv (st.createPackedSelection path).2 := by
  have hnew := fun handle => @IndexInv.exists_asks st path h handle
  rw [Wellen.createPackedSelection] at hnew ⊢
  cases hidx : st.packedSelectionIndex.find? path with
  | some known => exact h
  | none =>
      cases hsel : st.selectionOf path with
      | none => exact h
      | some sel =>
          rw [hidx, hsel] at hnew
          intro path' handle hfind
          rcases (OrderedMap.find?_insert_eq_some_iff _).1 hfind with ⟨rfl, rfl⟩ | ⟨-, hold⟩
          · obtain ⟨sel', hsel', hasks⟩ := hnew _ rfl (by simp [kVirtualSignalFlag])
            exact ⟨sel', hsel', hasks⟩
          · obtain ⟨sel', hsel', hasks⟩ := h path' handle hold
            exact ⟨sel', packedSelection_append sel hsel', hasks⟩

/-- Calls other than `create_packed_selection` do not touch what the index is about. -/
lemma IndexInv.of_eq {st' : Wellen} (h : IndexInv st)
    (hindex : st'.packedSelectionIndex = st.packedSelectionIndex)
    (hsels : st'.packedSelections = st.packedSelections)
    (hsignals : st'.signalIndex = st.signalIndex) : IndexInv st' := by
  intro path handle hfind
  rw [hindex] at hfind
  obtain ⟨sel, hsel, hasks⟩ := h path handle hfind
  exact ⟨sel, (packedSelection_congr hsels handle).trans hsel, hsignals ▸ hasks⟩

lemma indexInv_selectedChanges (h : IndexInv st) (ref : ℕ) :
    IndexInv (st.selectedChanges capi ref).2 := by
  rcases selectedChanges_cases st ref with heq | ⟨sel, changes, -, -, heq⟩
  · rw [heq]
    exact h
  · rw [heq]
    exact h.of_eq rfl rfl rfl

lemma IndexInv.step (h : IndexInv st) (call : Call) : IndexInv (st.step capi call) := by
  cases call with
  | createPackedSelection path => exact h.createPackedSelection path
  | loadSignals refs =>
      show IndexInv (st.loadSignals refs)
      rw [Wellen.loadSignals]
      split_ifs
      · exact h
      · exact h.of_eq rfl rfl rfl
  | unloadSignals refs =>
      show IndexInv (st.unloadSignals refs)
      rw [Wellen.unloadSignals]
      split_ifs
      · exact h
      · exact h.of_eq rfl rfl rfl
  | sampledValueAt ref timeIdx point =>
      show IndexInv (st.signalOffsetAt capi ref timeIdx).2
      rw [Wellen.signalOffsetAt]
      cases st.packedSelection ref with
      | none => exact h
      | some sel => exact indexInv_selectedChanges h ref

/-- Every list of calls keeps the index. -/
lemma indexInv_run (capi : Capi) (signalIndex : OrderedMap String ℕ)
    (declaredRanges : OrderedMap String DeclaredRange) (calls : List Call) :
    IndexInv (run capi signalIndex declaredRanges calls) := by
  have hopened : IndexInv (opened signalIndex declaredRanges) := by
    intro path handle hfind
    simp [opened] at hfind
  unfold run
  induction calls using List.reverseRecOn with
  | nil => exact hopened
  | append_singleton calls call ih =>
      rw [List.foldl_append]
      exact ih.step call

@[simp]
lemma createPackedSelection_signalIndex (st : Wellen) (path : String) :
    (st.createPackedSelection path).2.signalIndex = st.signalIndex := by
  rw [Wellen.createPackedSelection]
  cases st.packedSelectionIndex.find? path with
  | some handle => rfl
  | none => cases st.selectionOf path <;> rfl

@[simp]
lemma createPackedSelection_loaded (st : Wellen) (path : String) :
    (st.createPackedSelection path).2.loaded = st.loaded := by
  rw [Wellen.createPackedSelection]
  cases st.packedSelectionIndex.find? path with
  | some handle => rfl
  | none => cases st.selectionOf path <;> rfl

/-- What creating selections keeps, finding a signal keeps. -/
lemma findSignal_induction {P : Wellen → Prop}
    (hstep : ∀ st path, P st → P (st.createPackedSelection path).2) (h : P st) (path : String) :
    P (st.findSignal path).2 := by
  rw [findSignal]
  have hfirst := hstep st (String.ofList (normalizePath path.toList)) h
  split
  · exact h
  · dsimp only
    split
    · exact h
    · split
      · exact hfirst
      · split
        · exact hfirst
        · split
          · exact hfirst
          · exact hstep _ _ hfirst

/-- The references of the signals in the index are valid and below those of the selections. -/
def NativeIndex (signalIndex : OrderedMap String ℕ) : Prop :=
  ∀ path ref, signalIndex.find? path = some ref → ref ≠ 0 ∧ ref < kVirtualSignalFlag

/-- A handle that is found for a path selects what the path asks for, or what it asks for
without its leading `top.`. -/
lemma IndexInv.asks_findSignal (h : IndexInv st) (hnative : NativeIndex st.signalIndex)
    (hsel : (st.findSignal path).2.packedSelection (st.findSignal path).1 = some sel) :
    Asks st.signalIndex (String.ofList (normalizePath path.toList)) sel ∨
      ∃ key, dropTop (normalizePath path.toList) = some key ∧
        Asks st.signalIndex (String.ofList key) sel := by
  have hnone : ∀ (st' : Wellen) (ref : ℕ), ref < kVirtualSignalFlag →
      st'.packedSelection ref ≠ some sel := by
    intro st' ref href hsome
    rw [packedSelection_of_lt href] at hsome
    cases hsome
  have hzero : (0 : ℕ) < kVirtualSignalFlag := by decide
  rw [findSignal] at hsel
  split at hsel
  · exact absurd hsel (hnone _ _ hzero)
  · dsimp only at hsel
    split at hsel
    · rename_i ref hfind
      exact absurd hsel (hnone _ _ (hnative _ _ hfind).2)
    · split at hsel
      · -- the selection of the path
        rename_i hselected
        obtain ⟨sel', hsel', hasks⟩ := h.exists_asks rfl hselected
        obtain rfl : sel = sel' := Option.some.inj (hsel.symm.trans hsel')
        exact Or.inl hasks
      · split at hsel
        · exact absurd hsel (hnone _ _ hzero)
        · rename_i key hkey
          split at hsel
          · rename_i ref hfind
            rw [createPackedSelection_signalIndex] at hfind
            exact absurd hsel (hnone _ _ (hnative _ _ hfind).2)
          · -- the selection of the path without `top.`, in the state that the first try leaves
            refine Or.inr ⟨key, hkey, ?_⟩
            have h' := h.createPackedSelection (String.ofList (normalizePath path.toList))
            by_cases hne : ((st.createPackedSelection
                (String.ofList (normalizePath path.toList))).2.createPackedSelection
                (String.ofList key)).1 = 0
            · rw [hne] at hsel
              exact absurd hsel (hnone _ _ hzero)
            · obtain ⟨sel', hsel', hasks⟩ := h'.exists_asks rfl hne
              obtain rfl : sel = sel' := Option.some.inj (hsel.symm.trans hsel')
              rwa [createPackedSelection_signalIndex] at hasks

end Wellen

end XdebugFst.Waveform
