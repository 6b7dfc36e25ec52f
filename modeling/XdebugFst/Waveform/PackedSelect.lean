import XdebugFst.Lib.OrderedMap
import XdebugFst.Lib.Text
import XdebugFst.Waveform.Backend

/-!
# Packed selections of the Wellen backend

`WellenFstBackend` reads a waveform through the Wellen C interface.  A name such as
`bus[7:4]` that the waveform does not contain gets a handle of its own, with bit 31 set;
its changes are computed from those of `bus` by selecting the bits and dropping every
change that leaves them as they were, and are kept in a cache.

The C interface is a parameter, `Capi`: what it says about a signal once the signal is
loaded.  The backend's own state is explicit, and `Reachable` are the states that calls of
the backend lead to.
-/

namespace XdebugFst.Waveform

open Lib

/-- The Wellen C interface for the signals that are loaded. -/
structure Capi where
  /-- `wellen_signal_info` knows the signal. -/
  hasInfo : ℕ → Bool
  /-- `wellenx_signal_time_indices`. -/
  timeIndices : ℕ → Option (List ℕ)
  /-- `wellen_signal_typed_value_at_offset`, by signal, start and element. -/
  typedValue : ℕ → ℕ → ℕ → Option WaveformValue
  /-- `wellen_signal_offset_at`. -/
  signalOffset : ℕ → ℕ → Option SignalOffset

/-- `DeclaredRange`. -/
structure DeclaredRange where
  msb : ℤ
  lsb : ℤ
  width : ℕ
  deriving DecidableEq, Repr

/-- `PackedSelection`. -/
structure PackedSelection where
  baseRef : ℕ
  declaredMsb : ℤ
  declaredLsb : ℤ
  selectedMsb : ℤ
  selectedLsb : ℤ
  width : ℕ
  deriving DecidableEq, Repr

/-- The state of the backend after the signal index has been built. -/
structure Wellen where
  signalIndex : OrderedMap String ℕ
  declaredRanges : OrderedMap String DeclaredRange
  packedSelectionIndex : OrderedMap String ℕ := .empty
  packedSelections : List PackedSelection := []
  selectedChangeCache : OrderedMap ℕ (List Change) := .empty
  /-- The signals that the C interface has loaded. -/
  loaded : List ℕ := []

/-- `kVirtualSignalFlag`. -/
def kVirtualSignalFlag : ℕ := 2 ^ 31

/-- The number of bits between two bounds, in either direction. -/
def rangeWidth (msb lsb : ℤ) : ℕ := (if msb ≥ lsb then msb - lsb + 1 else lsb - msb + 1).toNat

namespace Wellen

/-- `packed_selection`. -/
def packedSelection (st : Wellen) (signalRef : ℕ) : Option PackedSelection :=
  if signalRef < kVirtualSignalFlag then none
  else
    let encodedIndex := signalRef - kVirtualSignalFlag
    if encodedIndex = 0 then none else st.packedSelections[encodedIndex - 1]?

/-- `native_signal_ref`; 0 is the invalid reference. -/
def nativeSignalRef (st : Wellen) (signalRef : ℕ) : ℕ :=
  match st.packedSelection signalRef with
  | some selection => selection.baseRef
  | none => if signalRef < kVirtualSignalFlag then signalRef else 0

end Wellen

/-! ### Selecting bits -/

/-- The indices of the loop in `select_packed_bits`, from `selected_msb` to
`selected_lsb`. -/
def selectedIndices (msb lsb : ℤ) : List ℤ :=
  (List.range (rangeWidth msb lsb)).map fun k : ℕ => if msb ≤ lsb then msb + k else msb - k

/-- The character of the source text for an index, or a failure when it is outside. -/
def packedBit (declaredMsb declaredLsb : ℤ) (source : List Char) (bit : ℤ) : Option Char :=
  let offset := if declaredMsb ≥ declaredLsb then declaredMsb - bit else bit - declaredMsb
  if 0 ≤ offset then source[offset.toNat]? else none

/-- `select_packed_bits`. -/
def selectPackedBits (selection : PackedSelection) (source : String) : Option String :=
  if rangeWidth selection.declaredMsb selection.declaredLsb ≠ source.length then none
  else
    ((selectedIndices selection.selectedMsb selection.selectedLsb).mapM
      (packedBit selection.declaredMsb selection.declaredLsb source.toList)).map String.ofList

/-! ### Creating a selection -/

/-- The characters that `std::strtoll` skips. -/
def isStrtollSpace (c : Char) : Bool :=
  c = ' ' || (9 ≤ c.toNat && c.toNat ≤ 13)

/-- `parse_signed_index`: `std::strtoll` in base 10 over the whole text, in the range of a
`long long`. -/
def parseSignedIndex (text : String) : Option ℤ :=
  let body := text.toList.dropWhile isStrtollSpace
  let (negative, digits) := match body with
    | '-' :: rest => (true, rest)
    | '+' :: rest => (false, rest)
    | rest => (false, rest)
  if digits.isEmpty || !digits.all Char.isDigit then none
  else
    let magnitude : ℤ := digits.foldl (fun n c => n * 10 + (c.toNat - '0'.toNat : ℕ)) (0 : ℕ)
    let value := if negative then -magnitude else magnitude
    if -2 ^ 63 ≤ value ∧ value < 2 ^ 63 then some value else none

/-- The text before and behind the last `[`, when the path ends with `]`. -/
def splitSelector (path : List Char) : Option (List Char × List Char) :=
  match path.reverse with
  | ']' :: rest =>
      let selector := rest.takeWhile (· ≠ '[')
      match rest.drop selector.length with
      | '[' :: base => if base.isEmpty then none else some (base.reverse, selector.reverse)
      | _ => none
  | _ => none

/-- The bounds of a selector `msb:lsb` or `bit`. -/
def selectorBounds (selector : List Char) : Option (ℤ × ℤ) :=
  let msbText := selector.takeWhile (· ≠ ':')
  match selector.drop msbText.length with
  | [] => (parseSignedIndex (String.ofList msbText)).map fun bit => (bit, bit)
  | _ :: lsbText =>
      if lsbText.contains ':' then none
      else do
        let msb ← parseSignedIndex (String.ofList msbText)
        let lsb ← parseSignedIndex (String.ofList lsbText)
        some (msb, lsb)

/-- A digit is neither a space nor a sign. -/
lemma isStrtollSpace_of_isDigit {c : Char} (h : c.isDigit = true) : isStrtollSpace c = false := by
  obtain ⟨hlow, -⟩ := toNat_of_isDigit h
  have hspace : c ≠ ' ' := by
    rintro rfl
    exact absurd hlow (by decide)
  rw [isStrtollSpace]
  simp only [Bool.or_eq_false_iff, decide_eq_false_iff_not, Bool.and_eq_false_iff]
  exact ⟨hspace, Or.inr (by omega)⟩

/-- The digits of a bound are read as its magnitude. -/
lemma foldl_digits_cast (digits : List Char) (n : ℕ) :
    digits.foldl (fun (n : ℤ) c => n * 10 + (c.toNat - '0'.toNat : ℕ)) n =
      Nat.ofDigitChars 10 digits n := by
  induction digits generalizing n with
  | nil => rfl
  | cons c digits ih =>
      rw [List.foldl_cons, Nat.ofDigitChars_cons, ← ih]
      push_cast
      rw [Int.mul_comm]

/-- A bound that fits into 64 bits is read back from its decimal text. -/
lemma parseSignedIndex_toString (i : ℤ) :
    parseSignedIndex (toString i) = if -2 ^ 63 ≤ i ∧ i < 2 ^ 63 then some i else none := by
  have hall : ∀ c ∈ Nat.toDigits 10 i.natAbs, c.isDigit = true := fun c hc =>
    Nat.isDigit_of_mem_toDigits (by decide) (by decide) hc
  have hne : Nat.toDigits 10 i.natAbs ≠ [] := Nat.toDigits_ne_nil
  have hvalue : (Nat.toDigits 10 i.natAbs).foldl
      (fun (n : ℤ) c => n * 10 + (c.toNat - '0'.toNat : ℕ)) (0 : ℕ) = i.natAbs := by
    rw [foldl_digits_cast, Nat.ofDigitChars_ten_toDigits]
  have hdigits : ((Nat.toDigits 10 i.natAbs).isEmpty ||
      !(Nat.toDigits 10 i.natAbs).all Char.isDigit) = false := by
    rw [List.isEmpty_eq_false_iff.2 hne, List.all_eq_true.2 hall]
    rfl
  rw [parseSignedIndex, toList_toString_int]
  by_cases hneg : i < 0
  · rw [if_pos hneg, List.dropWhile_cons_of_neg (by decide)]
    have hi : -(i.natAbs : ℤ) = i := by omega
    simp only [hdigits, hvalue, hi, Bool.false_eq_true, if_false, if_true]
  · rw [if_neg hneg]
    obtain ⟨c, rest, hrest⟩ := List.exists_cons_of_ne_nil hne
    have hdigit : c.isDigit = true := hall c (by rw [hrest]; exact List.mem_cons_self)
    have hi : (i.natAbs : ℤ) = i := by omega
    rw [hrest] at hdigits hvalue ⊢
    rw [List.dropWhile_cons_of_neg (by simp [isStrtollSpace_of_isDigit hdigit])]
    split
    rename_i negative digits hsign
    -- a digit is no sign
    split at hsign
    · rename_i heq
      obtain rfl := (List.cons.inj heq).1
      exact absurd hdigit (by decide)
    · rename_i heq
      obtain rfl := (List.cons.inj heq).1
      exact absurd hdigit (by decide)
    · obtain ⟨rfl, rfl⟩ := Prod.ext_iff.1 hsign
      simp only [hdigits, hvalue, hi, Bool.false_eq_true, if_false]

/-- The selector is what stands between the last bracket and the end. -/
lemma splitSelector_append (base : List Char) {selector : List Char} (hselector : '[' ∉ selector) :
    splitSelector (base ++ '[' :: (selector ++ [']'])) =
      if base = [] then none else some (base, selector) := by
  have hreverse : (base ++ '[' :: (selector ++ [']'])).reverse =
      ']' :: (selector.reverse ++ '[' :: base.reverse) := by simp
  have hall : ∀ c ∈ selector.reverse, decide (c ≠ '[') = true := by
    intro c hc
    rw [decide_eq_true_eq]
    rintro rfl
    exact hselector (List.mem_reverse.1 hc)
  have htake : (selector.reverse ++ '[' :: base.reverse).takeWhile (· ≠ '[') =
      selector.reverse := by
    rw [List.takeWhile_append_of_pos hall, List.takeWhile_cons_of_neg (by decide), List.append_nil]
  simp only [splitSelector, hreverse, htake, List.drop_left, List.reverse_reverse,
    List.isEmpty_reverse, List.isEmpty_iff]

/-- The selector of two bounds. -/
lemma selectorBounds_append (msb lsb : ℤ) :
    selectorBounds ((toString msb).toList ++ ':' :: (toString lsb).toList) =
      (parseSignedIndex (toString msb)).bind fun m =>
        (parseSignedIndex (toString lsb)).map fun l => (m, l) := by
  have hfirst : ∀ c ∈ (toString msb).toList, decide (c ≠ ':') = true := by
    intro c hc
    rw [decide_eq_true_eq]
    rintro rfl
    exact notMem_toString_int (by decide) (by decide) msb hc
  have hlast : (toString lsb).toList.contains ':' = false := by
    rw [List.contains_eq_mem, decide_eq_false_iff_not]
    exact notMem_toString_int (by decide) (by decide) lsb
  have htake : ((toString msb).toList ++ ':' :: (toString lsb).toList).takeWhile (· ≠ ':') =
      (toString msb).toList := by
    rw [List.takeWhile_append_of_pos hfirst, List.takeWhile_cons_of_neg (by decide),
      List.append_nil]
  rw [selectorBounds, htake, List.drop_left]
  dsimp only
  rw [hlast, String.ofList_toList, String.ofList_toList]
  cases parseSignedIndex (toString msb) with
  | none => rfl
  | some m => cases parseSignedIndex (toString lsb) <;> rfl

/-- The selector of one bit. -/
lemma selectorBounds_toString (bit : ℤ) : selectorBounds (toString bit).toList =
    (parseSignedIndex (toString bit)).map fun bit => (bit, bit) := by
  have htake : (toString bit).toList.takeWhile (· ≠ ':') = (toString bit).toList :=
    List.takeWhile_eq_self_iff.2 fun c hc =>
      decide_eq_true fun h => notMem_toString_int rfl (by decide) bit (h ▸ hc)
  simp only [selectorBounds, htake, List.drop_length, String.ofList_toList]

namespace Wellen

/-- The checks of `create_packed_selection` on the base, its declared range and the bounds of
the selector. -/
def SelectionValid (st : Wellen) (base : ℕ) (declared : DeclaredRange) (msb lsb : ℤ) : Prop :=
  base < kVirtualSignalFlag ∧
    rangeWidth declared.msb declared.lsb ≠ 0 ∧
    rangeWidth declared.msb declared.lsb = declared.width ∧
    min declared.msb declared.lsb ≤ msb ∧ msb ≤ max declared.msb declared.lsb ∧
    min declared.msb declared.lsb ≤ lsb ∧ lsb ≤ max declared.msb declared.lsb ∧
    rangeWidth msb lsb ≠ 0 ∧ rangeWidth msb lsb ≤ 2 ^ 32 - 1 ∧
    st.packedSelections.length + 1 < kVirtualSignalFlag

instance (st : Wellen) (base : ℕ) (declared : DeclaredRange) (msb lsb : ℤ) :
    Decidable (st.SelectionValid base declared msb lsb) :=
  inferInstanceAs (Decidable (_ ∧ _))

/-- The selection that a normalised path asks for, when it is valid. -/
def selectionOf (st : Wellen) (normalizedPath : String) : Option PackedSelection :=
  match splitSelector normalizedPath.toList with
  | none => none
  | some (basePath, selector) =>
      match st.signalIndex.find? (String.ofList basePath),
        st.declaredRanges.find? (String.ofList basePath), selectorBounds selector with
      | some base, some declared, some (selectedMsb, selectedLsb) =>
          if st.SelectionValid base declared selectedMsb selectedLsb then
            some
              { baseRef := base
                declaredMsb := declared.msb
                declaredLsb := declared.lsb
                selectedMsb := selectedMsb
                selectedLsb := selectedLsb
                width := rangeWidth selectedMsb selectedLsb }
          else none
      | _, _, _ => none

/-- `create_packed_selection`: the handle of a normalised path, or 0. -/
def createPackedSelection (st : Wellen) (normalizedPath : String) : ℕ × Wellen :=
  match st.packedSelectionIndex.find? normalizedPath with
  | some handle => (handle, st)
  | none =>
      match st.selectionOf normalizedPath with
      | none => (0, st)
      | some selection =>
          let handle := kVirtualSignalFlag + (st.packedSelections.length + 1)
          (handle,
            { st with
              packedSelections := st.packedSelections ++ [selection]
              packedSelectionIndex := st.packedSelectionIndex.insert normalizedPath handle })

/-! ### Loading -/

/-- `load_signals`: nothing is loaded when one of the references is invalid. -/
def loadSignals (st : Wellen) (refs : List ℕ) : Wellen :=
  let nativeRefs := refs.map st.nativeSignalRef
  if nativeRefs.contains 0 then st else { st with loaded := st.loaded ++ nativeRefs }

/-- `unload_signals`: the cached changes of the selections on an unloaded signal go too. -/
def unloadSignals (st : Wellen) (refs : List ℕ) : Wellen :=
  let nativeRefs := (refs.map st.nativeSignalRef).filter (· ≠ 0)
  if nativeRefs.isEmpty then st
  else
    { st with
      selectedChangeCache := st.selectedChangeCache.filter fun handle _ =>
        match st.packedSelection handle with
        | some selection => !nativeRefs.contains selection.baseRef
        | none => true
      loaded := st.loaded.filter fun ref => !nativeRefs.contains ref }

/-! ### Reading -/

variable (capi : Capi)

/-- `wellen_signal_info` succeeds: the signal is loaded. -/
def hasInfo (st : Wellen) (ref : ℕ) : Bool := st.loaded.contains ref && capi.hasInfo ref

/-- `native_time_indices_of`. -/
def nativeTimeIndicesOf (st : Wellen) (ref : ℕ) : List ℕ :=
  if st.hasInfo capi ref then (capi.timeIndices ref).getD [] else []

/-- `native_typed_value_at`. -/
def nativeTypedValueAt (st : Wellen) (ref start element : ℕ) : Option WaveformValue :=
  if st.loaded.contains ref then capi.typedValue ref start element else none

/-- The loop of `selected_changes` over the changes of the base: `none` when a change has no
bits to select. -/
def selectLoop (value : ℕ → Option WaveformValue) (selection : PackedSelection) :
    List (ℕ × ℕ) → List Change → String → Option (List Change)
  | [], selected, _ => some selected
  | (timeIdx, ordinal) :: rest, selected, previous =>
      match value ordinal with
      | none => none
      | some source =>
          if source.kind ≠ .bitVector then none
          else
            match selectPackedBits selection source.text with
            | none => none
            | some text =>
                if !selected.isEmpty && text = previous then
                  selectLoop value selection rest selected previous
                else
                  selectLoop value selection rest
                    (selected ++ [{ timeIdx := timeIdx, value := { text := text } }]) text

/-- The changes of a selection, computed from those of its base. -/
def computeSelected (st : Wellen) (selection : PackedSelection) : Option (List Change) :=
  if st.hasInfo capi selection.baseRef then
    selectLoop (fun ordinal => st.nativeTypedValueAt capi selection.baseRef ordinal 0) selection
      (st.nativeTimeIndicesOf capi selection.baseRef).zipIdx [] ""
  else none

/-- `selected_changes`: from the cache, or computed and put there. -/
def selectedChanges (st : Wellen) (signalRef : ℕ) : List Change × Wellen :=
  match st.selectedChangeCache.find? signalRef with
  | some changes => (changes, st)
  | none =>
      match st.packedSelection signalRef with
      | none => ([], st)
      | some selection =>
          match st.computeSelected capi selection with
          | none => ([], st)
          | some changes =>
              (changes,
                { st with
                  selectedChangeCache := st.selectedChangeCache.insert signalRef changes })

/-- `signal_offset_at`. -/
def signalOffsetAt (st : Wellen) (signalRef timeIdx : ℕ) : Option SignalOffset × Wellen :=
  match st.packedSelection signalRef with
  | some _ =>
      let (changes, st) := st.selectedChanges capi signalRef
      (offsetAt changes timeIdx, st)
  | none =>
      (if st.loaded.contains signalRef then capi.signalOffset signalRef timeIdx else none, st)

/-- `signal_typed_value_at`. -/
def signalTypedValueAt (st : Wellen) (signalRef start element : ℕ) :
    Option WaveformValue × Wellen :=
  match st.packedSelection signalRef with
  | some _ =>
      let (changes, st) := st.selectedChanges capi signalRef
      ((changes[start + element]?).map Change.value, st)
  | none => (st.nativeTypedValueAt capi signalRef start element, st)

/-- `sampled_value_at`. -/
def sampledValueAt (st : Wellen) (signalRef timeIdx : ℕ) (point : ObservationPoint) :
    Option SampledValue × Wellen :=
  let (offset, st) := st.signalOffsetAt capi signalRef timeIdx
  (sampledValue (fun start element => (st.signalTypedValueAt capi signalRef start element).1)
    offset timeIdx point, st)

end Wellen

end XdebugFst.Waveform
