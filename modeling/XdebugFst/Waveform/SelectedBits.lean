import Mathlib
import XdebugFst.Waveform.SelectionCache

/-!
# The bits of a packed selection

A name such as `bus[7:4]` selects the bits of `bus` between two declared indices, in the order in
which it names them. `DeclaredRange.bit` is the bit of a declared index, counted from the left
bound, and the bits of a selection are those of its indices, one after the other.

A selection is accepted when both of its bounds are declared: `exists_selection_iff`. It need not
run in the direction of the declaration.
-/

namespace XdebugFst.Waveform

open Lib

/-! ### The bits -/

namespace DeclaredRange

/-- An index of the range. -/
def Declares (declared : DeclaredRange) (index : ℤ) : Prop :=
  min declared.msb declared.lsb ≤ index ∧ index ≤ max declared.msb declared.lsb

instance (declared : DeclaredRange) (index : ℤ) : Decidable (declared.Declares index) :=
  inferInstanceAs (Decidable (_ ∧ _))

/-- The bit of a declared index. A value text starts with that of the left bound. -/
def bit (declared : DeclaredRange) (source : String) (index : ℤ) : Option Char :=
  source.toList[(declared.msb - index).natAbs]?

end DeclaredRange

lemma packedBit_eq {declaredMsb declaredLsb index : ℤ} (source : List Char)
    (hlow : min declaredMsb declaredLsb ≤ index) (hhigh : index ≤ max declaredMsb declaredLsb) :
    packedBit declaredMsb declaredLsb source index = source[(declaredMsb - index).natAbs]? := by
  unfold packedBit
  dsimp only
  split_ifs with hdown hpos hpos
  · rw [show (declaredMsb - index).toNat = (declaredMsb - index).natAbs by omega]
  · omega
  · rw [show (index - declaredMsb).toNat = (declaredMsb - index).natAbs by omega]
  · omega

lemma rangeWidth_eq (msb lsb : ℤ) : rangeWidth msb lsb = (msb - lsb).natAbs + 1 := by
  unfold rangeWidth
  split_ifs <;> omega

lemma getElem?_selectedIndices {msb lsb : ℤ} {k : ℕ} (hk : k ≤ (msb - lsb).natAbs) :
    (selectedIndices msb lsb)[k]? = some (if lsb ≤ msb then msb - k else msb + k) := by
  have hlt : k < rangeWidth msb lsb := by
    rw [rangeWidth_eq]
    omega
  rw [selectedIndices, List.getElem?_map, List.getElem?_range hlt, Option.map_some]
  congr 1
  split_ifs <;> omega

/-- What `select_packed_bits` gives for a selection in range. -/
lemma PackedSelection.InRange.bits {sel : PackedSelection} (h : sel.InRange) {source : String}
    (hlen : source.length = rangeWidth sel.declaredMsb sel.declaredLsb) :
    ∃ text, selectPackedBits sel source = some text ∧
      text.length = (sel.selectedMsb - sel.selectedLsb).natAbs + 1 ∧
      ∀ k ≤ (sel.selectedMsb - sel.selectedLsb).natAbs,
        text.toList[k]? = source.toList[(sel.declaredMsb -
          if sel.selectedLsb ≤ sel.selectedMsb then sel.selectedMsb - k
          else sel.selectedMsb + k).natAbs]? := by
  obtain ⟨text, htext⟩ := h.exists_select hlen
  refine ⟨text, htext, ?_⟩
  rw [selectPackedBits, if_neg (by simpa using hlen.symm), Option.map_eq_some_iff] at htext
  obtain ⟨bits, hbits, rfl⟩ := htext
  rw [String.length_ofList, String.toList_ofList]
  have hmap := Lib.map_some_of_mapM hbits
  constructor
  · have hcount := congrArg List.length hmap
    rw [List.length_map, List.length_map] at hcount
    rw [hcount, selectedIndices, List.length_map, List.length_range, rangeWidth_eq]
  · intro k hk
    have hk' := congrArg (fun l => l[k]?.join) hmap
    simp only [List.getElem?_map, getElem?_selectedIndices hk, Option.map_some,
      Option.join_some] at hk'
    refine Eq.trans ?_ (hk'.trans (packedBit_eq _ ?_ ?_))
    · cases bits[k]? <;> rfl
    · have := h.msb_low
      have := h.lsb_low
      split_ifs <;> omega
    · have := h.msb_high
      have := h.lsb_high
      split_ifs <;> omega

/-! ### The text of a selector -/

/-- The selector of two bounds that fit into 64 bits. -/
lemma selectorBounds_of_fits {msb lsb : ℤ} (hmsb : -2 ^ 63 ≤ msb ∧ msb < 2 ^ 63)
    (hlsb : -2 ^ 63 ≤ lsb ∧ lsb < 2 ^ 63) :
    selectorBounds (toString msb ++ ":" ++ toString lsb).toList = some (msb, lsb) := by
  have hlist : (toString msb ++ ":" ++ toString lsb).toList =
      (toString msb).toList ++ ':' :: (toString lsb).toList := by simp
  rw [hlist, selectorBounds_append, parseSignedIndex_toString, parseSignedIndex_toString,
    if_pos hmsb, if_pos hlsb]
  rfl

/-- The selector of one bit. -/
lemma selectorBounds_bit_of_fits {bit : ℤ} (hbit : -2 ^ 63 ≤ bit ∧ bit < 2 ^ 63) :
    selectorBounds (toString bit).toList = some (bit, bit) := by
  rw [selectorBounds_toString, parseSignedIndex_toString, if_pos hbit]
  rfl

/-! ### Accepted selections -/

namespace Wellen

variable {capi : Capi} {st st' : Wellen}

/-- The checks of a selection look at the state only for whether there is room for one more. -/
lemma selectionOf_eq (st : Wellen) (path : String) :
    st.selectionOf path = if st.packedSelections.length + 1 < kVirtualSignalFlag then
      (opened st.signalIndex st.declaredRanges).selectionOf path else none := by
  have hiff : ∀ base declared msb lsb, st.SelectionValid base declared msb lsb ↔
      (opened st.signalIndex st.declaredRanges).SelectionValid base declared msb lsb ∧
        st.packedSelections.length + 1 < kVirtualSignalFlag := by
    intro base declared msb lsb
    have hopened : (opened st.signalIndex st.declaredRanges).packedSelections.length + 1 <
        kVirtualSignalFlag := (by decide : 0 + 1 < kVirtualSignalFlag)
    simp only [SelectionValid, hopened]
    tauto
  simp only [selectionOf, hiff, opened]
  cases splitSelector path.toList with
  | none => simp
  | some parts =>
      dsimp only
      split
      · split_ifs <;> simp_all
      · simp

/-- The selections in the index are the ones that their paths ask for. -/
def AcceptedInv (st : Wellen) : Prop :=
  ∀ path handle, st.packedSelectionIndex.find? path = some handle →
    ∃ sel, st.packedSelection handle = some sel ∧
      (opened st.signalIndex st.declaredRanges).selectionOf path = some sel

lemma AcceptedInv.of_extends (h : AcceptedInv st) (hext : Extends st st')
    (hpaths : st'.packedSelectionIndex = st.packedSelectionIndex) : AcceptedInv st' := by
  intro path handle hfind
  rw [hpaths] at hfind
  obtain ⟨sel, hsel, hasked⟩ := h path handle hfind
  rw [hext.signalIndex, hext.declaredRanges]
  exact ⟨sel, hext.packedSelection hsel, hasked⟩

/-- What `create_packed_selection` answers. -/
lemma AcceptedInv.create (h : AcceptedInv st) (hpath : PathInv st) (path : String) :
    ((st.createPackedSelection path).1 ≠ 0 ↔
      ((opened st.signalIndex st.declaredRanges).selectionOf path).isSome ∧
        ((st.packedSelectionIndex.find? path).isSome ∨
          st.packedSelections.length + 1 < kVirtualSignalFlag)) ∧
    ((st.createPackedSelection path).1 ≠ 0 → ∃ sel,
      (st.createPackedSelection path).2.packedSelection (st.createPackedSelection path).1 =
        some sel ∧
      (opened st.signalIndex st.declaredRanges).selectionOf path = some sel) := by
  cases hidx : st.packedSelectionIndex.find? path with
  | some handle =>
      obtain ⟨sel, hsel, hasked⟩ := h path handle hidx
      obtain ⟨i, -, hhandle⟩ := hpath.handle path handle hidx
      rw [create_of_find? hidx, hasked]
      exact ⟨by simp [hhandle], fun _ => ⟨sel, hsel, rfl⟩⟩
  | none =>
      have heq := st.selectionOf_eq path
      cases hsel : st.selectionOf path with
      | none =>
          rw [create_of_selectionOf_eq_none hidx hsel]
          rw [hsel] at heq
          refine ⟨iff_of_false (by simp) ?_, fun hne => absurd rfl hne⟩
          rintro ⟨hasked, hknown | hroom⟩
          · cases hknown
          · rw [if_pos hroom] at heq
            rw [← heq] at hasked
            cases hasked
      | some sel =>
          rw [create_of_selectionOf_eq_some hidx hsel]
          rw [hsel] at heq
          split_ifs at heq with hroom
          rw [← heq]
          refine ⟨by simp [hroom], fun _ => ⟨sel, ?_, rfl⟩⟩
          simp [Wellen.packedSelection, kVirtualSignalFlag]

lemma AcceptedInv.move (hinv : AcceptedInv st) (hpath : PathInv st) (h : Move capi st st') :
    AcceptedInv st' := by
  have hext := h.extends.1
  cases h with
  | create path =>
      cases hidx : st.packedSelectionIndex.find? path with
      | some handle =>
          rw [create_of_find? hidx]
          exact hinv
      | none =>
          cases hsel : st.selectionOf path with
          | none =>
              rw [create_of_selectionOf_eq_none hidx hsel]
              exact hinv
          | some sel =>
              have hnew := (hinv.create hpath path).2
              rw [create_of_selectionOf_eq_some hidx hsel] at hext hnew ⊢
              intro path' handle hfind
              rcases (OrderedMap.find?_insert_eq_some_iff _).1 hfind with ⟨rfl, rfl⟩ | ⟨-, hold⟩
              · exact hnew (by simp [kVirtualSignalFlag])
              · obtain ⟨sel', hsel', hasked⟩ := hinv path' handle hold
                exact ⟨sel', hext.packedSelection hsel', hasked⟩
  | load refs =>
      refine hinv.of_extends hext ?_
      rw [loadSignals]
      split_ifs <;> rfl
  | unload refs =>
      refine hinv.of_extends hext ?_
      rw [unloadSignals]
      split_ifs <;> rfl
  | query ref =>
      refine hinv.of_extends hext ?_
      rcases selectedChanges_cases st ref with heq | ⟨sel, changes, -, -, heq⟩ <;> rw [heq]

/-- What a selector asks for of a signal with a declared range. -/
lemma selectionOf_opened {signalIndex : OrderedMap String ℕ}
    {declaredRanges : OrderedMap String DeclaredRange} {base selector : String} {ref : ℕ}
    {declared : DeclaredRange} (hbase : base ≠ "") (hselector : '[' ∉ selector.toList)
    (href : signalIndex.find? base = some ref) (hnative : ref < kVirtualSignalFlag)
    (hdeclared : declaredRanges.find? base = some declared)
    (hwidth : rangeWidth declared.msb declared.lsb = declared.width)
    (hfits : declared.width < 2 ^ 32) (sel : PackedSelection) :
    (opened signalIndex declaredRanges).selectionOf (base ++ "[" ++ selector ++ "]") = some sel ↔
      ∃ msb lsb, selectorBounds selector.toList = some (msb, lsb) ∧
        declared.Declares msb ∧ declared.Declares lsb ∧
        sel = ⟨ref, declared.msb, declared.lsb, msb, lsb, rangeWidth msb lsb⟩ := by
  have hlist : (base ++ "[" ++ selector ++ "]").toList =
      base.toList ++ '[' :: (selector.toList ++ [']']) := by simp
  have hvalid : ∀ msb lsb, (opened signalIndex declaredRanges).SelectionValid ref declared msb lsb ↔
      declared.Declares msb ∧ declared.Declares lsb := by
    intro msb lsb
    have hroom : (opened signalIndex declaredRanges).packedSelections.length + 1 <
        kVirtualSignalFlag := (by decide : 0 + 1 < kVirtualSignalFlag)
    simp only [SelectionValid, DeclaredRange.Declares, hroom, hnative, hwidth, and_true, true_and]
    rw [rangeWidth_eq] at hwidth ⊢
    constructor
    · rintro ⟨-, h₁, h₂, h₃, h₄, -⟩
      exact ⟨⟨h₁, h₂⟩, h₃, h₄⟩
    · rintro ⟨⟨h₁, h₂⟩, h₃, h₄⟩
      exact ⟨by omega, h₁, h₂, h₃, h₄, by omega, by omega⟩
  rw [selectionOf, hlist, splitSelector_append _ hselector, if_neg (by simpa using hbase)]
  dsimp only
  rw [String.ofList_toList, show (opened signalIndex declaredRanges).signalIndex = signalIndex from rfl,
    show (opened signalIndex declaredRanges).declaredRanges = declaredRanges from rfl, href, hdeclared]
  cases hbounds : selectorBounds selector.toList with
  | none => simp
  | some bounds =>
      obtain ⟨msb, lsb⟩ := bounds
      dsimp only
      split_ifs with hcheck
      · rw [hvalid] at hcheck
        constructor
        · intro h
          cases h
          exact ⟨msb, lsb, rfl, hcheck.1, hcheck.2, rfl⟩
        · rintro ⟨msb', lsb', heq, -, -, rfl⟩
          cases heq
          rfl
      · rw [hvalid] at hcheck
        refine iff_of_false (by simp) ?_
        rintro ⟨msb', lsb', heq, hmsb, hlsb, -⟩
        cases heq
        exact hcheck ⟨hmsb, hlsb⟩

/-- **A packed selection picks the declared bits.** After any sequence of calls, a selector of a
signal is accepted when both of its bounds are declared, in either order. The selection has a bit
for each index from the first bound to the second. -/
theorem packed_selections_pick_bits (capi : Capi) (tables : Tables)
    (signalIndex : OrderedMap String ℕ) (declaredRanges : OrderedMap String DeclaredRange)
    (requests : List Request) (base : String) (ref : ℕ) (declared : DeclaredRange)
    (hbase : base ≠ "") (href : signalIndex.find? base = some ref)
    (hnative : ref < kVirtualSignalFlag)
    (hdeclared : declaredRanges.find? base = some declared)
    (hwidth : rangeWidth declared.msb declared.lsb = declared.width)
    (hfits : declared.width < 2 ^ 32) :
    let st := after capi tables (opened signalIndex declaredRanges) requests
    (∀ selector : String, '[' ∉ selector.toList →
      let path := base ++ "[" ++ selector ++ "]"
      let created := st.createPackedSelection path
      (created.1 ≠ 0 ↔
        (∃ msb lsb, selectorBounds selector.toList = some (msb, lsb) ∧
          declared.Declares msb ∧ declared.Declares lsb) ∧
        ((st.packedSelectionIndex.find? path).isSome ∨
          st.packedSelections.length + 1 < kVirtualSignalFlag)) ∧
      (created.1 ≠ 0 → ∃ sel msb lsb, created.2.packedSelection created.1 = some sel ∧
        selectorBounds selector.toList = some (msb, lsb) ∧
        sel.width = (msb - lsb).natAbs + 1 ∧
        ∀ source : String, source.length = declared.width →
          ∃ text, selectPackedBits sel source = some text ∧
            text.length = (msb - lsb).natAbs + 1 ∧
            ∀ k ≤ (msb - lsb).natAbs, text.toList[k]? =
              declared.bit source (if lsb ≤ msb then msb - k else msb + k))) ∧
    ∀ msb lsb : ℤ, -2 ^ 63 ≤ msb ∧ msb < 2 ^ 63 → -2 ^ 63 ≤ lsb ∧ lsb < 2 ^ 63 →
      selectorBounds (toString msb ++ ":" ++ toString lsb).toList = some (msb, lsb) ∧
      selectorBounds (toString msb).toList = some (msb, msb) := by
  intro st
  have hreaches : Reaches capi (opened signalIndex declaredRanges) st := reaches_after _ _
  have hinv : PathInv st ∧ AcceptedInv st := hreaches.induction
    (P := fun st => PathInv st ∧ AcceptedInv st) (fun _ _ hmove hinv => ⟨hmove.extends.2 hinv.1, hinv.2.move hinv.1 hmove⟩)
    ⟨⟨fun path handle h => by simp [opened] at h, fun i hi => by simp [opened] at hi⟩,
      fun path handle h => by simp [opened] at h⟩
  refine ⟨fun selector hselector => ?_, fun msb lsb hmsb hlsb =>
    ⟨selectorBounds_of_fits hmsb hlsb, selectorBounds_bit_of_fits hmsb⟩⟩
  intro path created
  obtain ⟨hne, hsel⟩ := hinv.2.create hinv.1 path
  have hasked := selectionOf_opened hbase hselector href hnative hdeclared hwidth hfits
  rw [hreaches.extends.signalIndex, hreaches.extends.declaredRanges] at hne hsel
  refine ⟨hne.trans (and_congr_left' ?_), fun hcreated => ?_⟩
  · constructor
    · intro hsome
      obtain ⟨sel, hask⟩ := Option.isSome_iff_exists.1 hsome
      obtain ⟨msb, lsb, hbounds, hmsb, hlsb, -⟩ := (hasked sel).1 hask
      exact ⟨msb, lsb, hbounds, hmsb, hlsb⟩
    · rintro ⟨msb, lsb, hbounds, hmsb, hlsb⟩
      exact Option.isSome_of_eq_some ((hasked _).2 ⟨msb, lsb, hbounds, hmsb, hlsb, rfl⟩)
  · obtain ⟨sel, hhandle, hask⟩ := hsel hcreated
    obtain ⟨msb, lsb, hbounds, hmsb, hlsb, rfl⟩ := (hasked sel).1 hask
    refine ⟨_, msb, lsb, hhandle, hbounds, rangeWidth_eq msb lsb, fun source hlen => ?_⟩
    exact PackedSelection.InRange.bits ⟨hnative, hmsb.1, hmsb.2, hlsb.1, hlsb.2⟩
      (hlen.trans hwidth.symm)

/-- A vector `data` that is declared as `[7:0]`. -/
def dataRange : DeclaredRange := ⟨7, 0, 8⟩

def dataIndex : OrderedMap String ℕ := OrderedMap.empty.insert "data" 1

def dataRanges : OrderedMap String DeclaredRange := OrderedMap.empty.insert "data" dataRange

/-- The upper half of the vector. -/
theorem data_upper_half :
    let st := after busCapi busTables (opened dataIndex dataRanges) [.findSignal "data[3]"]
    let created := st.createPackedSelection ("data" ++ "[" ++ "7:4" ++ "]")
    created.1 ≠ 0 ∧ ∃ sel, created.2.packedSelection created.1 = some sel ∧ sel.width = 4 ∧
      ∀ source : String, source.length = 8 → ∃ text, selectPackedBits sel source = some text ∧
        text.length = 4 ∧ ∀ k : ℕ, k ≤ 3 → text.toList[k]? = dataRange.bit source (7 - k) := by
  intro st created
  have hbounds : selectorBounds "7:4".toList = some (7, 4) := by decide
  have hpicks := (packed_selections_pick_bits busCapi busTables dataIndex dataRanges
    [.findSignal "data[3]"] "data" 1 dataRange (by decide) (by decide) (by decide) (by decide)
    (by decide) (by decide)).1 "7:4" (by decide)
  have hne : created.1 ≠ 0 := by
    refine hpicks.1.2 ⟨⟨7, 4, hbounds, by decide, by decide⟩, ?_⟩
    decide
  obtain ⟨sel, msb, lsb, hsel, heq, hwidth, hbits⟩ := hpicks.2 hne
  rw [hbounds] at heq
  cases heq
  exact ⟨hne, sel, hsel, hwidth, hbits⟩

/-- The selection runs in the direction of the declaration. -/
def SameDirection (declared : DeclaredRange) (msb lsb : ℤ) : Prop :=
  (declared.lsb ≤ declared.msb → lsb ≤ msb) ∧ (declared.msb ≤ declared.lsb → msb ≤ lsb)

/-- A selection against the direction of the declaration is accepted too. -/
theorem data_reversed_accepted :
    ¬ ∀ (signalIndex : OrderedMap String ℕ) (declaredRanges : OrderedMap String DeclaredRange)
      (base : String) (ref : ℕ) (declared : DeclaredRange) (msb lsb : ℤ),
      base ≠ "" → signalIndex.find? base = some ref → ref < kVirtualSignalFlag →
      declaredRanges.find? base = some declared →
      rangeWidth declared.msb declared.lsb = declared.width → declared.width < 2 ^ 32 →
      (((opened signalIndex declaredRanges).createPackedSelection
          (base ++ "[" ++ (toString msb ++ ":" ++ toString lsb) ++ "]")).1 ≠ 0 ↔
        declared.Declares msb ∧ declared.Declares lsb ∧ SameDirection declared msb lsb) := by
  intro h
  have haccepted : ((opened dataIndex dataRanges).createPackedSelection
      ("data" ++ "[" ++ (toString (0 : ℤ) ++ ":" ++ toString (7 : ℤ)) ++ "]")).1 ≠ 0 := by decide
  have hsame := ((h dataIndex dataRanges "data" 1 dataRange 0 7 (by decide) (by decide) (by decide)
    (by decide) (by decide) (by decide)).1 haccepted).2.2
  exact absurd (hsame.1 (by decide)) (by decide)

end Wellen

end XdebugFst.Waveform
