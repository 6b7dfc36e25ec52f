import Mathlib
import XdebugFst.Expr.Atoms
import XdebugFst.Expr.Eval
import XdebugFst.Waveform.FindSignal

/-!
# Bit selects in expressions and in paths

A text such as `bus[7:4]` can be evaluated as an expression, and it can be looked up as the
path of a packed selection. The backend maps the indices through the declared range of the
signal; the evaluator counts bits from the right end of the text, whatever the range.

`selectsAgree_iff` says for which declared ranges and which selects this is the same:
descending ranges that end at 0, and in ascending ranges the selects that are as far from the
left end as they are from the right end of a range that starts at 0.
-/

namespace XdebugFst.Expr

open Lib Lib.History Waveform

/-! ### The text of a select as a path -/

section Paths

variable {msb lsb : ℤ}

/-- The characters of a selector. -/
def selectorText (msb lsb : ℤ) : List Char := (toString msb).toList ++ ':' :: (toString lsb).toList

lemma selectorBounds_eq_some {m l : ℤ} (h : selectorBounds (selectorText msb lsb) = some (m, l)) :
    m = msb ∧ l = lsb := by
  rw [selectorText, selectorBounds_append, parseSignedIndex_toString, parseSignedIndex_toString] at h
  split_ifs at h
  · cases h
    exact ⟨rfl, rfl⟩
  all_goals cases h

lemma notMem_selectorText {c : Char} (hc : c.isDigit = false) (hsign : c ≠ '-') (hcolon : c ≠ ':') :
    c ∉ selectorText msb lsb := by
  rw [selectorText, List.mem_append, List.mem_cons]
  rintro (h | h | h)
  · exact notMem_toString_int hc hsign msb h
  · exact hcolon h
  · exact notMem_toString_int hc hsign lsb h

lemma toLower_of_isDigit {c : Char} (h : c.isDigit = true) : c.toLower = c := by
  rw [Char.isDigit, Bool.and_eq_true, decide_eq_true_eq, decide_eq_true_eq] at h
  rw [Char.toLower, dif_neg]
  intro hupper
  have h57 : c.val ≤ 57 := h.2
  have h65 : 65 ≤ c.val := hupper.1
  exact absurd (UInt32.le_trans h65 h57) (by decide)

lemma map_toLower_selectorText (msb lsb : ℤ) :
    (selectorText msb lsb ++ [']']).map Char.toLower = selectorText msb lsb ++ [']'] := by
  have hint : ∀ i : ℤ, (toString i).toList.map Char.toLower = (toString i).toList := by
    intro i
    have hdigits : (Nat.toDigits 10 i.natAbs).map Char.toLower = Nat.toDigits 10 i.natAbs := by
      refine List.map_congr_left (fun c hc => ?_) |>.trans (List.map_id' _)
      exact toLower_of_isDigit (Nat.isDigit_of_mem_toDigits (by decide) (by decide) hc)
    rw [toList_toString_int]
    split_ifs
    · rw [List.map_cons, hdigits]
      rfl
    · exact hdigits
  rw [selectorText, List.map_append, List.map_append, List.map_cons, hint, hint]
  rfl

lemma dropArrayDots_of_notMem {s : List Char} (h : '.' ∉ s) : dropArrayDots s = s := by
  induction s with
  | nil => rfl
  | cons c s ih =>
      rw [List.mem_cons, not_or] at h
      rw [dropArrayDots.eq_2, ih h.2]
      rintro rest rfl
      exact absurd rfl h.1

/-- A dot is dropped only before a bracket, so that what follows a bracket stays. -/
lemma dropArrayDots_append (pre s : List Char) :
    ∃ pre', dropArrayDots (pre ++ '[' :: s) = pre' ++ '[' :: dropArrayDots s := by
  -- two characters may go at once, so the induction is on the length
  induction hn : pre.length using Nat.strong_induction_on generalizing pre with
  | _ n ih =>
      match pre, hn with
      | [], _ => exact ⟨[], rfl⟩
      | [c], _ =>
          by_cases hc : c = '.'
          · subst hc
            exact ⟨[], rfl⟩
          · refine ⟨[c], ?_⟩
            show dropArrayDots (c :: '[' :: s) = _
            rw [dropArrayDots.eq_2 _ _ (fun rest hcs _ => hc hcs)]
            rfl
      | c :: d :: pre, hn =>
          by_cases hcd : c = '.' ∧ d = '['
          · obtain ⟨rfl, rfl⟩ := hcd
            obtain ⟨pre', hpre'⟩ := ih pre.length (by simp at hn; omega) pre rfl
            refine ⟨'[' :: pre', ?_⟩
            show '[' :: dropArrayDots (pre ++ '[' :: s) = _
            rw [hpre']
            rfl
          · obtain ⟨pre', hpre'⟩ := ih (d :: pre).length (by simp at hn ⊢; omega) (d :: pre) rfl
            refine ⟨c :: pre', ?_⟩
            show dropArrayDots (c :: d :: (pre ++ '[' :: s)) = _
            rw [dropArrayDots.eq_2 _ _ (fun rest hcs hrest => hcd ⟨hcs, (List.cons.inj hrest).1⟩)]
            exact congrArg (c :: ·) hpre'

lemma dropTop_eq {l r : List Char} (h : dropTop l = some r) : l = "top.".toList ++ r := by
  unfold dropTop at h
  split at h
  · cases h
    rfl
  · cases h

lemma dropTop_append {pre s r : List Char} (h : dropTop (pre ++ '[' :: s) = some r) :
    ∃ pre', r = pre' ++ '[' :: s := by
  rcases List.append_eq_append_iff.1 (dropTop_eq h) with ⟨m, htop, hs⟩ | ⟨m, -, hs⟩
  · cases m with
    | nil => exact ⟨[], hs.symm⟩
    | cons c m =>
        -- the bracket would be in `top.`
        obtain ⟨rfl, -⟩ := List.cons.inj hs
        exact absurd (show '[' ∈ "top.".toList by rw [htop]; simp) (by decide)
  · exact ⟨m, hs⟩

/-- The select at the end of a path stays as it is. -/
lemma normalizePath_selectText (name : String) (msb lsb : ℤ) :
    ∃ pre, normalizePath (selectText name msb lsb).toList =
      pre ++ '[' :: (selectorText msb lsb ++ [']']) := by
  have htext : (selectText name msb lsb).toList =
      name.toList ++ '[' :: (selectorText msb lsb ++ [']']) := by
    rw [toList_selectText, selectorText, List.append_assoc]
    rfl
  have hdot : '.' ∉ selectorText msb lsb ++ [']'] := by
    rw [List.mem_append, not_or]
    exact ⟨notMem_selectorText (by decide) (by decide) (by decide), by decide⟩
  have hlower : (selectText name msb lsb).toList.map Char.toLower =
      name.toList.map Char.toLower ++ '[' :: (selectorText msb lsb ++ [']']) := by
    rw [htext, List.map_append, List.map_cons, map_toLower_selectorText]
    rfl
  rw [normalizePath, hlower]
  cases htop : dropTop (name.toList.map Char.toLower ++ '[' :: (selectorText msb lsb ++ [']'])) with
  | none =>
      obtain ⟨pre, hpre⟩ := dropArrayDots_append (name.toList.map Char.toLower)
        (selectorText msb lsb ++ [']'])
      exact ⟨pre, by rw [Option.getD_none, hpre, dropArrayDots_of_notMem hdot]⟩
  | some r =>
      obtain ⟨pre, rfl⟩ := dropTop_append htop
      obtain ⟨pre', hpre'⟩ := dropArrayDots_append pre (selectorText msb lsb ++ [']'])
      exact ⟨pre', by rw [Option.getD_some, hpre', dropArrayDots_of_notMem hdot]⟩

/-- What a path that ends with a select asks for are the bounds of the select. -/
lemma bounds_of_asks {signalIndex : OrderedMap String ℕ} {pre : List Char} {sel : PackedSelection}
    (h : Wellen.Asks signalIndex
      (String.ofList (pre ++ '[' :: (selectorText msb lsb ++ [']']))) sel) :
    sel.selectedMsb = msb ∧ sel.selectedLsb = lsb := by
  obtain ⟨base, selector, hsplit, -, hbounds⟩ := h
  rw [String.toList_ofList] at hsplit
  rw [splitSelector_append _ (notMem_selectorText rfl (by decide) (by decide))] at hsplit
  split_ifs at hsplit
  obtain ⟨-, rfl⟩ := Prod.ext_iff.1 (Option.some.inj hsplit)
  exact selectorBounds_eq_some hbounds

/-- A handle that is found for a select has the bounds of the select. -/
lemma bounds_of_findSignal {st : Wellen} (h : Wellen.IndexInv st)
    (hnative : Wellen.NativeIndex st.signalIndex) {name : String} {sel : PackedSelection}
    (hsel : (st.findSignal (selectText name msb lsb)).2.packedSelection
      (st.findSignal (selectText name msb lsb)).1 = some sel) :
    sel.selectedMsb = msb ∧ sel.selectedLsb = lsb := by
  obtain ⟨pre, hpre⟩ := normalizePath_selectText name msb lsb
  rcases h.asks_findSignal hnative hsel with hasks | ⟨key, hkey, hasks⟩
  · rw [hpre] at hasks
    exact bounds_of_asks hasks
  · rw [hpre] at hkey
    obtain ⟨pre', rfl⟩ := dropTop_append hkey
    exact bounds_of_asks hasks

end Paths

/-! ### Positions -/

/-- The positions in the text that the evaluator reads for a select. -/
def slicePositions (width : ℕ) (msb lsb : ℤ) : List ℤ :=
  let hi := min (max msb lsb) (width - 1)
  let lo := max (min msb lsb) 0
  (List.range (hi - lo + 1).toNat).map fun k : ℕ => width - 1 - (hi - k)

/-- The positions in the text that the backend reads for a select on a declared range. -/
def packedPositions (declaredMsb declaredLsb msb lsb : ℤ) : List ℤ :=
  (selectedIndices msb lsb).map fun bit =>
    if declaredMsb ≥ declaredLsb then declaredMsb - bit else bit - declaredMsb

/-- The characters at some positions. -/
def charsAt (text : List Char) (positions : List ℤ) : List Char :=
  positions.map fun i => text.getD i.toNat '0'

lemma mem_slicePositions {width : ℕ} {msb lsb i : ℤ} (h : i ∈ slicePositions width msb lsb) :
    0 ≤ i ∧ i < width := by
  obtain ⟨k, hk, rfl⟩ := List.mem_map.1 h
  rw [List.mem_range] at hk
  omega

lemma sliceBits_eq (bits : List Char) (msb lsb : ℤ) :
    (sliceBits bits msb lsb).1 = charsAt bits (slicePositions bits.length msb lsb) := by
  rw [sliceBits, charsAt, slicePositions, List.map_map]
  refine List.map_congr_left fun k hk => ?_
  have hpos := mem_slicePositions (List.mem_map_of_mem hk :
    _ ∈ slicePositions bits.length msb lsb)
  exact if_pos hpos

lemma mem_packedPositions {declaredMsb declaredLsb msb lsb i : ℤ}
    (hmsb : min declaredMsb declaredLsb ≤ msb ∧ msb ≤ max declaredMsb declaredLsb)
    (hlsb : min declaredMsb declaredLsb ≤ lsb ∧ lsb ≤ max declaredMsb declaredLsb)
    (h : i ∈ packedPositions declaredMsb declaredLsb msb lsb) :
    0 ≤ i ∧ i < rangeWidth declaredMsb declaredLsb := by
  obtain ⟨bit, hbit, rfl⟩ := List.mem_map.1 h
  obtain ⟨hlow, hhigh⟩ := selectedIndices_bounds hbit
  rw [rangeWidth]
  split_ifs <;> omega

lemma mapM_eq_some {α β : Type} {f : α → Option β} {g : α → β} {l : List α}
    (h : ∀ a ∈ l, f a = some (g a)) : l.mapM f = some (l.map g) := by
  induction l with
  | nil => rfl
  | cons a l ih =>
      rw [List.mapM_cons, h a List.mem_cons_self, ih fun b hb => h b (List.mem_cons_of_mem _ hb)]
      rfl

lemma selectPackedBits_eq {sel : PackedSelection} {source : String} (h : sel.InRange)
    (hlen : source.length = rangeWidth sel.declaredMsb sel.declaredLsb) :
    selectPackedBits sel source = some (String.ofList (charsAt source.toList
      (packedPositions sel.declaredMsb sel.declaredLsb sel.selectedMsb sel.selectedLsb))) := by
  rw [selectPackedBits, if_neg (by simpa using hlen.symm), charsAt, packedPositions, List.map_map,
    mapM_eq_some (g := fun bit => source.toList.getD
      (if sel.declaredMsb ≥ sel.declaredLsb then sel.declaredMsb - bit
        else bit - sel.declaredMsb).toNat '0')]
  · rfl
  · intro bit hbit
    have hpos := mem_packedPositions ⟨h.msb_low, h.msb_high⟩ ⟨h.lsb_low, h.lsb_high⟩
      (List.mem_map_of_mem hbit :
        _ ∈ packedPositions sel.declaredMsb sel.declaredLsb sel.selectedMsb sel.selectedLsb)
    rw [packedBit, if_pos hpos.1, List.getD_eq_getElem?_getD, List.getElem?_eq_getElem,
      Option.getD_some]
    rw [String.length_toList, hlen]
    omega

/-- Positions are determined by the characters that they read in texts of `0` and `1`. -/
lemma positions_eq {n : ℕ} {p q : List ℤ} (hp : ∀ i ∈ p, 0 ≤ i ∧ i < n)
    (hq : ∀ i ∈ q, 0 ≤ i ∧ i < n)
    (h : ∀ text : List Char, text.length = n → (∀ c ∈ text, c = '0' ∨ c = '1') →
      charsAt text p = charsAt text q) : p = q := by
  -- the text with a single one
  have hone : ∀ k : ℕ, charsAt ((List.range n).map fun i => if i = k then '1' else '0') p =
      charsAt ((List.range n).map fun i => if i = k then '1' else '0') q := by
    intro k
    refine h _ (by simp) fun c hc => ?_
    obtain ⟨i, -, rfl⟩ := List.mem_map.1 hc
    split_ifs
    · exact Or.inr rfl
    · exact Or.inl rfl
  have hread : ∀ (k i : ℕ), i < n →
      ((List.range n).map fun i => if i = k then '1' else '0').getD i '0' =
        if i = k then '1' else '0' := by
    intro k i hi
    simp [List.getD_eq_getElem?_getD, List.getElem?_range hi]
  have hlen : p.length = q.length := by
    have := congrArg List.length (hone 0)
    simpa [charsAt] using this
  refine List.ext_getElem hlen fun j hj hj' => ?_
  have hpj := hp _ (List.getElem_mem hj)
  have hqj := hq _ (List.getElem_mem hj')
  have hsame := congrArg (·[j]?) (hone (p[j]).toNat)
  simp only [charsAt, List.getElem?_map, List.getElem?_eq_getElem hj,
    List.getElem?_eq_getElem hj', Option.map_some, Option.some.injEq] at hsame
  rw [hread _ _ (by omega), hread _ _ (by omega), if_pos rfl] at hsame
  have heq : (q[j]).toNat = (p[j]).toNat := by
    by_contra hne
    rw [if_neg hne] at hsame
    exact absurd hsame (by decide)
  omega

lemma map_range_eq_iff {α : Type} {a b : ℕ} {f g : ℕ → α} :
    (List.range a).map f = (List.range b).map g ↔ a = b ∧ ∀ k < a, f k = g k := by
  constructor
  · intro h
    obtain rfl : a = b := by simpa using congrArg List.length h
    refine ⟨rfl, fun k hk => ?_⟩
    have := congrArg (·[k]?) h
    simpa [List.getElem?_range hk] using this
  · rintro ⟨rfl, h⟩
    exact List.map_congr_left fun k hk => h k (List.mem_range.1 hk)

/-- The selects for which counting from the right end is counting in the declared range. -/
def CountsFromRight (declaredMsb declaredLsb msb lsb : ℤ) : Prop :=
  (declaredLsb ≤ declaredMsb ∧ declaredLsb = 0 ∧ lsb ≤ msb) ∨
    (declaredMsb < declaredLsb ∧ msb ≤ lsb ∧ msb + lsb = declaredLsb)

/-- The evaluator and the backend read the same positions exactly for these selects. -/
lemma packedPositions_eq_iff {declaredMsb declaredLsb msb lsb : ℤ}
    (hmsb : min declaredMsb declaredLsb ≤ msb ∧ msb ≤ max declaredMsb declaredLsb)
    (hlsb : min declaredMsb declaredLsb ≤ lsb ∧ lsb ≤ max declaredMsb declaredLsb) :
    slicePositions (rangeWidth declaredMsb declaredLsb) msb lsb =
        packedPositions declaredMsb declaredLsb msb lsb ↔
      CountsFromRight declaredMsb declaredLsb msb lsb := by
  rw [slicePositions, packedPositions, selectedIndices, List.map_map, map_range_eq_iff,
    CountsFromRight]
  simp only [Function.comp, rangeWidth]
  -- without `min` and `max` there is one case for each direction of the range and of the select
  rcases le_or_gt declaredLsb declaredMsb with hd | hd
  · have hwidth : ((declaredMsb - declaredLsb + 1).toNat : ℤ) = declaredMsb - declaredLsb + 1 :=
      Int.toNat_of_nonneg (by omega)
    simp only [min_eq_right hd, max_eq_left hd, ge_iff_le, if_pos hd, hwidth] at hmsb hlsb ⊢
    rcases le_or_gt lsb msb with hs | hs
    · simp only [min_eq_right hs, max_eq_left hs, if_pos hs]
      constructor
      · rintro ⟨hlen, hpos⟩
        have h0 := hpos 0
        omega
      · intro h
        refine ⟨by omega, fun k hk => ?_⟩
        split_ifs <;> omega
    · simp only [min_eq_left hs.le, max_eq_right hs.le, if_neg hs.not_ge, if_pos hs.le]
      constructor
      · rintro ⟨hlen, hpos⟩
        have h0 := hpos 0
        have h1 := hpos 1
        omega
      · omega
  · have hwidth : ((declaredLsb - declaredMsb + 1).toNat : ℤ) = declaredLsb - declaredMsb + 1 :=
      Int.toNat_of_nonneg (by omega)
    simp only [min_eq_left hd.le, max_eq_right hd.le, ge_iff_le, if_neg hd.not_ge, hwidth]
      at hmsb hlsb ⊢
    rcases le_or_gt msb lsb with hs | hs
    · simp only [min_eq_left hs, max_eq_right hs, if_pos hs]
      constructor
      · rintro ⟨hlen, hpos⟩
        have h0 := hpos 0
        split_ifs at hlen <;> omega
      · intro h
        refine ⟨?_, fun k hk => by omega⟩
        split_ifs <;> omega
    · simp only [min_eq_right hs.le, max_eq_left hs.le, if_neg hs.not_ge, if_pos hs.le]
      constructor
      · rintro ⟨hlen, hpos⟩
        have h0 := hpos 0
        have h1 := hpos 1
        omega
      · omega

/-! ### Reading a select -/

/-- A signal with a declared range in a backend after some calls, a select that `find_signal`
accepts on it, and the interface through which the evaluator sees the signal. -/
structure SelectRead (declaredMsb declaredLsb msb lsb : ℤ) where
  capi : Capi
  signalIndex : OrderedMap String ℕ
  declaredRanges : OrderedMap String DeclaredRange
  calls : List Wellen.Call
  name : String
  sel : PackedSelection
  changes : List Change
  wf : Backend
  ident : IsIdentifier name.toList
  native : Wellen.NativeIndex signalIndex
  /-- The path of the select is found, and the handle is a selection on the signal. -/
  selected : let st := Wellen.run capi signalIndex declaredRanges calls
    let found := st.findSignal (selectText name msb lsb)
    found.2.packedSelection found.1 = some sel ∧ (st.findSignal name).1 = sel.baseRef
  declared : sel.declaredMsb = declaredMsb ∧ sel.declaredLsb = declaredLsb
  base : LoadedBitVector capi (Wellen.run capi signalIndex declaredRanges calls) sel.baseRef
    (rangeWidth declaredMsb declaredLsb) changes
  /-- The evaluator finds and samples the same signal. -/
  seen : wf.findSignal name = sel.baseRef ∧ sel.baseRef ≠ 0 ∧ ∀ timeIdx point,
    wf.sampledValueAt sel.baseRef timeIdx point =
      ((Wellen.run capi signalIndex declaredRanges calls).sampledValueAt capi sel.baseRef timeIdx
        point).1

namespace SelectRead

variable {declaredMsb declaredLsb msb lsb : ℤ} (r : SelectRead declaredMsb declaredLsb msb lsb)

/-- The state of the backend. -/
def state : Wellen := Wellen.run r.capi r.signalIndex r.declaredRanges r.calls

/-- What `find_signal` answers for the select. -/
def found : ℕ × Wellen := r.state.findSignal (selectText r.name msb lsb)

/-- The evaluator yields the bits that the handle is sampled with. -/
def Agrees : Prop :=
  ∃ root, parseExpression (selectText r.name msb lsb) = .ok root ∧
    ∀ timeIdx point v, (r.found.2.sampledValueAt r.capi r.found.1 timeIdx point).1 = some v →
      (evalExpression r.wf timeIdx point root).bits = v.value.text

lemma inv_found : Wellen.Inv r.capi r.found.2 :=
  Wellen.findSignal_induction (fun _ path h => h.createPackedSelection path)
    (Wellen.inv_run _ _ _ _) _

lemma signalIndex_state : r.state.signalIndex = r.signalIndex := by
  -- no call changes the index of the signals
  have hstep : ∀ (st : Wellen) (call : Wellen.Call),
      (st.step r.capi call).signalIndex = st.signalIndex := by
    intro st call
    cases call with
    | createPackedSelection path => exact Wellen.createPackedSelection_signalIndex st path
    | loadSignals refs =>
        show (st.loadSignals refs).signalIndex = _
        rw [Wellen.loadSignals]
        split_ifs <;> rfl
    | unloadSignals refs =>
        show (st.unloadSignals refs).signalIndex = _
        rw [Wellen.unloadSignals]
        split_ifs <;> rfl
    | sampledValueAt ref timeIdx point =>
        show (st.signalOffsetAt r.capi ref timeIdx).2.signalIndex = _
        rw [Wellen.signalOffsetAt]
        cases st.packedSelection ref with
        | none => rfl
        | some sel =>
            show (st.selectedChanges r.capi ref).2.signalIndex = _
            rw [Wellen.selectedChanges]
            cases st.selectedChangeCache.find? ref with
            | some changes => rfl
            | none =>
                cases st.packedSelection ref with
                | none => rfl
                | some sel => cases hc : st.computeSelected r.capi sel <;> simp only [hc]
  rw [state, Wellen.run]
  induction r.calls using List.reverseRecOn with
  | nil => rfl
  | append_singleton calls call ih => rw [List.foldl_append]; exact (hstep _ call).trans ih

lemma selected_found : r.found.2.packedSelection r.found.1 = some r.sel := r.selected.1

lemma bounds : r.sel.selectedMsb = msb ∧ r.sel.selectedLsb = lsb := by
  have hnative : Wellen.NativeIndex r.state.signalIndex := r.signalIndex_state ▸ r.native
  exact bounds_of_findSignal (Wellen.indexInv_run _ _ _ _) hnative r.selected.1

lemma inRange : r.sel.InRange :=
  r.inv_found.inRange _ (Wellen.mem_of_packedSelection r.selected_found)

lemma loaded_found : r.found.2.loaded = r.state.loaded :=
  Wellen.findSignal_induction (P := fun st => st.loaded = r.state.loaded)
    (fun st path h => (Wellen.createPackedSelection_loaded st path).trans h) rfl _

lemma base_found : LoadedBitVector r.capi r.found.2 r.sel.baseRef
    (rangeWidth r.sel.declaredMsb r.sel.declaredLsb) r.changes := by
  have h := r.base
  have hwidth : rangeWidth declaredMsb declaredLsb =
      rangeWidth r.sel.declaredMsb r.sel.declaredLsb := by rw [r.declared.1, r.declared.2]
  exact ⟨r.loaded_found ▸ h.loaded, h.info, h.history, h.indices, h.values, h.kind,
    fun c hc => (h.width_eq c hc).trans hwidth, h.offset⟩

/-- The evaluator and the backend read the same text, each in its own way. -/
lemma agrees_iff : r.Agrees ↔ ∀ timeIdx point, ∀ c ∈ lastWhere (ObservationPoint.sees point timeIdx)
    r.changes, charsAt c.value.text.toList
        (slicePositions (rangeWidth declaredMsb declaredLsb) msb lsb) =
      charsAt c.value.text.toList (packedPositions declaredMsb declaredLsb msb lsb) := by
  have hparse := parseExpression_selectText r.ident msb lsb
  -- at a time at which the signal has a value, the comparison is between two texts
  have hcompare : ∀ timeIdx point, ∀ c ∈ lastWhere (ObservationPoint.sees point timeIdx) r.changes,
      (∀ v, (r.found.2.sampledValueAt r.capi r.found.1 timeIdx point).1 = some v →
        (evalExpression r.wf timeIdx point (.slice r.name msb lsb)).bits = v.value.text) ↔
      charsAt c.value.text.toList (slicePositions (rangeWidth declaredMsb declaredLsb) msb lsb) =
        charsAt c.value.text.toList (packedPositions declaredMsb declaredLsb msb lsb) := by
    intro timeIdx point c hc
    have hc' := Option.mem_def.1 hc
    have hmem : c ∈ r.changes := (List.mem_filter.1 (List.mem_of_getLast? hc')).1
    have hwidth := r.base_found.width_eq c hmem
    have hselected := r.base_found.text_sampledValueAt r.inv_found r.selected_found timeIdx point
    have hbase := r.base.sampledValueAt r.inRange.native timeIdx point
    rw [hc', Option.map_some, Option.map_eq_some_iff] at hselected hbase
    obtain ⟨v, hv, hvtext⟩ := hselected
    obtain ⟨b, hb, hbvalue⟩ := hbase
    have heval : (evalExpression r.wf timeIdx point (.slice r.name msb lsb)).bits =
        String.ofList (charsAt c.value.text.toList
          (slicePositions (rangeWidth declaredMsb declaredLsb) msb lsb)) := by
      rw [evalExpression, evalSignal]
      dsimp only
      rw [r.seen.1, if_neg (show r.sel.baseRef ≠ Backend.kInvalidSignalRef from r.seen.2.1),
        r.seen.2.2, hb]
      dsimp only
      rw [hbvalue, sliceBits_eq, String.length_toList, hwidth, r.declared.1, r.declared.2]
    have htext : v.value.text = String.ofList (charsAt c.value.text.toList
        (packedPositions declaredMsb declaredLsb msb lsb)) := by
      rw [hvtext, selectChange, Change.text, selectPackedBits_eq r.inRange hwidth, r.bounds.1,
        r.bounds.2, r.declared.1, r.declared.2]
      rfl
    constructor
    · intro h
      have := h v hv
      rw [heval, htext] at this
      exact String.ofList_injective this
    · rintro h v' hv'
      obtain rfl : v = v' := Option.some.inj (hv.symm.trans hv')
      rw [heval, htext, h]
  constructor
  · rintro ⟨root, hroot, h⟩ timeIdx point c hc
    obtain rfl : ExprNode.slice r.name msb lsb = root := Except.ok.inj (hparse.symm.trans hroot)
    exact (hcompare timeIdx point c hc).1 (h timeIdx point)
  · intro h
    refine ⟨_, hparse, fun timeIdx point v hv => ?_⟩
    -- the selection has a value only where the signal has one
    have hselected := r.base_found.text_sampledValueAt r.inv_found r.selected_found timeIdx point
    rw [hv, Option.map_some, eq_comm, Option.map_eq_some_iff] at hselected
    obtain ⟨c, hc, -⟩ := hselected
    exact (hcompare timeIdx point c hc).2 (h timeIdx point c hc) v hv

end SelectRead

/-! ### A signal that does not change -/

section Constant

variable (declaredMsb declaredLsb msb lsb : ℤ) (text : String)

/-- What `create_packed_selection` asks of the bounds of a select. -/
structure Accepted : Prop where
  msb_range : min declaredMsb declaredLsb ≤ msb ∧ msb ≤ max declaredMsb declaredLsb
  lsb_range : min declaredMsb declaredLsb ≤ lsb ∧ lsb ≤ max declaredMsb declaredLsb
  width : rangeWidth msb lsb ≤ 2 ^ 32 - 1
  msb_int64 : -2 ^ 63 ≤ msb ∧ msb < 2 ^ 63
  lsb_int64 : -2 ^ 63 ≤ lsb ∧ lsb < 2 ^ 63

/-- One change to a text. -/
def constChanges : List Change := [⟨0, { text := text }⟩]

/-- A waveform with one signal, which has one change. -/
def constCapi : Capi where
  hasInfo ref := ref = 1
  timeIndices ref := if ref = 1 then some ((constChanges text).map Change.timeIdx) else none
  typedValue ref start element :=
    if ref = 1 then ((constChanges text)[start + element]?).map Change.value else none
  signalOffset ref timeIdx := if ref = 1 then offsetAt (constChanges text) timeIdx else none

/-- The index of that waveform. -/
def constIndex : OrderedMap String ℕ := OrderedMap.empty.insert "s" 1

/-- The declared range of its signal. -/
def constRanges : OrderedMap String DeclaredRange :=
  OrderedMap.empty.insert "s" ⟨declaredMsb, declaredLsb, rangeWidth declaredMsb declaredLsb⟩

/-- The backend after the signal has been loaded. -/
def constState : Wellen :=
  Wellen.run (constCapi text) constIndex (constRanges declaredMsb declaredLsb) [.loadSignals [1]]

/-- The selection that the select is on that signal. -/
def constSelection : PackedSelection :=
  ⟨1, declaredMsb, declaredLsb, msb, lsb, rangeWidth msb lsb⟩

lemma constTimes_sorted : [0].Pairwise (· < ·) := List.pairwise_singleton _ _

lemma constTimes_lt : ∀ t ∈ [0], t < 2 ^ 64 := by decide

lemma constChanges_sorted : (constChanges text).Pairwise fun a b => a.timeIdx ≤ b.timeIdx :=
  List.pairwise_singleton _ _

/-- The data of that signal. -/
def constData : SignalData :=
  { width := text.length, changes := constChanges text, sorted := constChanges_sorted text }

lemma constData_lt {ref : ℕ} {data : SignalData}
    (hdata : (if ref = 1 then some (constData text) else none) = some data) :
    ∀ c ∈ data.changes, c.timeIdx < [0].length := by
  intro c hc
  split_ifs at hdata
  cases hdata
  rw [List.mem_singleton.1 hc]
  exact Nat.one_pos

/-- The interface to that waveform. -/
def constWave : Backend where
  timeTable := [0]
  times_sorted := constTimes_sorted
  times_lt := constTimes_lt
  findSignal name := if name = "s" then 1 else 0
  nativeRef ref := ref
  signal ref := if ref = 1 then some (constData text) else none
  changes_lt _ _ hdata := constData_lt text hdata

variable {declaredMsb declaredLsb msb lsb text}

lemma normalizePath_select_s : normalizePath (selectText "s" msb lsb).toList =
    's' :: '[' :: (selectorText msb lsb ++ [']']) := by
  have htext : (selectText "s" msb lsb).toList = 's' :: '[' :: (selectorText msb lsb ++ [']']) := by
    rw [toList_selectText, selectorText, List.append_assoc]
    rfl
  have hdot : '.' ∉ 's' :: '[' :: (selectorText msb lsb ++ [']']) := by
    simp only [List.mem_cons, List.mem_append, not_or]
    exact ⟨by decide, by decide, notMem_selectorText (by decide) (by decide) (by decide),
      by decide, by simp⟩
  rw [normalizePath, htext, List.map_cons, List.map_cons, map_toLower_selectorText]
  show dropArrayDots ('s' :: '[' :: (selectorText msb lsb ++ [']'])) = _
  exact dropArrayDots_of_notMem hdot

lemma rangeWidth_pos (a b : ℤ) : rangeWidth a b ≠ 0 := by
  rw [rangeWidth]
  split_ifs <;> omega

/-- The select is found as a selection on the signal. -/
lemma constState_findSignal (h : Accepted declaredMsb declaredLsb msb lsb) :
    ∃ st', (constState declaredMsb declaredLsb text).findSignal (selectText "s" msb lsb) =
        (kVirtualSignalFlag + 1, st') ∧
      st'.packedSelection (kVirtualSignalFlag + 1) =
        some (constSelection declaredMsb declaredLsb msb lsb) := by
  have hne : selectText "s" msb lsb ≠ "" := by
    intro heq
    have := congrArg String.toList heq
    rw [toList_selectText] at this
    exact absurd this (by simp)
  have hkey : String.ofList ('s' :: '[' :: (selectorText msb lsb ++ [']'])) ≠ "s" := by
    intro heq
    have := congrArg (fun s => s.toList.length) heq
    simp at this
  have hsplit : splitSelector ('s' :: '[' :: (selectorText msb lsb ++ [']'])) =
      some (['s'], selectorText msb lsb) :=
    splitSelector_append ['s'] (notMem_selectorText rfl (by decide) (by decide))
  have hbounds : selectorBounds (selectorText msb lsb) = some (msb, lsb) := by
    rw [selectorText, selectorBounds_append, parseSignedIndex_toString, parseSignedIndex_toString,
      if_pos h.msb_int64, if_pos h.lsb_int64]
    rfl
  have hfind : constIndex.find? (String.ofList ('s' :: '[' :: (selectorText msb lsb ++ [']']))) =
      none := by
    rw [constIndex, OrderedMap.find?_insert_of_ne _ hkey]
    rfl
  have hselection : (constState declaredMsb declaredLsb text).selectionOf
      (String.ofList ('s' :: '[' :: (selectorText msb lsb ++ [']']))) =
      some (constSelection declaredMsb declaredLsb msb lsb) := by
    rw [Wellen.selectionOf, String.toList_ofList, hsplit]
    dsimp only
    rw [show (constState declaredMsb declaredLsb text).signalIndex.find? (String.ofList ['s']) =
        some 1 from rfl, show (constState declaredMsb declaredLsb text).declaredRanges.find?
        (String.ofList ['s']) = some ⟨declaredMsb, declaredLsb, rangeWidth declaredMsb declaredLsb⟩
        from rfl, hbounds]
    dsimp only
    rw [if_pos]
    · rfl
    · exact ⟨by decide, rangeWidth_pos _ _, rfl, h.msb_range.1, h.msb_range.2, h.lsb_range.1,
        h.lsb_range.2, rangeWidth_pos _ _, h.width,
        show 0 + 1 < kVirtualSignalFlag by decide⟩
  have hcreate : (constState declaredMsb declaredLsb text).createPackedSelection
      (String.ofList ('s' :: '[' :: (selectorText msb lsb ++ [']']))) =
      (kVirtualSignalFlag + 1,
        { constState declaredMsb declaredLsb text with
          packedSelections := [constSelection declaredMsb declaredLsb msb lsb]
          packedSelectionIndex := OrderedMap.empty.insert
            (String.ofList ('s' :: '[' :: (selectorText msb lsb ++ [']'])))
            (kVirtualSignalFlag + 1) }) := by
    rw [Wellen.createPackedSelection, hselection]
    rfl
  -- the name is not in the index, nor are there earlier selections, so one is created
  rw [Wellen.findSignal, if_neg hne, normalizePath_select_s]
  dsimp only
  rw [show (constState declaredMsb declaredLsb text).signalIndex = constIndex from rfl, hfind]
  dsimp only
  rw [hcreate]
  dsimp only
  rw [if_pos (by decide)]
  exact ⟨_, rfl, rfl⟩

lemma constState_loaded (htext : text.length = rangeWidth declaredMsb declaredLsb) :
    LoadedBitVector (constCapi text) (constState declaredMsb declaredLsb text) 1
      (rangeWidth declaredMsb declaredLsb) (constChanges text) where
  loaded := List.mem_singleton_self _
  info := rfl
  history := isHistory_of_length_lt (List.pairwise_singleton _ _) (show 1 < 2 ^ 16 by decide)
  indices := rfl
  values := fun _ _ => rfl
  kind := fun c hc => by rw [List.mem_singleton.1 hc]
  width_eq := fun c hc => by rw [List.mem_singleton.1 hc]; exact htext
  offset := isOffset_offsetAt (List.pairwise_singleton _ _)

lemma constState_signalOffsetAt (timeIdx : ℕ) :
    (constState declaredMsb declaredLsb text).signalOffsetAt (constCapi text) 1 timeIdx =
      ((constWave text).signalOffsetAt 1 timeIdx, constState declaredMsb declaredLsb text) := rfl

lemma constState_signalTypedValueAt (start element : ℕ) :
    ((constState declaredMsb declaredLsb text).signalTypedValueAt (constCapi text) 1 start
      element).1 = (constWave text).signalTypedValueAt 1 start element := rfl

/-- The backend and the interface sample the signal alike. -/
lemma constState_sampledValueAt (timeIdx : ℕ) (point : ObservationPoint) :
    (constWave text).sampledValueAt 1 timeIdx point =
      ((constState declaredMsb declaredLsb text).sampledValueAt (constCapi text) 1 timeIdx
        point).1 := by
  rw [Wellen.sampledValueAt, Backend.sampledValueAt, constState_signalOffsetAt]
  simp only [constState_signalTypedValueAt]

/-- The select on that signal, read in both ways. -/
def constRead (h : Accepted declaredMsb declaredLsb msb lsb)
    (htext : text.length = rangeWidth declaredMsb declaredLsb) :
    SelectRead declaredMsb declaredLsb msb lsb where
  capi := constCapi text
  signalIndex := constIndex
  declaredRanges := constRanges declaredMsb declaredLsb
  calls := [.loadSignals [1]]
  name := "s"
  sel := constSelection declaredMsb declaredLsb msb lsb
  changes := constChanges text
  wf := constWave text
  ident := by decide
  native := by
    intro path ref hfind
    rcases (OrderedMap.find?_insert_eq_some_iff _).1 hfind with ⟨-, rfl⟩ | ⟨-, hold⟩
    · decide
    · cases hold
  selected := by
    obtain ⟨st', hfound, hsel⟩ := @constState_findSignal _ _ _ _ text h
    change (constState declaredMsb declaredLsb text).findSignal _ = _ at hfound
    refine ⟨?_, rfl⟩
    change ((constState declaredMsb declaredLsb text).findSignal _).2.packedSelection
      ((constState declaredMsb declaredLsb text).findSignal _).1 = _
    rw [hfound]
    exact hsel
  declared := ⟨rfl, rfl⟩
  base := constState_loaded htext
  seen := ⟨rfl, Nat.one_ne_zero, constState_sampledValueAt⟩

end Constant

/-- The two readings of a select agree on every signal with a declared range. -/
def SelectsAgree (declaredMsb declaredLsb msb lsb : ℤ) : Prop :=
  ∀ r : SelectRead declaredMsb declaredLsb msb lsb, r.Agrees

/-- Evaluating a select reads the bits that the backend selects exactly when counting from the
right end is counting in the declared range. -/
theorem selectsAgree_iff (declaredMsb declaredLsb msb lsb : ℤ)
    (h : Accepted declaredMsb declaredLsb msb lsb) :
    SelectsAgree declaredMsb declaredLsb msb lsb ↔
      CountsFromRight declaredMsb declaredLsb msb lsb := by
  rw [← packedPositions_eq_iff h.msb_range h.lsb_range]
  constructor
  · intro hagree
    refine positions_eq (fun i hi => mem_slicePositions hi)
      (fun i hi => mem_packedPositions h.msb_range h.lsb_range hi) fun text hlen _ => ?_
    have hlen' : (String.ofList text).length = rangeWidth declaredMsb declaredLsb := by
      rw [String.length_ofList, hlen]
    -- a signal that has this text from the start on
    have := (constRead h hlen').agrees_iff.1 (hagree _) 0 .raw ⟨0, { text := String.ofList text }⟩ rfl
    simpa using this
  · intro heq r
    exact r.agrees_iff.2 fun timeIdx point c hc => by rw [heq]

/-- On a signal declared as `[15:8]` the select `[11:8]` is evaluated to no bits at all. -/
theorem selectsAgree_not_zero_based :
    Accepted 15 8 11 8 ∧ ¬ SelectsAgree 15 8 11 8 := by
  have haccepted : Accepted 15 8 11 8 :=
    ⟨by decide, by decide, by decide, by decide, by decide⟩
  refine ⟨haccepted, fun hagree => ?_⟩
  have hlen : "10100101".length = rangeWidth 15 8 := by decide
  obtain ⟨root, hroot, h⟩ := hagree (constRead haccepted hlen)
  obtain rfl : ExprNode.slice "s" 11 8 = root :=
    Except.ok.inj ((parseExpression_selectText (by decide) 11 8).symm.trans hroot)
  have hsampled : (((constState 15 8 "10100101").findSignal (selectText "s" 11 8)).2.sampledValueAt
      (constCapi "10100101") ((constState 15 8 "10100101").findSignal (selectText "s" 11 8)).1 0
      .raw).1 = some ⟨{ text := "0101" }, 0, 0, 1, true⟩ := by decide +kernel
  have heval : (evalExpression (constWave "10100101") 0 .raw (.slice "s" 11 8)).bits = "" := by
    decide +kernel
  exact absurd (heval.symm.trans (h 0 .raw _ hsampled)) (by decide)

/-- On a signal declared as `[7:0]` the select `[5:2]` is the same in both readings. -/
theorem selectsAgree_zero_based :
    Accepted 7 0 5 2 ∧ SelectsAgree 7 0 5 2 := by
  have haccepted : Accepted 7 0 5 2 := ⟨by decide, by decide, by decide, by decide, by decide⟩
  exact ⟨haccepted, (selectsAgree_iff 7 0 5 2 haccepted).2 (Or.inl (by decide))⟩

end XdebugFst.Expr
