import Mathlib
import XdebugFst.Expr.Numbers
import XdebugFst.Expr.Select
import XdebugFst.Waveform.Fill

/-!
# Well-formed values

A value has its flags beside its bits: its width is 0 or the number of the bits, it is known if all
bits are 0 or 1, and it has an `x` or a `z` only if a bit is unknown. Most operators of
`eval_expression` give such a value whatever their operands are. Values that are not well formed
start at the leaves: a slice beyond the signal is empty, a slice keeps the flags of the whole
signal, and an unknown literal is as short as it is written. They pass through `~`, `-` and the
bitwise operators.

`flaw` follows them from the leaves to the root, without evaluating anything else, and
`returnsWellFormed_iff` says that evaluation returns a well-formed value exactly if there is no flaw
left at the root, and no slice of a signal without a value has its bounds reversed, which throws.
-/

namespace XdebugFst.Expr

open Lib Lib.History Waveform

/-! ### Well-formed values -/

/-- The flags of a value are those of its bits. -/
structure WellFormed (v : LogicValue) : Prop where
  nonempty : v.bits.toList ≠ []
  width : v.width = 0 ∨ v.width = v.bits.toList.length
  known : v.known = true ↔ ∀ c ∈ v.bits.toList, isUnknownBit c = false
  hasX : v.hasX = true → ∃ c ∈ v.bits.toList, isUnknownBit c = true
  hasZ : v.hasZ = true → ∃ c ∈ v.bits.toList, isUnknownBit c = true

instance (v : LogicValue) : Decidable (WellFormed v) :=
  decidable_of_iff
    (v.bits.toList ≠ [] ∧ (v.width = 0 ∨ v.width = v.bits.toList.length) ∧
      (v.known = true ↔ ∀ c ∈ v.bits.toList, isUnknownBit c = false) ∧
      (v.hasX = true → ∃ c ∈ v.bits.toList, isUnknownBit c = true) ∧
      (v.hasZ = true → ∃ c ∈ v.bits.toList, isUnknownBit c = true))
    ⟨fun ⟨h₁, h₂, h₃, h₄, h₅⟩ => ⟨h₁, h₂, h₃, h₄, h₅⟩,
      fun ⟨h₁, h₂, h₃, h₄, h₅⟩ => ⟨h₁, h₂, h₃, h₄, h₅⟩⟩

/-! ### Evaluation with exceptions -/

/-- The constructor of a string throws when its length is negative. -/
inductive LengthError
  | lengthError
  deriving DecidableEq, Repr

section Eval

variable (wf : Backend) (timeIdx : ℕ) (point : ObservationPoint)

/-- The signal is in the waveform, but has no value at the time index. -/
def Unsampled (name : String) : Prop :=
  wf.findSignal name ≠ Backend.kInvalidSignalRef ∧
    wf.sampledValueAt (wf.findSignal name) timeIdx point = none

instance (name : String) : Decidable (Unsampled wf timeIdx point name) :=
  inferInstanceAs (Decidable (_ ∧ _))

/-- No string is as long as the slice: its length is negative, or no `int`. -/
def BadLength (msb lsb : ℤ) : Prop := msb - lsb + 1 < 0 ∨ 2 ^ 31 ≤ msb - lsb + 1

instance (msb lsb : ℤ) : Decidable (BadLength msb lsb) := inferInstanceAs (Decidable (_ ∨ _))

/-- `eval_expression` with its exceptions: the unknown bits of a slice without a value are a string
of length `msb - lsb + 1`. -/
def evalOrThrow : ExprNode → Except LengthError LogicValue
  | .signal name => .ok (evalSignal wf timeIdx point name none)
  | .slice name msb lsb =>
      if Unsampled wf timeIdx point name ∧ BadLength msb lsb then .error .lengthError
      else .ok (evalSignal wf timeIdx point name (some (msb, lsb)))
  | .const value => .ok value
  | .unary op right => do return evalUnary op (← evalOrThrow right)
  | .binary op left right => do
      let l ← evalOrThrow left
      let r ← evalOrThrow right
      return evalBinary op l r

/-- The slices of an expression. -/
def slices : ExprNode → List (String × ℤ × ℤ)
  | .slice name msb lsb => [(name, msb, lsb)]
  | .unary _ right => slices right
  | .binary _ left right => slices left ++ slices right
  | _ => []

/-- A slice of a signal without a value has no length. -/
def Throws (e : ExprNode) : Prop :=
  ∃ s ∈ slices e, Unsampled wf timeIdx point s.1 ∧ BadLength s.2.1 s.2.2

instance (e : ExprNode) : Decidable (Throws wf timeIdx point e) :=
  inferInstanceAs (Decidable (∃ s ∈ slices e, _))

lemma throws_binary (op : BinaryOp) (left right : ExprNode) :
    Throws wf timeIdx point (.binary op left right) ↔
      Throws wf timeIdx point left ∨ Throws wf timeIdx point right := by
  simp only [Throws, slices, List.mem_append, or_and_right, exists_or]

/-- Without a slice that throws, evaluation is that of `evalExpression`. -/
lemma evalOrThrow_eq (e : ExprNode) : evalOrThrow wf timeIdx point e =
    if Throws wf timeIdx point e then .error .lengthError
    else .ok (evalExpression wf timeIdx point e) := by
  induction e with
  | signal name => simp [evalOrThrow, Throws, slices, evalExpression]
  | slice name msb lsb => simp [evalOrThrow, Throws, slices, evalExpression]
  | const value => simp [evalOrThrow, Throws, slices, evalExpression]
  | unary op right ih =>
      have hthrows : Throws wf timeIdx point (.unary op right) ↔ Throws wf timeIdx point right :=
        Iff.rfl
      rw [evalOrThrow, ih]
      simp only [hthrows]
      split_ifs
      · rfl
      · rfl
  | binary op left right ihl ihr =>
      rw [evalOrThrow, ihl, ihr]
      simp only [throws_binary]
      by_cases hl : Throws wf timeIdx point left
      · rw [if_pos hl, if_pos (Or.inl hl)]
        rfl
      · by_cases hr : Throws wf timeIdx point right
        · rw [if_neg hl, if_pos hr, if_pos (Or.inr hr)]
          rfl
        · rw [if_neg hl, if_neg hr, if_neg (not_or.2 ⟨hl, hr⟩)]
          rfl

end Eval

/-! ### Shapes -/

/-- What matters of a value that is not well formed. -/
structure Shape where
  length : ℕ
  width : ℤ
  known : Bool
  deriving DecidableEq, Repr

/-- The value has the shape. -/
structure HasShape (v : LogicValue) (s : Shape) : Prop where
  length : v.bits.toList.length = s.length
  width : v.width = s.width
  known : v.known = s.known

/-- The shape of a value that is not well formed. -/
def constFlaw (v : LogicValue) : Option Shape :=
  if WellFormed v then none else some ⟨v.bits.toList.length, v.width, v.known⟩

/-- The shape of a slice that is not well formed. -/
def sliceFlaw (text : List Char) (msb lsb : ℤ) : Option Shape :=
  let width := min (max msb lsb) (text.length - 1) - max (min msb lsb) 0 + 1
  if width ≤ 0 then some ⟨0, width, !text.any isUnknownBit⟩
  else if text.any isUnknownBit &&
      !(charsAt text (slicePositions text.length msb lsb)).any isUnknownBit then
    some ⟨width.toNat, width, false⟩
  else none

/-- `~` keeps the width, and gives an unknown value at least one bit. -/
def bitNotFlaw (s : Shape) : Option Shape :=
  if s.known then
    if s.length ≠ 0 ∧ (s.width = 0 ∨ s.width = s.length) then none else some s
  else if s.width = 0 ∨ s.width = max 1 s.length then none
  else some ⟨max 1 s.length, s.width, false⟩

/-- The bitwise operators work at the larger width, and give no bits when neither operand has a
width or bits. -/
def bitwiseFlaw : Option Shape → Option Shape → Option Shape
  | some a, some b =>
      if (a.width ≤ 0 ∧ a.length = 0) ∧ b.width ≤ 0 ∧ b.length = 0 then some ⟨0, 0, true⟩ else none
  | _, _ => none

section Flaw

variable (wf : Backend) (timeIdx : ℕ) (point : ObservationPoint)

/-- The shape of the value of a slice, when it is not well formed. -/
def sliceValueFlaw (name : String) (msb lsb : ℤ) : Option Shape :=
  if wf.findSignal name = Backend.kInvalidSignalRef then none
  else
    match wf.sampledValueAt (wf.findSignal name) timeIdx point with
    | none => if msb - lsb + 1 ≤ 0 then some ⟨0, 0, false⟩ else none
    | some sampled => sliceFlaw sampled.value.text.toList msb lsb

/-- The shape of the value of a signal, when it is not well formed: its text is empty. -/
def signalValueFlaw (name : String) : Option Shape :=
  if wf.findSignal name = Backend.kInvalidSignalRef then none
  else
    match wf.sampledValueAt (wf.findSignal name) timeIdx point with
    | none => none
    | some sampled => if sampled.value.text = "" then some ⟨0, 0, true⟩ else none

/-- The shape of the value of an expression, when it is not well formed. -/
def flaw : ExprNode → Option Shape
  | .signal name => signalValueFlaw wf timeIdx point name
  | .slice name msb lsb => sliceValueFlaw wf timeIdx point name msb lsb
  | .const value => constFlaw value
  | .unary .bitNot right => (flaw right).bind bitNotFlaw
  | .unary .neg right => (flaw right).filter fun s => !s.known
  | .unary .logicNot _ => none
  | .binary .bitAnd left right => bitwiseFlaw (flaw left) (flaw right)
  | .binary .bitOr left right => bitwiseFlaw (flaw left) (flaw right)
  | .binary .bitXor left right => bitwiseFlaw (flaw left) (flaw right)
  | .binary _ _ _ => none

end Flaw

/-! ### Operators -/

/-- A known value of zeros and ones. -/
lemma wellFormed_of_known {v : LogicValue} (hne : v.bits.toList ≠ [])
    (hwidth : v.width = 0 ∨ v.width = v.bits.toList.length)
    (hbits : ∀ c ∈ v.bits.toList, isUnknownBit c = false) (hknown : v.known = true)
    (hx : v.hasX = false) (hz : v.hasZ = false) : WellFormed v := by
  refine ⟨hne, hwidth, iff_of_true hknown hbits, fun h => ?_, fun h => ?_⟩
  · rw [hx] at h
    cases h
  · rw [hz] at h
    cases h

/-- An unknown value with an unknown bit. -/
lemma wellFormed_of_unknown {v : LogicValue}
    (hwidth : v.width = 0 ∨ v.width = v.bits.toList.length) (hknown : v.known = false)
    (hbits : ∃ c ∈ v.bits.toList, isUnknownBit c = true) : WellFormed v := by
  obtain ⟨c, hc, hunknown⟩ := hbits
  refine ⟨List.ne_nil_of_mem hc, hwidth, ?_, fun _ => ⟨c, hc, hunknown⟩, fun _ => ⟨c, hc, hunknown⟩⟩
  refine iff_of_false (by rw [hknown]; exact Bool.false_ne_true) fun hall => ?_
  rw [hall c hc] at hunknown
  cases hunknown

lemma wellFormed_fromU64 (value : ℕ) {width : ℤ} (h : 0 ≤ width) :
    WellFormed (logicValueFromU64 value width) := by
  have hlength := length_logicValueFromU64 value width
  refine wellFormed_of_known ?_ ?_ ?_ rfl rfl rfl
  · rw [← List.length_pos_iff, hlength]
    split_ifs
    · omega
    · decide
  · rw [hlength]
    show width = 0 ∨ width = _
    split_ifs
    · omega
    · omega
  · intro c hc
    rcases logicValueFromU64_chars hc with rfl | rfl
    · rfl
    · rfl

lemma wellFormed_fromBool (b : Bool) : WellFormed (fromBool b) :=
  wellFormed_fromU64 _ Int.one_nonneg

lemma wellFormed_unknownBool : WellFormed unknownBool :=
  wellFormed_of_unknown (Or.inr rfl) rfl ⟨'x', List.mem_singleton.2 rfl, rfl⟩

/-- Unknown bits only. -/
lemma wellFormed_replicate {n : ℕ} {width : ℤ} (hn : n ≠ 0) (hwidth : width = 0 ∨ width = n) :
    WellFormed { bits := String.ofList (List.replicate n 'x'), width := width, known := false,
                 hasX := true } := by
  refine wellFormed_of_unknown ?_ rfl ⟨'x', ?_, rfl⟩
  · rw [String.toList_ofList, List.length_replicate]
    exact hwidth
  · rw [String.toList_ofList]
    exact List.mem_replicate.2 ⟨hn, rfl⟩

/-- Arithmetic gives a well-formed value of any operands. -/
lemma wellFormed_arith (op : BinaryOp) (a b : LogicValue) : WellFormed (arith op a b) := by
  have hwidth : 0 ≤ arithWidth a b := by
    rw [arithWidth]
    split_ifs
    · omega
    · omega
    · omega
    · exact le_max_of_le_left (Int.natCast_nonneg _)
  by_cases hknown : (!a.known || !b.known) = true
  · have harith : arith op a b =
        { bits := String.ofList (List.replicate (max 1 (arithWidth a b)).toNat 'x')
          width := arithWidth a b, known := false, hasX := true } := by
      rw [arith]
      exact if_pos hknown
    rw [harith]
    refine wellFormed_replicate ?_ ?_
    · omega
    · omega
  · rw [arith]
    simp only [if_neg hknown]
    exact wellFormed_fromU64 _ hwidth

lemma wellFormed_cmp (op : BinaryOp) (a b : LogicValue) : WellFormed (cmp op a b) := by
  rw [cmp]
  split_ifs
  · exact wellFormed_unknownBool
  · exact wellFormed_fromBool _

lemma wellFormed_eq (op : BinaryOp) (a b : LogicValue) : WellFormed (eq op a b) := by
  rw [eq]
  dsimp only
  split_ifs
  · exact wellFormed_unknownBool
  · exact wellFormed_fromBool _
  · exact wellFormed_fromBool _

lemma wellFormed_wildcardCaseEq (op : BinaryOp) (a b : LogicValue) :
    WellFormed (wildcardCaseEq op a b) := wellFormed_fromBool _

lemma wellFormed_logicNot (r : LogicValue) : WellFormed (evalUnary .logicNot r) := by
  rw [evalUnary]
  cases logicalTruth r with
  | unknown => exact wellFormed_unknownBool
  | false => exact wellFormed_fromBool true
  | true => exact wellFormed_fromBool false

lemma wellFormed_logicAnd (l r : LogicValue) : WellFormed (evalBinary .logicAnd l r) := by
  rw [evalBinary]
  split
  · exact wellFormed_fromBool false
  · exact wellFormed_fromBool false
  · exact wellFormed_fromBool true
  · exact wellFormed_unknownBool

lemma wellFormed_logicOr (l r : LogicValue) : WellFormed (evalBinary .logicOr l r) := by
  rw [evalBinary]
  split
  · exact wellFormed_fromBool true
  · exact wellFormed_fromBool true
  · exact wellFormed_fromBool false
  · exact wellFormed_unknownBool

/-- All binary operators but the bitwise ones give a well-formed value of any operands. -/
lemma wellFormed_evalBinary {op : BinaryOp} (l r : LogicValue)
    (h : op ≠ .bitAnd ∧ op ≠ .bitOr ∧ op ≠ .bitXor) : WellFormed (evalBinary op l r) := by
  cases op with
  | bitAnd => exact absurd rfl h.1
  | bitOr => exact absurd rfl h.2.1
  | bitXor => exact absurd rfl h.2.2
  | logicAnd => exact wellFormed_logicAnd l r
  | logicOr => exact wellFormed_logicOr l r
  | add | sub | mul | div | mod | shl | shr =>
      simp only [evalBinary]
      exact wellFormed_arith _ l r
  | lt | le | gt | ge =>
      simp only [evalBinary]
      exact wellFormed_cmp _ l r
  | eq | ne | caseEq | caseNe =>
      simp only [evalBinary]
      exact wellFormed_eq _ l r
  | wildZ | wildX | wildInside =>
      simp only [evalBinary]
      exact wellFormed_wildcardCaseEq _ l r

lemma isUnknownBit_bitwiseBit (op : Bool → Bool → Bool) (a b : Char) :
    isUnknownBit (bitwiseBit op a b) = (isUnknownBit a || isUnknownBit b) := by
  rw [bitwiseBit]
  split_ifs with hunknown hop
  · rw [hunknown]
    rfl
  · rw [Bool.not_eq_true] at hunknown
    rw [hunknown]
    rfl
  · rw [Bool.not_eq_true] at hunknown
    rw [hunknown]
    rfl

/-- The bitwise operators give a well-formed value as soon as it has bits. -/
lemma wellFormed_bitwise (op : Bool → Bool → Bool) {a b : LogicValue}
    (h : 0 < max (LogicValue.effectiveWidth a) (LogicValue.effectiveWidth b)) :
    WellFormed (bitwise op a b) := by
  rw [bitwise]
  generalize max (LogicValue.effectiveWidth a) (LogicValue.effectiveWidth b) = w at h
  generalize hba : fitWidth w (if a.known then '0' else 'x') a.bits.toList = ba
  generalize hbb : fitWidth w (if b.known then '0' else 'x') b.bits.toList = bb
  have hlen : (List.zipWith (bitwiseBit op) ba bb).length = w := by
    rw [List.length_zipWith, ← hba, ← hbb, length_fitWidth, length_fitWidth, min_self]
  -- A pair of bits is unknown exactly if the bit of the result is.
  have hmem : ∀ c, c ∈ List.zipWith (bitwiseBit op) ba bb ↔
      ∃ p ∈ ba.zip bb, bitwiseBit op p.1 p.2 = c := by
    intro c
    rw [← List.map_uncurry_zip_eq_zipWith, List.mem_map]
    rfl
  have hunknown : ∀ {test : Char × Char → Bool},
      ((ba.zip bb).filter fun p => isUnknownBit p.1 || isUnknownBit p.2).any test = true →
        ∃ c ∈ List.zipWith (bitwiseBit op) ba bb, isUnknownBit c = true := by
    intro test hany
    obtain ⟨p, hp, -⟩ := List.any_eq_true.1 hany
    obtain ⟨hp, hbit⟩ := List.mem_filter.1 hp
    exact ⟨_, (hmem _).2 ⟨p, hp, rfl⟩, (isUnknownBit_bitwiseBit op p.1 p.2).trans hbit⟩
  refine ⟨?_, Or.inr ?_, ?_, ?_, ?_⟩
  · rw [String.toList_ofList, ← List.length_pos_iff, hlen]
    exact h
  · rw [String.toList_ofList, hlen]
  · simp only [String.toList_ofList, List.isEmpty_iff, List.filter_eq_nil_iff, hmem,
      Bool.not_eq_true, forall_exists_index, and_imp, forall_apply_eq_imp_iff₂,
      isUnknownBit_bitwiseBit]
  · rw [String.toList_ofList]
    exact hunknown
  · rw [String.toList_ofList]
    exact hunknown

/-! ### Flaws of the operators -/

/-- The flaw of a value: none if it is well formed, else its shape. -/
def IsFlaw (v : LogicValue) : Option Shape → Prop
  | none => WellFormed v
  | some s => ¬ WellFormed v ∧ HasShape v s

lemma isFlaw_constFlaw (v : LogicValue) : IsFlaw v (constFlaw v) := by
  rw [constFlaw]
  split_ifs with h
  · exact h
  · exact ⟨h, rfl, rfl, rfl⟩

lemma WellFormed.effectiveWidth_pos {v : LogicValue} (h : WellFormed v) :
    0 < LogicValue.effectiveWidth v := by
  have hlen := List.length_pos_iff.2 h.nonempty
  rw [LogicValue.effectiveWidth, ← String.length_toList]
  split_ifs
  · omega
  · exact hlen

lemma HasShape.effectiveWidth {v : LogicValue} {s : Shape} (h : HasShape v s) :
    LogicValue.effectiveWidth v = 0 ↔ s.width ≤ 0 ∧ s.length = 0 := by
  rw [LogicValue.effectiveWidth, ← String.length_toList, h.length, h.width]
  split_ifs
  · omega
  · omega

/-- Without bits and width on both sides the result is empty, and has the flags of a known value. -/
lemma isFlaw_bitwise (op : Bool → Bool → Bool) {a b : LogicValue} {fa fb : Option Shape}
    (ha : IsFlaw a fa) (hb : IsFlaw b fb) : IsFlaw (bitwise op a b) (bitwiseFlaw fa fb) := by
  cases fa with
  | none => exact wellFormed_bitwise op (lt_max_of_lt_left (WellFormed.effectiveWidth_pos ha))
  | some sa =>
      cases fb with
      | none => exact wellFormed_bitwise op (lt_max_of_lt_right (WellFormed.effectiveWidth_pos hb))
      | some sb =>
          rw [bitwiseFlaw]
          split_ifs with hshape
          · have hzero := hshape.imp ha.2.effectiveWidth.2 hb.2.effectiveWidth.2
            have hnil : ∀ fill l, fitWidth (max 0 0) fill l = [] := fun fill l =>
              List.length_eq_zero_iff.1 (length_fitWidth _ _ _)
            have hempty : bitwise op a b = { bits := "" } := by
              rw [bitwise, hzero.1, hzero.2]
              simp only [hnil]
              rfl
            rw [hempty]
            exact ⟨fun h => h.nonempty rfl, rfl, rfl, rfl⟩
          · have hzero := mt (And.imp ha.2.effectiveWidth.1 hb.2.effectiveWidth.1) hshape
            exact wellFormed_bitwise op (by omega)

lemma bitNot_known {r : LogicValue} (h : r.known = true) : evalUnary .bitNot r =
    { bits := String.ofList (r.bits.toList.map fun c => if c = '0' then '1' else '0')
      width := r.width } := by
  rw [evalUnary]
  simp only [h, Bool.not_true, Bool.false_eq_true, if_false]

lemma bitNot_unknown {r : LogicValue} (h : r.known = false) : evalUnary .bitNot r =
    { bits := String.ofList (List.replicate (max 1 r.bits.toList.length) 'x')
      width := r.width, known := false, hasX := true } := by
  rw [evalUnary]
  simp only [h, Bool.not_false, if_true, String.length_toList]

/-- `~` of a known value has a well-formed value exactly if the number of the bits fits. -/
lemma wellFormed_bitNot_known {r : LogicValue} (h : r.known = true) :
    WellFormed (evalUnary .bitNot r) ↔
      r.bits.toList.length ≠ 0 ∧ (r.width = 0 ∨ r.width = r.bits.toList.length) := by
  rw [bitNot_known h]
  constructor
  · intro hwf
    have hne := hwf.nonempty
    have hwidth := hwf.width
    simp only [String.toList_ofList, List.length_map] at hne hwidth
    exact ⟨fun hzero => hne (List.map_eq_nil_iff.2 (List.length_eq_zero_iff.1 hzero)), hwidth⟩
  · rintro ⟨hne, hwidth⟩
    refine wellFormed_of_known ?_ ?_ ?_ rfl rfl rfl
    · simpa using hne
    · simpa using hwidth
    · intro c hc
      rw [String.toList_ofList] at hc
      obtain ⟨d, -, rfl⟩ := List.mem_map.1 hc
      split_ifs
      · rfl
      · rfl

/-- `~` of an unknown value has a well-formed value exactly if the width fits. -/
lemma wellFormed_bitNot_unknown {r : LogicValue} (h : r.known = false) :
    WellFormed (evalUnary .bitNot r) ↔
      r.width = 0 ∨ r.width = max 1 r.bits.toList.length := by
  rw [bitNot_unknown h]
  constructor
  · intro hwf
    have hwidth := hwf.width
    simp only [String.toList_ofList, List.length_replicate] at hwidth
    omega
  · intro hwidth
    exact wellFormed_replicate (by omega) (by omega)

lemma isFlaw_bitNot {r : LogicValue} {f : Option Shape} (hr : IsFlaw r f) :
    IsFlaw (evalUnary .bitNot r) (f.bind bitNotFlaw) := by
  cases f with
  | none =>
      have hne := List.length_pos_iff.2 (WellFormed.nonempty hr)
      have hwidth := WellFormed.width hr
      cases hknown : r.known with
      | true => exact (wellFormed_bitNot_known hknown).2 ⟨hne.ne', hwidth⟩
      | false => exact (wellFormed_bitNot_unknown hknown).2 (by omega)
  | some s =>
      obtain ⟨-, hshape⟩ := hr
      rw [Option.bind_some, bitNotFlaw, ← hshape.known, ← hshape.length, ← hshape.width]
      cases hknown : r.known with
      | true =>
          rw [if_pos rfl]
          split_ifs with hfits
          · exact (wellFormed_bitNot_known hknown).2 hfits
          · refine ⟨mt (wellFormed_bitNot_known hknown).1 hfits, ?_, ?_, ?_⟩
            · rw [bitNot_known hknown, String.toList_ofList, List.length_map, hshape.length]
            · rw [bitNot_known hknown, hshape.width]
            · rw [bitNot_known hknown, ← hshape.known, hknown]
      | false =>
          rw [if_neg Bool.false_ne_true]
          split_ifs with hfits
          · exact (wellFormed_bitNot_unknown hknown).2 (by omega)
          · refine ⟨mt (wellFormed_bitNot_unknown hknown).1 (by omega), ?_, ?_, ?_⟩
            · rw [bitNot_unknown hknown, String.toList_ofList, List.length_replicate]
            · rw [bitNot_unknown hknown]
            · rw [bitNot_unknown hknown]

lemma neg_unknown {r : LogicValue} (h : r.known = false) : evalUnary .neg r = r := by
  simp only [evalUnary, h, Bool.not_false, if_true]

lemma wellFormed_neg_known {r : LogicValue} (h : r.known = true) :
    WellFormed (evalUnary .neg r) := by
  simp only [evalUnary, h, Bool.not_true, Bool.false_eq_true, if_false]
  exact wellFormed_arith _ _ _

lemma isFlaw_neg {r : LogicValue} {f : Option Shape} (hr : IsFlaw r f) :
    IsFlaw (evalUnary .neg r) (f.filter fun s => !s.known) := by
  cases hknown : r.known with
  | false =>
      rw [neg_unknown hknown]
      cases f with
      | none => exact hr
      | some s =>
          rw [Option.filter_some, ← hr.2.known, hknown]
          exact hr
  | true =>
      have hwf := wellFormed_neg_known hknown
      cases f with
      | none => exact hwf
      | some s =>
          rw [Option.filter_some, ← hr.2.known, hknown]
          exact hwf

/-! ### Flaws of the signals -/

/-- A waveform whose values have the declared widths. -/
structure SizedWaveform extends Backend where
  sized : ∀ ref data, signal ref = some data →
    ∀ c ∈ data.changes, c.value.text.toList.length = data.width

/-- A sampled text has the declared width. -/
lemma SizedWaveform.length_sample (wf : SizedWaveform) {ref timeIdx : ℕ} {point : ObservationPoint}
    {sampled : SampledValue} (h : wf.sampledValueAt ref timeIdx point = some sampled) :
    sampled.value.text.toList.length = ((wf.signal ref).map SignalData.width).getD 0 := by
  have hsample : wf.sample ref timeIdx point = some sampled.value := by
    rw [Backend.sample, h, Option.map_some]
  obtain ⟨c, hc, hvalue⟩ := Backend.exists_of_sample hsample
  rw [Backend.changesOf] at hc
  cases hsignal : wf.signal ref with
  | none =>
      rw [hsignal] at hc
      cases hc
  | some data =>
      rw [hsignal] at hc
      rw [← hvalue, wf.sized ref data hsignal c hc]
      rfl

lemma bitUnknown_known (c : Char) :
    ((bitUnknown c).1 || (bitUnknown c).2) = isUnknownBit c := by
  rw [bitUnknown]
  split_ifs with hx hz hother
  · rcases hx with rfl | rfl | rfl | rfl | rfl | rfl <;> rfl
  · rcases hz with rfl | rfl | rfl <;> rfl
  · simp [isUnknownBit, hother]
  · simp [isUnknownBit, hother]

section FromBits

variable (text : String)

lemma known_fromBits (width : ℤ) :
    (logicValueFromBits text width).known = !text.toList.any isUnknownBit := by
  rw [Bool.eq_iff_iff, Bool.not_eq_true', List.any_eq_false]
  simp only [logicValueFromBits, List.all_map, List.all_eq_true, ← bitUnknown_known,
    Function.comp_apply, ← Bool.not_or, Bool.not_eq_true', Bool.not_eq_true]

/-- A mark is set by an unknown bit. -/
lemma any_marks {mark : Bool × Bool → Bool} (hmark : ∀ m, mark m = true → (m.1 || m.2) = true)
    (h : (text.toList.map bitUnknown).any mark = true) : text.toList.any isUnknownBit = true := by
  obtain ⟨m, hm, hset⟩ := List.any_eq_true.1 h
  obtain ⟨c, hc, rfl⟩ := List.mem_map.1 hm
  exact List.any_eq_true.2 ⟨c, hc, (bitUnknown_known c).symm.trans (hmark _ hset)⟩

/-- A value with some of the bits and the flags of a text is well formed, when it has bits and
they have an unknown one if the text has one. -/
lemma wellFormed_fromBits (width : ℤ) {bits : List Char} (hne : bits ≠ [])
    (hsub : ∀ c ∈ bits, c ∈ text.toList) :
    WellFormed { logicValueFromBits text width with
      bits := String.ofList bits, width := bits.length } ↔
      (text.toList.any isUnknownBit = true → bits.any isUnknownBit = true) := by
  constructor
  · intro hwf hunknown
    by_contra hnone
    rw [Bool.not_eq_true, List.any_eq_false] at hnone
    have hknown := hwf.known.2 fun c hc => by
      rw [String.toList_ofList] at hc
      exact Bool.eq_false_of_not_eq_true (hnone c hc)
    rw [known_fromBits, hunknown] at hknown
    cases hknown
  · intro hunknown
    refine ⟨?_, Or.inr ?_, ?_, fun h => ?_, fun h => ?_⟩
    · rw [String.toList_ofList]
      exact hne
    · rw [String.toList_ofList]
    · rw [known_fromBits, String.toList_ofList, Bool.not_eq_true', List.any_eq_false]
      constructor
      · intro hnone c hc
        exact Bool.eq_false_of_not_eq_true (hnone c (hsub c hc))
      · intro hknown c hc hbit
        obtain ⟨d, hd, hunknown⟩ := List.any_eq_true.1 (hunknown (List.any_eq_true.2 ⟨c, hc, hbit⟩))
        rw [hknown d hd] at hunknown
        cases hunknown
    · rw [String.toList_ofList, ← List.any_eq_true]
      exact hunknown (any_marks text (fun m hm => by rw [hm, Bool.true_or]) h)
    · rw [String.toList_ofList, ← List.any_eq_true]
      exact hunknown (any_marks text (fun m hm => by rw [hm, Bool.or_true]) h)

end FromBits

lemma mem_of_mem_charsAt {text : List Char} {msb lsb : ℤ} {c : Char}
    (h : c ∈ charsAt text (slicePositions text.length msb lsb)) : c ∈ text := by
  obtain ⟨i, hi, rfl⟩ := List.mem_map.1 h
  have hpos := mem_slicePositions hi
  have hlt : i.toNat < text.length := by omega
  rw [List.getD_eq_getElem _ _ hlt]
  exact List.getElem_mem hlt

lemma length_charsAt (text : List Char) (msb lsb : ℤ) :
    (charsAt text (slicePositions text.length msb lsb)).length =
      (min (max msb lsb) (text.length - 1) - max (min msb lsb) 0 + 1).toNat := by
  rw [charsAt, slicePositions, List.length_map, List.length_map, List.length_range]

/-- A slice is empty, or loses its unknown bits, or is well formed. -/
lemma isFlaw_slice (text : String) (width msb lsb : ℤ) :
    IsFlaw { logicValueFromBits text width with
      bits := String.ofList (sliceBits text.toList msb lsb).1
      width := (sliceBits text.toList msb lsb).2 } (sliceFlaw text.toList msb lsb) := by
  have hlen := length_charsAt text.toList msb lsb
  have hwidth : (sliceBits text.toList msb lsb).2 =
    min (max msb lsb) (text.toList.length - 1) - max (min msb lsb) 0 + 1 := rfl
  rw [sliceFlaw, sliceBits_eq, hwidth]
  generalize hbits : charsAt text.toList (slicePositions text.toList.length msb lsb) = bits at hlen ⊢
  generalize min (max msb lsb) (text.toList.length - 1 : ℤ) - max (min msb lsb) 0 + 1 = n at hlen ⊢
  dsimp only
  split_ifs with hn hlost
  · have hnil : bits = [] := List.length_eq_zero_iff.1 (by omega)
    rw [hnil]
    exact ⟨fun hwf => hwf.nonempty rfl, rfl, rfl, known_fromBits text width⟩
  · obtain rfl : n = bits.length := by omega
    have hne : bits ≠ [] := List.ne_nil_of_length_pos (by omega)
    have hsub : ∀ c ∈ bits, c ∈ text.toList := fun c hc => mem_of_mem_charsAt (hbits ▸ hc)
    rw [Bool.and_eq_true, Bool.not_eq_true'] at hlost
    refine ⟨fun hwf => ?_, ?_, rfl, ?_⟩
    · have hunknown := (wellFormed_fromBits text width hne hsub).1 hwf hlost.1
      rw [hlost.2] at hunknown
      cases hunknown
    · rw [String.toList_ofList]
      rfl
    · rw [known_fromBits, hlost.1]
      rfl
  · obtain rfl : n = bits.length := by omega
    have hne : bits ≠ [] := List.ne_nil_of_length_pos (by omega)
    have hsub : ∀ c ∈ bits, c ∈ text.toList := fun c hc => mem_of_mem_charsAt (hbits ▸ hc)
    refine (wellFormed_fromBits text width hne hsub).2 fun hunknown => ?_
    rw [hunknown, Bool.true_and, Bool.not_eq_true', Bool.not_eq_false] at hlost
    exact hlost

/-- A text of the declared width is a well-formed value, unless it is empty. -/
lemma isFlaw_text {text : String} {width : ℕ} (h : text.toList.length = width) :
    IsFlaw (logicValueFromBits text width)
      (if text = "" then some ⟨0, 0, true⟩ else none) := by
  split_ifs with hempty
  · subst hempty
    obtain rfl : width = 0 := h.symm
    exact ⟨fun hwf => hwf.nonempty rfl, rfl, rfl, rfl⟩
  · have hne : text.toList ≠ [] := fun hnil => hempty (String.toList_eq_nil_iff.1 hnil)
    have hwidth : (logicValueFromBits text width).width = text.toList.length := by
      rw [logicValueFromBits]
      dsimp only
      split_ifs
      · rw [String.length_toList]
      · rw [h]
    have hwf := (wellFormed_fromBits text width hne fun c hc => hc).2 id
    rw [String.ofList_toList, ← hwidth] at hwf
    exact hwf

section Spec

variable (wf : SizedWaveform) (timeIdx : ℕ) (point : ObservationPoint)

/-- A signal that is not in the waveform, or has no value, is one unknown bit. -/
lemma isFlaw_signalValue (name : String) :
    IsFlaw (evalSignal wf.toBackend timeIdx point name none)
      (signalValueFlaw wf.toBackend timeIdx point name) := by
  rw [evalSignal, signalValueFlaw]
  dsimp only
  split_ifs with hinvalid
  · exact wellFormed_replicate one_ne_zero (Or.inl rfl)
  · cases hsampled : wf.sampledValueAt (wf.findSignal name) timeIdx point with
    | none => exact wellFormed_replicate one_ne_zero (Or.inl rfl)
    | some sampled => exact isFlaw_text (wf.length_sample hsampled)

lemma isFlaw_sliceValue (name : String) (msb lsb : ℤ) :
    IsFlaw (evalSignal wf.toBackend timeIdx point name (some (msb, lsb)))
      (sliceValueFlaw wf.toBackend timeIdx point name msb lsb) := by
  rw [evalSignal, sliceValueFlaw]
  dsimp only
  by_cases hinvalid : wf.findSignal name = Backend.kInvalidSignalRef
  · rw [if_pos hinvalid, if_pos hinvalid]
    exact wellFormed_replicate one_ne_zero (Or.inl rfl)
  · rw [if_neg hinvalid, if_neg hinvalid]
    cases hsampled : wf.sampledValueAt (wf.findSignal name) timeIdx point with
    | none =>
        dsimp only
        split_ifs with hempty
        · rw [Int.toNat_of_nonpos hempty]
          exact ⟨fun hwf => hwf.nonempty rfl, rfl, rfl, rfl⟩
        · exact wellFormed_replicate (by omega) (Or.inl rfl)
    | some sampled => exact isFlaw_slice _ _ _ _

/-- The flaw of an expression is that of its value. -/
lemma isFlaw_flaw (e : ExprNode) :
    IsFlaw (evalExpression wf.toBackend timeIdx point e) (flaw wf.toBackend timeIdx point e) := by
  induction e with
  | signal name => exact isFlaw_signalValue wf timeIdx point name
  | slice name msb lsb => exact isFlaw_sliceValue wf timeIdx point name msb lsb
  | const value => exact isFlaw_constFlaw value
  | unary op right ih =>
      cases op with
      | bitNot => exact isFlaw_bitNot ih
      | neg => exact isFlaw_neg ih
      | logicNot => exact wellFormed_logicNot _
  | binary op left right ihl ihr =>
      cases op with
      | bitAnd => exact isFlaw_bitwise _ ihl ihr
      | bitOr => exact isFlaw_bitwise _ ihl ihr
      | bitXor => exact isFlaw_bitwise _ ihl ihr
      | _ => exact wellFormed_evalBinary _ _ ⟨nofun, nofun, nofun⟩

end Spec

/-! ### The whole evaluation -/

/-- Evaluation returns, and what it returns is well formed. -/
def ReturnsWellFormed (wf : Backend) (timeIdx : ℕ) (point : ObservationPoint) (e : ExprNode) :
    Prop :=
  ∃ v, evalOrThrow wf timeIdx point e = .ok v ∧ WellFormed v

/-- Evaluation returns a well-formed value exactly if no slice of a signal without a value has
reversed bounds, and no flaw of a leaf comes through the operators. -/
theorem returnsWellFormed_iff (wf : SizedWaveform) (timeIdx : ℕ) (point : ObservationPoint)
    (e : ExprNode) : ReturnsWellFormed wf.toBackend timeIdx point e ↔
      ¬ Throws wf.toBackend timeIdx point e ∧ flaw wf.toBackend timeIdx point e = none := by
  have hflaw := isFlaw_flaw wf timeIdx point e
  rw [ReturnsWellFormed, evalOrThrow_eq]
  constructor
  · rintro ⟨v, hv, hwf⟩
    split_ifs at hv with hthrows
    cases hv
    refine ⟨hthrows, ?_⟩
    cases hf : flaw wf.toBackend timeIdx point e with
    | none => rfl
    | some s =>
        rw [hf] at hflaw
        exact absurd hwf hflaw.1
  · rintro ⟨hthrows, hnone⟩
    rw [hnone] at hflaw
    exact ⟨_, if_neg hthrows, hflaw⟩

lemma constWave_sized (text : String) (ref : ℕ) (data : SignalData)
    (h : (constWave text).signal ref = some data) :
    ∀ c ∈ data.changes, c.value.text.toList.length = data.width := by
  simp only [constWave, Option.ite_none_right_eq_some, Option.some_inj] at h
  obtain ⟨-, rfl⟩ := h
  intro c hc
  rw [List.mem_singleton.1 hc]
  exact String.length_toList

/-- The literal is eight bits wide, and its value has one bit. -/
theorem unknownLiteral_not_returnsWellFormed :
    ¬ ∀ (wf : SizedWaveform) (timeIdx : ℕ) (point : ObservationPoint) (text : String)
      (e : ExprNode), parseExpression text = .ok e →
        ReturnsWellFormed wf.toBackend timeIdx point e := by
  intro h
  have hparse : parseExpression "8'bx" =
      .ok (.const { bits := "x", width := 8, known := false, hasX := true }) := by decide +kernel
  obtain ⟨v, hv, hwf⟩ := h ⟨constWave "0", constWave_sized "0"⟩ 0 .raw "8'bx" _ hparse
  cases hv
  rcases hwf.width with hzero | hlength
  · cases hzero
  · cases hlength

end XdebugFst.Expr
