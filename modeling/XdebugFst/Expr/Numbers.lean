import Mathlib
import XdebugFst.Expr.Literal

/-!
# Numbers in expressions

`cmp`, `eq` and `arith` on known operands, compared with the natural numbers that the operands
denote. `to_u64` keeps the low 64 bits of an operand. The comparisons see nothing else, whereas
equality compares all bits; so the two make one order of the values only as far as the low 64 bits
are ordered as the values: `oneOrder_iff`. Arithmetic is exact for results of at most 64 bits, up
to divisions and shifts that the dropped bits decide: `arithExact_iff`.
-/

namespace XdebugFst.Expr

/-! ### The numbers of bit strings -/

/-- The natural number that a bit string denotes. -/
def bitsValue (bits : List Char) : ℕ :=
  bits.foldl (fun n c => n * 2 ^ 1 + if c = '1' then 1 else 0) 0

lemma bit_lt (c : Char) : (if c = '1' then 1 else 0) < 2 ^ 1 := by
  split_ifs <;> decide

lemma bitsValue_lt (bits : List Char) : bitsValue bits < 2 ^ bits.length := by
  have h := (@flatMap_lowBits 1 (fun c => if c = '1' then 1 else 0) bits fun c _ => bit_lt c).2
  rwa [Nat.one_mul] at h

/-- A known bit string is made of the bits of its number. -/
lemma eq_lowBits {bits : List Char} (h : ∀ c ∈ bits, c = '0' ∨ c = '1') :
    bits = lowBits bits.length (bitsValue bits) := by
  have hlow := (@flatMap_lowBits 1 (fun c => if c = '1' then 1 else 0) bits fun c _ => bit_lt c).1
  rw [Nat.one_mul] at hlow
  refine Eq.trans ?_ hlow
  have hone : bits.flatMap (fun c => lowBits 1 (if c = '1' then 1 else 0)) =
      bits.flatMap fun c => [c] := by
    refine List.flatMap_congr fun c hc => ?_
    rcases h c hc with rfl | rfl <;> decide
  rw [hone]
  exact (List.flatMap_singleton' bits).symm

/-- The number of the low bits of a number. -/
lemma bitsValue_lowBits (n value : ℕ) : bitsValue (lowBits n value) = value % 2 ^ n := by
  have hbits := eq_lowBits fun c hc => @lowBits_chars n value c hc
  rw [length_lowBits, lowBits_eq_iff] at hbits
  have hlt := bitsValue_lt (lowBits n value)
  rw [length_lowBits] at hlt
  refine Nat.eq_of_testBit_eq fun i => ?_
  rw [Nat.testBit_mod_two_pow]
  by_cases hi : i < n
  · rw [← hbits i hi, decide_eq_true hi, Bool.true_and]
  · rw [decide_eq_false hi, Bool.false_and]
    exact Nat.testBit_lt_two_pow (hlt.trans_le (Nat.pow_le_pow_right two_pos (Nat.le_of_not_lt hi)))

/-- Two known bit strings denote one number exactly if they are equal at a common width. -/
lemma fitWidth_eq_iff {a b : List Char} (ha : ∀ c ∈ a, c = '0' ∨ c = '1')
    (hb : ∀ c ∈ b, c = '0' ∨ c = '1') :
    fitWidth (max a.length b.length) '0' a = fitWidth (max a.length b.length) '0' b ↔
      bitsValue a = bitsValue b := by
  have hbits : ∀ {l : List Char}, (∀ c ∈ l, c = '0' ∨ c = '1') →
      fitWidth (max a.length b.length) '0' l = lowBits (max a.length b.length) (bitsValue l) := by
    intro l hl
    conv_lhs => rw [eq_lowBits hl]
    exact fitWidth_lowBits _ (bitsValue_lt l)
  rw [hbits ha, hbits hb]
  constructor
  · intro h
    have hvalue := congrArg bitsValue h
    rwa [bitsValue_lowBits, bitsValue_lowBits,
      Nat.mod_eq_of_lt ((bitsValue_lt a).trans_le (Nat.pow_le_pow_right two_pos (le_max_left _ _))),
      Nat.mod_eq_of_lt ((bitsValue_lt b).trans_le (Nat.pow_le_pow_right two_pos (le_max_right _ _)))]
      at hvalue
  · intro h
    rw [h]

/-! ### Known operands -/

/-- A known bit vector of any width. -/
structure KnownVector where
  value : LogicValue
  known : value.known = true
  binary : ∀ c ∈ value.bits.toList, c = '0' ∨ c = '1'

namespace KnownVector

/-- The natural number that it denotes. -/
def toNat (v : KnownVector) : ℕ := bitsValue v.value.bits.toList

/-- `to_u64` drops all bits but the low 64. -/
lemma toU64_value (v : KnownVector) : toU64 v.value = v.toNat % 2 ^ 64 :=
  @foldl_shiftIn 1 (fun c => if c = '1' then 1 else 0) v.value.bits.toList (by decide)
    (fun c _ => bit_lt c) 0

end KnownVector

variable (a b : KnownVector)

/-! ### Comparison and equality -/

/-- The results of the comparisons and of the equalities are those of one order. -/
structure OneOrder : Prop where
  /-- Exactly one of the three relations holds. -/
  one : [cmp .lt a.value b.value, eq .eq a.value b.value, cmp .gt a.value b.value].count
    (fromBool true) = 1
  lt : cmp .lt a.value b.value = fromBool (a.toNat < b.toNat)
  eq : eq .eq a.value b.value = fromBool (a.toNat = b.toNat)
  gt : cmp .gt a.value b.value = fromBool (a.toNat > b.toNat)
  le : cmp .le a.value b.value = fromBool (!decide (a.toNat > b.toNat))
  ge : cmp .ge a.value b.value = fromBool (!decide (a.toNat < b.toNat))
  ne : Expr.eq .ne a.value b.value = fromBool (!decide (a.toNat = b.toNat))

lemma fromBool_inj {p q : Bool} : fromBool p = fromBool q ↔ p = q := by
  cases p <;> cases q <;> decide

lemma cmp_known (op : BinaryOp) : cmp op a.value b.value =
    fromBool (match op with
      | .lt => a.toNat % 2 ^ 64 < b.toNat % 2 ^ 64
      | .le => a.toNat % 2 ^ 64 ≤ b.toNat % 2 ^ 64
      | .gt => a.toNat % 2 ^ 64 > b.toNat % 2 ^ 64
      | .ge => a.toNat % 2 ^ 64 ≥ b.toNat % 2 ^ 64
      | _ => false) := by
  rw [cmp, a.known, b.known, a.toU64_value, b.toU64_value]
  rfl

lemma eq_known {op : BinaryOp} : Expr.eq op a.value b.value =
    fromBool (if op = .ne ∨ op = .caseNe then !decide (a.toNat = b.toNat)
      else decide (a.toNat = b.toNat)) := by
  have hequal := fitWidth_eq_iff a.binary b.binary
  rw [Expr.eq, a.known, b.known]
  simp only [Bool.not_true, Bool.or_self, Bool.false_eq_true, false_and, if_false,
    ← String.length_toList, hequal]
  rfl

/-- Two pairs of numbers are ordered alike. -/
lemma compare_eq_compare_iff {x y m n : ℕ} :
    compare x y = compare m n ↔ (x < y ↔ m < n) ∧ (x > y ↔ m > n) := by
  constructor
  · intro h
    refine ⟨compare_lt_iff_lt.symm.trans ?_, compare_gt_iff_gt.symm.trans ?_⟩
    · rw [h]
      exact compare_lt_iff_lt
    · rw [h]
      exact compare_gt_iff_gt
  · rintro ⟨hlt, hgt⟩
    rcases lt_trichotomy m n with h | h | h
    · rw [compare_lt_iff_lt.2 h, compare_lt_iff_lt.2 (hlt.2 h)]
    · have hxy : x = y := by omega
      rw [compare_eq_iff_eq.2 h, compare_eq_iff_eq.2 hxy]
    · rw [compare_gt_iff_gt.2 h, compare_gt_iff_gt.2 (hgt.2 h)]

/-- The operators make one order of two values exactly if their low 64 bits are ordered as the
values are. -/
theorem oneOrder_iff :
    OneOrder a b ↔ compare (a.toNat % 2 ^ 64) (b.toNat % 2 ^ 64) = compare a.toNat b.toNat := by
  rw [compare_eq_compare_iff]
  constructor
  · intro h
    have hlt := h.lt
    have hgt := h.gt
    rw [cmp_known, fromBool_inj, decide_eq_decide] at hlt hgt
    exact ⟨hlt, hgt⟩
  · rintro ⟨hlt, hgt⟩
    have hle : a.toNat % 2 ^ 64 ≤ b.toNat % 2 ^ 64 ↔ ¬ a.toNat > b.toNat := by
      rw [← hgt, not_lt]
    have hge : a.toNat % 2 ^ 64 ≥ b.toNat % 2 ^ 64 ↔ ¬ a.toNat < b.toNat := by
      rw [← hlt, not_lt]
    refine ⟨?_, ?_, ?_, ?_, ?_, ?_, ?_⟩
    · rw [cmp_known, cmp_known, eq_known]
      simp only [hlt, hgt, reduceCtorEq, or_self, if_false]
      rcases lt_trichotomy a.toNat b.toNat with h | h | h
      · simp [h, h.ne, h.le.not_gt, List.count_cons]
        decide
      · simp [h, List.count_cons]
        decide
      · simp [h, h.ne', h.le.not_gt, List.count_cons]
        decide
    · rw [cmp_known, fromBool_inj]
      exact decide_eq_decide.2 hlt
    · rw [eq_known]
      rfl
    · rw [cmp_known, fromBool_inj]
      exact decide_eq_decide.2 hgt
    · rw [cmp_known, fromBool_inj, ← decide_not]
      exact decide_eq_decide.2 hle
    · rw [cmp_known, fromBool_inj, ← decide_not]
      exact decide_eq_decide.2 hge
    · rw [eq_known]
      rfl

/-- The `n` low bits of a number, as a known vector. -/
def KnownVector.ofNat (n value : ℕ) : KnownVector where
  value := { bits := String.ofList (lowBits n value), width := n }
  known := rfl
  binary c hc := lowBits_chars (by rwa [String.toList_ofList] at hc)

/-- The comparison does not see the bit 64, so that it puts `2 ^ 64` below 1. -/
theorem wide_not_oneOrder : ¬ ∀ a b : KnownVector, OneOrder a b := by
  intro h
  have hlt := (h (KnownVector.ofNat 65 (2 ^ 64)) (KnownVector.ofNat 1 1)).lt
  revert hlt
  decide +kernel

/-! ### Arithmetic -/

/-- The width that `arith` gives its result. -/
def arithWidth (a b : LogicValue) : ℤ :=
  if a.width > 0 ∧ b.width > 0 then max a.width b.width
  else if a.width > 0 then a.width
  else if b.width > 0 then b.width
  else max a.bits.length b.bits.length

/-- The result of `arith` in a 64-bit word. -/
def arithWord (op : BinaryOp) (va vb : ℕ) : ℕ :=
  match op with
  | .add => (va + vb) % 2 ^ 64
  | .sub => (va + 2 ^ 64 - vb) % 2 ^ 64
  | .mul => va * vb % 2 ^ 64
  | .div => if vb = 0 then 0 else va / vb
  | .mod => if vb = 0 then 0 else va % vb
  | .shl => va * 2 ^ (vb % 64) % 2 ^ 64
  | .shr => va / 2 ^ (vb % 64)
  | _ => 0

lemma arith_known (op : BinaryOp) : arith op a.value b.value =
    logicValueFromU64 (arithWord op (a.toNat % 2 ^ 64) (b.toNat % 2 ^ 64))
      (arithWidth a.value b.value) := by
  rw [arith, a.known, b.known, a.toU64_value, b.toU64_value]
  rfl

/-- The operators that `arith` implements. -/
def BinaryOp.isArith : BinaryOp → Bool
  | .add | .sub | .mul | .div | .mod | .shl | .shr => true
  | _ => false

/-- The exact result of an operator modulo the width of the result. -/
def exactResult (op : BinaryOp) (m n w : ℕ) : ℕ :=
  match op with
  | .add => (m + n) % 2 ^ w
  | .sub => (((m : ℤ) - n) % (2 ^ w : ℕ)).toNat
  | .mul => m * n % 2 ^ w
  | .div => m / n % 2 ^ w
  | .mod => m % n % 2 ^ w
  | .shl => m * 2 ^ n % 2 ^ w
  | .shr => m / 2 ^ n % 2 ^ w
  | _ => 0

/-- The result of `arith` has the width that it chooses and denotes the exact result. -/
structure ArithExact (op : BinaryOp) : Prop where
  /-- `logic_value_from_u64` shifts a 64-bit word by less than 64. -/
  defined : arithWidth a.value b.value ≤ 64
  length : ((arith op a.value b.value).bits.length : ℤ) = arithWidth a.value b.value
  binary : ∀ c ∈ (arith op a.value b.value).bits.toList, c = '0' ∨ c = '1'
  value : bitsValue (arith op a.value b.value).bits.toList =
    exactResult op a.toNat b.toNat (arithWidth a.value b.value).toNat

/-- Of a shift, the high bits of the operand and of the count do not reach the `w` bits of the
result. -/
def KeepsResult (op : BinaryOp) (m n w : ℕ) : Prop :=
  match op with
  | .shl => n < 64 ∨ 2 ^ w ∣ m * 2 ^ (n % 64)
  | .shr =>
      if n < 64 then ∀ i < w + n, 64 ≤ i → m.testBit i = false
      else ∀ i < w, (m % 2 ^ 64).testBit (i + n % 64) = m.testBit (i + n)
  | _ => True

/-- A shift to the right in 64 bits, bit for bit. -/
lemma shr_mod_eq_iff (m n w : ℕ) :
    m % 2 ^ 64 / 2 ^ (n % 64) % 2 ^ w = m / 2 ^ n % 2 ^ w ↔ KeepsResult .shr m n w := by
  have hbits : m % 2 ^ 64 / 2 ^ (n % 64) % 2 ^ w = m / 2 ^ n % 2 ^ w ↔
      ∀ i < w, (m % 2 ^ 64).testBit (i + n % 64) = m.testBit (i + n) := by
    refine Iff.trans ⟨fun h i => congrArg (Nat.testBit · i) h, Nat.eq_of_testBit_eq⟩
      (forall_congr' fun i => ?_)
    show Nat.testBit _ i = Nat.testBit _ i ↔ _
    rw [Nat.testBit_mod_two_pow, Nat.testBit_mod_two_pow, Nat.testBit_div_two_pow,
      Nat.testBit_div_two_pow]
    by_cases hi : i < w
    · simp [hi]
    · simp [hi]
  rw [hbits, KeepsResult]
  split_ifs with hn
  · -- only the bits from the 64th on are lost
    rw [Nat.mod_eq_of_lt hn]
    constructor
    · intro h i hi h64
      have hbit := h (i - n) (by omega)
      rw [Nat.testBit_mod_two_pow, Nat.sub_add_cancel (by omega),
        decide_eq_false (Nat.not_lt.2 h64), Bool.false_and] at hbit
      exact hbit.symm
    · intro h i hi
      rw [Nat.testBit_mod_two_pow]
      by_cases h64 : i + n < 64
      · rw [decide_eq_true h64, Bool.true_and]
      · rw [h (i + n) (by omega) (Nat.le_of_not_lt h64), Bool.and_false]
  · exact Iff.rfl

/-- Subtraction in 64 bits, at a width of at most 64. -/
lemma sub_mod_eq (m n : ℕ) {w : ℕ} (hw : w ≤ 64) :
    (m % 2 ^ 64 + 2 ^ 64 - n % 2 ^ 64) % 2 ^ w = (((m : ℤ) - n) % (2 ^ w : ℕ)).toNat := by
  have hdvd : ((2 ^ w : ℕ) : ℤ) ∣ 2 ^ 64 := by
    exact_mod_cast pow_dvd_pow 2 hw
  have hlow : ∀ k : ℕ, ((k : ℤ) % 2 ^ 64) ≡ k [ZMOD (2 ^ w : ℕ)] := fun k =>
    (Int.mod_modEq (k : ℤ) (2 ^ 64)).of_dvd hdvd
  have hword : (2 ^ 64 : ℤ) ≡ 0 [ZMOD (2 ^ w : ℕ)] := Int.modEq_zero_iff_dvd.2 hdvd
  have hle : n % 2 ^ 64 ≤ m % 2 ^ 64 + 2 ^ 64 :=
    (Nat.mod_lt n (by decide)).le.trans (Nat.le_add_left _ _)
  have hpos : ((2 ^ w : ℕ) : ℤ) ≠ 0 := by
    exact_mod_cast (Nat.two_pow_pos w).ne'
  have hsub : ((m % 2 ^ 64 + 2 ^ 64 - n % 2 ^ 64 : ℕ) : ℤ) ≡ m - n [ZMOD (2 ^ w : ℕ)] := by
    have hsum := ((hlow m).add hword).sub (hlow n)
    rw [add_zero] at hsum
    rw [Nat.cast_sub hle]
    exact_mod_cast hsum
  refine Int.natCast_inj.1 ?_
  rw [Int.toNat_of_nonneg (Int.emod_nonneg _ hpos), Int.natCast_mod]
  exact hsub

/-- A result of at most 64 bits depends only on the low bits of the word. -/
lemma arithWord_mod_eq_iff (op : BinaryOp) {m n w : ℕ} (hw : w ≤ 64)
    (hword : op = .div ∨ op = .mod → n ≠ 0 ∧ m < 2 ^ 64 ∧ n < 2 ^ 64) :
    arithWord op (m % 2 ^ 64) (n % 2 ^ 64) % 2 ^ w = exactResult op m n w ↔
      KeepsResult op m n w := by
  have hdvd : 2 ^ w ∣ 2 ^ 64 := pow_dvd_pow 2 hw
  have hlow : ∀ k, k % 2 ^ 64 % 2 ^ w = k % 2 ^ w := fun k => Nat.mod_mod_of_dvd k hdvd
  have hcount : n % 2 ^ 64 % 64 = n % 64 := Nat.mod_mod_of_dvd n (by decide)
  cases op with
  | add =>
      refine iff_of_true ?_ trivial
      rw [arithWord, exactResult, hlow, Nat.add_mod, hlow, hlow, ← Nat.add_mod]
  | sub =>
      refine iff_of_true ?_ trivial
      rw [arithWord, exactResult, hlow]
      exact sub_mod_eq m n hw
  | mul =>
      refine iff_of_true ?_ trivial
      rw [arithWord, exactResult, hlow, Nat.mul_mod, hlow, hlow, ← Nat.mul_mod]
  | div =>
      obtain ⟨hzero, hm, hn⟩ := hword (Or.inl rfl)
      refine iff_of_true ?_ trivial
      rw [arithWord, exactResult, Nat.mod_eq_of_lt hm, Nat.mod_eq_of_lt hn, if_neg hzero]
  | mod =>
      obtain ⟨hzero, hm, hn⟩ := hword (Or.inr rfl)
      refine iff_of_true ?_ trivial
      rw [arithWord, exactResult, Nat.mod_eq_of_lt hm, Nat.mod_eq_of_lt hn, if_neg hzero]
  | shl =>
      rw [arithWord, exactResult, hlow, hcount, Nat.mul_mod, hlow, ← Nat.mul_mod, KeepsResult]
      by_cases hn : n < 64
      · rw [Nat.mod_eq_of_lt hn]
        exact iff_of_true rfl (Or.inl hn)
      · -- the exact result is shifted out of the width
        have hexact : m * 2 ^ n % 2 ^ w = 0 :=
          Nat.mod_eq_zero_of_dvd (Dvd.dvd.mul_left (pow_dvd_pow 2 (hw.trans (not_lt.1 hn))) m)
        rw [hexact, ← Nat.dvd_iff_mod_eq_zero, or_iff_right hn]
  | shr =>
      rw [arithWord, exactResult, hcount]
      exact shr_mod_eq_iff m n w
  | _ => exact iff_of_true (Nat.zero_mod _) trivial

/-- The operand has no more bits than its width says, or than a word when it has no width. -/
def KnownVector.Sized (v : KnownVector) : Prop :=
  (v.value.bits.length : ℤ) ≤ if 0 < v.value.width then v.value.width else 64

/-- The operands of a result of at most 64 bits are words. -/
lemma lt_word_of_sized (ha : a.Sized) (hb : b.Sized) (hw : arithWidth a.value b.value ≤ 64) :
    a.toNat < 2 ^ 64 ∧ b.toNat < 2 ^ 64 := by
  have hlt : ∀ v : KnownVector, v.value.bits.length ≤ 64 → v.toNat < 2 ^ 64 := by
    intro v hlen
    refine (bitsValue_lt _).trans_le (Nat.pow_le_pow_right two_pos ?_)
    rwa [String.length_toList]
  unfold KnownVector.Sized at ha hb
  unfold arithWidth at hw
  refine ⟨hlt a ?_, hlt b ?_⟩
  · split_ifs at ha hb hw <;> omega
  · split_ifs at ha hb hw <;> omega

/-- Arithmetic is exact modulo the width of the result exactly if this has 1 to 64 bits and the
bits that a shift drops do not matter. -/
theorem arithExact_iff (op : BinaryOp)
    (hdivision : op = .div ∨ op = .mod → b.toNat ≠ 0 ∧ a.Sized ∧ b.Sized) :
    ArithExact a b op ↔
      0 < arithWidth a.value b.value ∧ arithWidth a.value b.value ≤ 64 ∧
        KeepsResult op a.toNat b.toNat (arithWidth a.value b.value).toNat := by
  have hlist : arithWidth a.value b.value ≤ 64 → (arith op a.value b.value).bits.toList =
      lowBits (if 0 < arithWidth a.value b.value then (arithWidth a.value b.value).toNat else 64)
        (arithWord op (a.toNat % 2 ^ 64) (b.toNat % 2 ^ 64)) := by
    intro hle
    rw [arith_known]
    exact toList_bits_logicValueFromU64 _ hle
  have hword : arithWidth a.value b.value ≤ 64 → op = .div ∨ op = .mod →
      b.toNat ≠ 0 ∧ a.toNat < 2 ^ 64 ∧ b.toNat < 2 ^ 64 := by
    intro hle hop
    obtain ⟨hzero, ha, hb⟩ := hdivision hop
    exact ⟨hzero, lt_word_of_sized a b ha hb hle⟩
  constructor
  · rintro ⟨hdefined, hlength, -, hvalue⟩
    rw [← String.length_toList, hlist hdefined, length_lowBits] at hlength
    have hpos : 0 < arithWidth a.value b.value := by
      by_contra hpos
      rw [if_neg hpos] at hlength
      omega
    rw [hlist hdefined, if_pos hpos, bitsValue_lowBits,
      arithWord_mod_eq_iff op (by omega) (hword hdefined)] at hvalue
    exact ⟨hpos, hdefined, hvalue⟩
  · rintro ⟨hpos, hdefined, hkeeps⟩
    refine ⟨hdefined, ?_, ?_, ?_⟩
    · rw [← String.length_toList, hlist hdefined, length_lowBits, if_pos hpos]
      omega
    · intro c hc
      rw [hlist hdefined] at hc
      exact lowBits_chars hc
    · rw [hlist hdefined, if_pos hpos, bitsValue_lowBits,
        arithWord_mod_eq_iff op (by omega) (hword hdefined)]
      exact hkeeps

/-- A byte modulo 3. -/
theorem byte_mod_exact : ArithExact (KnownVector.ofNat 8 200) (KnownVector.ofNat 8 3) .mod :=
  (arithExact_iff (KnownVector.ofNat 8 200) (KnownVector.ofNat 8 3) .mod fun _ =>
    ⟨by decide, by simp [KnownVector.Sized, KnownVector.ofNat, length_lowBits],
      by simp [KnownVector.Sized, KnownVector.ofNat, length_lowBits]⟩).2
    ⟨by decide, by decide, trivial⟩

/-- A byte shifted by 64 is shifted out, but `arith` does not shift it at all. -/
theorem shift_not_exact : ¬ ∀ (a b : KnownVector) (op : BinaryOp), op.isArith = true →
    (op = .div ∨ op = .mod → b.toNat ≠ 0) → ArithExact a b op := by
  intro h
  have hvalue := (h (KnownVector.ofNat 8 1) (KnownVector.ofNat 8 64) .shl rfl
    (by rintro (h | h) <;> cases h)).value
  revert hvalue
  decide +kernel

end XdebugFst.Expr
