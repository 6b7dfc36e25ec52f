import Mathlib
import XdebugFst.Expr.Numbers

/-!
# Rendered literals

`sv_literal` writes a value as a SystemVerilog literal, and the rows that are written so are read
again by `parse_sv_literal`. The binary and the hexadecimal text of a value of any width are read
as the value. The decimal one passes through a 128-bit accumulator on the way out and through
`strtoull` and a 64-bit word on the way in; it is read as the value up to a width of 64:
`roundTrips_iff`.
-/

namespace XdebugFst.Expr

/-! ### Rendering -/

/-- `nibble_to_hex`. -/
def nibbleToHex (nib : List Char) : Char :=
  if nib.any fun c => c = 'x' || c = 'h' || c = 'u' || c = 'w' || c = '-' then 'x'
  else if nib.any fun c => c = 'z' || c = 'l' then 'z'
  else ['0', '1', '2', '3', '4', '5', '6', '7', '8', '9', 'a', 'b', 'c', 'd', 'e', 'f'].getD
    (nib.foldl (fun v c => shiftIn 1 v (if c = '1' then 1 else 0)) 0 % 16) '0'

/-- The hex digits of a bit string, four bits each. -/
def hexDigits : List Char → List Char
  | [] => []
  | a :: b :: c :: d :: rest => nibbleToHex [a, b, c, d] :: hexDigits rest
  | rest => [nibbleToHex rest]

/-- The number of hex digits. -/
lemma length_hexDigits (bits : List Char) : (hexDigits bits).length = (bits.length + 3) / 4 := by
  induction bits using hexDigits.induct with
  | case1 => rfl
  | case2 a b c d rest ih =>
      rw [hexDigits, List.length_cons, ih]
      simp only [List.length_cons]
      omega
  | case3 rest hnil hcons =>
      rcases rest with _ | ⟨a, _ | ⟨b, _ | ⟨c, _ | ⟨d, rest⟩⟩⟩⟩
      · exact absurd rfl hnil
      · simp [hexDigits]
      · simp [hexDigits]
      · simp [hexDigits]
      · exact absurd rfl (hcons a b c d rest)

/-- `bits_to_decimal`: the accumulator has 128 bits. -/
def bitsToDecimal (bits : List Char) : List Char :=
  Nat.toDigits 10 (bits.foldl (fun acc c => (acc * 2 + if c = '1' then 1 else 0) % 2 ^ 128) 0)

/-- `sv_literal`. -/
def svLiteral (v : LogicValue) (radix : Char) : String :=
  let width := if 0 < v.width then (toString v.width).toList else []
  if radix = 'h' ∨ radix = 'H' then
    let w := if 0 < v.width then v.width.toNat else v.bits.length
    let padded := fitWidth w '0' v.bits.toList
    -- the first group is the short one
    let first := if w % 4 = 0 then 4 else w % 4
    let digits := if padded = [] then []
      else nibbleToHex (padded.take first) :: hexDigits (padded.drop first)
    String.ofList (width ++ '\'' :: radix :: digits)
  else if radix = 'b' ∨ radix = 'B' then String.ofList (width ++ '\'' :: radix :: v.bits.toList)
  else if v.known ∧ v.bits ≠ "" then
    String.ofList (width ++ '\'' :: radix :: bitsToDecimal v.bits.toList)
  else String.ofList (width ++ ['\'', 'b', 'x'])

/-! ### Texts of digits -/

lemma isDigit_of_mem_toDigits (n : ℕ) : ∀ c ∈ Nat.toDigits 10 n, c.isDigit = true := fun _ hc =>
  Nat.isDigit_of_mem_toDigits (by decide) (by decide) hc

lemma isNumberChar_of_mem_toDigits (n : ℕ) : ∀ c ∈ Nat.toDigits 10 n, isNumberChar c = true := by
  intro c hc
  rw [isNumberChar, isDigit_of_mem_toDigits n c hc]
  rfl

lemma toDigits_head?_ne (n : ℕ) : (Nat.toDigits 10 n).head? ≠ some '_' := by
  intro h
  exact absurd (isDigit_of_mem_toDigits n '_' (List.mem_of_head? h)) (by decide)

/-- The digits of a base are digits and lowercase letters. -/
lemma isDigit_or_isLower {base c : Char} (hbase : base ∈ ['b', 'o', 'd', 'h'])
    (h : isRadixDigit base c = true) : c.isDigit = true ∨ c.isLower = true := by
  simp only [List.mem_cons, List.not_mem_nil, or_false] at hbase
  rcases hbase with rfl | rfl | rfl | rfl
  · simp only [isRadixDigit, Bool.or_eq_true, decide_eq_true_eq] at h
    rcases h with ((rfl | rfl) | rfl) | rfl
    · exact Or.inl rfl
    · exact Or.inl rfl
    · exact Or.inr rfl
    · exact Or.inr rfl
  · simp only [isRadixDigit, Bool.and_eq_true, decide_eq_true_eq] at h
    refine Or.inl ?_
    rw [Char.isDigit, Bool.and_eq_true, decide_eq_true_eq, decide_eq_true_eq]
    exact ⟨h.1, UInt32.le_trans h.2 (by decide)⟩
  · exact Or.inl h
  · simp only [isRadixDigit, Bool.or_eq_true, Bool.and_eq_true, decide_eq_true_eq] at h
    rcases h with ((h | h) | rfl) | rfl
    · exact Or.inl h
    · refine Or.inr ?_
      rw [Char.isLower, Bool.and_eq_true, decide_eq_true_eq, decide_eq_true_eq]
      exact ⟨h.1, UInt32.le_trans h.2 (by decide)⟩
    · exact Or.inr rfl
    · exact Or.inr rfl

lemma toLower_base {base : Char} (hbase : base ∈ ['b', 'o', 'd', 'h']) : base.toLower = base := by
  simp only [List.mem_cons, List.not_mem_nil, or_false] at hbase
  rcases hbase with rfl | rfl | rfl | rfl <;> rfl

section Literal

variable {base : Char} {digits : List Char} (hbase : base ∈ ['b', 'o', 'd', 'h'])
  (hdigits : ∀ c ∈ digits, isRadixDigit base c = true)
include hbase hdigits

lemma isAlphanum_digits : ∀ c ∈ digits, (c.isAlphanum || c = '_') = true := by
  intro c hc
  rw [Char.isAlphanum, Char.isAlpha]
  rcases isDigit_or_isLower hbase (hdigits c hc) with h | h
  · simp [h]
  · simp [h]

/-- The digits of a base are already clean. -/
lemma cleanText_radixDigits : cleanText digits = digits := by
  have hlower : ∀ c ∈ digits, c.toLower = c ∧ c ≠ '_' := by
    intro c hc
    rcases isDigit_or_isLower hbase (hdigits c hc) with h | h
    · refine ⟨Char.toLower_eq_of_not_isUpper (isUpper_of_isDigit h), ?_⟩
      rintro rfl
      exact absurd h (by decide)
    · refine ⟨Char.toLower_eq_of_not_isUpper (Char.not_isUpper_of_isLower h), ?_⟩
      rintro rfl
      exact absurd h (by decide)
  rw [cleanText_eq_map_filter, List.filter_eq_self.2 fun c hc => decide_eq_true (hlower c hc).2]
  refine List.map_congr_left (g := id) (fun c hc => (hlower c hc).1) |>.trans (List.map_id _)

/-- What is read of a text with a width, a base and digits of the base. -/
lemma parseSvLiteral_of_digits (hne : digits ≠ []) (n : ℕ) :
    parseSvLiteral (String.ofList (Nat.toDigits 10 n ++ '\'' :: base :: digits)) =
      if base = 'd' then some (logicValueFromU64 (strtoull digits) n)
      else
        some (logicValueFromBits (String.ofList
          (if 0 < n then fitWidth n (if digits.any isXZ then 'x' else '0') (radixBits base digits)
          else radixBits base digits)) n) := by
  have hlower := toLower_base hbase
  have hclean := cleanText_radixDigits hbase hdigits
  let l : BasedLiteral :=
    { width := Nat.toDigits 10 n
      base := base
      digits := digits
      width_start := toDigits_head?_ne n
      width_chars := isNumberChar_of_mem_toDigits n
      base_mem := by rwa [hlower]
      digits_chars := isAlphanum_digits hbase hdigits }
  have hvalid : l.ValidDigits := by
    show cleanText digits ≠ [] ∧ ∀ c ∈ cleanText digits, isRadixDigit base.toLower c = true
    rw [hclean, hlower]
    exact ⟨hne, hdigits⟩
  have hwidth : digitsValue (cleanText l.width) = n := by
    show digitsValue (cleanText (Nat.toDigits 10 n)) = n
    rw [cleanText_digits (isDigit_of_mem_toDigits n), digitsValue_toDigits]
  have hread := l.parseSvLiteral_text
  rw [hwidth, l.parseSvRadix_of_validDigits hvalid] at hread
  have hlclean : l.clean = digits := hclean
  have hlbase : l.base.toLower = base := hlower
  rw [hlclean, hlbase] at hread
  exact hread

end Literal

/-! ### Groups of four bits -/

/-- A digit is read as the group of bits that it was written for, extended to four bits. -/
def ReadsNibble (nib : List Char) : Prop :=
  isRadixDigit 'h' (nibbleToHex nib) = true ∧ isXZ (nibbleToHex nib) = false ∧
    lowBits 4 (hexDigit (nibbleToHex nib)) = List.replicate (4 - nib.length) '0' ++ nib

instance (nib : List Char) : Decidable (ReadsNibble nib) :=
  inferInstanceAs (Decidable (_ ∧ _ ∧ _))

lemma readsNibble {nib : List Char} (h : ∀ c ∈ nib, c = '0' ∨ c = '1') (hlen : nib.length ≤ 4) :
    ReadsNibble nib := by
  have hall : ∀ k ≤ 4, ∀ value < 2 ^ 4, ReadsNibble (lowBits k value) := by decide +kernel
  rw [eq_lowBits h]
  exact hall _ hlen _ ((bitsValue_lt nib).trans_le (Nat.pow_le_pow_right two_pos hlen))

/-- The hex digits of a known bit string are read as the bit string. -/
lemma radixBits_hexDigits {bits : List Char} (h : ∀ c ∈ bits, c = '0' ∨ c = '1')
    (hlen : 4 ∣ bits.length) :
    (∀ c ∈ hexDigits bits, isRadixDigit 'h' c = true ∧ isXZ c = false) ∧
      (hexDigits bits).flatMap (fun c => lowBits 4 (hexDigit c)) = bits := by
  induction bits using hexDigits.induct with
  | case1 => exact ⟨fun c hc => absurd hc List.not_mem_nil, rfl⟩
  | case2 a b c d rest ih =>
      have hrest : 4 ∣ rest.length := by
        simp only [List.length_cons] at hlen
        omega
      obtain ⟨hchars, hbits⟩ := ih (fun e he => h e (by simp [he])) hrest
      obtain ⟨hvalid, hxz, hread⟩ := @readsNibble [a, b, c, d]
        (fun e he => h e (List.mem_append_left rest he)) le_rfl
      rw [hexDigits]
      constructor
      · intro e he
        rcases List.mem_cons.1 he with rfl | he
        · exact ⟨hvalid, hxz⟩
        · exact hchars e he
      · rw [List.flatMap_cons, hbits, hread]
        rfl
  | case3 rest hnil hcons =>
      -- fewer than four bits are not a multiple of four
      exfalso
      match rest, hlen with
      | [], _ => exact hnil rfl
      | [_], hlen => exact absurd hlen (by simp)
      | [_, _], hlen => exact absurd hlen (by simp)
      | [_, _, _], hlen => exact absurd hlen (by simp)
      | a :: b :: c :: d :: rest, _ => exact hcons a b c d rest rfl

lemma lowBits_ne_nil (n value : ℕ) : lowBits (n + 1) value ≠ [] := by
  rw [lowBits_succ]
  exact List.cons_ne_nil _ _

lemma isRadixDigit_of_mem_lowBits (n value : ℕ) :
    ∀ c ∈ lowBits n value, isRadixDigit 'b' c = true := by
  intro c hc
  rcases lowBits_chars hc with rfl | rfl <;> rfl

/-! ### Values and their texts -/

/-- A non-empty bit string, to be taken with its length as the width. -/
structure BitVector where
  bits : List Char
  nonempty : bits ≠ []
  chars : ∀ c ∈ bits, isRadixDigit 'b' c = true

namespace BitVector

variable (v : BitVector)

def width : ℕ := v.bits.length

def value : LogicValue := logicValueFromBits (String.ofList v.bits) v.width

/-- The three texts of a value are read as the value. -/
structure RoundTrips : Prop where
  bin : parseSvLiteral (svLiteral v.value 'b') = some v.value
  hex : v.value.known = true →
    ∃ w, parseSvLiteral (svLiteral v.value 'h') = some w ∧ w.bits = v.value.bits
  /-- `logic_value_from_u64` shifts a 64-bit word by each bit index, which must be below 64. -/
  dec_defined : v.value.known = true → ∀ i < v.width, i < 64
  dec : v.value.known = true →
    ∃ w, parseSvLiteral (svLiteral v.value 'd') = some w ∧ w.bits = v.value.bits

lemma width_pos : 0 < v.width := List.length_pos_iff.2 v.nonempty

lemma width_value : v.value.width = v.width :=
  width_logicValueFromBits (Int.natCast_pos.2 v.width_pos)

lemma toList_bits_value : v.value.bits.toList = v.bits := String.toList_ofList

lemma bits_value_ne : v.value.bits ≠ "" := by
  intro h
  have hlist := v.toList_bits_value
  rw [h] at hlist
  exact v.nonempty hlist.symm

lemma isXZ_or (c : Char) (h : c ∈ v.bits) : isXZ c = true ∨ c = '0' ∨ c = '1' := by
  have hc := v.chars c h
  simp only [isRadixDigit, Bool.or_eq_true, decide_eq_true_eq] at hc
  rcases hc with ((rfl | rfl) | rfl) | rfl
  · exact Or.inr (Or.inl rfl)
  · exact Or.inr (Or.inr rfl)
  · exact Or.inl rfl
  · exact Or.inl rfl

lemma binary_of_known (h : v.value.known = true) : ∀ c ∈ v.bits, c = '0' ∨ c = '1' := by
  intro c hc
  have hany : v.bits.any isXZ = false := by
    have hknown : v.value.known = !v.bits.any isXZ := known_logicValueFromBits_eq v.isXZ_or
    rwa [h, eq_comm, Bool.not_eq_true'] at hknown
  exact (v.isXZ_or c hc).resolve_left (List.any_eq_false.1 hany c hc)

lemma toList_width_value : (if 0 < v.value.width then (toString v.value.width).toList else []) =
    Nat.toDigits 10 v.width := by
  rw [v.width_value, if_pos (Int.natCast_pos.2 v.width_pos), Lib.toList_toString_int,
    if_neg (Int.not_lt.2 (Int.natCast_nonneg _)), Int.natAbs_natCast]

lemma fitWidth_bits (fill : Char) : fitWidth v.width fill v.bits = v.bits := by
  rw [width, fitWidth, Nat.sub_self]
  rfl

/-! ### Reading the texts -/

/-- The binary text of a value. -/
lemma svLiteral_binary : svLiteral v.value 'b' =
    String.ofList (Nat.toDigits 10 v.width ++ '\'' :: 'b' :: v.bits) := by
  rw [svLiteral]
  simp only [v.toList_width_value, v.toList_bits_value]
  rfl

lemma parseSvLiteral_bin : parseSvLiteral (svLiteral v.value 'b') = some v.value := by
  rw [v.svLiteral_binary, parseSvLiteral_of_digits (by simp) v.chars v.nonempty,
    if_neg (by decide), if_pos v.width_pos]
  show some (logicValueFromBits (String.ofList (fitWidth v.width _ v.bits)) _) = _
  rw [v.fitWidth_bits]
  rfl

/-- The size of the first group of the hex digits. -/
def firstNibble : ℕ := if v.width % 4 = 0 then 4 else v.width % 4

lemma firstNibble_le : v.firstNibble ≤ 4 ∧ v.firstNibble ≤ v.width ∧
    4 ∣ v.width - v.firstNibble := by
  have hpos := v.width_pos
  rw [firstNibble]
  split_ifs with h
  · omega
  · omega

/-- The hex digits of the bits, the first of them for the short group. -/
def hexText : List Char :=
  nibbleToHex (v.bits.take v.firstNibble) :: hexDigits (v.bits.drop v.firstNibble)

/-- The hex digits of known bits are known, and they spell the bits after some zeros. -/
lemma hexText_known (hbinary : ∀ c ∈ v.bits, c = '0' ∨ c = '1') :
    (∀ c ∈ v.hexText, isRadixDigit 'h' c = true ∧ isXZ c = false) ∧
      radixBits 'h' v.hexText = List.replicate (4 - (v.bits.take v.firstNibble).length) '0' ++
        v.bits := by
  obtain ⟨hfirst, hwidth, hdvd⟩ := v.firstNibble_le
  obtain ⟨hvalid, hxz, hread⟩ := @readsNibble (v.bits.take v.firstNibble)
    (fun c hc => hbinary c (List.mem_of_mem_take hc)) (by rw [List.length_take]; omega)
  obtain ⟨hchars, hdigits⟩ := @radixBits_hexDigits (v.bits.drop v.firstNibble)
    (fun c hc => hbinary c (List.mem_of_mem_drop hc)) (by rw [List.length_drop]; exact hdvd)
  have hall : ∀ c ∈ v.hexText, isRadixDigit 'h' c = true ∧ isXZ c = false := by
    intro c hc
    rcases List.mem_cons.1 hc with rfl | hc
    · exact ⟨hvalid, hxz⟩
    · exact hchars c hc
  refine ⟨hall, ?_⟩
  have hspread : radixBits 'h' v.hexText = v.hexText.flatMap fun c => lowBits 4 (hexDigit c) := by
    rw [radixBits_eq (Or.inr (Or.inr rfl)) fun c hc => (hall c hc).1]
    refine List.flatMap_congr fun c hc => ?_
    rw [digitBits, (hall c hc).2]
    rfl
  rw [hspread, hexText, List.flatMap_cons, hread, hdigits, List.append_assoc,
    List.take_append_drop]

/-- The hexadecimal text of a value. -/
lemma svLiteral_hexadecimal : svLiteral v.value 'h' =
    String.ofList (Nat.toDigits 10 v.width ++ '\'' :: 'h' :: v.hexText) := by
  rw [svLiteral]
  simp only [v.toList_width_value, v.toList_bits_value]
  simp only [v.width_value, if_pos (Int.natCast_pos.2 v.width_pos), Int.toNat_natCast,
    v.fitWidth_bits, if_neg v.nonempty]
  rfl

lemma parseSvLiteral_hex (hknown : v.value.known = true) :
    ∃ w, parseSvLiteral (svLiteral v.value 'h') = some w ∧ w.bits = v.value.bits := by
  obtain ⟨hall, hspelled⟩ := v.hexText_known (v.binary_of_known hknown)
  have hany : v.hexText.any isXZ = false :=
    List.any_eq_false.2 fun c hc => by rw [(hall c hc).2]; exact Bool.false_ne_true
  rw [v.svLiteral_hexadecimal, parseSvLiteral_of_digits (by simp) (fun c hc => (hall c hc).1)
    (List.cons_ne_nil _ _), if_neg (by decide), if_pos v.width_pos, hany,
    if_neg Bool.false_ne_true, hspelled]
  refine ⟨_, rfl, congrArg String.ofList ?_⟩
  -- the zeros in front of the first group are cut off again
  rw [fitWidth, List.length_append, List.length_replicate, ← width, Nat.add_sub_cancel,
    Nat.sub_eq_zero_of_le (Nat.le_add_left _ _), List.drop_left' List.length_replicate]
  rfl

/-- The accumulator of the decimal text holds the low 128 bits of the number. -/
lemma foldl_accumulator (bits : List Char) (n : ℕ) :
    bits.foldl (fun acc c => (acc * 2 + if c = '1' then 1 else 0) % 2 ^ 128) (n % 2 ^ 128) =
      bits.foldl (fun m c => m * 2 ^ 1 + if c = '1' then 1 else 0) n % 2 ^ 128 := by
  induction bits generalizing n with
  | nil => rfl
  | cons c bits ih =>
      rw [List.foldl_cons, List.foldl_cons, ← ih, Nat.add_mod, Nat.mod_mul_mod, ← Nat.add_mod]
      rfl

lemma bitsToDecimal_eq (bits : List Char) :
    bitsToDecimal bits = Nat.toDigits 10 (bitsValue bits % 2 ^ 128) :=
  congrArg (Nat.toDigits 10) (foldl_accumulator bits 0)

/-- The decimal text of a known value. -/
lemma svLiteral_decimal (hknown : v.value.known = true) : svLiteral v.value 'd' =
    String.ofList (Nat.toDigits 10 v.width ++
      '\'' :: 'd' :: Nat.toDigits 10 (bitsValue v.bits % 2 ^ 128)) := by
  have hne := v.bits_value_ne
  rw [svLiteral]
  simp only [v.toList_width_value, v.toList_bits_value, bitsToDecimal_eq, hknown, ne_eq, hne,
    not_false_eq_true, and_self, if_true]
  rfl

lemma parseSvLiteral_dec (hknown : v.value.known = true) :
    parseSvLiteral (svLiteral v.value 'd') = some (logicValueFromU64
      (min (bitsValue v.bits % 2 ^ 128) (2 ^ 64 - 1)) v.width) := by
  rw [v.svLiteral_decimal hknown, parseSvLiteral_of_digits (by simp) (isDigit_of_mem_toDigits _)
    Nat.toDigits_ne_nil, if_pos rfl, strtoull, digitsValue_toDigits]

/-- A value of at most 64 bits passes through the 64-bit word. -/
lemma parseSvLiteral_dec_of_le (hknown : v.value.known = true) (hwidth : v.width ≤ 64) :
    ∃ w, parseSvLiteral (svLiteral v.value 'd') = some w ∧ w.bits = v.value.bits := by
  have hlt : bitsValue v.bits < 2 ^ 64 :=
    (bitsValue_lt v.bits).trans_le (Nat.pow_le_pow_right two_pos hwidth)
  rw [v.parseSvLiteral_dec hknown, Nat.mod_eq_of_lt (hlt.trans (by decide)),
    min_eq_left (Nat.le_sub_one_of_lt hlt)]
  refine ⟨_, rfl, String.toList_inj.1 ?_⟩
  rw [toList_bits_logicValueFromU64 _ (by exact_mod_cast hwidth), v.toList_bits_value,
    if_pos (Int.natCast_pos.2 v.width_pos), Int.toNat_natCast]
  exact (eq_lowBits (v.binary_of_known hknown)).symm

/-- Literals are read as they were rendered, of every width, except for the decimal text of a
known value of more than 64 bits. -/
theorem roundTrips_iff : v.RoundTrips ↔ (v.value.known = true → v.width ≤ 64) := by
  constructor
  · intro h hknown
    have hlast := h.dec_defined hknown (v.width - 1) (Nat.sub_one_lt v.width_pos.ne')
    omega
  · intro hwidth
    exact ⟨v.parseSvLiteral_bin, v.parseSvLiteral_hex,
      fun hknown i hi => hi.trans_le (hwidth hknown),
      fun hknown => v.parseSvLiteral_dec_of_le hknown (hwidth hknown)⟩

/-- The bits of `2 ^ 64`. -/
def wide : BitVector where
  bits := lowBits 65 (2 ^ 64)
  nonempty := lowBits_ne_nil _ _
  chars := isRadixDigit_of_mem_lowBits _ _

/-- `65'd18446744073709551616` is read as a number whose low bits are all set. -/
theorem wide_not_roundTrips : ¬ ∀ v : BitVector, v.RoundTrips := by
  intro h
  obtain ⟨w, hread, hbits⟩ := (h wide).dec (by decide +kernel)
  have hdec := wide.parseSvLiteral_dec (by decide +kernel)
  rw [hread, Option.some_inj] at hdec
  rw [hdec] at hbits
  revert hbits
  decide +kernel

end BitVector

end XdebugFst.Expr
