import Mathlib
import XdebugFst.Expr.Atoms
import XdebugFst.Expr.Eval

/-!
# Literals

There are two readers of SystemVerilog literals: `parse_const` of the expression parser, and
`parse_sv_literal` of `core/value/logic_value.cpp`, which the filters use. The second one is
modelled here, and the two are compared on every based literal and every plain decimal.

The first one accumulates the digits in 64 bits, checks none of them and leaves an unknown
literal as short as it is written. The second one checks the digits, spells all of them out
and then cuts or extends. `literalsAgree_iff` says on which literals the two still agree.
-/

namespace XdebugFst.Expr

/-! ### The second reader -/

/-- `strtoull` in base sixteen: blanks, a sign and a second `0x` are allowed in front. -/
def strtoullHex (text : List Char) : ℕ :=
  let isHex (c : Char) : Bool := c.isDigit || ('a' ≤ c && c ≤ 'f')
  let (negative, rest) := match skipWs text with
    | '-' :: rest => (true, rest)
    | '+' :: rest => (false, rest)
    | rest => (false, rest)
  let digits := match rest with
    | '0' :: 'x' :: c :: rest => if isHex c then c :: rest else '0' :: 'x' :: c :: rest
    | rest => rest
  let value := (digits.takeWhile isHex).foldl (fun n c => 16 * n + hexDigit c) 0
  if 2 ^ 64 ≤ value then 2 ^ 64 - 1 else if negative then (2 ^ 64 - value) % 2 ^ 64 else value

/-- An unknown digit. -/
def isXZ (c : Char) : Bool := c = 'x' || c = 'z'

/-- The digits that a base allows. -/
def isRadixDigit (base c : Char) : Bool :=
  match base with
  | 'b' => c = '0' || c = '1' || c = 'x' || c = 'z'
  | 'h' => c.isDigit || ('a' ≤ c && c ≤ 'f') || c = 'x' || c = 'z'
  | 'o' => '0' ≤ c && c ≤ '7'
  | _ => c.isDigit

/-- The bits that the digits of a binary, hexadecimal or octal literal spell. -/
def radixBits (base : Char) (digits : List Char) : List Char :=
  match base with
  | 'b' => digits
  | 'h' => digits.flatMap fun c =>
      if c = 'x' ∨ c = 'z' then List.replicate 4 c else lowBits 4 (hexDigit c)
  | _ => digits.flatMap fun c => lowBits 3 (c.toNat - '0'.toNat)

/-- The part of a literal behind the tick. -/
def parseSvRadix (width : ℤ) (text : List Char) : Option LogicValue :=
  match text with
  | [] => none
  | base :: digits =>
      if digits = [] then none
      else if base ≠ 'h' ∧ base ≠ 'b' ∧ base ≠ 'd' ∧ base ≠ 'o' then none
      else if !digits.all (isRadixDigit base) then none
      else if base = 'd' then some (logicValueFromU64 (strtoull digits) width)
      else
        let bits := radixBits base digits
        let fill := if digits.any isXZ then 'x' else '0'
        let bits := if 0 < width then fitWidth width.toNat fill bits else bits
        some (logicValueFromBits (String.ofList bits) width)

/-- A literal without a tick: a number in base sixteen or ten, or a bare bit string. -/
def parseSvPlain (clean : List Char) : Option LogicValue :=
  if 2 < clean.length ∧ clean.take 2 = ['0', 'x'] then
    some (logicValueFromU64 (strtoullHex (clean.drop 2)) 0)
  else if clean.all Char.isDigit then some (logicValueFromU64 (strtoull clean) 0)
  else if clean.all (isRadixDigit 'b') then
    some (logicValueFromBits (String.ofList clean) clean.length)
  else none

/-- Lowercase, and without underscores. -/
def cleanText (text : List Char) : List Char := (text.map Char.toLower).filter (· ≠ '_')

/-- `parse_sv_literal`. -/
def parseSvLiteral (text : String) : Option LogicValue :=
  let clean := cleanText text.toList
  if clean = [] then none
  else
    match clean.dropWhile (· ≠ '\'') with
    | [] => parseSvPlain clean
    | _ :: afterTick =>
        let wstr := clean.takeWhile (· ≠ '\'')
        if wstr.all Char.isDigit then parseSvRadix (atoi wstr) afterTick else none

/-! ### The texts -/

/-- A digit of a number, or an underscore between its digits. -/
def isNumberChar (c : Char) : Bool := c.isDigit || c = '_'

/-- A based literal as it is written. The width may be left out. Its digits are letters and
digits here, whether the base allows them or not. -/
structure BasedLiteral where
  width : List Char
  base : Char
  digits : List Char
  width_start : width.head? ≠ some '_'
  width_chars : ∀ c ∈ width, isNumberChar c = true
  base_mem : base.toLower ∈ ['b', 'o', 'd', 'h']
  digits_chars : ∀ c ∈ digits, (c.isAlphanum || c = '_') = true

/-- A plain decimal as it is written. -/
structure DecimalLiteral where
  first : Char
  rest : List Char
  first_digit : first.isDigit = true
  rest_chars : ∀ c ∈ rest, isNumberChar c = true

def BasedLiteral.text (l : BasedLiteral) : String :=
  String.ofList (l.width ++ '\'' :: l.base :: l.digits)

def DecimalLiteral.text (l : DecimalLiteral) : String := String.ofList (l.first :: l.rest)

/-- A literal of either form. -/
inductive SvLiteral
  | based (literal : BasedLiteral)
  | decimal (literal : DecimalLiteral)

def SvLiteral.text : SvLiteral → String
  | based literal => literal.text
  | decimal literal => literal.text

/-- The bits of a value, extended to its width: with zeros when it is known, and with `x`
otherwise. -/
def LogicValue.extendedBits (v : LogicValue) : List Char :=
  List.replicate (v.width.toNat - v.bits.length) (if v.known then '0' else 'x') ++ v.bits.toList

/-- Both readers accept the text, with the same value, or neither does. -/
structure LiteralsAgree (text : String) : Prop where
  accept : (∃ v, parseExpression text = .ok (.const v)) ↔ (parseSvLiteral text).isSome = true
  same : ∀ v w, parseExpression text = .ok (.const v) → parseSvLiteral text = some w →
    v.width = w.width ∧ LogicValue.extendedBits v = LogicValue.extendedBits w ∧ v.known = w.known
  /-- `logic_value_from_u64` shifts its 64-bit word by less than 64. -/
  defined : ∀ v, parseExpression text = .ok (.const v) → v.known = true → v.width ≤ 64

/-! ### Where the readers agree -/

/-- The bits that one digit of the base stands for. -/
def radixShift (base : Char) : ℕ := if base = 'b' then 1 else if base = 'o' then 3 else 4

/-- The number that known digits denote. -/
def radixNumber (shift : ℕ) (digits : List Char) : ℕ :=
  digits.foldl (fun n c => n * 2 ^ shift + hexDigit c) 0

namespace BasedLiteral

variable (l : BasedLiteral)

/-- The digits without underscores, in lowercase. -/
def clean : List Char := cleanText l.digits

/-- The number of the width; it is zero when there is none. -/
def widthValue : ℕ := digitsValue l.width

/-- The expression parser takes the text before the tick as a width: it has digits only, and
at most nine. -/
def PlainWidth : Prop := (∀ c ∈ l.width, c.isDigit = true) ∧ l.width.length ≤ 9

/-- There is a digit, and the base allows all of them. -/
def ValidDigits : Prop :=
  l.clean ≠ [] ∧ ∀ c ∈ l.clean, isRadixDigit l.base.toLower c = true

/-- The digits of which the width keeps at least one bit. -/
def keptDigits : List Char :=
  let shift := radixShift l.base.toLower
  l.clean.drop (l.clean.length - (l.widthValue + shift - 1) / shift)

/-- Nothing is lost of a literal that both readers accept. It has a width unless it is a decimal
one, which is read by the same code. Unknown digits must not all be cut off, and known digits
must have a width of at most 64 bits. -/
def Fits : Prop :=
  (l.base.toLower = 'd' ∨ 0 < l.widthValue) ∧
    if l.clean.any isXZ then l.keptDigits.any isXZ = true else l.widthValue ≤ 64

/-- Both readers accept the literal and nothing is lost, or both refuse it. -/
def Consistent : Prop :=
  l.PlainWidth ∧ l.ValidDigits ∧ l.Fits ∨ ¬ l.PlainWidth ∧ ¬ l.ValidDigits

end BasedLiteral

/-- The condition of a literal of either form: a plain decimal has no underscore. -/
def SvLiteral.Consistent : SvLiteral → Prop
  | based literal => literal.Consistent
  | decimal literal => '_' ∉ literal.rest

/-! ### Bits of numbers -/

lemma length_lowBits (n value : ℕ) : (lowBits n value).length = n := by
  rw [lowBits, List.length_map, List.length_reverse, List.length_range]

lemma lowBits_succ (n value : ℕ) :
    lowBits (n + 1) value = (if value.testBit n then '1' else '0') :: lowBits n value := by
  rw [lowBits, List.range_succ, List.reverse_append, List.map_append]
  rfl

lemma lowBits_eq_iff (n a b : ℕ) :
    lowBits n a = lowBits n b ↔ ∀ i < n, a.testBit i = b.testBit i := by
  induction n with
  | zero => exact ⟨fun _ i hi => absurd hi (Nat.not_lt_zero i), fun _ => rfl⟩
  | succ n ih =>
      have hhead : (if a.testBit n then '1' else '0') = (if b.testBit n then '1' else '0') ↔
          a.testBit n = b.testBit n := by
        cases a.testBit n <;> cases b.testBit n <;> decide
      rw [lowBits_succ, lowBits_succ, List.cons_eq_cons, hhead, ih]
      constructor
      · rintro ⟨hn, hlt⟩ i hi
        rcases Nat.lt_succ_iff_lt_or_eq.1 hi with hi | rfl
        · exact hlt i hi
        · exact hn
      · intro h
        exact ⟨h n n.lt_succ_self, fun i hi => h i (Nat.lt_succ_of_lt hi)⟩

/-- The high bits come first. -/
lemma lowBits_add (m n value : ℕ) :
    lowBits (m + n) value = lowBits m (value / 2 ^ n) ++ lowBits n value := by
  induction m with
  | zero => rw [Nat.zero_add]; rfl
  | succ m ih =>
      rw [Nat.succ_add, lowBits_succ, lowBits_succ, ih, Nat.testBit_div_two_pow, List.cons_append,
        Nat.add_comm m n]

lemma lowBits_zero_right (n : ℕ) : lowBits n 0 = List.replicate n '0' := by
  induction n with
  | zero => rfl
  | succ n ih =>
      rw [lowBits_succ, ih, Nat.zero_testBit, List.replicate_succ]
      rfl

lemma lowBits_mul_add (m n value : ℕ) {digit : ℕ} (h : digit < 2 ^ n) :
    lowBits (m + n) (value * 2 ^ n + digit) = lowBits m value ++ lowBits n digit := by
  have hdiv : (value * 2 ^ n + digit) / 2 ^ n = value := by
    rw [Nat.mul_comm, Nat.mul_add_div (Nat.two_pow_pos n), Nat.div_eq_of_lt h, Nat.add_zero]
  have hlow : lowBits n (value * 2 ^ n + digit) = lowBits n digit := by
    refine (lowBits_eq_iff n _ _).2 fun i hi => ?_
    rw [Nat.mul_comm, Nat.testBit_two_pow_mul_add value h, if_pos hi]
  rw [lowBits_add, hdiv, hlow]

/-- Cutting or extending the bits of a number gives its bits at the new width. -/
lemma fitWidth_lowBits (w : ℕ) {n value : ℕ} (h : value < 2 ^ n) :
    fitWidth w '0' (lowBits n value) = lowBits w value := by
  rw [fitWidth, length_lowBits]
  rcases le_total w n with hwn | hnw
  · obtain ⟨m, rfl⟩ := Nat.exists_eq_add_of_le' hwn
    rw [Nat.sub_eq_zero_of_le hwn, lowBits_add m w, Nat.add_sub_cancel,
      List.drop_left' (length_lowBits _ _)]
    rfl
  · obtain ⟨m, rfl⟩ := Nat.exists_eq_add_of_le' hnw
    rw [Nat.sub_eq_zero_of_le hnw, Nat.add_sub_cancel, lowBits_add m n, Nat.div_eq_of_lt h,
      lowBits_zero_right]
    rfl

lemma lowBits_chars {n value : ℕ} {c : Char} (h : c ∈ lowBits n value) : c = '0' ∨ c = '1' := by
  rw [lowBits] at h
  obtain ⟨i, -, rfl⟩ := List.mem_map.1 h
  split_ifs
  · exact Or.inr rfl
  · exact Or.inl rfl

/-- Shifting a digit in keeps the low 64 bits of the number. -/
lemma shiftIn_mod {shift digit : ℕ} (hshift : shift ≤ 64) (h : digit < 2 ^ shift) (n : ℕ) :
    shiftIn shift (n % 2 ^ 64) digit = (n * 2 ^ shift + digit) % 2 ^ 64 := by
  refine Nat.eq_of_testBit_eq fun i => ?_
  rw [shiftIn, Nat.testBit_or, Nat.testBit_mod_two_pow, Nat.testBit_mod_two_pow,
    Nat.testBit_mul_two_pow, Nat.testBit_mod_two_pow, Nat.mul_comm n,
    Nat.testBit_two_pow_mul_add n h]
  by_cases hi : i < shift
  · rw [if_pos hi, decide_eq_false (Nat.not_le.2 hi), decide_eq_true (lt_of_lt_of_le hi hshift)]
    simp
  · have hdigit : digit.testBit i = false :=
      Nat.testBit_lt_two_pow (lt_of_lt_of_le h (Nat.pow_le_pow_right two_pos (Nat.le_of_not_lt hi)))
    rw [if_neg hi, hdigit, decide_eq_true (Nat.le_of_not_lt hi)]
    by_cases hi64 : i < 64
    · rw [decide_eq_true (show i - shift < 64 by omega)]
      simp
    · simp [hi64]

section Digits

variable {shift : ℕ} {value : Char → ℕ} {digits : List Char}

lemma foldl_shiftIn (hshift : shift ≤ 64) (h : ∀ c ∈ digits, value c < 2 ^ shift) (n : ℕ) :
    digits.foldl (fun v c => shiftIn shift v (value c)) (n % 2 ^ 64) =
      digits.foldl (fun v c => v * 2 ^ shift + value c) n % 2 ^ 64 := by
  induction digits generalizing n with
  | nil => rfl
  | cons c digits ih =>
      rw [List.foldl_cons, List.foldl_cons, shiftIn_mod hshift (h c List.mem_cons_self)]
      exact ih (fun d hd => h d (List.mem_cons_of_mem c hd)) _

/-- Digits written one after the other are the bits of their number. -/
lemma flatMap_lowBits (h : ∀ c ∈ digits, value c < 2 ^ shift) :
    digits.flatMap (fun c => lowBits shift (value c)) = lowBits (shift * digits.length)
        (digits.foldl (fun v c => v * 2 ^ shift + value c) 0) ∧
      digits.foldl (fun v c => v * 2 ^ shift + value c) 0 < 2 ^ (shift * digits.length) := by
  induction digits using List.reverseRecOn with
  | nil => exact ⟨rfl, Nat.one_pos⟩
  | append_singleton digits c ih =>
      obtain ⟨hbits, hlt⟩ := ih fun d hd => h d (List.mem_append_left _ hd)
      have hc := h c (List.mem_append_right _ List.mem_cons_self)
      rw [List.flatMap_append, List.foldl_append, hbits, List.length_append, List.length_singleton,
        Nat.mul_add, Nat.mul_one]
      constructor
      · rw [List.foldl_cons, List.foldl_nil, lowBits_mul_add _ _ _ hc, List.flatMap_singleton]
      · rw [List.foldl_cons, List.foldl_nil, Nat.pow_add]
        calc _ < digits.foldl (fun v c => v * 2 ^ shift + value c) 0 * 2 ^ shift + 2 ^ shift := by
              exact Nat.add_lt_add_left hc _
          _ = (digits.foldl (fun v c => v * 2 ^ shift + value c) 0 + 1) * 2 ^ shift := by ring
          _ ≤ _ := Nat.mul_le_mul_right _ hlt

end Digits

/-! ### Reading the texts -/

lemma toLower_eq_underscore (c : Char) : c.toLower = '_' ↔ c = '_' := by
  by_cases h : c.isUpper = true
  · have hlower : c.toLower.isLower = true := by
      rw [Char.isLower_toLower_eq_isAlpha, Char.isAlpha, h, Bool.true_or]
    constructor
    · rintro heq
      rw [heq] at hlower
      exact absurd hlower (by decide)
    · rintro rfl
      rfl
  · rw [Char.toLower_eq_of_not_isUpper h]

lemma cleanText_append (a b : List Char) : cleanText (a ++ b) = cleanText a ++ cleanText b := by
  rw [cleanText, List.map_append, List.filter_append]
  rfl

/-- The underscores can be removed first. -/
lemma cleanText_eq_map_filter (text : List Char) :
    cleanText text = (text.filter (· ≠ '_')).map Char.toLower := by
  rw [cleanText, List.filter_map]
  congr 2
  funext c
  exact decide_eq_decide.2 (toLower_eq_underscore c).not

lemma isUpper_of_isDigit {c : Char} (h : c.isDigit = true) : ¬ c.isUpper = true := by
  intro hupper
  rw [Char.isDigit, Bool.and_eq_true, decide_eq_true_eq, decide_eq_true_eq] at h
  rw [Char.isUpper, decide_eq_true_eq] at hupper
  exact absurd (UInt32.le_trans hupper.1 h.2) (by decide)

section Numbers

variable {text : List Char}

/-- Cleaning a number removes its underscores. -/
lemma cleanText_number (h : ∀ c ∈ text, isNumberChar c = true) :
    cleanText text = text.filter (· ≠ '_') := by
  rw [cleanText_eq_map_filter]
  refine List.map_congr_left (g := id) (fun c hc => ?_) |>.trans (List.map_id _)
  obtain ⟨hmem, hne⟩ := List.mem_filter.1 hc
  have hdigit : c.isDigit = true := by
    have := h c hmem
    rw [isNumberChar, Bool.or_eq_true] at this
    exact this.resolve_right fun heq => absurd (of_decide_eq_true heq) (of_decide_eq_true hne)
  exact Char.toLower_eq_of_not_isUpper (isUpper_of_isDigit hdigit)

lemma isDigit_of_mem_cleanText (h : ∀ c ∈ text, isNumberChar c = true) {c : Char}
    (hc : c ∈ cleanText text) : c.isDigit = true := by
  rw [cleanText_number h, List.mem_filter] at hc
  have hchar := h c hc.1
  rw [isNumberChar, Bool.or_eq_true] at hchar
  exact hchar.resolve_right fun heq => absurd (of_decide_eq_true heq) (of_decide_eq_true hc.2)

lemma cleanText_digits (h : ∀ c ∈ text, c.isDigit = true) : cleanText text = text := by
  rw [cleanText_number fun c hc => by rw [isNumberChar, h c hc, Bool.true_or],
    List.filter_eq_self]
  rintro c hc
  refine decide_eq_true ?_
  rintro rfl
  exact absurd (h '_' hc) (by decide)

lemma atoi_digits (h : ∀ c ∈ text, c.isDigit = true) : atoi text = digitsValue text := by
  cases text with
  | nil => rfl
  | cons c rest =>
      have hc := h c List.mem_cons_self
      rw [atoi, skipWs_cons (isSpace_of_isDigit hc)]
      split
      · rename_i heq
        obtain rfl := (List.cons.inj heq).1
        exact absurd hc (by decide)
      · rename_i heq
        obtain rfl := (List.cons.inj heq).1
        exact absurd hc (by decide)
      · rfl

/-- Behind the leading digits of a number there is an underscore, or what follows it. -/
lemma dropWhile_isDigit_number (h : ∀ c ∈ text, isNumberChar c = true) {rest : List Char}
    (hrest : EndsOperand rest) (hdigit : rest.dropWhile Char.isDigit = rest) :
    EndsOperand ((text ++ rest).dropWhile Char.isDigit) := by
  induction text with
  | nil =>
      rw [List.nil_append, hdigit]
      exact hrest
  | cons c text ih =>
      have hc := h c List.mem_cons_self
      rw [isNumberChar, Bool.or_eq_true, decide_eq_true_eq] at hc
      by_cases hd : c.isDigit = true
      · rw [List.cons_append, List.dropWhile_cons_of_pos hd]
        exact ih fun d hd => h d (List.mem_cons_of_mem c hd)
      · obtain rfl := hc.resolve_left hd
        rw [List.cons_append, List.dropWhile_cons_of_neg hd]
        simp [EndsOperand]

end Numbers

/-- What starts with a digit or a tick is a constant. -/
lemma parsePrimary_of_literal {c : Char} (h : c.isDigit = true ∨ c = '\'') (rest : List Char)
    (fuel : ℕ) : parsePrimary (fuel + 1) (c :: rest) = parseConst (c :: rest) := by
  have hspace : isSpace c = false := by
    rcases h with h | rfl
    · exact isSpace_of_isDigit h
    · decide
  have hstart : isIdentStart c = false := by
    rcases h with h | rfl
    · rw [isIdentStart, Char.isAlpha, Bool.or_eq_false_iff, Bool.or_eq_false_iff]
      refine ⟨⟨Bool.eq_false_iff.2 (isUpper_of_isDigit h), ?_⟩, ?_⟩
      · rw [Char.isDigit, Bool.and_eq_true, decide_eq_true_eq, decide_eq_true_eq] at h
        rw [Char.isLower, Bool.and_eq_false_iff, decide_eq_false_iff_not]
        exact Or.inl fun hle => absurd (UInt32.le_trans hle h.2) (by decide)
      · refine decide_eq_false ?_
        rintro rfl
        exact absurd h (by decide)
    · decide
  have hident : parseIdentifier (c :: rest) = ([], c :: rest) := by
    rw [parseIdentifier, skipWs_cons hspace]
    show (if isIdentStart c = true then _ else _) = _
    rw [hstart]
    rfl
  have hne : ∀ d : Char, d.isDigit = false → d ≠ '\'' → c ≠ d := by
    rintro d hd htick rfl
    rcases h with h | h
    · rw [h] at hd
      cases hd
    · exact htick h
  rw [parsePrimary, skipWs_cons hspace]
  split
  · rename_i heq
    exact absurd (List.cons.inj heq).1 (hne _ (by decide) (by decide))
  · rename_i heq
    exact absurd (List.cons.inj heq).1 (hne _ (by decide) (by decide))
  · rename_i heq
    exact absurd (List.cons.inj heq).1 (hne _ (by decide) (by decide))
  · rename_i heq
    exact absurd (List.cons.inj heq).1 (hne _ (by decide) (by decide))
  · rw [hident]

lemma parseDecimal_cons {c : Char} (h : c.isDigit = true) (rest : List Char) :
    parseDecimal (c :: rest) =
      .ok (.const (logicValueFromU64 (strtoull ((c :: rest).takeWhile Char.isDigit)) 0),
        (c :: rest).dropWhile Char.isDigit) := by
  have hnum : (c :: rest).takeWhile Char.isDigit ≠ [] := by
    rw [List.takeWhile_cons_of_pos h]
    exact List.cons_ne_nil _ _
  rw [parseDecimal]
  exact if_neg hnum

lemma takeWhile_tick {a : List Char} (h : '\'' ∉ a) (rest : List Char) :
    (a ++ '\'' :: rest).takeWhile (· ≠ '\'') = a ∧
      (a ++ '\'' :: rest).dropWhile (· ≠ '\'') = '\'' :: rest := by
  have hall : ∀ c ∈ a, decide (c ≠ '\'') = true := by
    rintro c hc
    refine decide_eq_true ?_
    rintro rfl
    exact h hc
  rw [List.takeWhile_append_of_pos hall, List.dropWhile_append_of_pos hall,
    List.takeWhile_cons_of_neg (by decide), List.dropWhile_cons_of_neg (by decide),
    List.append_nil]
  exact ⟨rfl, rfl⟩

namespace BasedLiteral

variable (l : BasedLiteral)

lemma toList_text : l.text.toList = l.width ++ '\'' :: l.base :: l.digits := by
  exact String.toList_ofList

lemma tick_notMem_width : '\'' ∉ l.width := by
  intro h
  exact absurd (l.width_chars _ h) (by decide)

/-- A literal starts with a digit of its width, or with the tick. -/
lemma exists_cons : ∃ c rest, l.text.toList = c :: rest ∧ (c.isDigit = true ∨ c = '\'') := by
  rw [l.toList_text]
  rcases hwidth : l.width with _ | ⟨c, width⟩
  · exact ⟨_, _, rfl, Or.inr rfl⟩
  · refine ⟨c, _, rfl, Or.inl ?_⟩
    have hstart := l.width_start
    have hc := l.width_chars c (hwidth ▸ List.mem_cons_self)
    rw [hwidth, List.head?_cons] at hstart
    rw [isNumberChar, Bool.or_eq_true, decide_eq_true_eq] at hc
    exact hc.resolve_right fun heq => hstart (congrArg some heq)

lemma skipWs_text : skipWs l.text.toList = l.text.toList := by
  obtain ⟨c, rest, hcons, hc⟩ := l.exists_cons
  rw [hcons]
  refine skipWs_cons ?_ rest
  rcases hc with hc | rfl
  · exact isSpace_of_isDigit hc
  · decide

lemma parsePrimary_text : parsePrimary (l.text.toList.length + 1) l.text.toList =
    parseConst l.text.toList := by
  obtain ⟨c, rest, hcons, hc⟩ := l.exists_cons
  rw [hcons]
  exact parsePrimary_of_literal hc rest _

lemma base_eq : l.base.toLower = 'b' ∨ l.base.toLower = 'o' ∨ l.base.toLower = 'd' ∨
    l.base.toLower = 'h' := by
  have h := l.base_mem
  simpa only [List.mem_cons, List.not_mem_nil, or_false] using h

lemma parseBased_eq (width : ℕ) : parseBased width (l.base :: l.digits) =
    some (some (parseRadix l.clean l.base.toLower width, [])) := by
  have hs : l.base.toLower ≠ 's' := by
    rcases l.base_eq with h | h | h | h
    all_goals
      rw [h]
      decide
  have hbase : l.base.toLower = 'h' ∨ l.base.toLower = 'b' ∨ l.base.toLower = 'd' ∨
      l.base.toLower = 'o' := by
    rcases l.base_eq with h | h | h | h
    · exact Or.inr (Or.inl h)
    · exact Or.inr (Or.inr (Or.inr h))
    · exact Or.inr (Or.inr (Or.inl h))
    · exact Or.inl h
  simp only [parseBased, if_neg hs, if_pos hbase, clean, cleanText_eq_map_filter]
  rw [List.takeWhile_eq_self_iff.2 l.digits_chars, List.dropWhile_eq_nil_iff.2 l.digits_chars]

/-- The expression parser reads a literal with a plain width to its end. -/
lemma parseConst_text (h : l.PlainWidth) : parseConst l.text.toList =
    .ok (.const (parseRadix l.clean l.base.toLower l.widthValue), []) := by
  obtain ⟨htake, hdrop⟩ := takeWhile_tick l.tick_notMem_width (l.base :: l.digits)
  rw [parseConst]
  simp only [l.skipWs_text]
  rw [l.toList_text, htake, hdrop]
  dsimp only
  rw [if_pos ⟨List.all_eq_true.2 h.1, h.2⟩, atoi_digits h.1, Int.toNat_natCast, l.parseBased_eq]
  rfl

lemma parseExpression_of_plainWidth (h : l.PlainWidth) : parseExpression l.text =
    .ok (.const (parseRadix l.clean l.base.toLower l.widthValue)) := by
  refine parseExpression_of_primary ?_
  rw [l.parsePrimary_text, l.parseConst_text h]

/-- It takes any other width for a number, which the tick or an underscore follows. -/
lemma parseExpression_of_not_plainWidth (h : ¬ l.PlainWidth) :
    ∃ message, parseExpression l.text = .error message := by
  obtain ⟨htake, hdrop⟩ := takeWhile_tick l.tick_notMem_width (l.base :: l.digits)
  have hwidth : ¬ (l.width.all Char.isDigit = true ∧ l.width.length ≤ 9) := by
    rintro ⟨hall, hlen⟩
    exact h ⟨List.all_eq_true.1 hall, hlen⟩
  obtain ⟨c, rest, hcons, hc⟩ := l.exists_cons
  have hdigit : c.isDigit = true := by
    refine hc.resolve_right ?_
    rintro rfl
    -- without a width the width is plain
    rw [l.toList_text] at hcons
    rcases hnil : l.width with _ | ⟨d, width⟩
    · rw [hnil] at hwidth
      exact hwidth ⟨rfl, Nat.zero_le _⟩
    · rw [hnil, List.cons_append] at hcons
      exact l.tick_notMem_width (hnil ▸ (List.cons.inj hcons).1 ▸ List.mem_cons_self)
  have hconst : parseConst l.text.toList = parseDecimal (c :: rest) := by
    rw [parseConst]
    simp only [l.skipWs_text]
    rw [l.toList_text, htake, hdrop]
    dsimp only
    rw [if_neg hwidth, ← l.toList_text, hcons]
  have hends : EndsOperand (l.text.toList.dropWhile Char.isDigit) := by
    rw [l.toList_text]
    exact dropWhile_isDigit_number l.width_chars (by simp [EndsOperand])
      (List.dropWhile_cons_of_neg (by decide))
  have hprimary := l.parsePrimary_text.trans (hconst.trans (parseDecimal_cons hdigit rest))
  rw [← hcons] at hprimary
  refine parseExpression_of_trailing hprimary hends ?_
  intro hnil
  have hall := List.dropWhile_eq_nil_iff.1 hnil '\'' (by rw [l.toList_text]; simp)
  exact absurd hall (by decide)

/-- The second reader comes to the digits of every literal. -/
lemma parseSvLiteral_text : parseSvLiteral l.text =
    parseSvRadix (digitsValue (cleanText l.width)) (l.base.toLower :: l.clean) := by
  have hbase : l.base.toLower ≠ '_' := by
    rcases l.base_eq with h | h | h | h
    all_goals
      rw [h]
      decide
  have hclean : cleanText l.text.toList =
      cleanText l.width ++ '\'' :: l.base.toLower :: l.clean := by
    rw [l.toList_text, cleanText_append]
    refine congrArg _ ?_
    rw [cleanText, List.map_cons, List.filter_cons_of_pos (by decide), List.map_cons,
      List.filter_cons_of_pos (by exact decide_eq_true hbase)]
    rfl
  have hdigits : ∀ c ∈ cleanText l.width, c.isDigit = true := fun c hc =>
    isDigit_of_mem_cleanText l.width_chars hc
  have htick : '\'' ∉ cleanText l.width := fun hmem => absurd (hdigits _ hmem) (by decide)
  obtain ⟨htake, hdrop⟩ := takeWhile_tick htick (l.base.toLower :: l.clean)
  rw [parseSvLiteral]
  simp only [hclean]
  rw [htake, hdrop, if_neg (by simp)]
  dsimp only
  rw [if_pos (List.all_eq_true.2 hdigits), atoi_digits hdigits]

lemma widthValue_eq (h : l.PlainWidth) : digitsValue (cleanText l.width) = l.widthValue := by
  rw [cleanText_digits h.1]
  rfl

end BasedLiteral

namespace DecimalLiteral

variable (l : DecimalLiteral)

lemma toList_text : l.text.toList = l.first :: l.rest := String.toList_ofList

lemma text_chars : ∀ c ∈ l.text.toList, isNumberChar c = true := by
  rw [l.toList_text]
  rintro c (_ | ⟨_, hc⟩)
  · rw [isNumberChar, l.first_digit, Bool.true_or]
  · exact l.rest_chars c hc

/-- The expression parser reads the leading digits. -/
lemma parsePrimary_text : parsePrimary (l.text.toList.length + 1) l.text.toList =
    .ok (.const (logicValueFromU64 (strtoull (l.text.toList.takeWhile Char.isDigit)) 0),
      l.text.toList.dropWhile Char.isDigit) := by
  have htick : l.text.toList.dropWhile (· ≠ '\'') = [] := by
    refine List.dropWhile_eq_nil_iff.2 fun c hc => decide_eq_true ?_
    rintro rfl
    exact absurd (l.text_chars _ hc) (by decide)
  have hws : skipWs l.text.toList = l.text.toList := by
    rw [l.toList_text]
    exact skipWs_cons (isSpace_of_isDigit l.first_digit) _
  have hprimary : parsePrimary (l.text.toList.length + 1) l.text.toList =
      parseConst l.text.toList := by
    rw [l.toList_text]
    exact parsePrimary_of_literal (Or.inl l.first_digit) _ _
  rw [hprimary, parseConst]
  simp only [hws]
  rw [htick]
  dsimp only
  rw [l.toList_text]
  exact parseDecimal_cons l.first_digit l.rest

/-- The second reader reads the number without its underscores. -/
lemma parseSvLiteral_text : parseSvLiteral l.text =
    some (logicValueFromU64 (strtoull (cleanText l.text.toList)) 0) := by
  have hdigits : ∀ c ∈ cleanText l.text.toList, c.isDigit = true := fun c hc =>
    isDigit_of_mem_cleanText l.text_chars hc
  have hne : cleanText l.text.toList ≠ [] := by
    rw [cleanText_number l.text_chars, l.toList_text]
    refine List.ne_nil_of_mem (List.mem_filter.2 ⟨List.mem_cons_self, decide_eq_true ?_⟩)
    intro heq
    exact absurd (heq ▸ l.first_digit) (by decide)
  have htick : (cleanText l.text.toList).dropWhile (· ≠ '\'') = [] := by
    refine List.dropWhile_eq_nil_iff.2 fun c hc => decide_eq_true ?_
    rintro rfl
    exact absurd (hdigits _ hc) (by decide)
  have hhex : ¬ (2 < (cleanText l.text.toList).length ∧
      (cleanText l.text.toList).take 2 = ['0', 'x']) := by
    rintro ⟨-, htake⟩
    have hx : 'x' ∈ (cleanText l.text.toList).take 2 := by
      rw [htake]
      simp
    exact absurd (hdigits _ (List.mem_of_mem_take hx)) (by decide)
  rw [parseSvLiteral]
  simp only [htick, if_neg hne]
  rw [parseSvPlain, if_neg hhex, if_pos (List.all_eq_true.2 hdigits)]

end DecimalLiteral

/-! ### Values of digits -/

section Radix

variable {base c : Char} {digits : List Char}

/-- The bases of which the second reader spells the digits out. -/
def Spelled (base : Char) : Prop := base = 'b' ∨ base = 'o' ∨ base = 'h'

lemma toNat_le_of_le {a b : Char} (h : a ≤ b) : a.toNat ≤ b.toNat :=
  UInt32.le_iff_toNat_le.1 (Char.le_def.1 h)

lemma hexDigit_of_lt (h : c.toNat < 97) : hexDigit c = c.toNat - '0'.toNat := by
  exact if_neg (Nat.not_le.2 h)

/-- A digit that the base allows and that is known fits into the bits of a digit. -/
lemma hexDigit_lt (hbase : Spelled base) (hc : isRadixDigit base c = true)
    (hxz : isXZ c = false) : hexDigit c < 2 ^ radixShift base := by
  rcases hbase with rfl | rfl | rfl
  · have hbit : c = '0' ∨ c = '1' := by
      simp only [isRadixDigit, isXZ, Bool.or_eq_true, Bool.or_eq_false_iff, decide_eq_true_eq,
        decide_eq_false_iff_not] at hc hxz
      tauto
    rcases hbit with rfl | rfl
    · decide
    · decide
  · simp only [isRadixDigit, Bool.and_eq_true, decide_eq_true_eq] at hc
    have hlo : 48 ≤ c.toNat := toNat_le_of_le hc.1
    have hhi : c.toNat ≤ 55 := toNat_le_of_le hc.2
    rw [hexDigit_of_lt (by omega)]
    show c.toNat - 48 < 8
    omega
  · simp only [isRadixDigit, isXZ, Bool.or_eq_true, Bool.and_eq_true, Bool.or_eq_false_iff,
      decide_eq_true_eq, decide_eq_false_iff_not] at hc hxz
    have hcases : c.isDigit = true ∨ 'a' ≤ c ∧ c ≤ 'f' := by tauto
    rcases hcases with hdigit | ⟨hlo, hhi⟩
    · have hnat := Lib.toNat_of_isDigit hdigit
      rw [hexDigit_of_lt (by omega)]
      show c.toNat - 48 < 16
      omega
    · have hlo : 97 ≤ c.toNat := toNat_le_of_le hlo
      have hhi : c.toNat ≤ 102 := toNat_le_of_le hhi
      rw [hexDigit, if_pos (show c.toNat ≥ 'a'.toNat from hlo)]
      show c.toNat - 97 + 10 < 16
      omega

/-- The bits of one digit. -/
def digitBits (shift : ℕ) (c : Char) : List Char :=
  if isXZ c then List.replicate shift c else lowBits shift (hexDigit c)

lemma length_digitBits (shift : ℕ) (c : Char) : (digitBits shift c).length = shift := by
  rw [digitBits]
  split_ifs
  · exact List.length_replicate
  · exact length_lowBits _ _

/-- The bits of a digit are all unknown, or all known. -/
lemma isXZ_of_mem_digitBits {shift : ℕ} {c d : Char} (h : d ∈ digitBits shift c) :
    isXZ d = isXZ c := by
  rw [digitBits] at h
  split_ifs at h with hc
  · rw [List.eq_of_mem_replicate h]
  · rw [Bool.not_eq_true] at hc
    rw [hc]
    rcases lowBits_chars h with rfl | rfl
    · rfl
    · rfl

lemma radixBits_eq (hbase : Spelled base) (hvalid : ∀ c ∈ digits, isRadixDigit base c = true) :
    radixBits base digits = digits.flatMap (digitBits (radixShift base)) := by
  rcases hbase with rfl | rfl | rfl
  · show digits = _
    have hdigit : ∀ c ∈ digits, digitBits (radixShift 'b') c = [c] := by
      intro c hc
      have h := hvalid c hc
      simp only [isRadixDigit, Bool.or_eq_true, decide_eq_true_eq] at h
      obtain ((rfl | rfl) | rfl) | rfl := h
      · decide
      · decide
      · decide
      · decide
    rw [List.flatMap_congr hdigit]
    exact (List.flatMap_singleton' digits).symm
  · show digits.flatMap (fun c => lowBits 3 (c.toNat - '0'.toNat)) = _
    refine List.flatMap_congr fun c hc => ?_
    have h := hvalid c hc
    simp only [isRadixDigit, Bool.and_eq_true, decide_eq_true_eq] at h
    have hhi : c.toNat ≤ 55 := toNat_le_of_le h.2
    have hxz : isXZ c = false := by
      rw [isXZ, Bool.or_eq_false_iff, decide_eq_false_iff_not, decide_eq_false_iff_not]
      constructor
      · rintro rfl
        exact absurd hhi (by decide)
      · rintro rfl
        exact absurd hhi (by decide)
    rw [digitBits, hxz, hexDigit_of_lt (by omega)]
    rfl
  · show digits.flatMap (fun c => if c = 'x' ∨ c = 'z' then _ else _) = _
    refine List.flatMap_congr fun c _ => ?_
    rw [digitBits, isXZ]
    simp only [Bool.or_eq_true, decide_eq_true_eq]
    rfl

lemma length_radixBits (hbase : Spelled base)
    (hvalid : ∀ c ∈ digits, isRadixDigit base c = true) :
    (radixBits base digits).length = radixShift base * digits.length := by
  rw [radixBits_eq hbase hvalid, List.length_flatMap]
  have hmap : digits.map (fun c => (digitBits (radixShift base) c).length) =
      List.replicate digits.length (radixShift base) := by
    rw [← List.map_const']
    exact List.map_congr_left fun c _ => length_digitBits _ c
  rw [hmap, List.sum_replicate, smul_eq_mul, Nat.mul_comm]

/-- Known digits are the bits of their number. -/
lemma radixBits_known (hbase : Spelled base)
    (hvalid : ∀ c ∈ digits, isRadixDigit base c = true) (hxz : digits.any isXZ = false) :
    radixBits base digits =
        lowBits (radixShift base * digits.length) (radixNumber (radixShift base) digits) ∧
      radixNumber (radixShift base) digits < 2 ^ (radixShift base * digits.length) := by
  have hknown : ∀ c ∈ digits, isXZ c = false := by
    intro c hc
    exact Bool.eq_false_iff.2 (List.any_eq_false.1 hxz c hc)
  have hlt : ∀ c ∈ digits, hexDigit c < 2 ^ radixShift base := fun c hc =>
    hexDigit_lt hbase (hvalid c hc) (hknown c hc)
  have hbits : radixBits base digits =
      digits.flatMap fun c => lowBits (radixShift base) (hexDigit c) := by
    rw [radixBits_eq hbase hvalid]
    refine List.flatMap_congr fun c hc => ?_
    rw [digitBits, hknown c hc]
    rfl
  rw [hbits]
  exact flatMap_lowBits hlt

lemma contains_x_or_z (digits : List Char) :
    (digits.contains 'x' || digits.contains 'z') = digits.any isXZ := by
  rw [Bool.eq_iff_iff, Bool.or_eq_true, List.contains_iff_mem, List.contains_iff_mem,
    List.any_eq_true]
  constructor
  · rintro (h | h)
    · exact ⟨_, h, rfl⟩
    · exact ⟨_, h, rfl⟩
  · rintro ⟨c, hc, hxz⟩
    rw [isXZ, Bool.or_eq_true, decide_eq_true_eq, decide_eq_true_eq] at hxz
    rcases hxz with rfl | rfl
    · exact Or.inl hc
    · exact Or.inr hc

/-- The first reader keeps the low 64 bits of the number. -/
lemma parseRadix_known (hbase : Spelled base)
    (hvalid : ∀ c ∈ digits, isRadixDigit base c = true) (hxz : digits.any isXZ = false)
    (width : ℕ) : parseRadix digits base width =
      logicValueFromU64 (radixNumber (radixShift base) digits % 2 ^ 64) width := by
  have hlt : ∀ c ∈ digits, hexDigit c < 2 ^ radixShift base := fun c hc =>
    hexDigit_lt hbase (hvalid c hc) (Bool.eq_false_iff.2 (List.any_eq_false.1 hxz c hc))
  have hshift : radixShift base ≤ 64 := by
    rcases hbase with rfl | rfl | rfl
    all_goals decide
  have hfold := foldl_shiftIn hshift hlt 0
  rw [Nat.zero_mod] at hfold
  rw [radixNumber, ← hfold]
  delta parseRadix
  dsimp only
  rw [contains_x_or_z, hxz, if_neg Bool.false_ne_true]
  refine congrArg (fun value => logicValueFromU64 value width) ?_
  rcases hbase with rfl | rfl | rfl
  · show digits.foldl (fun v c => shiftIn 1 v (if c = '1' then 1 else 0)) 0 = _
    refine List.foldl_ext _ _ _ fun v c hc => ?_
    have hdigit := hlt c hc
    have h := hvalid c hc
    simp only [isRadixDigit, Bool.or_eq_true, decide_eq_true_eq] at h
    obtain ((rfl | rfl) | rfl) | rfl := h
    · rfl
    · rfl
    · exact absurd hdigit (by decide)
    · exact absurd hdigit (by decide)
  · show digits.foldl (fun v c => shiftIn 3 v (c.toNat - '0'.toNat)) 0 = _
    refine List.foldl_ext _ _ _ fun v c hc => ?_
    have h := hvalid c hc
    simp only [isRadixDigit, Bool.and_eq_true, decide_eq_true_eq] at h
    have hhi : c.toNat ≤ 55 := toNat_le_of_le h.2
    rw [hexDigit_of_lt (by omega)]
    rfl
  · rfl

/-- It cuts an unknown literal to the width, but does not extend it. -/
lemma parseRadix_unknown (hbase : Spelled base)
    (hvalid : ∀ c ∈ digits, isRadixDigit base c = true) (hxz : digits.any isXZ = true)
    (width : ℕ) : (parseRadix digits base width).width = width ∧
      (parseRadix digits base width).known = false ∧
      (parseRadix digits base width).bits.toList =
        if width > 0 ∧ (radixBits base digits).length > width then
          (radixBits base digits).drop ((radixBits base digits).length - width)
        else radixBits base digits := by
  delta parseRadix
  dsimp only
  rw [contains_x_or_z, hxz, if_pos rfl]
  refine ⟨rfl, rfl, ?_⟩
  rw [String.toList_ofList]
  rcases hbase with rfl | rfl | rfl
  · rfl
  · -- the second reader allows no unknown octal digit
    obtain ⟨c, hc, hcxz⟩ := List.any_eq_true.1 hxz
    have h := hvalid c hc
    rw [isXZ, Bool.or_eq_true, decide_eq_true_eq, decide_eq_true_eq] at hcxz
    rcases hcxz with rfl | rfl
    · exact absurd h (by decide)
    · exact absurd h (by decide)
  · rfl

end Radix

/-- The unknown bits that a cut leaves belong to the digits that it leaves. -/
lemma any_drop_flatMap {shift : ℕ} (hshift : 0 < shift) {f : Char → List Char}
    (hlen : ∀ c, (f c).length = shift) {p : Char → Bool} (hp : ∀ c, ∀ d ∈ f c, p d = p c)
    (digits : List Char) (w : ℕ) :
    ((digits.flatMap f).drop (shift * digits.length - w)).any p =
      (digits.drop (digits.length - (w + shift - 1) / shift)).any p := by
  have hany : ∀ c, ∀ r < shift, ((f c).drop r).any p = p c := by
    intro c r hr
    have hne : (f c).drop r ≠ [] := by
      rw [ne_eq, List.drop_eq_nil_iff, hlen]
      omega
    obtain ⟨d, tail, hd⟩ := List.exists_cons_of_ne_nil hne
    have hmem : ∀ e ∈ (f c).drop r, p e = p c := fun e he => hp c e (List.mem_of_mem_drop he)
    cases hpc : p c with
    | true =>
        refine List.any_eq_true.2 ⟨d, hd ▸ List.mem_cons_self, ?_⟩
        rw [hmem d (hd ▸ List.mem_cons_self), hpc]
    | false =>
        refine List.any_eq_false.2 fun e he => ?_
        rw [hmem e he, hpc]
        exact Bool.false_ne_true
  induction digits with
  | nil => simp
  | cons c digits ih =>
      have hlt : (w + shift - 1) / shift < digits.length + 1 ↔ w ≤ shift * digits.length := by
        rw [Nat.div_lt_iff_lt_mul hshift, Nat.add_mul, Nat.one_mul, Nat.mul_comm]
        omega
      rw [List.flatMap_cons, List.length_cons, Nat.mul_add, Nat.mul_one]
      by_cases hw : w ≤ shift * digits.length
      · -- the first digit is cut off
        have hq := hlt.2 hw
        rw [show shift * digits.length + shift - w = (f c).length + (shift * digits.length - w) by
            rw [hlen]; omega, List.drop_append, List.drop_eq_nil_of_le (Nat.le_add_right _ _),
          Nat.add_sub_cancel_left, List.nil_append, ih,
          show digits.length + 1 - (w + shift - 1) / shift =
            digits.length - (w + shift - 1) / shift + 1 by omega, List.drop_succ_cons]
      · -- a part of the first digit stays, and all the others
        have hq := hlt.not.2 hw
        have hflat : (digits.flatMap f).any p = digits.any p := by
          rw [List.any_flatMap]
          refine congrArg (digits.any ·) (funext fun d => ?_)
          simpa using hany d 0 hshift
        rw [show digits.length + 1 - (w + shift - 1) / shift = 0 by omega, List.drop_zero,
          List.any_cons, List.drop_append_of_le_length (by rw [hlen]; omega), List.any_append,
          hany c _ (by omega), hflat]

/-! ### Agreement -/

/-- The values of the two readers are the same constant. -/
def SameLiteral (v w : LogicValue) : Prop :=
  v.width = w.width ∧ LogicValue.extendedBits v = LogicValue.extendedBits w ∧ v.known = w.known

lemma literalsAgree_of_ok {text : String} {v : LogicValue}
    (h : parseExpression text = .ok (.const v)) :
    LiteralsAgree text ↔ (∃ w, parseSvLiteral text = some w ∧ SameLiteral v w) ∧
      (v.known = true → v.width ≤ 64) := by
  have hunique : ∀ v', parseExpression text = .ok (.const v') → v = v' := by
    intro v' hv'
    rw [h] at hv'
    cases hv'
    rfl
  constructor
  · rintro ⟨hiff, hsame, hdefined⟩
    obtain ⟨w, hw⟩ := Option.isSome_iff_exists.1 (hiff.1 ⟨v, h⟩)
    exact ⟨⟨w, hw, hsame v w h hw⟩, hdefined v h⟩
  · rintro ⟨⟨w, hw, hsame⟩, hdefined⟩
    refine ⟨⟨fun _ => Option.isSome_iff_exists.2 ⟨w, hw⟩, fun _ => ⟨v, h⟩⟩, ?_, ?_⟩
    · intro v' w' hv' hw'
      obtain rfl := hunique v' hv'
      obtain rfl : w = w' := Option.some_inj.1 (hw.symm.trans hw')
      exact hsame
    · intro v' hv'
      obtain rfl := hunique v' hv'
      exact hdefined

lemma literalsAgree_of_error {text message : String}
    (h : parseExpression text = .error message) :
    LiteralsAgree text ↔ parseSvLiteral text = none := by
  have hno : ∀ v, parseExpression text ≠ .ok (.const v) := by
    intro v hv
    rw [h] at hv
    cases hv
  constructor
  · rintro ⟨hiff, -, -⟩
    rw [← Option.not_isSome_iff_eq_none]
    intro hsome
    obtain ⟨v, hv⟩ := hiff.2 hsome
    exact hno v hv
  · intro hnone
    refine ⟨⟨fun ⟨v, hv⟩ => absurd hv (hno v), ?_⟩, fun v w hv => absurd hv (hno v),
      fun v hv => absurd hv (hno v)⟩
    rw [hnone]
    exact fun h => absurd h Bool.false_ne_true

lemma DecimalLiteral.agree_iff (l : DecimalLiteral) :
    LiteralsAgree l.text ↔ '_' ∉ l.rest := by
  by_cases hmem : '_' ∈ l.rest
  · -- the parser stops at the first underscore
    have hunderscore : '_' ∈ l.text.toList := by
      rw [l.toList_text]
      exact List.mem_cons_of_mem _ hmem
    have hne : l.text.toList.dropWhile Char.isDigit ≠ [] := by
      intro hnil
      exact absurd (List.dropWhile_eq_nil_iff.1 hnil _ hunderscore) (by decide)
    have hends : EndsOperand (l.text.toList.dropWhile Char.isDigit) := by
      have h := dropWhile_isDigit_number l.text_chars endsOperand_nil rfl
      rwa [List.append_nil] at h
    obtain ⟨message, herror⟩ := parseExpression_of_trailing l.parsePrimary_text hends hne
    rw [literalsAgree_of_error herror, l.parseSvLiteral_text]
    exact ⟨fun h => absurd h (Option.some_ne_none _), fun h => absurd hmem h⟩
  · have hdigits : ∀ c ∈ l.text.toList, c.isDigit = true := by
      intro c hc
      have hchar := l.text_chars c hc
      rw [isNumberChar, Bool.or_eq_true, decide_eq_true_eq] at hchar
      refine hchar.resolve_right ?_
      rintro rfl
      rw [l.toList_text] at hc
      rcases List.mem_cons.1 hc with heq | hrest
      · exact absurd (heq ▸ l.first_digit) (by decide)
      · exact hmem hrest
    have hprimary := l.parsePrimary_text
    rw [List.takeWhile_eq_self_iff.2 hdigits, List.dropWhile_eq_nil_iff.2 hdigits] at hprimary
    rw [literalsAgree_of_ok (parseExpression_of_primary hprimary), l.parseSvLiteral_text,
      cleanText_digits hdigits]
    exact ⟨fun _ => hmem, fun _ => ⟨⟨_, rfl, rfl, rfl, rfl⟩, fun _ => show (0 : ℤ) ≤ 64 by decide⟩⟩

/-- A bit string without other letters is known when it has no `x` and no `z`. -/
lemma known_logicValueFromBits_eq {bits : List Char} {width : ℤ}
    (h : ∀ c ∈ bits, isXZ c = true ∨ c = '0' ∨ c = '1') :
    (logicValueFromBits (String.ofList bits) width).known = !bits.any isXZ := by
  rw [logicValueFromBits, String.toList_ofList, List.all_map, List.not_any_eq_all_not]
  dsimp only
  rw [Bool.eq_iff_iff, List.all_eq_true, List.all_eq_true]
  refine forall₂_congr fun c hc => ?_
  rcases h c hc with hxz | rfl | rfl
  · rw [isXZ, Bool.or_eq_true, decide_eq_true_eq, decide_eq_true_eq] at hxz
    rcases hxz with rfl | rfl
    · decide
    · decide
  · decide
  · decide

lemma length_logicValueFromU64 (n : ℕ) (width : ℤ) :
    (logicValueFromU64 n width).bits.toList.length = if 0 < width then width.toNat else 64 := by
  rw [logicValueFromU64, String.toList_ofList, List.length_map, List.length_reverse,
    List.length_range]

lemma logicValueFromU64_chars {n : ℕ} {width : ℤ} {c : Char}
    (h : c ∈ (logicValueFromU64 n width).bits.toList) : c = '0' ∨ c = '1' := by
  rw [logicValueFromU64, String.toList_ofList] at h
  obtain ⟨i, -, rfl⟩ := List.mem_map.1 h
  split_ifs
  · exact Or.inr rfl
  · exact Or.inl rfl

/-- The bits that `logic_value_from_u64` takes of a word, at a width that a word has. -/
lemma toList_bits_logicValueFromU64 (n : ℕ) {width : ℤ} (h : width ≤ 64) :
    (logicValueFromU64 n width).bits.toList =
      lowBits (if 0 < width then width.toNat else 64) n := by
  rw [logicValueFromU64, String.toList_ofList]
  refine List.map_congr_left fun i hi => ?_
  have hlt : i < 64 := by
    have hrange := List.mem_range.1 (List.mem_reverse.1 hi)
    split_ifs at hrange <;> omega
  rw [Nat.mod_eq_of_lt hlt]

/-- The low 64 bits of a number have its bits at a width of at most 64. -/
lemma lowBits_word (n : ℕ) {width : ℕ} (hle : width ≤ 64) :
    lowBits width (n % 2 ^ 64) = lowBits width n := by
  refine (lowBits_eq_iff width _ _).2 fun i hi => ?_
  rw [Nat.testBit_mod_two_pow, decide_eq_true (hi.trans_le hle), Bool.true_and]

lemma width_logicValueFromBits {bits : String} {width : ℤ} (h : 0 < width) :
    (logicValueFromBits bits width).width = width := by
  rw [logicValueFromBits]
  exact if_neg fun hw => h.ne' hw.1

lemma extendedBits_of_length {v : LogicValue} (h : v.bits.toList.length = v.width.toNat) :
    LogicValue.extendedBits v = v.bits.toList := by
  rw [LogicValue.extendedBits, ← String.length_toList, h, Nat.sub_self]
  rfl

section Spelled

variable {base : Char} {digits : List Char} (hbase : Spelled base)
  (hvalid : ∀ c ∈ digits, isRadixDigit base c = true)
include hbase hvalid

lemma radixBits_chars : ∀ d ∈ radixBits base digits, isXZ d = true ∨ d = '0' ∨ d = '1' := by
  rw [radixBits_eq hbase hvalid]
  intro d hd
  obtain ⟨c, -, hdc⟩ := List.mem_flatMap.1 hd
  rw [digitBits] at hdc
  split_ifs at hdc with hc
  · rw [List.eq_of_mem_replicate hdc]
    exact Or.inl hc
  · exact Or.inr (lowBits_chars hdc)

/-- An unsized literal has width zero for the first reader, and the width of its digits for
the second one. -/
lemma not_sameLiteral_unsized (hne : digits ≠ []) :
    ¬ SameLiteral (parseRadix digits base 0)
      (logicValueFromBits (String.ofList (radixBits base digits)) 0) := by
  have hshift : radixShift base ≠ 0 := by
    rcases hbase with rfl | rfl | rfl
    all_goals decide
  have hlen : (radixBits base digits).length ≠ 0 := by
    rw [length_radixBits hbase hvalid]
    exact Nat.mul_ne_zero hshift (List.length_pos_iff.2 hne).ne'
  have hempty : String.ofList (radixBits base digits) ≠ "" := by
    intro heq
    have hlength := congrArg String.length heq
    rw [← String.length_toList, String.toList_ofList] at hlength
    exact hlen hlength
  rintro ⟨hwidth, -⟩
  have hw : (logicValueFromBits (String.ofList (radixBits base digits)) 0).width =
      (radixBits base digits).length := by
    show (if _ then ((String.ofList (radixBits base digits)).length : ℤ) else 0) = _
    rw [if_pos ⟨rfl, hempty⟩, ← String.length_toList, String.toList_ofList]
  have hv : (parseRadix digits base 0).width = 0 := by
    cases hxz : digits.any isXZ with
    | true => exact (parseRadix_unknown hbase hvalid hxz 0).1
    | false =>
        rw [parseRadix_known hbase hvalid hxz]
        rfl
  rw [hw, hv] at hwidth
  exact hlen (Int.natCast_eq_zero.1 hwidth.symm)

/-- Of known digits both readers keep the same bits at a width of at most 64. -/
lemma sameLiteral_known (hxz : digits.any isXZ = false) {width : ℕ} (hw : 0 < width)
    (hle : width ≤ 64) : SameLiteral (parseRadix digits base width)
      (logicValueFromBits (String.ofList (fitWidth width '0' (radixBits base digits))) width) := by
  obtain ⟨hbits, hlt⟩ := radixBits_known hbase hvalid hxz
  have hwidth : (0 : ℤ) < width := Int.natCast_pos.2 hw
  rw [hbits, fitWidth_lowBits width hlt, parseRadix_known hbase hvalid hxz]
  set number := radixNumber (radixShift base) digits
  have hv : (logicValueFromU64 (number % 2 ^ 64) width).bits.toList = lowBits width number := by
    rw [toList_bits_logicValueFromU64 _ (by exact_mod_cast hle), if_pos hwidth, Int.toNat_natCast,
      lowBits_word number hle]
  have hwbits : (logicValueFromBits (String.ofList (lowBits width number)) width).bits.toList =
      lowBits width number := String.toList_ofList
  have hwwidth : (logicValueFromBits (String.ofList (lowBits width number)) width).width =
      width := width_logicValueFromBits hwidth
  have hknown : (logicValueFromBits (String.ofList (lowBits width number)) width).known =
      true := by
    have hany : (lowBits width number).any isXZ = false := by
      refine List.any_eq_false.2 fun c hc => ?_
      rcases lowBits_chars hc with rfl | rfl
      · decide
      · decide
    rw [known_logicValueFromBits_eq fun c hc => Or.inr (lowBits_chars hc), hany]
    rfl
  refine ⟨hwwidth.symm, ?_, hknown.symm⟩
  rw [extendedBits_of_length, extendedBits_of_length, hv, hwbits]
  · rw [hwbits, hwwidth, length_lowBits, Int.toNat_natCast]
  · rw [hv, length_lowBits]
    rfl

/-- After cutting or extending there is an unknown bit when a digit is unknown of which
something is left. -/
lemma any_fitWidth_unknown (hxz : digits.any isXZ = true) (width : ℕ) :
    (fitWidth width 'x' (radixBits base digits)).any isXZ =
      (digits.drop (digits.length - (width + radixShift base - 1) / radixShift base)).any
        isXZ := by
  have hshift : 0 < radixShift base := by
    rcases hbase with rfl | rfl | rfl
    all_goals decide
  have hdrop := any_drop_flatMap hshift (length_digitBits (radixShift base))
    (fun c d hd => isXZ_of_mem_digitBits hd) digits width
  rw [fitWidth, List.any_append, length_radixBits hbase hvalid, radixBits_eq hbase hvalid, hdrop]
  by_cases hlen : width ≤ radixShift base * digits.length
  · rw [Nat.sub_eq_zero_of_le hlen]
    rfl
  · -- nothing is cut off, so the unknown digit is still there
    have hq : digits.length ≤ (width + radixShift base - 1) / radixShift base := by
      rw [Nat.le_div_iff_mul_le hshift, Nat.mul_comm]
      omega
    rw [Nat.sub_eq_zero_of_le hq, List.drop_zero, hxz, Bool.or_true]

/-- Of unknown digits the first reader keeps that they were unknown, also when the width cuts
them off. -/
lemma sameLiteral_unknown (hxz : digits.any isXZ = true) {width : ℕ} (hw : 0 < width) :
    SameLiteral (parseRadix digits base width)
        (logicValueFromBits (String.ofList (fitWidth width 'x' (radixBits base digits))) width) ↔
      (digits.drop (digits.length - (width + radixShift base - 1) / radixShift base)).any isXZ =
        true := by
  obtain ⟨hvwidth, hvknown, hvbits⟩ := parseRadix_unknown hbase hvalid hxz width
  set v := parseRadix digits base width
  set bits := radixBits base digits
  have hwidth : (0 : ℤ) < width := Int.natCast_pos.2 hw
  have hwwidth : (logicValueFromBits (String.ofList (fitWidth width 'x' bits)) width).width =
      width := width_logicValueFromBits hwidth
  have hwbits : (logicValueFromBits (String.ofList (fitWidth width 'x' bits))
      width).bits.toList = fitWidth width 'x' bits := String.toList_ofList
  -- the extension of the first reader's bits is what the second one has built
  have hext : LogicValue.extendedBits v = fitWidth width 'x' bits := by
    rw [LogicValue.extendedBits, hvknown, hvwidth, ← String.length_toList, hvbits, fitWidth,
      Int.toNat_natCast, if_neg Bool.false_ne_true]
    split_ifs with hcut
    · rw [List.length_drop, show width - (bits.length - (bits.length - width)) = 0 by omega,
        Nat.sub_eq_zero_of_le hcut.2.le]
    · rw [Nat.sub_eq_zero_of_le (show bits.length ≤ width by omega), List.drop_zero]
  have hchars : ∀ c ∈ fitWidth width 'x' bits, isXZ c = true ∨ c = '0' ∨ c = '1' := by
    intro c hc
    rcases List.mem_append.1 hc with hc | hc
    · rw [List.eq_of_mem_replicate hc]
      exact Or.inl rfl
    · exact radixBits_chars hbase hvalid c (List.mem_of_mem_drop hc)
  rw [SameLiteral, hext, extendedBits_of_length, hwbits, hwwidth, hvwidth, hvknown,
    known_logicValueFromBits_eq hchars, any_fitWidth_unknown hbase hvalid hxz width]
  · constructor
    · rintro ⟨-, -, hknown⟩
      rwa [eq_comm, Bool.not_eq_false'] at hknown
    · intro hkept
      rw [hkept]
      exact ⟨rfl, rfl, rfl⟩
  · rw [hwbits, hwwidth, length_fitWidth, Int.toNat_natCast]

end Spelled

namespace BasedLiteral

variable (l : BasedLiteral)

/-- The second reader refuses digits that the base does not allow. -/
lemma parseSvRadix_of_not_validDigits (h : ¬ l.ValidDigits) (width : ℤ) :
    parseSvRadix width (l.base.toLower :: l.clean) = none := by
  rw [parseSvRadix]
  by_cases hne : l.clean = []
  · exact if_pos hne
  · have hall : ¬ l.clean.all (isRadixDigit l.base.toLower) = true := fun hall =>
      h ⟨hne, List.all_eq_true.1 hall⟩
    rw [Bool.not_eq_true] at hall
    rw [if_neg hne, hall]
    split
    · rfl
    · exact if_pos rfl

lemma parseSvRadix_of_validDigits (h : l.ValidDigits) (width : ℕ) :
    parseSvRadix width (l.base.toLower :: l.clean) =
      if l.base.toLower = 'd' then some (logicValueFromU64 (strtoull l.clean) width)
      else
        some (logicValueFromBits (String.ofList
          (if 0 < width then
            fitWidth width (if l.clean.any isXZ then 'x' else '0')
              (radixBits l.base.toLower l.clean)
          else radixBits l.base.toLower l.clean)) width) := by
  have hbase : ¬ (l.base.toLower ≠ 'h' ∧ l.base.toLower ≠ 'b' ∧ l.base.toLower ≠ 'd' ∧
      l.base.toLower ≠ 'o') := by
    rintro ⟨h1, h2, h3, h4⟩
    rcases l.base_eq with h | h | h | h
    · exact h2 h
    · exact h4 h
    · exact h3 h
    · exact h1 h
  have hall : (!l.clean.all (isRadixDigit l.base.toLower)) = false := by
    rw [List.all_eq_true.2 h.2]
    rfl
  rw [parseSvRadix, if_neg h.1, if_neg hbase, hall, if_neg Bool.false_ne_true]
  simp only [Int.natCast_pos, Int.toNat_natCast]

lemma spelled (h : l.base.toLower ≠ 'd') : Spelled l.base.toLower := by
  rcases l.base_eq with hb | ho | hd | hh
  · exact Or.inl hb
  · exact Or.inr (Or.inl ho)
  · exact absurd hd h
  · exact Or.inr (Or.inr hh)

/-- A decimal literal has no unknown digits. -/
lemma any_isXZ_of_decimal (hbase : l.base.toLower = 'd') (h : l.ValidDigits) :
    l.clean.any isXZ = false := by
  refine List.any_eq_false.2 fun c hc hcxz => ?_
  have hvalid := h.2 c hc
  rw [hbase] at hvalid
  rw [isXZ, Bool.or_eq_true, decide_eq_true_eq, decide_eq_true_eq] at hcxz
  rcases hcxz with rfl | rfl
  · exact absurd hvalid (by decide)
  · exact absurd hvalid (by decide)

/-- Both readers hand the digits of a decimal literal to `strtoull`. -/
lemma parseRadix_decimal (hbase : l.base.toLower = 'd') (h : l.ValidDigits) (width : ℕ) :
    parseRadix l.clean l.base.toLower width = logicValueFromU64 (strtoull l.clean) width := by
  have hxz := l.any_isXZ_of_decimal hbase h
  rw [hbase]
  delta parseRadix
  dsimp only
  rw [contains_x_or_z, hxz, if_neg Bool.false_ne_true]
  rfl

/-- The first reader's value of digits that the base allows: it is known when no digit is
unknown. -/
lemma parseRadix_marks (h : l.ValidDigits) :
    (parseRadix l.clean l.base.toLower l.widthValue).width = l.widthValue ∧
      (parseRadix l.clean l.base.toLower l.widthValue).known = !l.clean.any isXZ := by
  by_cases hd : l.base.toLower = 'd'
  · rw [l.parseRadix_decimal hd h, l.any_isXZ_of_decimal hd h]
    exact ⟨rfl, rfl⟩
  · cases hxz : l.clean.any isXZ with
    | true =>
        obtain ⟨hwidth, hknown, -⟩ := parseRadix_unknown (l.spelled hd) h.2 hxz l.widthValue
        exact ⟨hwidth, hknown⟩
    | false =>
        rw [parseRadix_known (l.spelled hd) h.2 hxz]
        exact ⟨rfl, rfl⟩

/-- On a literal that both readers accept. -/
lemma sameLiteral_iff_fits (h : l.ValidDigits) :
    ((∃ w, parseSvRadix l.widthValue (l.base.toLower :: l.clean) = some w ∧
        SameLiteral (parseRadix l.clean l.base.toLower l.widthValue) w) ∧
      ((parseRadix l.clean l.base.toLower l.widthValue).known = true →
        (parseRadix l.clean l.base.toLower l.widthValue).width ≤ 64)) ↔ l.Fits := by
  obtain ⟨hwidth, hknown⟩ := l.parseRadix_marks h
  rw [hwidth, hknown, l.parseSvRadix_of_validDigits h, Fits]
  by_cases hd : l.base.toLower = 'd'
  · rw [if_pos hd, l.parseRadix_decimal hd h, l.any_isXZ_of_decimal hd h]
    have hsame : ∃ w, some (logicValueFromU64 (strtoull l.clean) l.widthValue) = some w ∧
        SameLiteral (logicValueFromU64 (strtoull l.clean) l.widthValue) w := ⟨_, rfl, rfl, rfl, rfl⟩
    rw [and_iff_right hsame, and_iff_right (Or.inl hd), if_neg Bool.false_ne_true]
    exact ⟨fun hle => by exact_mod_cast hle rfl, fun hle _ => by exact_mod_cast hle⟩
  · rw [if_neg hd]
    simp only [Option.some_inj, exists_eq_left', hd, false_or]
    rcases Nat.eq_zero_or_pos l.widthValue with hzero | hpos
    · rw [hzero, if_neg (lt_irrefl 0)]
      exact ⟨fun hsame => absurd hsame.1 (not_sameLiteral_unsized (l.spelled hd) h.2 h.1),
        fun hlt => absurd hlt.1 (lt_irrefl 0)⟩
    · rw [if_pos hpos, and_iff_right hpos]
      cases hxz : l.clean.any isXZ with
      | true =>
          rw [if_pos rfl, if_pos rfl, sameLiteral_unknown (l.spelled hd) h.2 hxz hpos]
          exact and_iff_left fun hk => absurd hk Bool.false_ne_true
      | false =>
          rw [if_neg Bool.false_ne_true, if_neg Bool.false_ne_true]
          constructor
          · rintro ⟨-, hle⟩
            exact_mod_cast hle rfl
          · intro hle
            exact ⟨sameLiteral_known (l.spelled hd) h.2 hxz hpos hle,
              fun _ => by exact_mod_cast hle⟩

lemma agree_iff : LiteralsAgree l.text ↔ l.Consistent := by
  rw [Consistent]
  by_cases hwidth : l.PlainWidth
  · rw [literalsAgree_of_ok (l.parseExpression_of_plainWidth hwidth), l.parseSvLiteral_text,
      l.widthValue_eq hwidth]
    by_cases hvalid : l.ValidDigits
    · rw [l.sameLiteral_iff_fits hvalid]
      constructor
      · intro hfits
        exact Or.inl ⟨hwidth, hvalid, hfits⟩
      · rintro (⟨-, -, hfits⟩ | ⟨hnot, -⟩)
        · exact hfits
        · exact absurd hwidth hnot
    · rw [l.parseSvRadix_of_not_validDigits hvalid]
      constructor
      · rintro ⟨⟨w, hw, -⟩, -⟩
        cases hw
      · tauto
  · obtain ⟨message, herror⟩ := l.parseExpression_of_not_plainWidth hwidth
    rw [literalsAgree_of_error herror, l.parseSvLiteral_text]
    by_cases hvalid : l.ValidDigits
    · rw [l.parseSvRadix_of_validDigits hvalid]
      constructor
      · intro hnone
        split_ifs at hnone
      · tauto
    · rw [l.parseSvRadix_of_not_validDigits hvalid]
      tauto

end BasedLiteral

/-- The two readers of literals agree exactly on the consistent ones. -/
theorem literalsAgree_iff (l : SvLiteral) : LiteralsAgree l.text ↔ l.Consistent := by
  cases l with
  | based literal => exact literal.agree_iff
  | decimal literal => exact literal.agree_iff

/-- The literal `8'o1x`. -/
def octalX : BasedLiteral where
  width := ['8']
  base := 'o'
  digits := ['1', 'x']
  width_start := by decide
  width_chars := List.all_eq_true.1 rfl
  base_mem := by simp [Char.toLower]
  digits_chars := List.all_eq_true.1 rfl

/-- An unknown octal digit is a constant of an expression, but no literal of a filter. -/
theorem octalX_not_literalsAgree : ¬ LiteralsAgree (SvLiteral.based octalX).text := by
  rintro ⟨hiff, -, -⟩
  have hconst : parseExpression (SvLiteral.based octalX).text =
      .ok (.const { bits := "001xxx", width := 8, known := false, hasX := true }) := by
    decide +kernel
  exact absurd (hiff.1 ⟨_, hconst⟩) (by decide +kernel)

end XdebugFst.Expr
