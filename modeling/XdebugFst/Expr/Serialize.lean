import Mathlib
import XdebugFst.Expr.Normalize

/-!
# Serialised expressions

`serialize_expr` puts every binary expression in parentheses and writes every constant as a
hexadecimal literal. A text of this form is one of the written expressions of the grammar, so what
is left to show is that each constant is read back as it was.

The parser makes a known constant of at most 64 bits from a number and a width, and its hexadecimal
digits give the number back. `parseExpression_serializeExpr` puts this together. There is one
constant that the parser makes of nothing, where a text ends behind a tick; it stays before the
tick then, and accepts no expression around it.
-/

namespace XdebugFst.Expr

/-! ### The constants of an expression -/

/-- The constants of an expression from left to right. -/
def ExprNode.constants : ExprNode → List LogicValue
  | .signal _ => []
  | .slice _ _ _ => []
  | .const value => [value]
  | .unary _ right => right.constants
  | .binary _ left right => left.constants ++ right.constants

/-- A known constant that the parser makes of a number and a width, 0 when there is none. -/
def IsRead (v : LogicValue) : Prop :=
  v.known = true → ∃ n width : ℕ, v = logicValueFromU64 n width

/-- The text starts as a literal does. -/
def StartsLiteral (text : List Char) : Prop :=
  ∃ c rest, text = c :: rest ∧ (c.isDigit = true ∨ c = '\'')

/-- No operator starts as a literal does. -/
lemma StartsLiteral.operatorAt {text : List Char} (h : StartsLiteral text) (n : ℕ) :
    operatorAt n text = none := by
  obtain ⟨c, rest, rfl, hc⟩ := h
  have hne : ∀ d ∈ ['*', '/', '%', '+', '-', '<', '>', '=', '!', '&', '^', '|'], c ≠ d := by
    rintro d hd rfl
    rcases hc with hc | rfl
    · revert hc
      simp only [List.mem_cons, List.not_mem_nil, or_false] at hd
      rcases hd with rfl | rfl | rfl | rfl | rfl | rfl | rfl | rfl | rfl | rfl | rfl | rfl <;> decide
    · exact absurd hd (by decide)
  simp only [List.forall_mem_cons] at hne
  obtain ⟨h1, h2, h3, h4, h5, h6, h7, h8, h9, h10, h11, h12, -⟩ := hne
  unfold Expr.operatorAt
  split
  · simp [mulOperator, h1, h2, h3]
  · simp [addOperator, h4, h5]
  · simp [shiftOperator, h6, h7]
  · simp [cmpOperator, h6, h7]
  · simp [eqOperator, h8, h9]
  · simp [andOperator, h10]
  · simp [xorOperator, h11]
  · simp [orOperator, h12]
  · simp [logicalOperator, h10, h12]

lemma isRead_logicValueFromU64 (n width : ℕ) : IsRead (logicValueFromU64 n width) :=
  fun _ => ⟨n, width, rfl⟩

lemma isRead_parseRadix (digits : List Char) (base : Char) (width : ℕ) :
    IsRead (parseRadix digits base width) := by
  delta parseRadix
  dsimp only
  by_cases hxz : (digits.contains 'x' || digits.contains 'z') = true
  · rw [if_pos hxz]
    intro h
    cases h
  · rw [if_neg hxz]
    exact isRead_logicValueFromU64 _ _

lemma isRead_of_parseBased {width : ℕ} {text rest : List Char} {value : LogicValue}
    (h : parseBased width text = some (some (value, rest))) : IsRead value := by
  delta parseBased at h
  dsimp only at h
  split at h
  · cases h
  · split_ifs at h
    cases h
    exact isRead_parseRadix _ _ _

/-- A text with digits up to its first tick starts as a literal does. -/
lemma startsLiteral_of_tick {text after : List Char} {c : Char}
    (hdigits : (text.takeWhile (· ≠ '\'')).all Char.isDigit = true)
    (htick : text.dropWhile (· ≠ '\'') = c :: after) : StartsLiteral text := by
  have htext := List.takeWhile_append_dropWhile (p := (· ≠ '\'')) (l := text)
  cases hwidth : text.takeWhile (· ≠ '\'') with
  | nil =>
      rw [hwidth, htick] at htext
      have hnot := List.head?_dropWhile_not (· ≠ '\'') text
      rw [htick] at hnot
      exact ⟨c, after, htext.symm, Or.inr (by simpa using hnot)⟩
  | cons d width =>
      rw [hwidth] at htext hdigits
      exact ⟨d, _, htext.symm, Or.inl (List.all_eq_true.1 hdigits d List.mem_cons_self)⟩

/-- A constant is read, or the parser stands before a literal still. -/
lemma isRead_of_parseConst {text rest : List Char} {e : ExprNode}
    (h : parseConst text = .ok (e, rest)) :
    (∀ v ∈ e.constants, IsRead v) ∨ StartsLiteral (skipWs rest) := by
  have hdecimal : ∀ {text}, parseDecimal text = .ok (e, rest) → ∀ v ∈ e.constants, IsRead v := by
    intro text h
    rw [parseDecimal] at h
    split_ifs at h
    cases h
    exact List.forall_mem_singleton.2 (isRead_logicValueFromU64 _ 0)
  rw [parseConst] at h
  split at h
  · exact Or.inl (hdecimal h)
  · rename_i c after htick
    split_ifs at h with hplain
    · split at h
      · rename_i value rest' hbased
        cases h
        exact Or.inl (List.forall_mem_singleton.2 (isRead_of_parseBased hbased))
      · cases h
        refine Or.inr ?_
        rw [skipWs_skipWs]
        exact startsLiteral_of_tick hplain.1 htick
      · exact Or.inl (hdecimal h)
    · exact Or.inl (hdecimal h)

lemma constants_of_parseSelect {name : String} {text rest : List Char} {e : ExprNode}
    (h : parseSelect name text = .ok (e, rest)) : e.constants = [] := by
  rw [parseSelect] at h
  split at h
  · dsimp only at h
    split at h
    · cases h
      rfl
    · cases h
  · cases h
    rfl

/-- The constants of a tree are read, or the parser stands before a literal. -/
lemma parserInvariant_isRead : ParserInvariant fun e rest =>
    (∀ v ∈ e.constants, IsRead v) ∨ StartsLiteral (skipWs rest) where
  stop h := by rwa [skipWs_skipWs]
  binary hleft hop hright := by
    rcases hleft with hleft | hleft
    · refine hright.imp_left fun hright v hv => ?_
      exact (List.mem_append.1 hv).elim (hleft v) (hright v)
    · rw [hleft.operatorAt] at hop
      cases hop
  unary h := h
  paren h hparen := by
    refine Or.inl (h.resolve_right ?_)
    rintro ⟨c, rest, hcons, hc⟩
    rw [hparen] at hcons
    cases hcons
    revert hc
    decide
  const h := isRead_of_parseConst h
  select _ _ h := by
    left
    rw [constants_of_parseSelect h]
    simp

lemma isRead_of_parse {text : String} {e : ExprNode} (h : parseExpression text = .ok e) :
    ∀ v ∈ e.constants, IsRead v := by
  obtain ⟨rest, hend, hread⟩ := parserInvariant_isRead.parseExpression h
  refine hread.resolve_right ?_
  rintro ⟨c, tail, hcons, -⟩
  rw [hend] at hcons
  cases hcons

/-! ### Constants are read back -/

/-- The number of bits of a constant: its width, or that of a machine word without one. -/
def bitCount (width : ℕ) : ℕ := if 0 < width then width else 64

lemma bitCount_pos (width : ℕ) : 0 < bitCount width := by
  unfold bitCount
  split_ifs with h
  · exact h
  · decide

lemma bitCount_eq (width : ℕ) :
    (if 0 < (width : ℤ) then (width : ℤ).toNat else 64) = bitCount width := by
  unfold bitCount
  simp only [Int.natCast_pos, Int.toNat_natCast]

lemma bitCount_le {width : ℕ} (h : bitCount width ≤ 64) : width ≤ 64 := by
  unfold bitCount at h
  split_ifs at h <;> omega

/-- The bits of a constant of at most 64 bits. -/
lemma logicValueFromU64_eq (n : ℕ) {width : ℕ} (h : bitCount width ≤ 64) :
    logicValueFromU64 n width =
      { bits := String.ofList (lowBits (bitCount width) n), width := width } := by
  have hbits := toList_bits_logicValueFromU64 n (Int.ofNat_le.2 (bitCount_le h))
  rw [bitCount_eq] at hbits
  rw [← hbits, String.ofList_toList]
  rfl

lemma lowBits_bitCount_ne_nil (n width : ℕ) : lowBits (bitCount width) n ≠ [] := by
  refine List.ne_nil_of_length_pos ?_
  rw [length_lowBits]
  exact bitCount_pos width

/-- The bits of a constant. -/
def constantBits (n width : ℕ) : BitVector where
  bits := lowBits (bitCount width) n
  nonempty := lowBits_bitCount_ne_nil n width
  chars := isRadixDigit_of_mem_lowBits _ n

@[simp] lemma width_constantBits (n width : ℕ) : (constantBits n width).width = bitCount width :=
  length_lowBits _ n

lemma hexText_constantBits (n width : ℕ) :
    (∀ c ∈ (constantBits n width).hexText, isRadixDigit 'h' c = true ∧ isXZ c = false) ∧
      radixBits 'h' (constantBits n width).hexText =
        List.replicate (4 - ((constantBits n width).bits.take
          (constantBits n width).firstNibble).length) '0' ++ lowBits (bitCount width) n :=
  (constantBits n width).hexText_known fun _ hc => lowBits_chars hc

/-- The width in front of the tick, none for a constant without one. -/
def widthText (width : ℕ) : List Char := if 0 < width then Nat.toDigits 10 width else []

lemma isDigit_widthText (width : ℕ) : ∀ c ∈ widthText width, c.isDigit = true := by
  unfold widthText
  split_ifs
  · exact isDigit_of_mem_toDigits width
  · simp

lemma digitsValue_widthText (width : ℕ) : digitsValue (widthText width) = width := by
  unfold widthText
  split_ifs with h
  · exact digitsValue_toDigits width
  · exact (Nat.eq_zero_of_not_pos h).symm

lemma head?_widthText (width : ℕ) : (widthText width).head? ≠ some '_' := fun h =>
  absurd (isDigit_widthText width '_' (List.mem_of_head? h)) (by decide)

lemma isNumberChar_widthText (width : ℕ) : ∀ c ∈ widthText width, isNumberChar c = true := by
  intro c hc
  rw [isNumberChar, isDigit_widthText width c hc, Bool.true_or]

lemma hexBase_mem : 'h'.toLower ∈ ['b', 'o', 'd', 'h'] := by decide

lemma isAlphanum_hexText (n width : ℕ) :
    ∀ c ∈ (constantBits n width).hexText, (c.isAlphanum || c = '_') = true :=
  isAlphanum_digits hexBase_mem fun c hc => ((hexText_constantBits n width).1 c hc).1

/-- The literal of a constant. -/
def constantLiteral (n width : ℕ) : BasedLiteral where
  width := widthText width
  base := 'h'
  digits := (constantBits n width).hexText
  width_start := head?_widthText width
  width_chars := isNumberChar_widthText width
  base_mem := hexBase_mem
  digits_chars := isAlphanum_hexText n width

lemma svLiteral_constant (n : ℕ) {width : ℕ} (h : bitCount width ≤ 64) :
    svLiteral (logicValueFromU64 n width) 'h' = (constantLiteral n width).text := by
  have hwidth : (if 0 < (width : ℤ) then (toString (width : ℤ)).toList else []) =
      widthText width := by
    unfold widthText
    simp only [Int.natCast_pos]
    split_ifs
    · rw [Lib.toList_toString_int, if_neg (Int.not_lt.2 (Int.natCast_nonneg _)), Int.natAbs_natCast]
    · rfl
  have hcount : (if 0 < (width : ℤ) then (width : ℤ).toNat else (lowBits (bitCount width) n).length) =
      bitCount width := by
    rw [length_lowBits]
    unfold bitCount
    simp only [Int.natCast_pos, Int.toNat_natCast]
    split_ifs <;> rfl
  have hfit : fitWidth (bitCount width) '0' (lowBits (bitCount width) n) =
      lowBits (bitCount width) n := by
    have hbits := (constantBits n width).fitWidth_bits '0'
    rwa [width_constantBits] at hbits
  rw [logicValueFromU64_eq n h, svLiteral, ← String.length_toList, String.toList_ofList]
  simp only [hwidth, hcount, hfit,
    true_or, if_true, if_neg (lowBits_bitCount_ne_nil n width)]
  simp only [BasedLiteral.text, constantLiteral, BitVector.hexText, BitVector.firstNibble,
    width_constantBits]
  rfl

/-- Constants of at most 64 bits have a width of at most two digits. -/
lemma plainWidth_constantLiteral (n : ℕ) {width : ℕ} (h : bitCount width ≤ 64) :
    (constantLiteral n width).PlainWidth := by
  refine ⟨isDigit_widthText width, ?_⟩
  have hall : ∀ w ≤ 64, (widthText w).length ≤ 9 := by decide +kernel
  exact hall width (bitCount_le h)

/-- The digits of a constant give its number back, as far as the constant has bits. -/
lemma parseRadix_hexText (n : ℕ) {width : ℕ} (h : bitCount width ≤ 64) :
    parseRadix (constantBits n width).hexText 'h' width = logicValueFromU64 n width := by
  obtain ⟨hall, hspelled⟩ := hexText_constantBits n width
  have hvalid : ∀ c ∈ (constantBits n width).hexText, isRadixDigit 'h' c = true :=
    fun c hc => (hall c hc).1
  have hany : (constantBits n width).hexText.any isXZ = false :=
    List.any_eq_false.2 fun c hc => by rw [(hall c hc).2]; exact Bool.false_ne_true
  obtain ⟨hknown, -⟩ := radixBits_known (Or.inr (Or.inr rfl)) hvalid hany
  rw [parseRadix_known (Or.inr (Or.inr rfl)) hvalid hany, logicValueFromU64_eq _ h,
    logicValueFromU64_eq _ h]
  congr 2
  generalize radixNumber (radixShift 'h') (constantBits n width).hexText = number at hknown ⊢
  generalize radixShift 'h' * (constantBits n width).hexText.length = count at hknown
  rw [hspelled] at hknown
  -- the last bits of the number are the bits of the constant
  have hlow : lowBits (bitCount width) n = lowBits (bitCount width) number := by
    have hlength := congrArg List.length hknown
    rw [List.length_append, List.length_replicate, length_lowBits, length_lowBits] at hlength
    rw [← hlength, lowBits_add] at hknown
    exact (List.append_inj hknown (by simp [length_lowBits])).2
  rw [hlow, lowBits_eq_iff]
  intro i hi
  rw [Nat.testBit_mod_two_pow, decide_eq_true (by omega), Bool.true_and]

/-- The literal of a constant is read as the constant. -/
lemma parseConst_svLiteral (n : ℕ) {width : ℕ} (h : bitCount width ≤ 64) :
    parseConst (svLiteral (logicValueFromU64 n width) 'h').toList =
      .ok (.const (logicValueFromU64 n width), []) := by
  have hclean : (constantLiteral n width).clean = (constantBits n width).hexText :=
    cleanText_radixDigits hexBase_mem fun c hc => ((hexText_constantBits n width).1 c hc).1
  have hvalue : (constantLiteral n width).widthValue = width := digitsValue_widthText width
  rw [svLiteral_constant n h, BasedLiteral.parseConst_text _ (plainWidth_constantLiteral n h), hclean,
    hvalue, ← parseRadix_hexText n h]
  rfl

/-! ### Expressions are read back -/

/-- The constants are known and have at most 64 bits. -/
def ExprNode.KnownConstants (e : ExprNode) : Prop :=
  ∀ v ∈ e.constants, v.known = true ∧ v.bits.length ≤ 64

/-- A constant of at most 64 bits that is read back. -/
def IsNumber (v : LogicValue) : Prop :=
  ∃ n width : ℕ, v = logicValueFromU64 n width ∧ bitCount width ≤ 64

lemma isNumber_of_parse {text : String} {e : ExprNode} (h : parseExpression text = .ok e)
    (hknown : e.KnownConstants) : ∀ v ∈ e.constants, IsNumber v := by
  intro v hv
  obtain ⟨hk, hlength⟩ := hknown v hv
  obtain ⟨n, width, rfl⟩ := isRead_of_parse h v hv hk
  rw [← String.length_toList, length_logicValueFromU64, bitCount_eq] at hlength
  exact ⟨n, width, rfl, hlength⟩

/-- The blanks that are written around an operator. -/
def blank : Gap := ⟨[' '], blank_isSpace⟩

/-- A serialised expression is a written one, with parentheses around every binary expression. -/
lemma exists_written {e : ExprNode} (hnames : NamesIdentifiers e)
    (hconstants : ∀ v ∈ e.constants, IsNumber v) :
    ∃ w : Written, w.text blank = (serializeExpr e).toList ∧ w.node = e ∧ w.Grouped ∧
      w.rank = 0 := by
  induction e with
  | signal name =>
      have hname : IsIdentifier name.toList := hnames name List.mem_cons_self
      exact ⟨.operand (.signal ⟨name, hname⟩), rfl, rfl, trivial, rfl⟩
  | slice name msb lsb =>
      have hname : IsIdentifier name.toList := hnames name List.mem_cons_self
      exact ⟨.operand (.slice ⟨name, hname⟩ msb lsb), rfl, rfl, trivial, rfl⟩
  | const value =>
      obtain ⟨n, width, rfl, hwidth⟩ := hconstants value List.mem_cons_self
      have hstart := (constantLiteral n width).exists_cons
      rw [← svLiteral_constant n hwidth] at hstart
      exact ⟨.operand (.const ⟨_, _, hstart, parseConst_svLiteral n hwidth⟩), rfl, rfl, trivial, rfl⟩
  | unary op right ih =>
      obtain ⟨w, htext, hnode, hgrouped, hrank⟩ := ih hnames hconstants
      refine ⟨.unary op w, ?_, ?_, ⟨hgrouped, hrank⟩, rfl⟩
      · rw [Written.text, htext, serializeExpr, String.toList_append, String.toList_ofList]
        rfl
      · rw [Written.node, hnode]
  | binary op left right ihl ihr =>
      obtain ⟨hleft, hright⟩ := hnames.operands
      obtain ⟨l, hltext, hlnode, hlgrouped, hlrank⟩ :=
        ihl hleft fun v hv => hconstants v (List.mem_append_left _ hv)
      obtain ⟨r, hrtext, hrnode, hrgrouped, hrrank⟩ :=
        ihr hright fun v hv => hconstants v (List.mem_append_right _ hv)
      refine ⟨.paren (.binary op l r), ?_, ?_, ⟨⟨hlgrouped, ?_⟩, hrgrouped, ?_⟩, rfl⟩
      · rw [toList_serializeExpr_binary, Written.text, Written.text, hltext, hrtext]
        simp [blank]
      · rw [Written.node, Written.node, hlnode, hrnode]
      · omega
      · omega

/-- A serialised expression is read as the expression, and it is serialised as before. -/
theorem parseExpression_serializeExpr {text : String} {e : ExprNode}
    (h : parseExpression text = .ok e) (hknown : e.KnownConstants) :
    parseExpression (serializeExpr e) = .ok e ∧
      ∀ e', parseExpression (serializeExpr e) = .ok e' → serializeExpr e' = serializeExpr e := by
  obtain ⟨w, htext, hnode, hgrouped, -⟩ :=
    exists_written (namesIdentifiers_of_parse h) (isNumber_of_parse h hknown)
  have hread := parseExpression_written blank hgrouped
  rw [htext, String.ofList_toList, hnode] at hread
  refine ⟨hread, fun e' he' => ?_⟩
  obtain rfl := Except.ok.inj (hread.symm.trans he')
  rfl

/-- `-~a[3] <= 'd5 & !(12'hFFF == b)`. -/
theorem parseExpression_serializeExpr_comparison :
    parseExpression "((-~a[3:3] <= 'h0000000000000005) & !(12'hfff == b))" =
      parseExpression "-~a[3] <= 'd5 & !(12'hFFF == b)" := by
  have hparse : parseExpression "-~a[3] <= 'd5 & !(12'hFFF == b)" =
      .ok (.binary .bitAnd
        (.binary .le (.unary .neg (.unary .bitNot (.slice "a" 3 3)))
          (.const (logicValueFromU64 5 0)))
        (.unary .logicNot (.binary .eq (.const (logicValueFromU64 4095 12)) (.signal "b")))) := by
    decide +kernel
  have hread := (parseExpression_serializeExpr hparse (by
    intro v hv
    simp only [ExprNode.constants, List.nil_append, List.append_nil, List.cons_append,
      List.mem_cons, List.not_mem_nil, or_false] at hv
    rcases hv with rfl | rfl <;> decide +kernel)).1
  rw [hparse, ← hread]
  congr 1

end XdebugFst.Expr
