import Mathlib
import XdebugFst.Lib.Json
import XdebugFst.Expr.Invariant
import XdebugFst.Expr.Render
import XdebugFst.Expr.Select

/-!
# Normalised expressions

`expr.normalize` answers with the tree of an expression as JSON. Signals, constants, `!` and `~`,
and the operators that the schema names are nodes of this tree; everything else is one leaf with
its text, which `serialize_expr` writes with all parentheses.

The text of a leaf can be read in one way only (`serializeExpr_inj`). The nodes lose two things:
`!` and `~` are both `not`, and a constant is shown as a hexadecimal literal, where a digit with an
unknown bit is `x` or `z` as a whole. `SameReading` says that two expressions do not differ in what
is lost, and then they have the same value everywhere.
-/

namespace XdebugFst.Expr

open Lib Waveform

/-! ### The tree -/

/-- `serialize_expr`. -/
def serializeExpr : ExprNode → String
  | .signal name => name
  | .slice name msb lsb => name ++ "[" ++ toString msb ++ ":" ++ toString lsb ++ "]"
  | .const value => svLiteral value 'h'
  | .unary op right => String.ofList [op.token] ++ serializeExpr right
  | .binary op left right =>
      "(" ++ serializeExpr left ++ " " ++ String.ofList op.token ++ " " ++ serializeExpr right ++ ")"

/-- `schema_operator`: the name of an operator in the schema, empty when there is none. -/
def schemaOperator : BinaryOp → String
  | .logicOr => "or"
  | .logicAnd => "and"
  | .ne => "neq"
  | .eq => "eq"
  | .ge => "ge"
  | .le => "le"
  | .gt => "gt"
  | .lt => "lt"
  | .add => "add"
  | .sub => "sub"
  | .mul => "mul"
  | _ => ""

/-- A leaf with the text of an expression. -/
def unknownAst (e : ExprNode) : Json :=
  .object [("type", .string "unknown"), ("text", .string (serializeExpr e))]

/-- A node with an operator. -/
def operatorAst (op : String) (args : List Json) : Json :=
  .object [("op", .string op), ("args", .array args)]

/-- `expr_ast`. -/
def exprAst : ExprNode → Json
  | .signal name => .object [("type", .string "signal"), ("name", .string name)]
  | .slice name msb lsb => unknownAst (.slice name msb lsb)
  | .const value => .object [("type", .string "const"), ("value", .string (svLiteral value 'h'))]
  | .unary op right =>
      if op = .logicNot ∨ op = .bitNot then operatorAst "not" [exprAst right]
      else unknownAst (.unary op right)
  | .binary op left right =>
      if schemaOperator op = "" then unknownAst (.binary op left right)
      else operatorAst (schemaOperator op) [exprAst left, exprAst right]

/-! ### What the parser builds -/

/-- The names of an expression are identifiers. -/
def NamesIdentifiers (e : ExprNode) : Prop :=
  ∀ name ∈ e.occurrences, IsIdentifier name.toList

/-- What is read as an identifier is read as one again. -/
lemma identTail_identTail (text : List Char) :
    identTail (identTail text).1 = ((identTail text).1, []) := by
  induction text with
  | nil => rfl
  | cons c rest ih =>
      by_cases hchar : isIdentChar c = true
      · rw [identTail, if_pos hchar, identTail, if_pos hchar, ih]
      by_cases hdot : c = '.' ∧ rest.head?.any isIdentStart = true
      · -- a new part follows the dot, and its first character is read again
        have hhead : (identTail rest).1.head?.any isIdentStart = true := by
          cases rest with
          | nil => exact absurd hdot.2 (by decide)
          | cons d rest =>
              have hstart : isIdentStart d = true := hdot.2
              have hident : isIdentChar d = true := by
                simp only [isIdentStart, Bool.or_eq_true, decide_eq_true_eq] at hstart
                rcases hstart with h | h
                · simp [isIdentChar, Char.isAlphanum, h]
                · simp [isIdentChar, h]
              rw [identTail, if_pos hident]
              exact hstart
        rw [identTail, if_neg hchar, if_pos hdot, identTail, if_neg hchar,
          if_pos ⟨hdot.1, hhead⟩, ih]
      · rw [identTail, if_neg hchar, if_neg hdot]
        rfl

lemma isIdentifier_parseIdentifier {text name rest : List Char}
    (h : parseIdentifier text = (name, rest)) (hne : name ≠ []) : IsIdentifier name := by
  rw [parseIdentifier] at h
  split at h
  · exact absurd (Prod.ext_iff.1 h).1.symm hne
  split at h
  · rename_i c tail _ hstart
    obtain rfl : c :: (identTail tail).1 = name := (Prod.ext_iff.1 h).1
    refine ⟨hne, ?_⟩
    rw [parseIdentifier, skipWs_cons (isSpace_of_isIdentStart hstart)]
    show (if isIdentStart c then _ else _) = _
    rw [if_pos hstart, identTail_identTail]
  · exact absurd (Prod.ext_iff.1 h).1.symm hne

lemma namesIdentifiers_const (value : LogicValue) : NamesIdentifiers (.const value) := nofun

lemma NamesIdentifiers.binary {left right : ExprNode} (op : BinaryOp)
    (hl : NamesIdentifiers left) (hr : NamesIdentifiers right) :
    NamesIdentifiers (.binary op left right) := by
  intro name hname
  rcases List.mem_append.1 hname with h | h
  · exact hl name h
  · exact hr name h

lemma NamesIdentifiers.operands {op : BinaryOp} {left right : ExprNode}
    (h : NamesIdentifiers (.binary op left right)) :
    NamesIdentifiers left ∧ NamesIdentifiers right :=
  ⟨fun name hname => h name (List.mem_append_left _ hname),
    fun name hname => h name (List.mem_append_right _ hname)⟩

/-- A constant is read as a constant. -/
lemma exists_const_of_parseConst {text rest : List Char} {e : ExprNode}
    (h : parseConst text = .ok (e, rest)) : ∃ value, e = .const value := by
  have hdecimal : ∀ {text}, parseDecimal text = .ok (e, rest) → ∃ value, e = .const value := by
    intro text h
    rw [parseDecimal] at h
    split_ifs at h
    cases h
    exact ⟨_, rfl⟩
  rw [parseConst] at h
  split at h
  · exact hdecimal h
  · split_ifs at h
    · split at h
      · cases h
        exact ⟨_, rfl⟩
      · cases h
        exact ⟨_, rfl⟩
      · exact hdecimal h
    · exact hdecimal h

/-- A select has the name that was read. -/
lemma occurrences_of_parseSelect {name : String} {text rest : List Char} {e : ExprNode}
    (h : parseSelect name text = .ok (e, rest)) : e.occurrences = [name] := by
  rw [parseSelect] at h
  split at h
  · dsimp only at h
    split at h
    · cases h
      rfl
    · cases h
  · cases h
    rfl

lemma parserInvariant_namesIdentifiers : ParserInvariant fun e _ => NamesIdentifiers e where
  stop h := h
  binary hleft _ hright := hleft.binary _ hright
  unary h := h
  paren h _ := h
  const h := by
    obtain ⟨value, rfl⟩ := exists_const_of_parseConst h
    exact namesIdentifiers_const value
  select hname hne h := by
    rw [NamesIdentifiers, occurrences_of_parseSelect h, List.forall_mem_singleton,
      String.toList_ofList]
    exact isIdentifier_parseIdentifier hname hne

/-- The names in an expression that is accepted are identifiers. -/
lemma namesIdentifiers_of_parse {text : String} {e : ExprNode}
    (h : parseExpression text = .ok e) : NamesIdentifiers e := by
  obtain ⟨-, -, hnames⟩ := parserInvariant_namesIdentifiers.parseExpression h
  exact hnames

/-! ### Texts of leaves -/

/-- What can follow the text of an operand. -/
def EndsText (rest : List Char) : Prop := ∀ c ∈ rest.head?, c = ' ' ∨ c = ')'

/-- Two texts of characters of a class that end at characters outside of it. -/
lemma append_inj_of_class {p : Char → Bool} {a b r r' : List Char} (ha : ∀ c ∈ a, p c = true)
    (hb : ∀ c ∈ b, p c = true) (hr : ∀ c ∈ r.head?, p c = false)
    (hr' : ∀ c ∈ r'.head?, p c = false) (h : a ++ r = b ++ r') : a = b ∧ r = r' := by
  have hstop : ∀ {t : List Char}, (∀ c ∈ t.head?, p c = false) → t.takeWhile p = [] := by
    intro t ht
    cases t with
    | nil => rfl
    | cons c t =>
        rw [List.takeWhile_cons, if_neg]
        rw [ht c rfl]
        exact Bool.false_ne_true
  have htake := congrArg (List.takeWhile p) h
  rw [List.takeWhile_append_of_pos ha, List.takeWhile_append_of_pos hb, hstop hr, hstop hr',
    List.append_nil, List.append_nil] at htake
  exact ⟨htake, List.append_cancel_left (htake ▸ h)⟩

/-- A character that ends no operand. -/
def isInner (c : Char) : Bool := c ≠ ' ' ∧ c ≠ ')'

lemma EndsText.isInner {rest : List Char} (h : EndsText rest) :
    ∀ c ∈ rest.head?, isInner c = false := by
  intro c hc
  rcases h c hc with rfl | rfl <;> rfl

/-- A class of characters without the two that end an operand. -/
lemma isInner_of_class {p : Char → Bool} (hblank : p ' ' = false) (hparen : p ')' = false)
    {c : Char} (h : p c = true) : isInner c = true := by
  refine decide_eq_true ⟨?_, ?_⟩
  · rintro rfl
    rw [hblank] at h
    cases h
  · rintro rfl
    rw [hparen] at h
    cases h

lemma isNameChar_identTail {tail : List Char} (h : identTail tail = (tail, [])) :
    ∀ c ∈ tail, (isIdentChar c || c = '.') = true := by
  induction tail with
  | nil => exact nofun
  | cons d tail ih =>
      have hcons : ∀ p : List Char × List Char, ((d :: p.1, p.2) : List Char × List Char) =
          (d :: tail, []) → p = (tail, []) := by
        rintro ⟨a, b⟩ hp
        obtain ⟨h1, h2⟩ := Prod.ext_iff.1 hp
        exact Prod.ext (List.cons.inj h1).2 h2
      rw [identTail] at h
      intro c hc
      split_ifs at h with hident hdot
      · rcases List.mem_cons.1 hc with rfl | hc
        · rw [hident]
          rfl
        · exact ih (hcons _ h) c hc
      · rcases List.mem_cons.1 hc with rfl | hc
        · rw [hdot.1]
          rfl
        · exact ih (hcons _ h) c hc
      · exact absurd (Prod.ext_iff.1 h).1 (by simp)

/-- The characters of an identifier. -/
lemma IsIdentifier.isNameChar {name : List Char} (h : IsIdentifier name) :
    ∀ c ∈ name, (isIdentChar c || c = '.') = true := by
  obtain ⟨d, tail, rfl, hstart, htail⟩ := h.exists_cons
  intro c hc
  rcases List.mem_cons.1 hc with rfl | hc
  · simp only [isIdentStart, Bool.or_eq_true, decide_eq_true_eq] at hstart
    rcases hstart with h | h
    · simp [isIdentChar, Char.isAlphanum, h]
    · simp [isIdentChar, h]
  · exact isNameChar_identTail htail c hc

lemma isInner_nibbleToHex (nib : List Char) : isInner (nibbleToHex nib) = true := by
  rw [nibbleToHex]
  split_ifs
  · rfl
  · rfl
  · have hdigit : ∀ i < 16, isInner (['0', '1', '2', '3', '4', '5', '6', '7', '8', '9', 'a', 'b',
        'c', 'd', 'e', 'f'].getD i '0') = true := by decide
    exact hdigit _ (Nat.mod_lt _ (by decide))

lemma isInner_hexDigits (bits : List Char) : ∀ c ∈ hexDigits bits, isInner c = true := by
  induction bits using hexDigits.induct with
  | case1 => simp [hexDigits]
  | case2 a b c d rest ih =>
      rw [hexDigits]
      intro e he
      rcases List.mem_cons.1 he with rfl | he
      · exact isInner_nibbleToHex _
      · exact ih e he
  | case3 rest hnil hlong =>
      rw [hexDigits]
      · intro e he
        rw [List.mem_singleton.1 he]
        exact isInner_nibbleToHex _
      · exact hnil
      · exact hlong

/-- The text of a constant: the digits of its width, a tick, and more. -/
lemma toList_svLiteral_hex (v : LogicValue) : ∃ width digits : List Char,
    (svLiteral v 'h').toList = width ++ '\'' :: 'h' :: digits ∧ (∀ c ∈ width, c.isDigit = true) ∧
      ∀ c ∈ digits, isInner c = true := by
  have hwidth : ∀ c ∈ (if 0 < v.width then (toString v.width).toList else []),
      c.isDigit = true := by
    intro c hc
    split_ifs at hc with hpos
    · rw [toList_toString_int, if_neg (by omega)] at hc
      exact isDigit_of_mem_toDigits _ c hc
    · cases hc
  rw [svLiteral, if_pos (Or.inl rfl), String.toList_ofList]
  refine ⟨_, _, rfl, hwidth, ?_⟩
  intro c hc
  generalize fitWidth _ '0' v.bits.toList = padded at hc
  split at hc
  · cases hc
  · rcases List.mem_cons.1 hc with rfl | hc
    · exact isInner_nibbleToHex _
    · exact isInner_hexDigits _ c hc

/-- An operand without operators. -/
def ExprNode.IsAtom : ExprNode → Prop
  | .signal _ | .slice _ _ _ | .const _ => True
  | _ => False

/-- The text of an atom goes on up to what ends an operand. -/
lemma isInner_serializeExpr {e : ExprNode} (hnames : NamesIdentifiers e) (hatom : e.IsAtom) :
    ∀ c ∈ (serializeExpr e).toList, isInner c = true := by
  have hname : ∀ {name : String}, IsIdentifier name.toList →
      ∀ c ∈ name.toList, isInner c = true := fun h c hc =>
    isInner_of_class (p := fun c => isIdentChar c || c = '.') rfl rfl (h.isNameChar c hc)
  have hint : ∀ (i : ℤ), ∀ c ∈ (toString i).toList, isInner c = true := by
    intro i c hc
    refine decide_eq_true ⟨?_, ?_⟩
    · rintro rfl
      exact notMem_toString_int rfl (by decide) i hc
    · rintro rfl
      exact notMem_toString_int rfl (by decide) i hc
  cases e with
  | signal name => exact hname (hnames name List.mem_cons_self)
  | slice name msb lsb =>
      have htext : (serializeExpr (.slice name msb lsb)).toList = _ := toList_selectText name msb lsb
      rw [htext]
      simp only [List.mem_append, List.mem_cons, List.not_mem_nil, or_false]
      rintro c (hc | rfl | hc | rfl | hc | rfl)
      · exact hname (hnames name List.mem_cons_self) c hc
      · rfl
      · exact hint msb c hc
      · rfl
      · exact hint lsb c hc
      · rfl
  | const value =>
      obtain ⟨width, digits, htext, hwidth, hdigits⟩ := toList_svLiteral_hex value
      rw [serializeExpr, htext]
      simp only [List.mem_append, List.mem_cons]
      rintro c (hc | rfl | rfl | hc)
      · exact isInner_of_class rfl rfl (hwidth c hc)
      · rfl
      · rfl
      · exact hdigits c hc
  | unary op right => exact hatom.elim
  | binary op left right => exact hatom.elim

/-- The kind of a node as the first character of its text shows it. -/
inductive Lead
  | name | literal | unary | binary
  deriving DecidableEq

def leadOf (c : Char) : Lead :=
  if c = '(' then .binary
  else if c = '!' ∨ c = '~' ∨ c = '-' then .unary
  else if c.isDigit ∨ c = '\'' then .literal
  else .name

def ExprNode.lead : ExprNode → Lead
  | .signal _ | .slice _ _ _ => .name
  | .const _ => .literal
  | .unary _ _ => .unary
  | .binary _ _ _ => .binary

lemma leadOf_isIdentStart {c : Char} (h : isIdentStart c = true) : leadOf c = .name := by
  have hclass : ∀ d : Char, isIdentStart d = false → c ≠ d := by
    rintro d hd rfl
    rw [hd] at h
    cases h
  have hdigit : c.isDigit = false := by
    by_contra hd
    rw [Bool.not_eq_false] at hd
    have hle := toNat_of_isDigit hd
    simp only [isIdentStart, Bool.or_eq_true, decide_eq_true_eq, Char.isAlpha, Char.isUpper,
      Char.isLower, Bool.and_eq_true] at h
    rcases h with (⟨h, -⟩ | ⟨h, -⟩) | rfl
    · exact absurd (toNat_le_of_le h) (by simp; omega)
    · exact absurd (toNat_le_of_le h) (by simp; omega)
    · exact absurd hd (by decide)
  rw [leadOf, if_neg (hclass _ rfl), if_neg, if_neg]
  · rw [hdigit]
    simpa using hclass _ rfl
  · rintro (h | h | h)
    · exact hclass _ rfl h
    · exact hclass _ rfl h
    · exact hclass _ rfl h

lemma leadOf_isDigit {c : Char} (h : c.isDigit = true) : leadOf c = .literal := by
  have hclass : ∀ d : Char, d.isDigit = false → c ≠ d := by
    rintro d hd rfl
    rw [hd] at h
    cases h
  rw [leadOf, if_neg (hclass _ rfl), if_neg, if_pos (Or.inl h)]
  rintro (h | h | h)
  · exact hclass _ rfl h
  · exact hclass _ rfl h
  · exact hclass _ rfl h

/-- The first character of a text shows the kind of the node. -/
lemma exists_lead {e : ExprNode} (hnames : NamesIdentifiers e) :
    ∃ c tail, (serializeExpr e).toList = c :: tail ∧ leadOf c = e.lead := by
  cases e with
  | signal name =>
      obtain ⟨c, tail, htext, hstart, -⟩ := (hnames name List.mem_cons_self).exists_cons
      exact ⟨c, tail, htext, leadOf_isIdentStart hstart⟩
  | slice name msb lsb =>
      obtain ⟨c, tail, htext, hstart, -⟩ := (hnames name List.mem_cons_self).exists_cons
      have hslice : (serializeExpr (.slice name msb lsb)).toList = _ :=
        toList_selectText name msb lsb
      rw [hslice, htext]
      exact ⟨c, _, rfl, leadOf_isIdentStart hstart⟩
  | const value =>
      obtain ⟨width, digits, htext, hwidth, -⟩ := toList_svLiteral_hex value
      rw [serializeExpr, htext]
      cases width with
      | nil => exact ⟨_, _, rfl, rfl⟩
      | cons c width => exact ⟨c, _, rfl, leadOf_isDigit (hwidth c List.mem_cons_self)⟩
  | unary op right =>
      rw [serializeExpr, String.toList_append, String.toList_ofList]
      refine ⟨op.token, _, rfl, ?_⟩
      cases op <;> rfl
  | binary op left right =>
      simp only [serializeExpr, String.toList_append]
      exact ⟨'(', _, rfl, rfl⟩

/-- The text of an operator, between blanks and parentheses. -/
lemma toList_serializeExpr_binary (op : BinaryOp) (left right : ExprNode) :
    (serializeExpr (.binary op left right)).toList =
      '(' :: ((serializeExpr left).toList ++ ' ' :: (op.token ++ ' ' ::
        ((serializeExpr right).toList ++ [')']))) := by
  simp only [serializeExpr, String.toList_append, String.toList_ofList, List.append_assoc]
  rfl

lemma toList_serializeExpr_unary (op : UnaryOp) (right : ExprNode) :
    (serializeExpr (.unary op right)).toList = op.token :: (serializeExpr right).toList := by
  rw [serializeExpr, String.toList_append, String.toList_ofList]
  rfl

/-! ### One reading -/

/-- The values of one bit. -/
def bitValues : List LogicValue := [fromBool false, fromBool true, unknownBool]

/-- The operator gives one bit, whatever its operands are. -/
def BinaryOp.isTest : BinaryOp → Bool
  | .lt | .le | .gt | .ge | .eq | .ne | .caseEq | .caseNe | .wildZ | .wildX | .wildInside
  | .logicAnd | .logicOr => true
  | _ => false

/-- An expression of one bit by its operators. -/
def ExprNode.IsBit : ExprNode → Prop
  | .signal _ | .slice _ _ _ => False
  | .const value => value ∈ bitValues
  | .unary op right => op = .logicNot ∨ right.IsBit
  | .binary op left right => op.isTest = true ∨ left.IsBit ∧ right.IsBit

/-- Two expressions do not differ in what the tree loses: where both have a prefix operator, it is
the same one or its operand has one bit, and where both have a constant, it is the same one. -/
def SameReading : ExprNode → ExprNode → Prop
  | .const v, .const w => v = w
  | .unary op right, .unary op' right' => (op = op' ∨ right.IsBit) ∧ SameReading right right'
  | .binary _ left right, .binary _ left' right' =>
      SameReading left left' ∧ SameReading right right'
  | _, _ => True

section Readings

variable {e₁ e₂ : ExprNode}

lemma lead_eq (h₁ : NamesIdentifiers e₁) (h₂ : NamesIdentifiers e₂) {r₁ r₂ : List Char}
    (h : (serializeExpr e₁).toList ++ r₁ = (serializeExpr e₂).toList ++ r₂) :
    e₁.lead = e₂.lead := by
  obtain ⟨c₁, tail₁, htext₁, hlead₁⟩ := exists_lead h₁
  obtain ⟨c₂, tail₂, htext₂, hlead₂⟩ := exists_lead h₂
  rw [htext₁, htext₂, List.cons_append, List.cons_append] at h
  rw [← hlead₁, ← hlead₂, (List.cons.inj h).1]

lemma atom_inj (h₁ : NamesIdentifiers e₁) (h₂ : NamesIdentifiers e₂) (ha₁ : e₁.IsAtom)
    (ha₂ : e₂.IsAtom) {r₁ r₂ : List Char} (hr₁ : EndsText r₁) (hr₂ : EndsText r₂)
    (h : (serializeExpr e₁).toList ++ r₁ = (serializeExpr e₂).toList ++ r₂) :
    serializeExpr e₁ = serializeExpr e₂ ∧ r₁ = r₂ := by
  obtain ⟨htext, hrest⟩ := append_inj_of_class (isInner_serializeExpr h₁ ha₁)
    (isInner_serializeExpr h₂ ha₂) hr₁.isInner hr₂.isInner h
  exact ⟨String.toList_inj.1 htext, hrest⟩

/-- Two operators before a blank: their levels would read them differently. -/
lemma token_inj {op op' : BinaryOp} {r r' : List Char}
    (h : op.token ++ ' ' :: r = op'.token ++ ' ' :: r') : op = op' ∧ r = r' := by
  have hplain : Plain ' ' := by decide
  have hread := operatorAt_level op hplain r
  have hread' := operatorAt_level op' hplain r'
  rcases lt_trichotomy op.level op'.level with hlt | heq | hgt
  · rw [h, operatorAt_lt op' hplain r' hlt] at hread
    cases hread
  · rw [h, heq, hread'] at hread
    cases hread
    exact ⟨rfl, rfl⟩
  · rw [← h, operatorAt_lt op hplain r hgt] at hread'
    cases hread'

lemma endsText_blank (r : List Char) : EndsText (' ' :: r) := by
  intro c hc
  cases hc
  exact Or.inl rfl

lemma endsText_paren (r : List Char) : EndsText (')' :: r) := by
  intro c hc
  cases hc
  exact Or.inr rfl

/-- A name is not the text of a select. -/
lemma ne_selectText {name : String} (h : IsIdentifier name.toList) (name' : String) (msb lsb : ℤ) :
    name ≠ selectText name' msb lsb := by
  rintro rfl
  have hmem : '[' ∈ (selectText name' msb lsb).toList := by
    rw [toList_selectText]
    simp
  exact absurd (h.isNameChar _ hmem) (by decide)

/-- Names and selects with one text are the same. -/
lemma eq_of_serializeExpr_name (h₁ : NamesIdentifiers e₁) (h₂ : NamesIdentifiers e₂)
    (hlead₁ : e₁.lead = .name) (hlead₂ : e₂.lead = .name)
    (htext : serializeExpr e₁ = serializeExpr e₂) : e₁ = e₂ := by
  cases e₁ with
  | signal name =>
      have hname := h₁ name List.mem_cons_self
      cases e₂ with
      | signal name' => exact congrArg _ htext
      | slice name' msb lsb => exact absurd htext (ne_selectText hname name' msb lsb)
      | _ => cases hlead₂
  | slice name msb lsb =>
      have hname := h₁ name List.mem_cons_self
      cases e₂ with
      | signal name' =>
          exact absurd htext.symm (ne_selectText (h₂ name' List.mem_cons_self) name msb lsb)
      | slice name' msb' lsb' =>
          -- the parser reads the select back
          have hparse := parseExpression_selectText hname msb lsb
          rw [show selectText name msb lsb = selectText name' msb' lsb' from htext,
            parseExpression_selectText (h₂ name' List.mem_cons_self)] at hparse
          exact (Except.ok.inj hparse).symm
      | _ => cases hlead₂
  | _ => cases hlead₁

lemma isAtom_of_lead_name {e : ExprNode} (h : e.lead = .name) : e.IsAtom := by
  cases e with
  | signal name => trivial
  | slice name msb lsb => trivial
  | _ => cases h

lemma name_inj (h₁ : NamesIdentifiers e₁) (h₂ : NamesIdentifiers e₂) (hlead₁ : e₁.lead = .name)
    (hlead₂ : e₂.lead = .name) {r₁ r₂ : List Char} (hr₁ : EndsText r₁) (hr₂ : EndsText r₂)
    (h : (serializeExpr e₁).toList ++ r₁ = (serializeExpr e₂).toList ++ r₂) :
    e₁ = e₂ ∧ r₁ = r₂ := by
  obtain ⟨htext, hrest⟩ := atom_inj h₁ h₂ (isAtom_of_lead_name hlead₁) (isAtom_of_lead_name hlead₂)
    hr₁ hr₂ h
  exact ⟨eq_of_serializeExpr_name h₁ h₂ hlead₁ hlead₂ htext, hrest⟩

/-- The text of an expression is that of one expression only, up to the values of constants. -/
lemma serializeExpr_inj (h₁ : NamesIdentifiers e₁) (h₂ : NamesIdentifiers e₂)
    (hsame : SameReading e₁ e₂) {r₁ r₂ : List Char} (hr₁ : EndsText r₁) (hr₂ : EndsText r₂)
    (h : (serializeExpr e₁).toList ++ r₁ = (serializeExpr e₂).toList ++ r₂) :
    e₁ = e₂ ∧ r₁ = r₂ := by
  have hlead := lead_eq h₁ h₂ h
  -- the first character shows that both expressions are of the same kind
  induction e₁ generalizing e₂ r₁ r₂ with
  | signal name => exact name_inj h₁ h₂ rfl hlead.symm hr₁ hr₂ h
  | slice name msb lsb => exact name_inj h₁ h₂ rfl hlead.symm hr₁ hr₂ h
  | const value =>
      cases e₂ with
      | const value' =>
          obtain rfl : value = value' := hsame
          exact ⟨rfl, List.append_cancel_left h⟩
      | _ => cases hlead
  | unary op right ih =>
      cases e₂ with
      | unary op' right' =>
          rw [toList_serializeExpr_unary, toList_serializeExpr_unary, List.cons_append,
            List.cons_append] at h
          obtain ⟨hop, hright⟩ := List.cons.inj h
          have h₂' : NamesIdentifiers right' := h₂
          have h₁' : NamesIdentifiers right := h₁
          obtain ⟨rfl, hrest⟩ := ih h₁' h₂' hsame.2 hr₁ hr₂ hright (lead_eq h₁' h₂' hright)
          refine ⟨?_, hrest⟩
          cases op <;> cases op' <;> first | rfl | exact absurd hop (by decide)
      | _ => cases hlead
  | binary op left right ihl ihr =>
      cases e₂ with
      | binary op' left' right' =>
          obtain ⟨hl₁, hr₁'⟩ := h₁.operands
          obtain ⟨hl₂, hr₂'⟩ := h₂.operands
          rw [toList_serializeExpr_binary, toList_serializeExpr_binary] at h
          simp only [List.cons_append, List.append_assoc, List.nil_append] at h
          have hleft := (List.cons.inj h).2
          obtain ⟨rfl, hoperator⟩ := ihl hl₁ hl₂ hsame.1 (endsText_blank _) (endsText_blank _)
            hleft (lead_eq hl₁ hl₂ hleft)
          obtain ⟨rfl, hright⟩ := token_inj (List.cons.inj hoperator).2
          obtain ⟨rfl, hrest⟩ := ihr hr₁' hr₂' hsame.2 (endsText_paren _) (endsText_paren _)
            hright (lead_eq hr₁' hr₂' hright)
          exact ⟨rfl, (List.cons.inj hrest).2⟩
      | _ => cases hlead

end Readings

/-! ### One value -/

lemma exprAst_inj_unknown {e₁ e₂ : ExprNode} (h₁ : NamesIdentifiers e₁)
    (h₂ : NamesIdentifiers e₂) (hsame : SameReading e₁ e₂) (h : unknownAst e₁ = unknownAst e₂) :
    e₁ = e₂ := by
  have htext : serializeExpr e₁ = serializeExpr e₂ := by
    simpa [unknownAst] using h
  have hends : EndsText [] := nofun
  exact (serializeExpr_inj h₁ h₂ hsame hends hends (by rw [htext])).1

lemma schemaOperator_inj {op op' : BinaryOp} (hne : schemaOperator op ≠ "")
    (h : schemaOperator op = schemaOperator op') : op = op' := by
  cases op <;> first | exact absurd rfl hne | cases op' <;> first | rfl | exact absurd h (by decide)

section Values

variable (wf : Backend) (timeIdx : ℕ) (point : ObservationPoint)

lemma evalUnary_logicNot_mem (v : LogicValue) : evalUnary .logicNot v ∈ bitValues := by
  rw [evalUnary]
  split <;> decide

lemma fromBool_mem (b : Bool) : fromBool b ∈ bitValues := by
  cases b <;> decide

lemma unknownBool_mem : unknownBool ∈ bitValues := by decide

lemma cmp_mem (op : BinaryOp) (l r : LogicValue) : cmp op l r ∈ bitValues := by
  rw [cmp]
  split_ifs
  · exact unknownBool_mem
  · exact fromBool_mem _

lemma eq_mem (op : BinaryOp) (l r : LogicValue) : eq op l r ∈ bitValues := by
  rw [eq]
  dsimp only
  split
  · exact unknownBool_mem
  · exact fromBool_mem _

lemma wildcardCaseEq_mem (op : BinaryOp) (l r : LogicValue) :
    wildcardCaseEq op l r ∈ bitValues := fromBool_mem _

lemma evalBinary_logic_mem {op : BinaryOp} (h : op = .logicAnd ∨ op = .logicOr)
    (l r : LogicValue) : evalBinary op l r ∈ bitValues := by
  rcases h with rfl | rfl
  · rw [evalBinary]
    cases logicalTruth l <;> cases logicalTruth r <;> decide
  · rw [evalBinary]
    cases logicalTruth l <;> cases logicalTruth r <;> decide

lemma evalBinary_isTest_mem {op : BinaryOp} (h : op.isTest = true) (l r : LogicValue) :
    evalBinary op l r ∈ bitValues := by
  cases op with
  | lt | le | gt | ge =>
      simp only [evalBinary]
      exact cmp_mem _ l r
  | eq | ne | caseEq | caseNe =>
      simp only [evalBinary]
      exact eq_mem _ l r
  | wildZ | wildX | wildInside =>
      simp only [evalBinary]
      exact wildcardCaseEq_mem _ l r
  | logicAnd => exact evalBinary_logic_mem (Or.inl rfl) l r
  | logicOr => exact evalBinary_logic_mem (Or.inr rfl) l r
  | _ => cases h

/-- Operators of one-bit values give one bit, and `~` is `!` on them. -/
lemma evalUnary_bit {v : LogicValue} (h : v ∈ bitValues) :
    evalUnary .bitNot v = evalUnary .logicNot v ∧ evalUnary .neg v ∈ bitValues := by
  simp only [bitValues, List.mem_cons, List.not_mem_nil, or_false] at h
  rcases h with rfl | rfl | rfl <;> decide

lemma evalBinary_bit (op : BinaryOp) {l r : LogicValue} (hl : l ∈ bitValues)
    (hr : r ∈ bitValues) : evalBinary op l r ∈ bitValues := by
  simp only [bitValues, List.mem_cons, List.not_mem_nil, or_false] at hl hr
  rcases hl with rfl | rfl | rfl <;> rcases hr with rfl | rfl | rfl <;> cases op <;> decide

lemma ExprNode.IsBit.eval_mem {e : ExprNode} (h : e.IsBit) :
    evalExpression wf timeIdx point e ∈ bitValues := by
  induction e with
  | signal name => exact h.elim
  | slice name msb lsb => exact h.elim
  | const value => exact h
  | unary op right ih =>
      rw [evalExpression]
      cases op with
      | logicNot => exact evalUnary_logicNot_mem _
      | bitNot =>
          rw [(evalUnary_bit (ih (h.resolve_left (by decide)))).1]
          exact evalUnary_logicNot_mem _
      | neg => exact (evalUnary_bit (ih (h.resolve_left (by decide)))).2
  | binary op left right ihl ihr =>
      rw [evalExpression]
      rcases h with htest | ⟨hl, hr⟩
      · exact evalBinary_isTest_mem htest _ _
      · exact evalBinary_bit op (ihl hl) (ihr hr)

/-- Prefix operators that are shown as `not`, before operands of one value. -/
lemma evalUnary_not {op op' : UnaryOp} (hop : op = .logicNot ∨ op = .bitNot)
    (hop' : op' = .logicNot ∨ op' = .bitNot) {v : LogicValue} (h : op = op' ∨ v ∈ bitValues) :
    evalUnary op v = evalUnary op' v := by
  rcases h with rfl | hv
  · rfl
  · have hnot := (evalUnary_bit hv).1
    rcases hop with rfl | rfl <;> rcases hop' with rfl | rfl
    · rfl
    · exact hnot.symm
    · exact hnot
    · rfl

/-- How a node is shown. -/
lemma exprAst_cases (e : ExprNode) :
    (∃ name, e = .signal name) ∨ (∃ value, e = .const value) ∨
      (∃ op right, e = .unary op right ∧ (op = .logicNot ∨ op = .bitNot)) ∨
      (∃ op left right, e = .binary op left right ∧ schemaOperator op ≠ "") ∨
      exprAst e = unknownAst e := by
  cases e with
  | signal name => exact .inl ⟨name, rfl⟩
  | slice name msb lsb => exact .inr (.inr (.inr (.inr rfl)))
  | const value => exact .inr (.inl ⟨value, rfl⟩)
  | unary op right =>
      by_cases hop : op = .logicNot ∨ op = .bitNot
      · exact .inr (.inr (.inl ⟨op, right, rfl, hop⟩))
      · exact .inr (.inr (.inr (.inr (if_neg hop))))
  | binary op left right =>
      by_cases hop : schemaOperator op = ""
      · exact .inr (.inr (.inr (.inr (if_pos hop))))
      · exact .inr (.inr (.inr (.inl ⟨op, left, right, rfl, hop⟩)))

lemma exprAst_not {op : UnaryOp} (hop : op = .logicNot ∨ op = .bitNot) (right : ExprNode) :
    exprAst (.unary op right) = operatorAst "not" [exprAst right] := if_pos hop

lemma exprAst_operator {op : BinaryOp} (hop : schemaOperator op ≠ "") (left right : ExprNode) :
    exprAst (.binary op left right) =
      operatorAst (schemaOperator op) [exprAst left, exprAst right] := if_neg hop

variable {e₁ e₂ : ExprNode}

/-! ### What a tree says about the expression -/

lemma eq_of_exprAst_signal {name : String} (h : exprAst e₂ = exprAst (.signal name)) :
    e₂ = .signal name := by
  rcases exprAst_cases e₂ with ⟨name', rfl⟩ | ⟨value, rfl⟩ | ⟨op, right, rfl, hop⟩ |
    ⟨op, left, right, rfl, hop⟩ | hother
  · simpa [exprAst] using h
  · simp [exprAst] at h
  · rw [exprAst_not hop] at h
    simp [exprAst, operatorAst] at h
  · rw [exprAst_operator hop] at h
    simp [exprAst, operatorAst] at h
  · simp [hother, exprAst, unknownAst] at h

lemma exists_of_exprAst_const {value : LogicValue} (h : exprAst e₂ = exprAst (.const value)) :
    ∃ value', e₂ = .const value' := by
  rcases exprAst_cases e₂ with ⟨name', rfl⟩ | ⟨value', rfl⟩ | ⟨op, right, rfl, hop⟩ |
    ⟨op, left, right, rfl, hop⟩ | hother
  · simp [exprAst] at h
  · exact ⟨value', rfl⟩
  · rw [exprAst_not hop] at h
    simp [exprAst, operatorAst] at h
  · rw [exprAst_operator hop] at h
    simp [exprAst, operatorAst] at h
  · simp [hother, exprAst, unknownAst] at h

lemma exists_of_exprAst_not {arg : Json} (h : exprAst e₂ = operatorAst "not" [arg]) :
    ∃ op right, e₂ = .unary op right ∧ (op = .logicNot ∨ op = .bitNot) ∧ exprAst right = arg := by
  rcases exprAst_cases e₂ with ⟨name', rfl⟩ | ⟨value', rfl⟩ | ⟨op, right, rfl, hop⟩ |
    ⟨op, left, right, rfl, hop⟩ | hother
  · simp [exprAst, operatorAst] at h
  · simp [exprAst, operatorAst] at h
  · exact ⟨op, right, rfl, hop, by simpa [exprAst_not hop, operatorAst] using h⟩
  · simp [exprAst_operator hop, operatorAst] at h
  · simp [hother, operatorAst, unknownAst] at h

lemma exists_of_exprAst_operator {op : BinaryOp} (hop : schemaOperator op ≠ "") {a b : Json}
    (h : exprAst e₂ = operatorAst (schemaOperator op) [a, b]) :
    ∃ left right, e₂ = .binary op left right ∧ exprAst left = a ∧ exprAst right = b := by
  rcases exprAst_cases e₂ with ⟨name', rfl⟩ | ⟨value', rfl⟩ | ⟨op', right, rfl, hop'⟩ |
    ⟨op', left, right, rfl, hop'⟩ | hother
  · simp [exprAst, operatorAst] at h
  · simp [exprAst, operatorAst] at h
  · simp [exprAst_not hop', operatorAst] at h
  · obtain ⟨hname, hleft, hright⟩ : schemaOperator op' = schemaOperator op ∧
        exprAst left = a ∧ exprAst right = b := by
      simpa [exprAst_operator hop', operatorAst] using h
    obtain rfl := schemaOperator_inj hop hname.symm
    exact ⟨left, right, rfl, hleft, hright⟩
  · simp [hother, operatorAst, unknownAst] at h

/-- An expression that is shown as a text is the only one with this text. -/
lemma eq_of_exprAst_unknown (h₁ : NamesIdentifiers e₁) (h₂ : NamesIdentifiers e₂)
    (hsame : SameReading e₁ e₂) (hunknown : exprAst e₁ = unknownAst e₁)
    (h : exprAst e₁ = exprAst e₂) : e₁ = e₂ := by
  rw [hunknown] at h
  rcases exprAst_cases e₂ with ⟨name, rfl⟩ | ⟨value, rfl⟩ | ⟨op, right, rfl, hop⟩ |
    ⟨op, left, right, rfl, hop⟩ | hother
  · simp [unknownAst, exprAst] at h
  · simp [unknownAst, exprAst] at h
  · simp [unknownAst, exprAst_not hop, operatorAst] at h
  · simp [unknownAst, exprAst_operator hop, operatorAst] at h
  · rw [hother] at h
    exact exprAst_inj_unknown h₁ h₂ hsame h

/-- The tree determines the value of an expression, but for what it loses. -/
lemma evalExpression_eq_of_exprAst (h₁ : NamesIdentifiers e₁) (h₂ : NamesIdentifiers e₂)
    (hsame : SameReading e₁ e₂) (h : exprAst e₁ = exprAst e₂) :
    evalExpression wf timeIdx point e₁ = evalExpression wf timeIdx point e₂ := by
  induction e₁ generalizing e₂ with
  | signal name => rw [eq_of_exprAst_signal h.symm]
  | slice name msb lsb => rw [eq_of_exprAst_unknown h₁ h₂ hsame rfl h]
  | const value =>
      obtain ⟨value', rfl⟩ := exists_of_exprAst_const h.symm
      obtain rfl : value = value' := hsame
      rfl
  | unary op right ih =>
      by_cases hop : op = .logicNot ∨ op = .bitNot
      · rw [exprAst_not hop] at h
        obtain ⟨op', right', rfl, hop', hright⟩ := exists_of_exprAst_not h.symm
        have h₂' : NamesIdentifiers right' := h₂
        have hvalue := ih h₁ h₂' hsame.2 hright.symm
        rw [evalExpression, evalExpression, ← hvalue]
        exact evalUnary_not hop hop' (hsame.1.imp_right fun hbit => hbit.eval_mem wf timeIdx point)
      · rw [eq_of_exprAst_unknown h₁ h₂ hsame (if_neg hop) h]
  | binary op left right ihl ihr =>
      by_cases hop : schemaOperator op = ""
      · rw [eq_of_exprAst_unknown h₁ h₂ hsame (if_pos hop) h]
      · rw [exprAst_operator hop] at h
        obtain ⟨left', right', rfl, hleft, hright⟩ := exists_of_exprAst_operator hop h.symm
        obtain ⟨hl₁, hr₁⟩ := h₁.operands
        obtain ⟨hl₂, hr₂⟩ := h₂.operands
        rw [evalExpression, evalExpression, ihl hl₁ hl₂ hsame.1 hleft.symm,
          ihr hr₁ hr₂ hsame.2 hright.symm]

end Values

/-- Two texts whose trees are equal have the same bits in every waveform. -/
def KeepsMeaning (text₁ text₂ : String) : Prop :=
  ∀ e₁ e₂, parseExpression text₁ = .ok e₁ → parseExpression text₂ = .ok e₂ →
    exprAst e₁ = exprAst e₂ → ∀ (wf : Backend) (timeIdx : ℕ) (point : ObservationPoint),
      (evalExpression wf timeIdx point e₁).bits = (evalExpression wf timeIdx point e₂).bits

/-- `expr.normalize` keeps the meaning of two texts that do not differ in a prefix operator before
more than one bit, nor in a constant. -/
theorem keepsMeaning_of_sameReading (text₁ text₂ : String)
    (h : ∀ e₁ e₂, parseExpression text₁ = .ok e₁ → parseExpression text₂ = .ok e₂ →
      SameReading e₁ e₂) : KeepsMeaning text₁ text₂ := by
  intro e₁ e₂ h₁ h₂ hast wf timeIdx point
  rw [evalExpression_eq_of_exprAst wf timeIdx point (namesIdentifiers_of_parse h₁)
    (namesIdentifiers_of_parse h₂) (h e₁ e₂ h₁ h₂) hast]

/-- `!s` and `~s` are both `not`, and differ on a signal of two bits. -/
theorem not_keepsMeaning : ¬ ∀ text₁ text₂ : String, KeepsMeaning text₁ text₂ := by
  intro h
  have hbits := h "!s" "~s" (.unary .logicNot (.signal "s")) (.unary .bitNot (.signal "s"))
    (by decide +kernel) (by decide +kernel) rfl (constWave "01") 0 .raw
  exact absurd hbits (by decide +kernel)

/-- The texts `!(s == 1) && t` and `~(s == 1) && t`: the operand of the prefix operator has one
bit. -/
theorem keepsMeaning_of_test :
    (∀ e₁ e₂, parseExpression "!(s == 1) && t" = .ok e₁ →
        parseExpression "~(s == 1) && t" = .ok e₂ → SameReading e₁ e₂) ∧
      KeepsMeaning "!(s == 1) && t" "~(s == 1) && t" := by
  have hsame : ∀ e₁ e₂, parseExpression "!(s == 1) && t" = .ok e₁ →
      parseExpression "~(s == 1) && t" = .ok e₂ → SameReading e₁ e₂ := by
    intro e₁ e₂ h₁ h₂
    have hparse₁ : parseExpression "!(s == 1) && t" = .ok (.binary .logicAnd (.unary .logicNot
        (.binary .eq (.signal "s") (.const (logicValueFromU64 1 0)))) (.signal "t")) := by
      decide +kernel
    have hparse₂ : parseExpression "~(s == 1) && t" = .ok (.binary .logicAnd (.unary .bitNot
        (.binary .eq (.signal "s") (.const (logicValueFromU64 1 0)))) (.signal "t")) := by
      decide +kernel
    obtain rfl := Except.ok.inj (hparse₁.symm.trans h₁)
    obtain rfl := Except.ok.inj (hparse₂.symm.trans h₂)
    exact ⟨⟨Or.inr (Or.inl rfl), trivial, rfl⟩, trivial⟩
  exact ⟨hsame, keepsMeaning_of_sameReading _ _ hsame⟩

end XdebugFst.Expr
