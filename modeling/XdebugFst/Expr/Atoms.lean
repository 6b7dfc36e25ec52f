import XdebugFst.Lib.Text
import XdebugFst.Expr.Parse

/-!
# Expressions without operators

A text that `parse_primary` reads to its end is an expression on its own: the levels above
find no operator behind it. So a signal with a select is the node it looks like, and a
literal is the constant that `parse_const` makes of it.
-/

namespace XdebugFst.Expr

open Lib

variable {node : ExprNode} {text : List Char}

@[simp]
lemma skipWs_nil : skipWs [] = [] := rfl

lemma skipWs_cons {c : Char} (h : isSpace c = false) (text : List Char) :
    skipWs (c :: text) = c :: text := by
  rw [skipWs, List.dropWhile_cons_of_neg (by simp [h])]

/-- The text that is left behind an operand which no operator follows: nothing, or a tick or
an underscore behind the digits of a number. -/
def EndsOperand (rest : List Char) : Prop := rest.head? ∈ [none, some '\'', some '_']

lemma endsOperand_nil : EndsOperand [] := List.mem_cons_self

section NoOperator

variable {rest : List Char} (hrest : EndsOperand rest)
include hrest

/-- No operator starts with any of these. -/
lemma EndsOperand.cases :
    rest = [] ∨ (∃ tail, rest = '\'' :: tail) ∨ ∃ tail, rest = '_' :: tail := by
  cases rest with
  | nil => exact Or.inl rfl
  | cons c tail =>
      right
      simp only [EndsOperand, List.head?_cons, List.mem_cons, Option.some_inj, List.not_mem_nil,
        or_false, reduceCtorEq, false_or] at hrest
      rcases hrest with rfl | rfl
      · exact Or.inl ⟨tail, rfl⟩
      · exact Or.inr ⟨tail, rfl⟩

lemma EndsOperand.skipWs : Expr.skipWs rest = rest := by
  obtain rfl | ⟨tail, rfl⟩ | ⟨tail, rfl⟩ := hrest.cases
  · rfl
  · exact skipWs_cons (by decide) tail
  · exact skipWs_cons (by decide) tail

/-- A level without operators is its operand. -/
lemma parseOperands_of_ok {operator : List Char → Option (BinaryOp × List Char)}
    {operand : List Char → ParseResult} (hop : operator rest = none)
    (h : operand text = .ok (node, rest)) :
    parseOperands operator operand text = .ok (node, rest) := by
  rw [parseOperands, h]
  show parseLevel operator operand (text.length + 1) node rest = _
  rw [parseLevel, hrest.skipWs, hop]

lemma parseLogicalOver_of_ok {primary : List Char → ParseResult}
    (h : primary text = .ok (node, rest)) : parseLogicalOver primary text = .ok (node, rest) := by
  have hnone : ∀ operator ∈ [mulOperator, addOperator, shiftOperator, cmpOperator, eqOperator,
      andOperator, xorOperator, orOperator, logicalOperator], operator rest = none := by
    intro operator hmem
    obtain rfl | ⟨tail, rfl⟩ | ⟨tail, rfl⟩ := hrest.cases
    all_goals
      simp only [List.mem_cons, List.not_mem_nil, or_false] at hmem
      rcases hmem with rfl | rfl | rfl | rfl | rfl | rfl | rfl | rfl | rfl <;> rfl
  have hmul := parseOperands_of_ok hrest (hnone mulOperator (by simp)) h
  have hadd := parseOperands_of_ok hrest (hnone addOperator (by simp)) hmul
  have hshift := parseOperands_of_ok hrest (hnone shiftOperator (by simp)) hadd
  have hcmp := parseOperands_of_ok hrest (hnone cmpOperator (by simp)) hshift
  have heq := parseOperands_of_ok hrest (hnone eqOperator (by simp)) hcmp
  have hand := parseOperands_of_ok hrest (hnone andOperator (by simp)) heq
  have hxor := parseOperands_of_ok hrest (hnone xorOperator (by simp)) hand
  have hor := parseOperands_of_ok hrest (hnone orOperator (by simp)) hxor
  exact parseOperands_of_ok hrest (hnone logicalOperator (by simp)) hor

end NoOperator

/-- A text that is one operand is the expression of that operand. -/
lemma parseExpression_of_primary {text : String}
    (h : parsePrimary (text.toList.length + 1) text.toList = .ok (node, [])) :
    parseExpression text = .ok node := by
  have hlogical : parseLogical text.toList = .ok (node, []) :=
    parseLogicalOver_of_ok endsOperand_nil h
  -- its equation lemma would unfold all the levels
  delta parseExpression
  rw [hlogical]
  rfl

/-- Text that is left behind the only operand is an error. -/
lemma parseExpression_of_trailing {text : String} {rest : List Char}
    (h : parsePrimary (text.toList.length + 1) text.toList = .ok (node, rest))
    (hrest : EndsOperand rest) (hne : rest ≠ []) :
    ∃ message, parseExpression text = .error message := by
  have hlogical : parseLogical text.toList = .ok (node, rest) := parseLogicalOver_of_ok hrest h
  delta parseExpression
  rw [hlogical]
  obtain ⟨c, tail, rfl⟩ := List.exists_cons_of_ne_nil hne
  dsimp only
  rw [hrest.skipWs]
  exact ⟨_, rfl⟩

/-! ### Identifiers -/

/-- The text is an identifier of the grammar, possibly dotted. -/
structure IsIdentifier (name : List Char) : Prop where
  nonempty : name ≠ []
  parse : parseIdentifier name = (name, [])

instance (name : List Char) : Decidable (IsIdentifier name) :=
  decidable_of_iff (name ≠ [] ∧ parseIdentifier name = (name, []))
    ⟨fun h => ⟨h.1, h.2⟩, fun h => ⟨h.1, h.2⟩⟩

lemma mem_of_isSpace {c : Char} (h : isSpace c = true) :
    c ∈ [' ', '\t', '\n', '\r', Char.ofNat 11, Char.ofNat 12] := by
  rw [isSpace, decide_eq_true_eq] at h
  rcases h with rfl | rfl | rfl | rfl | h | h
  · decide
  · decide
  · decide
  · decide
  · rw [← h, Char.ofNat_toNat]
    simp
  · rw [← h, Char.ofNat_toNat]
    simp

/-- No character of a class is a space when none of the spaces is in the class. -/
lemma isSpace_eq_false {p : Char → Bool} {c : Char}
    (hp : [' ', '\t', '\n', '\r', Char.ofNat 11, Char.ofNat 12].any p = false)
    (h : p c = true) : isSpace c = false := by
  by_contra hspace
  rw [Bool.not_eq_false] at hspace
  rw [List.any_eq_true.2 ⟨c, mem_of_isSpace hspace, h⟩] at hp
  cases hp

lemma isSpace_of_isIdentStart {c : Char} (h : isIdentStart c = true) : isSpace c = false := by
  exact isSpace_eq_false rfl h

lemma identTail_length (text : List Char) : (identTail text).1.length ≤ text.length := by
  induction text with
  | nil => exact le_rfl
  | cons c rest ih =>
      rw [identTail]
      split_ifs
      · exact Nat.succ_le_succ ih
      · exact Nat.succ_le_succ ih
      · exact Nat.zero_le _

/-- An identifier starts with a letter or an underscore. -/
lemma IsIdentifier.exists_cons {name : List Char} (h : IsIdentifier name) :
    ∃ c tail, name = c :: tail ∧ isIdentStart c = true ∧ identTail tail = (tail, []) := by
  have hparse := h.parse
  rw [parseIdentifier] at hparse
  split at hparse
  · exact absurd (Prod.ext_iff.1 hparse).1.symm h.nonempty
  · split at hparse
    · rename_i c rest heq hstart
      obtain ⟨hname, hrest⟩ := Prod.ext_iff.1 hparse
      dsimp only at hname hrest
      have hrest' : rest = (identTail rest).1 := by
        -- nothing is skipped at the front, since an identifier has no space there
        have hlen := congrArg List.length hname
        have hdrop := (List.dropWhile_sublist isSpace : (name.dropWhile isSpace).Sublist name)
        rw [show name.dropWhile isSpace = c :: rest from heq] at hdrop
        have heq' : c :: rest = name := by
          refine hdrop.eq_of_length_le ?_
          rw [← hname, List.length_cons, List.length_cons]
          exact Nat.succ_le_succ (identTail_length rest)
        exact (List.cons.inj (heq'.trans hname.symm)).2
      refine ⟨c, (identTail rest).1, hname.symm, hstart, ?_⟩
      rw [← hrest']
      exact Prod.ext hrest'.symm hrest
    · exact absurd (Prod.ext_iff.1 hparse).1.symm h.nonempty

/-- The text behind a name or a literal does not go on with it. -/
def Delimited (rest : List Char) : Prop :=
  ∀ c ∈ rest.head?, isIdentChar c = false ∧ c ≠ '.' ∧ c ≠ '\''

lemma delimited_cons {c : Char} {rest : List Char} :
    Delimited (c :: rest) ↔ isIdentChar c = false ∧ c ≠ '.' ∧ c ≠ '\'' := by
  simp only [Delimited, List.head?_cons, Option.mem_def, Option.some_inj, forall_eq']

/-- A delimiter ends an identifier. -/
lemma identTail_append {tail : List Char} (h : identTail tail = (tail, [])) {rest : List Char}
    (hrest : Delimited rest) : identTail (tail ++ rest) = (tail, rest) := by
  induction tail with
  | nil =>
      cases rest with
      | nil => rfl
      | cons c rest =>
          obtain ⟨hchar, hdot, -⟩ := delimited_cons.1 hrest
          rw [List.nil_append, identTail, if_neg (by rw [hchar]; exact Bool.false_ne_true),
            if_neg fun hc => hdot hc.1]
  | cons c tail ih =>
      rw [identTail] at h
      rw [List.cons_append, identTail]
      -- the rest of an identifier is read to its end
      have htail : ∀ p : List Char × List Char, ((c :: p.1, p.2) : List Char × List Char) =
          (c :: tail, []) → p = (tail, []) := by
        rintro ⟨a, b⟩ hp
        obtain ⟨h1, h2⟩ := Prod.ext_iff.1 hp
        exact Prod.ext (List.cons.inj h1).2 h2
      split_ifs at h with hident hdot
      · rw [if_pos hident, ih (htail _ h)]
      · have hne : tail ≠ [] := by
          rintro rfl
          exact absurd hdot.2 (by decide)
        obtain ⟨d, tail', rfl⟩ := List.exists_cons_of_ne_nil hne
        rw [if_neg hident, if_pos ⟨hdot.1, hdot.2⟩, ih (htail _ h)]
      · exact absurd (Prod.ext_iff.1 h).1 (by simp)

lemma IsIdentifier.parseIdentifier {name : List Char} (h : IsIdentifier name) {rest : List Char}
    (hrest : Delimited rest) : Expr.parseIdentifier (name ++ rest) = (name, rest) := by
  obtain ⟨c, tail, rfl, hstart, htail⟩ := h.exists_cons
  rw [Expr.parseIdentifier, List.cons_append, skipWs_cons (isSpace_of_isIdentStart hstart)]
  show (if isIdentStart c then _ else _) = _
  rw [if_pos hstart, identTail_append htail hrest]

/-- An operand that starts like an identifier is a signal. -/
lemma parsePrimary_of_isIdentStart {c : Char} (h : isIdentStart c = true) (rest : List Char)
    (fuel : ℕ) {name rest' : List Char} (hname : parseIdentifier (c :: rest) = (name, rest'))
    (hne : name ≠ []) :
    parsePrimary (fuel + 1) (c :: rest) = parseSelect (String.ofList name) rest' := by
  have hws := skipWs_cons (isSpace_of_isIdentStart h) rest
  rw [parsePrimary, hws]
  split
  · rename_i heq
    obtain rfl := (List.cons.inj heq).1
    exact absurd h (by decide)
  · rename_i heq
    obtain rfl := (List.cons.inj heq).1
    exact absurd h (by decide)
  · rename_i heq
    obtain rfl := (List.cons.inj heq).1
    exact absurd h (by decide)
  · rename_i heq
    obtain rfl := (List.cons.inj heq).1
    exact absurd h (by decide)
  · rw [hname]
    obtain ⟨d, name', rfl⟩ := List.exists_cons_of_ne_nil hne
    rfl

/-! ### Numbers -/

lemma digitsValue_toDigits (n : ℕ) : digitsValue (Nat.toDigits 10 n) = n := by
  have hall : ∀ c ∈ Nat.toDigits 10 n, c.isDigit = true := fun c hc =>
    Nat.isDigit_of_mem_toDigits (by decide) (by decide) hc
  rw [digitsValue, List.takeWhile_eq_self_iff.2 hall]
  exact Nat.ofDigitChars_ten_toDigits

lemma isSpace_of_isDigit {c : Char} (h : c.isDigit = true) : isSpace c = false := by
  exact isSpace_eq_false rfl h

/-- `atoi` reads an integer that is written in decimal. -/
lemma atoi_toString (i : ℤ) : atoi (toString i).toList = i := by
  rw [toList_toString_int]
  split_ifs with h
  · rw [atoi, skipWs_cons (by decide)]
    show -(digitsValue _ : ℤ) = i
    rw [digitsValue_toDigits]
    omega
  · obtain ⟨c, rest, hrest⟩ := List.exists_cons_of_ne_nil
      (Nat.toDigits_ne_nil (b := 10) (n := i.natAbs))
    have hdigit : c.isDigit = true := Nat.isDigit_of_mem_toDigits (b := 10) (n := i.natAbs)
      (by decide) (by decide) (by rw [hrest]; exact List.mem_cons_self)
    have hvalue := digitsValue_toDigits i.natAbs
    rw [hrest] at hvalue ⊢
    rw [atoi, skipWs_cons (isSpace_of_isDigit hdigit)]
    split
    · rename_i heq
      obtain rfl := (List.cons.inj heq).1
      exact absurd hdigit (by decide)
    · rename_i heq
      obtain rfl := (List.cons.inj heq).1
      exact absurd hdigit (by decide)
    · rw [hvalue]
      omega

/-! ### Selects -/

/-- The text of a select on a signal. -/
def selectText (name : String) (msb lsb : ℤ) : String :=
  name ++ "[" ++ toString msb ++ ":" ++ toString lsb ++ "]"

lemma toList_selectText (name : String) (msb lsb : ℤ) : (selectText name msb lsb).toList =
    name.toList ++ '[' :: ((toString msb).toList ++ ':' :: ((toString lsb).toList ++ [']'])) := by
  simp only [selectText, String.toList_append, List.append_assoc]
  rfl

lemma parseSelect_eq (name : String) (msb lsb : ℤ) (rest : List Char) :
    parseSelect name
        ('[' :: ((toString msb).toList ++ ':' :: ((toString lsb).toList ++ ']' :: rest))) =
      .ok (.slice name msb lsb, rest) := by
  have hfirst : ∀ c ∈ (toString msb).toList, decide (c ≠ ':' ∧ c ≠ ']') = true := by
    intro c hc
    rw [decide_eq_true_eq]
    constructor
    · rintro rfl
      exact notMem_toString_int (by decide) (by decide) msb hc
    · rintro rfl
      exact notMem_toString_int (by decide) (by decide) msb hc
  have hlast : ∀ c ∈ (toString lsb).toList, decide (c ≠ ']') = true := by
    intro c hc
    rw [decide_eq_true_eq]
    rintro rfl
    exact notMem_toString_int (by decide) (by decide) lsb hc
  have hspace : isSpace '[' = false := by decide
  have hcolon : ∀ rest, (':' :: rest).takeWhile (fun c => decide (c ≠ ':' ∧ c ≠ ']')) = [] ∧
      (':' :: rest).dropWhile (fun c => decide (c ≠ ':' ∧ c ≠ ']')) = ':' :: rest :=
    fun rest => ⟨List.takeWhile_cons_of_neg (by decide), List.dropWhile_cons_of_neg (by decide)⟩
  have hbracket : (']' :: rest).takeWhile (fun c => decide (c ≠ ']')) = [] ∧
      (']' :: rest).dropWhile (fun c => decide (c ≠ ']')) = ']' :: rest :=
    ⟨List.takeWhile_cons_of_neg (by decide), List.dropWhile_cons_of_neg (by decide)⟩
  simp only [parseSelect, skipWs_cons hspace, List.takeWhile_append_of_pos hfirst,
    List.dropWhile_append_of_pos hfirst, hcolon, List.append_nil,
    List.takeWhile_append_of_pos hlast, List.dropWhile_append_of_pos hlast, hbracket,
    if_neg (toString_int_ne_nil msb), atoi_toString]

/-- A select on an identifier is read as that select. -/
lemma parsePrimary_selectText {name : String} (h : IsIdentifier name.toList) (msb lsb : ℤ)
    (fuel : ℕ) (rest : List Char) :
    parsePrimary (fuel + 1) ((selectText name msb lsb).toList ++ rest) =
      .ok (.slice name msb lsb, rest) := by
  have hbracket : ∀ tail, Delimited ('[' :: tail) := fun tail =>
    delimited_cons.2 ⟨by decide, by decide, by decide⟩
  have hname := h.parseIdentifier (hbracket
    ((toString msb).toList ++ ':' :: ((toString lsb).toList ++ ']' :: rest)))
  obtain ⟨c, tail, hcons, hstart, -⟩ := h.exists_cons
  rw [hcons, List.cons_append] at hname
  simp only [toList_selectText, List.append_assoc, List.cons_append, List.nil_append]
  rw [hcons, List.cons_append, parsePrimary_of_isIdentStart hstart _ _ hname (List.cons_ne_nil _ _),
    ← hcons, String.ofList_toList, parseSelect_eq]

lemma parseExpression_selectText {name : String} (h : IsIdentifier name.toList) (msb lsb : ℤ) :
    parseExpression (selectText name msb lsb) = .ok (.slice name msb lsb) := by
  refine parseExpression_of_primary ?_
  have hselect := parsePrimary_selectText h msb lsb (selectText name msb lsb).toList.length []
  rw [List.append_nil] at hselect
  exact hselect

end XdebugFst.Expr
