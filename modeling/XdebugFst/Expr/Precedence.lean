import Mathlib
import XdebugFst.Expr.Literal

/-!
# Precedence

The levels of the parser and the precedences of SystemVerilog, compared on every expression that is
written with the parentheses it needs.

A `Written` expression has its parentheses as nodes. It is `Grouped` when its nodes follow the
levels of the parser, and then the parser reads its text as it is grouped
(`parseExpression_written`): the proof goes through the levels from the tightest on, and a level
reads a chain of its operators from the left.

A `Source` expression has no parentheses; `write` adds those that SystemVerilog requires. The parser
has one level for `&&` and `||`, where SystemVerilog has two, so it takes a conjunction behind `||`
apart: `regroup` says what it reads instead, and `parseExpression_text_iff` that this is the
expression itself exactly if no `||` has a conjunction on its right.
-/

namespace XdebugFst.Expr

/-! ### Operators -/

/-- The operator as it is written. -/
def BinaryOp.token : BinaryOp → List Char
  | .mul => ['*']
  | .div => ['/']
  | .mod => ['%']
  | .add => ['+']
  | .sub => ['-']
  | .shl => ['<', '<']
  | .shr => ['>', '>']
  | .lt => ['<']
  | .le => ['<', '=']
  | .gt => ['>']
  | .ge => ['>', '=']
  | .eq => ['=', '=']
  | .ne => ['!', '=']
  | .caseEq => ['=', '=', '=']
  | .caseNe => ['!', '=', '=']
  | .wildZ => ['=', '=', '?', 'z']
  | .wildX => ['=', '=', '?', 'x']
  | .wildInside => ['=', '=', '?', 'i']
  | .bitAnd => ['&']
  | .bitXor => ['^']
  | .bitOr => ['|']
  | .logicAnd => ['&', '&']
  | .logicOr => ['|', '|']

/-- The prefix operator as it is written. -/
def UnaryOp.token : UnaryOp → Char
  | .bitNot => '~'
  | .logicNot => '!'
  | .neg => '-'

/-- The precedence in SystemVerilog, from the tightest on. -/
def BinaryOp.precedence : BinaryOp → ℕ
  | .mul | .div | .mod => 0
  | .add | .sub => 1
  | .shl | .shr => 2
  | .lt | .le | .gt | .ge => 3
  | .eq | .ne | .caseEq | .caseNe | .wildZ | .wildX | .wildInside => 4
  | .bitAnd => 5
  | .bitXor => 6
  | .bitOr => 7
  | .logicAnd => 8
  | .logicOr => 9

/-- The level at which the parser reads the operator. -/
def BinaryOp.level : BinaryOp → ℕ
  | .mul | .div | .mod => 0
  | .add | .sub => 1
  | .shl | .shr => 2
  | .lt | .le | .gt | .ge => 3
  | .eq | .ne | .caseEq | .caseNe | .wildZ | .wildX | .wildInside => 4
  | .bitAnd => 5
  | .bitXor => 6
  | .bitOr => 7
  | .logicAnd | .logicOr => 8

/-- The operators of a level. -/
def operatorAt : ℕ → List Char → Option (BinaryOp × List Char)
  | 0 => mulOperator
  | 1 => addOperator
  | 2 => shiftOperator
  | 3 => cmpOperator
  | 4 => eqOperator
  | 5 => andOperator
  | 6 => xorOperator
  | 7 => orOperator
  | _ => logicalOperator

/-- The function of the parser that reads a level; below the first one it is `parse_primary`. -/
def parseAt (primary : List Char → ParseResult) : ℕ → List Char → ParseResult
  | 0 => primary
  | n + 1 => parseOperands (operatorAt n) (parseAt primary n)

lemma parseAt_nine (primary : List Char → ParseResult) :
    parseAt primary 9 = parseLogicalOver primary := rfl

/-- A character that does not make a longer operator of the one before it. -/
def Plain (c : Char) : Prop :=
  c ≠ '<' ∧ c ≠ '>' ∧ c ≠ '=' ∧ c ≠ '?' ∧ c ≠ '&' ∧ c ≠ '|'

instance (c : Char) : Decidable (Plain c) := inferInstanceAs (Decidable (_ ∧ _))

/-- Its level reads an operator. -/
lemma operatorAt_level (op : BinaryOp) {c : Char} (h : Plain c) (rest : List Char) :
    operatorAt op.level (op.token ++ c :: rest) = some (op, c :: rest) := by
  obtain ⟨hlt, hgt, heq, hquestion, hand, hor⟩ := h
  cases op with
  | lt | gt => simp [BinaryOp.level, BinaryOp.token, operatorAt, cmpOperator, heq]
  | eq | ne => simp [BinaryOp.level, BinaryOp.token, operatorAt, eqOperator, heq, hquestion]
  | bitAnd => simp [BinaryOp.level, BinaryOp.token, operatorAt, andOperator]
  | bitOr => simp [BinaryOp.level, BinaryOp.token, operatorAt, orOperator]
  | _ => rfl

/-- The tighter levels do not take it for one of theirs. -/
lemma operatorAt_lt (op : BinaryOp) {c : Char} (h : Plain c) (rest : List Char) {m : ℕ}
    (hm : m < op.level) : operatorAt m (op.token ++ c :: rest) = none := by
  obtain ⟨hlt, hgt, heq, hquestion, hand, hor⟩ := h
  -- only a comparison may be taken for a part of another operator, a shift
  have hshift : shiftOperator ('<' :: c :: rest) = none ∧
      shiftOperator ('>' :: c :: rest) = none := by
    simp [shiftOperator, hlt, hgt]
  cases op <;> simp only [BinaryOp.level, Nat.not_lt_zero] at hm <;> interval_cases m <;>
    first | rfl | exact hshift.1 | exact hshift.2

/-! ### Operands -/

/-- The name of a signal. -/
structure Identifier where
  name : String
  ident : IsIdentifier name.toList

/-- A literal, with the constant that `parse_const` makes of it. -/
structure Literal where
  text : List Char
  value : LogicValue
  start : ∃ c rest, text = c :: rest ∧ (c.isDigit = true ∨ c = '\'')
  reads : parseConst text = .ok (.const value, [])

/-- What stands between operators. -/
inductive Operand
  | signal (name : Identifier)
  | slice (name : Identifier) (msb lsb : ℤ)
  | const (literal : Literal)

def Operand.text : Operand → List Char
  | .signal name => name.name.toList
  | .slice name msb lsb => (selectText name.name msb lsb).toList
  | .const literal => literal.text

def Operand.node : Operand → ExprNode
  | .signal name => .signal name.name
  | .slice name msb lsb => .slice name.name msb lsb
  | .const literal => .const literal.value

lemma isIdentChar_of_isDigit (c : Char) (h : c.isDigit = true) : isIdentChar c = true := by
  rw [isIdentChar, Char.isAlphanum, h, Bool.or_true]
  rfl

section Delimited

variable {rest : List Char} (hrest : Delimited rest)
include hrest

/-- A word of characters of a name ends where the text behind it starts. -/
lemma Delimited.append {p : Char → Bool} (hp : ∀ c, p c = true → isIdentChar c = true)
    {word : List Char} (h : word.dropWhile p = []) :
    (word ++ rest).takeWhile p = word.takeWhile p ∧ (word ++ rest).dropWhile p = rest := by
  have hall := List.dropWhile_eq_nil_iff.1 h
  rw [List.takeWhile_append_of_pos hall, List.dropWhile_append_of_pos hall,
    List.takeWhile_eq_self_iff.2 hall]
  cases rest with
  | nil => exact ⟨List.append_nil _, rfl⟩
  | cons c tail =>
      have hc : ¬ p c = true := by
        intro h
        have hident := hp c h
        rw [(delimited_cons.1 hrest).1] at hident
        cases hident
      rw [List.takeWhile_cons_of_neg hc, List.dropWhile_cons_of_neg hc, List.append_nil]
      exact ⟨rfl, rfl⟩

lemma parseBased_append {width : ℕ} {text : List Char} {value : LogicValue}
    (h : parseBased width text = some (some (value, []))) :
    parseBased width (text ++ rest) = some (some (value, rest)) := by
  have hident : ∀ c : Char, (c.isAlphanum || decide (c = '_')) = true → isIdentChar c = true := by
    intro c hc
    rw [isIdentChar, hc, Bool.true_or]
  cases text with
  | nil => cases h
  | cons c tail =>
      simp only [parseBased, List.cons_append] at h ⊢
      by_cases hs : c.toLower = 's'
      · simp only [if_pos hs] at h ⊢
        cases tail with
        | nil => cases h
        | cons base digits =>
            simp only [List.cons_append] at h ⊢
            split_ifs at h ⊢
            obtain ⟨hvalue, hnil⟩ := Prod.ext_iff.1 (Option.some.inj (Option.some.inj h))
            obtain ⟨htake, hdrop⟩ := hrest.append hident hnil
            rw [htake, hdrop]
            exact congrArg (fun v => some (some (v, rest))) hvalue
      · simp only [if_neg hs] at h ⊢
        split_ifs at h ⊢
        obtain ⟨hvalue, hnil⟩ := Prod.ext_iff.1 (Option.some.inj (Option.some.inj h))
        obtain ⟨htake, hdrop⟩ := hrest.append hident hnil
        rw [htake, hdrop]
        exact congrArg (fun v => some (some (v, rest))) hvalue

lemma parseDecimal_append {text : List Char} {value : LogicValue}
    (h : parseDecimal text = .ok (.const value, [])) :
    parseDecimal (text ++ rest) = .ok (.const value, rest) := by
  simp only [parseDecimal] at h ⊢
  split_ifs at h with hnum
  obtain ⟨hvalue, hnil⟩ := Prod.ext_iff.1 (Except.ok.inj h)
  obtain ⟨htake, hdrop⟩ := hrest.append isIdentChar_of_isDigit hnil
  rw [htake, hdrop, if_neg hnum]
  exact congrArg (fun node => Except.ok (node, rest)) hvalue

end Delimited

/-- The text of a literal that is no based one consists of digits. -/
lemma isDigit_of_parseDecimal {text : List Char} {value : LogicValue}
    (h : parseDecimal text = .ok (.const value, [])) : ∀ c ∈ text, c.isDigit = true := by
  rw [parseDecimal] at h
  split_ifs at h
  exact List.dropWhile_eq_nil_iff.1 (Prod.ext_iff.1 (Except.ok.inj h)).2

namespace Literal

variable (l : Literal)

lemma skipWs_append (rest : List Char) : skipWs (l.text ++ rest) = l.text ++ rest := by
  obtain ⟨c, tail, htext, hc⟩ := l.start
  rw [htext, List.cons_append]
  refine skipWs_cons ?_ _
  rcases hc with hc | rfl
  · exact isSpace_of_isDigit hc
  · decide

/-- The tick of another literal further on does not change how a literal is read. -/
lemma parseConst_append {rest : List Char} (hrest : Delimited rest) :
    parseConst (l.text ++ rest) = .ok (.const l.value, rest) := by
  have hreads := l.reads
  have hskip := l.skipWs_append []
  rw [List.append_nil] at hskip
  simp only [parseConst, hskip] at hreads
  simp only [parseConst, l.skipWs_append]
  by_cases htick : '\'' ∈ l.text
  · -- the tick is the one of the literal
    obtain ⟨width, after, htext, hwidth⟩ := List.eq_append_cons_of_mem htick
    obtain ⟨htake, hdrop⟩ := takeWhile_tick hwidth after
    obtain ⟨htake', hdrop'⟩ := takeWhile_tick hwidth (after ++ rest)
    have hdecimal : ¬ parseDecimal l.text = .ok (.const l.value, []) := fun h =>
      absurd (isDigit_of_parseDecimal h _ htick) (by decide)
    rw [htext] at hreads hdecimal ⊢
    rw [List.append_assoc, List.cons_append, htake', hdrop']
    rw [htake, hdrop] at hreads
    dsimp only at hreads ⊢
    split_ifs at hreads ⊢ with hplain
    · split at hreads
      · rename_i value rest' hbased
        obtain ⟨hvalue, rfl⟩ := Prod.ext_iff.1 (Except.ok.inj hreads)
        rw [parseBased_append hrest hbased]
        exact congrArg (fun node => Except.ok (node, rest)) hvalue
      · exact absurd (Prod.ext_iff.1 (Except.ok.inj hreads)).2 (by simp)
      · exact absurd hreads hdecimal
    · exact absurd hreads hdecimal
  · have hall : ∀ c ∈ l.text, decide (c ≠ '\'') = true := fun c hc =>
      decide_eq_true fun h => htick (h ▸ hc)
    rw [List.dropWhile_eq_nil_iff.2 hall] at hreads
    rw [List.takeWhile_append_of_pos hall, List.dropWhile_append_of_pos hall]
    have hdecimal := parseDecimal_append hrest hreads
    split
    · exact hdecimal
    · -- a delimiter stands between the number and the tick
      rename_i d after hafter
      cases rest with
      | nil => cases hafter
      | cons c tail =>
          obtain ⟨hident, -, hne⟩ := delimited_cons.1 hrest
          rw [if_neg]
          · exact hdecimal
          · rintro ⟨hdigits, -⟩
            rw [List.takeWhile_cons, if_pos (decide_eq_true hne)] at hdigits
            have hc := List.all_eq_true.1 hdigits c
              (List.mem_append_right _ List.mem_cons_self)
            rw [isIdentChar_of_isDigit c hc] at hident
            cases hident

end Literal

/-! ### Written expressions -/

/-- An expression with its parentheses. -/
inductive Written
  | operand (a : Operand)
  | paren (inner : Written)
  | unary (op : UnaryOp) (right : Written)
  | binary (op : BinaryOp) (left right : Written)

/-- The blanks around the binary operators, possibly none. -/
structure Gap where
  chars : List Char
  spaces : ∀ c ∈ chars, isSpace c = true

namespace Written

def text (gap : Gap) : Written → List Char
  | operand a => a.text
  | paren inner => '(' :: (inner.text gap ++ [')'])
  | unary op right => op.token :: right.text gap
  | binary op left right =>
      left.text gap ++ (gap.chars ++ (op.token ++ (gap.chars ++ right.text gap)))

/-- The expression without its parentheses. -/
def node : Written → ExprNode
  | operand a => a.node
  | paren inner => inner.node
  | unary op right => .unary op right.node
  | binary op left right => .binary op left.node right.node

/-- The number of levels that it takes to read the expression. -/
def rank : Written → ℕ
  | binary op _ _ => op.level + 1
  | _ => 0

/-- The grouping follows the levels of the parser: a left operand may be of the same level, the
right one is of a tighter one. -/
def Grouped : Written → Prop
  | operand _ => True
  | paren inner => inner.Grouped
  | unary _ right => right.Grouped ∧ right.rank = 0
  | binary op left right =>
      (left.Grouped ∧ left.rank ≤ op.level + 1) ∧ right.Grouped ∧ right.rank ≤ op.level

end Written

lemma level_le (op : BinaryOp) : op.level ≤ 8 := by
  cases op <;> decide

lemma Written.rank_le (w : Written) : w.rank ≤ 9 := by
  cases w with
  | binary op left right => exact Nat.succ_le_succ (level_le op)
  | _ => exact Nat.zero_le 9

/-! ### First characters -/

lemma plain_of_isSpace {c : Char} (h : isSpace c = true) : Plain c := by
  have hmem := mem_of_isSpace h
  simp only [List.mem_cons, List.not_mem_nil, or_false] at hmem
  rcases hmem with rfl | rfl | rfl | rfl | rfl | rfl <;> decide

/-- No character of a class is one of the operators' when none of these is in the class. -/
lemma plain_of_class {p : Char → Bool} {c : Char}
    (hp : ['<', '>', '=', '?', '&', '|'].any p = false) (h : p c = true) : Plain c := by
  have hne : ∀ d ∈ ['<', '>', '=', '?', '&', '|'], c ≠ d := by
    rintro d hd rfl
    rw [List.any_eq_true.2 ⟨c, hd, h⟩] at hp
    cases hp
  exact ⟨hne _ (by simp), hne _ (by simp), hne _ (by simp), hne _ (by simp), hne _ (by simp),
    hne _ (by simp)⟩

lemma Operand.exists_cons (a : Operand) : ∃ c tail, a.text = c :: tail ∧ Plain c := by
  cases a with
  | signal name =>
      obtain ⟨c, tail, hname, hstart, -⟩ := name.ident.exists_cons
      exact ⟨c, tail, hname, plain_of_class rfl hstart⟩
  | slice name msb lsb =>
      obtain ⟨c, tail, hname, hstart, -⟩ := name.ident.exists_cons
      refine ⟨c, ?_, ?_, plain_of_class rfl hstart⟩
      rotate_left
      · rw [Operand.text, toList_selectText, hname, List.cons_append]
  | const literal =>
      obtain ⟨c, tail, htext, hc⟩ := literal.start
      refine ⟨c, tail, htext, ?_⟩
      rcases hc with hc | rfl
      · exact plain_of_class rfl hc
      · decide

section Gaps

variable (gap : Gap)

/-- No expression starts with a character that continues an operator. -/
lemma Written.exists_cons (w : Written) : ∃ c tail, w.text gap = c :: tail ∧ Plain c := by
  induction w with
  | operand a => exact a.exists_cons
  | paren inner => exact ⟨_, _, rfl, by decide⟩
  | unary op right =>
      refine ⟨_, _, rfl, ?_⟩
      cases op <;> decide
  | binary op left right ihl =>
      obtain ⟨c, tail, hleft, hc⟩ := ihl
      refine ⟨c, ?_, ?_, hc⟩
      rotate_left
      · rw [Written.text, hleft, List.cons_append]

/-- Neither does one behind a gap. -/
lemma Written.exists_cons_gap (w : Written) (rest : List Char) :
    ∃ c tail, gap.chars ++ (w.text gap ++ rest) = c :: tail ∧ Plain c := by
  cases hgap : gap.chars with
  | nil =>
      obtain ⟨c, tail, htext, hc⟩ := w.exists_cons gap
      exact ⟨c, tail ++ rest, by rw [htext]; rfl, hc⟩
  | cons c tail =>
      have hc : isSpace c = true := gap.spaces c (by rw [hgap]; exact List.mem_cons_self)
      exact ⟨c, _, rfl, plain_of_isSpace hc⟩

lemma skipWs_append {g : List Char} (hg : ∀ c ∈ g, isSpace c = true) (text : List Char) :
    skipWs (g ++ text) = skipWs text := List.dropWhile_append_of_pos hg

lemma skipWs_skipWs (text : List Char) : skipWs (skipWs text) = skipWs text :=
  List.dropWhile_idempotent isSpace text

lemma skipWs_token (op : BinaryOp) (rest : List Char) :
    skipWs (op.token ++ rest) = op.token ++ rest := by
  cases op <;> exact skipWs_cons (by decide) _

/-- What may stand behind an expression that is read up to a level. -/
structure Follows (n : ℕ) (rest : List Char) : Prop where
  delimited : Delimited rest
  bracket : (skipWs rest).head? ≠ some '['
  operators : ∀ m < n, operatorAt m (skipWs rest) = none

lemma Follows.mono {m n : ℕ} {rest : List Char} (h : Follows n rest) (hm : m ≤ n) :
    Follows m rest :=
  ⟨h.delimited, h.bracket, fun k hk => h.operators k (hk.trans_le hm)⟩

lemma follows_nil (n : ℕ) : Follows n [] := by
  refine ⟨?_, by decide, fun m _ => ?_⟩
  · intro c hc
    cases hc
  · rw [skipWs_nil, operatorAt.eq_def]
    split <;> rfl

lemma follows_paren (n : ℕ) (rest : List Char) : Follows n (')' :: rest) := by
  have hskip : skipWs (')' :: rest) = ')' :: rest := skipWs_cons (by decide) rest
  refine ⟨delimited_cons.2 (by decide), ?_, fun m _ => ?_⟩
  · rw [hskip]
    simp
  · rw [hskip, operatorAt.eq_def]
    split <;> rfl

lemma delimited_of_isSpace {c : Char} (h : isSpace c = true) (rest : List Char) :
    Delimited (c :: rest) := by
  have hmem := mem_of_isSpace h
  simp only [List.mem_cons, List.not_mem_nil, or_false] at hmem
  rcases hmem with rfl | rfl | rfl | rfl | rfl | rfl <;> exact delimited_cons.2 (by decide)

/-- An operator may follow what is read up to its level. -/
lemma follows_operator (op : BinaryOp) (right : Written) (rest : List Char) :
    Follows op.level (gap.chars ++ (op.token ++ (gap.chars ++ (right.text gap ++ rest)))) := by
  obtain ⟨c, tail, hcons, hc⟩ := right.exists_cons_gap gap rest
  have hskip : skipWs (gap.chars ++ (op.token ++ (gap.chars ++ (right.text gap ++ rest)))) =
      op.token ++ c :: tail := by
    rw [skipWs_append gap.spaces, skipWs_token, hcons]
  refine ⟨?_, ?_, fun m hm => ?_⟩
  · cases hgap : gap.chars with
    | nil => cases op <;> exact delimited_cons.2 (by decide)
    | cons d chars =>
        exact delimited_of_isSpace (gap.spaces d (by rw [hgap]; exact List.mem_cons_self)) _
  · rw [hskip]
    cases op <;> simp [BinaryOp.token]
  · rw [hskip]
    exact operatorAt_lt op hc tail hm

end Gaps

/-! ### Reading a level -/

section Level

variable {operator : List Char → Option (BinaryOp × List Char)}
  {operand : List Char → ParseResult} {left : ExprNode} {text text' : List Char}
  {result : ExprNode × List Char} {f f' : ℕ}

/-- A chain that is read within a bound is read within a larger one. -/
lemma parseLevel_mono (h : parseLevel operator operand f left text = .ok result) (hf : f ≤ f') :
    parseLevel operator operand f' left text = .ok result := by
  induction f generalizing f' left text with
  | zero => cases h
  | succ f ih =>
      cases f' with
      | zero => exact absurd hf (Nat.not_succ_le_zero f)
      | succ f' =>
          rw [parseLevel] at h ⊢
          cases hop : operator (skipWs text) with
          | none =>
              rw [hop] at h
              exact h
          | some p =>
              obtain ⟨op, rest⟩ := p
              rw [hop] at h
              dsimp only at h ⊢
              cases hright : operand rest with
              | error e =>
                  rw [hright] at h
                  cases h
              | ok right =>
                  rw [hright] at h
                  exact ih h (Nat.le_of_succ_le_succ hf)

/-- The blanks before an operator do not matter. -/
lemma parseLevel_congr (hskip : skipWs text = skipWs text')
    (h : parseLevel operator operand f left text = .ok result) :
    parseLevel operator operand f left text' = .ok result := by
  cases f with
  | zero => cases h
  | succ f =>
      rw [parseLevel, hskip] at h
      rw [parseLevel]
      exact h

end Level

/-- `parse_primary` skips blanks first. -/
lemma parsePrimary_append {g : List Char} (hg : ∀ c ∈ g, isSpace c = true) (fuel : ℕ)
    (text : List Char) : parsePrimary (fuel + 1) (g ++ text) = parsePrimary (fuel + 1) text := by
  rw [parsePrimary, parsePrimary, skipWs_append hg]

section Reads

variable (gap : Gap)

/-- The parser reads the expression up to a level, whatever may follow it there. -/
def Reads (w : Written) (n : ℕ) : Prop :=
  ∀ (fuel : ℕ) (g rest : List Char), (w.text gap).length < fuel →
    (∀ c ∈ g, isSpace c = true) → Follows n rest →
    ∃ rest', parseAt (parsePrimary fuel) n (g ++ (w.text gap ++ rest)) = .ok (w.node, rest') ∧
      skipWs rest' = skipWs rest

/-- The parser goes on at a level with the expression as its left operand. -/
def Continues (w : Written) (k : ℕ) : Prop :=
  ∀ (fuel : ℕ) (g rest : List Char), (w.text gap).length < fuel →
    (∀ c ∈ g, isSpace c = true) → Follows k rest →
    ∀ f result, f ≤ rest.length + 1 →
    parseLevel (operatorAt k) (parseAt (parsePrimary fuel) k) f w.node rest = .ok result →
    parseAt (parsePrimary fuel) (k + 1) (g ++ (w.text gap ++ rest)) = .ok result

variable {gap} {w : Written} {k : ℕ}

/-- What is read up to a level is the first operand of the next one. -/
lemma Reads.continues (h : Reads gap w k) : Continues gap w k := by
  intro fuel g rest hfuel hg hrest f result hf hlevel
  obtain ⟨rest', hread, hskip⟩ := h fuel g rest hfuel hg hrest
  rw [parseAt, parseOperands, hread]
  refine parseLevel_mono (parseLevel_congr hskip.symm hlevel) ?_
  simp only [List.length_append]
  omega

/-- The chain ends where no operator of its level follows. -/
lemma Continues.reads (h : Continues gap w k) : Reads gap w (k + 1) := by
  intro fuel g rest hfuel hg hrest
  have hstop : parseLevel (operatorAt k) (parseAt (parsePrimary fuel) k) 1 w.node rest =
      .ok (w.node, skipWs rest) := by
    rw [parseLevel, hrest.operators k (Nat.lt_succ_self k)]
  exact ⟨skipWs rest, h fuel g rest hfuel hg (hrest.mono (Nat.le_succ k)) 1 _ (by omega) hstop,
    skipWs_skipWs rest⟩

lemma Continues.mono (h : Continues gap w k) {k' : ℕ} (hk : k ≤ k') : Continues gap w k' := by
  induction hk with
  | refl => exact h
  | step _ ih => exact ih.reads.continues

/-- A chain goes on with an operator of the level and a tighter operand. -/
lemma Continues.binary {op : BinaryOp} {left right : Written}
    (hleft : Continues gap left op.level) (hright : Reads gap right op.level) :
    Continues gap (.binary op left right) op.level := by
  intro fuel g rest hfuel hg hrest f result hf hlevel
  have hlength : (left.text gap).length < fuel ∧ (right.text gap).length < fuel := by
    simp only [Written.text, List.length_append] at hfuel
    omega
  obtain ⟨c, tail, hcons, hc⟩ := right.exists_cons_gap gap rest
  obtain ⟨rest', hread, hskip⟩ := hright fuel gap.chars rest hlength.2 gap.spaces hrest
  have htext : (Written.binary op left right).text gap ++ rest = left.text gap ++
      (gap.chars ++ (op.token ++ (gap.chars ++ (right.text gap ++ rest)))) := by
    simp only [Written.text, List.append_assoc]
  rw [htext]
  refine hleft fuel g _ hlength.1 hg (follows_operator gap op right rest) (f + 1) result ?_ ?_
  · have htoken : 0 < op.token.length := by cases op <;> decide
    simp only [List.length_append]
    omega
  · rw [parseLevel, skipWs_append gap.spaces, skipWs_token, hcons, operatorAt_level op hc, ← hcons]
    dsimp only
    rw [hread]
    exact parseLevel_congr hskip.symm hlevel

lemma parseSelect_signal {name : String} {rest : List Char}
    (h : (skipWs rest).head? ≠ some '[') :
    parseSelect name rest = .ok (.signal name, skipWs rest) := by
  rw [parseSelect]
  split
  · rename_i hskip
    rw [hskip] at h
    exact absurd rfl h
  · rfl

lemma reads_operand (a : Operand) : Reads gap (.operand a) 0 := by
  intro fuel g rest hfuel hg hrest
  obtain ⟨fuel, rfl⟩ := Nat.exists_eq_succ_of_ne_zero (Nat.ne_zero_of_lt hfuel)
  rw [parseAt, parsePrimary_append hg]
  cases a with
  | signal name =>
      obtain ⟨c, tail, hname, hstart, -⟩ := name.ident.exists_cons
      have hident := name.ident.parseIdentifier hrest.delimited
      refine ⟨skipWs rest, ?_, skipWs_skipWs rest⟩
      rw [hname, List.cons_append] at hident
      rw [Written.text, Operand.text, hname, List.cons_append,
        parsePrimary_of_isIdentStart hstart _ _ hident (List.cons_ne_nil _ _), ← hname,
        String.ofList_toList, parseSelect_signal hrest.bracket]
      rfl
  | slice name msb lsb => exact ⟨rest, parsePrimary_selectText name.ident msb lsb fuel rest, rfl⟩
  | const literal =>
      obtain ⟨c, tail, htext, hc⟩ := literal.start
      have hconst := literal.parseConst_append hrest.delimited
      refine ⟨rest, ?_, rfl⟩
      rw [htext, List.cons_append] at hconst
      rw [Written.text, Operand.text, htext, List.cons_append, parsePrimary_of_literal hc, hconst]
      rfl

/-- Within parentheses the levels start again. -/
lemma reads_paren {inner : Written} (h : Reads gap inner 9) : Reads gap (.paren inner) 0 := by
  intro fuel g rest hfuel hg _
  obtain ⟨fuel, rfl⟩ := Nat.exists_eq_succ_of_ne_zero (Nat.ne_zero_of_lt hfuel)
  have hlength : (inner.text gap).length < fuel := by
    simp only [Written.text, List.length_cons, List.length_append] at hfuel
    omega
  obtain ⟨rest', hread, hskip⟩ := h fuel [] (')' :: rest) hlength
    (fun _ hc => absurd hc List.not_mem_nil) (follows_paren 9 rest)
  rw [List.nil_append, parseAt_nine] at hread
  rw [skipWs_cons (by decide)] at hskip
  refine ⟨rest, ?_, rfl⟩
  have htext : (Written.paren inner).text gap ++ rest = '(' :: (inner.text gap ++ ')' :: rest) := by
    simp only [Written.text, List.cons_append, List.append_assoc, List.nil_append]
  have hopen : skipWs ('(' :: (inner.text gap ++ ')' :: rest)) =
      '(' :: (inner.text gap ++ ')' :: rest) := skipWs_cons (by decide) _
  rw [parseAt, parsePrimary_append hg, htext, parsePrimary]
  simp only [hopen, hread, hskip]
  rfl

lemma reads_unary {right : Written} (op : UnaryOp) (h : Reads gap right 0) :
    Reads gap (.unary op right) 0 := by
  intro fuel g rest hfuel hg hrest
  obtain ⟨fuel, rfl⟩ := Nat.exists_eq_succ_of_ne_zero (Nat.ne_zero_of_lt hfuel)
  have hlength : (right.text gap).length < fuel := Nat.lt_of_succ_lt_succ hfuel
  obtain ⟨rest', hread, hskip⟩ := h fuel [] rest hlength
    (fun _ hc => absurd hc List.not_mem_nil) hrest
  rw [List.nil_append, parseAt] at hread
  refine ⟨rest', ?_, hskip⟩
  rw [parseAt, parsePrimary_append hg, Written.text, List.cons_append]
  have hunary : parsePrimary (fuel + 1) (op.token :: (right.text gap ++ rest)) =
      parsePrimary.parseUnary op (parsePrimary fuel (right.text gap ++ rest)) := by
    cases op <;> rfl
  rw [hunary, hread]
  rfl

/-- A grouped expression is read at its rank. -/
lemma Written.Grouped.reads (h : w.Grouped) :
    (w.rank = 0 → Reads gap w 0) ∧ ∀ k, w.rank ≤ k + 1 → Continues gap w k := by
  have hzero : ∀ {w : Written}, Reads gap w 0 →
      (w.rank = 0 → Reads gap w 0) ∧ ∀ k, w.rank ≤ k + 1 → Continues gap w k :=
    fun hreads => ⟨fun _ => hreads, fun k _ => hreads.continues.mono (Nat.zero_le k)⟩
  induction w with
  | operand a => exact hzero (reads_operand a)
  | paren inner ih => exact hzero (reads_paren ((ih h).2 8 inner.rank_le).reads)
  | unary op right ih => exact hzero (reads_unary op ((ih h.1).1 h.2))
  | binary op left right ihl ihr =>
      obtain ⟨⟨hleft, hleftRank⟩, hright, hrightRank⟩ := h
      have hreads : Reads gap right op.level := by
        obtain ⟨hprimary, hlevel⟩ := ihr hright
        generalize op.level = n at hrightRank
        cases n with
        | zero => exact hprimary (Nat.le_zero.1 hrightRank)
        | succ n => exact (hlevel n hrightRank).reads
      have hcontinues := ((ihl hleft).2 op.level hleftRank).binary hreads
      refine ⟨fun hrank => ?_, fun k hk => hcontinues.mono (Nat.le_of_succ_le_succ hk)⟩
      cases hrank

/-- The parser reads a grouped expression as it is grouped. -/
lemma parseExpression_written (gap : Gap) (h : w.Grouped) :
    parseExpression (String.ofList (w.text gap)) = .ok w.node := by
  have hreads : Reads gap w 9 := (h.reads.2 8 w.rank_le).reads
  obtain ⟨rest, hread, hskip⟩ := hreads ((w.text gap).length + 1) [] [] (Nat.lt_succ_self _)
    (fun _ hc => absurd hc List.not_mem_nil) (follows_nil 9)
  rw [List.nil_append, List.append_nil, parseAt_nine] at hread
  have hlogical : parseLogical (String.ofList (w.text gap)).toList = .ok (w.node, rest) := by
    rw [String.toList_ofList]
    exact hread
  rw [skipWs_nil] at hskip
  delta parseExpression
  rw [hlogical]
  dsimp only
  rw [hskip]

end Reads

/-! ### Minimal parentheses -/

/-- An expression without parentheses. -/
inductive Source
  | operand (a : Operand)
  | unary (op : UnaryOp) (right : Source)
  | binary (op : BinaryOp) (left right : Source)

namespace Source

def node : Source → ExprNode
  | operand a => a.node
  | unary op right => .unary op right.node
  | binary op left right => .binary op left.node right.node

/-- The parentheses that SystemVerilog requires where operators up to a bound may stand: the bound
of a right operand is below the precedence of the operator, since it is left associative, and a
prefix operator takes no binary one. -/
def write : ℕ → Source → Written
  | _, operand a => .operand a
  | _, unary op right => .unary op (right.write 0)
  | bound, binary op left right =>
      let e := .binary op (left.write (op.precedence + 1)) (right.write op.precedence)
      if op.precedence + 1 ≤ bound then e else .paren e

/-- The text of the expression with minimal parentheses. -/
def text (gap : Gap) (e : Source) : String := String.ofList ((e.write 10).text gap)

/-- The expression is a conjunction. -/
def IsConjunction : Source → Prop
  | binary .logicAnd _ _ => True
  | _ => False

/-- No `||` has a conjunction as its right operand. -/
def Unmixed : Source → Prop
  | operand _ => True
  | unary _ right => right.Unmixed
  | binary op left right =>
      left.Unmixed ∧ right.Unmixed ∧ ¬ (op = .logicOr ∧ right.IsConjunction)

end Source

/-! ### What the parser reads -/

/-- The expression that is read for a left operand, an operator and an expression behind it: the
parser does not keep a chain of `&&` together. -/
def attach (op : BinaryOp) (left : Written) : Written → Written
  | .binary .logicAnd l r => .binary .logicAnd (attach op left l) r
  | e => .binary op left e

/-- The grouping that the parser gives the text of an expression. -/
def Source.regroup : ℕ → Source → Written
  | _, operand a => .operand a
  | _, unary op right => .unary op (right.regroup 0)
  | bound, binary op left right =>
      let e := attach op (left.regroup (op.precedence + 1)) (right.regroup op.precedence)
      if op.precedence + 1 ≤ bound then e else .paren e

/-- The expression is a conjunction outside parentheses. -/
def Written.IsConjunction : Written → Prop
  | binary .logicAnd _ _ => True
  | _ => False

lemma attach_of_not {op : BinaryOp} {left e : Written} (h : ¬ e.IsConjunction) :
    attach op left e = .binary op left e := by
  cases e with
  | binary op' l r =>
      cases op' with
      | logicAnd => exact absurd trivial h
      | _ => rfl
  | _ => rfl

lemma text_attach (gap : Gap) (op : BinaryOp) (left e : Written) :
    (attach op left e).text gap = (Written.binary op left e).text gap := by
  induction e with
  | binary op' l r ihl =>
      by_cases h : op' = .logicAnd
      · subst h
        simp only [attach, Written.text, ihl, List.append_assoc]
      · rw [attach_of_not]
        cases op' with
        | logicAnd => exact absurd rfl h
        | _ => exact id
  | _ => rfl

/-- Both groupings have the same text. -/
lemma Source.text_regroup (gap : Gap) (e : Source) (bound : ℕ) :
    (e.regroup bound).text gap = (e.write bound).text gap := by
  induction e generalizing bound with
  | operand a => rfl
  | unary op right ih => simp only [regroup, write, Written.text, ih]
  | binary op left right ihl ihr =>
      simp only [regroup, write]
      split_ifs
      · simp only [text_attach, Written.text, ihl, ihr]
      · simp only [Written.text, text_attach, ihl, ihr]

lemma level_eq_precedence {op : BinaryOp} (h : op ≠ .logicOr) : op.level = op.precedence := by
  cases op with
  | logicOr => exact absurd rfl h
  | _ => rfl

/-- A chain of `&&` whose first operand is of a tighter level. -/
def Written.IsChain : Written → Prop
  | binary .logicAnd l _ => l.IsChain
  | e => e.rank ≤ 8

lemma Written.isChain_of_rank {w : Written} (h : w.rank ≤ 8) : w.IsChain := by
  cases w with
  | binary op l r =>
      cases op with
      | logicAnd => exact absurd h (Nat.not_succ_le_self 8)
      | _ => exact h
  | _ => exact h

lemma Written.not_isConjunction {w : Written} (h : w.rank ≤ 8) : ¬ w.IsConjunction := by
  cases w with
  | binary op l r =>
      cases op with
      | logicAnd => exact absurd h (Nat.not_succ_le_self 8)
      | _ => exact id
  | _ => exact id

/-- A chain of `&&` behind `||` is one chain with what stands before it. -/
lemma grouped_attach {left e : Written} (hleft : left.Grouped) (he : e.Grouped)
    (hchain : e.IsChain) : (attach .logicOr left e).Grouped := by
  induction e with
  | binary op l r ihl =>
      by_cases hop : op = .logicAnd
      · subst hop
        exact ⟨⟨ihl he.1.1 hchain, Written.rank_le _⟩, he.2⟩
      · have hnot : ¬ (Written.binary op l r).IsConjunction := by
          cases op with
          | logicAnd => exact absurd rfl hop
          | _ => exact id
        have hrank : (Written.binary op l r).rank ≤ 8 := by
          cases op with
          | logicAnd => exact absurd rfl hop
          | _ => exact hchain
        rw [attach_of_not hnot]
        exact ⟨⟨hleft, Written.rank_le _⟩, he, hrank⟩
  | _ => exact ⟨⟨hleft, Written.rank_le _⟩, he, Nat.zero_le _⟩

/-- What the parser reads follows its levels. -/
lemma Source.grouped_regroup (e : Source) (bound : ℕ) :
    (e.regroup bound).Grouped ∧ (e.regroup bound).rank ≤ bound ∧
      (bound ≤ 9 → (e.regroup bound).IsChain) := by
  induction e generalizing bound with
  | operand a => exact ⟨trivial, Nat.zero_le _, fun _ => Nat.zero_le _⟩
  | unary op right ih =>
      obtain ⟨hgrouped, hrank, -⟩ := ih 0
      exact ⟨⟨hgrouped, Nat.le_zero.1 hrank⟩, Nat.zero_le _, fun _ => Nat.zero_le _⟩
  | binary op left right ihl ihr =>
      obtain ⟨hleft, hleftRank, hleftChain⟩ := ihl (op.precedence + 1)
      obtain ⟨hright, hrightRank, hrightChain⟩ := ihr op.precedence
      simp only [regroup]
      by_cases hor : op = .logicOr
      · -- a chain of `&&` on the right takes the `||` into its first operand
        subst hor
        have hgrouped := grouped_attach hleft hright (hrightChain le_rfl)
        split_ifs with hbound
        · exact ⟨hgrouped, (Written.rank_le _).trans ((Nat.le_succ 9).trans hbound),
            fun hle => absurd (hbound.trans hle) (by decide)⟩
        · exact ⟨hgrouped, Nat.zero_le _, fun _ => Nat.zero_le _⟩
      · have hlevel := level_eq_precedence hor
        have hle := level_le op
        rw [attach_of_not (Written.not_isConjunction (by omega))]
        have hgrouped : (Written.binary op (left.regroup (op.precedence + 1))
            (right.regroup op.precedence)).Grouped :=
          ⟨⟨hleft, by omega⟩, hright, by omega⟩
        split_ifs with hbound
        · refine ⟨hgrouped, ?_, fun hnine => ?_⟩
          · rw [Written.rank, hlevel]
            exact hbound
          · by_cases hand : op = .logicAnd
            · subst hand
              exact hleftChain le_rfl
            · refine Written.isChain_of_rank ?_
              have hseven : op.level ≤ 7 := by
                cases op with
                | logicAnd => exact absurd rfl hand
                | logicOr => exact absurd rfl hor
                | _ => decide
              exact Nat.succ_le_succ hseven
        · exact ⟨hgrouped, Nat.zero_le _, fun _ => Nat.zero_le _⟩

/-- The parser reads the text of an expression as it is regrouped. -/
lemma Source.parseExpression_text (gap : Gap) (e : Source) :
    parseExpression (e.text gap) = .ok (e.regroup 10).node := by
  rw [text, ← e.text_regroup]
  exact parseExpression_written gap (e.grouped_regroup 10).1

/-- Only behind `||` a conjunction stands without parentheses as a right operand. -/
lemma Source.isConjunction_regroup {e : Source} {bound : ℕ} (h : bound ≤ 9) :
    (e.regroup bound).IsConjunction ↔ e.IsConjunction ∧ bound = 9 := by
  cases e with
  | operand a => simp only [regroup, Written.IsConjunction, IsConjunction, false_and]
  | unary op right => simp only [regroup, Written.IsConjunction, IsConjunction, false_and]
  | binary op left right =>
      have hright := (right.grouped_regroup op.precedence).2.1
      rw [regroup]
      by_cases hor : op = .logicOr
      · subst hor
        rw [if_neg fun hbound => absurd (hbound.trans h) (by decide)]
        simp only [Written.IsConjunction, IsConjunction, false_and]
      · have hlevel := level_eq_precedence hor
        have hle := level_le op
        rw [attach_of_not (Written.not_isConjunction (by omega))]
        by_cases hand : op = .logicAnd
        · subst hand
          split_ifs with hbound
          · exact iff_of_true trivial ⟨trivial, le_antisymm h hbound⟩
          · exact iff_of_false id fun hnine => hbound hnine.2.ge
        · have hnot : ¬ (binary op left right).IsConjunction := by
            cases op with
            | logicAnd => exact absurd rfl hand
            | _ => exact id
          refine iff_of_false ?_ fun hconj => hnot hconj.1
          split_ifs
          · cases op with
            | logicAnd => exact absurd rfl hand
            | _ => exact id
          · exact id

/-- The conjunction behind `||` is the only one that is not read as it is. -/
lemma Source.node_regroup (e : Source) (bound : ℕ) :
    (e.regroup bound).node = e.node ↔ e.Unmixed := by
  induction e generalizing bound with
  | operand a => exact iff_of_true rfl trivial
  | unary op right ih =>
      rw [Unmixed, ← ih 0]
      exact ⟨fun h => (ExprNode.unary.inj h).2, fun h => congrArg (ExprNode.unary op) h⟩
  | binary op left right ihl ihr =>
      have hparen : ∀ w : Written,
          (if op.precedence + 1 ≤ bound then w else .paren w).node = w.node := by
        intro w
        split_ifs
        · rfl
        · rfl
      have hnine : op.precedence ≤ 9 := by cases op <;> decide
      have hconj := right.isConjunction_regroup hnine
      rw [regroup, hparen, Unmixed, ← ihl (op.precedence + 1), ← ihr op.precedence]
      by_cases h : (right.regroup op.precedence).IsConjunction
      · -- the root is `&&` now
        obtain ⟨hright, hprec⟩ := hconj.1 h
        have hor : op = .logicOr := by
          by_contra hne
          have hle := level_le op
          rw [level_eq_precedence hne, hprec] at hle
          exact absurd hle (by decide)
        refine iff_of_false ?_ fun hmixed => hmixed.2.2 ⟨hor, hright⟩
        cases hregroup : right.regroup op.precedence with
        | binary op' l r =>
            rw [hregroup] at h
            cases op' with
            | logicAnd =>
                rw [attach, node, hor]
                intro heq
                cases (ExprNode.binary.inj heq).1
            | _ => exact absurd h id
        | _ =>
            rw [hregroup] at h
            exact absurd h id
      · have hnot : ¬ (op = .logicOr ∧ right.IsConjunction) := by
          rintro ⟨rfl, hright⟩
          exact h (hconj.2 ⟨hright, rfl⟩)
        rw [attach_of_not h]
        constructor
        · intro heq
          obtain ⟨-, hl, hr⟩ := ExprNode.binary.inj heq
          exact ⟨hl, hr, hnot⟩
        · rintro ⟨hl, hr, -⟩
          rw [Written.node, hl, hr, node]

/-- The text of an expression with minimal parentheses is read as that expression exactly if no
`||` has a conjunction as its right operand. -/
theorem parseExpression_text_iff (gap : Gap) (e : Source) :
    parseExpression (e.text gap) = .ok e.node ↔ e.Unmixed := by
  rw [e.parseExpression_text gap, Except.ok.injEq]
  exact e.node_regroup 10

lemma letters_isIdentifier : IsIdentifier "a".toList ∧ IsIdentifier "b".toList ∧
    IsIdentifier "c".toList := by decide

lemma blank_isSpace : ∀ c ∈ [' '], isSpace c = true := by simp [isSpace]

/-- `a || b && c`. -/
def orAnd : Source :=
  .binary .logicOr (.operand (.signal ⟨"a", letters_isIdentifier.1⟩))
    (.binary .logicAnd (.operand (.signal ⟨"b", letters_isIdentifier.2.1⟩))
      (.operand (.signal ⟨"c", letters_isIdentifier.2.2⟩)))

/-- The expression is read as `(a || b) && c`. -/
theorem orAnd_not_read :
    ¬ ∀ (gap : Gap) (e : Source), parseExpression (e.text gap) = .ok e.node := by
  intro h
  have htext : orAnd.text ⟨[' '], blank_isSpace⟩ = "a || b && c" := by decide +kernel
  have hparse : parseExpression "a || b && c" =
      .ok (.binary .logicAnd (.binary .logicOr (.signal "a") (.signal "b")) (.signal "c")) := by
    decide +kernel
  have hread := h ⟨[' '], blank_isSpace⟩ orAnd
  rw [htext, hparse, Except.ok.injEq] at hread
  cases (ExprNode.binary.inj hread).1

end XdebugFst.Expr
