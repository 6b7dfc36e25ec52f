import XdebugFst.Expr.Precedence

/-!
# Invariants of the parser

What holds of every tree that the parser builds, together with the text that is left behind it.
`ParserInvariant` has one field for each place where the parser makes or keeps a tree, and
`ParserInvariant.parseExpression` is the induction over the fuel and the levels, once for all
invariants.
-/

namespace XdebugFst.Expr

/-- A property of a tree and of the text after it that every step of the parser keeps. -/
structure ParserInvariant (P : ExprNode → List Char → Prop) : Prop where
  /-- A level ends at a text without an operator. -/
  stop : ∀ {e text}, P e text → P e (skipWs text)
  binary : ∀ {left right text rest rest' n op}, P left text →
    operatorAt n (skipWs text) = some (op, rest) → P right rest' → P (.binary op left right) rest'
  unary : ∀ {op right rest}, P right rest → P (.unary op right) rest
  paren : ∀ {inner rest rest'}, P inner rest → skipWs rest = ')' :: rest' → P inner rest'
  const : ∀ {text e rest}, parseConst text = .ok (e, rest) → P e rest
  select : ∀ {text name after e rest}, parseIdentifier text = (name, after) → name ≠ [] →
    parseSelect (String.ofList name) after = .ok (e, rest) → P e rest

/-- What a function of the parser returns has the property. -/
def Leaves (P : ExprNode → List Char → Prop) (result : ParseResult) : Prop :=
  ∀ e rest, result = .ok (e, rest) → P e rest

section Parser

variable {P : ExprNode → List Char → Prop}

lemma leaves_error {e : String × List Char} : Leaves P (.error e) := by
  intro e' rest h
  cases h

lemma leaves_ok {e : ExprNode} {rest : List Char} (h : P e rest) : Leaves P (.ok (e, rest)) := by
  intro e' rest' heq
  cases heq
  exact h

namespace ParserInvariant

variable (hP : ParserInvariant P)
include hP

lemma parseLevel {operand : List Char → ParseResult} (hoperand : ∀ text, Leaves P (operand text))
    (n fuel : ℕ) {left : ExprNode} {text : List Char} (hleft : P left text) :
    Leaves P (Expr.parseLevel (operatorAt n) operand fuel left text) := by
  induction fuel generalizing left text with
  | zero => exact leaves_error
  | succ fuel ih =>
      rw [Expr.parseLevel]
      cases hop : operatorAt n (skipWs text) with
      | none => exact leaves_ok (hP.stop hleft)
      | some found =>
          obtain ⟨op, rest⟩ := found
          dsimp only
          cases hright : operand rest with
          | error e => exact leaves_error
          | ok found =>
              obtain ⟨right, rest'⟩ := found
              exact ih (hP.binary hleft hop (hoperand rest right rest' hright))

lemma parseAt {primary : List Char → ParseResult} (hprimary : ∀ text, Leaves P (primary text))
    (n : ℕ) (text : List Char) : Leaves P (Expr.parseAt primary n text) := by
  induction n generalizing text with
  | zero => exact hprimary text
  | succ n ih =>
      rw [Expr.parseAt, parseOperands]
      cases hleft : Expr.parseAt primary n text with
      | error e => exact leaves_error
      | ok found =>
          obtain ⟨left, rest⟩ := found
          exact hP.parseLevel ih n _ (ih text left rest hleft)

lemma parseUnary (op : UnaryOp) {result : ParseResult} (h : Leaves P result) :
    Leaves P (parsePrimary.parseUnary op result) := by
  cases result with
  | error e => exact leaves_error
  | ok found => exact leaves_ok (hP.unary (h found.1 found.2 rfl))

lemma parsePrimary (fuel : ℕ) (text : List Char) : Leaves P (Expr.parsePrimary fuel text) := by
  induction fuel generalizing text with
  | zero => exact leaves_error
  | succ fuel ih =>
      rw [Expr.parsePrimary]
      split
      · rename_i inside _
        rw [← parseAt_nine]
        cases hinner : Expr.parseAt (Expr.parsePrimary fuel) 9 inside with
        | error e =>
            dsimp only
            split
            · exact leaves_error
            · exact leaves_error
        | ok found =>
            obtain ⟨inner, rest⟩ := found
            have hin := hP.parseAt ih 9 inside inner rest hinner
            dsimp only
            split
            · rename_i hparen
              exact leaves_ok (hP.paren hin hparen)
            · exact leaves_error
      · exact hP.parseUnary _ (ih _)
      · exact hP.parseUnary _ (ih _)
      · exact hP.parseUnary _ (ih _)
      · split
        · exact fun e rest h => hP.const h
        · rename_i name rest hne hname
          exact fun e rest h => hP.select hname hne h

/-- An invariant holds of an accepted expression, with nothing but blanks behind it. -/
lemma parseExpression {text : String} {e : ExprNode} (h : Expr.parseExpression text = .ok e) :
    ∃ rest, skipWs rest = [] ∧ P e rest := by
  delta Expr.parseExpression at h
  split at h
  · cases h
  · rename_i root rest hroot
    split at h
    · rename_i hend
      cases h
      exact ⟨rest, hend, hP.parseAt (hP.parsePrimary _) 9 _ _ _ hroot⟩
    · cases h

end ParserInvariant

end Parser

end XdebugFst.Expr
