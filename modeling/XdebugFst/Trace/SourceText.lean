import XdebugFst.Trace.Statements

/-!
# Statements and their source lines

Some projections look at the source line of a statement: to tell the
operands of the right-hand side from the signals of its predicate, and
to see whether the right-hand side is a plain signal. The line is read
by eye, not by a parser: a comment is cut off, the first assignment
operator is searched for, and what follows is taken for the right-hand
side.
-/

namespace XdebugFst.Trace

open XdebugFst.Expr

/-! ### Lines -/

/-- `trim_copy`. -/
def trimCopy (text : List Char) : List Char :=
  ((text.dropWhile isSpace).reverse.dropWhile isSpace).reverse

/-- The line without its comment. -/
def stripComment (text : List Char) : List Char :=
  match splitFirst "//".toList text with
  | some (code, _) => code
  | none => text

/-- The text after the first equals sign that is no part of a comparison. The first argument
is the character before the text. -/
def plainAssignment (before : Char) : List Char → Option (List Char)
  | [] => none
  | c :: rest =>
      if c = '=' ∧ before ∉ ['=', '!', '<', '>'] ∧ rest.head? ≠ some '=' then some rest
      else plainAssignment c rest

/-- The text after the assignment operator. -/
def afterAssignment (text : List Char) : Option (List Char) :=
  match splitFirst "<=".toList text with
  | some (_, rhs) => some rhs
  | none => plainAssignment (Char.ofNat 0) text

/-! ### Plain signals -/

/-- The loop of `balanced_outer_parentheses`. -/
def balancedLoop : ℤ → List Char → Bool
  | depth, [] => depth = 0
  | depth, c :: rest =>
      let depth := if c = '(' then depth + 1 else if c = ')' then depth - 1 else depth
      if depth = 0 ∧ rest ≠ [] then false
      else if depth < 0 then false
      else balancedLoop depth rest

/-- `balanced_outer_parentheses`. -/
def balancedOuterParentheses (value : List Char) : Bool :=
  2 ≤ value.length ∧ value.head? = some '(' ∧ value.getLast? = some ')' ∧ balancedLoop 0 value

/-- The loop that takes outer parentheses off. The first argument bounds their number. -/
def stripParentheses : ℕ → List Char → List Char
  | 0, value => value
  | fuel + 1, value =>
      if balancedOuterParentheses value then stripParentheses fuel (trimCopy (value.drop 1).dropLast)
      else value

/-- The loop of `direct_signal_syntax` over the characters, with the depth of brackets. -/
def directLoop : ℕ → List Char → Bool
  | depth, [] => depth = 0
  | depth, c :: rest =>
      if c = '[' then directLoop (depth + 1) rest
      else if c = ']' then if depth = 0 then false else directLoop (depth - 1) rest
      else if depth > 0 then
        if c ∈ "?\x7b\x7d|&^!~*/%=,".toList then false else directLoop depth rest
      else if c.isAlphanum ∨ c ∈ "_$.\\".toList then directLoop depth rest
      else false

/-- `direct_signal_syntax`. -/
def directSignalSyntax (expression : List Char) : Bool :=
  let value := stripParentheses expression.length (trimCopy expression)
  match value with
  | [] => false
  | first :: _ => (first.isAlpha ∨ first ∈ "_$\\".toList) ∧ directLoop 0 value

namespace Session

variable (session : Session)

/-- `active_source_line`. -/
def activeSourceLine (statement : StatementGroup) : List Char :=
  match (session.sourceContext statement.file statement.line).find? (·.active) with
  | some row => row.text.toList
  | none => []

/-- `statement_has_direct_rhs`. -/
def statementHasDirectRhs (statement : StatementGroup) : Bool :=
  if statement.rhs.length ≠ 1 then false
  else if session.activeSourceLine statement = [] then true
  else
    match afterAssignment (stripComment (session.activeSourceLine statement)) with
    | none => true
    | some rhs =>
        directSignalSyntax ((trimCopy rhs).reverse.dropWhile fun c =>
          isSpace c ∨ c = ';' ∨ c = ',').reverse

/-! ### Operands -/

/-- The signals of an expression and their leaves, nothing when it does not parse. -/
def expressionNames (text : String) : List String :=
  match parseExpression text with
  | .ok expression => (expressionSignals expression).flatMap fun signal => [signal, leafName signal]
  | .error _ => []

/-- The names contain the source or its leaf. -/
def mentions (names : List String) (driver : DriverRecord) : Bool :=
  let source := session.design.signalName driver.srcSignal
  source ∈ names ∨ leafName source ∈ names

/-- The names on the right-hand side of the source line. -/
def sourceRhsSignals (statement : StatementGroup) : List String :=
  match afterAssignment (stripComment (session.activeSourceLine statement)) with
  | none => []
  | some rhs => expressionNames (String.ofList (rhs.takeWhile (· ≠ ';')))

/-- The sources of the source line, if any source is one. -/
def sourceLineRhs (statement : StatementGroup) : List DriverRecord :=
  let named := session.sourceRhsSignals statement
  if statement.rhs.any (session.mentions named) then statement.rhs.filter (session.mentions named)
  else statement.rhs

/-- `suppress_predicate_rhs_sources`: the sources are those of the source line, and no signals
of the predicate. -/
def suppressPredicateRhsSources (statement : StatementGroup) : StatementGroup :=
  if statement.rhs = [] then statement
  else if statement.predicate = "" then { statement with rhs := session.sourceLineRhs statement }
  else
    let predicateNames := expressionNames statement.predicate
    { statement with
      rhs := (session.sourceLineRhs statement).filter fun driver =>
        ¬ (session.design.signalName driver.srcSignal ≠ "" ∧
          session.mentions predicateNames driver) }

/-- `suppress_non_source_rhs`. -/
def suppressNonSourceRhs (statements : EvaluatedStatements) : EvaluatedStatements where
  active := statements.active.map session.suppressPredicateRhsSources
  unresolved := statements.unresolved.map session.suppressPredicateRhsSources

end Session

end XdebugFst.Trace
