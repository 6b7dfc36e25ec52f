import XdebugFst.Core.LogicValue

/-!
# Expressions over waveform signals

The expression trees of `waveform/expr/expr_eval.h` and the parser that
builds them.

The parser walks over the text with one position. Here the position is
the text that is left, so every function of the parser takes the
remaining characters and returns them. A parse that fails also leaves
the position somewhere, and one caller looks at it again, so a failure
carries its message and the text that is left.

The nine binary levels of the grammar are one function, `parseLevel`,
applied to the operators of the level and to the level below.
-/

namespace XdebugFst.Expr

/-- The prefix operators. -/
inductive UnaryOp
  | bitNot | logicNot | neg
  deriving DecidableEq, Repr

/-- The binary operators. -/
inductive BinaryOp
  | mul | div | mod | add | sub | shl | shr | lt | le | gt | ge
  | eq | ne | caseEq | caseNe | wildZ | wildX | wildInside
  | bitAnd | bitXor | bitOr | logicAnd | logicOr
  deriving DecidableEq, Repr

/-- `ExprNode`: a parsed expression. -/
inductive ExprNode
  | signal (name : String)
  | slice (name : String) (msb lsb : ℤ)
  | const (value : LogicValue)
  | unary (op : UnaryOp) (right : ExprNode)
  | binary (op : BinaryOp) (left right : ExprNode)
  deriving DecidableEq, Repr

/-- What a function of the parser leaves: a node, or the message of the failure, each with
the text after it. -/
abbrev ParseResult := Except (String × List Char) (ExprNode × List Char)

/-! ### Characters -/

/-- `isspace` of the C locale. -/
def isSpace (c : Char) : Bool :=
  c = ' ' ∨ c = '\t' ∨ c = '\n' ∨ c = '\r' ∨ c.toNat = 11 ∨ c.toNat = 12

/-- `skip_ws`. -/
def skipWs (text : List Char) : List Char := text.dropWhile isSpace

/-- A character of an identifier that is not its first. -/
def isIdentChar (c : Char) : Bool := c.isAlphanum || c = '_' || c = '$'

/-- A character that starts an identifier, or a part of a dotted one. -/
def isIdentStart (c : Char) : Bool := c.isAlpha || c = '_'

/-- The identifier after its first character; a dot belongs to it when a new part
follows. -/
def identTail : List Char → List Char × List Char
  | [] => ([], [])
  | c :: rest =>
      if isIdentChar c then ((c :: (identTail rest).1), (identTail rest).2)
      else if c = '.' ∧ (rest.head?.any isIdentStart) = true then
        ((c :: (identTail rest).1), (identTail rest).2)
      else ([], c :: rest)

/-- `parse_identifier`: the identifier at the position, possibly empty. -/
def parseIdentifier (text : List Char) : List Char × List Char :=
  match skipWs text with
  | [] => ([], [])
  | c :: rest =>
      if isIdentStart c then (c :: (identTail rest).1, (identTail rest).2) else ([], c :: rest)

/-- The number that the leading digits of a text denote. -/
def digitsValue (text : List Char) : ℕ :=
  (text.takeWhile Char.isDigit).foldl (fun n c => 10 * n + (c.toNat - '0'.toNat)) 0

/-- `atoi`. -/
def atoi (text : List Char) : ℤ :=
  match skipWs text with
  | '-' :: rest => -(digitsValue rest : ℤ)
  | '+' :: rest => digitsValue rest
  | rest => digitsValue rest

/-- `strtoull` in base ten: the largest value stands for everything beyond it. -/
def strtoull (text : List Char) : ℕ := min (digitsValue text) (2 ^ 64 - 1)

/-! ### Constants -/

/-- The number that a digit of a based literal stands for; letters go on after nine. -/
def hexDigit (c : Char) : ℕ :=
  if c.toNat ≥ 'a'.toNat then c.toNat - 'a'.toNat + 10 else c.toNat - '0'.toNat

/-- The `n` low bits of a number, most significant first. -/
def lowBits (n value : ℕ) : List Char :=
  (List.range n).reverse.map fun i => if value.testBit i then '1' else '0'

/-- One step of accumulating digits of `shift` bits each in 64 bits. -/
def shiftIn (shift value digit : ℕ) : ℕ := (value * 2 ^ shift % 2 ^ 64) ||| digit

/-- `parse_radix` on lowercase digits without underscores. -/
def parseRadix (digits : List Char) (base : Char) (width : ℕ) : LogicValue :=
  let hasX := digits.contains 'x'
  let hasZ := digits.contains 'z'
  if hasX || hasZ then
    let spread (n : ℕ) (value : Char → ℕ) : List Char := digits.flatMap fun c =>
      if c = 'x' ∨ c = 'z' then List.replicate n c else lowBits n (value c)
    let bits := match base with
      | 'h' => spread 4 hexDigit
      | 'o' => spread 3 fun c => c.toNat - '0'.toNat
      | _ => digits
    let bits := if width > 0 ∧ bits.length > width then bits.drop (bits.length - width) else bits
    { bits := String.ofList bits, width := width, known := false, hasX := hasX, hasZ := hasZ }
  else
    let value := match base with
      | 'b' => digits.foldl (fun v c => shiftIn 1 v (if c = '1' then 1 else 0)) 0
      | 'h' => digits.foldl (fun v c => shiftIn 4 v (hexDigit c)) 0
      | 'o' => digits.foldl (fun v c => shiftIn 3 v (c.toNat - '0'.toNat)) 0
      | _ => strtoull digits
    logicValueFromU64 value width

/-- The based literal after its tick, when it is one: an optional `s`, the base and the
digits. The outer `none` says that the text is no based literal; the inner one that the text
ends at the tick. -/
def parseBased (width : ℕ) (text : List Char) : Option (Option (LogicValue × List Char)) :=
  let text := match text with
    | c :: rest => if c.toLower = 's' then rest else c :: rest
    | [] => []
  match text with
  | [] => some none
  | base :: rest =>
      let base := base.toLower
      if base = 'h' ∨ base = 'b' ∨ base = 'd' ∨ base = 'o' then
        let isDigitChar (c : Char) : Bool := c.isAlphanum || c = '_'
        let digits := (rest.takeWhile isDigitChar).filter (· ≠ '_')
        some (some (parseRadix (digits.map Char.toLower) base width, rest.dropWhile isDigitChar))
      else none

/-- The plain decimal constant at the position. -/
def parseDecimal (text : List Char) : ParseResult :=
  let num := text.takeWhile Char.isDigit
  if num = [] then
    .error ("expected expression, found: '" ++ String.ofList text ++ "'", text)
  else .ok (.const (logicValueFromU64 (strtoull num) 0), text.dropWhile Char.isDigit)

/-- `parse_const`. A text that ends right after the tick is an empty constant, and the
position stays before it. -/
def parseConst (text : List Char) : ParseResult :=
  let text := skipWs text
  let widthStr := text.takeWhile (· ≠ '\'')
  match text.dropWhile (· ≠ '\'') with
  | [] => parseDecimal text
  | _ :: afterTick =>
      if widthStr.all Char.isDigit ∧ widthStr.length ≤ 9 then
        match parseBased (atoi widthStr).toNat afterTick with
        | some (some (value, rest)) => .ok (.const value, rest)
        | some none => .ok (.const { bits := "" }, text)
        | none => parseDecimal text
      else parseDecimal text

/-! ### The grammar -/

/-- A signal, with a select when an opening bracket follows. -/
def parseSelect (name : String) (text : List Char) : ParseResult :=
  match skipWs text with
  | '[' :: rest =>
      let first := rest.takeWhile fun c => c ≠ ':' ∧ c ≠ ']'
      let rest := rest.dropWhile fun c => c ≠ ':' ∧ c ≠ ']'
      let (hi, lo, rest) := match rest with
        | ':' :: rest => (first, rest.takeWhile (· ≠ ']'), rest.dropWhile (· ≠ ']'))
        | rest => ([], first, rest)
      match rest with
      | ']' :: rest =>
          let lsb := atoi lo
          .ok (.slice name (if hi = [] then lsb else atoi hi) lsb, rest)
      | rest => .error ("missing ']'", rest)
  | rest => .ok (.signal name, rest)

/-- A level of left-associative binary operators: `left` has been read, and operators of the
level follow. The first argument bounds the number of operators. -/
def parseLevel (operator : List Char → Option (BinaryOp × List Char))
    (operand : List Char → ParseResult) : ℕ → ExprNode → List Char → ParseResult
  | 0, _, text => .error ("", text)
  | fuel + 1, left, text =>
      match operator (skipWs text) with
      | none => .ok (left, skipWs text)
      | some (op, rest) =>
          match operand rest with
          | .error e => .error e
          | .ok (right, rest) => parseLevel operator operand fuel (.binary op left right) rest

/-- A whole level: an operand and what follows it. -/
def parseOperands (operator : List Char → Option (BinaryOp × List Char))
    (operand : List Char → ParseResult) (text : List Char) : ParseResult :=
  match operand text with
  | .error e => .error e
  | .ok (left, rest) => parseLevel operator operand (text.length + 1) left rest

def mulOperator : List Char → Option (BinaryOp × List Char)
  | '*' :: rest => some (.mul, rest)
  | '/' :: rest => some (.div, rest)
  | '%' :: rest => some (.mod, rest)
  | _ => none

def addOperator : List Char → Option (BinaryOp × List Char)
  | '+' :: rest => some (.add, rest)
  | '-' :: rest => some (.sub, rest)
  | _ => none

def shiftOperator : List Char → Option (BinaryOp × List Char)
  | '<' :: '<' :: rest => some (.shl, rest)
  | '>' :: '>' :: rest => some (.shr, rest)
  | _ => none

def cmpOperator : List Char → Option (BinaryOp × List Char)
  | '<' :: '=' :: rest => some (.le, rest)
  | '>' :: '=' :: rest => some (.ge, rest)
  | '<' :: rest => some (.lt, rest)
  | '>' :: rest => some (.gt, rest)
  | _ => none

def eqOperator : List Char → Option (BinaryOp × List Char)
  | '=' :: '=' :: '?' :: 'z' :: rest => some (.wildZ, rest)
  | '=' :: '=' :: '?' :: 'x' :: rest => some (.wildX, rest)
  | '=' :: '=' :: '?' :: 'i' :: rest => some (.wildInside, rest)
  | '=' :: '=' :: '=' :: rest => some (.caseEq, rest)
  | '!' :: '=' :: '=' :: rest => some (.caseNe, rest)
  | '=' :: '=' :: rest => some (.eq, rest)
  | '!' :: '=' :: rest => some (.ne, rest)
  | _ => none

/-- `&` that another `&` does not follow, and that does not end the text. -/
def andOperator : List Char → Option (BinaryOp × List Char)
  | '&' :: '&' :: _ => none
  | '&' :: c :: rest => some (.bitAnd, c :: rest)
  | _ => none

def xorOperator : List Char → Option (BinaryOp × List Char)
  | '^' :: rest => some (.bitXor, rest)
  | _ => none

/-- `|` that another `|` does not follow, and that does not end the text. -/
def orOperator : List Char → Option (BinaryOp × List Char)
  | '|' :: '|' :: _ => none
  | '|' :: c :: rest => some (.bitOr, c :: rest)
  | _ => none

def logicalOperator : List Char → Option (BinaryOp × List Char)
  | '&' :: '&' :: rest => some (.logicAnd, rest)
  | '|' :: '|' :: rest => some (.logicOr, rest)
  | _ => none

/-- The levels from `parse_mul` up to `parse_logical` over a given `parse_primary`. -/
def parseLogicalOver (primary : List Char → ParseResult) : List Char → ParseResult :=
  parseOperands logicalOperator <| parseOperands orOperator <| parseOperands xorOperator <|
    parseOperands andOperator <| parseOperands eqOperator <| parseOperands cmpOperator <|
    parseOperands shiftOperator <| parseOperands addOperator <| parseOperands mulOperator primary

/-- `parse_primary`. The first argument bounds the nesting of parentheses and prefix
operators, each of which takes a character. -/
def parsePrimary : ℕ → List Char → ParseResult
  | 0, text => .error ("", text)
  | fuel + 1, text =>
      match skipWs text with
      | '(' :: rest =>
          match parseLogicalOver (parsePrimary fuel) rest with
          | .ok (inner, rest) =>
              match skipWs rest with
              | ')' :: rest => .ok (inner, rest)
              | rest => .error ("missing ')'", rest)
          | .error (message, rest) =>
              match skipWs rest with
              | ')' :: rest => .error (message, rest)
              | rest => .error ("missing ')'", rest)
      | '~' :: rest => parseUnary .bitNot (parsePrimary fuel rest)
      | '!' :: rest => parseUnary .logicNot (parsePrimary fuel rest)
      | '-' :: rest => parseUnary .neg (parsePrimary fuel rest)
      | rest =>
          match parseIdentifier rest with
          | ([], _) => parseConst rest
          | (name, rest) => parseSelect (String.ofList name) rest
where
  /-- A prefix operator before its operand. -/
  parseUnary (op : UnaryOp) : ParseResult → ParseResult
    | .error e => .error e
    | .ok (right, rest) => .ok (.unary op right, rest)

/-- `parse_logical`. -/
def parseLogical (text : List Char) : ParseResult :=
  parseLogicalOver (parsePrimary (text.length + 1)) text

/-- `parse_expression`: the tree, or the message of the failure. -/
def parseExpression (text : String) : Except String ExprNode :=
  match parseLogical text.toList with
  | .error (message, _) => .error message
  | .ok (root, rest) =>
      match skipWs rest with
      | [] => .ok root
      | rest => .error ("unexpected trailing input: '" ++ String.ofList rest ++ "'")

/-- The signals of an expression from left to right, repeated ones included. -/
def ExprNode.occurrences : ExprNode → List String
  | signal name => [name]
  | slice name _ _ => [name]
  | const _ => []
  | unary _ right => right.occurrences
  | binary _ left right => left.occurrences ++ right.occurrences

/-- `expression_signals`: the signals of an expression, in the order in which they first
occur. -/
def expressionSignals (root : ExprNode) : List String :=
  root.occurrences.foldl (fun out s => if s ∈ out then out else out ++ [s]) []

example : parseExpression "1" = .ok (.const (logicValueFromU64 1 0)) := by decide +kernel

example : parseExpression "a.b[3:0] == 4'h5 && !c" =
    .ok (.binary .logicAnd
      (.binary .eq (.slice "a.b" 3 0) (.const (logicValueFromU64 5 4)))
      (.unary .logicNot (.signal "c"))) := by decide +kernel

end XdebugFst.Expr
