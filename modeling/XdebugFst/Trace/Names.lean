import Mathlib.Data.List.Basic
import Mathlib.Data.List.Sort
import Mathlib.Algebra.Order.Ring.Int

/-!
# Hierarchical names

The trace actions do much of their work on names: scopes are prefixes up
to a dot, elements of arrays end in a bracketed number, compiler
temporaries have telling leaf names, and the name that a user sees is
the stored one without the artificial root. This file collects the
functions of `combined_actions.cpp` that only look at names.

Positions of a string are not used. A search for a character or a text
splits the string instead.
-/

namespace XdebugFst.Trace

/-! ### Splitting -/

/-- `name.rfind(prefix, 0) == 0`. -/
def hasStart (name start : String) : Bool := start.toList.isPrefixOf name.toList

/-- The text before and after the first occurrence of a pattern. -/
def splitFirst (pattern : List Char) : List Char → Option (List Char × List Char)
  | [] => if pattern = [] then some ([], []) else none
  | c :: rest =>
      if pattern.isPrefixOf (c :: rest) then some ([], (c :: rest).drop pattern.length)
      else (splitFirst pattern rest).map fun s => (c :: s.1, s.2)

/-- The text before and after the last occurrence of a character. -/
def splitLast (c : Char) (text : List Char) : Option (List Char × List Char) :=
  match text.reverse.dropWhile (· ≠ c) with
  | [] => none
  | _ :: before => some (before.reverse, (text.reverse.takeWhile (· ≠ c)).reverse)

/-- A sorted list without duplicates, as `std::set::insert` leaves it. -/
def setInsert {α : Type} [LinearOrder α] (s : List α) (x : α) : List α :=
  if x ∈ s then s else s.orderedInsert (· ≤ ·) x

/-- Sorting and `std::unique`. -/
def sortUnique {α : Type} [LinearOrder α] (l : List α) : List α := l.foldl setInsert []

/-! ### Scopes -/

/-- `hierarchy_depth`. -/
def hierarchyDepth (signal : String) : ℕ := signal.toList.count '.'

/-- `signal_scope`: the name before the last dot. -/
def signalScope (signal : String) : String :=
  match splitLast '.' signal.toList with
  | none => ""
  | some (scope, _) => String.ofList scope

/-- The name after the last dot. -/
def leafName (signal : String) : String :=
  match splitLast '.' signal.toList with
  | none => signal
  | some (_, leaf) => String.ofList leaf

/-- `is_scope_ancestor`. -/
def isScopeAncestor (ancestor descendant : String) : Bool :=
  ancestor ≠ "" ∧ (ancestor.toList ++ ['.']).isPrefixOf descendant.toList

/-- `is_verilator_expression_temporary`. -/
def isVerilatorExpressionTemporary (signal : String) : Bool :=
  hasStart (leafName signal) "__vlemcall_"

/-! ### Numbers -/

/-- The digit loop of the decimal parsers: the magnitude so far is never
allowed to grow beyond the limit. -/
def decimalMagnitude (limit : ℕ) : List Char → ℕ → Option ℕ
  | [], magnitude => some magnitude
  | c :: rest, magnitude =>
      if c.isDigit then
        let digit := c.toNat - '0'.toNat
        if magnitude > (limit - digit) / 10 then none
        else decimalMagnitude limit rest (magnitude * 10 + digit)
      else none

/-- `parse_signed_decimal`: the sign and the digits of a number that fits into 64 bits. -/
def signedDecimal (token : List Char) : Option ℤ :=
  let (negative, digits) := match token with
    | '-' :: rest => (true, rest)
    | '+' :: rest => (false, rest)
    | rest => (false, rest)
  if digits = [] then none
  else
    let limit := if negative then 2 ^ 63 else 2 ^ 63 - 1
    (decimalMagnitude limit digits 0).map fun n => if negative then -(n : ℤ) else n

/-- `final_numeric_selector`: the base and the number of a name that ends in a bracketed
number. -/
def finalNumericSelector (signal : String) : Option (String × ℤ) :=
  if signal.toList.getLast? = some ']' then
    match splitLast '[' signal.toList.dropLast with
    | none => none
    | some (base, selector) =>
        if base = [] ∨ selector = [] ∨ ':' ∈ selector then none
        else (signedDecimal selector).map fun value => (String.ofList base, value)
  else none

/-- `selector_base_name`. -/
def selectorBaseName (signal : String) : String :=
  match finalNumericSelector signal with
  | some (base, _) => base
  | none => signal

/-! ### Public names -/

def bra : List Char := "__bra__".toList

def ket : List Char := "__ket__".toList

/-- An optional sign and at least one digit. -/
def isSelectorText (value : List Char) : Bool :=
  let digits := match value with
    | '-' :: rest => rest
    | '+' :: rest => rest
    | rest => rest
  digits ≠ [] ∧ digits.all Char.isDigit

/-- The loop of `decode_verilator_scope_selectors`. The first argument bounds the number of
selectors. -/
def decodeSelectors : ℕ → List Char → List Char
  | 0, text => text
  | fuel + 1, text =>
      match splitFirst bra text with
      | none => text
      | some (before, rest) =>
          match splitFirst ket rest with
          | none => text
          | some (value, rest) =>
              before ++ (if isSelectorText value then '[' :: value ++ [']'] else bra ++ value ++ ket)
                ++ decodeSelectors fuel rest

/-- `decode_verilator_scope_selectors`. -/
def decodeVerilatorScopeSelectors (signal : String) : String :=
  String.ofList (decodeSelectors signal.toList.length signal.toList)

/-- `has_explicit_top_root`. -/
def hasExplicitTopRoot (signal : String) : Bool :=
  signal = "top" ∨ hasStart signal "top." ∨ signal = "TOP" ∨ hasStart signal "TOP."

/-- `signal.substr(4)`. -/
def dropRoot (signal : String) : String := String.ofList (signal.toList.drop 4)

/-- `public_signal_name`. -/
def publicSignalName (signal requestedRoot : String) (compatibilityProjection : Bool) : String :=
  if signal = requestedRoot then signal
  else if compatibilityProjection = false then signal
  else
    let projected :=
      if hasExplicitTopRoot requestedRoot then
        if hasStart signal "top.top." ∨ hasStart signal "TOP.top." then dropRoot signal else signal
      else if hasStart signal "top." ∨ hasStart signal "TOP." then dropRoot signal
      else signal
    decodeVerilatorScopeSelectors projected

/-- `visit_key`: the key of a signal at a time. -/
def visitKey (signal : String) (time : ℕ) : String := signal ++ "\x1f" ++ toString time

/-- The request with the root in lower case. -/
def canonicalRequest (signal : String) : String :=
  if hasStart signal "TOP." then "top." ++ dropRoot signal else signal

/-- The name without its last bracketed part, when it ends in one. -/
def withoutSelector (signal : String) : Option String :=
  if signal.toList.getLast? = some ']' then
    (splitLast '[' signal.toList).map fun s => String.ofList s.1
  else none

end XdebugFst.Trace
