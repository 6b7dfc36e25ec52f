import Mathlib.Tactic
import Mathlib.Data.List.Sort

/-!
# Four-state logic values

The value type of `core/value/logic_value.h`: an MSB-first bit string over
`0`, `1`, `x`, `z` (and the nine-state letters of a waveform dump) together with
its width and with what is known of it.
-/

namespace XdebugFst

/-- A width-carrying four-state value, stored as an MSB-first bit string. -/
structure LogicValue where
  /-- The bits, most significant first. -/
  bits : String
  /-- The width; `0` stands for an unknown width. -/
  width : ℤ := 0
  /-- No bit is `x`, `z` or another unknown letter. -/
  known : Bool := true
  hasX : Bool := false
  hasZ : Bool := false
deriving DecidableEq, Repr

/-- What one character of a dump says about a value: the pair `(has_x, has_z)` it sets.
A character that sets neither is a known bit. -/
def bitUnknown (c : Char) : Bool × Bool :=
  if c = 'x' ∨ c = 'X' ∨ c = 'h' ∨ c = 'u' ∨ c = 'w' ∨ c = '-' then (true, false)
  else if c = 'z' ∨ c = 'Z' ∨ c = 'l' then (false, true)
  else if c ≠ '0' ∧ c ≠ '1' then (true, false)
  else (false, false)

/-- `logic_value_from_bits`: the value of a bit string of a dump. -/
def logicValueFromBits (bits : String) (width : ℤ) : LogicValue :=
  let marks := bits.toList.map bitUnknown
  { bits := bits
    width := if width = 0 ∧ bits ≠ "" then bits.length else width
    known := marks.all fun m => !m.1 && !m.2
    hasX := marks.any (·.1)
    hasZ := marks.any (·.2) }

/-- `logic_value_from_u64`: the low `width` bits of a 64-bit word (all 64 of them when no width
is given), most significant first. A bit is got by a shift. C++ leaves a shift by 64 or more
undefined; here it takes the count modulo 64, as the shift of x86-64 does. -/
def logicValueFromU64 (value : ℕ) (width : ℤ) : LogicValue :=
  let w := if 0 < width then width.toNat else 64
  { bits := String.ofList ((List.range w).reverse.map fun i =>
      if value.testBit (i % 64) then '1' else '0')
    width := width }

end XdebugFst
