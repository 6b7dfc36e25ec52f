import XdebugFst.Expr.Parse
import XdebugFst.Waveform.Backend

/-!
# Evaluation of expressions

`eval_expression` computes the four-state value of an expression at a
time index of a waveform. Signals that cannot be read are unknown, and
each operator has its own rule for unknown operands.

Texts of values are strings of the waveform, so a bit is any character;
only `0` and `1` are known bits.
-/

namespace XdebugFst.Expr

open Waveform

/-- A one-bit unknown. -/
def unknownBool : LogicValue := { bits := "x", width := 1, known := false, hasX := true }

/-- `from_bool`. -/
def fromBool (b : Bool) : LogicValue := logicValueFromU64 (if b then 1 else 0) 1

/-- `to_u64`: the bits in 64-bit arithmetic. -/
def toU64 (v : LogicValue) : ℕ :=
  v.bits.toList.foldl (fun acc c => shiftIn 1 acc (if c = '1' then 1 else 0)) 0

/-- The width of an operand: the declared one, else the number of bits. -/
def LogicValue.effectiveWidth (v : LogicValue) : ℕ :=
  if v.width > 0 then v.width.toNat else v.bits.length

/-- The characters brought to `width` by cutting or filling at the front. -/
def fitWidth (width : ℕ) (fill : Char) (bits : List Char) : List Char :=
  List.replicate (width - bits.length) fill ++ bits.drop (bits.length - width)

lemma length_fitWidth (w : ℕ) (fill : Char) (l : List Char) : (fitWidth w fill l).length = w := by
  rw [fitWidth, List.length_append, List.length_replicate, List.length_drop]
  omega

/-- Neither `0` nor `1`. -/
def isUnknownBit (c : Char) : Bool := c ≠ '0' ∧ c ≠ '1'

/-- One bit of `bitwise`. -/
def bitwiseBit (op : Bool → Bool → Bool) (a b : Char) : Char :=
  if isUnknownBit a || isUnknownBit b then 'x'
  else if op (a = '1') (b = '1') then '1' else '0'

/-- `bitwise`. -/
def bitwise (op : Bool → Bool → Bool) (a b : LogicValue) : LogicValue :=
  let w := max (LogicValue.effectiveWidth a) (LogicValue.effectiveWidth b)
  let ba := fitWidth w (if a.known then '0' else 'x') a.bits.toList
  let bb := fitWidth w (if b.known then '0' else 'x') b.bits.toList
  let unknown := (ba.zip bb).filter fun p => isUnknownBit p.1 || isUnknownBit p.2
  { bits := String.ofList (List.zipWith (bitwiseBit op) ba bb)
    width := w
    known := unknown.isEmpty
    hasX := unknown.any fun p => ¬ (p.1 = 'z' ∨ p.2 = 'z')
    hasZ := unknown.any fun p => p.1 = 'z' ∨ p.2 = 'z' }

/-- `LogicalTruth`. -/
inductive LogicalTruth
  | false | true | unknown
  deriving DecidableEq, Repr

/-- `logical_truth`: true as soon as one bit is set. -/
def logicalTruth (v : LogicValue) : LogicalTruth :=
  if v.bits.toList.contains '1' then .true
  else if v.bits.toList.any (· ≠ '0') then .unknown else .false

/-- `arith` for the operators of arithmetic and shifting. -/
def arith (op : BinaryOp) (a b : LogicValue) : LogicValue :=
  let w : ℤ :=
    if a.width > 0 ∧ b.width > 0 then max a.width b.width
    else if a.width > 0 then a.width
    else if b.width > 0 then b.width
    else max a.bits.length b.bits.length
  if !a.known || !b.known then
    { bits := String.ofList (List.replicate (max 1 w).toNat 'x')
      width := w, known := false, hasX := true }
  else
    let va := toU64 a
    let vb := toU64 b
    let r := match op with
      | .add => (va + vb) % 2 ^ 64
      | .sub => (va + 2 ^ 64 - vb) % 2 ^ 64
      | .mul => va * vb % 2 ^ 64
      | .div => if vb = 0 then 0 else va / vb
      | .mod => if vb = 0 then 0 else va % vb
      | .shl => va * 2 ^ (vb % 64) % 2 ^ 64
      | .shr => va / 2 ^ (vb % 64)
      | _ => 0
    logicValueFromU64 r w

/-- `cmp`. -/
def cmp (op : BinaryOp) (a b : LogicValue) : LogicValue :=
  if !a.known || !b.known then unknownBool
  else
    let va := toU64 a
    let vb := toU64 b
    fromBool (match op with
      | .lt => va < vb
      | .le => va ≤ vb
      | .gt => va > vb
      | .ge => va ≥ vb
      | _ => false)

/-- `eq`: the strict forms compare unknown bits as characters. -/
def eq (op : BinaryOp) (a b : LogicValue) : LogicValue :=
  let strict := op = .caseEq ∨ op = .caseNe
  if (!a.known || !b.known) ∧ ¬ strict then unknownBool
  else
    let width := max a.bits.length b.bits.length
    let equal : Bool := fitWidth width '0' a.bits.toList = fitWidth width '0' b.bits.toList
    fromBool (if op = .ne ∨ op = .caseNe then !equal else equal)

/-- The extension of an operand of `wildcard_case_eq`: an unknown value is extended by its
first character when that is `x` or `z`. -/
def extendWild (width : ℕ) (v : LogicValue) : List Char :=
  let fill := match v.bits.toList with
    | c :: _ => if v.known = false ∧ (c = 'x' ∨ c = 'z') then c else '0'
    | [] => '0'
  fitWidth width fill v.bits.toList

/-- `wildcard_case_eq`: `inside` takes wildcards of the right operand only. -/
def wildcardCaseEq (op : BinaryOp) (a b : LogicValue) : LogicValue :=
  let width := max (LogicValue.effectiveWidth a) (LogicValue.effectiveWidth b)
  let wildcard (c : Char) : Bool := c = 'z' ∨ (op = .wildX ∧ c = 'x')
  fromBool ((List.zip (extendWild width a) (extendWild width b)).all fun p =>
    (op ≠ .wildInside ∧ wildcard p.1) ∨ wildcard p.2 ∨ p.1 = p.2)

/-- The bits `[msb:lsb]` of a text that is written most significant first. -/
def sliceBits (bits : List Char) (msb lsb : ℤ) : List Char × ℤ :=
  let w : ℤ := bits.length
  let hi := min (max msb lsb) (w - 1)
  let lo := max (min msb lsb) 0
  ((List.range (hi - lo + 1).toNat).map fun k : ℕ =>
    let idx := w - 1 - (hi - k)
    if 0 ≤ idx ∧ idx < w then bits.getD idx.toNat '0' else '0', hi - lo + 1)

/-- The value of a signal, or of a slice of it, at a time index. A signal that is not in the
waveform is one unknown bit. -/
def evalSignal (wf : Backend) (timeIdx : ℕ) (point : ObservationPoint) (name : String)
    (range : Option (ℤ × ℤ)) : LogicValue :=
  let ref := wf.findSignal name
  if ref = Backend.kInvalidSignalRef then { bits := "x", known := false, hasX := true }
  else
    match wf.sampledValueAt ref timeIdx point with
    | none =>
        let n := match range with
          | some (msb, lsb) => (msb - lsb + 1).toNat
          | none => 1
        { bits := String.ofList (List.replicate n 'x'), known := false, hasX := true }
    | some sampled =>
        let bits := sampled.value.text
        let v := logicValueFromBits bits (((wf.signal ref).map SignalData.width).getD 0)
        match range with
        | none => v
        | some (msb, lsb) =>
            let (out, width) := sliceBits bits.toList msb lsb
            { v with bits := String.ofList out, width := width }

/-- The prefix operators. -/
def evalUnary (op : UnaryOp) (r : LogicValue) : LogicValue :=
  match op with
  | .bitNot =>
      if !r.known then
        { bits := String.ofList (List.replicate (max 1 r.bits.length) 'x')
          width := r.width, known := false, hasX := true }
      else
        { bits := String.ofList (r.bits.toList.map fun c => if c = '0' then '1' else '0')
          width := r.width }
  | .neg => if !r.known then r else arith .sub (logicValueFromU64 0 r.width) r
  | .logicNot =>
      match logicalTruth r with
      | .unknown => unknownBool
      | .false => fromBool true
      | .true => fromBool false

/-- The binary operators. -/
def evalBinary (op : BinaryOp) (l r : LogicValue) : LogicValue :=
  match op with
  | .bitAnd => bitwise (· && ·) l r
  | .bitOr => bitwise (· || ·) l r
  | .bitXor => bitwise xor l r
  | .logicAnd =>
      match logicalTruth l, logicalTruth r with
      | .false, _ => fromBool false
      | _, .false => fromBool false
      | .true, .true => fromBool true
      | _, _ => unknownBool
  | .logicOr =>
      match logicalTruth l, logicalTruth r with
      | .true, _ => fromBool true
      | _, .true => fromBool true
      | .false, .false => fromBool false
      | _, _ => unknownBool
  | .add | .sub | .mul | .div | .mod | .shl | .shr => arith op l r
  | .lt | .le | .gt | .ge => cmp op l r
  | .eq | .ne | .caseEq | .caseNe => eq op l r
  | .wildZ | .wildX | .wildInside => wildcardCaseEq op l r

/-- `eval_expression`. -/
def evalExpression (wf : Backend) (timeIdx : ℕ) (point : ObservationPoint) :
    ExprNode → LogicValue
  | .signal name => evalSignal wf timeIdx point name none
  | .slice name msb lsb => evalSignal wf timeIdx point name (some (msb, lsb))
  | .const value => value
  | .unary op right => evalUnary op (evalExpression wf timeIdx point right)
  | .binary op left right =>
      evalBinary op (evalExpression wf timeIdx point left) (evalExpression wf timeIdx point right)

end XdebugFst.Expr
