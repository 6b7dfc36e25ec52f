import Mathlib
import XdebugFst.Lib.OrderedMap
import XdebugFst.Expr.Shape

/-!
# Bound event expressions

An event is found by an expression over the aliases of an event config: names of signals, and
fields, which are slices of these signals. `bind_event_expression` puts the path of the signal in
the place of a name, and makes the field a slice of it.

Evaluation in an `Environment` says what the expression means before it is bound. Every field has
the value of its slice there, and a select of a field selects within the field. Binding overwrites
the bounds of such a select with those of the field, and `bindsBySubstitution_iff` says that it
respects the meaning exactly if every select of a field takes the whole field.
-/

namespace XdebugFst.Event

open Lib Waveform XdebugFst.Expr

/-! ### Configs -/

/-- A field of an event config: a slice of a signal, which it names by its alias. -/
structure EventField where
  signal : String
  left : ℤ
  right : ℤ
  deriving DecidableEq, Repr

/-- What expressions use of a config that `normalize_event_config` accepts. -/
structure EventConfig where
  /-- The path of each alias. -/
  signals : OrderedMap String String
  fields : OrderedMap String EventField
  fields_signal : ∀ name field, fields.find? name = some field →
    (signals.find? field.signal).isSome = true

namespace EventConfig

/-- The path of the signal of a field. The alias is there, so `at` does not throw. -/
def path (config : EventConfig) (field : EventField) : String :=
  (config.signals.find? field.signal).getD ""

/-- The name stands for a signal or for a field. -/
def Defines (config : EventConfig) (name : String) : Prop :=
  (config.signals.find? name).isSome = true ∨ (config.fields.find? name).isSome = true

instance (config : EventConfig) (name : String) : Decidable (config.Defines name) :=
  inferInstanceAs (Decidable (_ ∨ _))

end EventConfig

/-- `bind_event_expression`: the rewritten expression, or the message of the failure. -/
def bindEventExpression (config : EventConfig) : ExprNode → Except String ExprNode
  | .signal name =>
      match config.signals.find? name with
      | some path => .ok (.signal path)
      | none =>
          match config.fields.find? name with
          | some field => .ok (.slice (config.path field) field.left field.right)
          | none => .error ("Unknown alias in expression: " ++ name)
  | .slice name msb lsb =>
      match config.signals.find? name with
      | some path => .ok (.slice path msb lsb)
      | none =>
          match config.fields.find? name with
          | some field => .ok (.slice (config.path field) field.left field.right)
          | none => .error ("Unknown alias in expression: " ++ name)
  | .const value => .ok (.const value)
  | .unary op right => do return .unary op (← bindEventExpression config right)
  | .binary op left right => do
      let left ← bindEventExpression config left
      let right ← bindEventExpression config right
      return .binary op left right

/-! ### Environments -/

/-- What the names in an expression stand for, and what is selected of them. -/
structure Environment where
  value : String → LogicValue
  select : String → ℤ → ℤ → LogicValue

/-- The value of an expression in an environment. -/
def evalIn (env : Environment) : ExprNode → LogicValue
  | .signal name => env.value name
  | .slice name msb lsb => env.select name msb lsb
  | .const value => value
  | .unary op right => evalUnary op (evalIn env right)
  | .binary op left right => evalBinary op (evalIn env left) (evalIn env right)

/-- Only the names of an expression matter for its value. -/
lemma evalIn_congr {env env' : Environment} {e : ExprNode}
    (hvalue : ∀ name ∈ e.occurrences, env.value name = env'.value name)
    (hselect : ∀ name ∈ e.occurrences, env.select name = env'.select name) :
    evalIn env e = evalIn env' e := by
  induction e with
  | signal name => exact hvalue name (by simp [ExprNode.occurrences])
  | slice name msb lsb =>
      rw [evalIn, evalIn, hselect name (by simp [ExprNode.occurrences])]
  | const value => rfl
  | unary op right ih => rw [evalIn, evalIn, ih hvalue hselect]
  | binary op left right ihl ihr =>
      simp only [ExprNode.occurrences, List.mem_append] at hvalue hselect
      rw [evalIn, evalIn, ihl (fun n hn => hvalue n (Or.inl hn)) fun n hn => hselect n (Or.inl hn),
        ihr (fun n hn => hvalue n (Or.inr hn)) fun n hn => hselect n (Or.inr hn)]

/-- The bits `[msb:lsb]` of a value. A value without a width stays without one. -/
def selectOf (v : LogicValue) (msb lsb : ℤ) : LogicValue :=
  { v with
    bits := String.ofList (sliceBits v.bits.toList msb lsb).1
    width := if v.width = 0 then 0 else (sliceBits v.bits.toList msb lsb).2 }

section Sample

variable (wf : Backend) (timeIdx : ℕ) (point : ObservationPoint)

/-- The signals of a waveform at a time index. -/
def waveEnvironment : Environment where
  value name := evalSignal wf timeIdx point name none
  select name msb lsb := evalSignal wf timeIdx point name (some (msb, lsb))

lemma evalExpression_eq_evalIn (e : ExprNode) :
    evalExpression wf timeIdx point e = evalIn (waveEnvironment wf timeIdx point) e := by
  induction e with
  | signal name => rfl
  | slice name msb lsb => rfl
  | const value => rfl
  | unary op right ih => rw [evalExpression, ih, evalIn]
  | binary op left right ihl ihr => rw [evalExpression, ihl, ihr, evalIn]

variable (config : EventConfig)

/-- The value of a field: that of its slice. -/
def fieldValue (field : EventField) : LogicValue :=
  evalSignal wf timeIdx point (config.path field) (some (field.left, field.right))

/-- The aliases of a config: a signal is read from the waveform, and a field has the bits of its
slice, of which the bits of a select are taken. -/
def configEnvironment : Environment where
  value name :=
    match config.signals.find? name with
    | some path => evalSignal wf timeIdx point path none
    | none =>
        match config.fields.find? name with
        | some field => fieldValue wf timeIdx point config field
        | none => { bits := "x", known := false, hasX := true }
  select name msb lsb :=
    match config.signals.find? name with
    | some path => evalSignal wf timeIdx point path (some (msb, lsb))
    | none =>
        match config.fields.find? name with
        | some field => selectOf (fieldValue wf timeIdx point config field) msb lsb
        | none => { bits := "x", known := false, hasX := true }

end Sample

/-! ### Whole selects -/

/-- A select takes all of `n` bits. -/
def TakesAll (n : ℕ) (msb lsb : ℤ) : Prop :=
  n = 0 ∨ (n : ℤ) - 1 ≤ max msb lsb ∧ min msb lsb ≤ 0

instance (n : ℕ) (msb lsb : ℤ) : Decidable (TakesAll n msb lsb) :=
  inferInstanceAs (Decidable (_ ∨ _))

lemma length_sliceBits (bits : List Char) (msb lsb : ℤ) :
    (sliceBits bits msb lsb).1.length = (sliceBits bits msb lsb).2.toNat := by
  rw [sliceBits_eq, length_charsAt]
  rfl

/-- A select leaves the bits as they are exactly if it takes all of them. -/
lemma sliceBits_eq_self_iff (bits : List Char) (msb lsb : ℤ) :
    (sliceBits bits msb lsb).1 = bits ↔ TakesAll bits.length msb lsb := by
  have hlength : (sliceBits bits msb lsb).1.length =
      (min (max msb lsb) (bits.length - 1) - max (min msb lsb) 0 + 1).toNat :=
    length_sliceBits bits msb lsb
  constructor
  · intro h
    rw [h] at hlength
    rw [TakesAll]
    omega
  · intro h
    refine List.ext_getElem (by rw [hlength]; rw [TakesAll] at h; omega) fun i hi hi' => ?_
    simp only [sliceBits_eq, charsAt, slicePositions, List.getElem_map, List.getElem_range]
    have hpos : ((bits.length : ℤ) - 1 - (min (max msb lsb) (bits.length - 1) - (i : ℤ))).toNat =
        i := by
      rw [TakesAll] at h
      omega
    rw [hpos, List.getD_eq_getElem _ _ hi']

/-! ### Widths that are not positive -/

/-- A value with 0 for a negative width. No operator tells them apart. -/
def clampWidth (v : LogicValue) : LogicValue := { v with width := max v.width 0 }

lemma clampWidth_of_nonneg {v : LogicValue} (h : 0 ≤ v.width) : clampWidth v = v := by
  rw [clampWidth, max_eq_left h]

lemma effectiveWidth_clampWidth (v : LogicValue) :
    LogicValue.effectiveWidth (clampWidth v) = LogicValue.effectiveWidth v := by
  rw [LogicValue.effectiveWidth, LogicValue.effectiveWidth, clampWidth]
  dsimp only
  split_ifs <;> omega

lemma bitwise_clampWidth (op : Bool → Bool → Bool) (a b : LogicValue) :
    bitwise op (clampWidth a) (clampWidth b) = bitwise op a b := by
  rw [bitwise, effectiveWidth_clampWidth, effectiveWidth_clampWidth]
  rfl

lemma wildcardCaseEq_clampWidth (op : BinaryOp) (a b : LogicValue) :
    wildcardCaseEq op (clampWidth a) (clampWidth b) = wildcardCaseEq op a b := by
  rw [wildcardCaseEq, effectiveWidth_clampWidth, effectiveWidth_clampWidth]
  rfl

lemma arithWidth_clampWidth (a b : LogicValue) :
    arithWidth (clampWidth a) (clampWidth b) = arithWidth a b := by
  rw [arithWidth, arithWidth, clampWidth, clampWidth]
  dsimp only
  split_ifs <;> omega

lemma arith_clampWidth (op : BinaryOp) (a b : LogicValue) :
    arith op (clampWidth a) (clampWidth b) = arith op a b := by
  have hwidth := arithWidth_clampWidth a b
  rw [arithWidth, arithWidth] at hwidth
  rw [arith, hwidth]
  rfl

lemma evalBinary_clampWidth (op : BinaryOp) (a b : LogicValue) :
    evalBinary op (clampWidth a) (clampWidth b) = evalBinary op a b := by
  cases op with
  | bitAnd | bitOr | bitXor =>
      simp only [evalBinary]
      exact bitwise_clampWidth _ a b
  | add | sub | mul | div | mod | shl | shr =>
      simp only [evalBinary]
      exact arith_clampWidth _ a b
  | wildZ | wildX | wildInside =>
      simp only [evalBinary]
      exact wildcardCaseEq_clampWidth _ a b
  | _ => rfl

lemma fromU64_clampWidth (value : ℕ) (width : ℤ) :
    logicValueFromU64 value (max width 0) = clampWidth (logicValueFromU64 value width) := by
  rcases lt_or_ge 0 width with hpos | hneg
  · rw [max_eq_left hpos.le, clampWidth_of_nonneg (show 0 ≤ width from hpos.le)]
  · rw [max_eq_right hneg, logicValueFromU64, logicValueFromU64, clampWidth, if_neg (lt_irrefl 0),
      if_neg (not_lt.2 hneg)]
    dsimp only
    rw [max_eq_right hneg]

lemma evalUnary_clampWidth (op : UnaryOp) (v : LogicValue) :
    clampWidth (evalUnary op (clampWidth v)) = clampWidth (evalUnary op v) := by
  cases op with
  | logicNot => rfl
  | bitNot =>
      by_cases hknown : v.known = true
      · rw [bitNot_known hknown, bitNot_known (r := clampWidth v) hknown]
        simp only [clampWidth, max_assoc, max_self]
      · rw [Bool.not_eq_true] at hknown
        rw [bitNot_unknown hknown, bitNot_unknown (r := clampWidth v) hknown]
        simp only [clampWidth, max_assoc, max_self]
  | neg =>
      by_cases hknown : v.known = true
      · have hneg : ∀ u : LogicValue, u.known = true →
            evalUnary .neg u = arith .sub (logicValueFromU64 0 u.width) u := by
          intro u hu
          rw [evalUnary, hu]
          rfl
        rw [hneg v hknown, hneg (clampWidth v) hknown]
        show clampWidth (arith .sub (logicValueFromU64 0 (max v.width 0)) (clampWidth v)) = _
        rw [fromU64_clampWidth, arith_clampWidth]
      · rw [Bool.not_eq_true] at hknown
        rw [neg_unknown hknown, neg_unknown (r := clampWidth v) hknown]
        simp only [clampWidth, max_assoc, max_self]

/-! ### Binding -/

/-- An expression and the expressions in it. -/
def parts : ExprNode → List ExprNode
  | .signal name => [.signal name]
  | .slice name msb lsb => [.slice name msb lsb]
  | .const value => [.const value]
  | .unary op right => .unary op right :: parts right
  | .binary op left right => .binary op left right :: (parts left ++ parts right)

lemma mem_parts_self (e : ExprNode) : e ∈ parts e := by
  cases e with
  | signal name => exact List.mem_singleton_self _
  | slice name msb lsb => exact List.mem_singleton_self _
  | const value => exact List.mem_singleton_self _
  | unary op right => exact List.mem_cons_self
  | binary op left right => exact List.mem_cons_self

lemma slice_mem_parts {e : ExprNode} {name : String} {msb lsb : ℤ}
    (h : (name, msb, lsb) ∈ slices e) : .slice name msb lsb ∈ parts e := by
  induction e with
  | signal other => cases h
  | slice other m l =>
      cases List.mem_singleton.1 h
      exact List.mem_singleton_self _
  | const value => cases h
  | unary op right ih => exact List.mem_cons_of_mem _ (ih h)
  | binary op left right ihl ihr =>
      refine List.mem_cons_of_mem _ (List.mem_append.2 ?_)
      exact (List.mem_append.1 h).imp ihl ihr

/-- What is collected from a part is collected from the whole. -/
lemma mem_of_mem_parts {α : Type} {f : ExprNode → List α}
    (hunary : ∀ op right, f (.unary op right) = f right)
    (hbinary : ∀ op left right, f (.binary op left right) = f left ++ f right)
    {e part : ExprNode} (h : part ∈ parts e) {a : α} (ha : a ∈ f part) : a ∈ f e := by
  induction e with
  | signal name => rwa [List.mem_singleton.1 h] at ha
  | slice name msb lsb => rwa [List.mem_singleton.1 h] at ha
  | const value => rwa [List.mem_singleton.1 h] at ha
  | unary op right ih =>
      rcases List.mem_cons.1 h with rfl | h
      · exact ha
      · rw [hunary]
        exact ih h
  | binary op left right ihl ihr =>
      rcases List.mem_cons.1 h with rfl | h
      · exact ha
      · rw [hbinary]
        exact List.mem_append.2 ((List.mem_append.1 h).imp ihl ihr)

section Bind

variable (config : EventConfig) (wf : Backend) (timeIdx : ℕ) (point : ObservationPoint)

/-- Binding keeps the meaning of an expression and of all its parts: a part is bound, and the bits
that are evaluated are those of the part in the environment of the config. -/
def BindsBySubstitution (e : ExprNode) : Prop :=
  ∀ part ∈ parts e, ∃ bound, bindEventExpression config part = .ok bound ∧
    (evalExpression wf timeIdx point bound).bits =
      (evalIn (configEnvironment wf timeIdx point config) part).bits

/-- Every select of a field in the expression takes the whole field. -/
def SelectsWholeFields (e : ExprNode) : Prop :=
  ∀ s ∈ slices e, config.signals.find? s.1 = none → ∀ field,
    config.fields.find? s.1 = some field →
      TakesAll (fieldValue wf timeIdx point config field).bits.toList.length s.2.1 s.2.2

/-- The width of a slice is 0 or that of its bits. -/
lemma sized_fieldValue (field : EventField) :
    (fieldValue wf timeIdx point config field).width = 0 ∨
      max (fieldValue wf timeIdx point config field).width 0 =
        (fieldValue wf timeIdx point config field).bits.toList.length := by
  rw [fieldValue, evalSignal]
  dsimp only
  split_ifs
  · exact Or.inl rfl
  · split
    · exact Or.inl rfl
    · refine Or.inr ?_
      dsimp only
      rw [String.toList_ofList, length_sliceBits]
      omega

/-- A select that takes all of a value. -/
lemma clampWidth_selectOf {v : LogicValue}
    (hsized : v.width = 0 ∨ max v.width 0 = v.bits.toList.length) {msb lsb : ℤ}
    (h : TakesAll v.bits.toList.length msb lsb) :
    clampWidth (selectOf v msb lsb) = clampWidth v := by
  have hbits := (sliceBits_eq_self_iff v.bits.toList msb lsb).2 h
  have hlength := length_sliceBits v.bits.toList msb lsb
  rw [hbits] at hlength
  rw [clampWidth, selectOf, clampWidth, hbits, String.ofList_toList]
  dsimp only
  split_ifs with hzero
  · rw [hzero]
  · rw [hsized.resolve_left hzero]
    congr 1
    omega

variable {config} in
lemma EventConfig.Defines.cases {name : String} (h : config.Defines name) :
    (∃ path, config.signals.find? name = some path) ∨
      config.signals.find? name = none ∧ ∃ field, config.fields.find? name = some field := by
  cases hsignal : config.signals.find? name with
  | some path => exact Or.inl ⟨path, rfl⟩
  | none =>
      rw [EventConfig.Defines, hsignal] at h
      exact Or.inr ⟨rfl, Option.isSome_iff_exists.1 (h.resolve_left (by decide))⟩

/-- The expression is bound, and its value is the one in the environment of the config. -/
lemma exists_bound {e : ExprNode} (hnames : ∀ name ∈ e.occurrences, config.Defines name)
    (hwhole : SelectsWholeFields config wf timeIdx point e) :
    ∃ bound, bindEventExpression config e = .ok bound ∧
      clampWidth (evalExpression wf timeIdx point bound) =
        clampWidth (evalIn (configEnvironment wf timeIdx point config) e) := by
  induction e with
  | signal name =>
      rw [bindEventExpression, evalIn, configEnvironment]
      dsimp only
      rcases (hnames name List.mem_cons_self).cases with ⟨path, hsignal⟩ | ⟨hsignal, field, hfield⟩
      · rw [hsignal]
        exact ⟨_, rfl, rfl⟩
      · rw [hsignal, hfield]
        exact ⟨_, rfl, rfl⟩
  | slice name msb lsb =>
      rw [bindEventExpression, evalIn, configEnvironment]
      dsimp only
      rcases (hnames name List.mem_cons_self).cases with ⟨path, hsignal⟩ | ⟨hsignal, field, hfield⟩
      · rw [hsignal]
        exact ⟨_, rfl, rfl⟩
      · -- the bound slice is the whole field, and so is the select
        have hall := hwhole (name, msb, lsb) (List.mem_singleton_self _) hsignal field hfield
        rw [hsignal, hfield]
        refine ⟨_, rfl, ?_⟩
        exact (clampWidth_selectOf (sized_fieldValue config wf timeIdx point field) hall).symm
  | const value => exact ⟨_, rfl, rfl⟩
  | unary op right ih =>
      obtain ⟨bound, hbound, hvalue⟩ := ih hnames hwhole
      refine ⟨.unary op bound, ?_, ?_⟩
      · rw [bindEventExpression, hbound]
        rfl
      · rw [evalExpression, evalIn, ← evalUnary_clampWidth, hvalue, evalUnary_clampWidth]
  | binary op left right ihl ihr =>
      obtain ⟨boundLeft, hleft, hl⟩ := ihl (fun name h => hnames name (List.mem_append_left _ h))
        fun s hs => hwhole s (List.mem_append_left _ hs)
      obtain ⟨boundRight, hright, hr⟩ := ihr
        (fun name h => hnames name (List.mem_append_right _ h))
        fun s hs => hwhole s (List.mem_append_right _ hs)
      refine ⟨.binary op boundLeft boundRight, ?_, ?_⟩
      · rw [bindEventExpression, hleft, hright]
        rfl
      · rw [evalExpression, evalIn, ← evalBinary_clampWidth, hl, hr, evalBinary_clampWidth]

/-- Binding is substitution exactly where every select of a field takes the whole field. -/
theorem bindsBySubstitution_iff (e : ExprNode)
    (hnames : ∀ name ∈ e.occurrences, config.Defines name) :
    BindsBySubstitution config wf timeIdx point e ↔
      SelectsWholeFields config wf timeIdx point e := by
  constructor
  · rintro h ⟨name, msb, lsb⟩ hs hsignal field hfield
    -- the select is a part of the expression, and it is bound to the slice of the field
    obtain ⟨bound, hbound, hbits⟩ := h _ (slice_mem_parts hs)
    rw [bindEventExpression, hsignal, hfield] at hbound
    cases hbound
    rw [evalIn, configEnvironment] at hbits
    dsimp only at hsignal hfield hbits
    rw [hsignal, hfield] at hbits
    have hself : (String.ofList (sliceBits (fieldValue wf timeIdx point config field).bits.toList
        msb lsb).1).toList = (fieldValue wf timeIdx point config field).bits.toList :=
      congrArg String.toList hbits.symm
    rw [String.toList_ofList] at hself
    exact (sliceBits_eq_self_iff _ msb lsb).1 hself
  · intro hwhole part hpart
    obtain ⟨bound, hbound, hvalue⟩ := exists_bound config wf timeIdx point
      (fun name hname => hnames name
        (mem_of_mem_parts (f := ExprNode.occurrences) (fun _ _ => rfl) (fun _ _ _ => rfl) hpart hname))
      fun s hs => hwhole s
        (mem_of_mem_parts (f := slices) (fun _ _ => rfl) (fun _ _ _ => rfl) hpart hs)
    exact ⟨bound, hbound, congrArg (·.bits) hvalue⟩

end Bind

/-- The bits `[7:4]` of the signal `a`, as `f`. -/
def nibbleFields : OrderedMap String EventField := OrderedMap.empty.insert "f" ⟨"a", 7, 4⟩

lemma nibbleFields_eq {name : String} {field : EventField}
    (h : nibbleFields.find? name = some field) : field = ⟨"a", 7, 4⟩ := by
  rcases (OrderedMap.find?_insert_eq_some_iff _).1 h with ⟨-, rfl⟩ | ⟨-, hold⟩
  · rfl
  · cases hold

lemma nibbleFields_signal (name : String) (field : EventField)
    (h : nibbleFields.find? name = some field) :
    ((OrderedMap.empty.insert "a" "s").find? field.signal).isSome = true := by
  rw [nibbleFields_eq h]
  decide

/-- The signal `s` as `a`, with that field. -/
def nibbleConfig : EventConfig where
  signals := OrderedMap.empty.insert "a" "s"
  fields := nibbleFields
  fields_signal := nibbleFields_signal

/-- The select `f[1:0]` is bound to all four bits of the field. -/
theorem fieldSelect_not_bindsBySubstitution :
    ¬ ∀ (config : EventConfig) (wf : Backend) (timeIdx : ℕ) (point : ObservationPoint)
      (e : ExprNode), (∀ name ∈ e.occurrences, config.Defines name) →
        BindsBySubstitution config wf timeIdx point e := by
  intro h
  have hnames : ∀ name ∈ (ExprNode.slice "f" 1 0).occurrences, nibbleConfig.Defines name := by
    decide
  obtain ⟨bound, hbound, hbits⟩ := h nibbleConfig (constWave "10100101") 0 .raw (.slice "f" 1 0)
    hnames _ (mem_parts_self _)
  cases hbound
  exact absurd hbits (by decide +kernel)

/-- A field, a select of all its bits and a select of a signal. -/
theorem bindsBySubstitution_whole :
    (∀ name ∈ (ExprNode.binary .logicAnd (.binary .eq (.signal "f") (.slice "f" 3 0))
        (.slice "a" 1 0)).occurrences, nibbleConfig.Defines name) ∧
      BindsBySubstitution nibbleConfig (constWave "10100101") 0 .raw
        (.binary .logicAnd (.binary .eq (.signal "f") (.slice "f" 3 0)) (.slice "a" 1 0)) := by
  have hnames : ∀ name ∈ (ExprNode.binary .logicAnd (.binary .eq (.signal "f") (.slice "f" 3 0))
      (.slice "a" 1 0)).occurrences, nibbleConfig.Defines name := by decide
  refine ⟨hnames, (bindsBySubstitution_iff _ _ _ _ _ hnames).2 ?_⟩
  rintro s hs hsignal field hfield
  simp only [slices, List.nil_append, List.cons_append, List.mem_cons, List.not_mem_nil,
    or_false] at hs
  rcases hs with rfl | rfl
  · rw [nibbleFields_eq hfield]
    decide +kernel
  · exact absurd hsignal (by decide)

end XdebugFst.Event
