import Mathlib
import XdebugFst.Trace.Statements
import XdebugFst.Trace.QueryIndex
import XdebugFst.Event.Bind

/-!
# Predicates in an environment

A predicate is evaluated after its loop variables have been replaced by constants and its signals
by aliases that the waveform contains. Each replacement goes over the whole tree and changes
leaves only, so what a sequence of them does is what it does to each leaf.

`evaluatesInEnvironment` says that the verdict is that of the predicate itself in the environment in
which the loop variables have their values and the other signals are read. The order of the
replacements is of no importance as long as the loop variables have different names and none of
them is the alias of a signal: an alias that is replaced first would otherwise become a loop
variable.
-/

namespace XdebugFst.Trace

open Lib Waveform XdebugFst.Expr Event

/-! ### Leaves -/

/-- A signal, or a slice of it. -/
def leafNode (name : String) : Option (ℤ × ℤ) → ExprNode
  | none => .signal name
  | some (msb, lsb) => .slice name msb lsb

/-- An expression with another one in the place of each leaf. -/
def substLeaves (f : String → Option (ℤ × ℤ) → ExprNode) : ExprNode → ExprNode
  | .signal name => f name none
  | .slice name msb lsb => f name (some (msb, lsb))
  | .const value => .const value
  | .unary op right => .unary op (substLeaves f right)
  | .binary op left right => .binary op (substLeaves f left) (substLeaves f right)

/-- What a leaf stands for. -/
def readIn (env : Environment) (name : String) : Option (ℤ × ℤ) → LogicValue
  | none => env.value name
  | some (msb, lsb) => env.select name msb lsb

section Leaves

variable {f g : String → Option (ℤ × ℤ) → ExprNode} {env env' : Environment} {e : ExprNode}

@[simp] lemma evalIn_leafNode (name : String) (range : Option (ℤ × ℤ)) :
    evalIn env (leafNode name range) = readIn env name range := by
  cases range <;> rfl

@[simp] lemma occurrences_leafNode (name : String) (range : Option (ℤ × ℤ)) :
    (leafNode name range).occurrences = [name] := by
  cases range <;> rfl

@[simp] lemma substLeaves_leafNode (name : String) (range : Option (ℤ × ℤ)) :
    substLeaves f (leafNode name range) = f name range := by
  cases range <;> rfl

lemma substLeaves_substLeaves :
    substLeaves f (substLeaves g e) = substLeaves (fun name range => substLeaves f (g name range)) e := by
  induction e with
  | signal name => rfl
  | slice name msb lsb => rfl
  | const value => rfl
  | unary op right ih => simp [substLeaves, ih]
  | binary op left right ihl ihr => simp [substLeaves, ihl, ihr]

lemma occurrences_substLeaves {names : String → List String}
    (h : ∀ name range, (f name range).occurrences = names name) :
    (substLeaves f e).occurrences = e.occurrences.flatMap names := by
  induction e with
  | signal name => simp [substLeaves, ExprNode.occurrences, h]
  | slice name msb lsb => simp [substLeaves, ExprNode.occurrences, h]
  | const value => rfl
  | unary op right ih => exact ih
  | binary op left right ihl ihr =>
      rw [substLeaves, ExprNode.occurrences, ihl, ihr, ExprNode.occurrences, List.flatMap_append]

/-- The value of an expression after a replacement, when each leaf is replaced by an expression
of the value that it has in another environment. -/
lemma evalIn_substLeaves
    (h : ∀ name ∈ e.occurrences, ∀ range, evalIn env (f name range) = readIn env' name range) :
    evalIn env (substLeaves f e) = evalIn env' e := by
  induction e with
  | signal name => exact h name (by simp [ExprNode.occurrences]) none
  | slice name msb lsb => exact h name (by simp [ExprNode.occurrences]) (some (msb, lsb))
  | const value => rfl
  | unary op right ih => rw [substLeaves, evalIn, evalIn, ih h]
  | binary op left right ihl ihr =>
      simp only [ExprNode.occurrences, List.mem_append] at h
      rw [substLeaves, evalIn, evalIn, ihl fun n hn => h n (Or.inl hn),
        ihr fun n hn => h n (Or.inr hn)]

end Leaves

/-! ### Replacements -/

/-- One replacement: a loop variable by a constant, or a signal by its alias. -/
inductive Rewrite
  | bind (signal : String) (value width : ℤ)
  | replace (signal target : String)
  deriving DecidableEq, Repr

/-- The constant that `bind_expression_signal` puts in the place of a leaf. -/
def boundConstant (value width : ℤ) : Option (ℤ × ℤ) → LogicValue
  | none => logicValueFromU64 (value % 2 ^ 64).toNat (max 1 (min width 64))
  | some (msb, lsb) =>
      let width := max 1 (min (msb - lsb + 1) 64)
      let raw := if lsb ≥ 64 then 0 else (value % 2 ^ 64).toNat / 2 ^ lsb.toNat
      logicValueFromU64 (if width < 64 then raw % 2 ^ width.toNat else raw) width

namespace Rewrite

/-- The name whose leaves are replaced. -/
def source : Rewrite → String
  | bind signal _ _ => signal
  | replace signal _ => signal

/-- What a replacement puts in the place of a leaf of its name. -/
def leaf : Rewrite → Option (ℤ × ℤ) → ExprNode
  | bind _ value width, range => .const (boundConstant value width range)
  | replace _ target, range => leafNode target range

def applyLeaf (rewrite : Rewrite) (name : String) (range : Option (ℤ × ℤ)) : ExprNode :=
  if name = rewrite.source then rewrite.leaf range else leafNode name range

/-- The replacement in an expression, as the source makes it. -/
def apply : Rewrite → ExprNode → ExprNode
  | bind signal value width => Session.bindExpressionSignal signal value width
  | replace signal target => Session.replaceExpressionSignal signal target

lemma apply_eq (rewrite : Rewrite) (e : ExprNode) :
    rewrite.apply e = substLeaves rewrite.applyLeaf e := by
  cases rewrite with
  | bind signal value width =>
      rw [apply]
      induction e with
      | signal name =>
          by_cases h : name = signal <;>
            simp [Session.bindExpressionSignal, substLeaves, applyLeaf, source, leaf, leafNode,
              boundConstant, h]
      | slice name msb lsb =>
          by_cases h : name = signal <;>
            simp [Session.bindExpressionSignal, substLeaves, applyLeaf, source, leaf, leafNode,
              boundConstant, h]
      | const value => rfl
      | unary op right ih => rw [Session.bindExpressionSignal, ih, substLeaves]
      | binary op left right ihl ihr => rw [Session.bindExpressionSignal, ihl, ihr, substLeaves]
  | replace signal target =>
      rw [apply]
      induction e with
      | signal name =>
          by_cases h : name = signal <;>
            simp [Session.replaceExpressionSignal, substLeaves, applyLeaf, source, leaf, leafNode, h]
      | slice name msb lsb =>
          by_cases h : name = signal <;>
            simp [Session.replaceExpressionSignal, substLeaves, applyLeaf, source, leaf, leafNode, h]
      | const value => rfl
      | unary op right ih => rw [Session.replaceExpressionSignal, ih, substLeaves]
      | binary op left right ihl ihr => rw [Session.replaceExpressionSignal, ihl, ihr, substLeaves]

end Rewrite

/-- Replacements, one after another. -/
def applyAll (rewrites : List Rewrite) (e : ExprNode) : ExprNode :=
  rewrites.foldl (fun e rewrite => rewrite.apply e) e

section Rewrites

variable {rewrites : List Rewrite} {e : ExprNode} {name : String} {range : Option (ℤ × ℤ)}

@[simp] lemma applyAll_nil : applyAll [] e = e := rfl

@[simp] lemma applyAll_cons (rewrite : Rewrite) :
    applyAll (rewrite :: rewrites) e = applyAll rewrites (rewrite.apply e) := rfl

lemma applyAll_append (rewrites' : List Rewrite) :
    applyAll (rewrites ++ rewrites') e = applyAll rewrites' (applyAll rewrites e) :=
  List.foldl_append

lemma Rewrite.apply_leafNode (rewrite : Rewrite) :
    rewrite.apply (leafNode name range) = rewrite.applyLeaf name range := by
  rw [apply_eq, substLeaves_leafNode]

lemma Rewrite.apply_leafNode_of_ne {rewrite : Rewrite} (h : name ≠ rewrite.source) :
    rewrite.apply (leafNode name range) = leafNode name range := by
  rw [apply_leafNode, applyLeaf, if_neg h]

lemma Rewrite.apply_leafNode_self (rewrite : Rewrite) :
    rewrite.apply (leafNode rewrite.source range) = rewrite.leaf range := by
  rw [apply_leafNode, applyLeaf, if_pos rfl]

/-- A sequence of replacements does to an expression what it does to each leaf. -/
lemma applyAll_eq :
    applyAll rewrites e = substLeaves (fun name range => applyAll rewrites (leafNode name range)) e := by
  induction rewrites generalizing e with
  | nil =>
      simp only [applyAll_nil]
      induction e with
      | signal name => rfl
      | slice name msb lsb => rfl
      | const value => rfl
      | unary op right ih => rw [substLeaves, ← ih]
      | binary op left right ihl ihr => rw [substLeaves, ← ihl, ← ihr]
  | cons rewrite rewrites ih =>
      rw [applyAll_cons, ih, Rewrite.apply_eq, substLeaves_substLeaves]
      congr 1
      funext name range
      rw [applyAll_cons, Rewrite.apply_leafNode, ← ih]

@[simp] lemma applyAll_const (value : LogicValue) : applyAll rewrites (.const value) = .const value := by
  rw [applyAll_eq, substLeaves]

lemma applyAll_leafNode_of_not_mem (h : ∀ rewrite ∈ rewrites, name ≠ rewrite.source) :
    applyAll rewrites (leafNode name range) = leafNode name range := by
  induction rewrites with
  | nil => rfl
  | cons rewrite rewrites ih =>
      rw [applyAll_cons, Rewrite.apply_leafNode_of_ne (h rewrite List.mem_cons_self)]
      exact ih fun r hr => h r (List.mem_cons_of_mem _ hr)

/-- A leaf is replaced by the first replacement of its name. -/
lemma applyAll_leafNode_of_find {rewrite : Rewrite}
    (h : rewrites.find? (fun r => r.source = name) = some rewrite) :
    ∃ later, later ⊆ rewrites ∧
      applyAll rewrites (leafNode name range) = applyAll later (rewrite.leaf range) := by
  obtain ⟨hsource, earlier, later, rfl, hearlier⟩ := List.find?_eq_some_iff_append.1 h
  obtain rfl : rewrite.source = name := by simpa using hsource
  refine ⟨later, fun r hr => by simp [hr], ?_⟩
  have hskip : ∀ r ∈ earlier, rewrite.source ≠ r.source := by
    intro r hr heq
    simpa [heq] using hearlier r hr
  rw [applyAll_append, applyAll_leafNode_of_not_mem hskip, applyAll_cons,
    Rewrite.apply_leafNode_self]

end Rewrites

/-! ### The environment -/

/-- The bits of a number, most significant first. -/
def ofBitVec {w : ℕ} (x : BitVec w) : LogicValue where
  bits := String.ofList ((List.range w).reverse.map fun i => if x.getLsbD i then '1' else '0')
  width := w

/-- The width of a loop variable: that of a machine word at most, and one bit at least. -/
def loopWidth (width : ℤ) : ℕ := (max 1 (min width 64)).toNat

section Environment

variable (session : Session) (bindings : List (ℤ × ℤ))

/-- The loop variable of a name with its value: of two with one name, the first of the map. -/
def boundVariable (name : String) : Option (ℤ × ℤ) :=
  bindings.find? fun b => session.design.signalName b.1 = name

/-- A connected signal of the same width that the waveform contains. -/
def IsAlias (signal other : String) : Prop :=
  0 ≤ session.design.resolve signal ∧
    ∃ j ∈ session.index.connectedSignalsOf (session.design.resolve signal),
      j ≠ session.design.resolve signal ∧
        session.design.signalWidth j =
          session.design.signalWidth (session.design.resolve signal) ∧
        session.design.signalName j = other ∧ other ≠ "" ∧ session.isSampleable other

/-- The loop variables have their values and the other signals are read at a time: an unsampled
signal from its only alias. -/
structure IsExtended (timeIdx : ℕ) (env : Environment) : Prop where
  /-- A loop variable has its value modulo a power of two. -/
  bound : ∀ name index value, boundVariable session bindings name = some (index, value) →
    env.value name =
      ofBitVec (BitVec.ofInt (loopWidth (session.design.signalWidth index)) value)
  /-- A select within a loop variable has the selected bits. -/
  selected : ∀ name index value, boundVariable session bindings name = some (index, value) →
    ∀ msb lsb, 0 ≤ lsb → lsb ≤ msb → msb < session.design.signalWidth index →
      session.design.signalWidth index ≤ 64 →
      env.select name msb lsb = ofBitVec
        ((BitVec.ofInt (session.design.signalWidth index).toNat value).extractLsb msb.toNat lsb.toNat)
  /-- Any other select of a loop variable is one of its 64 bits, at most 64 of them. -/
  beyond : ∀ name index value, boundVariable session bindings name = some (index, value) →
    ∀ msb lsb, ¬ (0 ≤ lsb ∧ lsb ≤ msb ∧ msb < session.design.signalWidth index ∧
        session.design.signalWidth index ≤ 64) →
      env.select name msb lsb = ofBitVec
        ((BitVec.ofInt 64 value >>> lsb.toNat).setWidth (loopWidth (msb - lsb + 1)))
  sampled : ∀ name, boundVariable session bindings name = none → session.isSampleable name →
    ∀ range, readIn env name range = evalSignal session.waveform timeIdx .raw name range
  aliased : ∀ name other, boundVariable session bindings name = none →
    ¬ session.isSampleable name → IsAlias session name other →
      (∀ o, IsAlias session name o → o = other) →
        ∀ range, readIn env name range = evalSignal session.waveform timeIdx .raw other range

end Environment

section Constants

variable {w : ℕ}

lemma logicValueFromU64_eq_ofBitVec {n : ℕ} {x : BitVec w} (hw : 0 < w) (hle : w ≤ 64)
    (h : ∀ i < w, n.testBit i = x.getLsbD i) : logicValueFromU64 n w = ofBitVec x := by
  unfold logicValueFromU64 ofBitVec
  have hpos : (0 : ℤ) < w := by exact_mod_cast hw
  rw [if_pos hpos, Int.toNat_natCast]
  dsimp only
  congr 2
  refine List.map_congr_left fun i hi => ?_
  have hlt : i < w := List.mem_range.1 (List.mem_reverse.1 hi)
  rw [Nat.mod_eq_of_lt (hlt.trans_le hle), h i hlt]

lemma loopWidth_pos (width : ℤ) : 0 < loopWidth width := by
  unfold loopWidth
  omega

lemma loopWidth_le (width : ℤ) : loopWidth width ≤ 64 := by
  unfold loopWidth
  omega

lemma cast_loopWidth (width : ℤ) : (loopWidth width : ℤ) = max 1 (min width 64) := by
  unfold loopWidth
  omega

/-- The low bits of a number do not depend on how many bits of it are kept. -/
lemma getLsbD_ofInt_of_le {v : ℕ} {i : ℕ} (value : ℤ) (hi : i < w) (hw : w ≤ v) :
    (BitVec.ofInt w value).getLsbD i = (BitVec.ofInt v value).getLsbD i := by
  have hdvd : (2 : ℤ) ^ w ∣ 2 ^ v := pow_dvd_pow 2 hw
  have hcast : (BitVec.ofInt v value).setWidth w = BitVec.ofInt w value := by
    apply BitVec.eq_of_toNat_eq
    rw [BitVec.toNat_setWidth, BitVec.toNat_ofInt, BitVec.toNat_ofInt]
    zify
    rw [Int.toNat_of_nonneg (Int.emod_nonneg _ (by positivity)),
      Int.toNat_of_nonneg (Int.emod_nonneg _ (by positivity))]
    exact Int.emod_emod_of_dvd value hdvd
  rw [← hcast, BitVec.getLsbD_setWidth]
  simp [hi]

lemma testBit_word (value : ℤ) (i : ℕ) :
    (value % 2 ^ 64).toNat.testBit i = (BitVec.ofInt 64 value).getLsbD i := by
  rw [← BitVec.testBit_toNat, BitVec.toNat_ofInt]
  rfl

/-- A loop variable becomes its value modulo a power of two. -/
lemma boundConstant_none (value width : ℤ) :
    boundConstant value width none = ofBitVec (BitVec.ofInt (loopWidth width) value) := by
  rw [boundConstant, ← cast_loopWidth]
  refine logicValueFromU64_eq_ofBitVec (loopWidth_pos width) (loopWidth_le width) fun i hi => ?_
  rw [testBit_word, getLsbD_ofInt_of_le value hi (loopWidth_le width)]

/-- A select of a loop variable becomes a constant of the selected bits of the 64-bit word. -/
lemma boundConstant_some_eq {x : BitVec w} (value width : ℤ) {msb lsb : ℤ}
    (hw : w = loopWidth (msb - lsb + 1))
    (hx : ∀ i < w, (BitVec.ofInt 64 value).getLsbD (lsb.toNat + i) = x.getLsbD i) :
    boundConstant value width (some (msb, lsb)) = ofBitVec x := by
  have hbits : ∀ i < w, (if lsb ≥ 64 then 0 else
      (value % 2 ^ 64).toNat / 2 ^ lsb.toNat).testBit i = x.getLsbD i := by
    intro i hi
    rw [← hx i hi]
    split_ifs with hlsb
    · rw [Nat.zero_testBit, BitVec.getLsbD_of_ge _ _ (by omega)]
    · rw [Nat.testBit_div_two_pow, testBit_word, Nat.add_comm]
  have hcast : (w : ℤ) = max 1 (min (msb - lsb + 1) 64) := by rw [hw, cast_loopWidth]
  unfold boundConstant
  dsimp only
  rw [← hcast]
  generalize (if lsb ≥ 64 then 0 else (value % 2 ^ 64).toNat / 2 ^ lsb.toNat) = raw at hbits ⊢
  refine logicValueFromU64_eq_ofBitVec (hw ▸ loopWidth_pos _) (hw ▸ loopWidth_le _) fun i hi => ?_
  split_ifs with hmask
  · rw [Int.toNat_natCast, Nat.testBit_mod_two_pow, hbits i hi]
    simp [hi]
  · exact hbits i hi

lemma boundConstant_beyond (value width msb lsb : ℤ) :
    boundConstant value width (some (msb, lsb)) = ofBitVec
      ((BitVec.ofInt 64 value >>> lsb.toNat).setWidth (loopWidth (msb - lsb + 1))) := by
  refine boundConstant_some_eq value width rfl fun i hi => ?_
  rw [BitVec.getLsbD_setWidth, BitVec.getLsbD_ushiftRight]
  simp [hi]

lemma boundConstant_selected {value width msb lsb : ℤ} (hlsb : 0 ≤ lsb) (hle : lsb ≤ msb)
    (hmsb : msb < width) (hwidth : width ≤ 64) :
    boundConstant value width (some (msb, lsb)) =
      ofBitVec ((BitVec.ofInt width.toNat value).extractLsb msb.toNat lsb.toNat) := by
  have hw : msb.toNat - lsb.toNat + 1 = loopWidth (msb - lsb + 1) := by
    unfold loopWidth
    omega
  refine boundConstant_some_eq value width hw fun i hi => ?_
  have hin : lsb.toNat + i < width.toNat := by omega
  rw [BitVec.getLsbD_extractLsb, getLsbD_ofInt_of_le value hin (by omega : width.toNat ≤ 64)]
  simp [hi]

end Constants

/-! ### Evaluation -/

/-- The verdict of a value. -/
def verdict (value : LogicValue) : PredicateState :=
  if value.bits = "" then .unresolved
  else if value.known = false then .waveformUnknown
  else if value.bits.toList.contains '1' then .active else .inactive

section Evaluation

variable (session : Session) (bindings : List (ℤ × ℤ))

/-- The loop variables are bound in the order of the map. -/
def bindRewrites : List Rewrite :=
  bindings.map fun b =>
    .bind (session.design.signalName b.1) b.2 (session.design.signalWidth b.1)

/-- The signals are replaced that the waveform has under another name only. -/
def replaceRewrites (e : ExprNode) : List Rewrite :=
  ((expressionSignals e).filter fun signal => session.predicateWaveformSignal signal ≠ signal).map
    fun signal => .replace signal (session.predicateWaveformSignal signal)

/-- What `evaluate_predicate_once` replaces in an expression. -/
def rewrites (e : ExprNode) : List Rewrite :=
  bindRewrites session bindings ++
    replaceRewrites session (applyAll (bindRewrites session bindings) e)

end Evaluation

section Steps

variable {session : Session} {bindings : List (ℤ × ℤ)} {statement : StatementGroup}
  {activeTime : ℕ} {e e' : ExprNode} {refs : List ℕ} {name : String}

lemma mem_expressionSignals : name ∈ expressionSignals e ↔ name ∈ e.occurrences := by
  suffices h : ∀ l out : List String,
      name ∈ l.foldl (fun out s => if s ∈ out then out else out ++ [s]) out ↔
        name ∈ out ∨ name ∈ l by
    simpa [expressionSignals] using h e.occurrences []
  intro l
  induction l with
  | nil => simp
  | cons s l ih =>
      intro out
      rw [List.foldl_cons, ih]
      split_ifs with hs
      · constructor
        · rintro (h | h)
          · exact Or.inl h
          · exact Or.inr (List.mem_cons_of_mem _ h)
        · rintro (h | h)
          · exact Or.inl h
          · rcases List.mem_cons.1 h with rfl | h
            · exact Or.inl hs
            · exact Or.inr h
      · simp [or_assoc]

/-- Binding gives up, or it replaces the loop variables. -/
lemma applyAll_of_bindAll (h : session.bindAll e bindings = some e') :
    applyAll (bindRewrites session bindings) e = e' := by
  unfold Session.bindAll at h
  induction bindings generalizing e with
  | nil => simpa [bindRewrites] using h
  | cons b bindings ih =>
      rw [List.foldlM_cons, Option.bind_eq_bind, Option.bind_eq_some_iff] at h
      obtain ⟨bound, hbound, hrest⟩ := h
      dsimp only at hbound
      split_ifs at hbound
      obtain rfl := Option.some.inj hbound
      exact ih hrest

/-- Resolving gives up, or every signal has a name in the waveform and is replaced by it. -/
lemma applyAll_of_resolveSignals (h : session.resolveSignals e = some (e', refs)) :
    applyAll (replaceRewrites session e) e = e' ∧
      ∀ name ∈ e.occurrences, session.predicateWaveformSignal name ≠ "" := by
  suffices hfold : ∀ (signals : List String) (acc : ExprNode × List ℕ),
      signals.foldlM (fun acc signal =>
        let resolved := session.predicateWaveformSignal signal
        let ref := session.waveform.findSignal resolved
        if resolved = "" ∨ ref = Backend.kInvalidSignalRef then none
        else some (if resolved = signal then acc.1
          else Session.replaceExpressionSignal signal resolved acc.1, acc.2 ++ [ref])) acc =
          some (e', refs) →
      applyAll ((signals.filter fun signal => session.predicateWaveformSignal signal ≠ signal).map
          fun signal => .replace signal (session.predicateWaveformSignal signal)) acc.1 = e' ∧
        ∀ name ∈ signals, session.predicateWaveformSignal name ≠ "" by
    obtain ⟨happly, hnames⟩ := hfold _ _ h
    exact ⟨happly, fun name hname => hnames name (mem_expressionSignals.2 hname)⟩
  intro signals
  induction signals with
  | nil =>
      intro acc h
      exact ⟨congrArg Prod.fst (Option.some.inj h), by simp⟩
  | cons signal signals ih =>
      intro acc h
      rw [List.foldlM_cons, Option.bind_eq_bind, Option.bind_eq_some_iff] at h
      obtain ⟨next, hnext, hrest⟩ := h
      dsimp only at hnext
      split_ifs at hnext with hnone hsame
      all_goals
        obtain rfl := Option.some.inj hnext
        obtain ⟨happly, hnames⟩ := ih _ hrest
        refine ⟨?_, List.forall_mem_cons.2 ⟨fun hempty => hnone (Or.inl hempty), hnames⟩⟩
      · simpa [hsame] using happly
      · simpa [hsame, Rewrite.apply] using happly

/-- Unless it is unresolved, a predicate has the verdict of the rewritten expression. -/
lemma evaluatePredicateOnce_eq
    (h : session.evaluatePredicateOnce statement bindings activeTime ≠ .unresolved)
    (he : parseExpression statement.predicate = .ok e) :
    (∀ name ∈ (applyAll (bindRewrites session bindings) e).occurrences,
      session.predicateWaveformSignal name ≠ "") ∧
      session.evaluatePredicateOnce statement bindings activeTime =
        verdict (evalExpression session.waveform (session.waveform.timeIdxOf activeTime) .raw
          (applyAll (rewrites session bindings e) e)) := by
  unfold Session.evaluatePredicateOnce at h ⊢
  split_ifs at h ⊢ with hempty
  · exact absurd rfl h
  rw [he] at h ⊢
  dsimp only at h ⊢
  cases hresolved : (session.bindAll e bindings).bind session.resolveSignals with
  | none => simp [hresolved] at h
  | some result =>
      obtain ⟨rewritten, refs⟩ := result
      obtain ⟨bound, hbound, hresolve⟩ := Option.bind_eq_some_iff.1 hresolved
      obtain ⟨happly, hnames⟩ := applyAll_of_resolveSignals hresolve
      obtain rfl := applyAll_of_bindAll hbound
      rw [hresolved] at h
      dsimp only at h ⊢
      by_cases hload : refs ≠ [] ∧ session.waveform.loadCount refs ≠ refs.length
      · rw [if_pos hload] at h
        exact absurd rfl h
      · rw [if_neg hload, rewrites, applyAll_append, happly]
        exact ⟨hnames, rfl⟩

/-- The connected signals that `predicate_waveform_signal` collects. -/
def aliasNames (session : Session) (name : String) : List String :=
  (session.index.connectedSignalsOf (session.design.resolve name)).filterMap fun other =>
    if other = session.design.resolve name ∨
        session.design.signalWidth other ≠
          session.design.signalWidth (session.design.resolve name) ∨
        session.design.signalName other = "" ∨
        session.isSampleable (session.design.signalName other) = false then none
    else some (session.design.signalName other)

lemma isAlias_iff {other : String} :
    IsAlias session name other ↔
      0 ≤ session.design.resolve name ∧ other ∈ aliasNames session name := by
  rw [IsAlias, aliasNames, List.mem_filterMap]
  refine and_congr_right fun _ => ⟨?_, ?_⟩
  · rintro ⟨j, hj, hne, hwidth, rfl, hnonempty, hin⟩
    exact ⟨j, hj, by simp [hne, hwidth, hnonempty, hin]⟩
  · rintro ⟨j, hj, hsome⟩
    split_ifs at hsome with hskip
    obtain rfl := Option.some.inj hsome
    simp only [not_or, not_not, Bool.not_eq_false] at hskip
    exact ⟨j, hj, hskip.1, hskip.2.1, rfl, hskip.2.2.1, hskip.2.2.2⟩

lemma predicateWaveformSignal_of_sampleable (h : session.isSampleable name) :
    session.predicateWaveformSignal name = name := by
  unfold Session.predicateWaveformSignal
  rw [if_pos h]

lemma predicateWaveformSignal_of_not_sampleable (h : ¬ session.isSampleable name)
    (hindex : 0 ≤ session.design.resolve name) :
    session.predicateWaveformSignal name =
      match sortUnique (aliasNames session name) with
      | [candidate] => candidate
      | _ => "" := by
  unfold Session.predicateWaveformSignal
  rw [if_neg h]
  dsimp only
  rw [if_neg (not_lt.2 hindex)]
  rfl

/-- A signal of the waveform is read itself, and another one from its only alias. -/
lemma predicateWaveformSignal_cases (h : session.predicateWaveformSignal name ≠ "") :
    (session.isSampleable name ∧ session.predicateWaveformSignal name = name) ∨
      (¬ session.isSampleable name ∧ IsAlias session name (session.predicateWaveformSignal name) ∧
        ∀ other, IsAlias session name other → other = session.predicateWaveformSignal name) := by
  by_cases hsampleable : session.isSampleable name
  · exact Or.inl ⟨hsampleable, predicateWaveformSignal_of_sampleable hsampleable⟩
  refine Or.inr ⟨hsampleable, ?_⟩
  have hindex : 0 ≤ session.design.resolve name := by
    by_contra hneg
    unfold Session.predicateWaveformSignal at h
    rw [if_neg hsampleable] at h
    dsimp only at h
    rw [if_pos (not_le.1 hneg)] at h
    exact h rfl
  have hmem := (DesignQueryIndex.sortUnique_spec (aliasNames session name)).2
  rw [predicateWaveformSignal_of_not_sampleable hsampleable hindex] at h ⊢
  simp only [isAlias_iff, hindex, true_and, ← hmem]
  cases hsorted : sortUnique (aliasNames session name) with
  | nil => simp [hsorted] at h
  | cons other others =>
      cases others with
      | nil => simp
      | cons second others => simp [hsorted] at h

lemma predicateWaveformSignal_eq_of_isAlias {other : String} (h : ¬ session.isSampleable name)
    (halias : IsAlias session name other) (hunique : ∀ o, IsAlias session name o → o = other) :
    session.predicateWaveformSignal name = other := by
  obtain ⟨hindex, hother⟩ := isAlias_iff.1 halias
  obtain ⟨hstrict, hmem⟩ := DesignQueryIndex.sortUnique_spec (aliasNames session name)
  have hall : ∀ o ∈ sortUnique (aliasNames session name), o = other := by
    intro o ho
    exact hunique o (isAlias_iff.2 ⟨hindex, (hmem o).1 ho⟩)
  rw [predicateWaveformSignal_of_not_sampleable h hindex]
  cases hsorted : sortUnique (aliasNames session name) with
  | nil => simp [← hmem, hsorted] at hother
  | cons first others =>
      rw [hsorted] at hall hstrict
      cases others with
      | nil => exact hall first List.mem_cons_self
      | cons second others =>
          -- two different names would both be the only alias
          have hlt := (List.pairwise_cons.1 hstrict).1 second List.mem_cons_self
          rw [hall first List.mem_cons_self, hall second (by simp)] at hlt
          exact absurd hlt (lt_irrefl other)

lemma IsAlias.isSampleable {other : String} (h : IsAlias session name other) :
    session.isSampleable other := by
  obtain ⟨-, -, -, -, -, -, -, h⟩ := h
  exact h

/-- What is replaced by an alias is not in the waveform, and the alias is. -/
lemma replace_cases {rewrite : Rewrite}
    (hnames : ∀ name ∈ e.occurrences, session.predicateWaveformSignal name ≠ "")
    (h : rewrite ∈ replaceRewrites session e) :
    ∃ name ∈ e.occurrences,
      rewrite = .replace name (session.predicateWaveformSignal name) ∧
        ¬ session.isSampleable name ∧
          IsAlias session name (session.predicateWaveformSignal name) := by
  obtain ⟨name, hname, rfl⟩ := List.mem_map.1 h
  obtain ⟨hoccurs, hne⟩ := List.mem_filter.1 hname
  have hoccurs := mem_expressionSignals.1 hoccurs
  rcases predicateWaveformSignal_cases (hnames name hoccurs) with ⟨-, hsame⟩ | ⟨hnot, halias, -⟩
  · simp [hsame] at hne
  · exact ⟨name, hoccurs, rfl, hnot, halias⟩

lemma find_bindRewrites :
    (bindRewrites session bindings).find? (fun r => r.source = name) =
      (boundVariable session bindings name).map fun b =>
        .bind (session.design.signalName b.1) b.2 (session.design.signalWidth b.1) := by
  rw [bindRewrites, List.find?_map]
  rfl

lemma ne_source_of_boundVariable (h : boundVariable session bindings name = none) :
    ∀ rewrite ∈ bindRewrites session bindings, name ≠ rewrite.source := by
  have hnone : (bindRewrites session bindings).find? (fun r => r.source = name) = none := by
    rw [find_bindRewrites, h]
    rfl
  intro rewrite hrewrite heq
  simpa [heq] using List.find?_eq_none.1 hnone rewrite hrewrite

/-- Binding makes a leaf of a loop variable a constant, and leaves the others. -/
lemma applyAll_bindRewrites_leafNode (range : Option (ℤ × ℤ)) :
    applyAll (bindRewrites session bindings) (leafNode name range) =
      match boundVariable session bindings name with
      | some (index, value) =>
          .const (boundConstant value (session.design.signalWidth index) range)
      | none => leafNode name range := by
  cases hbound : boundVariable session bindings name with
  | none => exact applyAll_leafNode_of_not_mem (ne_source_of_boundVariable hbound)
  | some b =>
      have hfind := @find_bindRewrites session bindings name
      rw [hbound, Option.map_some] at hfind
      obtain ⟨later, -, heq⟩ := @applyAll_leafNode_of_find _ _ range _ hfind
      rw [heq, Rewrite.leaf, applyAll_const]

/-- What is left after binding are the signals of the expression that are no loop variables. -/
lemma mem_occurrences_applyAll_bindRewrites :
    name ∈ (applyAll (bindRewrites session bindings) e).occurrences ↔
      name ∈ e.occurrences ∧ boundVariable session bindings name = none := by
  have hleaf : ∀ n range,
      (applyAll (bindRewrites session bindings) (leafNode n range)).occurrences =
        if boundVariable session bindings n = none then [n] else [] := by
    intro n range
    rw [applyAll_bindRewrites_leafNode]
    cases boundVariable session bindings n with
    | none => simp
    | some b => rfl
  rw [applyAll_eq, occurrences_substLeaves hleaf, List.mem_flatMap]
  constructor
  · rintro ⟨n, hn, hmem⟩
    split_ifs at hmem with hbound
    · obtain rfl := List.mem_singleton.1 hmem
      exact ⟨hn, hbound⟩
    · exact absurd hmem List.not_mem_nil
  · rintro ⟨hname, hbound⟩
    exact ⟨name, hname, by simp [hbound]⟩

/-- Replacing makes a leaf of a signal one of its name in the waveform. -/
lemma applyAll_replaceRewrites_leafNode (range : Option (ℤ × ℤ))
    (hnames : ∀ name ∈ e.occurrences, session.predicateWaveformSignal name ≠ "")
    (hname : name ∈ e.occurrences) :
    applyAll (replaceRewrites session e) (leafNode name range) =
      leafNode (session.predicateWaveformSignal name) range := by
  cases hfind : (replaceRewrites session e).find? (fun r => r.source = name) with
  | none =>
      have hne : ∀ rewrite ∈ replaceRewrites session e, name ≠ rewrite.source := by
        intro rewrite hrewrite heq
        simpa [heq] using List.find?_eq_none.1 hfind rewrite hrewrite
      rw [applyAll_leafNode_of_not_mem hne]
      by_contra hother
      refine hne _ (List.mem_map_of_mem (List.mem_filter.2 ⟨mem_expressionSignals.2 hname, ?_⟩)) rfl
      have hresolved : session.predicateWaveformSignal name ≠ name := by
        intro hsame
        rw [hsame] at hother
        exact hother rfl
      simpa using hresolved
  | some rewrite =>
      obtain ⟨n, -, rfl, -, halias⟩ := replace_cases hnames (List.mem_of_find?_eq_some hfind)
      have hsource := List.find?_some hfind
      obtain rfl : n = name := of_decide_eq_true hsource
      obtain ⟨later, hlater, heq⟩ := @applyAll_leafNode_of_find _ _ range _ hfind
      rw [heq, Rewrite.leaf, applyAll_leafNode_of_not_mem]
      -- the alias is in the waveform, so it is not replaced again
      intro r hr hsource
      obtain ⟨m, -, rfl, hnot, -⟩ := replace_cases hnames (hlater hr)
      have hsame : session.predicateWaveformSignal n = m := hsource
      exact hnot (hsame ▸ halias.isSampleable)

end Steps

section Verdicts

variable (session : Session) (bindings : List (ℤ × ℤ)) (statement : StatementGroup)
  (activeTime : ℕ)

/-- The environment in which the source evaluates a predicate. -/
def extendedEnvironment (timeIdx : ℕ) : Environment where
  value name :=
    match boundVariable session bindings name with
    | some (index, value) => boundConstant value (session.design.signalWidth index) none
    | none =>
        evalSignal session.waveform timeIdx .raw (session.predicateWaveformSignal name) none
  select name msb lsb :=
    match boundVariable session bindings name with
    | some (index, value) =>
        boundConstant value (session.design.signalWidth index) (some (msb, lsb))
    | none =>
        evalSignal session.waveform timeIdx .raw (session.predicateWaveformSignal name)
          (some (msb, lsb))

/-- Unless it is unresolved, the verdict is that of the predicate in the environment of the loop
variables and the waveform. -/
def EvaluatesInEnvironment : Prop :=
  session.evaluatePredicateOnce statement bindings activeTime ≠ .unresolved →
    ∀ e, parseExpression statement.predicate = .ok e →
      ∀ env, IsExtended session bindings (session.waveform.timeIdxOf activeTime) env →
        session.evaluatePredicateOnce statement bindings activeTime = verdict (evalIn env e)

/-- Unless it is unresolved, the verdict is the same in whichever order the replacements are
made. -/
def IgnoresOrder : Prop :=
  session.evaluatePredicateOnce statement bindings activeTime ≠ .unresolved →
    ∀ e, parseExpression statement.predicate = .ok e →
      ∀ order, order.Perm (rewrites session bindings e) →
        session.evaluatePredicateOnce statement bindings activeTime =
          verdict (evalExpression session.waveform (session.waveform.timeIdxOf activeTime) .raw
            (applyAll order e))

/-- No loop variable is the alias of a signal of the predicate. -/
def NoBoundAlias : Prop :=
  ∀ e, parseExpression statement.predicate = .ok e → ∀ signal ∈ e.occurrences,
    ¬ session.isSampleable signal → ∀ b ∈ bindings,
      ¬ IsAlias session signal (session.design.signalName b.1)

end Verdicts

section Main

variable {session : Session} {bindings : List (ℤ × ℤ)} {statement : StatementGroup}
  {activeTime : ℕ} {e : ExprNode} {env : Environment}

lemma isExtended_extendedEnvironment (timeIdx : ℕ) :
    IsExtended session bindings timeIdx (extendedEnvironment session bindings timeIdx) := by
  have hread : ∀ name, boundVariable session bindings name = none → ∀ range,
      readIn (extendedEnvironment session bindings timeIdx) name range =
        evalSignal session.waveform timeIdx .raw (session.predicateWaveformSignal name) range := by
    intro name hbound range
    cases range <;> simp [readIn, extendedEnvironment, hbound]
  refine ⟨?_, ?_, ?_, ?_, ?_⟩
  · intro name index value hbound
    simp [extendedEnvironment, hbound, boundConstant_none]
  · intro name index value hbound msb lsb hlsb hle hmsb hwidth
    simp [extendedEnvironment, hbound, boundConstant_selected hlsb hle hmsb hwidth]
  · intro name index value hbound msb lsb _
    simp [extendedEnvironment, hbound, boundConstant_beyond]
  · intro name hbound hin range
    rw [hread name hbound, predicateWaveformSignal_of_sampleable hin]
  · intro name other hbound hnot halias hunique range
    rw [hread name hbound, predicateWaveformSignal_eq_of_isAlias hnot halias hunique]

/-- Each leaf is replaced by an expression of the value that it has in the environment. -/
lemma evalIn_rewrites_leafNode {timeIdx : ℕ} (henv : IsExtended session bindings timeIdx env)
    (hnames : ∀ name ∈ (applyAll (bindRewrites session bindings) e).occurrences,
      session.predicateWaveformSignal name ≠ "")
    {name : String} (hname : name ∈ e.occurrences) (range : Option (ℤ × ℤ)) :
    evalIn (waveEnvironment session.waveform timeIdx .raw)
        (applyAll (rewrites session bindings e) (leafNode name range)) =
      readIn env name range := by
  rw [rewrites, applyAll_append, applyAll_bindRewrites_leafNode]
  cases hbound : boundVariable session bindings name with
  | some b =>
      obtain ⟨index, value⟩ := b
      dsimp only
      rw [applyAll_const, evalIn]
      cases range with
      | none => rw [boundConstant_none, readIn, henv.bound name index value hbound]
      | some bounds =>
          obtain ⟨msb, lsb⟩ := bounds
          rw [readIn]
          by_cases hin : 0 ≤ lsb ∧ lsb ≤ msb ∧ msb < session.design.signalWidth index ∧
              session.design.signalWidth index ≤ 64
          · rw [henv.selected name index value hbound msb lsb hin.1 hin.2.1 hin.2.2.1 hin.2.2.2,
              boundConstant_selected hin.1 hin.2.1 hin.2.2.1 hin.2.2.2]
          · rw [henv.beyond name index value hbound msb lsb hin, boundConstant_beyond]
  | none =>
      have hleft := mem_occurrences_applyAll_bindRewrites.2 ⟨hname, hbound⟩
      have hread : ∀ other, readIn (waveEnvironment session.waveform timeIdx .raw) other range =
          evalSignal session.waveform timeIdx .raw other range := by
        intro other
        cases range <;> rfl
      dsimp only
      rw [applyAll_replaceRewrites_leafNode range hnames hleft, evalIn_leafNode, hread]
      rcases predicateWaveformSignal_cases (hnames name hleft) with
        ⟨hin, hsame⟩ | ⟨hnot, halias, hunique⟩
      · rw [hsame, henv.sampled name hbound hin]
      · rw [henv.aliased name _ hbound hnot halias hunique]

lemma boundVariable_eq_none_iff {name : String} :
    boundVariable session bindings name = none ↔
      ∀ b ∈ bindings, session.design.signalName b.1 ≠ name := by
  simp [boundVariable, List.find?_eq_none]

/-- Two replacements do not matter to each other when they replace different names and neither
gives a name that the other replaces. -/
lemma Rewrite.apply_comm {r r' : Rewrite} (hne : r.source ≠ r'.source)
    (hr : ∀ range, r'.apply (r.leaf range) = r.leaf range)
    (hr' : ∀ range, r.apply (r'.leaf range) = r'.leaf range) (e : ExprNode) :
    r'.apply (r.apply e) = r.apply (r'.apply e) := by
  rw [apply_eq r, apply_eq r' e, apply_eq, apply_eq, substLeaves_substLeaves,
    substLeaves_substLeaves]
  congr 1
  funext name range
  rw [← apply_eq, ← apply_eq]
  by_cases hname : name = r.source
  · subst hname
    rw [applyLeaf, if_pos rfl, hr, applyLeaf, if_neg hne, apply_leafNode_self]
  · rw [applyLeaf, if_neg hname]
    by_cases hname' : name = r'.source
    · subst hname'
      rw [apply_leafNode_self, applyLeaf, if_pos rfl, hr']
    · rw [apply_leafNode_of_ne hname', applyLeaf, if_neg hname', apply_leafNode_of_ne hname]

/-- Two loop variables of different names. -/
lemma apply_comm_bindRewrites (hnodup : (bindings.map fun b => session.design.signalName b.1).Nodup)
    {r r' : Rewrite} (hr : r ∈ bindRewrites session bindings)
    (hr' : r' ∈ bindRewrites session bindings) (e' : ExprNode) :
    r'.apply (r.apply e') = r.apply (r'.apply e') := by
  obtain ⟨b, hb, rfl⟩ := List.mem_map.1 hr
  obtain ⟨b', hb', rfl⟩ := List.mem_map.1 hr'
  by_cases hname : session.design.signalName b.1 = session.design.signalName b'.1
  · rw [List.inj_on_of_nodup_map hnodup hb hb' hname]
  · refine Rewrite.apply_comm ?_ (fun range => rfl) (fun range => rfl) e'
    exact hname

/-- Two signals that are replaced by their aliases: an alias is in the waveform and stays. -/
lemma apply_comm_replaceRewrites {e : ExprNode}
    (hnames : ∀ name ∈ e.occurrences, session.predicateWaveformSignal name ≠ "")
    {r r' : Rewrite} (hr : r ∈ replaceRewrites session e) (hr' : r' ∈ replaceRewrites session e)
    (e' : ExprNode) : r'.apply (r.apply e') = r.apply (r'.apply e') := by
  obtain ⟨name, -, rfl, hnot, halias⟩ := replace_cases hnames hr
  obtain ⟨name', -, rfl, hnot', halias'⟩ := replace_cases hnames hr'
  by_cases hname : name = name'
  · rw [hname]
  · refine Rewrite.apply_comm ?_ (fun range => ?_) (fun range => ?_) e'
    · exact hname
    · refine Rewrite.apply_leafNode_of_ne fun htarget => hnot' ?_
      have htarget : session.predicateWaveformSignal name = name' := htarget
      exact htarget ▸ halias.isSampleable
    · refine Rewrite.apply_leafNode_of_ne fun htarget => hnot ?_
      have htarget : session.predicateWaveformSignal name' = name := htarget
      exact htarget ▸ halias'.isSampleable

/-- A loop variable and a signal that is replaced by its alias. -/
lemma apply_comm_bind_replace
    (hnames : ∀ name ∈ (applyAll (bindRewrites session bindings) e).occurrences,
      session.predicateWaveformSignal name ≠ "")
    (hbound : ∀ signal ∈ e.occurrences, ¬ session.isSampleable signal → ∀ b ∈ bindings,
      ¬ IsAlias session signal (session.design.signalName b.1))
    {r r' : Rewrite} (hr : r ∈ bindRewrites session bindings)
    (hr' : r' ∈ replaceRewrites session (applyAll (bindRewrites session bindings) e))
    (e' : ExprNode) : r'.apply (r.apply e') = r.apply (r'.apply e') := by
  obtain ⟨b, hb, rfl⟩ := List.mem_map.1 hr
  obtain ⟨name, hname, rfl, hnot, halias⟩ := replace_cases hnames hr'
  obtain ⟨hname, hfree⟩ := mem_occurrences_applyAll_bindRewrites.1 hname
  have hne := boundVariable_eq_none_iff.1 hfree b hb
  refine Rewrite.apply_comm ?_ (fun range => rfl) (fun range => ?_) e'
  · exact hne
  refine Rewrite.apply_leafNode_of_ne fun htarget => ?_
  have htarget : session.predicateWaveformSignal name = session.design.signalName b.1 := htarget
  exact hbound name hname hnot b hb (htarget ▸ halias)

/-- The replacements of a predicate do not matter to each other. -/
lemma apply_comm_of_mem
    (hnames : ∀ name ∈ (applyAll (bindRewrites session bindings) e).occurrences,
      session.predicateWaveformSignal name ≠ "")
    (hnodup : (bindings.map fun b => session.design.signalName b.1).Nodup)
    (hbound : ∀ signal ∈ e.occurrences, ¬ session.isSampleable signal → ∀ b ∈ bindings,
      ¬ IsAlias session signal (session.design.signalName b.1))
    {r r' : Rewrite} (hr : r ∈ rewrites session bindings e) (hr' : r' ∈ rewrites session bindings e)
    (e' : ExprNode) : r'.apply (r.apply e') = r.apply (r'.apply e') := by
  rcases List.mem_append.1 hr with hr | hr <;> rcases List.mem_append.1 hr' with hr' | hr'
  · exact apply_comm_bindRewrites hnodup hr hr' e'
  · exact apply_comm_bind_replace hnames hbound hr hr' e'
  · exact (apply_comm_bind_replace hnames hbound hr' hr e').symm
  · exact apply_comm_replaceRewrites hnames hr hr' e'

variable (session bindings statement activeTime)

/-- A predicate has its verdict in the environment of the loop variables and the waveform; and the
order of the replacements does not matter when the loop variables have different names and none of
them is the alias of a signal of the predicate. -/
theorem evaluatesInEnvironment :
    EvaluatesInEnvironment session bindings statement activeTime ∧
      ((bindings.map fun b => session.design.signalName b.1).Nodup →
        NoBoundAlias session bindings statement →
          IgnoresOrder session bindings statement activeTime) := by
  constructor
  · intro hresolved e he env henv
    obtain ⟨hnames, hverdict⟩ := evaluatePredicateOnce_eq hresolved he
    rw [hverdict, evalExpression_eq_evalIn, applyAll_eq]
    congr 1
    exact evalIn_substLeaves fun name hname range => evalIn_rewrites_leafNode henv hnames hname range
  · intro hnodup hbound hresolved e he order horder
    obtain ⟨hnames, hverdict⟩ := evaluatePredicateOnce_eq hresolved he
    have hsame : applyAll order e = applyAll (rewrites session bindings e) e := by
      refine (horder.symm.foldl_eq' (fun r hr r' hr' e' => ?_) e).symm
      exact apply_comm_of_mem hnames hnodup (hbound e he) hr hr' e'
    rw [hverdict, hsame]

end Main

lemma portTimes_sorted : List.Pairwise (· < ·) [0] := List.pairwise_singleton _ _

lemma portTimes_lt : ∀ t ∈ [0], t < 2 ^ 64 := List.forall_mem_singleton.2 (Nat.two_pow_pos 64)

lemma portTable_changes : ∀ s ∈ [("i", [(0, "0")]), ("b", [(0, "1")])],
    s.2.Pairwise (fun a b : ℕ × String => a.1 ≤ b.1) ∧ ∀ c ∈ s.2, c.1 < [0].length := by decide

/-- A loop variable `i` and a port `u.a` that is connected to it, of which the waveform contains
the signal `i` and, connected to the port `u.b`, the signal `b`. -/
def portSession : Session where
  waveform := Backend.ofTable [0] [("i", [(0, "0")]), ("b", [(0, "1")])]
    portTimes_sorted portTimes_lt portTable_changes
  design := .ofSignals
    [{ name := some "i", width := 1 },
     { name := some "b", width := 1 },
     { name := some "u.a", width := 1, direction := 1
       ports := [{ portSignal := 2, connectedSignal := 0 }] },
     { name := some "u.b", width := 1, direction := 1
       ports := [{ portSignal := 3, connectedSignal := 1 }] }]
  sourceContext _ _ := []
  formatTime time := toString time ++ "ns"

theorem portSession_evaluatesInEnvironment :
    portSession.evaluatePredicateOnce { predicate := "i[0] && u.b" } [(0, -1)] 0 = .active ∧
      verdict (evalIn (extendedEnvironment portSession [(0, -1)] 0)
        (.binary .logicAnd (.slice "i" 0 0) (.signal "u.b"))) = .active ∧
      IgnoresOrder portSession [(0, -1)] { predicate := "i[0] && u.b" } 0 := by
  have hparse : parseExpression "i[0] && u.b" =
      .ok (.binary .logicAnd (.slice "i" 0 0) (.signal "u.b")) := by decide +kernel
  have hactive : portSession.evaluatePredicateOnce { predicate := "i[0] && u.b" } [(0, -1)] 0 =
      .active := by decide +kernel
  obtain ⟨henv, horder⟩ :=
    evaluatesInEnvironment portSession [(0, -1)] { predicate := "i[0] && u.b" } 0
  refine ⟨hactive, ?_, horder (by decide +kernel) ?_⟩
  · have hverdict := henv (by rw [hactive]; decide) _ hparse _ (isExtended_extendedEnvironment _)
    have hidx : portSession.waveform.timeIdxOf 0 = 0 := by decide +kernel
    rw [hactive, hidx] at hverdict
    exact hverdict.symm
  · intro e he signal hsignal hnot b hb halias
    obtain rfl := Except.ok.inj (hparse.symm.trans he)
    obtain rfl := List.mem_singleton.1 hb
    have hmem := (isAlias_iff.1 halias).2
    have hall : ∀ signal ∈ ["i", "u.b"], portSession.isSampleable signal ∨
        portSession.design.signalName 0 ∉ aliasNames portSession signal := by decide +kernel
    exact (hall signal hsignal).elim hnot fun hfree => hfree hmem

/-- The port is read as `i`, which is `0` in the waveform; but if it were replaced first, it would
become the loop variable. -/
theorem portSession_not_ignoresOrder :
    ¬ (EvaluatesInEnvironment portSession [(0, 1)] { predicate := "u.a" } 0 ∧
      IgnoresOrder portSession [(0, 1)] { predicate := "u.a" } 0) := by
  rintro ⟨-, horder⟩
  have hinactive : portSession.evaluatePredicateOnce { predicate := "u.a" } [(0, 1)] 0 =
      .inactive := by decide +kernel
  have hparse : parseExpression "u.a" = .ok (.signal "u.a") := by decide +kernel
  have hperm : [Rewrite.replace "u.a" "i", .bind "i" 1 1].Perm
      (rewrites portSession [(0, 1)] (.signal "u.a")) := by
    have heq : rewrites portSession [(0, 1)] (.signal "u.a") =
        [.bind "i" 1 1, .replace "u.a" "i"] := by decide +kernel
    rw [heq]
    exact List.Perm.swap _ _ _
  have hsame := horder (by rw [hinactive]; decide) _ hparse _ hperm
  rw [hinactive] at hsame
  exact absurd hsame (by decide +kernel)

end XdebugFst.Trace
