import XdebugFst.Trace.Drivers
import XdebugFst.Expr.Eval

/-!
# Statements and their activation

The driver records of a signal are grouped into the statements they come
from. A statement may have an activation predicate, which is evaluated
in the waveform, and clock events, the last of which may fix the time of
the evaluation. A statement is active, inactive, or unresolved; a
predicate that evaluates to an unknown value is unresolved in its own
way.

Two rules then set statements aside: a force without a predicate that
the waveform does not show, and everything else when exactly one
non-blocking assignment is active.
-/

namespace XdebugFst.Trace

open Lib Waveform XdebugFst.Expr

/-- `StatementGroup`. -/
structure StatementGroup where
  kind : String := ""
  file : String := ""
  predicate : String := ""
  line : ℤ := 0
  /-- The time of the last clock event, when there is one. -/
  eventTime : Option ℕ := none
  predicateWaveformUnknown : Bool := false
  targetLoopRanges : OrderedMap ℤ (ℤ × ℤ) := .empty
  records : List DriverRecord := []
  rhs : List DriverRecord := []

instance : Inhabited StatementGroup := ⟨{}⟩

/-! ### Grouping -/

/-- File, line, kind, predicate and instance of a record. -/
abbrev StatementKey := String ×ₗ ℤ ×ₗ String ×ₗ String ×ₗ String

def statementKey (driver : DriverRecord) : StatementKey :=
  toLex (driver.file, toLex (driver.line, toLex (driver.kind,
    toLex (driver.activationPredicate, driver.statementIdentity))))

/-- Add a source to a right-hand side unless it is there already, with the same selector. -/
def addRhs (rhs : List DriverRecord) (driver : DriverRecord) : List DriverRecord :=
  if rhs.any fun item => item.srcSignal = driver.srcSignal ∧
      item.rhsNumericSelector = driver.rhsNumericSelector then rhs
  else rhs ++ [driver]

/-- Add a record to its statement. -/
def StatementGroup.add (statement : StatementGroup) (driver : DriverRecord) : StatementGroup :=
  { statement with
    kind := driver.kind
    file := driver.file
    line := driver.line
    predicate :=
      if statement.predicate = "" then driver.activationPredicate else statement.predicate
    records := statement.records ++ [driver]
    targetLoopRanges :=
      if driver.dependencyRole = "target_loop_index" ∧ 0 ≤ driver.srcSignal then
        match driver.targetLoopRange with
        | some range => statement.targetLoopRanges.insert driver.srcSignal range
        | none => statement.targetLoopRanges
      else statement.targetLoopRanges
    rhs :=
      if driver.dependencyRole = "rhs" ∧ 0 ≤ driver.srcSignal then addRhs statement.rhs driver
      else statement.rhs }

/-- The target loop indices are no sources, and the sources are sorted. -/
def StatementGroup.finish (statement : StatementGroup) : StatementGroup :=
  let targetLoopIndices := (statement.records.filter fun record =>
    record.dependencyRole = "target_loop_index" ∧ 0 ≤ record.srcSignal).map (·.srcSignal)
  { statement with
    rhs := (statement.rhs.filter fun driver => driver.srcSignal ∉ targetLoopIndices).insertionSort
      fun a b => a.srcSignal ≤ b.srcSignal }

/-- `statement_groups`: the records of one statement stand together, and the statements are
in the order of their places in the source. -/
def statementGroups (drivers : List DriverRecord) : List StatementGroup :=
  let grouped := drivers.foldl (fun (grouped : OrderedMap StatementKey StatementGroup) driver =>
    if driver.file = "" ∨ driver.line ≤ 0 then grouped
    else grouped.alter (statementKey driver) fun known => some ((known.getD {}).add driver)) .empty
  grouped.values.map StatementGroup.finish

/-! ### Clock events -/

/-- `event_edge_matches`. -/
def eventEdgeMatches (role before after : String) : Bool :=
  match before.toList, after.toList with
  | [b], [a] =>
      let left := b.toLower
      let right := a.toLower
      let posedge := (left = '0' ∧ (right = '1' ∨ isUnknownBit right)) ∨
        (isUnknownBit left ∧ right = '1')
      let negedge := (left = '1' ∧ (right = '0' ∨ isUnknownBit right)) ∨
        (isUnknownBit left ∧ right = '0')
      if role = "event_posedge" then posedge
      else if role = "event_negedge" then negedge
      else if role = "event_bothedge" then posedge ∨ negedge
      else role = "event_changed" ∧ left ≠ right
  | _, _ => false

/-- `PredicateState`. -/
inductive PredicateState
  | active | inactive | waveformUnknown | unresolved
  deriving DecidableEq, Repr

/-- `EvaluatedStatements`. -/
structure EvaluatedStatements where
  active : List StatementGroup := []
  unresolved : List StatementGroup := []

namespace Session

variable (session : Session)

/-- The signal has an edge of the role at a time index. -/
def edgeAt (ref : ℕ) (role : String) (idx : ℕ) : Bool :=
  match session.waveform.sampledValueAt ref idx .before,
    session.waveform.sampledValueAt ref idx .raw with
  | some before, some after => eventEdgeMatches role before.value.text after.value.text
  | _, _ => false

/-- The record is a clock event of a signal. -/
def isEventRecord (record : DriverRecord) : Bool :=
  0 ≤ record.srcSignal ∧ hasStart record.dependencyRole "event_"

/-- A reference that can be read, once it is loaded. -/
def canLoad (ref : ℕ) : Bool :=
  ref ≠ Backend.kInvalidSignalRef ∧ session.waveform.loadCount [ref] = 1

/-- The last event of one record up to the horizon. -/
def lastRecordEvent (horizon : ℕ) (record : DriverRecord) : Option ℕ :=
  let ref := session.waveform.findSignal (session.design.signalName record.srcSignal)
  if isEventRecord record ∧ session.canLoad ref then
    ((session.waveform.timeIndicesOf ref).reverse.find? fun idx =>
      idx ≤ session.waveform.timeIdxOf horizon ∧ session.waveform.timeAt idx ≤ horizon ∧
        session.edgeAt ref record.dependencyRole idx).map session.waveform.timeAt
  else none

/-- `latest_statement_event_time`: the last event of any record of the statement. -/
def latestStatementEventTime (statement : StatementGroup) (horizon : ℕ) : Option ℕ :=
  (statement.records.filterMap (session.lastRecordEvent horizon)).max?

/-! ### Predicates -/

/-- `replace_expression_signal`. -/
def replaceExpressionSignal (source target : String) : ExprNode → ExprNode
  | .signal name => .signal (if name = source then target else name)
  | .slice name msb lsb => .slice (if name = source then target else name) msb lsb
  | .const value => .const value
  | .unary op right => .unary op (replaceExpressionSignal source target right)
  | .binary op left right =>
      .binary op (replaceExpressionSignal source target left)
        (replaceExpressionSignal source target right)

/-- `bind_expression_signal`: a loop variable becomes a constant. -/
def bindExpressionSignal (signal : String) (value signalWidth : ℤ) : ExprNode → ExprNode
  | .signal name =>
      if name = signal then
        .const (logicValueFromU64 (value % 2 ^ 64).toNat (max 1 (min signalWidth 64)))
      else .signal name
  | .slice name msb lsb =>
      if name = signal then
        let width := max 1 (min (msb - lsb + 1) 64)
        let raw := if lsb ≥ 64 then 0 else (value % 2 ^ 64).toNat / 2 ^ lsb.toNat
        .const (logicValueFromU64 (if width < 64 then raw % 2 ^ width.toNat else raw) width)
      else .slice name msb lsb
  | .const value => .const value
  | .unary op right => .unary op (bindExpressionSignal signal value signalWidth right)
  | .binary op left right =>
      .binary op (bindExpressionSignal signal value signalWidth left)
        (bindExpressionSignal signal value signalWidth right)

/-- Bind the loop variables of a statement; one without a name makes the predicate
unresolved. -/
def bindAll (expression : ExprNode) (bindings : List (ℤ × ℤ)) : Option ExprNode :=
  bindings.foldlM (fun expression binding =>
    let boundSignal := session.design.signalName binding.1
    if boundSignal = "" then none
    else some (bindExpressionSignal boundSignal binding.2
      (session.design.signalWidth binding.1) expression)) expression

/-- Replace the signals of an expression by the ones the waveform contains; a signal without
one makes the predicate unresolved. Also the references of the signals. -/
def resolveSignals (expression : ExprNode) : Option (ExprNode × List ℕ) :=
  (expressionSignals expression).foldlM (fun acc signal =>
    let resolved := session.predicateWaveformSignal signal
    let ref := session.waveform.findSignal resolved
    if resolved = "" ∨ ref = Backend.kInvalidSignalRef then none
    else some (if resolved = signal then acc.1 else replaceExpressionSignal signal resolved acc.1,
      acc.2 ++ [ref])) (expression, [])

/-- `evaluate_predicate_once`. -/
def evaluatePredicateOnce (statement : StatementGroup) (bindings : List (ℤ × ℤ))
    (activeTime : ℕ) : PredicateState :=
  if statement.predicate = "" then .unresolved
  else
    match parseExpression statement.predicate with
    | .error _ => .unresolved
    | .ok expression =>
        match (session.bindAll expression bindings).bind session.resolveSignals with
        | none => .unresolved
        | some (expression, refs) =>
            if refs ≠ [] ∧ session.waveform.loadCount refs ≠ refs.length then .unresolved
            else
              let value := evalExpression session.waveform
                (session.waveform.timeIdxOf activeTime) .raw expression
              if value.bits = "" then .unresolved
              else if value.known = false then .waveformUnknown
              else if value.bits.toList.contains '1' then .active else .inactive

def kMaxLoopSelectorBindings : ℕ := 65536

/-- All ways to bind the loop variables of a statement, unless there are too many. -/
def loopBindings : List (ℤ × (ℤ × ℤ)) → List (List (ℤ × ℤ)) → Option (List (List (ℤ × ℤ)))
  | [], bindings => some bindings
  | (index, (first, last)) :: rest, bindings =>
      if last < first then none
      else
        let span := (last - first).toNat + 1
        if span > kMaxLoopSelectorBindings ∨ bindings.length > kMaxLoopSelectorBindings / span then
          none
        else
          loopBindings rest (bindings.flatMap fun existing =>
            (List.range span).map fun k : ℕ => existing ++ [(index, first + k)])

/-- The verdict over all bindings: active as soon as one is. -/
def combineStates (states : List PredicateState) : PredicateState :=
  if .active ∈ states then .active
  else if .unresolved ∈ states then .unresolved
  else if .waveformUnknown ∈ states then .waveformUnknown
  else .inactive

/-- `evaluate_predicate`. -/
def evaluatePredicate (statement : StatementGroup) (activeTime : ℕ) : PredicateState :=
  if statement.targetLoopRanges.entries = [] then
    session.evaluatePredicateOnce statement [] activeTime
  else
    match loopBindings statement.targetLoopRanges.entries [[]] with
    | none => .unresolved
    | some bindings =>
        combineStates (bindings.map fun binding =>
          session.evaluatePredicateOnce statement binding activeTime)

/-! ### Active statements -/

/-- The clock event of a statement, when events are asked for. -/
def withEventTime (eventHorizon : ℕ) (statement : StatementGroup) : StatementGroup :=
  if eventHorizon > 0 then
    { statement with eventTime := session.latestStatementEventTime statement eventHorizon }
  else statement

/-- One statement of `active_statement_groups`. -/
def addEvaluated (activeTime eventHorizon : ℕ) (result : EvaluatedStatements)
    (statement : StatementGroup) : EvaluatedStatements :=
  let statement := session.withEventTime eventHorizon statement
  match session.evaluatePredicate statement (statement.eventTime.getD activeTime) with
  | .active => { result with active := result.active ++ [statement] }
  | .waveformUnknown =>
      { result with unresolved := result.unresolved ++
          [{ statement with predicateWaveformUnknown := true }] }
  | .unresolved => { result with unresolved := result.unresolved ++ [statement] }
  | .inactive => result

/-- `active_statement_groups`. -/
def activeStatementGroups (drivers : List DriverRecord) (activeTime eventHorizon : ℕ) :
    EvaluatedStatements :=
  (statementGroups drivers).foldl (session.addEvaluated activeTime eventHorizon) {}

/-- A force without sources that is always on. -/
def isStatementOnlyForce (statement : StatementGroup) : Bool :=
  statement.kind = "force" ∧ statement.rhs = [] ∧ statement.predicate = "1"

/-- `suppress_unobserved_statement_only_force`: such a force is set aside as long as an
ordinary assignment explains the value. -/
def suppressUnobservedStatementOnlyForce (statements : EvaluatedStatements) (target : Sample) :
    EvaluatedStatements :=
  let explains (statement : StatementGroup) : Bool :=
    match statement.rhs with
    | [driver] =>
        let source := session.design.signalName driver.srcSignal
        let sourceSample := sampleAt session.waveform source target.activeTime
        statement.kind ≠ "force" ∧ source ≠ "" ∧ sourceSample.ok ∧ sourceSample.bits = target.bits
    | _ => false
  if statements.active.any isStatementOnlyForce ∧ statements.active.any explains then
    { statements with active := statements.active.filter fun s => !isStatementOnlyForce s }
  else statements

end Session

/-- `apply_unique_nba_priority`: a single active non-blocking assignment sets everything else
aside, unless there is a force or an unresolved one. -/
def applyUniqueNbaPriority (statements : EvaluatedStatements) : EvaluatedStatements :=
  let isKind (kind : String) (statement : StatementGroup) : Bool := statement.kind = kind
  if statements.active.any (isKind "force") ∨ statements.unresolved.any (isKind "force") ∨
      statements.active.countP (isKind "nba") ≠ 1 ∨ statements.unresolved.any (isKind "nba") then
    statements
  else { active := statements.active.filter (isKind "nba"), unresolved := [] }

/-- `representative_driver`: the first source, else the first control, else the first
record. -/
def representativeDriver (statement : StatementGroup) : Option DriverRecord :=
  match statement.rhs with
  | driver :: _ => some driver
  | [] =>
      match statement.records.find? fun driver => driver.dependencyRole = "control" with
      | some driver => some driver
      | none => statement.records.head?

/-! ### What an evaluated statement is -/

section Evaluated

variable {session : Session} {drivers : List DriverRecord} {activeTime eventHorizon : ℕ}

/-- The statement as `active_statement_groups` evaluates it, with its verdict. -/
def IsEvaluated (session : Session) (activeTime eventHorizon : ℕ) (group statement : StatementGroup)
    (state : PredicateState) : Prop :=
  statement = session.withEventTime eventHorizon group ∧
    session.evaluatePredicate statement (statement.eventTime.getD activeTime) = state

/-- Without events a statement is evaluated as it is. -/
lemma isEvaluated_zero {group statement : StatementGroup} {state : PredicateState} :
    IsEvaluated session activeTime 0 group statement state ↔ statement = group ∧
      session.evaluatePredicate group (group.eventTime.getD activeTime) = state := by
  unfold IsEvaluated Session.withEventTime
  rw [if_neg (lt_irrefl 0)]
  exact and_congr_right fun h => by rw [h]

/-- One group evaluated adds at most that group's statement, to the list of its verdict. -/
lemma mem_addEvaluated (g : StatementGroup) (acc : EvaluatedStatements) (s : StatementGroup) :
    (s ∈ (session.addEvaluated activeTime eventHorizon acc g).active →
      s ∈ acc.active ∨ IsEvaluated session activeTime eventHorizon g s .active) ∧
    (s ∈ (session.addEvaluated activeTime eventHorizon acc g).unresolved →
      s ∈ acc.unresolved ∨ ∃ s',
        (IsEvaluated session activeTime eventHorizon g s' .waveformUnknown ∧
          s = { s' with predicateWaveformUnknown := true }) ∨
        (IsEvaluated session activeTime eventHorizon g s' .unresolved ∧ s = s')) := by
  unfold Session.addEvaluated
  dsimp only
  cases hp : session.evaluatePredicate (session.withEventTime eventHorizon g)
      ((session.withEventTime eventHorizon g).eventTime.getD activeTime) with
  | active =>
      refine ⟨fun h => ?_, Or.inl⟩
      rcases List.mem_append.1 h with h | h
      · exact Or.inl h
      · rw [List.mem_singleton.1 h]
        exact Or.inr ⟨rfl, hp⟩
  | inactive => exact ⟨Or.inl, Or.inl⟩
  | waveformUnknown =>
      refine ⟨Or.inl, fun h => ?_⟩
      rcases List.mem_append.1 h with h | h
      · exact Or.inl h
      · exact Or.inr ⟨_, Or.inl ⟨⟨rfl, hp⟩, List.mem_singleton.1 h⟩⟩
  | unresolved =>
      refine ⟨Or.inl, fun h => ?_⟩
      rcases List.mem_append.1 h with h | h
      · exact Or.inl h
      · exact Or.inr ⟨_, Or.inr ⟨⟨rfl, hp⟩, List.mem_singleton.1 h⟩⟩

lemma foldl_addEvaluated (groups : List StatementGroup) (acc : EvaluatedStatements)
    (s : StatementGroup) :
    (s ∈ (groups.foldl (session.addEvaluated activeTime eventHorizon) acc).active →
      s ∈ acc.active ∨ ∃ g ∈ groups, IsEvaluated session activeTime eventHorizon g s .active) ∧
    (s ∈ (groups.foldl (session.addEvaluated activeTime eventHorizon) acc).unresolved →
      s ∈ acc.unresolved ∨ ∃ g ∈ groups, ∃ s',
        (IsEvaluated session activeTime eventHorizon g s' .waveformUnknown ∧
          s = { s' with predicateWaveformUnknown := true }) ∨
        (IsEvaluated session activeTime eventHorizon g s' .unresolved ∧ s = s')) := by
  induction groups generalizing acc with
  | nil => exact ⟨Or.inl, Or.inl⟩
  | cons g groups ih =>
      obtain ⟨iha, ihu⟩ := ih (session.addEvaluated activeTime eventHorizon acc g)
      rw [List.foldl_cons]
      refine ⟨fun h => ?_, fun h => ?_⟩
      · rcases iha h with h | ⟨g', hg', h⟩
        · rcases (mem_addEvaluated g acc s).1 h with h | h
          · exact Or.inl h
          · exact Or.inr ⟨g, List.mem_cons_self, h⟩
        · exact Or.inr ⟨g', List.mem_cons_of_mem _ hg', h⟩
      · rcases ihu h with h | ⟨g', hg', h⟩
        · rcases (mem_addEvaluated g acc s).2 h with h | h
          · exact Or.inl h
          · exact Or.inr ⟨g, List.mem_cons_self, h⟩
        · exact Or.inr ⟨g', List.mem_cons_of_mem _ hg', h⟩

/-- An active statement is a statement of the drivers whose predicate is active. -/
lemma mem_active {s : StatementGroup}
    (h : s ∈ (session.activeStatementGroups drivers activeTime eventHorizon).active) :
    ∃ g ∈ statementGroups drivers, IsEvaluated session activeTime eventHorizon g s .active := by
  rcases (foldl_addEvaluated _ _ s).1 h with h | h
  · exact absurd h (List.not_mem_nil)
  · exact h

/-- An unresolved statement is a statement of the drivers whose predicate is unknown in the
waveform, which it is marked with, or unresolved. -/
lemma mem_unresolved {s : StatementGroup}
    (h : s ∈ (session.activeStatementGroups drivers activeTime eventHorizon).unresolved) :
    ∃ g ∈ statementGroups drivers, ∃ s',
      (IsEvaluated session activeTime eventHorizon g s' .waveformUnknown ∧
        s = { s' with predicateWaveformUnknown := true }) ∨
      (IsEvaluated session activeTime eventHorizon g s' .unresolved ∧ s = s') := by
  rcases (foldl_addEvaluated _ _ s).2 h with h | h
  · exact absurd h (List.not_mem_nil)
  · exact h

/-- The rules only set statements aside. -/
lemma mem_of_mem_applyUniqueNbaPriority {statements : EvaluatedStatements} {s : StatementGroup} :
    (s ∈ (applyUniqueNbaPriority statements).active → s ∈ statements.active) ∧
      (s ∈ (applyUniqueNbaPriority statements).unresolved → s ∈ statements.unresolved) := by
  unfold applyUniqueNbaPriority
  dsimp only
  split_ifs
  · exact ⟨id, id⟩
  · exact ⟨fun h => (List.mem_filter.1 h).1, fun h => absurd h List.not_mem_nil⟩

lemma mem_of_mem_suppressForce {statements : EvaluatedStatements} {target : Sample}
    {s : StatementGroup} :
    (s ∈ (session.suppressUnobservedStatementOnlyForce statements target).active →
      s ∈ statements.active) ∧
    (s ∈ (session.suppressUnobservedStatementOnlyForce statements target).unresolved →
      s ∈ statements.unresolved) := by
  unfold Session.suppressUnobservedStatementOnlyForce
  dsimp only
  split_ifs
  · exact ⟨fun h => (List.mem_filter.1 h).1, id⟩
  · exact ⟨id, id⟩

/-- What holds of the empty statement and is kept by adding a record holds of every
statement. -/
lemma forall_mem_statementGroups {P : StatementGroup → Prop} (hempty : P {})
    (hadd : ∀ g d, P g → P (StatementGroup.add g d)) (hfinish : ∀ g, P g → P g.finish)
    {g : StatementGroup} (h : g ∈ statementGroups drivers) : P g := by
  unfold statementGroups at h
  obtain ⟨g', hg', rfl⟩ := List.mem_map.1 h
  suffices hall : ∀ (l : List DriverRecord) (m : OrderedMap StatementKey StatementGroup),
      (∀ k v, m.find? k = some v → P v) →
      ∀ k v, (l.foldl (fun (grouped : OrderedMap StatementKey StatementGroup) driver =>
        if driver.file = "" ∨ driver.line ≤ 0 then grouped
        else grouped.alter (statementKey driver) fun known =>
          some ((known.getD {}).add driver)) m).find? k = some v → P v by
    obtain ⟨e, he, rfl⟩ := List.mem_map.1 hg'
    exact hfinish _ (hall drivers .empty
      (fun k v hv => by simp [OrderedMap.find?, OrderedMap.empty] at hv)
      e.1 e.2 ((OrderedMap.mem_entries_iff _ _ _).1 he))
  intro l
  induction l with
  | nil => exact fun m hm => hm
  | cons d l ih =>
      intro m hm
      rw [List.foldl_cons]
      refine ih _ fun k v hv => ?_
      split_ifs at hv with hskip
      · exact hm k v hv
      · by_cases hk : k = statementKey d
        · rw [hk, OrderedMap.find?_alter_self] at hv
          obtain rfl := Option.some.inj hv
          cases hfind : m.find? (statementKey d) with
          | none => exact hadd _ _ hempty
          | some old => exact hadd _ _ (hm _ old hfind)
        · rw [OrderedMap.find?_alter_of_ne _ hk] at hv
          exact hm k v hv

/-- Grouping gives no statement an event. -/
lemma eventTime_of_mem {g : StatementGroup} (h : g ∈ statementGroups drivers) :
    g.eventTime = none :=
  forall_mem_statementGroups (P := fun g => g.eventTime = none) rfl (fun _ _ h => h)
    (fun _ h => h) h

/-- Grouping marks no statement as unknown in the waveform. -/
lemma predicateWaveformUnknown_of_mem {g : StatementGroup} (h : g ∈ statementGroups drivers) :
    g.predicateWaveformUnknown = false :=
  forall_mem_statementGroups (P := fun g => g.predicateWaveformUnknown = false) rfl
    (fun _ _ h => h) (fun _ h => h) h

end Evaluated

end XdebugFst.Trace
