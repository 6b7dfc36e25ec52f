import XdebugFst.Trace.EventTime
import XdebugFst.Lib.Loop

/-!
# The chain of active drivers

`trace.active_driver_chain` starts at a signal and a time and goes back
from each signal to the one that drove its value, as long as there is
just one. A round of the loop samples the current signal at the current
time, gathers the driver facts under the projection that the request
asks for, evaluates the statements, chooses the source, dates the hop,
and then ends the chain or goes on with the source at the time of the
hop.

The round is cut into the steps of the source, in their order: `facts`,
`evaluate`, `candidateGroups`, the `choose` functions, `dateSample` and
`finish`.
-/

namespace XdebugFst.Trace.ActiveChain

open Lib Waveform

/-- The limits that a request states. -/
structure Limits where
  depth : Option ℕ := none
  nodes : Option ℕ := none
  traceSignals : Option ℕ := none

/-! The limits are read as words of 32 bits, so that a positive limit of a request can be 0. -/

namespace Limits

variable (limits : Limits)

def maxDepth : ℕ := (limits.depth.map (· % 2 ^ 32)).getD 8

def maxNodes : ℕ := (limits.nodes.map (· % 2 ^ 32)).getD 50

def maxTraceSignals : ℕ := (limits.traceSignals.map (· % 2 ^ 32)).getD 64

end Limits

/-! ### Answers -/

/-- `relation` of a hop. -/
inductive Relation
  | root | driver
  deriving DecidableEq, Repr

/-- A hop of the chain. Its value is kept as the bits and the width it is rendered from. -/
structure Hop where
  index : ℕ
  signal : String
  time : ℕ
  activeTime : ℕ
  bits : String
  width : ℕ
  relation : Relation
  file : String
  line : ℤ
  sourceContext : List SourceRow
  signalPath : List String
  deriving DecidableEq, Repr

/-- `ambiguity_kind`. -/
inductive AmbiguityKind
  | predicateUnresolved | multipleActiveCandidates | multipleRhsSources
  deriving DecidableEq, Repr

/-- `termination`. -/
inductive Termination
  | unresolved | loopDetected | primaryInput | limit | ambiguous | controlOnly | force | assignment
  deriving DecidableEq, Repr

/-- `termination_detail`. -/
inductive Detail
  | unresolved | loopDetected | primaryInput | maxNodes | maxDepth | noCausalToggle
  | ambiguity (kind : AmbiguityKind)
  | force | nonDirectRhsExpression | constantOrNoRhsSignal | controlOnly
  deriving DecidableEq, Repr

/-- A value of a source in the evidence of an ambiguity. -/
structure EvidenceValue where
  bits : String
  width : ℕ
  known : Bool
  valueTime : ℕ
  deriving DecidableEq, Repr

/-- The values of a source around the time of the evidence. A missing value is reported as a
missing signal when the waveform has no such signal. -/
structure RhsSample where
  signal : String
  sourceExists : Bool
  before : Option EvidenceValue
  after : Option EvidenceValue
  changed : Option Bool
  deriving DecidableEq, Repr

structure EvidenceStatement where
  kind : String
  file : String
  line : ℤ
  rhsSignalCount : ℕ
  rhsSamples : List RhsSample
  deriving DecidableEq, Repr

structure AmbiguityEvidence where
  kind : AmbiguityKind
  signal : String
  activeTime : ℕ
  hopIndex : ℕ
  statements : List EvidenceStatement
  deriving DecidableEq, Repr

/-- How a chain ended. -/
structure Ending where
  hops : List Hop
  termination : Termination
  detail : Detail
  limited : Bool := false
  ambiguity : Option AmbiguityEvidence := none
  /-- The signal with which the chain would go on, and its sample. -/
  frontier : Option (String × Sample) := none
  deriving DecidableEq, Repr

/-- What the loop leaves. -/
inductive Outcome
  | error (code message : String)
  | ended (ending : Ending)
  deriving DecidableEq, Repr

/-! ### The state of the loop -/

/-- The projection that a request asks for. -/
structure Projection where
  root : String
  compatibility : Bool
  duplicateTop : Bool

/-- The name of a signal in the answer. -/
def Projection.shown (projection : Projection) (signal : String) : String :=
  publicSignalName signal projection.root projection.compatibility

/-- The variables of the loop. -/
structure ChainState where
  current : String
  currentTime : ℕ
  previous : String := ""
  visited : List String := []
  hops : List Hop := []
  context : Option SelectedDesignSignal := none
  depth : ℕ := 0

/-- What a round knows of the current signal. -/
structure Facts where
  index : ℤ
  drivers : List DriverRecord
  driverIndex : ℤ
  boundary : NativeInputBoundary
  flattenedOutput : Bool
  nativeFlattenedOutput : Bool
  /-- The parent of a projected root input. -/
  rootInputParent : Option String
  context : Option SelectedDesignSignal
  /-- The selection that the loop indices were bound to. -/
  bound : Option SelectedDesignSignal
  nativeLoopBoundary : Bool

/-- The source that a round has chosen. -/
structure Choice where
  groups : List StatementGroup
  selected : Option DriverRecord := none
  upstream : String := ""
  ambiguity : Option AmbiguityKind := none
  controlOnly : Bool := false

variable (session : Session) (limits : Limits) (projection : Projection)

/-- The waveform has a value of the signal at the time. -/
def canSample (signal : String) (time : ℕ) : Bool := (sampleAt session.waveform signal time).ok

/-! ### Hops -/

/-- `trace_hop`. -/
def traceHop (index : ℕ) (signal : String) (sample : Sample) (relation : Relation)
    (driver : Option DriverRecord) (signalIndex : ℤ) : Hop :=
  let designFile := if signalIndex ≥ 0 then (session.design.signalFile signalIndex).getD "<unknown>"
    else "<unknown>"
  let designLine := if signalIndex ≥ 0 then session.design.signalLine signalIndex else 1
  let file := match driver with
    | some driver => if driver.file ≠ "" then driver.file else designFile
    | none => designFile
  let line := match driver with
    | some driver => if driver.line > 0 then driver.line else designLine
    | none => designLine
  { index, signal
    time := sample.queryTime
    activeTime := sample.activeTime
    bits := sample.bits
    width := sample.width
    relation
    file := if file = "" then "<unknown>" else file
    line := max 1 line
    sourceContext := session.sourceContext file line
    signalPath := [signal] }

/-- The relation of a hop at a depth. -/
def relationAt (depth : ℕ) : Relation := if depth = 0 then .root else .driver

/-! ### Evidence -/

/-- `known_bits`. -/
def knownBits (bits : String) : Bool := !bits.toList.any fun c => c ∈ "xXzZhHlLuUwW-".toList

/-- `ambiguity_value`. -/
def ambiguityValue (sample : Sample) (valueTime : ℕ) : Option EvidenceValue :=
  if sample.ok then
    some { bits := sample.bits, width := sample.width, known := knownBits sample.bits, valueTime }
  else none

/-- The values of one source. -/
def rhsSample (activeTime : ℕ) (driver : DriverRecord) : RhsSample :=
  let signal := projection.shown (session.driverSourceName driver)
  let before := session.sampleBefore signal activeTime
  let after := sampleAt session.waveform signal activeTime
  { signal
    sourceExists := session.isSampleable signal
    before := ambiguityValue before before.activeTime
    after := ambiguityValue after activeTime
    changed := if before.ok ∧ after.ok then some (before.bits ≠ after.bits) else none }

/-- The statements of the evidence, with the number of samples that may still be taken. -/
def evidenceStatements (activeTime : ℕ) : ℕ → List StatementGroup → List EvidenceStatement
  | _, [] => []
  | budget, group :: rest =>
      let ordered := group.rhs.insertionSort fun a b =>
        projection.shown (session.driverSourceName a) ≤ projection.shown (session.driverSourceName b)
      let samples := (ordered.take budget).map (rhsSample session projection activeTime)
      { kind := if group.kind = "" then "assignment" else group.kind
        file := group.file
        line := max 0 group.line
        rhsSignalCount := group.rhs.length
        rhsSamples := samples } :: evidenceStatements activeTime (budget - samples.length) rest

/-- `ambiguity_evidence`. -/
def ambiguityEvidence (kind : AmbiguityKind) (signal : String) (activeTime hopIndex : ℕ)
    (groups : List StatementGroup) : AmbiguityEvidence where
  kind := kind
  signal := projection.shown signal
  activeTime := activeTime
  hopIndex := hopIndex
  statements := evidenceStatements session projection activeTime limits.maxTraceSignals groups

/-- The samples of all sources were taken. -/
def AmbiguityEvidence.isComplete (evidence : AmbiguityEvidence) : Bool :=
  (evidence.statements.map (·.rhsSignalCount)).sum =
    (evidence.statements.map (·.rhsSamples.length)).sum

/-! ### Facts -/

/-- The selection of the loop indices: a flattened leaf forgets the pending selection, and a
selection that binds indices is used up. Also the selection that was bound. -/
def bindContext (native : Bool) (context : Option SelectedDesignSignal)
    (drivers : List DriverRecord) :
    Option SelectedDesignSignal × Option SelectedDesignSignal × List DriverRecord :=
  match if native then none else context with
  | none => (none, none, drivers)
  | some selected =>
      match session.bindTargetLoopIndices selected drivers with
      | some bound => (none, some selected, bound)
      | none => (some selected, none, drivers)

/-- The annotations of the driver records, in their order. -/
def annotate (index driverIndex : ℤ) (native : Bool) (drivers : List DriverRecord) :
    List DriverRecord :=
  let localPorts := fun drivers =>
    if projection.duplicateTop then session.mapNativeLocalInputPorts index drivers else drivers
  let annotated := session.annotateOutputInstanceIdentities driverIndex (localPorts drivers)
  let expanded := if native then annotated else session.expandExpressionTemporaries annotated
  -- the expansion may uncover more nets of a parent
  let mapped := localPorts expanded
  annotateLoopSelectedRhs (if projection.duplicateTop then
    session.annotateNativeSourceLoopRanges mapped else mapped)

/-- The facts of the current signal. -/
def facts (state : ChainState) (selected : SelectedDesignSignal) : Facts :=
  let index := selected.index
  let own : DriverFacts := ⟨session.driversFor index, index⟩
  let (boundary, input) := if projection.duplicateTop then
      session.selectNativeInputParentDriverFacts index own
    else ({}, own)
  let flattened := session.selectFlattenedOutputDriverFacts index
    (projection.compatibility ∨ (selected.selector.isSome ∧ ¬ selected.exact)) input.drivers
  let output := flattened.getD input
  let leaf := if projection.duplicateTop then
      session.selectNativeFlattenedLeafFacts selected output.drivers
    else none
  let rootInput := if projection.compatibility ∧ state.depth = 0 then
      session.selectRootInputParentDriverFacts index
    else none
  let chosen := rootInput.getD (leaf.getD output)
  let (context, bound, drivers) := bindContext session leaf.isSome
    (if selected.selector.isSome then some selected else state.context) chosen.drivers
  let drivers := annotate session projection index chosen.driverIndex leaf.isSome drivers
  { index, drivers, driverIndex := chosen.driverIndex, boundary
    flattenedOutput := flattened.isSome ∨ leaf.isSome
    nativeFlattenedOutput := leaf.isSome
    rootInputParent := rootInput.map fun parent => session.design.signalName parent.driverIndex
    context, bound
    nativeLoopBoundary := projection.duplicateTop ∧ bound.isNone ∧
      hasNativeLoopSelectionBoundary drivers }

/-! ### Statements -/

/-- The horizon of the clock events of a round. -/
def eventHorizon (state : ChainState) (sample : Sample) : ℕ :=
  if projection.compatibility then sample.activeTime else state.currentTime

/-- The statements of the current signal, without those that only held it. Also whether the
backtracking was limited. -/
def evaluate (state : ChainState) (facts : Facts) (sample : Sample) : EvaluatedStatements × Bool :=
  session.activeStatementGroupsSkippingSelfHold facts.drivers facts.driverIndex sample.activeTime
    (eventHorizon projection state sample) limits.maxNodes

/-- The statements without sources that are not in the source, and without clocked ones before
the first edge. Also whether any clocked ones were set aside. -/
def observable (facts : Facts) (sample : Sample) (evaluated : EvaluatedStatements) :
    EvaluatedStatements × Bool :=
  let evaluated := if projection.compatibility ∧ ¬ projection.duplicateTop then
      session.suppressNonSourceRhs evaluated
    else evaluated
  if projection.compatibility ∧ facts.flattenedOutput then
    session.suppressInitializationOnlyEventEvidence evaluated sample
  else (evaluated, false)

/-- The statements after the rules for forces and for a single non-blocking assignment. -/
def prioritized (sample : Sample) (evaluated : EvaluatedStatements) : EvaluatedStatements :=
  applyUniqueNbaPriority (session.suppressUnobservedStatementOnlyForce evaluated sample)

/-- A statement that can explain a value. -/
def isExplanation (statement : StatementGroup) : Bool :=
  statement.rhs ≠ [] ∨ statement.kind = "nba" ∨ statement.kind = "force" ∨
    statement.records.any fun driver => driver.dependencyRole = "control"

def isForce (statement : StatementGroup) : Bool := statement.kind = "force"

/-- The active statements that can explain the value; a force is the only explanation. -/
def explanations (evaluated : EvaluatedStatements) : List StatementGroup :=
  let groups := evaluated.active.filter isExplanation
  if groups.any isForce then groups.filter isForce else groups

/-- The statement of a stimulus, when the chain has reached one. -/
def statementInput (state : ChainState) (facts : Facts) (sample : Sample)
    (evaluated : EvaluatedStatements) : Option StatementGroup :=
  if projection.duplicateTop ∧ 0 < state.depth ∧ ¬ (explanations evaluated).any isForce ∧
      evaluated.unresolved = [] then
    session.selectNativeStatementInput facts.drivers sample
  else none

/-- The statements between which the round chooses. -/
def candidateGroups (state : ChainState) (facts : Facts) (sample : Sample)
    (evaluated : EvaluatedStatements) : List StatementGroup :=
  match statementInput session projection state facts sample evaluated with
  | some statement => [statement]
  | none =>
      let groups := explanations evaluated
      let native := nativeDependencyGroups groups facts.drivers
      if projection.duplicateTop ∧ ¬ facts.nativeLoopBoundary ∧ ¬ groups.any isForce ∧
          native ≠ [] then native
      else groups

/-! ### The choice of a source -/

/-- What the values of several sources say: the one that changed, or that none did. -/
inductive Toggle
  | unique (position : ℕ)
  | none
  | unclear

/-- The sources of a statement, when the projection asks for their values. -/
def toggleOf (state : ChainState) (facts : Facts) (group : StatementGroup) : Toggle :=
  let changes := session.nativeCandidateChanges group projection.root state.currentTime
  if ¬ projection.duplicateTop ∨ facts.bound.any (·.exact) ∨
      changes.sampledCount ≠ changes.candidateCount then .unclear
  else
    match changes.changed with
    | [position] => .unique position
    | [] => .none
    | _ => .unclear

/-- The source of the representative record, when it is a source that can be sampled. -/
def directUpstream (state : ChainState) (sample : Sample) (group : StatementGroup) : String :=
  match representativeDriver group with
  | some selected =>
      let candidate := session.driverSourceName selected
      if group.kind ≠ "force" ∧ selected.dependencyRole = "rhs" ∧ candidate ≠ "" ∧
          candidate ≠ state.current ∧ canSample session candidate sample.activeTime then candidate
      else ""
  | none => ""

/-- The choice of the only source that changed. -/
def uniqueChoice (state : ChainState) (sample : Sample) (group : StatementGroup)
    (unique : DriverRecord) : Choice :=
  let upstream := session.driverSourceName unique
  { groups := [group]
    selected := some unique
    upstream := if upstream = state.current ∨ ¬ canSample session upstream sample.activeTime then ""
      else upstream }

/-- The choice for a single statement. -/
def chooseSource (state : ChainState) (facts : Facts) (sample : Sample) (group : StatementGroup) :
    Choice :=
  let choice : Choice := { groups := [group], selected := representativeDriver group }
  if group.rhs.length ≤ 1 then
    { choice with upstream := directUpstream session state sample group }
  else
    match toggleOf session projection state facts group with
    | .unique position =>
        match group.rhs[position]? with
        | some unique => uniqueChoice session state sample group unique
        | none => choice
    | .none => { choice with controlOnly := true }
    | .unclear => { choice with ambiguity := some .multipleRhsSources }

/-- The choice from the statements alone. -/
def choose (state : ChainState) (facts : Facts) (sample : Sample) (evaluated : EvaluatedStatements)
    (groups : List StatementGroup) : Choice :=
  let selected := groups.head?.bind representativeDriver
  if facts.nativeLoopBoundary then { groups := [] }
  else if ¬ groups.any isForce ∧ evaluated.unresolved ≠ [] then
    { groups, selected, ambiguity := some .predicateUnresolved }
  else
    match groups with
    | [] => { groups := [] }
    | [group] => chooseSource session projection state facts sample group
    | _ => { groups, selected, ambiguity := some .multipleActiveCandidates }

/-- A port through which the round goes on, when it can be sampled. -/
def crossTo (sample : Sample) (choice : Choice) (port : ℤ) : Choice :=
  let candidate := session.design.signalName port
  if canSample session candidate sample.activeTime then
    { choice with ambiguity := none, upstream := candidate, selected := none }
  else choice

/-- The ports below the current signal that are outputs connected to it. -/
def outputsBelow (state : ChainState) (facts : Facts) : List ℤ :=
  (session.portsConnectedTo facts.index 2).filter fun port =>
    hierarchyDepth (session.design.signalName port) > hierarchyDepth state.current

/-- An output at the start of the chain is followed to the only deepest output that it is an
alias of. -/
def chooseChildOutput (state : ChainState) (facts : Facts) (sample : Sample)
    (evaluated : EvaluatedStatements) (choice : Choice) : Choice :=
  if ¬ choice.controlOnly ∧ ¬ facts.nativeFlattenedOutput ∧
      session.design.signalDirection facts.index = 2 ∧ state.previous = "" ∧
      evaluated.unresolved = [] ∧ choice.groups.map (·.kind) = ["cont_assign"] then
    match session.deepestPorts ((outputsBelow session state facts).filter (· ≠ facts.index)) with
    | [port] => crossTo session sample choice port
    | _ => choice
  else choice

/-- The chain came from a port that leads both ways, or from an output of this net. -/
def arrivedFromBelow (state : ChainState) (facts : Facts) : Bool :=
  let previousIndex := if state.previous = "" then -1 else session.design.resolve state.previous
  let direction := session.design.signalDirection previousIndex
  0 ≤ previousIndex ∧ (direction = 3 ∨
    direction = 2 ∧ (session.design.portConnections previousIndex).any fun connection =>
      connection.other previousIndex = facts.index)

/-- A net is followed to the only output that drives it, unless the source is inside already. -/
def chooseOutputPort (state : ChainState) (facts : Facts) (sample : Sample)
    (evaluated : EvaluatedStatements) (choice : Choice) : Choice :=
  if ¬ choice.controlOnly ∧ ¬ facts.nativeFlattenedOutput ∧
      session.design.signalDirection facts.index = 0 ∧ ¬ arrivedFromBelow session state facts ∧
      evaluated.unresolved = [] then
    match choice.groups, outputsBelow session state facts with
    | [group], [port] =>
        let outputScope := signalScope (session.design.signalName port)
        let inside := group.rhs.any fun driver =>
          let source := session.design.signalName driver.srcSignal
          signalScope source = outputScope ∨ isScopeAncestor outputScope source
        if session.design.signalName port ≠ "" ∧ ¬ inside then crossTo session sample choice port
        else choice
    | _, _ => choice
  else choice

/-- The ports of the instance that stand for the sources of a statement of its parent. -/
def instanceSources (scope : String) (rhs : List DriverRecord) : Option (OrderedMap ℤ ℤ) :=
  rhs.foldlM (fun (mapped : OrderedMap ℤ ℤ) flattened =>
    match session.portsWithin scope (session.portsConnectedTo flattened.srcSignal 1 ++
        session.portsConnectedTo flattened.srcSignal 3) with
    | [port] => some (mapped.insert flattened.srcSignal port)
    | _ => none) .empty

/-- A record whose source is replaced by its port. -/
def mapSource (mapped : OrderedMap ℤ ℤ) (driver : DriverRecord) : DriverRecord :=
  { driver with srcSignal := (mapped.find? driver.srcSignal).getD driver.srcSignal }

/-- The statement of the parent, seen from the instance. -/
def chooseMapped (state : ChainState) (choice : Choice) (group : StatementGroup) : Choice :=
  if group.rhs = [] then
    { choice with groups := [group], selected := representativeDriver group, upstream := "" }
  else
    match instanceSources session (signalScope state.current) group.rhs with
    | none => choice
    | some mapped =>
        let mappedGroup := { group with
          records := group.records.map fun record =>
            if record.dependencyRole = "rhs" then mapSource mapped record else record
          rhs := group.rhs.map (mapSource mapped) }
        { choice with
          groups := [mappedGroup]
          selected := representativeDriver mappedGroup
          upstream := match mappedGroup.rhs with
            | [rhs] => session.design.signalName rhs.srcSignal
            | _ => ""
          ambiguity := if mappedGroup.rhs.length > 1 then some .multipleRhsSources
            else choice.ambiguity }

/-- The statements of the signal before, at the current one. -/
def parentEvaluated (state : ChainState) (sample : Sample) : EvaluatedStatements :=
  let evaluated := session.activeStatementGroups
    (session.driversFor (session.design.resolve state.previous)) sample.activeTime
    (eventHorizon projection state sample)
  applyUniqueNbaPriority (if projection.compatibility then session.suppressNonSourceRhs evaluated
    else evaluated)

/-- An output whose source is the signal before is explained by the statement of that
signal. -/
def chooseParent (state : ChainState) (facts : Facts) (sample : Sample) (choice : Choice) :
    Choice :=
  if choice.ambiguity = none ∧ session.design.signalDirection facts.index = 2 ∧
      state.previous ≠ "" ∧ choice.upstream = state.previous then
    let evaluated := parentEvaluated session projection state sample
    match evaluated.unresolved, evaluated.active with
    | [], [group] => chooseMapped session state choice group
    | _, _ => choice
  else choice

/-- An input goes on with the nearest input port of an ancestor. -/
def chooseAncestor (state : ChainState) (facts : Facts) (sample : Sample) (choice : Choice) :
    Choice :=
  match choice.selected with
  | none => choice
  | some selected =>
      if choice.ambiguity = none ∧ session.design.signalDirection facts.index = 1 then
        let ancestors := (session.portsConnectedTo selected.srcSignal 1).filter fun port =>
          port ≠ facts.index ∧ isScopeAncestor (signalScope (session.design.signalName port))
            (signalScope state.current)
        match session.deepestPorts ancestors with
        | [port] =>
            let candidate := session.design.signalName port
            if canSample session candidate sample.activeTime then
              { choice with selected := some { selected with srcSignal := port }
                            upstream := candidate }
            else choice
        | _ => choice
      else choice

/-- The only statement is one whose right-hand side is an expression. -/
def isExpression (groups : List StatementGroup) : Bool :=
  match groups with
  | [group] => group.kind ≠ "force" ∧ session.statementHasDirectRhs group = false
  | _ => false

/-- The source is not followed when the right-hand side is an expression. -/
def isNonDirect (choice : Choice) : Bool :=
  projection.compatibility ∧ ¬ projection.duplicateTop ∧ choice.ambiguity = none ∧
    choice.upstream ≠ "" ∧ isExpression session choice.groups

/-- The last corrections of the choice: an expression is not followed, and a projected input
goes to its parent. Also whether an expression stopped the chain. -/
def chooseFinal (facts : Facts) (choice : Choice) : Choice × Bool :=
  let nonDirect := isNonDirect session projection choice
  let direct := if nonDirect then { choice with upstream := "" } else choice
  match facts.rootInputParent with
  | some parent =>
      if choice.ambiguity = none ∧ parent ≠ "" then ({ direct with upstream := parent }, false)
      else (direct, nonDirect)
  | none => (direct, nonDirect)

/-- All steps of the choice. -/
def chooseAll (state : ChainState) (facts : Facts) (sample : Sample)
    (evaluated : EvaluatedStatements) : Choice × Bool :=
  let groups := candidateGroups session projection state facts sample evaluated
  let choice := choose session projection state facts sample evaluated groups
  let choice := chooseChildOutput session state facts sample evaluated choice
  let choice := chooseOutputPort session state facts sample evaluated choice
  let choice := chooseParent session projection state facts sample choice
  chooseFinal session projection facts (chooseAncestor session state facts sample choice)

/-! ### The time of a hop -/

/-- The sample after the race of the time slot, which is looked at for the root only. -/
def raceSample (state : ChainState) (facts : Facts) (sample : Sample) : Sample :=
  if projection.duplicateTop ∧ state.depth = 0 then
    session.projectDuplicateTopSameSlotNbaRace facts.index projection.root state.currentTime
      limits.maxNodes sample
  else sample

/-- The edge behind a continuous alias, when the projection takes it. -/
def causalTime (state : ChainState) (sample : Sample) (upstream : String) : Option ℕ :=
  match session.causalEventTime state.currentTime limits.maxNodes [] upstream with
  | some eventTime =>
      if ¬ projection.duplicateTop ∨ eventTime ≤ sample.activeTime then some eventTime else none
  | none => none

/-- The sample with the time at which the hop was executed. -/
def dateSample (state : ChainState) (choice : Choice) (sample : Sample) : Sample :=
  match choice.ambiguity, choice.groups with
  | none, [group] =>
      if group.kind = "nba" then
        match group.eventTime with
        | some eventTime => { sample with queryTime := eventTime, activeTime := eventTime }
        | none => sample
      else if group.kind = "cont_assign" ∧ choice.upstream ≠ "" then
        match causalTime session limits projection state sample choice.upstream with
        | some eventTime => { sample with activeTime := eventTime }
        | none => sample
      else sample
  | _, _ => sample

/-! ### The end of a round -/

/-- `append_unique_signal`. -/
def appendUniqueSignal (path : List String) (signal : String) : List String :=
  if signal = "" ∨ signal ∈ path then path else path ++ [signal]

/-- The hop of a round. -/
def chainHop (state : ChainState) (facts : Facts) (choice : Choice) (sample : Sample) : Hop :=
  let shown := projection.shown state.current
  let hop := traceHop session state.depth shown sample (relationAt state.depth) choice.selected
    facts.index
  let source := match facts.rootInputParent with
    | some parent => if parent ≠ "" then parent else choice.upstream
    | none => choice.upstream
  let path := if source = "" then [] else appendUniqueSignal [] (projection.shown source)
  let hop := { hop with signalPath := appendUniqueSignal path shown }
  if facts.nativeLoopBoundary ∨ facts.boundary.sourceLess then
    { hop with file := "<unknown>", line := 1, sourceContext := [] }
  else hop

/-- The hops after a round. Several candidates are found before there is a hop. -/
def hopsAfter (state : ChainState) (facts : Facts) (choice : Choice) (sample : Sample) :
    List Hop :=
  if choice.ambiguity = some .multipleActiveCandidates then state.hops
  else state.hops ++ [chainHop session projection state facts choice sample]

/-- The end of an ambiguous chain. -/
def endAmbiguous (state : ChainState) (facts : Facts) (evaluated : EvaluatedStatements)
    (choice : Choice) (sample : Sample) (hops : List Hop) (kind : AmbiguityKind) : Ending where
  hops := hops
  termination := .ambiguous
  detail := .ambiguity kind
  ambiguity := some (ambiguityEvidence session limits projection kind state.current
    (if projection.duplicateTop ∧ facts.bound = none then state.currentTime else sample.activeTime)
    (if kind = .multipleActiveCandidates then hops.length else hops.length - 1)
    (if kind = .predicateUnresolved then evaluated.unresolved else choice.groups))

/-- The port through which a chain without drivers goes on. -/
def portUpstream (state : ChainState) (facts : Facts) (sample : Sample) : Option String :=
  let direction := session.design.signalDirection facts.index
  ((session.design.portConnections facts.index).map fun connection =>
    session.design.signalName (connection.other facts.index)).find? fun candidate =>
      ¬ (direction = 1 ∧ hierarchyDepth candidate ≥ hierarchyDepth state.current) ∧
        candidate ≠ "" ∧ candidate ≠ state.current ∧ canSample session candidate sample.activeTime

/-- A signal without drivers that is an input or leads both ways. -/
def isOpenPort (facts : Facts) : Bool :=
  facts.drivers = [] ∧ (session.design.signalDirection facts.index = 1 ∨
    session.design.signalDirection facts.index = 3)

/-- `is_assignment_kind`. -/
def isAssignmentKind (statement : StatementGroup) : Bool :=
  statement.kind = "nba" ∨ statement.kind = "proc_assign" ∨ statement.kind = "cont_assign"

/-- Why a chain without a source ends. -/
def endingOf (facts : Facts) (evaluated : EvaluatedStatements) : Termination :=
  if isOpenPort session facts then .primaryInput
  else if facts.drivers = [] then .unresolved
  else if evaluated.active.any isAssignmentKind then .assignment
  else if facts.drivers.any fun driver => driver.dependencyRole = "control" then .controlOnly
  else .assignment

/-- The detail of a chain that ends without a source. -/
def detailOf (nonDirect : Bool) (termination : Termination) : Detail :=
  if nonDirect then .nonDirectRhsExpression
  else
    match termination with
    | .assignment => .constantOrNoRhsSignal
    | .primaryInput => .primaryInput
    | .controlOnly => .controlOnly
    | _ => .unresolved

/-- The chain goes on with a source, unless a limit is reached. -/
def continueWith (state : ChainState) (facts : Facts) (sample : Sample) (hops : List Hop)
    (upstream : String) : ChainState ⊕ Outcome :=
  let frontier := some (upstream, sampleAt session.waveform upstream sample.activeTime)
  if hops.length ≥ limits.maxNodes then
    .inr (.ended { hops, termination := .limit, detail := .maxNodes, limited := true, frontier })
  else if state.depth ≥ limits.maxDepth then
    .inr (.ended { hops, termination := .limit, detail := .maxDepth, limited := true, frontier })
  else
    .inl { state with
      hops, previous := state.current, current := upstream, currentTime := sample.activeTime
      context := facts.context, depth := state.depth + 1 }

/-- The chain ends at a boundary, an ambiguity or a force, or it goes on with the source. -/
def finish (state : ChainState) (facts : Facts) (evaluated : EvaluatedStatements) (choice : Choice)
    (nonDirect : Bool) (stimulus : Bool) (sample : Sample) : ChainState ⊕ Outcome :=
  let hops := hopsAfter session projection state facts choice sample
  if facts.nativeLoopBoundary ∨ facts.boundary.endpoint then
    .inr (.ended { hops, termination := .primaryInput, detail := .primaryInput })
  else if choice.controlOnly then
    .inr (.ended { hops, termination := .controlOnly, detail := .noCausalToggle })
  else if stimulus then
    .inr (.ended { hops, termination := .primaryInput, detail := .primaryInput })
  else
    match choice.ambiguity with
    | some kind =>
        .inr (.ended (endAmbiguous session limits projection state facts evaluated choice sample hops
          kind))
    | none =>
        if choice.groups.map (·.kind) = ["force"] then
          .inr (.ended { hops, termination := .force, detail := .force })
        else if choice.upstream ≠ "" then
          continueWith session limits state facts sample hops choice.upstream
        else
          match if isOpenPort session facts then portUpstream session state facts sample else none with
          | some upstream => continueWith session limits state facts sample hops upstream
          | none =>
              let termination := endingOf session facts evaluated
              .inr (.ended { hops, termination, detail := detailOf nonDirect termination })

/-- A round after the first tests: the facts are gathered, the statements are evaluated and a
source is chosen. -/
def examine (state : ChainState) (selected : SelectedDesignSignal) (sample : Sample) :
    ChainState ⊕ Outcome :=
  let facts := facts session projection state selected
  let (evaluated, backtrackLimited) := evaluate session limits projection state facts sample
  if backtrackLimited then
    .inr (.ended
      { hops := state.hops ++ [traceHop session state.depth (projection.shown state.current) sample
          (relationAt state.depth) none facts.index]
        termination := .limit, detail := .maxNodes, limited := true })
  else
    let (observed, initializationOnly) := observable session projection facts sample evaluated
    if initializationOnly ∧ observed.active = [] ∧ observed.unresolved = [] then
      .inr (.ended { hops := state.hops, termination := .unresolved, detail := .unresolved })
    else
      let evaluated := prioritized session sample observed
      let (choice, nonDirect) := chooseAll session projection state facts sample evaluated
      let stimulus := (statementInput session projection state facts sample evaluated).isSome
      let dated := dateSample session limits projection state choice
        (raceSample session limits projection state facts sample)
      finish session limits projection state facts evaluated choice nonDirect stimulus dated

/-- One round of the loop. -/
def round (state : ChainState) : ChainState ⊕ Outcome :=
  let key := visitKey state.current state.currentTime
  let selected := session.resolveSelectedDesignSignal state.current
  let sample := sampleAt session.waveform state.current state.currentTime
  if key ∈ state.visited then
    .inr (.ended { hops := state.hops, termination := .loopDetected, detail := .loopDetected })
  else if selected.index < 0 then
    .inr (.error "SIGNAL_NOT_FOUND" ("signal not found in design: " ++ state.current))
  else if sample.ok = false then
    .inr (.error "VALUE_NOT_AVAILABLE" ("signal value not available in FST: " ++ state.current))
  else if projection.compatibility ∧ state.depth = 0 ∧
      session.isExternalPrimaryInput selected.index then
    .inr (.ended
      { hops := state.hops ++ [traceHop session state.depth state.current sample .root none
          selected.index]
        termination := .primaryInput, detail := .primaryInput })
  else
    examine session limits projection { state with visited := state.visited ++ [key] } selected
      sample

/-- A step of the loop: a running chain goes through a round, and an outcome ends it. -/
def step : ChainState ⊕ Outcome → Option (ChainState ⊕ Outcome)
  | .inl state => some (round session limits projection state)
  | .inr _ => none

/-! ### The action -/

/-- The projection of a request. -/
def projectionOf (root : String) : Projection where
  root := root
  compatibility := session.usesNativeVisibleRoot root
  duplicateTop := session.usesDuplicateHdlTopProjection root

/-- The state before the first round. -/
def initialState (root : String) (time : ℕ) : ChainState := { current := root, currentTime := time }

/-- The answer for a chain that ended. -/
structure Answer where
  hops : List Hop
  termination : Termination
  detail : Detail
  ambiguity : Option AmbiguityEvidence
  /-- Where a deeper trace would go on: the signal and its sample. -/
  depthFrontier : Option (String × Sample)
  analysisComplete : Bool
  /-- `truncation_scopes`. -/
  truncation : List String
  deriving DecidableEq, Repr

/-- The part of `run` after the loop. -/
def respond (ending : Ending) : Answer :=
  -- an unresolved predicate is incomplete whatever was sampled
  let ambiguityLimited := ending.ambiguity.any fun evidence =>
    evidence.kind ≠ .predicateUnresolved ∧ evidence.isComplete = false
  let ambiguityIncomplete := ending.ambiguity.any fun evidence =>
    evidence.kind = .predicateUnresolved
  { hops := ending.hops
    termination := ending.termination
    detail := ending.detail
    ambiguity := ending.ambiguity
    depthFrontier := if ending.limited ∧ ending.detail = .maxDepth then
        ending.frontier.filter fun frontier => frontier.2.ok
      else none
    analysisComplete := ¬ ending.limited ∧ ¬ ambiguityLimited ∧ ¬ ambiguityIncomplete
    truncation := (if ending.limited then ["analysis_trace"] else []) ++
      if ambiguityLimited then ["ambiguity_rhs_samples"] else [] }

/-- The answer to a request. -/
inductive Response
  | error (code message : String)
  | traced (answer : Answer)
  deriving DecidableEq, Repr

/-- The loop, with a bound on the number of rounds. -/
def runChain (root : String) (time fuel : ℕ) : Option (ChainState ⊕ Outcome) :=
  runLoop (step session limits (projectionOf session root)) fuel (.inl (initialState root time))

/-- `trace.active_driver_chain`, with a bound on the number of rounds. -/
def traceActiveDriverChain (root : String) (time fuel : ℕ) : Option Response :=
  (runChain session limits root time fuel).bind fun result =>
    match result with
    | .inl _ => none
    | .inr (.error code message) => some (.error code message)
    | .inr (.ended ending) => some (.traced (respond ending))

end XdebugFst.Trace.ActiveChain
