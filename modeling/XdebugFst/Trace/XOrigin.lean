import XdebugFst.Trace.Statements
import XdebugFst.Lib.Loop

/-!
# Where an X comes from

`trace.x_origin` starts at a signal that reads X and searches backwards,
depth first, for the signals the X came from. A state of the search is a
partial chain: the hops so far, the signal and the onset of the next
one, the pairs of signal and onset on the way, and whether the
enumeration of dependencies was complete so far. A chain ends at an
origin, at a loop, at a predicate that cannot be evaluated, or at a
limit.

The search keeps a set of the states it has explored, by a key that
leaves port hops out, and after the search chains of the same key are
coalesced. The limits on depth, nodes, distinct times, dependencies of a
hop and chains all leave a trace in the answer.

The control flow of one round is in two functions on the state before
it: `fate` says what happens to the state that is taken up, and
`finding` what its statements say.
-/

namespace XdebugFst.Trace.XOrigin

open Lib Waveform

/-- The limits that a request states. -/
structure Limits where
  depth : Option ℕ := none
  chains : Option ℕ := none
  nodes : Option ℕ := none
  timeSteps : Option ℕ := none
  traceSignals : Option ℕ := none

/-! The limits are read as words of 32 bits, so that a positive limit of a request can be 0. -/

namespace Limits

variable (limits : Limits)

def maxDepth : ℕ := (limits.depth.map (· % 2 ^ 32)).getD 8

def maxChains : ℕ := (limits.chains.map (· % 2 ^ 32)).getD 8

def maxNodes : ℕ := (limits.nodes.map (· % 2 ^ 32)).getD 50

def maxTimeSteps : ℕ := (limits.timeSteps.map (· % 2 ^ 32)).getD 128

def maxTraceSignals : ℕ := (limits.traceSignals.map (· % 2 ^ 32)).getD 64

end Limits

/-! ### Chains -/

/-- A hop of a chain. Its value is kept as the bits and the width it is rendered from. -/
structure Hop where
  index : ℕ
  chainId : String
  signal : String
  onset : ℕ
  activeTime : ℕ
  bits : String
  width : ℕ
  relation : String
  file : String
  line : ℤ
  deriving DecidableEq, Repr

/-- `status` of a chain. -/
inductive Status
  | limit | originFound | unresolved | loopDetected
  deriving DecidableEq, Repr

def Status.text : Status → String
  | limit => "limit"
  | originFound => "origin_found"
  | unresolved => "unresolved"
  | loopDetected => "loop_detected"

/-- `termination_detail` of a chain. -/
inductive Detail
  | maxDepth | maxNodes | maxTimeSteps | forceX | predicateUnresolved | noActiveStatement
  | loopDetected | candidateXSource
  deriving DecidableEq, Repr

/-- The signal at which a chain stands. -/
structure Current where
  signal : String
  onset : ℕ
  bits : String
  width : ℕ
  deriving DecidableEq, Repr

/-- A dependency that was not followed. -/
structure PendingDependency where
  signal : String
  relation : String
  /-- The limit that cut it, when it was cut during the search. -/
  reason : Option String := none
  /-- Its onset, when its chain was dropped after the search. -/
  onset : Option ℕ := none
  deriving DecidableEq, Repr

/-- The event of dropping chains. -/
structure BranchEvent where
  total : ℕ
  returned : ℕ
  omitted : ℕ
  pendingDependencies : List PendingDependency
  deriving DecidableEq, Repr

/-- The kind of an origin. -/
inductive OriginKind
  | assignment | force
  deriving DecidableEq, Repr

/-- `origin` of a chain. -/
structure Origin where
  signal : String
  onset : ℕ
  kind : OriginKind
  reason : Detail
  /-- `evidence_status` is `proven`, not `best_effort`. -/
  proven : Bool
  file : String
  line : ℤ
  deriving DecidableEq, Repr

structure Chain where
  chainId : String
  status : Status
  detail : Detail
  complete : Bool
  current : Current
  hops : List Hop
  pendingDependencies : List PendingDependency := []
  branchEvents : List BranchEvent := []
  origin : Option Origin := none
  /-- `_semantic_tail_relation`. -/
  tailRelation : Option String := none
  deriving DecidableEq, Repr

/-! ### Keys -/

/-- The parts of a relation between its plus signs. -/
def relationTokens : List Char → List (List Char)
  | [] => [[]]
  | c :: rest =>
      match relationTokens rest with
      | [] => [[]]
      | token :: tokens => if c = '+' then [] :: token :: tokens else (c :: token) :: tokens

/-- `x_origin_semantic_relation`: the relation without ports. -/
def semanticRelation (relation : String) : String :=
  "+".intercalate (((relationTokens relation.toList).map String.ofList).filter fun token =>
    token ≠ "" ∧ token ≠ "port")

/-- `append_identity_field`: the size in bytes stands before the value. -/
def identityField (value : String) : String := toString value.utf8ByteSize ++ ":" ++ value

/-- The fields of a step of a chain, nothing for a port. -/
def stepKey (relation signal onset : String) : String :=
  if semanticRelation relation = "" then ""
  else identityField (semanticRelation relation) ++ identityField signal ++ identityField onset

section Keys

variable (session : Session)

/-- The fields of the hops. -/
def hopsKey (hops : List Hop) : String :=
  String.join (hops.map fun hop => stepKey hop.relation hop.signal (session.formatTime hop.onset))

/-- `x_origin_semantic_chain_key`. -/
def semanticChainKey (chain : Chain) : String :=
  let onset := session.formatTime chain.current.onset
  hopsKey session chain.hops ++ stepKey (chain.tailRelation.getD "") chain.current.signal onset ++
    identityField chain.status.text ++ identityField chain.current.signal ++ identityField onset

/-- `x_origin_semantic_state_key`. -/
def semanticStateKey (hops : List Hop) (incomingRelation currentSignal : String)
    (currentOnset : ℕ) : String :=
  let relation := semanticRelation incomingRelation
  hopsKey session hops ++ identityField "" ++
    (if relation = "" then "" else identityField relation) ++
    identityField currentSignal ++ identityField (toString currentOnset)

end Keys

/-! ### The search -/

/-- `State`: a chain that is still growing. -/
structure State where
  signal : String
  chainId : String
  relation : String
  visited : List String
  hops : List Hop := []
  pendingDependencies : List PendingDependency := []
  depth : ℕ := 0
  time : ℕ
  complete : Bool := true
  incoming : Option DriverRecord := none

/-- The variables of the search. The first state of `pending` is taken up next. -/
structure Search where
  pending : List State
  chains : List Chain := []
  limitations : List String := []
  visitedTimes : List ℕ := []
  exploredStates : List String := []
  nodes : ℕ := 0
  chainSerial : ℕ := 1
  globalNodeLimit : Bool := false
  globalTimeLimit : Bool := false

/-- An upstream signal that reads X. -/
structure Source where
  signal : String
  relation : String
  onset : ℕ
  driver : DriverRecord

variable (session : Session) (limits : Limits)

/-- `x_hop`. -/
def xHop (state : State) (index : ℤ) (sample : Sample) (onset : ℕ) : Hop where
  index := state.hops.length
  chainId := state.chainId
  signal := state.signal
  onset := onset
  activeTime := sample.activeTime
  bits := sample.bits
  width := sample.width
  relation := state.relation
  file :=
    let designFile := if index ≥ 0 then (session.design.signalFile index).getD "" else ""
    match state.incoming with
    | some driver => if driver.file ≠ "" then driver.file else designFile
    | none => designFile
  line :=
    let designLine := if index ≥ 0 then session.design.signalLine index else 0
    max 0 (match state.incoming with
      | some driver => if driver.line > 0 then driver.line else designLine
      | none => designLine)

/-- `finish_chain`, without an origin. -/
def finishChain (state : State) (sample : Sample) (onset : ℕ) (status : Status) (detail : Detail)
    (complete : Bool) : Chain where
  chainId := state.chainId
  status := status
  detail := detail
  complete := complete
  current := { signal := state.signal, onset := onset, bits := sample.bits, width := sample.width }
  hops := state.hops
  pendingDependencies := state.pendingDependencies

/-- The origin that `finish_chain` adds on demand. -/
def assignmentOrigin (state : State) (onset : ℕ) (detail : Detail) : Origin :=
  let index := session.design.resolve state.signal
  { signal := state.signal
    onset := onset
    kind := .assignment
    reason := detail
    proven := false
    file := if index ≥ 0 then (session.design.signalFile index).getD "" else ""
    line := max 0 (if index ≥ 0 then session.design.signalLine index else 0) }

/-- What happens to a state that is taken up. -/
inductive Fate
  /-- It has no index or no sample. -/
  | unsampled
  | tooDeep
  /-- Its key was explored before. -/
  | explored
  /-- A global limit was reached before. -/
  | globalLimit
  | nodeLimit
  | timeLimit
  | expanded
  deriving DecidableEq, Repr

/-- The sample of a state that is taken up. -/
def stateSample (state : State) : Sample := sampleAt session.waveform state.signal state.time

/-- The onset of a state that is taken up. -/
def stateOnset (state : State) : ℕ := xOnsetTime session.waveform (stateSample session state)

/-- The key under which a state is explored. -/
def stateKey (state : State) : String :=
  semanticStateKey session state.hops state.relation state.signal (stateOnset session state)

/-- The tests before a state is expanded, in their order. -/
def fate (search : Search) (state : State) : Fate :=
  if session.design.resolve state.signal < 0 ∨ (stateSample session state).ok = false then .unsampled
  else if state.depth > limits.maxDepth then .tooDeep
  else if stateKey session state ∈ search.exploredStates then .explored
  else if search.globalNodeLimit ∨ search.globalTimeLimit then .globalLimit
  else if search.nodes ≥ limits.maxNodes then .nodeLimit
  else if state.time ∉ search.visitedTimes ∧ search.visitedTimes.length + 1 > limits.maxTimeSteps
    then .timeLimit
  else .expanded

/-- The driver records of the expanded signal. -/
def allDrivers (index : ℤ) : List DriverRecord :=
  session.expandExpressionTemporaries
    (session.annotateOutputInstanceIdentities index (session.driversFor index))

/-- The statements that are active or unresolved at the expanded signal. -/
def evaluated (index : ℤ) (sample : Sample) : EvaluatedStatements :=
  applyUniqueNbaPriority (session.suppressUnobservedStatementOnlyForce
    (session.activeStatementGroups (allDrivers session index) sample.activeTime 0) sample)

/-- The records of the statements that are active or unknown. -/
def activeDrivers (statements : EvaluatedStatements) : List DriverRecord :=
  (statements.active ++ statements.unresolved).flatMap (·.records)

/-- A record whose source may explain the value. -/
def isDependency (driver : DriverRecord) : Bool :=
  (driver.dependencyRole = "rhs" ∨ driver.dependencyRole = "control") ∧ 0 ≤ driver.srcSignal

/-- The dependencies without those of the same source and role. -/
def dependenciesOf (drivers : List DriverRecord) : List DriverRecord :=
  (drivers.filter isDependency).foldl (fun out driver =>
    if out.any fun d => d.srcSignal = driver.srcSignal ∧ d.dependencyRole = driver.dependencyRole
    then out else out ++ [driver]) []

/-- What the statements of an expanded signal say. -/
inductive Finding
  | force (statement : StatementGroup)
  /-- A predicate is unresolved, and not because of the waveform. -/
  | unresolvedPredicate
  /-- There are records, but no statement is active. -/
  | inactive
  | follow (dependencies : List DriverRecord)

/-- The tests on the statements of an expanded signal, in their order. -/
def finding (index : ℤ) (sample : Sample) : Finding :=
  let statements := evaluated session index sample
  match statements.active.find? fun statement => statement.kind = "force" with
  | some statement => .force statement
  | none =>
      if statements.unresolved.any fun statement => !statement.predicateWaveformUnknown then
        .unresolvedPredicate
      else if allDrivers session index ≠ [] ∧ activeDrivers statements = [] then .inactive
      else .follow (dependenciesOf (activeDrivers statements))

/-- The upstream signal as a source, when it has a name and reads X. -/
def xSource (time : ℕ) (signal relation : String) (driver : DriverRecord) : Option Source :=
  let upstream := sampleAt session.waveform signal time
  if signal = "" ∨ upstream.ok = false ∨ hasX upstream.bits = false then none
  else some { signal, relation, onset := xOnsetTime session.waveform upstream, driver }

/-- The sources among the dependencies. -/
def dependencySources (time : ℕ) (dependencies : List DriverRecord) : List Source :=
  dependencies.filterMap fun driver =>
    xSource session time (session.design.signalName driver.srcSignal) driver.dependencyRole driver

/-- The sources among the port connections. -/
def portSources (time : ℕ) (index : ℤ) : List Source :=
  (session.design.portConnections index).filterMap fun port =>
    let other := port.other index
    xSource session time (session.design.signalName other) "port"
      { srcSignal := other, kind := port.kind, dependencyRole := "port" }

/-- The hop before the last one has this signal. -/
def returnsToParent (hops : List Hop) (signal : String) : Bool :=
  match hops.reverse with
  | _ :: parent :: _ => parent.signal = signal
  | _ => false

/-- The pair of signal and onset is on the way already. -/
def isVisited (state : State) (source : Source) : Bool :=
  visitKey source.signal source.onset ∈ state.visited

/-- The sources of an expanded state: those of its dependencies, or else the ports that do
not lead back to the parent. -/
def sourcesOf (state : State) (index : ℤ) (dependencies : List DriverRecord) : List Source :=
  dependencySources session state.time dependencies ++
    (if dependencies = [] then
      (portSources session state.time index).filter fun source =>
        !returnsToParent state.hops source.signal
    else [])

/-- The dependencies beyond `max_trace_signals` are left pending. -/
def truncate (state : State) (dependencies : List DriverRecord) : State :=
  if dependencies.length > limits.maxTraceSignals then
    { state with
      pendingDependencies := state.pendingDependencies ++
        (dependencies.drop limits.maxTraceSignals).map fun driver =>
          { signal := session.design.signalName driver.srcSignal
            relation := driver.dependencyRole
            reason := some "max_trace_signals" }
      complete := false }
  else state

/-- The limitation that a truncated enumeration leaves. -/
def truncationNote (state : State) (dependencies : List DriverRecord) : List String :=
  if dependencies.length > limits.maxTraceSignals then
    ["dependency enumeration truncated by limits.max_trace_signals at " ++ state.signal]
  else []

/-- The chain of a source that is on the way already. -/
def loopChain (state : State) (source : Source) : Chain :=
  let loop := { state with
    signal := source.signal, relation := source.relation, incoming := some source.driver
    depth := state.depth + 1, time := source.onset }
  { finishChain loop (sampleAt session.waveform source.signal state.time) source.onset
      .loopDetected .loopDetected state.complete with
    tailRelation := some source.relation }

/-- The state of a source that is not on the way yet. -/
def childState (state : State) (source : Source) : State :=
  { state with
    signal := source.signal, relation := source.relation, incoming := some source.driver
    depth := state.depth + 1, time := source.onset
    visited := state.visited ++ [visitKey source.signal source.onset] }

/-- A branch is a child with a chain of its own. -/
def branchState (state : State) (source : Source) (serial : ℕ) : State :=
  let chainId := "c" ++ toString serial
  { childState state source with
    chainId := chainId
    hops := state.hops.map fun hop => { hop with chainId := chainId }
    pendingDependencies := []
    complete := true }

/-- The children of an expanded state: the first one continues its chain, the others
branch. -/
def childrenOf (state : State) (serial : ℕ) : List Source → List State
  | [] => []
  | source :: rest =>
      childState state source :: rest.mapIdx fun i s => branchState state s (serial + i)

/-- The sources are followed. The state has its own hop already. -/
def follow (search : Search) (state : State) (index : ℤ) (sample : Sample) (onset : ℕ)
    (dependencies : List DriverRecord) : Search :=
  let limitations := truncationNote limits state dependencies
  let state := truncate session limits state dependencies
  let candidates := sourcesOf session state index (dependencies.take limits.maxTraceSignals)
  let loopSources := candidates.filter (isVisited state)
  let sources := candidates.filter fun source => !isVisited state source
  let search := { search with
    limitations := search.limitations ++ limitations
    chains := search.chains ++ loopSources.map (loopChain session state) }
  if sources = [] then
    if loopSources = [] then
      { search with chains := search.chains ++
          [{ finishChain state sample onset .originFound .candidateXSource state.complete with
              origin := some (assignmentOrigin session state onset .candidateXSource) }] }
    else search
  else
    { search with
      pending := childrenOf state search.chainSerial sources ++ search.pending
      chainSerial := search.chainSerial + (sources.length - 1) }

/-- The chain that ends at a force, which also gives the last hop its place. -/
def forceChain (state : State) (sample : Sample) (onset : ℕ) (statement : StatementGroup) :
    Chain :=
  let driver := representativeDriver statement
  let hops := match driver with
    | some driver => state.hops.dropLast ++ (state.hops.getLast?.map fun hop =>
        { hop with file := driver.file, line := max 0 driver.line }).toList
    | none => state.hops
  { finishChain { state with hops } sample onset .originFound .forceX state.complete with
    origin := some
      { signal := state.signal, onset, kind := .force, reason := .forceX, proven := true
        file := (driver.map (·.file)).getD ""
        line := (driver.map fun d => max 0 d.line).getD 0 } }

/-- A state is expanded: it gets its hop, and its statements are looked at. -/
def expand (search : Search) (state : State) : Search :=
  let index := session.design.resolve state.signal
  let sample := stateSample session state
  let onset := stateOnset session state
  let state := { state with hops := state.hops ++ [xHop session state index sample onset] }
  let search := { search with nodes := search.nodes + 1 }
  match finding session index sample with
  | .force statement =>
      { search with chains := search.chains ++ [forceChain state sample onset statement] }
  | .unresolvedPredicate =>
      { search with
        limitations := search.limitations ++ ["activation predicate unresolved at " ++ state.signal]
        chains := search.chains ++
          [finishChain state sample onset .unresolved .predicateUnresolved false] }
  | .inactive =>
      { search with
        limitations := search.limitations ++
          ["no active statement matched waveform controls at " ++ state.signal]
        chains := search.chains ++
          [finishChain state sample onset .unresolved .noActiveStatement false] }
  | .follow dependencies => follow session limits search state index sample onset dependencies

/-- A chain is cut by a limit. -/
def cut (search : Search) (state : State) (detail : Detail) : Search :=
  { search with chains := search.chains ++
      [finishChain state (stateSample session state) (stateOnset session state) .limit detail false] }

/-- A state is taken up. -/
def visit (search : Search) (state : State) : Search :=
  let entered := { search with
    exploredStates := search.exploredStates ++ [stateKey session state] }
  let timed := { entered with
    visitedTimes := if state.time ∈ search.visitedTimes then search.visitedTimes
      else search.visitedTimes ++ [state.time] }
  match fate session limits search state with
  | .unsampled => search
  | .tooDeep => cut session search state .maxDepth
  | .explored => search
  | .globalLimit =>
      cut session entered state (if search.globalNodeLimit then .maxNodes else .maxTimeSteps)
  | .nodeLimit =>
      cut session { entered with
        globalNodeLimit := true
        limitations := search.limitations ++ ["trace truncated by limits.max_nodes"] } state .maxNodes
  | .timeLimit =>
      cut session { timed with
        globalTimeLimit := true
        limitations := search.limitations ++ ["trace truncated by limits.max_time_steps"] }
        state .maxTimeSteps
  | .expanded => expand session limits timed state

/-- One round of the loop. -/
def step (search : Search) : Option Search :=
  match search.pending with
  | [] => none
  | state :: rest => some (visit session limits { search with pending := rest } state)

/-- The search before its first round. -/
def initialSearch (root : String) (query : Sample) : Search :=
  let onset := xOnsetTime session.waveform query
  { pending := [{ signal := root, chainId := "c0", relation := "root", time := onset,
                  visited := [visitKey root onset] }] }

/-- The loop of the search, with a bound on the number of rounds. -/
def runSearch (root : String) (query : Sample) (fuel : ℕ) : Option Search :=
  runLoop (step session limits) fuel (initialSearch session root query)

/-! ### The answer -/

/-- One chain of the coalescing loop: chains of the same key are one chain, a complete one if
there is one. -/
def coalesceStep (kept : List (String × Chain)) (chain : Chain) : List (String × Chain) :=
  let key := semanticChainKey session chain
  if kept.any fun e => e.1 = key then
    kept.map fun e => if e.1 = key ∧ !e.2.complete ∧ chain.complete then (key, chain) else e
  else kept ++ [(key, chain)]

/-- The chains without those that differ in port hops only. -/
def coalesce (chains : List Chain) : List Chain :=
  (chains.foldl (coalesceStep session) []).map Prod.snd

/-- What a dropped chain leaves behind. -/
def omittedDependency (chain : Chain) : PendingDependency :=
  { signal := chain.current.signal
    relation := (chain.hops.getLast?.map Hop.relation).getD "rhs"
    onset := some chain.current.onset }

/-- The first chain records the dropped ones, and is incomplete. -/
def retain (total : ℕ) (omitted : List PendingDependency) (chain : Chain) : Chain :=
  { chain with
    pendingDependencies := chain.pendingDependencies ++ omitted
    branchEvents := chain.branchEvents ++
      [{ total, returned := limits.maxChains, omitted := total - limits.maxChains
         pendingDependencies := omitted }]
    complete := false }

/-- Too many chains are dropped. -/
def capChains (chains : List Chain) (limitations : List String) : List Chain × List String :=
  if chains.length > limits.maxChains then
    let omitted := (chains.drop limits.maxChains).map omittedDependency
    ((chains.modifyHead (retain limits chains.length omitted)).take limits.maxChains,
      limitations ++ ["X semantic branches truncated by limits.max_chains"])
  else (chains, limitations)

/-- The chains of the answer are numbered from zero. -/
def renumber (chains : List Chain) : List Chain :=
  chains.mapIdx fun i chain =>
    let chainId := "c" ++ toString i
    { chain with
      chainId := chainId
      hops := chain.hops.map fun hop => { hop with chainId := chainId }
      tailRelation := none }

/-- `termination` of the summary. -/
inductive Termination
  | partialResult | pending | limit | originFound | loopDetected | notObservable
  deriving DecidableEq, Repr

/-- A chain counts as limited. -/
def Chain.isLimited (chain : Chain) : Bool := chain.status = .limit ∨ chain.complete = false

/-- A place from which a deeper search could go on. -/
structure DepthFrontier where
  current : Current
  chainId : String
  stoppedAfterDepth : ℕ
  deriving DecidableEq, Repr

/-- The answer of the action for a signal that reads X. -/
structure Answer where
  chains : List Chain
  limitations : List String
  depthFrontiers : List DepthFrontier
  completedCount : ℕ
  limitedCount : ℕ
  hopCount : ℕ
  originCount : ℕ
  analysisComplete : Bool
  termination : Termination
  deriving DecidableEq, Repr

/-- The part of `run` after the search. -/
def respond (search : Search) : Answer :=
  let (kept, limitations) := capChains limits (coalesce session search.chains) search.limitations
  let chains := renumber kept
  let limited := chains.countP (·.isLimited)
  let completed := chains.length - limited
  let origins := chains.countP fun chain => chain.origin.isSome
  { chains, limitations
    depthFrontiers := (chains.filter fun chain =>
      chain.status = .limit ∧ chain.detail = .maxDepth).map fun chain =>
        { current := chain.current, chainId := chain.chainId
          stoppedAfterDepth := limits.maxDepth }
    completedCount := completed
    limitedCount := limited
    hopCount := (chains.map fun chain => chain.hops.length).sum
    originCount := origins
    analysisComplete := limited = 0
    termination :=
      if chains.any (·.status = .unresolved) then
        if completed ≠ 0 then .partialResult else .pending
      else if limited ≠ 0 then if completed ≠ 0 then .partialResult else .limit
      else if origins ≠ 0 then .originFound
      else if chains.any (·.status = .loopDetected) then .loopDetected
      else .notObservable }

/-- The answer to a request. -/
inductive Response
  | error (code message : String)
  | notXAtQueryTime
  | traced (answer : Answer)
  deriving DecidableEq, Repr

/-- `trace.x_origin`, with a bound on the number of rounds of the search. -/
def traceXOrigin (root : String) (time : ℕ) (fuel : ℕ) : Option Response :=
  if session.design.resolve root < 0 then
    some (.error "SIGNAL_NOT_FOUND" ("signal not found in design: " ++ root))
  else
    let query := sampleAt session.waveform root time
    if query.ok = false then
      some (.error "VALUE_NOT_AVAILABLE" "signal value not available in FST")
    else if hasX query.bits = false then some .notXAtQueryTime
    else
      (runSearch session limits root query fuel).map fun search =>
        .traced (respond session limits search)

end XdebugFst.Trace.XOrigin
