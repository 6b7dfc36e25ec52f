import XdebugFst.Trace.SourceText

/-!
# Projections of driver facts

The design of a session is flattened: a signal of an instance is driven
through nets of its parents and through temporaries of the compiler. The
driver chain shows a user the view of the source instead. Each function
of this file replaces or annotates the driver records of a signal for
one such projection, and leaves them alone when the replacement is not
unique.

A function of the source that reports success and changes its arguments
returns the changed facts here, or nothing.
-/

namespace XdebugFst.Trace

open Lib

/-- Driver records, and the signal they are records of. -/
structure DriverFacts where
  drivers : List DriverRecord
  driverIndex : ℤ

/-- `SelectedDesignSignal`. -/
structure SelectedDesignSignal where
  index : ℤ := -1
  exact : Bool := false
  /-- The number of a name that ends in one. -/
  selector : Option ℤ := none
  base : String := ""
  deriving DecidableEq, Repr

/-- `NativeInputBoundary`. -/
structure NativeInputBoundary where
  endpoint : Bool := false
  sourceLess : Bool := false
  deriving DecidableEq, Repr

/-- The text contains a pattern. -/
def containsText (text pattern : String) : Bool := (splitFirst pattern.toList text.toList).isSome

/-! ### Records on their own -/

/-- The group that a statement is merged into. -/
def nativeGroup (statement : StatementGroup) : StatementGroup :=
  { kind := statement.kind, file := statement.file, line := statement.line, predicate := "1"
    eventTime := statement.eventTime, targetLoopRanges := statement.targetLoopRanges }

/-- A record is a dependency of a merged group. -/
def StatementGroup.dependsOn (group : StatementGroup) (driver : DriverRecord) : Bool :=
  0 ≤ driver.srcSignal ∧
    (driver.dependencyRole = "rhs" ∨
      driver.dependencyRole = "control" ∧ driver.kind = "cont_assign") ∧
    driver.file = group.file ∧ driver.line = group.line ∧ driver.kind = group.kind ∧
    ¬ (driver.dependencyRole = "rhs" ∧ (group.targetLoopRanges.find? driver.srcSignal).isSome)

/-- Add the dependencies to a merged group. -/
def addDependencies (drivers : List DriverRecord) (group : StatementGroup) : StatementGroup :=
  (drivers.filter group.dependsOn).foldl (fun group driver =>
    { group with records := group.records ++ [driver], rhs := addRhs group.rhs driver }) group

/-- `native_dependency_groups`: one group for each place and kind of the active statements,
with all dependencies of that place. -/
def nativeDependencyGroups (active : List StatementGroup) (drivers : List DriverRecord) :
    List StatementGroup :=
  let merged := active.foldl (fun (merged : List StatementGroup) statement =>
    if merged.any fun group => group.file = statement.file ∧ group.line = statement.line ∧
        group.kind = statement.kind then merged
    else merged ++ [nativeGroup statement]) []
  (merged.map (addDependencies drivers)).filter fun group => group.records ≠ []

/-- `has_native_loop_selection_boundary`: a statement selects by a loop index. -/
def hasNativeLoopSelectionBoundary (drivers : List DriverRecord) : Bool :=
  drivers.any fun selected => selected.dependencyRole = "rhs_loop_selected" ∧
    drivers.any fun index => Session.sameStatement selected index ∧
      index.dependencyRole = "rhs_loop_index"

/-- The sources of the records of one statement that have a role. -/
def sourcesWithRole (drivers : List DriverRecord) (statement : DriverRecord) (role : String) :
    List ℤ :=
  sortUnique ((drivers.filter fun driver => statementKey driver = statementKey statement ∧
    driver.dependencyRole = role ∧ 0 ≤ driver.srcSignal).map (·.srcSignal))

/-- `annotate_loop_selected_rhs`: a source that a loop index selects from bears the index. -/
def annotateLoopSelectedRhs (drivers : List DriverRecord) : List DriverRecord :=
  drivers.map fun driver =>
    match sourcesWithRole drivers driver "rhs_loop_index" with
    | [selector] =>
        if driver.dependencyRole = "rhs" ∧
            driver.srcSignal ∈ sourcesWithRole drivers driver "rhs_loop_selected" then
          { driver with rhsSelectorSignal := selector }
        else driver
    | _ => driver

/-- The range of a loop over a variable that a source line spells out, if it is the plain
ascending form. -/
def lineLoopRange (loopVariable : List Char) (line : List Char) : Option (ℤ × ℤ) := do
  let (_, header) ← splitFirst "for(".toList line
  let (initializer, rest) ← splitFirst ";".toList header
  let (condition, rest) ← splitFirst ";".toList rest
  let (step, _) ← splitFirst ")".toList rest
  let (declaration, firstText) ← splitLast '=' initializer
  guard (loopVariable.isSuffixOf declaration)
  guard (String.ofList (declaration.take (declaration.length - loopVariable.length)) ∈
    ["", "int", "integer", "logic", "reg"])
  guard ((loopVariable ++ ['<']).isPrefixOf condition)
  guard (step = loopVariable ++ ['+', '+'] ∨ step = ['+', '+'] ++ loopVariable)
  let first ← signedDecimal firstText
  let exclusiveEnd ← signedDecimal (condition.drop (loopVariable.length + 1))
  guard (first < exclusiveEnd)
  return (first, exclusiveEnd - 1)

/-- The only source of records that are one continuous assignment. -/
def continuousSource (drivers : List DriverRecord) : Option ℤ :=
  match statementGroups drivers with
  | [group] =>
      match group.rhs with
      | [rhs] => if group.kind = "cont_assign" then some rhs.srcSignal else none
      | _ => none
  | _ => none

namespace Session

variable (session : Session)

/-- The deepest of some ports. -/
def deepestPorts (ports : List ℤ) : List ℤ :=
  let depth := fun port => hierarchyDepth (session.design.signalName port)
  ports.filter fun port => depth port = (ports.map depth).foldr max 0

/-- `ports_connected_to`. -/
def portsConnectedTo (connected direction : ℤ) : List ℤ :=
  session.index.portsConnectedTo connected direction

/-! ### The requested root -/

/-- The request that the design knows, and the name it has there: the request, or the request
without its last selector. -/
def resolvedRoot (signal : String) : String × String :=
  let index := session.design.resolve signal
  match if index < 0 then withoutSelector signal else none with
  | some lookup => (lookup, session.design.signalName (session.design.resolve lookup))
  | none => (signal, session.design.signalName index)

/-- The design has the request below one more `top`. -/
def hasDuplicateTop (signal : String) : Bool :=
  let (lookup, resolved) := session.resolvedRoot signal
  resolved ≠ "" ∧ resolved = "top." ++ canonicalRequest lookup

/-- `uses_native_visible_root`. -/
def usesNativeVisibleRoot (signal : String) : Bool :=
  if hasExplicitTopRoot signal = false then true else session.hasDuplicateTop signal

/-- `uses_duplicate_hdl_top_projection`. -/
def usesDuplicateHdlTopProjection (signal : String) : Bool :=
  if hasExplicitTopRoot signal = false then false else session.hasDuplicateTop signal

/-- `resolve_selected_design_signal`. -/
def resolveSelectedDesignSignal (signal : String) : SelectedDesignSignal :=
  let index := session.design.resolve signal
  let exact := 0 ≤ index ∧ session.design.signalName index = signal
  match finalNumericSelector signal with
  | none => { index, exact }
  | some (base, selector) =>
      let index := if index < 0 then session.design.resolve base else index
      let selected := { index, exact, selector := some selector, base }
      let resolved := session.design.signalName index
      match finalNumericSelector resolved with
      | none => selected
      | some (resolvedBase, resolvedSelector) =>
          if 0 ≤ index ∧ ¬ exact ∧ resolvedSelector = selector ∧
              publicSignalName resolved (canonicalRequest signal) true = canonicalRequest signal then
            { selected with exact := true, base := resolvedBase }
          else selected

/-! ### Leaves of a flattened selection -/

/-- The loop over the chain of compiler aliases. The first argument bounds its length. -/
def leafChain : ℕ → List ℤ → DriverFacts → DriverFacts
  | 0, _, leaf => leaf
  | fuel + 1, visited, leaf =>
      if leaf.driverIndex ∈ visited then leaf
      else
        match continuousSource leaf.drivers with
        | none => leaf
        | some next =>
            if next < 0 ∨ next = leaf.driverIndex then leaf
            else leafChain fuel (leaf.driverIndex :: visited) ⟨session.driversFor next, next⟩

/-- The leaf of a packed selection: the alias of the selected bit, and what it stands for. -/
def selectedLeaf (selected : SelectedDesignSignal) (drivers : List DriverRecord) :
    Option DriverFacts :=
  match selected.selector with
  | none => some ⟨drivers, selected.index⟩
  | some selector =>
      if selected.exact then some ⟨drivers, selected.index⟩
      else
        let encoded := session.design.signalName selected.index ++ "__bra__" ++ toString selector ++
          "__ket__"
        let candidates := sortUnique ((drivers.filter fun driver => driver.dependencyRole = "rhs" ∧
          0 ≤ driver.srcSignal ∧ session.design.signalName driver.srcSignal = encoded).map
            (·.srcSignal))
        match candidates with
        | [leafAlias] => some (session.leafChain 32 [] ⟨session.driversFor leafAlias, leafAlias⟩)
        | _ => none

/-- The instance whose output the leaf is. -/
def leafInstance (leaf : ℤ) : Option String :=
  let outputPorts := (session.portsConnectedTo leaf 2).filter fun port =>
    port ≠ leaf ∧ session.design.signalName port ≠ ""
  match session.deepestPorts outputPorts with
  | [port] =>
      let scope := signalScope (session.design.signalName port)
      if scope = "" then none else some scope
  | _ => none

/-- The ports in an instance, or nested below it, that are connected to a signal. -/
def portsWithin (scope : String) (ports : List ℤ) : List ℤ :=
  ports.filter fun port =>
    let portScope := signalScope (session.design.signalName port)
    portScope = scope ∨ isScopeAncestor scope portScope

/-- The input ports of the instance that stand for the sources, if each source has one. -/
def mappedSources (scope : String) (sources : List DriverRecord) : Option (OrderedMap ℤ ℤ) :=
  sources.foldlM (fun (mapped : OrderedMap ℤ ℤ) rhs =>
    if (mapped.find? rhs.srcSignal).isSome then some mapped
    else
      match sortUnique (session.portsWithin scope (session.portsConnectedTo rhs.srcSignal 1)) with
      | [port] => some (mapped.insert rhs.srcSignal port)
      | _ => none) .empty

/-- One record of the leaf, with the next selector of each source. -/
def mapLeafDriver (leaf : DriverFacts) (mapped : OrderedMap ℤ ℤ)
    (acc : OrderedMap ℤ ℕ × List DriverRecord) (driver : DriverRecord) :
    OrderedMap ℤ ℕ × List DriverRecord :=
  let (next, out) := acc
  let source := driver.srcSignal
  if driver.dependencyRole ≠ "rhs" ∧ driver.dependencyRole ≠ "rhs_loop_selected" then
    (next, out ++ [driver])
  else
    match mapped.find? source with
    | none => (next, out ++ [driver])
    | some port =>
        let width := session.design.signalWidth leaf.driverIndex
        let occurrences := leaf.drivers.countP fun d =>
          d.dependencyRole = "rhs" ∧ 0 ≤ d.srcSignal ∧ d.srcSignal = source
        -- one record for each bit: the records are the bits in their order
        if driver.dependencyRole = "rhs" ∧ 1 < width ∧ (occurrences : ℤ) = width ∧
            session.design.signalWidth port = width then
          let selector := (next.find? source).getD 0
          (next.insert source (selector + 1),
            out ++ [{ driver with srcSignal := port, rhsNumericSelector := some (selector : ℤ) }])
        else (next, out ++ [{ driver with srcSignal := port }])

/-- `select_native_flattened_leaf_facts`. -/
def selectNativeFlattenedLeafFacts (selected : SelectedDesignSignal)
    (drivers : List DriverRecord) : Option DriverFacts := do
  let leaf ← session.selectedLeaf selected drivers
  let scope ← session.leafInstance leaf.driverIndex
  let mapped ← session.mappedSources scope ((statementGroups leaf.drivers).flatMap (·.rhs))
  guard (mapped.entries ≠ [])
  return ⟨(leaf.drivers.foldl (session.mapLeafDriver leaf mapped) (.empty, [])).2,
    leaf.driverIndex⟩

/-! ### Ports -/

/-- `map_native_local_input_ports`: a source outside the scope of the target is replaced by
the only input port in that scope that it is connected to. -/
def mapNativeLocalInputPorts (target : ℤ) (drivers : List DriverRecord) : List DriverRecord :=
  let targetScope := signalScope (session.design.signalName target)
  if targetScope = "" then drivers
  else drivers.map fun driver =>
    let source := session.design.signalName driver.srcSignal
    if (driver.dependencyRole ≠ "rhs" ∧ driver.dependencyRole ≠ "rhs_loop_selected") ∨
        driver.srcSignal < 0 ∨ source = "" ∨ signalScope source = targetScope ∨
        isScopeAncestor targetScope source then driver
    else
      let localInputs := (session.portsConnectedTo driver.srcSignal 1).filter fun port =>
        signalScope (session.design.signalName port) = targetScope
      match sortUnique localInputs with
      | [port] => { driver with srcSignal := port }
      | _ => driver

/-- `select_flattened_output_driver_facts`: the procedural drivers of the net that an output
is an alias of. -/
def selectFlattenedOutputDriverFacts (waveformIndex : ℤ) (allowSampleableFlattened : Bool)
    (drivers : List DriverRecord) : Option DriverFacts :=
  if session.design.signalDirection waveformIndex ≠ 2 then none
  else
    match continuousSource drivers with
    | none => none
    | some flattenedIndex =>
        let flattened := session.design.signalName flattenedIndex
        let waveformSignal := session.design.signalName waveformIndex
        let flattenedDrivers := session.driversFor flattenedIndex
        if flattened = "" ∨ waveformSignal = "" ∨
            hierarchyDepth flattened ≥ hierarchyDepth waveformSignal ∨
            (allowSampleableFlattened = false ∧
              (session.design.signalDirection flattenedIndex ≠ 2 ∨
                session.isSampleable flattened)) ∨
            waveformIndex ∉ session.portsConnectedTo flattenedIndex 2 ∨
            flattenedDrivers.all (fun driver => driver.kind = "cont_assign") then none
        else some ⟨session.mapDriverWaveformAliases flattenedDrivers, flattenedIndex⟩

/-- The connections of a port to a named signal further up. -/
def parentConnections (index : ℤ) : List PortConnection :=
  let name := session.design.signalName index
  (session.design.portConnections index).filter fun connection =>
    let parent := session.design.signalName (connection.other index)
    0 ≤ connection.other index ∧ parent ≠ "" ∧ parent ≠ name ∧
      hierarchyDepth parent < hierarchyDepth name

/-- `select_root_input_parent_driver_facts`: the drivers of the only clocked parent of an
input. It has drivers, so the last test of the source never fails. -/
def selectRootInputParentDriverFacts (waveformIndex : ℤ) : Option DriverFacts :=
  if session.design.signalDirection waveformIndex ≠ 1 ∨
      session.design.signalName waveformIndex = "" then none
  else
    let candidates := ((session.parentConnections waveformIndex).map
      (·.other waveformIndex)).filter fun other =>
        (session.driversFor other).any fun driver =>
          driver.kind = "nba" ∨ hasStart driver.dependencyRole "event_"
    match sortUnique candidates with
    | [parent] => some ⟨session.mapDriverWaveformAliases (session.driversFor parent), parent⟩
    | _ => none

/-- `select_native_input_parent_driver_facts`: an input is driven by its only parent, unless it
is an endpoint. -/
def selectNativeInputParentDriverFacts (inputIndex : ℤ) (facts : DriverFacts) :
    NativeInputBoundary × DriverFacts :=
  if session.design.signalDirection inputIndex ≠ 1 ∨
      session.design.signalName inputIndex = "" then ({}, facts)
  else
    let connections := session.parentConnections inputIndex
    if connections.any fun connection => containsText connection.kind "modport" then
      ({ endpoint := true, sourceLess := true }, { facts with drivers := [] })
    else
      match sortUnique (connections.map (·.other inputIndex)) with
      | [parent] =>
          let drivers := session.driversFor parent
          if drivers = [] then ({ endpoint := true }, { facts with drivers := [] })
          else ({}, ⟨session.mapDriverWaveformAliases drivers, parent⟩)
      | _ => ({}, facts)

/-- `is_external_primary_input`: an input that is connected to an input further up. -/
def isExternalPrimaryInput (signalIndex : ℤ) : Bool :=
  0 ≤ signalIndex ∧ session.design.signalDirection signalIndex = 1 ∧
    (session.parentConnections signalIndex).any fun connection =>
      session.design.signalDirection (connection.other signalIndex) = 1

/-! ### Loops -/

/-- `source_for_loop_range`. -/
def sourceForLoopRange (file : String) (line : ℤ) (loopVariable : String) : Option (ℤ × ℤ) :=
  if file = "" ∨ line ≤ 0 ∨ loopVariable = "" then none
  else (session.sourceContext file line).findSome? fun row =>
    lineLoopRange loopVariable.toList
      ((stripComment row.text.toList).filter fun c => !Expr.isSpace c)

/-- `annotate_native_source_loop_ranges`: a control that is a loop variable is an index with
the range of the loop. -/
def annotateNativeSourceLoopRanges (drivers : List DriverRecord) : List DriverRecord :=
  drivers.map fun driver =>
    if driver.kind ≠ "proc_assign" ∨ driver.dependencyRole ≠ "control" ∨ driver.srcSignal < 0 then
      driver
    else
      match session.sourceForLoopRange driver.file driver.line
          (leafName (session.design.signalName driver.srcSignal)) with
      | some range =>
          { driver with dependencyRole := "target_loop_index", targetLoopRange := some range }
      | none => driver

/-- The range of the loop indices of a selected signal: the last element of an array, or all
bits of a vector. -/
def targetLoopRangeOf (selected : SelectedDesignSignal) : Option (ℤ × ℤ) :=
  if selected.selector = none ∨ selected.index < 0 then none
  else if selected.exact then
    (session.index.lastMaterializedSelector selected.base).map fun last => (last, last)
  else
    let width := session.design.signalWidth selected.index
    if width ≤ 0 then none else some (0, width - 1)

/-- `bind_target_loop_indices`. -/
def bindTargetLoopIndices (selected : SelectedDesignSignal) (drivers : List DriverRecord) :
    Option (List DriverRecord) :=
  let isIndex (driver : DriverRecord) : Bool :=
    driver.dependencyRole = "target_loop_index" ∧ 0 ≤ driver.srcSignal
  match session.targetLoopRangeOf selected with
  | none => none
  | some range =>
      if drivers.any isIndex then
        some (drivers.map fun driver =>
          if isIndex driver then { driver with targetLoopRange := some range } else driver)
      else none

end Session

end XdebugFst.Trace
