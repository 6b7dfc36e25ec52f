import XdebugFst.Trace.Names
import XdebugFst.Lib.OrderedMap

/-!
# The design as the trace actions see it

`IDesignBackend` offers a table of signals, each with its drivers, loads
and port connections, and a name lookup. Nothing is assumed about the
table: names may be missing or repeated, indices may point outside, and
the lookup is any function.

`DesignQueryIndex` is built from it once for a session and answers the
reverse questions: which ports are connected to a signal, which ports
lie in a scope.
-/

namespace XdebugFst.Trace

open Lib

/-- `IDesignBackend::DriverRecord`, with the fields that the trace actions fill in. -/
structure DriverRecord where
  /-- The source signal, `-1` for a statement without one. -/
  srcSignal : ℤ := -1
  kind : String := ""
  dependencyRole : String := ""
  activationPredicate : String := ""
  file : String := ""
  line : ℤ := 0
  statementIdentity : String := ""
  /-- The loop range of a target index, when it is bound. -/
  targetLoopRange : Option (ℤ × ℤ) := none
  rhsSelectorSignal : ℤ := -1
  /-- The elaborated bit of the source, when there is one. -/
  rhsNumericSelector : Option ℤ := none
  deriving DecidableEq, Repr, Inhabited

/-- `IDesignBackend::LoadRecord`. -/
structure LoadRecord where
  consumer : ℤ := -1
  kind : String := ""
  file : String := ""
  line : ℤ := 0
  deriving DecidableEq, Repr, Inhabited

/-- `IDesignBackend::PortConnection`. -/
structure PortConnection where
  portSignal : ℤ := -1
  connectedSignal : ℤ := -1
  kind : String := ""
  deriving DecidableEq, Repr, Inhabited

/-- The other end of a connection, seen from the signal `index`. -/
def PortConnection.other (connection : PortConnection) (index : ℤ) : ℤ :=
  if connection.portSignal = index then connection.connectedSignal else connection.portSignal

/-- What the design knows of one signal. Names and files may be null pointers. -/
structure SignalFacts where
  name : Option String := none
  width : ℤ := 0
  file : Option String := none
  line : ℤ := 0
  /-- 0 unknown, 1 input, 2 output, 3 inout. -/
  direction : ℤ := 0
  drivers : List DriverRecord := []
  loads : List LoadRecord := []
  ports : List PortConnection := []
  deriving DecidableEq, Repr, Inhabited

/-- `IDesignBackend`. -/
structure Design where
  signals : List SignalFacts
  /-- The index of a name, negative when there is none. -/
  resolve : String → ℤ

namespace Design

variable (design : Design)

/-- The facts of a signal; an index outside the table has none. -/
def factsOf (index : ℤ) : SignalFacts :=
  if index < 0 then default else design.signals.getD index.toNat default

/-- `signal_name` of the trace actions: empty when there is no name. -/
def signalName (index : ℤ) : String := (design.factsOf index).name.getD ""

def signalWidth (index : ℤ) : ℤ := (design.factsOf index).width

def signalFile (index : ℤ) : Option String := (design.factsOf index).file

def signalLine (index : ℤ) : ℤ := (design.factsOf index).line

def signalDirection (index : ℤ) : ℤ := (design.factsOf index).direction

def traceDriver (index : ℤ) : List DriverRecord := (design.factsOf index).drivers

def traceLoad (index : ℤ) : List LoadRecord := (design.factsOf index).loads

def portConnections (index : ℤ) : List PortConnection := (design.factsOf index).ports

/-- The design of a table of signals, with the lookup by name. -/
def ofSignals (signals : List SignalFacts) : Design where
  signals := signals
  resolve name := match signals.findIdx? fun facts => facts.name = some name with
    | some index => index
    | none => -1

end Design

/-! ### The query index -/

/-- The number of a selector as the index reads it: digits only. -/
def indexedSelector (signal : String) : Option (String × ℤ) :=
  if signal.toList.getLast? = some ']' then
    match splitLast '[' signal.toList.dropLast with
    | none => none
    | some (base, text) =>
        if base = [] ∨ text = [] ∨ text.all Char.isDigit = false then none
        else (decimalMagnitude (2 ^ 63 - 1) text 0).map fun n => (String.ofList base, (n : ℤ))
  else none

/-- `DesignQueryIndex`. The ports of a signal or of a scope are kept for each direction. -/
structure DesignQueryIndex where
  connectedPorts : OrderedMap (ℤ ×ₗ ℤ) (List ℤ)
  connectedSignals : OrderedMap ℤ (List ℤ)
  scopePorts : OrderedMap (String ×ₗ ℤ) (List ℤ)
  lastSelectors : OrderedMap String ℤ

namespace DesignQueryIndex

/-- Append to the list of a key. -/
def push {κ : Type} [LinearOrder κ] (m : OrderedMap κ (List ℤ)) (k : κ) (x : ℤ) :
    OrderedMap κ (List ℤ) :=
  m.alter k fun l => some (l.getD [] ++ [x])

/-- One connection of the port `index` of the given direction; `once` are the signals that
the port has been entered for already. -/
def addConnection (direction index : ℤ) (acc : DesignQueryIndex × List ℤ)
    (connection : PortConnection) : DesignQueryIndex × List ℤ :=
  let (q, once) := acc
  let other := connection.other index
  let fresh := 0 ≤ other ∧ other ∉ once
  let q := if fresh then
      { q with connectedPorts := push q.connectedPorts (toLex (other, direction)) index }
    else q
  let q := if 0 ≤ connection.portSignal ∧ 0 ≤ connection.connectedSignal then
      { q with
        connectedSignals := push
          (push q.connectedSignals connection.portSignal connection.connectedSignal)
          connection.connectedSignal connection.portSignal }
    else q
  (q, if fresh then once ++ [other] else once)

/-- The largest selector of each base. -/
def addSelector (m : OrderedMap String ℤ) (name : String) : OrderedMap String ℤ :=
  match indexedSelector name with
  | none => m
  | some (base, selector) => m.alter base fun known =>
      match known with
      | none => some selector
      | some last => some (if selector > last then selector else last)

/-- One signal of the table. -/
def addSignal (design : Design) (q : DesignQueryIndex) (index : ℤ) : DesignQueryIndex :=
  let name := design.signalName index
  let direction := design.signalDirection index
  let isPort := 0 < direction ∧ direction < 4
  let q := if isPort then
      { q with scopePorts := push q.scopePorts (toLex (signalScope name, direction)) index }
    else q
  let q := { q with lastSelectors := addSelector q.lastSelectors name }
  if isPort then ((design.portConnections index).foldl (addConnection direction index) (q, [])).1
  else q

/-- The constructor of `DesignQueryIndex`. -/
def build (design : Design) : DesignQueryIndex :=
  let q := ((List.range design.signals.length).map fun k : ℕ => (k : ℤ)).foldl (addSignal design)
    { connectedPorts := .empty, connectedSignals := .empty, scopePorts := .empty,
      lastSelectors := .empty }
  { q with connectedSignals := (q.connectedSignals.entries.foldl
      (fun m e => m.insert e.1 (sortUnique e.2)) .empty) }

variable (q : DesignQueryIndex)

def portsConnectedTo (signal direction : ℤ) : List ℤ :=
  (q.connectedPorts.find? (toLex (signal, direction))).getD []

def portsInScope (scope : String) (direction : ℤ) : List ℤ :=
  (q.scopePorts.find? (toLex (scope, direction))).getD []

def connectedSignalsOf (signal : ℤ) : List ℤ := (q.connectedSignals.find? signal).getD []

def lastMaterializedSelector (base : String) : Option ℤ := q.lastSelectors.find? base

end DesignQueryIndex

end XdebugFst.Trace
