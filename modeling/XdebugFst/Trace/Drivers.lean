import XdebugFst.Trace.Design
import XdebugFst.Trace.Sample

/-!
# Drivers of a signal

The trace actions never use the driver records of the design as they
are. Records of several instances of one module are told apart, sources
that are compiler temporaries are replaced by the signals behind them,
and sources that the waveform does not contain are replaced by their
aliases.

Looking through temporaries is a recursion over the driver graph, which
may be cyclic. The set of visited temporaries bounds it, and
`collectExpressionSources_isSome` says so: with one unit of fuel for
each signal of the design the recursion comes to its end.
-/

namespace XdebugFst.Trace

open Lib Waveform

/-- A line of a source file around a statement. -/
structure SourceRow where
  line : ℤ
  text : String
  /-- The row is the line asked for. -/
  active : Bool
  deriving DecidableEq, Repr

/-- What a trace action works on: the design and the waveform of the session, the source
files, and the rendering of times in the requested unit. -/
structure Session where
  waveform : Backend
  design : Design
  /-- `trace_source_context`. -/
  sourceContext : String → ℤ → List SourceRow
  /-- `format_time`. -/
  formatTime : ℕ → String

namespace Session

variable (session : Session)

/-- `design_index`. -/
def index : DesignQueryIndex := .build session.design

/-- The waveform has a signal of this name. -/
def isSampleable (signal : String) : Bool :=
  session.waveform.findSignal signal ≠ Backend.kInvalidSignalRef

/-! ### The records of a signal -/

/-- The order of roles in `drivers_for`. -/
def roleRank (role : String) : ℕ := if role = "rhs" then 0 else if role = "control" then 1 else 2

/-- `drivers_for`. -/
def driversFor (signalIndex : ℤ) : List DriverRecord :=
  (session.design.traceDriver signalIndex).insertionSort fun a b =>
    roleRank a.dependencyRole ≤ roleRank b.dependencyRole

/-- The instances whose inputs a source feeds, among those that drive the target. -/
def identitiesBySource (outputPorts : List ℤ) : OrderedMap ℤ (List String) :=
  outputPorts.foldl (fun m outputPort =>
    let scope := signalScope (session.design.signalName outputPort)
    if scope = "" then m
    else (session.index.portsInScope scope 1).foldl (fun m inputPort =>
      (session.design.portConnections inputPort).foldl (fun m connection =>
        let source := connection.other inputPort
        if source < 0 then m
        else m.alter source fun known => some (setInsert (known.getD []) scope)) m) m) .empty

/-- The one instance that a source stands for, if there is just one. -/
def identityOf (identities : OrderedMap ℤ (List String)) (driver : DriverRecord) :
    Option String :=
  match identities.find? driver.srcSignal with
  | some [identity] => some identity
  | _ => none

/-- Two records come from the same place of the source with the same predicate. -/
def sameStatement (a b : DriverRecord) : Bool :=
  a.file = b.file ∧ a.line = b.line ∧ a.kind = b.kind ∧
    a.activationPredicate = b.activationPredicate

/-- `annotate_output_instance_identities`: the records of a statement are told apart when each
of them belongs to one instance and there are several instances. -/
def annotateOutputInstanceIdentities (target : ℤ) (drivers : List DriverRecord) :
    List DriverRecord :=
  let outputPorts := session.index.portsConnectedTo target 2
  if outputPorts.length < 2 then drivers
  else
    let identities := session.identitiesBySource outputPorts
    drivers.map fun driver =>
      let statement := (drivers.filter (sameStatement driver)).map (identityOf identities)
      if statement.all Option.isSome ∧ 2 ≤ (sortUnique (statement.filterMap id)).length then
        { driver with statementIdentity := (identityOf identities driver).getD "" }
      else driver

/-! ### Aliases -/

/-- `predicate_waveform_signal`: the signal itself, or the only alias of it that the waveform
contains. -/
def predicateWaveformSignal (signal : String) : String :=
  if session.isSampleable signal then signal
  else
    let index := session.design.resolve signal
    if index < 0 then ""
    else
      let width := session.design.signalWidth index
      let candidates := (session.index.connectedSignalsOf index).filterMap fun other =>
        let candidate := session.design.signalName other
        if other = index ∨ session.design.signalWidth other ≠ width ∨ candidate = "" ∨
            session.isSampleable candidate = false then none
        else some candidate
      match sortUnique candidates with
      | [candidate] => candidate
      | _ => ""

/-- `map_driver_waveform_aliases`. -/
def mapDriverWaveformAliases (drivers : List DriverRecord) : List DriverRecord :=
  drivers.map fun driver =>
    let source := session.design.signalName driver.srcSignal
    let waveformSignal := session.predicateWaveformSignal source
    if driver.srcSignal < 0 ∨ source = "" ∨ waveformSignal = "" ∨ waveformSignal = source then
      driver
    else
      let waveformIndex := session.design.resolve waveformSignal
      if waveformIndex ≥ 0 then { driver with srcSignal := waveformIndex } else driver

/-! ### Compiler temporaries -/

/-- `is_transparent_expression_signal`: a compiler temporary, or a signal outside the waveform
that only combinational assignments drive. -/
def isTransparentExpressionSignal (source : ℤ) : Bool :=
  let sourceName := session.design.signalName source
  if isVerilatorExpressionTemporary sourceName then true
  else if sourceName = "" ∨ session.isSampleable sourceName then false
  else
    let drivers := session.driversFor source
    drivers.all (fun driver =>
      (driver.kind = "cont_assign" ∨ driver.kind = "proc_assign") ∧
        driver.dependencyRole ≠ "self_rhs" ∧ hasStart driver.dependencyRole "event_" = false) ∧
      drivers.any fun driver => driver.dependencyRole = "rhs"

/-- The dependencies through which the recursion goes on from a temporary. -/
def temporaryDependencies (parentControls : List ℤ) (source : ℤ) : List DriverRecord :=
  let drivers := session.driversFor source
  let targetLoopIndices := (drivers.filter fun driver =>
    driver.dependencyRole = "target_loop_index" ∧ 0 ≤ driver.srcSignal).map (·.srcSignal)
  drivers.filter fun driver =>
    ¬ (driver.srcSignal < 0 ∨
      (driver.dependencyRole ≠ "rhs" ∧ driver.dependencyRole ≠ "control") ∨
      driver.srcSignal ∈ targetLoopIndices ∨
      (driver.dependencyRole = "control" ∧ driver.srcSignal ∈ parentControls))

/-- What the recursion carries: the temporaries it has visited and the sources it has
found. -/
structure Collected where
  visited : List ℤ := []
  sources : List ℤ := []

/-- A source is found. -/
def Collected.found (acc : Collected) (source : ℤ) : Collected :=
  { acc with sources := setInsert acc.sources source }

/-- A temporary is visited. -/
def Collected.visit (acc : Collected) (source : ℤ) : Collected :=
  { acc with visited := setInsert acc.visited source }

/-- One call of `collect_expression_sources`, given the calls it makes; without them it must
not make any. -/
def collectStep (parentControls : List ℤ) (source : ℤ) (acc : Collected)
    (calls : Option (Collected → DriverRecord → Option Collected)) : Option Collected :=
  if session.isTransparentExpressionSignal source = false then
    some (if source ≥ 0 then acc.found source else acc)
  else if source ∈ acc.visited then some (acc.found source)
  else
    calls.bind fun call =>
      let dependencies := session.temporaryDependencies parentControls source
      if dependencies = [] then some ((acc.visit source).found source)
      else dependencies.foldlM call (acc.visit source)

/-- `collect_expression_sources`. The first argument bounds the depth of the recursion. -/
def collectExpressionSources (parentControls : List ℤ) :
    ℕ → ℤ → Collected → Option Collected
  | 0, source, acc => session.collectStep parentControls source acc none
  | fuel + 1, source, acc => session.collectStep parentControls source acc
      (some fun acc driver => collectExpressionSources parentControls fuel driver.srcSignal acc)

/-- The sources that stand behind the source of a record. -/
def expressionSources (parentControls : List ℤ) (source : ℤ) : List ℤ :=
  ((session.collectExpressionSources parentControls session.design.signals.length source
    {}).getD {}).sources

/-- `expand_expression_temporaries`. -/
def expandExpressionTemporaries (drivers : List DriverRecord) : List DriverRecord :=
  let parentControls := (drivers.filter fun driver =>
    driver.dependencyRole = "control" ∧ 0 ≤ driver.srcSignal).map (·.srcSignal)
  session.mapDriverWaveformAliases <| drivers.flatMap fun driver =>
    if driver.dependencyRole ≠ "rhs" ∨
        session.isTransparentExpressionSignal driver.srcSignal = false then [driver]
    else
      let sources := session.expressionSources parentControls driver.srcSignal
      if sources = [driver.srcSignal] then [driver]
      else sources.map fun source => { driver with srcSignal := source }

end Session

/-! ### The recursion through temporaries ends -/

section Termination

variable {session : Session}

lemma mem_setInsert {α : Type} [LinearOrder α] {s : List α} {x y : α} :
    y ∈ setInsert s x ↔ y = x ∨ y ∈ s := by
  unfold setInsert
  split_ifs with h
  · exact ⟨Or.inr, fun hy => hy.elim (fun hyx => hyx ▸ h) id⟩
  · rw [List.mem_orderedInsert]

/-- A transparent signal is a signal of the table. -/
lemma isTransparent_lt {source : ℤ} (h : session.isTransparentExpressionSignal source = true) :
    0 ≤ source ∧ source.toNat < session.design.signals.length := by
  have hname : session.design.signalName source ≠ "" := by
    intro hname
    unfold Session.isTransparentExpressionSignal at h
    rw [hname] at h
    simp only [show isVerilatorExpressionTemporary "" = false from by decide +kernel] at h
    simp at h
  unfold Design.signalName Design.factsOf at hname
  split_ifs at hname with hneg
  · exact absurd rfl hname
  · refine ⟨not_lt.1 hneg, ?_⟩
    by_contra hge
    rw [List.getD_eq_getElem?_getD, List.getElem?_eq_none (not_lt.1 hge)] at hname
    exact absurd rfl hname

/-- The visited temporaries are distinct signals of the table. -/
def VisitedOk (n : ℕ) (visited : List ℤ) : Prop :=
  visited.Nodup ∧ ∀ x ∈ visited, 0 ≤ x ∧ x.toNat < n

lemma VisitedOk.length_le {n : ℕ} {visited : List ℤ} (h : VisitedOk n visited) :
    visited.length ≤ n := by
  have hinj : (visited.map Int.toNat).Nodup := h.1.map_on fun x hx y hy hxy => by
    have := (h.2 x hx).1
    have := (h.2 y hy).1
    omega
  have hsub : visited.map Int.toNat ⊆ List.range n := by
    intro k hk
    obtain ⟨x, hx, rfl⟩ := List.mem_map.1 hk
    exact List.mem_range.2 (h.2 x hx).2
  simpa using (hinj.subperm hsub).length_le

lemma VisitedOk.insert {n : ℕ} {visited : List ℤ} {x : ℤ} (h : VisitedOk n visited)
    (hx : x ∉ visited) (hlt : 0 ≤ x ∧ x.toNat < n) :
    VisitedOk n (setInsert visited x) ∧ (setInsert visited x).length = visited.length + 1 := by
  have hperm : (setInsert visited x).Perm (x :: visited) := by
    unfold setInsert
    rw [if_neg hx]
    exact List.perm_orderedInsert _ _ _
  refine ⟨⟨hperm.nodup_iff.2 (List.nodup_cons.2 ⟨hx, h.1⟩), fun y hy => ?_⟩, hperm.length_eq⟩
  rcases mem_setInsert.1 hy with rfl | hy
  · exact hlt
  · exact h.2 y hy

/-- The walk has a result that keeps the visited temporaries and adds to them. -/
def Ends (session : Session) (n : ℕ) (out : Option Session.Collected) : Prop :=
  ∃ acc, out = some acc ∧ VisitedOk session.design.signals.length acc.visited ∧
    n ≤ acc.visited.length

/-- A sequence of walks ends when each of them does. -/
lemma ends_foldlM {n : ℕ} {walk : Session.Collected → DriverRecord → Option Session.Collected}
    (hwalk : ∀ acc d, VisitedOk session.design.signals.length acc.visited →
      n ≤ acc.visited.length → Ends session n (walk acc d))
    (l : List DriverRecord) {acc : Session.Collected}
    (hok : VisitedOk session.design.signals.length acc.visited) (hn : n ≤ acc.visited.length) :
    Ends session n (l.foldlM walk acc) := by
  induction l generalizing acc with
  | nil => exact ⟨acc, rfl, hok, hn⟩
  | cons d l ih =>
      obtain ⟨mid, hmid, hmidok, hmidn⟩ := hwalk acc d hok hn
      rw [List.foldlM_cons, hmid]
      exact ih hmidok hmidn

/-- One call ends if a fresh temporary is left to visit only when the calls it makes end. -/
lemma ends_collectStep (parentControls : List ℤ) (source : ℤ) {acc : Session.Collected}
    {calls : Option (Session.Collected → DriverRecord → Option Session.Collected)}
    (hok : VisitedOk session.design.signals.length acc.visited)
    (hcalls : acc.visited.length < session.design.signals.length → ∃ call, calls = some call ∧
      ∀ acc' d, VisitedOk session.design.signals.length acc'.visited →
        acc.visited.length < acc'.visited.length →
          Ends session acc'.visited.length (call acc' d)) :
    Ends session acc.visited.length (session.collectStep parentControls source acc calls) := by
  unfold Session.collectStep
  by_cases h1 : session.isTransparentExpressionSignal source = false
  · rw [if_pos h1]
    split_ifs
    · exact ⟨acc.found source, rfl, hok, le_rfl⟩
    · exact ⟨acc, rfl, hok, le_rfl⟩
  rw [if_neg h1]
  by_cases h2 : source ∈ acc.visited
  · rw [if_pos h2]
    exact ⟨acc.found source, rfl, hok, le_rfl⟩
  rw [if_neg h2]
  obtain ⟨hins, hlen⟩ := hok.insert h2 (isTransparent_lt (by simpa using h1))
  have hle := hins.length_le
  obtain ⟨call, rfl, hcall⟩ := hcalls (by omega)
  have hvisit : (acc.visit source).visited.length = acc.visited.length + 1 := hlen
  rw [Option.bind_some]
  dsimp only
  split_ifs with h3
  · exact ⟨(acc.visit source).found source, rfl, hins,
      (Nat.le_succ _).trans_eq hvisit.symm⟩
  · obtain ⟨out, hout, houtok, houtlen⟩ := ends_foldlM (n := acc.visited.length + 1)
      (fun acc' d hok' hn => by
        obtain ⟨o, ho, hook, hon⟩ := hcall acc' d hok' hn
        exact ⟨o, ho, hook, hn.trans hon⟩)
      (session.temporaryDependencies parentControls source) hins hvisit.ge
    exact ⟨out, hout, houtok, by omega⟩

/-- The recursion ends when there is fuel for every signal that is not yet visited. -/
lemma ends_collectExpressionSources (parentControls : List ℤ) (fuel : ℕ) (source : ℤ)
    {acc : Session.Collected} (hok : VisitedOk session.design.signals.length acc.visited)
    (hfuel : session.design.signals.length ≤ acc.visited.length + fuel) :
    Ends session acc.visited.length
      (session.collectExpressionSources parentControls fuel source acc) := by
  induction fuel generalizing source acc with
  | zero => exact ends_collectStep parentControls source hok fun h => by omega
  | succ fuel ih =>
      refine ends_collectStep parentControls source hok fun _ => ⟨_, rfl, fun acc' d hok' hlt => ?_⟩
      exact ih d.srcSignal hok' (by omega)

/-- `collect_expression_sources` comes to its end on every driver graph. -/
lemma collectExpressionSources_isSome (parentControls : List ℤ) (source : ℤ) :
    (session.collectExpressionSources parentControls session.design.signals.length source
      {}).isSome = true := by
  obtain ⟨out, hout, -⟩ := @ends_collectExpressionSources session parentControls
    session.design.signals.length source {} ⟨List.nodup_nil, by simp⟩ (by simp)
  rw [hout]
  rfl

end Termination

end XdebugFst.Trace
