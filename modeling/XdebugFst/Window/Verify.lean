import XdebugFst.Core.LogicValue

/-!
# `window.verify`

A `window.verify` request lists conditions, each with a mode, and asks for a verdict
over the selected clock edges of a time window.  The handler walks over the edges,
evaluates every condition at each of them, counts passes, failures and unknown
samples per condition, and stops early in three situations: the sample budget is
used up, an `always` or `never` condition is violated, or every `eventually`
condition has been seen.  The verdict is then read off the counters.

This file is the scan and the verdict as `WindowVerifyHandler::run` computes them.
Evaluating an expression and rendering the signals of a finding stay parameters: the
scan only needs the `LogicValue` of a condition at an edge.
-/

namespace XdebugFst.Window

/-- The kind of a clock edge. -/
inductive EdgeKind where
  | posedge
  | negedge
deriving DecidableEq, Repr

/-- The edges that a request selects. -/
inductive EdgeSelect where
  | posedge
  | negedge
  | dual
deriving DecidableEq, Repr

/-- `EdgeRecord`: one edge of the clock. -/
structure EdgeRecord where
  timeIdx : ℕ
  time : ℕ
  kind : EdgeKind
deriving DecidableEq, Repr

/-- `selected_edge`. -/
def selectedEdge (edge : EdgeSelect) (rising falling : Bool) : Bool :=
  match edge with
  | .dual => rising || falling
  | .posedge => rising
  | .negedge => falling

/-- The mode of a condition; a request that omits it means `always`. -/
inductive Mode where
  | always
  | never
  | eventually
deriving DecidableEq, Repr, Inhabited

/-- A parsed condition of a request. -/
structure Condition (ε : Type) where
  expr : String
  mode : Mode := .always
  root : ε
deriving DecidableEq, Repr

/-- `truthy`: a known value with a one in it. -/
def truthy (value : LogicValue) : Bool :=
  value.known && value.bits.toList.contains '1'

/-- The `State` of one condition during the scan: the parsed expression and how many
samples passed, failed or were unknown so far. -/
structure State (ε : Type) extends Condition ε where
  passed : ℕ := 0
  failed : ℕ := 0
  unknown : ℕ := 0
deriving DecidableEq, Repr

/-- The status of a finding. -/
inductive FindingStatus where
  | unknown
  | fail
deriving DecidableEq, Repr

/-- One row of evidence: a condition that did not pass at an edge. -/
structure Finding (ρ : Type) where
  time : ℕ
  expr : String
  mode : Mode
  status : FindingStatus
  signals : ρ
deriving DecidableEq, Repr

/-- What the scan is given besides the conditions and the edges. -/
structure Request (ε ρ : Type) where
  /-- `eval_expression` at the observation point of the request. -/
  eval : ε → ℕ → LogicValue
  /-- `rendered_values` at a time index. -/
  renderedValues : ℕ → ρ
  edge : EdgeSelect
  beginTime : ℕ
  endTime : ℕ
  /-- `line_limit`, the number of findings returned. -/
  evidenceLimit : ℕ
  /-- `max_samples`. -/
  sampleLimit : ℕ

variable {ε ρ : Type}

/-- The accumulators of the scan. -/
structure Scan (ε ρ : Type) where
  states : List (State ε)
  samples : ℕ := 0
  findingCount : ℕ := 0
  findings : List (Finding ρ) := []
  truncated : Bool := false
  decisive : Bool := false
  haveSample : Bool := false
  firstSample : ℕ := 0
  lastSample : ℕ := 0

/-- What one pass over the conditions at one edge has found so far. -/
structure Pass (ε ρ : Type) where
  /-- The conditions already evaluated at this edge, in order. -/
  done : List (State ε) := []
  findingCount : ℕ
  findings : List (Finding ρ)
  decisive : Bool := false
  hasEventually : Bool := false
  allEventuallySeen : Bool := true

/-- The value `pass` of a condition: a `never` condition inverts the raw truth. -/
def passes (mode : Mode) (value : LogicValue) : Bool :=
  match mode with
  | .never => !truthy value
  | _ => truthy value

/-- The counters of a condition after one more sample. -/
def State.count (state : State ε) (value : LogicValue) : State ε :=
  if !value.known then { state with unknown := state.unknown + 1 }
  else if passes state.mode value then { state with passed := state.passed + 1 }
  else { state with failed := state.failed + 1 }

/-- The inner loop: every condition is evaluated at the edge, in order, until an
`always` or `never` condition is unknown or does not pass.  The conditions behind that
one keep their counters. -/
def passConditions (r : Request ε ρ) (edge : EdgeRecord) :
    List (State ε) → Pass ε ρ → Pass ε ρ
  | [], p => p
  | state :: rest, p =>
      let value := r.eval state.root edge.timeIdx
      let unknown := !value.known
      let pass := passes state.mode value
      let counted := state.count value
      let bad := unknown || !pass
      let p : Pass ε ρ := if bad then
          { p with
            findingCount := p.findingCount + 1
            findings := if p.findings.length < r.evidenceLimit then
                p.findings ++ [{ time := edge.time, expr := state.expr, mode := state.mode,
                                 status := if unknown then .unknown else .fail,
                                 signals := r.renderedValues edge.timeIdx }]
              else p.findings }
        else p
      let p : Pass ε ρ := { p with done := p.done ++ [counted] }
      match state.mode with
      | .eventually =>
          passConditions r edge rest
            { p with
              hasEventually := true
              allEventuallySeen := p.allEventuallySeen && counted.passed != 0 }
      | _ => if bad then { p with done := p.done ++ rest, decisive := true }
             else passConditions r edge rest p

/-- Whether the scan takes a sample at an edge: the edge lies in the window and is of a
selected kind. -/
def selects (r : Request ε ρ) (edge : EdgeRecord) : Bool :=
  !(edge.time < r.beginTime || edge.time > r.endTime) &&
    selectedEdge r.edge (edge.kind = .posedge) (!(edge.kind = .posedge))

/-- The outer loop over the clock edges. -/
def scanEdges (r : Request ε ρ) : List EdgeRecord → Scan ε ρ → Scan ε ρ
  | [], s => s
  | edge :: rest, s =>
      if !selects r edge then scanEdges r rest s
      else if s.samples ≥ r.sampleLimit then { s with truncated := true }
      else
        let p := passConditions r edge s.states
          { findingCount := s.findingCount, findings := s.findings }
        let s : Scan ε ρ :=
          { s with
            states := p.done
            samples := s.samples + 1
            findingCount := p.findingCount
            findings := p.findings
            haveSample := true
            firstSample := if s.haveSample then s.firstSample else edge.time
            lastSample := edge.time }
        if p.decisive then { s with decisive := true }
        else if p.hasEventually && p.allEventuallySeen then { s with decisive := true }
        else scanEdges r rest s

/-- The value `passed` of a condition in `condition_results`. -/
def State.ok (state : State ε) : Bool :=
  match state.mode with
  | .eventually => 0 < state.passed
  | _ => state.failed = 0 && state.unknown = 0

/-- The verdict of a response. -/
inductive Verdict where
  | inconclusive
  | pass
  | fail
deriving DecidableEq, Repr

/-- Why the scan stopped. -/
inductive StopReason where
  | decisiveResult
  | maxSamples
  | windowEnd
deriving DecidableEq, Repr

/-- The part of the response that depends on the scan: the summary, the condition
results (the states with their counters) and the findings. -/
structure Response (ε ρ : Type) where
  verdict : Verdict
  /-- `null` when the analysis is not complete. -/
  allPassed : Option Bool
  sampleCount : ℕ
  failedSamples : ℕ
  unknownSamples : ℕ
  /-- `scanned_range`: the first and the last sampled time. -/
  scannedRange : Option (ℕ × ℕ)
  stopReason : StopReason
  scanComplete : Bool
  analysisComplete : Bool
  responseTruncated : Bool
  totalCount : ℕ
  returnedCount : ℕ
  conditions : List (State ε × Bool)
  findings : List (Finding ρ)
deriving DecidableEq

/-- The response computed from the accumulators of a finished scan. -/
def Scan.response (s : Scan ε ρ) : Response ε ρ :=
  let allPassed := s.states.all State.ok
  let scanComplete := !s.truncated
  let analysisComplete := s.decisive || scanComplete
  { verdict := if !analysisComplete then .inconclusive else if allPassed then .pass else .fail
    allPassed := if analysisComplete then some allPassed else none
    sampleCount := s.samples
    failedSamples := (s.states.map State.failed).sum
    unknownSamples := (s.states.map State.unknown).sum
    scannedRange := if s.haveSample then some (s.firstSample, s.lastSample) else none
    stopReason := if s.decisive then .decisiveResult
      else if s.truncated then .maxSamples else .windowEnd
    scanComplete := scanComplete
    analysisComplete := analysisComplete
    responseTruncated := s.findings.length < s.findingCount
    totalCount := s.findingCount
    returnedCount := s.findings.length
    conditions := s.states.map fun state => (state, state.ok)
    findings := s.findings }

/-- The state of a condition before the first sample. -/
def Condition.fresh (c : Condition ε) : State ε := { toCondition := c }

/-- The scan of a request from fresh counters. -/
def scan (r : Request ε ρ) (conditions : List (Condition ε)) (edges : List EdgeRecord) :
    Scan ε ρ :=
  scanEdges r edges { states := conditions.map Condition.fresh }

/-- `WindowVerifyHandler::run`, from the parsed conditions and the clock edges on. -/
def windowVerify (r : Request ε ρ) (conditions : List (Condition ε))
    (edges : List EdgeRecord) : Response ε ρ :=
  (scan r conditions edges).response

end XdebugFst.Window
