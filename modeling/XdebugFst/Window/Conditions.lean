import Mathlib
import XdebugFst.Lists.Samples
import XdebugFst.Event.Bind
import XdebugFst.Stream.Scan
import XdebugFst.Window.Verify

/-!
# Conditions at one time

`verify.conditions` evaluates the conditions of a request at a time, which need not be a time of the
waveform. The handler rounds the time down to an index of the time table and then applies the sample
point to the index. With the point before, a change at the index is not seen, although the requested
time may be behind it.

`samplesRequestedTime_iff` says for which waveforms, times and points the conditions see the changes
before the requested time nevertheless, or up to it with the other points. A signal may have any
number of deltas at a time here.
-/

namespace XdebugFst.Window

open Lib Lib.History Waveform XdebugFst.Lists XdebugFst.Expr Event Axi XdebugFst.Stream

/-! ### The waveform -/

/-- A loaded signal and the kind of its values. -/
structure LoadedSignal (table : TimeTable) extends WaveSignal table where
  encoding : ValueKind

/-- A waveform whose signals have any number of deltas at a time. -/
structure Wave where
  table : TimeTable
  /-- The reference of a signal, 0 when there is none. -/
  findSignal : String → ℕ
  /-- The data of a reference; there is none when it cannot be loaded. -/
  signal : ℕ → Option (LoadedSignal table)

/-- The signal of a path. -/
def Wave.signalOf (wf : Wave) (path : String) : Option (LoadedSignal wf.table) :=
  if wf.findSignal path = 0 then none else wf.signal (wf.findSignal path)

/-- What `eval_expression` makes of the text that a signal is sampled with, or of a select of it. -/
def valueOfText (text : Option String) (width : ℕ) (range : Option (ℤ × ℤ)) : LogicValue :=
  match text, range with
  | none, none => { bits := "x", known := false, hasX := true }
  | none, some (msb, lsb) =>
      { bits := String.ofList (List.replicate (msb - lsb + 1).toNat 'x'), known := false, hasX := true }
  | some bits, none => logicValueFromBits bits width
  | some bits, some (msb, lsb) =>
      let (out, outWidth) := sliceBits bits.toList msb lsb
      { logicValueFromBits bits width with bits := String.ofList out, width := outWidth }

section Environments

variable (wf : Wave)

/-- The value of a path, when the text of a signal is read with `read`. -/
def pathValue (read : LoadedSignal wf.table → Option String) (path : String)
    (range : Option (ℤ × ℤ)) : LogicValue :=
  if wf.findSignal path = 0 then { bits := "x", known := false, hasX := true }
  else
    match wf.signal (wf.findSignal path) with
    | none => valueOfText none 0 range
    | some signal => valueOfText (read signal) signal.width range

/-- The signals of a waveform, read with `read`. -/
def environmentOf (read : LoadedSignal wf.table → Option String) : Environment where
  value path := pathValue wf read path none
  select path msb lsb := pathValue wf read path (some (msb, lsb))

/-- What `eval_expression` reads at a time index. -/
def sampledEnvironment (timeIdx : ℕ) (point : ObservationPoint) : Environment :=
  environmentOf wf fun signal => sampleText signal.changes timeIdx point

end Environments

/-! ### The action -/

/-- A condition of a request. -/
structure ConditionSource where
  name : Option String := none
  expr : String
  deriving DecidableEq, Repr

/-- The arguments of a request, with the time in the units of the waveform. -/
structure ConditionsRequest where
  aliases : OrderedMap String String
  clock : String
  edge : String := "negedge"
  samplePoint : String := ""
  time : ℕ
  conditions : List ConditionSource

/-- `parse_sampling`. -/
def parseSampling (edge : String) : Except ActionError EdgeSelect :=
  if edge = "posedge" then .ok .posedge
  else if edge = "negedge" then .ok .negedge
  else if edge = "dual" then .ok .dual
  else .error ⟨"INVALID_FIELD", "args.edge must be posedge, negedge, or dual"⟩

/-- `observation_point`. -/
def observationPoint (edge : EdgeSelect) (requestedPoint : String) : ObservationPoint :=
  if edge = .negedge then .raw else if requestedPoint = "after" then .after else .before

/-- `bind_aliases`. -/
def bindAliases (aliases : OrderedMap String String) : ExprNode → Except String ExprNode
  | .signal name => do return .signal (← bindName name)
  | .slice name msb lsb => do return .slice (← bindName name) msb lsb
  | .const value => .ok (.const value)
  | .unary op right => do return .unary op (← bindAliases aliases right)
  | .binary op left right => do
      let left ← bindAliases aliases left
      let right ← bindAliases aliases right
      return .binary op left right
where
  bindName (name : String) : Except String String :=
    if name.toList.contains '.' then
      .error ("expression operands must be aliases, not direct signal paths: " ++ name ++
        "; put real signal paths in args.signals")
    else
      match aliases.find? name with
      | none => .error ("condition references undeclared signal alias: " ++ name)
      | some path => .ok path

/-- `prepare_inputs`, for one alias. -/
def prepareInput (wf : Wave) (path : String) : Except ActionError Unit :=
  if wf.findSignal path = 0 then
    .error ⟨"SIGNAL_NOT_FOUND", "signal not found in waveform: " ++ path⟩
  else
    match wf.signal (wf.findSignal path) with
    | none => .error ⟨"VALUE_NOT_AVAILABLE", "failed to load waveform signal: " ++ path⟩
    | some signal =>
        if signal.encoding ≠ .bitVector then
          .error ⟨"INVALID_SIGNAL_TYPE",
            "condition operands must resolve to bit-vector signals: " ++ path⟩
        else .ok ()

/-- A condition whose expression is parsed and bound. -/
structure ParsedCondition where
  source : ConditionSource
  root : ExprNode

/-- Parse a condition, with the aliases that it refers to. -/
def parseCondition (aliases : OrderedMap String String) (source : ConditionSource) :
    Except ActionError (ParsedCondition × List String) :=
  match parseExpression source.expr with
  | .error message => .error ⟨"PARSE_ERROR", message⟩
  | .ok root =>
      match bindAliases aliases root with
      | .error message => .error ⟨"INVALID_FIELD", message⟩
      | .ok bound => .ok (⟨source, bound⟩, expressionSignals root)

/-- The status of a check. -/
inductive CheckStatus
  | unknown | pass | fail
  deriving DecidableEq, Repr

/-- A check of the response. -/
structure ConditionCheck where
  time : ℕ
  source : ConditionSource
  status : CheckStatus
  value : LogicValue
  deriving DecidableEq, Repr

/-- A condition, checked in an environment. -/
def checkCondition (env : Environment) (time : ℕ) (item : ParsedCondition) : ConditionCheck :=
  let evaluated := evalIn env item.root
  { time
    source := item.source
    status := if !evaluated.known then .unknown else if truthy evaluated then .pass else .fail
    value := evaluated }

/-- `clock_edges`. -/
def Wave.clockEdges (wf : Wave) (clock : String) : List EdgeRecord :=
  let changes := ((wf.signalOf clock).map fun signal => signal.changes).getD []
  (dedup id none (changes.map Change.timeIdx)).filterMap fun ti =>
    match sampleText changes ti .before, sampleText changes ti .raw with
    | some before, some raw =>
        let rising := isRisingEdge before raw
        if !rising && !isFallingEdge before raw then none
        else some ⟨ti, wf.table.timeAt ti, if rising then .posedge else .negedge⟩
    | _, _ => none

/-- `clock_context`. -/
structure ClockContext where
  effectiveSamplePoint : Option String
  samplePointApplied : Bool
  samplePointIgnoredForNegedge : Bool
  clockEdgeKind : Option EdgeKind
  requestedTargetEdgeHit : Bool
  previousSampleTime : Option ℕ
  nextSampleTime : Option ℕ

/-- An edge of a kind is selected. -/
def targets (edge : EdgeSelect) (kind : EdgeKind) : Bool :=
  selectedEdge edge (kind = .posedge) (kind = .negedge)

/-- `clock_context`, from the edges of the clock. -/
def clockContext (edges : List EdgeRecord) (time : ℕ) (edge : EdgeSelect)
    (requestedPoint : String) : ClockContext :=
  let selected := edges.filter fun item => targets edge item.kind
  let exactKind := ((edges.filter fun item => item.time = time).getLast?).map EdgeRecord.kind
  { effectiveSamplePoint :=
      if edge = .negedge then none
      else some (if requestedPoint = "" then "before" else requestedPoint)
    samplePointApplied := edge ≠ .negedge
    samplePointIgnoredForNegedge := edge = .negedge && requestedPoint ≠ ""
    clockEdgeKind := exactKind
    requestedTargetEdgeHit := exactKind.any (targets edge)
    previousSampleTime := ((selected.filter fun item => item.time < time).getLast?).map EdgeRecord.time
    nextSampleTime := ((selected.filter fun item => item.time > time).head?).map EdgeRecord.time }

/-- The response. -/
structure ConditionsReport where
  checks : List ConditionCheck
  passed : ℕ
  failed : ℕ
  unknown : ℕ
  allPassed : Bool
  clockContext : ClockContext

section Handler

variable (wf : Wave) (r : ConditionsRequest)

/-- The clock is in the waveform. -/
def requireClock : Except ActionError Unit :=
  if wf.findSignal r.clock = 0 then
    .error ⟨"CLOCK_NOT_FOUND", "clock signal not found: " ++ r.clock⟩
  else .ok ()

/-- Every alias is used by one of the conditions. -/
def requireUsed (referenced : List String) : Except ActionError Unit :=
  match r.aliases.keys.find? fun name => !referenced.contains name with
  | some name =>
      .error ⟨"INVALID_FIELD", "signal alias is unused by every condition: " ++ name⟩
  | none => .ok ()

/-- The checks of a request, with the selected edge and the parsed conditions. -/
def checkRequest : Except ActionError (EdgeSelect × List ParsedCondition) := do
  let edge ← parseSampling r.edge
  r.aliases.values.forM (prepareInput wf)
  requireClock wf r
  let parsed ← r.conditions.mapM (parseCondition r.aliases)
  requireUsed r (parsed.flatMap Prod.snd)
  return (edge, parsed.map Prod.fst)

/-- The response to conditions that are evaluated in an environment. -/
def conditionsReport (edge : EdgeSelect) (env : Environment) (parsed : List ParsedCondition) :
    ConditionsReport :=
  let checks := parsed.map (checkCondition env r.time)
  let failed := checks.countP fun check => check.status = .fail
  let unknown := checks.countP fun check => check.status = .unknown
  { checks
    passed := checks.countP fun check => check.status = .pass
    failed
    unknown
    allPassed := failed = 0 && unknown = 0
    clockContext := clockContext (wf.clockEdges r.clock) r.time edge r.samplePoint }

/-- `VerifyConditionsHandler::run`, with the environment in which conditions are evaluated for a
point. -/
def respondIn (env : ObservationPoint → Environment) : Except ActionError ConditionsReport := do
  let (edge, parsed) ← checkRequest wf r
  return conditionsReport wf r edge (env (observationPoint edge r.samplePoint)) parsed

/-- `VerifyConditionsHandler::run`. -/
def verifyConditions : Except ActionError ConditionsReport :=
  respondIn wf r (sampledEnvironment wf (wf.table.timeIdxOf r.time))

end Handler

/-! ### What the conditions should see -/

section Statements

/-- A change is before a time, or up to it for the points that see the time itself. -/
def seesChange (table : TimeTable) (t : ℕ) (point : ObservationPoint) (c : Change) : Bool :=
  match point with
  | .before => table.timeAt c.timeIdx < t
  | _ => table.timeAt c.timeIdx ≤ t

variable {table : TimeTable} (signal : WaveSignal table) (t : ℕ) (point : ObservationPoint)

/-- The text of the last change that is to be seen at a time. -/
def requestedText : Option String :=
  (lastWhere (seesChange table t point) signal.changes).map Change.text

/-- Counting deltas in 16 bits does not matter for the last time up to an index at which the signal
changes: the delta that counts as the last one has the text of the last one. -/
def CountsLast (cs : List Change) (timeIdx : ℕ) : Prop :=
  ∀ last ∈ lastWhere (fun c => c.timeIdx ≤ timeIdx) cs,
    (countedLast (deltasAt cs last.timeIdx)).map Change.text = some last.text

/-- Rounding a time down does no harm to a sample. With the point before, a change at the time that
is rounded to does none if it is the requested time itself, or if it leaves the text as it was. -/
def HarmlessRounding : Prop :=
  match point with
  | .before =>
      if deltasAt signal.changes (table.timeIdxOf t) = [] then
        CountsLast signal.changes (table.timeIdxOf t)
      else if t ∈ table.times then
        (∀ c ∈ signal.changes, table.timeIdxOf t ≤ c.timeIdx) ∨
          ¬ 2 ^ 16 ∣ (deltasAt signal.changes (table.timeIdxOf t)).length
      else
        ¬ 2 ^ 16 ∣ (deltasAt signal.changes (table.timeIdxOf t)).length ∧
          (lastWhere (fun c => c.timeIdx < table.timeIdxOf t) signal.changes).map Change.text =
            (deltasAt signal.changes (table.timeIdxOf t)).getLast?.map Change.text
  | _ => CountsLast signal.changes (table.timeIdxOf t)

end Statements

section Requests

variable (wf : Wave) (r : ConditionsRequest) (edge : EdgeSelect)

/-- The signals of the request, each with the text that is to be seen at the requested time. -/
def requestedEnvironment (point : ObservationPoint) : Environment :=
  environmentOf wf fun signal => requestedText signal.toWaveSignal r.time point

/-- The conditions see the requested time: every signal is sampled with the text of the last change
that is to be seen, and the response is the one for these texts. -/
structure SamplesRequestedTime : Prop where
  sample : ∀ path ∈ r.aliases.values, ∀ signal, wf.signalOf path = some signal →
    sampleText signal.changes (wf.table.timeIdxOf r.time) (observationPoint edge r.samplePoint) =
      requestedText signal.toWaveSignal r.time (observationPoint edge r.samplePoint)
  response : verifyConditions wf r = respondIn wf r (requestedEnvironment wf r)

end Requests

/-! ### Times and indices -/

section Rounding

variable {table : TimeTable} {signal : WaveSignal table} {t : ℕ} {point : ObservationPoint}

/-- Before a time of the table are the indices before its own. -/
lemma timeAt_lt_iff_of_mem (h : t ∈ table.times) {i : ℕ} (hi : i < table.times.length) :
    table.timeAt i < t ↔ i < table.timeIdxOf t := by
  obtain ⟨k, hk, rfl⟩ := List.getElem_of_mem h
  rw [← TimeTable.timeAt_eq hk, TimeTable.timeIdxOf_timeAt hk]
  refine ⟨fun hlt => ?_, fun hlt => TimeTable.timeAt_lt hlt hk⟩
  by_contra hge
  exact absurd hlt (not_lt.2 (TimeTable.timeAt_le (not_lt.1 hge) hi))

/-- Before any other time are the indices up to the one it is rounded to. -/
lemma timeAt_lt_iff_of_notMem (ht : table.timeAt 0 ≤ t) (h : t ∉ table.times) {i : ℕ}
    (hi : i < table.times.length) : table.timeAt i < t ↔ i ≤ table.timeIdxOf t := by
  have hne : table.timeAt i ≠ t := by
    rintro rfl
    rw [TimeTable.timeAt_eq hi] at h
    exact h (List.getElem_mem hi)
  rw [← TimeTable.timeAt_le_iff ht hi]
  exact ⟨le_of_lt, fun hle => lt_of_le_of_ne hle hne⟩

/-- The points that see the requested time see the changes up to the index. -/
lemma requestedText_of_ne (ht : table.timeAt 0 ≤ t) (hpoint : point ≠ .before) :
    requestedText signal t point =
      (lastWhere (fun c => c.timeIdx ≤ table.timeIdxOf t) signal.changes).map Change.text := by
  rw [requestedText]
  congr 1
  refine lastWhere_congr fun c hc => ?_
  have hiff := TimeTable.timeAt_le_iff ht (signal.inTable c hc)
  cases point with
  | before => exact absurd rfl hpoint
  | raw => simpa [seesChange] using hiff
  | after => simpa [seesChange] using hiff

lemma requestedText_before_of_mem (h : t ∈ table.times) :
    requestedText signal t .before =
      (lastWhere (fun c => c.timeIdx < table.timeIdxOf t) signal.changes).map Change.text := by
  rw [requestedText]
  congr 1
  refine lastWhere_congr fun c hc => ?_
  simpa [seesChange] using timeAt_lt_iff_of_mem h (signal.inTable c hc)

lemma requestedText_before_of_notMem (ht : table.timeAt 0 ≤ t) (h : t ∉ table.times) :
    requestedText signal t .before =
      (lastWhere (fun c => c.timeIdx ≤ table.timeIdxOf t) signal.changes).map Change.text := by
  rw [requestedText]
  congr 1
  refine lastWhere_congr fun c hc => ?_
  simpa [seesChange] using timeAt_lt_iff_of_notMem ht h (signal.inTable c hc)

/-! ### Samples -/

variable {cs : List Change} {timeIdx : ℕ}

/-- Where no change is passed over, a sample is that of the last change if and only if counting in
16 bits does not matter. -/
lemma sampleText_eq_last_iff (hs : cs.Pairwise fun a b => a.timeIdx ≤ b.timeIdx)
    (h : point = .before → deltasAt cs timeIdx = []) :
    sampleText cs timeIdx point =
        (lastWhere (fun c => c.timeIdx ≤ timeIdx) cs).map Change.text ↔
      CountsLast cs timeIdx := by
  rw [CountsLast]
  cases hlast : lastWhere (fun c : Change => c.timeIdx ≤ timeIdx) cs with
  | none => simp [sampleText_eq_none (lastWhere_eq_none_iff.1 hlast)]
  | some last =>
      have hgroup := exists_isLastGroup hs hlast
      have hpoint : ¬ (point = .before ∧ last.timeIdx = timeIdx) := by
        rintro ⟨hbefore, hidx⟩
        have hmem : last ∈ deltasAt cs timeIdx :=
          List.mem_filter.2 ⟨(List.mem_filter.1 (List.mem_of_getLast? hlast)).1, by simpa using hidx⟩
        simp [h hbefore] at hmem
      rw [sampleText_of_group hgroup hpoint]
      simp [deltasAt]

lemma mem_timeIdx_of_change (h : deltasAt cs timeIdx ≠ []) : timeIdx ∈ cs.map Change.timeIdx := by
  obtain ⟨c, hc⟩ := List.exists_mem_of_ne_nil _ h
  obtain ⟨hmem, hidx⟩ := List.mem_filter.1 hc
  exact List.mem_map.2 ⟨c, hmem, of_decide_eq_true hidx⟩

/-- Where a change is passed over, the point before reads the last change before the index. -/
lemma sampleText_before_of_change (hs : cs.Pairwise fun a b => a.timeIdx ≤ b.timeIdx)
    (h : deltasAt cs timeIdx ≠ []) :
    sampleText cs timeIdx .before =
      if 2 ^ 16 ∣ (deltasAt cs timeIdx).length then none
      else (lastWhere (fun c => c.timeIdx < timeIdx) cs).map Change.text := by
  obtain ⟨pre, post, hgroup⟩ := isLastGroup_deltasAt hs (mem_timeIdx_of_change h)
  rw [sampleText_before hgroup, hgroup.lastWhere_lt, if_pos rfl]

/-- A sample is the requested one if and only if the rounding is harmless. -/
lemma sampleText_eq_requestedText_iff (ht : table.timeAt 0 ≤ t) :
    sampleText signal.changes (table.timeIdxOf t) point = requestedText signal t point ↔
      HarmlessRounding signal t point := by
  by_cases hpoint : point = .before
  · subst hpoint
    rw [HarmlessRounding]
    split_ifs with hnone hmem
    · -- nothing changes at the index, so both readings of before agree
      have hrequested : requestedText signal t .before =
          (lastWhere (fun c => c.timeIdx ≤ table.timeIdxOf t) signal.changes).map Change.text := by
        by_cases hmem : t ∈ table.times
        · rw [requestedText_before_of_mem hmem]
          congr 1
          refine lastWhere_congr fun c hc => ?_
          have hne : c.timeIdx ≠ table.timeIdxOf t := by
            simpa using List.filter_eq_nil_iff.1 hnone c hc
          simp only [decide_eq_decide]
          omega
        · exact requestedText_before_of_notMem ht hmem
      rw [hrequested]
      exact sampleText_eq_last_iff signal.sorted fun _ => hnone
    · rw [sampleText_before_of_change signal.sorted hnone, requestedText_before_of_mem hmem]
      split_ifs with hdvd
      · simp only [hdvd, not_true, or_false]
        rw [eq_comm, Option.map_eq_none_iff, lastWhere, List.getLast?_eq_none_iff,
          List.filter_eq_nil_iff]
        simp
      · simp only [hdvd, not_false_eq_true, or_true]
    · obtain ⟨pre, post, hgroup⟩ :=
        isLastGroup_deltasAt signal.sorted (mem_timeIdx_of_change hnone)
      rw [sampleText_before_of_change signal.sorted hnone, requestedText_before_of_notMem ht hmem,
        hgroup.lastWhere_le]
      split_ifs with hdvd
      · simp only [hdvd, not_true, false_and, iff_false]
        rw [eq_comm, Option.map_eq_none_iff, List.getLast?_eq_none_iff]
        exact hnone
      · simp only [hdvd, not_false_eq_true, true_and]
  · rw [requestedText_of_ne ht hpoint, sampleText_eq_last_iff signal.sorted fun h => absurd h hpoint]
    cases point with
    | before => exact absurd rfl hpoint
    | raw => rfl
    | after => rfl

end Rounding

/-! ### The response -/

section Response

variable {wf : Wave} {r : ConditionsRequest}

lemma mem_values_of_bindName {aliases : OrderedMap String String} {name path : String}
    (h : bindAliases.bindName aliases name = .ok path) : path ∈ aliases.values := by
  rw [bindAliases.bindName] at h
  split_ifs at h
  split at h
  · cases h
  · rename_i hfound
    cases h
    exact List.mem_map.2 ⟨(name, path), (aliases.mem_entries_iff name path).2 hfound, rfl⟩

/-- The names of a bound expression are paths of the aliases. -/
lemma mem_values_of_bindAliases {aliases : OrderedMap String String} {e bound : ExprNode}
    (h : bindAliases aliases e = .ok bound) : ∀ path ∈ bound.occurrences, path ∈ aliases.values := by
  induction e generalizing bound with
  | signal name =>
      obtain ⟨path, hpath, h⟩ := exists_of_bind_eq_ok h
      cases h
      simpa [ExprNode.occurrences] using mem_values_of_bindName hpath
  | slice name msb lsb =>
      obtain ⟨path, hpath, h⟩ := exists_of_bind_eq_ok h
      cases h
      simpa [ExprNode.occurrences] using mem_values_of_bindName hpath
  | const value =>
      cases h
      simp [ExprNode.occurrences]
  | unary op right ih =>
      obtain ⟨right', hright, h⟩ := exists_of_bind_eq_ok h
      cases h
      simpa [ExprNode.occurrences] using ih hright
  | binary op left right ihl ihr =>
      obtain ⟨left', hleft, h⟩ := exists_of_bind_eq_ok h
      obtain ⟨right', hright, h⟩ := exists_of_bind_eq_ok h
      cases h
      simp only [ExprNode.occurrences, List.mem_append]
      rintro path (hpath | hpath)
      · exact ihl hleft path hpath
      · exact ihr hright path hpath

lemma mem_values_of_parseCondition {aliases : OrderedMap String String} {source : ConditionSource}
    {item : ParsedCondition} {referenced : List String}
    (h : parseCondition aliases source = .ok (item, referenced)) :
    ∀ path ∈ item.root.occurrences, path ∈ aliases.values := by
  unfold parseCondition at h
  cases hroot : parseExpression source.expr with
  | error message => simp [hroot] at h
  | ok root =>
      cases hbound : bindAliases aliases root with
      | error message => simp [hroot, hbound] at h
      | ok bound =>
          simp only [hroot, hbound, Except.ok.injEq, Prod.mk.injEq] at h
          obtain ⟨rfl, -⟩ := h
          exact mem_values_of_bindAliases hbound

lemma pathValue_congr {read read' : LoadedSignal wf.table → Option String} {path : String}
    (h : ∀ signal, wf.signalOf path = some signal → read signal = read' signal)
    (range : Option (ℤ × ℤ)) : pathValue wf read path range = pathValue wf read' path range := by
  rw [pathValue, pathValue]
  split_ifs with hzero
  · rfl
  · split
    · rfl
    · rename_i signal hsignal
      rw [h signal (by rw [Wave.signalOf, if_neg hzero, hsignal])]

lemma of_checkRequest {edge : EdgeSelect} {parsed : List ParsedCondition}
    (h : checkRequest wf r = .ok (edge, parsed)) :
    parseSampling r.edge = .ok edge ∧
      ∀ item ∈ parsed, ∀ path ∈ item.root.occurrences, path ∈ r.aliases.values := by
  obtain ⟨edge', hedge, h⟩ := exists_of_bind_eq_ok h
  obtain ⟨_, -, h⟩ := exists_of_bind_eq_ok h
  obtain ⟨_, -, h⟩ := exists_of_bind_eq_ok h
  obtain ⟨items, hitems, h⟩ := exists_of_bind_eq_ok h
  obtain ⟨_, -, h⟩ := exists_of_bind_eq_ok h
  cases h
  refine ⟨hedge, fun item hitem => ?_⟩
  obtain ⟨⟨item, referenced⟩, hmem, rfl⟩ := List.mem_map.1 hitem
  obtain ⟨source, -, hsource⟩ := exists_of_mapM_eq_ok hitems _ hmem
  exact mem_values_of_parseCondition hsource

/-- Two ways to read the signals of the aliases that agree give the same response. -/
lemma respondIn_congr {edge : EdgeSelect} (hedge : parseSampling r.edge = .ok edge)
    {read read' : ObservationPoint → LoadedSignal wf.table → Option String}
    (h : ∀ path ∈ r.aliases.values, ∀ signal, wf.signalOf path = some signal →
      read (observationPoint edge r.samplePoint) signal =
        read' (observationPoint edge r.samplePoint) signal) :
    respondIn wf r (fun point => environmentOf wf (read point)) =
      respondIn wf r (fun point => environmentOf wf (read' point)) := by
  rw [respondIn, respondIn]
  cases hcheck : checkRequest wf r with
  | error error => rfl
  | ok checked =>
      obtain ⟨edge', parsed⟩ := checked
      obtain ⟨hedge', hparsed⟩ := of_checkRequest hcheck
      obtain rfl : edge = edge' := Except.ok.inj (hedge.symm.trans hedge')
      have heval : ∀ item ∈ parsed,
          evalIn (environmentOf wf (read (observationPoint edge r.samplePoint))) item.root =
            evalIn (environmentOf wf (read' (observationPoint edge r.samplePoint))) item.root := by
        intro item hitem
        have hpath := fun path hmem =>
          h path (hparsed item hitem path hmem)
        refine evalIn_congr (fun path hmem => pathValue_congr (hpath path hmem) none) ?_
        intro path hmem
        ext msb lsb
        exact pathValue_congr (hpath path hmem) (some (msb, lsb))
      have hchecks : parsed.map
            (checkCondition (environmentOf wf (read (observationPoint edge r.samplePoint))) r.time) =
          parsed.map
            (checkCondition (environmentOf wf (read' (observationPoint edge r.samplePoint))) r.time) :=
        List.map_congr_left fun item hitem => by simp only [checkCondition, heval item hitem]
      show Except.ok _ = Except.ok _
      simp only [conditionsReport, hchecks]

end Response

/-! ### The requested time -/

/-- The conditions see the requested time if and only if rounding it down does no harm to any signal
of the request. -/
theorem samplesRequestedTime_iff (wf : Wave) (r : ConditionsRequest) (edge : EdgeSelect)
    (hedge : parseSampling r.edge = .ok edge) (ht : wf.table.timeAt 0 ≤ r.time) :
    SamplesRequestedTime wf r edge ↔
      ∀ path ∈ r.aliases.values, ∀ signal, wf.signalOf path = some signal →
        HarmlessRounding signal.toWaveSignal r.time (observationPoint edge r.samplePoint) := by
  constructor
  · intro h path hpath signal hsignal
    exact (sampleText_eq_requestedText_iff ht).1 (h.sample path hpath signal hsignal)
  · intro h
    have hsample := fun path hpath signal hsignal =>
      (sampleText_eq_requestedText_iff ht).2 (h path hpath signal hsignal)
    exact ⟨hsample, respondIn_congr hedge hsample⟩

/-! ### A time between two times of the table -/

lemma stepTimes_sorted : [0, 10].Pairwise (· < ·) := by simp

lemma stepTimes_lt : ∀ t ∈ [0, 10], t < 2 ^ 64 := by simp

/-- The times 0 and 10. -/
def stepTable : TimeTable := ⟨[0, 10], stepTimes_sorted, stepTimes_lt⟩

/-- A rise at time 10. -/
def stepChanges : List Change := [⟨0, { text := "0" }⟩, ⟨1, { text := "1" }⟩]

lemma stepChanges_sorted : stepChanges.Pairwise fun a b => a.timeIdx ≤ b.timeIdx := by
  simp [stepChanges]

lemma stepChanges_inTable : ∀ c ∈ stepChanges, c.timeIdx < stepTable.times.length := by
  simp [stepChanges, stepTable]

/-- One signal, which is also the clock. -/
def stepWave : Wave where
  table := stepTable
  findSignal _ := 1
  signal _ := some
    { width := 1
      changes := stepChanges
      sorted := stepChanges_sorted
      inTable := stepChanges_inTable
      encoding := .bitVector }

/-- The condition `a`, for the signal `top.a`. -/
def stepRequest (time : ℕ) : ConditionsRequest where
  aliases := OrderedMap.empty.insert "a" "top.a"
  clock := "top.a"
  edge := "posedge"
  time
  conditions := [{ expr := "a" }]

/-- At time 15 the rise at time 10 is not seen. -/
theorem stepWave_not_samplesRequestedTime :
    parseSampling (stepRequest 15).edge = .ok .posedge ∧
      stepWave.table.timeAt 0 ≤ (stepRequest 15).time ∧
      ¬ SamplesRequestedTime stepWave (stepRequest 15) .posedge := by
  refine ⟨rfl, by decide, fun h => ?_⟩
  have hsample := h.sample "top.a" (by decide) _ rfl
  revert hsample
  decide +kernel

/-- At time 10 itself the value before the rise is the requested one. -/
theorem stepWave_samplesRequestedTime : SamplesRequestedTime stepWave (stepRequest 10) .posedge := by
  refine (samplesRequestedTime_iff stepWave (stepRequest 10) .posedge rfl (by decide)).2 ?_
  rintro path hpath signal hsignal
  cases hsignal
  have hone : (deltasAt stepChanges (stepTable.timeIdxOf 10)).length = 1 := by decide
  show HarmlessRounding _ 10 .before
  rw [HarmlessRounding, if_neg (by decide), if_pos (by decide)]
  refine Or.inr ?_
  show ¬ 2 ^ 16 ∣ (deltasAt stepChanges (stepTable.timeIdxOf 10)).length
  rw [hone]
  decide

end XdebugFst.Window
