import Mathlib
import XdebugFst.Clock.Edges
import XdebugFst.Expr.Eval
import XdebugFst.Lib.Json
import XdebugFst.Lib.Throws
import XdebugFst.Stream.Packets
import XdebugFst.Waveform.Fill

/-!
# Scanning a waveform for the transfers of a stream

`scan_stream_samples` of `stream_actions.cpp` and the part of `stream.query` that counts its
samples. A stream is given by expressions for its clock and its controls. At every selected edge
of the clock expression inside the window one sample is taken. Outside reset, a sample is a
transfer if valid is high and the consumer is ready. When the samples are taken after the edge, a
side that changes at the edge is also compared with the level of the other side before the edge.

`scanLoop_eq` says which edges are sampled. `transferAt` is the transfer at an edge, and the
transfers of a scan are these: `transfers_scanStreamSamples`.
-/

namespace XdebugFst.Stream

open Lib Waveform Clock Window Axi XdebugFst.Expr

/-! ### Configuration -/

/-- `StreamConfig`. -/
structure StreamConfig where
  /-- The paths of the names that field expressions use. -/
  signals : List (String × String) := []
  clock : String
  valid : String
  ready : String := ""
  backpressure : String := ""
  data : String := ""
  /-- The configuration text has a `data` entry. -/
  sourceHasData : Bool := false
  edge : EdgeSelect := .posedge
  /-- `sample_point` is `after`. -/
  sampleAfter : Bool := false
  reset : String := ""
  resetPolarity : ResetPolarity := .activeLow
  sop : String := ""
  eop : String := ""
  beatFields : List (String × Json) := []
  packetStableFields : List (String × Json) := []
  channelId : String := ""
  allowInterleaving : Bool := false

/-- Where the samples of a configuration are taken. -/
def samplePoint (cfg : StreamConfig) : ObservationPoint :=
  if cfg.edge = .negedge then .raw else if cfg.sampleAfter then .after else .before

/-- `CompiledStreamExpressions`. Only compiled streams with a clock and a valid expression are
scanned. -/
structure CompiledStreamExpressions where
  clock : ExprNode
  valid : ExprNode
  ready : Option ExprNode
  backpressure : Option ExprNode
  sop : Option ExprNode
  eop : Option ExprNode
  data : Option ExprNode
  channelId : Option ExprNode
  clockDependencies : List ℕ

/-- `compile_stream_expression`. -/
def compileStreamExpression (wf : Backend) (label expression : String) :
    Except String (Option ExprNode) :=
  if expression = "" then .ok none
  else
    match parseExpression expression with
    | .error message => .error (label ++ " expression parse failed: " ++ message)
    | .ok root =>
        match (expressionSignals root).find? fun s => wf.findSignal s = Backend.kInvalidSignalRef with
        | some signal => .error ("signal not found for " ++ label ++ ": " ++ signal)
        | none => .ok (some root)

/-- `compile_stream_expressions`. -/
def compileStreamExpressions (wf : Backend) (cfg : StreamConfig) :
    Except String CompiledStreamExpressions := do
  let clock ← compileStreamExpression wf "clock" cfg.clock
  let valid ← compileStreamExpression wf "vld" cfg.valid
  let ready ← compileStreamExpression wf "rdy" cfg.ready
  let backpressure ← compileStreamExpression wf "bp" cfg.backpressure
  let sop ← compileStreamExpression wf "sop" cfg.sop
  let eop ← compileStreamExpression wf "eop" cfg.eop
  let data ← compileStreamExpression wf "data" cfg.data
  let channelId ← compileStreamExpression wf "channel_id" cfg.channelId
  match clock, valid with
  | some clock, some valid =>
      let clockDependencies := ((expressionSignals clock).map wf.findSignal).filter
        fun ref => ref ≠ Backend.kInvalidSignalRef
      if clockDependencies = [] then .error "clock expression has no waveform dependency"
      else
        .ok { clock, valid, ready, backpressure, sop, eop, data, channelId, clockDependencies }
  | _, _ => .error "stream clock and vld expressions are required"

/-- An expression that is only a signal of the waveform. -/
lemma compileStreamExpression_signal {wf : Backend} {name : String} (label : String)
    (hname : name ≠ "") (hparse : parseExpression name = .ok (.signal name))
    (hfind : wf.findSignal name ≠ Backend.kInvalidSignalRef) :
    compileStreamExpression wf label name = .ok (some (.signal name)) := by
  have hsignals : expressionSignals (.signal name) = [name] := rfl
  rw [compileStreamExpression, if_neg hname, hparse]
  simp only [hsignals, List.find?_cons, List.find?_nil, hfind, decide_false]

/-! ### Levels -/

/-- `is_high`. -/
def isHigh (bits : String) : Bool :=
  !bits.toList.isEmpty && !bits.toList.any isXz && bits.toList.any (· ≠ '0')

/-- `expression_bits_at`. -/
def expressionBitsAt (wf : Backend) (expression : Option ExprNode) (ti : ℕ)
    (point : ObservationPoint) (defaultBits : String) : String :=
  match expression with
  | none => defaultBits
  | some root => (evalExpression wf ti point root).bits

/-- `sampled_signal_bits_at`. -/
def sampledSignalBitsAt (wf : Backend) (ref ti : ℕ) (point : ObservationPoint) : String :=
  if ref = 0 then "" else ((wf.sample ref ti point).map WaveformValue.text).getD ""

/-! ### The fields of a transfer -/

/-- The JSON of a value, which shows all parts of it, or of an object of such values. -/
inductive FieldJson
  | value (v : LogicValue)
  | object (fields : List (String × LogicValue))
  deriving DecidableEq, Repr

/-- The path of a name, or the name itself. -/
def resolveToken (signals : List (String × String)) (token : List Char) : List Char :=
  ((signals.lookup (String.ofList token)).map String.toList).getD token

/-- `resolve_field_expression`, with the part of an identifier that has been read. -/
def resolveFieldExpression (signals : List (String × String)) :
    Option (List Char) → List Char → List Char
  | none, [] => []
  | some token, [] => resolveToken signals token
  | none, c :: rest =>
      if c.isAlpha || c = '_' then resolveFieldExpression signals (some [c]) rest
      else c :: resolveFieldExpression signals none rest
  | some token, c :: rest =>
      if c.isAlphanum || c = '_' || c = '$' then
        resolveFieldExpression signals (some (token ++ [c])) rest
      else resolveToken signals token ++ c :: resolveFieldExpression signals none rest

/-- The text without blanks at its ends. -/
def trimBlanks (text : List Char) : List Char :=
  let blank (c : Char) : Bool := c = ' ' || c = '\t'
  ((text.dropWhile blank).reverse.dropWhile blank).reverse

/-- The parts between the commas that are not inside square brackets. -/
def splitParts : ℤ → List Char → List Char → List (List Char)
  | _, part, [] => [part]
  | depth, part, c :: rest =>
      let depth := if c = '[' then depth + 1 else if c = ']' then depth - 1 else depth
      if c = ',' ∧ depth = 0 then part :: splitParts depth [] rest
      else splitParts depth (part ++ [c]) rest

/-- The value of a text that is not a concatenation. -/
def plainValue (wf : Backend) (cfg : StreamConfig) (ti : ℕ) (point : ObservationPoint)
    (text : List Char) : Option LogicValue :=
  match parseExpression (String.ofList (resolveFieldExpression cfg.signals none text)) with
  | .error _ => none
  | .ok root =>
      let value := evalExpression wf ti point root
      if value.bits = "" then none else some value

/-- `evaluate_field_expression`. A concatenation in braces is evaluated part by part; its parts
are shorter than it, so `fuel` may be the length of the expression. -/
def evaluateFieldExpression (wf : Backend) (cfg : StreamConfig) (ti : ℕ)
    (point : ObservationPoint) : ℕ → List Char → Option LogicValue
  | 0, _ => none
  | fuel + 1, expression =>
      let text := trimBlanks expression
      if text = [] then none
      else if text.head? = some '\x7b' ∧ text.getLast? = some '\x7d' then
        let inner := (text.drop 1).dropLast
        ((splitParts 0 [] inner).mapM (evaluateFieldExpression wf cfg ti point fuel)).map
          fun values =>
            let bits := String.join (values.map LogicValue.bits)
            logicValueFromBits bits bits.length
      else plainValue wf cfg ti point text

section Fields

variable (wf : Backend) (cfg : StreamConfig) (compiled : CompiledStreamExpressions) (ti : ℕ)

/-- The value of a field, if it is given by an expression that can be evaluated. -/
def fieldAt (expression : Json) : Option LogicValue :=
  expression.string?.bind fun text =>
    evaluateFieldExpression wf cfg ti (samplePoint cfg) (text.length + 1) text.toList

/-- The JSON of the fields that can be evaluated, and whether all can be. -/
def fieldsAt {α : Type} (json : LogicValue → α) (fields : List (String × Json))
    (initial : OrderedMap String α) : OrderedMap String α × Bool :=
  (fields.foldl
    (fun map field => ((fieldAt wf cfg ti field.2).map (map.insert field.1 ∘ json)).getD map)
    initial,
   fields.all fun field => (fieldAt wf cfg ti field.2).isSome)

/-- `expression_json_at`, and whether the value exists. -/
def expressionJsonAt (expression : Option ExprNode) : Option LogicValue × Bool :=
  match expression with
  | none => (none, true)
  | some root =>
      let value := evalExpression wf ti (samplePoint cfg) root
      if value.bits = "" then (none, false) else (some value, true)

/-- `stream_fields_at`. -/
def streamFieldsAt : OrderedMap String LogicValue × Bool :=
  let data := if cfg.sourceHasData then expressionJsonAt wf cfg ti compiled.data else (none, true)
  let fields := fieldsAt wf cfg ti id cfg.beatFields
    ((data.1.map fun value => OrderedMap.empty.insert "data" value).getD .empty)
  (fields.1, data.2 && fields.2)

/-- A transfer with its fields, and whether all of these could be read. -/
def readFields (sample : StreamSample FieldJson) : StreamSample FieldJson × Bool :=
  let fields := streamFieldsAt wf cfg compiled ti
  let stable := fieldsAt wf cfg ti FieldJson.value cfg.packetStableFields .empty
  let channelId := expressionJsonAt wf cfg ti compiled.channelId
  ({ sample with
      fields := .object fields.1.entries
      packetStableFields := stable.1
      channelId := channelId.1
      dataKnown := fields.1.entries.all fun field => field.2.known },
    fields.2 && stable.2 && channelId.2)

end Fields

/-! ### One edge -/

section Edge

variable (wf : Backend) (cfg : StreamConfig) (compiled : CompiledStreamExpressions) (ti : ℕ)

/-- The clock expression has a selected edge at a time. -/
def isClockEdge : Bool :=
  let before := expressionBitsAt wf (some compiled.clock) ti .before ""
  let raw := expressionBitsAt wf (some compiled.clock) ti .raw ""
  selectedEdge cfg.edge (isRisingEdge before raw) (isFallingEdge before raw)

/-- The reference of the reset signal, or 0. -/
def resetRef : ℕ := if cfg.reset = "" then 0 else wf.findSignal cfg.reset

/-- The sample of the reset signal. -/
def resetBits : String := sampledSignalBitsAt wf (resetRef wf cfg) ti (samplePoint cfg)

/-- `reset_deasserted`; a stream without reset is never in reset. -/
def resetDeasserted : Bool :=
  resetRef wf cfg = 0 ||
    resetBits wf cfg ti = (match cfg.resetPolarity with | .activeLow => "1" | .activeHigh => "0")

variable (point : ObservationPoint)

def vldBits : String := expressionBitsAt wf (some compiled.valid) ti point ""

def rdyBits : String := expressionBitsAt wf compiled.ready ti point "1"

def bpBits : String := expressionBitsAt wf compiled.backpressure ti point "0"

def sopBits : String := expressionBitsAt wf compiled.sop ti point "0"

def eopBits : String := expressionBitsAt wf compiled.eop ti point "0"

/-- `control_known`. -/
def controlKnown : Bool :=
  knownBinary (vldBits wf compiled ti point) && knownBinary (rdyBits wf compiled ti point) &&
    knownBinary (bpBits wf compiled ti point) && knownBinary (sopBits wf compiled ti point) &&
    knownBinary (eopBits wf compiled ti point)

def vldHigh : Bool := isHigh (vldBits wf compiled ti point)

def rdyHigh : Bool := compiled.ready.isSome && isHigh (rdyBits wf compiled ti point)

def bpHigh : Bool := compiled.backpressure.isSome && isHigh (bpBits wf compiled ti point)

/-- The consumer takes what is offered. -/
def readyNow : Bool :=
  (compiled.ready.isNone || rdyHigh wf compiled ti point) && !bpHigh wf compiled ti point

/-- The samples are joined with those before the edge. -/
def joins : Bool :=
  samplePoint cfg = .after && compiled.ready.isSome && compiled.backpressure.isNone

/-- `transfer`, outside reset. At an edge where only one side is high afterwards, the transfer
was accepted if this side has just risen and the other side was high before. -/
def transferNow : Bool :=
  vldHigh wf compiled ti point && readyNow wf compiled ti point ||
    joins cfg compiled &&
      (vldHigh wf compiled ti point && !vldHigh wf compiled ti .before &&
          rdyHigh wf compiled ti .before ||
        rdyHigh wf compiled ti point && !rdyHigh wf compiled ti .before &&
          vldHigh wf compiled ti .before)

variable (cycle : ℕ)

/-- The sample at an edge during reset. -/
def resetSample : StreamSample FieldJson where
  cycle
  timeIdx := ti
  time := wf.timeAt ti
  fields := .object []

/-- The controls of the sample at an edge outside reset. -/
def controlSample : StreamSample FieldJson :=
  let point := samplePoint cfg
  let transfer := transferNow wf cfg compiled ti point
  let vld := vldHigh wf compiled ti point || joins cfg compiled && transfer
  { resetSample wf ti cycle with
    vld
    rdy := compiled.ready.isNone || rdyHigh wf compiled ti point || joins cfg compiled && transfer
    bp := bpHigh wf compiled ti point
    sop := transfer && compiled.sop.isSome && isHigh (sopBits wf compiled ti point)
    eop := transfer && compiled.eop.isSome && isHigh (eopBits wf compiled ti point)
    transfer
    stall := vld && !readyNow wf compiled ti point
    controlKnown := controlKnown wf compiled ti point
    readyBpConflict := rdyHigh wf compiled ti point && bpHigh wf compiled ti point }

/-- The body of the loop at a selected edge. -/
def sampleAt : StreamSample FieldJson × Bool :=
  if !resetDeasserted wf cfg ti then (resetSample wf ti cycle, true)
  else
    let sample := controlSample wf cfg compiled ti cycle
    if sample.transfer then readFields wf cfg compiled ti sample else (sample, true)

end Edge

/-! ### The scan -/

section Scan

variable (wf : Backend) (cfg : StreamConfig) (compiled : CompiledStreamExpressions)

/-- The set `clock_time_indices`, in order. -/
def clockTimeIndices : List ℕ :=
  ((compiled.clockDependencies.flatMap wf.timeIndicesOf).dedup).insertionSort (· ≤ ·)

variable (beginTi endTi : ℕ)

/-- The loop over the changes of the clock. -/
def scanLoop : ℕ → List ℕ → List (StreamSample FieldJson × Bool)
  | _, [] => []
  | cycle, ti :: rest =>
      if !isClockEdge wf cfg compiled ti || ti < beginTi then scanLoop cycle rest
      else if ti > endTi then []
      else sampleAt wf cfg compiled ti cycle :: scanLoop (cycle + 1) rest

/-- `scan_stream_samples`, with `fields_complete`. -/
def scanStreamSamples : List (StreamSample FieldJson) × Bool :=
  let samples := scanLoop wf cfg compiled beginTi endTi 0 (clockTimeIndices wf compiled)
  (samples.map Prod.fst, samples.all Prod.snd)

end Scan

/-! ### The edges that are sampled -/

section Window

variable {wf : Backend} {cfg : StreamConfig} {compiled : CompiledStreamExpressions}
  {beginTi endTi : ℕ}

/-- The selected edges inside the window. -/
def windowEdges (wf : Backend) (cfg : StreamConfig) (compiled : CompiledStreamExpressions)
    (beginTi endTi : ℕ) : List ℕ :=
  (clockTimeIndices wf compiled).filter fun ti =>
    isClockEdge wf cfg compiled ti && beginTi ≤ ti && ti ≤ endTi

lemma mem_clockTimeIndices {ti : ℕ} : ti ∈ clockTimeIndices wf compiled ↔
    ∃ ref ∈ compiled.clockDependencies, ti ∈ wf.timeIndicesOf ref := by
  rw [clockTimeIndices, List.mem_insertionSort, List.mem_dedup, List.mem_flatMap]

lemma pairwise_clockTimeIndices : (clockTimeIndices wf compiled).Pairwise (· < ·) := by
  have hnodup : (clockTimeIndices wf compiled).Nodup :=
    (List.perm_insertionSort _ _).nodup_iff.2 (List.nodup_dedup _)
  have hsorted : (clockTimeIndices wf compiled).Pairwise (· ≤ ·) :=
    List.pairwise_insertionSort _ _
  exact (hsorted.and hnodup).imp fun h => lt_of_le_of_ne h.1 h.2

/-- The loop samples the selected edges inside the window and counts them. -/
lemma scanLoop_eq {indices : List ℕ} (h : indices.Pairwise (· < ·)) (cycle : ℕ) :
    scanLoop wf cfg compiled beginTi endTi cycle indices =
      ((indices.filter fun ti => isClockEdge wf cfg compiled ti && beginTi ≤ ti && ti ≤ endTi).zipIdx
        cycle).map fun edge => sampleAt wf cfg compiled edge.1 edge.2 := by
  induction indices generalizing cycle with
  | nil => rfl
  | cons ti rest ih =>
      obtain ⟨hlt, hrest⟩ := List.pairwise_cons.1 h
      rw [scanLoop, List.filter_cons]
      cases hedge : isClockEdge wf cfg compiled ti with
      | false => exact ih hrest cycle
      | true =>
          by_cases hbegin : ti < beginTi
          · have hout : (true && decide (beginTi ≤ ti) && decide (ti ≤ endTi)) = false := by
              simp [hbegin]
            rw [hout, if_pos (by simp [hbegin])]
            exact ih hrest cycle
          rw [if_neg (by simpa using hbegin)]
          by_cases hend : ti > endTi
          · -- all later indices are behind the window, too
            have hnone : (ti :: rest).filter (fun ti =>
                isClockEdge wf cfg compiled ti && beginTi ≤ ti && ti ≤ endTi) = [] := by
              refine List.filter_eq_nil_iff.2 fun later hlater => ?_
              have hle : ti ≤ later := by
                rcases List.mem_cons.1 hlater with rfl | hlater
                · exact le_rfl
                · exact (hlt later hlater).le
              simp only [Bool.and_eq_true, decide_eq_true_eq, not_and]
              intro _
              omega
            rw [List.filter_cons, hedge] at hnone
            rw [if_pos hend, hnone]
            rfl
          · have hin : (true && decide (beginTi ≤ ti) && decide (ti ≤ endTi)) = true := by
              simp only [Bool.true_and, Bool.and_eq_true, decide_eq_true_eq]
              omega
            rw [if_neg hend, hin, if_pos rfl, List.zipIdx_cons, List.map_cons, ih hrest]

end Window

/-! ### What a sample says -/

section Sample

variable (wf : Backend) (cfg : StreamConfig) (compiled : CompiledStreamExpressions) (ti : ℕ)

/-- The boundary flags of the transfer at an edge, if there is one. -/
def transferAt : Option (Bool × Bool) :=
  if resetDeasserted wf cfg ti && transferNow wf cfg compiled ti (samplePoint cfg) then
    some (compiled.sop.isSome && isHigh (sopBits wf compiled ti (samplePoint cfg)),
      compiled.eop.isSome && isHigh (eopBits wf compiled ti (samplePoint cfg)))
  else none

/-- A transfer, as a report shows it. -/
def transferRow (sample : StreamSample FieldJson) : ℕ × Bool × Bool :=
  (sample.time, sample.sop, sample.eop)

lemma transferRow_sampleAt (cycle : ℕ) :
    (if (sampleAt wf cfg compiled ti cycle).1.transfer then
        some (transferRow (sampleAt wf cfg compiled ti cycle).1) else none) =
      (transferAt wf cfg compiled ti).map (wf.timeAt ti, ·) := by
  rw [sampleAt, transferAt]
  cases hreset : resetDeasserted wf cfg ti with
  | false => rfl
  | true =>
      cases htransfer : transferNow wf cfg compiled ti (samplePoint cfg) with
      | false => simp [controlSample, htransfer]
      | true => simp [controlSample, htransfer, readFields, transferRow, resetSample]

lemma controlKnown_sampleAt (cycle : ℕ) : (sampleAt wf cfg compiled ti cycle).1.controlKnown =
    (!resetDeasserted wf cfg ti || controlKnown wf compiled ti (samplePoint cfg)) := by
  rw [sampleAt]
  cases resetDeasserted wf cfg ti with
  | false => rfl
  | true =>
      cases htransfer : transferNow wf cfg compiled ti (samplePoint cfg) with
      | false => simp [controlSample, htransfer]
      | true => simp [controlSample, htransfer, readFields]

variable (beginTi endTi : ℕ)

/-- The transfers of the scan are those of the edges in the window. -/
lemma transfers_scanStreamSamples :
    ((scanStreamSamples wf cfg compiled beginTi endTi).1.filter StreamSample.transfer).map
        transferRow =
      (windowEdges wf cfg compiled beginTi endTi).filterMap fun ti =>
        (transferAt wf cfg compiled ti).map (wf.timeAt ti, ·) := by
  have hfilter : ∀ samples : List (StreamSample FieldJson),
      (samples.filter StreamSample.transfer).map transferRow =
        samples.filterMap fun s => if s.transfer then some (transferRow s) else none := by
    intro samples
    induction samples with
    | nil => rfl
    | cons s rest ih => cases hs : s.transfer <;> simp [hs, ih]
  have hedges : windowEdges wf cfg compiled beginTi endTi =
      ((windowEdges wf cfg compiled beginTi endTi).zipIdx 0).map Prod.fst := by
    rw [List.zipIdx_map_fst]
  rw [hfilter, scanStreamSamples, scanLoop_eq pairwise_clockTimeIndices, hedges, List.map_map,
    List.filterMap_map, List.filterMap_map]
  refine List.filterMap_congr fun edge _ => ?_
  exact transferRow_sampleAt wf cfg compiled edge.1 edge.2

/-- The scan is complete if the controls are known at every edge outside reset. -/
lemma controlKnown_scanStreamSamples :
    (∀ s ∈ (scanStreamSamples wf cfg compiled beginTi endTi).1, s.controlKnown = true) ↔
      ∀ ti ∈ windowEdges wf cfg compiled beginTi endTi, resetDeasserted wf cfg ti = true →
        controlKnown wf compiled ti (samplePoint cfg) = true := by
  rw [scanStreamSamples, scanLoop_eq pairwise_clockTimeIndices, List.map_map,
    List.forall_mem_map]
  constructor
  · intro h ti hti hreset
    obtain ⟨i, hi, rfl⟩ := List.getElem_of_mem hti
    have hknown := h (_, i) (List.mk_mem_zipIdx_iff_getElem?.2 (List.getElem?_eq_getElem hi))
    rw [Function.comp_apply, controlKnown_sampleAt, hreset] at hknown
    exact hknown
  · rintro h ⟨ti, cycle⟩ hedge
    rw [Function.comp_apply, controlKnown_sampleAt]
    cases hreset : resetDeasserted wf cfg ti with
    | false => rfl
    | true => exact h ti (List.fst_mem_of_mem_zipIdx hedge) hreset

end Sample

/-! ### The query -/

/-- An error response. -/
structure ActionError where
  code : String
  message : String
  deriving DecidableEq, Repr

/-- The parts of a request that the scan depends on. -/
structure StreamQuery where
  query : String
  /-- The bounds of `time_range`, in the units of the waveform. -/
  beginTime : Option ℕ := none
  endTime : Option ℕ := none
  /-- What `stream_analysis_budget_error` says of the environment. -/
  budgetError : Option ActionError := none

/-- The transfers, and what the summary says of the scan. -/
structure StreamResult where
  transfers : List (StreamSample FieldJson)
  clockEdges : ℕ
  vldCycles : ℕ
  transferCount : ℕ
  stallCycles : ℕ
  controlXzCount : ℕ
  dataXzCount : ℕ
  readyBpConflictCount : ℕ
  scanComplete : Bool
  analysisComplete : Bool

/-- The queries for packets. -/
def isPacketQuery (query : String) : Bool :=
  query ∈ ["first_packet", "last_packet", "packet_at", "packet_window"]

/-- The loop over the samples of `StreamQueryHandler::run`. -/
def streamResult (samples : List (StreamSample FieldJson)) (fieldsComplete : Bool) :
    StreamResult :=
  let transfers := samples.filter StreamSample.transfer
  let controlXzCount := samples.countP fun s => !s.controlKnown
  let dataXzCount := samples.countP fun s => s.transfer && !s.dataKnown
  { transfers
    clockEdges := samples.length
    vldCycles := samples.countP StreamSample.vld
    transferCount := transfers.length
    stallCycles := samples.countP StreamSample.stall
    controlXzCount
    dataXzCount
    readyBpConflictCount := samples.countP StreamSample.readyBpConflict
    scanComplete := controlXzCount = 0
    analysisComplete := controlXzCount = 0 && dataXzCount = 0 && fieldsComplete }

/-- The window of a query, as time indices. -/
def queryWindow (wf : Backend) (query : StreamQuery) : Except ActionError (ℕ × ℕ) :=
  let beginTime := query.beginTime.getD wf.minTime
  let endTime := query.endTime.getD wf.maxTime
  if beginTime > endTime then .error ⟨"TIME_RANGE_INVALID", "end is before begin"⟩
  else .ok (wf.timeIdxOf beginTime, wf.timeIdxOf endTime)

/-- The other checks of a query before the scan. -/
def checkQuery (cfg : StreamConfig) (query : StreamQuery) : Except ActionError Unit :=
  if (cfg.sop = "" ∨ cfg.eop = "") ∧ isPacketQuery query.query = true then
    .error ⟨"PACKET_NOT_CONFIGURED", "stream has no sop/eop packet boundaries"⟩
  else
    match query.budgetError with
    | some error => .error error
    | none => .ok ()

/-- `StreamQueryHandler::run` up to the counts of the summary. -/
def queryStream (wf : Backend) (cfg : StreamConfig) (query : StreamQuery) :
    Except ActionError StreamResult :=
  match compileStreamExpressions wf cfg with
  | .error message => .error ⟨"CONFIG_SIGNAL_NOT_FOUND", message⟩
  | .ok compiled => do
      let window ← queryWindow wf query
      checkQuery cfg query
      let samples := scanStreamSamples wf cfg compiled window.1 window.2
      return streamResult samples.1 samples.2

/-- What the query returns, when it returns. -/
lemma queryStream_eq_ok {wf : Backend} {cfg : StreamConfig} {query : StreamQuery}
    {result : StreamResult} :
    queryStream wf cfg query = .ok result ↔ ∃ compiled window,
      compileStreamExpressions wf cfg = .ok compiled ∧ queryWindow wf query = .ok window ∧
      checkQuery cfg query = .ok () ∧
      result = streamResult (scanStreamSamples wf cfg compiled window.1 window.2).1
        (scanStreamSamples wf cfg compiled window.1 window.2).2 := by
  rw [queryStream]
  constructor
  · intro h
    cases hcompiled : compileStreamExpressions wf cfg with
    | error message =>
        rw [hcompiled] at h
        cases h
    | ok compiled =>
        rw [hcompiled] at h
        obtain ⟨window, hwindow, h⟩ := exists_of_bind_eq_ok h
        obtain ⟨_, hcheck, h⟩ := exists_of_bind_eq_ok h
        exact ⟨compiled, window, rfl, hwindow, hcheck, (Except.ok.inj h).symm⟩
  · rintro ⟨compiled, window, hcompiled, hwindow, hcheck, rfl⟩
    rw [hcompiled, hwindow, hcheck]
    rfl

end XdebugFst.Stream
