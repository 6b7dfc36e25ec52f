import Mathlib
import XdebugFst.Clock.Edges
import XdebugFst.Event.FieldValues

/-!
# Finding events

`run_event_find` walks over the changes of the clock of an event config. At each selected edge in
the range it takes a sample; an event is a sample at which the reset is not asserted and the
expression holds. Without a limit on the samples the events are those of all samples, in order, and
a request for all events returns as many of them as its limit allows: `eventFindLoop_all`.
-/

namespace XdebugFst.Event

open Lib Waveform Window XdebugFst.Expr XdebugFst.Clock

/-! ### Requests and answers -/

/-- The reset of an event config. -/
structure EventReset where
  signal : String
  polarity : String

/-- An event config together with the other arguments of a search. A config or a request that
leaves out the sample point has the empty one. -/
structure FindArgs where
  config : EventConfig
  clock : String
  edge : String := "negedge"
  samplePoint : String := ""
  reset : Option EventReset := none
  expr : String
  /-- The range, in the units of the waveform. -/
  first : ℕ
  last : ℕ
  format : ValueRenderFormat := .hex
  mode : String := "first"
  lineLimit : ℕ := 16
  maxSamples : Option ℕ := none

/-- An error of an event action. -/
structure EventError where
  code : String
  cause : Option String := none
  message : String
  deriving DecidableEq, Repr

/-- One event of a response. -/
structure EventRow where
  time : String
  signals : List (String × Json)
  fields : List (String × Json)

/-- What the loop has collected. -/
structure FindState where
  sampleCount : ℕ := 0
  totalCount : ℕ := 0
  analysisComplete : Bool := true
  events : List EventRow := []

/-- The response of `event.find`. -/
structure FindResult where
  sampleCount : ℕ
  analysisComplete : Bool
  totalCount : ℕ
  returnedCount : ℕ
  responseTruncated : Bool
  truncationScopes : List String
  /-- The times of the first and of the last event. -/
  bounds : Option (String × String)
  events : List EventRow
  sampling : Json

/-- `event_sampling_contract`. -/
def eventSamplingContract (edge requestedPoint : String) : Json :=
  let negedge : Bool := edge = "negedge"
  let effectivePoint :=
    if negedge then "" else if requestedPoint = "" then "before" else requestedPoint
  let ignored : Bool := negedge && requestedPoint ≠ ""
  let pointJson (point : String) : Json := if point = "" then .null else .string point
  .object ([
    ("requested", .object [("edge", .string edge), ("sample_point", pointJson requestedPoint)]),
    ("effective", .object [("edge", .string edge), ("sample_point", pointJson effectivePoint)]),
    ("sample_point_applied", .bool !negedge),
    ("sample_point_ignored_for_negedge", .bool ignored)] ++
      if ignored then [("sample_point_not_applied_reason",
        .string "negedge keeps the established current-value sampling semantics")] else [])

/-! ### The search -/

section Search

variable (realText : String → String) (formatTime : ℕ → String) (wf : Backend) (args : FindArgs)

/-- The edges that the comparison of the edge texts selects. -/
def FindArgs.select : EdgeSelect :=
  if args.edge = "dual" then .dual else if args.edge = "posedge" then .posedge else .negedge

/-- Where a sample is observed. -/
def FindArgs.point : ObservationPoint :=
  if args.edge = "negedge" then .raw else if args.samplePoint = "after" then .after else .before

/-- The reset is asserted, or its value is not known. -/
def resetAsserted (ti : ℕ) : Bool :=
  match args.reset with
  | none => false
  | some reset =>
      match wf.sampledValueAt (wf.findSignal reset.signal) ti args.point with
      | none => true
      | some sampled =>
          match sampled.value.text.toList.getLast? with
          | none => true
          | some c => if reset.polarity = "active_low" then c ≠ '1' else c ≠ '0'

/-- The expression holds at a sample: its value is known and has a bit that is set. -/
def eventMatches (expression : ExprNode) (ti : ℕ) : Bool :=
  let matched := evalExpression wf ti args.point expression
  matched.known && matched.bits.toList.any (· = '1')

/-- The event of a sample. -/
def eventRow (ti : ℕ) : EventRow where
  time := formatTime (wf.timeAt ti)
  signals := args.config.signals.entries.map fun entry =>
    (entry.1, signalJson realText wf ti args.point args.format entry.2)
  fields := fieldValues realText wf ti args.point args.config args.format

/-- The loop of `run_event_find` over the changes of the clock. -/
def runEventFindLoop (expression : ExprNode) : FindState → List ℕ → FindState
  | state, [] => state
  | state, ti :: rest =>
      if !inRange wf args.first args.last ti then runEventFindLoop expression state rest
      else
        match edgeAt wf (wf.findSignal args.clock) ti with
        | none => runEventFindLoop expression state rest
        | some (rise, fall) =>
            if !selectedEdge args.select rise fall then runEventFindLoop expression state rest
            else if args.maxSamples.any fun limit => state.sampleCount ≥ limit then
              { state with analysisComplete := false }
            else
              let sampled := { state with sampleCount := state.sampleCount + 1 }
              if resetAsserted wf args ti || !eventMatches wf args expression ti then
                runEventFindLoop expression sampled rest
              else
                let found := { sampled with
                  totalCount := sampled.totalCount + 1
                  events := sampled.events ++ [eventRow realText formatTime wf args ti] }
                if args.mode = "first" then found else runEventFindLoop expression found rest

/-- The events that are returned. -/
def returnedEvents (all : List EventRow) : List EventRow :=
  if args.mode = "last" ∧ all ≠ [] then all.getLast?.toList
  else if args.mode = "first" then all
  else all.take args.lineLimit

/-- The expression of a search, over the paths of the signals. -/
def boundExpression : Except EventError ExprNode :=
  match (parseExpression args.expr).bind (bindEventExpression args.config) with
  | .ok expression => .ok expression
  | .error message => .error ⟨"ACTION_FAILED", some "EVENT_FAILED", message⟩

/-- The response of a search that has collected its events. -/
def findResult (state : FindState) : FindResult :=
  let returned := returnedEvents args state.events
  let truncated := args.mode = "all" && returned.length < state.events.length
  { sampleCount := state.sampleCount
    analysisComplete := state.analysisComplete
    totalCount := state.totalCount
    returnedCount := returned.length
    responseTruncated := truncated
    truncationScopes := if truncated then ["response_events"] else []
    bounds := state.events.head?.bind fun head =>
      state.events.getLast?.map fun last => (head.time, last.time)
    events := returned
    sampling := eventSamplingContract args.edge args.samplePoint }

/-- `run_event_find`. -/
def runEventFind : Except EventError FindResult :=
  if wf.findSignal args.clock = 0 then
    .error ⟨"CLOCK_NOT_FOUND", none, "clock signal not found: " ++ args.clock⟩
  else if args.config.signals.entries.any fun entry => wf.findSignal entry.2 = 0 then
    .error ⟨"SIGNAL_NOT_FOUND", none, "event signal not found"⟩
  else if args.reset.any fun reset => wf.findSignal reset.signal = 0 then
    .error ⟨"SIGNAL_NOT_FOUND", none, "event reset signal not found"⟩
  else
    match boundExpression args with
    | .error error => .error error
    | .ok expression =>
        if args.first > args.last then
          .error ⟨"TIME_RANGE_INVALID", none, "end is before begin"⟩
        else
          .ok (findResult args (runEventFindLoop realText formatTime wf args expression {}
            (wf.timeIndicesOf (wf.findSignal args.clock))))

/-! ### What a search finds -/

/-- A sample at which the reset is not asserted and the expression holds. -/
def isEvent (expression : ExprNode) (ti : ℕ) : Bool :=
  !resetAsserted wf args ti && eventMatches wf args expression ti

/-- The indices of the events. -/
def eventIndices (expression : ExprNode) : List ℕ :=
  (eventFindSamples wf (wf.findSignal args.clock) args.select args.first args.last
    args.maxSamples).filter (isEvent wf args expression)

/-- The events of a search, all of them. -/
def allEvents : List EventRow :=
  match boundExpression args with
  | .ok expression =>
      (eventIndices wf args expression).map (eventRow realText formatTime wf args)
  | .error _ => []

variable {realText formatTime wf args}

/-- A loop that does not stop at the first event collects those of all samples. -/
lemma runEventFindLoop_eq (hmode : args.mode ≠ "first") (expression : ExprNode) {state : FindState}
    {l samples : List ℕ}
    (hsamples : (eventFindLoop wf (wf.findSignal args.clock) args.select args.first args.last
      args.maxSamples state.sampleCount l).1.filter (isEvent wf args expression) = samples) :
    (runEventFindLoop realText formatTime wf args expression state l).events =
        state.events ++ samples.map (eventRow realText formatTime wf args) ∧
      (runEventFindLoop realText formatTime wf args expression state l).totalCount =
        state.totalCount + samples.length := by
  induction l generalizing state samples with
  | nil =>
      subst hsamples
      exact ⟨(List.append_nil _).symm, rfl⟩
  | cons ti rest ih =>
      rw [eventFindLoop] at hsamples
      rw [runEventFindLoop]
      cases hrange : inRange wf args.first args.last ti with
      | false =>
          rw [hrange] at hsamples
          exact ih hsamples
      | true =>
          rw [hrange] at hsamples
          cases hedge : edgeAt wf (wf.findSignal args.clock) ti with
          | none =>
              rw [hedge] at hsamples
              exact ih hsamples
          | some edge =>
              rw [hedge] at hsamples
              cases hselected : selectedEdge args.select edge.1 edge.2 with
              | false =>
                  simp only [hselected, Bool.not_false, Bool.not_true, Bool.false_eq_true,
                    if_true, if_false] at hsamples ⊢
                  exact ih hsamples
              | true =>
                  simp only [hselected, Bool.not_true, Bool.false_eq_true, if_false]
                    at hsamples ⊢
                  split_ifs at hsamples ⊢ with hlimit hskip
                  · subst hsamples
                    exact ⟨(List.append_nil _).symm, rfl⟩
                  · -- a sample that is no event
                    have hevent : isEvent wf args expression ti = false := by
                      rw [isEvent]
                      revert hskip
                      cases resetAsserted wf args ti <;> simp
                    rw [List.filter_cons_of_neg (by simp [hevent])] at hsamples
                    exact ih hsamples
                  · have hevent : isEvent wf args expression ti = true := by
                      rw [isEvent]
                      revert hskip
                      cases resetAsserted wf args ti <;> simp
                    rw [List.filter_cons_of_pos hevent] at hsamples
                    subst hsamples
                    obtain ⟨hevents, htotal⟩ := @ih { state with
                      sampleCount := state.sampleCount + 1
                      totalCount := state.totalCount + 1
                      events := state.events ++ [eventRow realText formatTime wf args ti] } _ rfl
                    refine ⟨hevents.trans ?_, htotal.trans ?_⟩
                    · simp
                    · simp only [List.length_cons]
                      omega

/-- A search that succeeds answers with what its loop has collected. -/
lemma runEventFind_ok {found : FindResult} (h : runEventFind realText formatTime wf args = .ok found) :
    ∃ expression, boundExpression args = .ok expression ∧
      found = findResult args (runEventFindLoop realText formatTime wf args expression {}
        (wf.timeIndicesOf (wf.findSignal args.clock))) := by
  cases hexpression : boundExpression args with
  | error error =>
      rw [runEventFind, hexpression] at h
      split_ifs at h
  | ok expression =>
      rw [runEventFind, hexpression] at h
      split_ifs at h
      exact ⟨expression, rfl, (Except.ok.inj h).symm⟩

lemma allEvents_of_ok {expression : ExprNode} (h : boundExpression args = .ok expression) :
    allEvents realText formatTime wf args =
      (eventIndices wf args expression).map (eventRow realText formatTime wf args) := by
  delta allEvents
  rw [h]

/-- A search for all events counts them and returns as many as its limit allows. -/
lemma runEventFind_all (hmode : args.mode = "all") {found : FindResult}
    (h : runEventFind realText formatTime wf args = .ok found) :
    found.totalCount = (allEvents realText formatTime wf args).length ∧
      found.events = (allEvents realText formatTime wf args).take args.lineLimit := by
  obtain ⟨expression, hexpression, rfl⟩ := runEventFind_ok h
  have hfirst : args.mode ≠ "first" := by
    rw [hmode]
    decide
  have hsamples : (eventFindLoop wf (wf.findSignal args.clock) args.select args.first args.last
      args.maxSamples ({} : FindState).sampleCount
      (wf.timeIndicesOf (wf.findSignal args.clock))).1.filter (isEvent wf args expression) =
        eventIndices wf args expression := rfl
  obtain ⟨hevents, htotal⟩ :=
    @runEventFindLoop_eq realText formatTime wf args hfirst expression {} _ _ hsamples
  rw [allEvents_of_ok hexpression, List.length_map]
  refine ⟨htotal.trans (Nat.zero_add _), ?_⟩
  rw [findResult, hevents]
  dsimp only
  rw [returnedEvents, hmode, if_neg fun h => absurd h.1 (by decide), if_neg (by decide)]
  rfl

end Search

end XdebugFst.Event
