import Mathlib
import XdebugFst.Lib.MaximalRuns
import XdebugFst.Lib.OrderedMap
import XdebugFst.Clock.Edges

/-!
# Inspecting a handshake

`protocol.handshake.inspect` samples a valid and a ready signal at the edges of a clock. One pass
over the samples counts the transfers, follows the stalls and the cycles with ready alone, and
checks with the hold rule that valid stays until the handshake. Each of the three has a state of
its own, and all of them add to one list of findings, of which the response keeps the first ones.

The specification speaks about the sequence of samples as a whole: stalls and ready intervals are
maximal runs of `Lib.runs`, and a wait goes from the stall that opens it to the sample that closes
it. `handshakeStatistics_inspectSamples` says that the pass computes what these notions say.
-/

namespace XdebugFst.Clock

open Lib Waveform Window

/-! ### Samples of the analysis actions -/

/-- `AnalysisTri`. -/
inductive AnalysisTri
  | false | true | unknown
  deriving DecidableEq, Repr

/-- `analysis_truth`. -/
def analysisTruth (value : WaveformValue) : AnalysisTri :=
  if value.kind ≠ .bitVector ∨ value.text = "" then .unknown
  else if value.text.toList.any fun c => c = 'x' || c = 'X' || c = 'z' || c = 'Z' then .unknown
  else if value.text.toList.any (· = '1') then .true
  else .false

/-- `analysis_observation_point`, for a request that asks for the values after the edge or not. -/
def analysisObservationPoint (edge : EdgeSelect) (after : Bool) : ObservationPoint :=
  if edge = .negedge then .raw else if after then .after else .before

/-- What is sampled at one edge. -/
structure HandshakeSample where
  time : ℕ
  valid : AnalysisTri
  ready : AnalysisTri
  validValue : WaveformValue
  /-- `current_data`. -/
  data : OrderedMap String String

namespace HandshakeSample

def transfer (s : HandshakeSample) : Bool := s.valid = .true && s.ready = .true
def stall (s : HandshakeSample) : Bool := s.valid = .true && s.ready = .false
def readyOnly (s : HandshakeSample) : Bool := s.ready = .true && s.valid = .false

end HandshakeSample

section Samples

variable (wf : Backend) (clockRef validRef readyRef : ℕ) (dataRefs : List ℕ) (edge : EdgeSelect)
  (point : ObservationPoint) (first last : ℕ)

/-- The values of the data signals, by their aliases. -/
def currentData (timeIdx : ℕ) : OrderedMap String String :=
  dataRefs.zipIdx.foldl (fun data (ref, i) =>
    data.insert ("data" ++ toString i)
      ((wf.sampledValueAt ref timeIdx point).elim "" fun sampled => sampled.value.text)) .empty

/-- The samples of the pass: the edges at which both signals have a value. -/
def handshakeSamples : List HandshakeSample :=
  (collectAnalysisEdges wf clockRef edge first last).filterMap fun row =>
    match wf.sampledValueAt validRef row.timeIdx point,
        wf.sampledValueAt readyRef row.timeIdx point with
    | some valid, some ready => some
        { time := row.time
          valid := analysisTruth valid.value
          ready := analysisTruth ready.value
          validValue := valid.value
          data := currentData wf dataRefs point row.timeIdx }
    | _, _ => none

end Samples

/-! ### The pass -/

/-- `rules.ready_without_valid`. -/
inductive ReadyReporting
  | summary | intervals | all
  deriving DecidableEq, Repr

/-- The rules of a request; its numbers are what an `unsigned int` holds of them. -/
structure HandshakeRules where
  maxWaitCycles : ℕ := 100
  checkDataStableWhenStalled : Bool := false
  requireValidHoldUntilHandshake : Bool := true
  readyWithoutValid : ReadyReporting := .summary
  lineLimit : ℕ := 100

/-- A finding with its fields; `observedValid` is rendered in the response. -/
inductive HandshakeFinding
  | validDroppedBeforeHandshake (since time : ℕ) (observedValid : WaveformValue) (reason : String)
  | readyWithoutValid (time : ℕ)
  | dataChangedWhileStalled (since time : ℕ) (signal : String)
  | longStall (since until_ cycles : ℕ) (openAtWindowEnd : Bool)
  deriving DecidableEq, Repr

/-- One entry of `ready_without_valid_intervals`. -/
structure ReadyInterval where
  since : ℕ
  until_ : ℕ
  cycleCount : ℕ
  openAtWindowEnd : Bool
  deriving DecidableEq, Repr

/-- The state of the hold rule. -/
structure WaitState where
  awaitingHandshake : Bool := false
  validWaitBegin : ℕ := 0
  validHoldViolations : ℕ := 0

/-- The state of the cycles with ready alone. -/
structure ReadyState where
  inReadyOnly : Bool := false
  readyBegin : ℕ := 0
  readyEnd : ℕ := 0
  readyIntervalCycles : ℕ := 0
  readyOnlyCycles : ℕ := 0
  readyIntervalCount : ℕ := 0
  readyIntervals : List ReadyInterval := []

/-- The state of the stalls. -/
structure StallState where
  inStall : Bool := false
  stallBegin : ℕ := 0
  stallCycles : ℕ := 0
  maxStall : ℕ := 0
  stallData : OrderedMap String String := .empty
  dataViolations : ℕ := 0

structure InspectState where
  samples : ℕ := 0
  transfers : ℕ := 0
  wait : WaitState := {}
  ready : ReadyState := {}
  stall : StallState := {}
  findings : List HandshakeFinding := []
  findingCount : ℕ := 0

section Pass

variable (rules : HandshakeRules) (sample : HandshakeSample)

/-- The reason of a dropped valid. -/
def dropReason : String :=
  if sample.valid = .unknown then "valid became unknown before a handshake"
  else "valid deasserted before a handshake"

/-- The hold rule: close a wait, then open one. -/
def waitStep (s : WaitState) : WaitState × List HandshakeFinding :=
  let (s, found) :=
    if rules.requireValidHoldUntilHandshake && s.awaitingHandshake then
      if sample.transfer then ({ s with awaitingHandshake := false }, [])
      else if sample.valid ≠ .true then
        ({ s with
            validHoldViolations := s.validHoldViolations + 1
            awaitingHandshake := false },
          [.validDroppedBeforeHandshake s.validWaitBegin sample.time sample.validValue
            (dropReason sample)])
      else (s, [])
    else (s, [])
  if rules.requireValidHoldUntilHandshake && sample.stall && !s.awaitingHandshake then
    ({ s with awaitingHandshake := true, validWaitBegin := sample.time }, found)
  else (s, found)

/-- `finish_ready_interval`. -/
def finishReadyInterval (openAtWindowEnd : Bool) (s : ReadyState) : ReadyState :=
  if !s.inReadyOnly then s
  else
    { s with
      readyIntervalCount := s.readyIntervalCount + 1
      readyIntervals :=
        if rules.readyWithoutValid = .intervals then
          s.readyIntervals ++ [⟨s.readyBegin, s.readyEnd, s.readyIntervalCycles, openAtWindowEnd⟩]
        else s.readyIntervals
      inReadyOnly := false
      readyIntervalCycles := 0 }

/-- The cycles with ready alone. -/
def readyStep (s : ReadyState) : ReadyState × List HandshakeFinding :=
  if sample.readyOnly then
    ({ s with
        readyOnlyCycles := s.readyOnlyCycles + 1
        inReadyOnly := true
        readyBegin := if !s.inReadyOnly then sample.time else s.readyBegin
        readyEnd := sample.time
        readyIntervalCycles := s.readyIntervalCycles + 1 },
      if rules.readyWithoutValid = .all then [.readyWithoutValid sample.time] else [])
  else (finishReadyInterval rules false s, [])

/-- The signals whose data differ from those at the start of the stall. -/
def changedData (s : StallState) : List String :=
  (sample.data.entries.filter fun item => (s.stallData.find? item.1).getD "" ≠ item.2).map Prod.fst

/-- The end of a stall, with the time and whether it is the end of the window. -/
def finishStall (time : ℕ) (openAtWindowEnd : Bool) (s : StallState) :
    StallState × List HandshakeFinding :=
  ({ s with maxStall := max s.maxStall s.stallCycles, inStall := false, stallCycles := 0 },
    if s.stallCycles > rules.maxWaitCycles then
      [.longStall s.stallBegin time s.stallCycles openAtWindowEnd]
    else [])

/-- The stalls. -/
def stallStep (s : StallState) : StallState × List HandshakeFinding :=
  if sample.stall then
    let s := { s with stallCycles := s.stallCycles + 1 }
    if !s.inStall then
      ({ s with inStall := true, stallBegin := sample.time, stallData := sample.data }, [])
    else if rules.checkDataStableWhenStalled then
      ({ s with dataViolations := s.dataViolations + (changedData sample s).length },
        (changedData sample s).map (.dataChangedWhileStalled s.stallBegin sample.time))
    else (s, [])
  else if s.inStall then finishStall rules sample.time false s
  else (s, [])

/-- `add_finding` for each finding of a list. -/
def addFindings (found : List HandshakeFinding) (s : InspectState) : InspectState :=
  found.foldl (fun s finding =>
    { s with
      findingCount := s.findingCount + 1
      findings :=
        if s.findings.length < rules.lineLimit then s.findings ++ [finding] else s.findings }) s

/-- The body of the loop. -/
def inspectStep (s : InspectState) (sample : HandshakeSample) : InspectState :=
  let (wait, dropped) := waitStep rules sample s.wait
  let (ready, alone) := readyStep rules sample s.ready
  let (stall, stalled) := stallStep rules sample s.stall
  addFindings rules (dropped ++ alone ++ stalled)
    { s with
      samples := s.samples + 1
      transfers := if sample.transfer then s.transfers + 1 else s.transfers
      wait, ready, stall }

/-- What follows the loop. -/
def inspectEnd (windowEnd : ℕ) (s : InspectState) : InspectState :=
  let (stall, stalled) :=
    if s.stall.inStall then finishStall rules windowEnd true s.stall else (s.stall, [])
  addFindings rules stalled
    { s with stall, ready := finishReadyInterval rules true s.ready }

/-- The pass over all samples. -/
def inspectSamples (windowEnd : ℕ) (samples : List HandshakeSample) : InspectState :=
  inspectEnd rules windowEnd (samples.foldl (inspectStep rules) {})

/-- The pass of `ProtocolHandshakeInspectHandler::run` over the samples of its signals. -/
def protocolHandshakeInspect (wf : Backend) (clockRef validRef readyRef : ℕ) (dataRefs : List ℕ)
    (edge : EdgeSelect) (after : Bool) (first last : ℕ) : InspectState :=
  inspectSamples rules last (handshakeSamples wf clockRef validRef readyRef dataRefs edge
    (analysisObservationPoint edge after) first last)

end Pass

/-! ### What the statistics mean -/

/-- A sample that closes a wait: a transfer, or one whose valid is not true. -/
def HandshakeSample.closes (s : HandshakeSample) : Bool := s.transfer || s.valid ≠ .true

section Meaning

variable (samples : List HandshakeSample)

/-- The sample at a place has a property. -/
def At (p : HandshakeSample → Bool) (i : ℕ) : Prop := placesOf p samples i = some ()

/-- The time of the sample at a place, or another time when there is no sample. -/
def timeAtOr (default : ℕ) (i : ℕ) : ℕ := (samples[i]?).elim default HandshakeSample.time

/-- The maximal runs of stalled samples. -/
def stallRuns : List (Run Unit) := runs (placesOf HandshakeSample.stall samples) samples.length

/-- The maximal runs of samples with ready alone. -/
def readyRuns : List (Run Unit) := runs (placesOf HandshakeSample.readyOnly samples) samples.length

/-- The interval of a run of samples with ready alone. -/
def readyInterval (r : Run Unit) : ReadyInterval where
  since := timeAtOr samples 0 r.first
  until_ := timeAtOr samples 0 r.last
  cycleCount := r.length
  openAtWindowEnd := r.last + 1 = samples.length

/-- The finding for a run of stalled samples, which ends with the sample behind the run or with
the window. -/
def stallFinding (windowEnd : ℕ) (r : Run Unit) : HandshakeFinding :=
  .longStall (timeAtOr samples 0 r.first) (timeAtOr samples windowEnd (r.last + 1)) r.length
    (r.last + 1 = samples.length)

/-- A stalled sample opens a wait if every stalled sample before it has been followed by one that
closes a wait. -/
structure Opens (i : ℕ) : Prop where
  stalled : At samples HandshakeSample.stall i
  none_open : ∀ k < i, At samples HandshakeSample.stall k →
    ∃ m, k < m ∧ m < i ∧ At samples HandshakeSample.closes m

/-- The wait that is opened at `i` is closed at `j`. -/
structure IsWait (i j : ℕ) : Prop where
  opens : Opens samples i
  lt : i < j
  closed : At samples HandshakeSample.closes j
  waiting : ∀ m, i < m → m < j → ¬ At samples HandshakeSample.closes m

/-- The wait ends because valid is not true. -/
def IsDropped (i j : ℕ) : Prop :=
  IsWait samples i j ∧ At samples (fun s => s.valid ≠ .true) j

end Meaning

def HandshakeFinding.isLongStall : HandshakeFinding → Bool
  | .longStall .. => true
  | _ => false

/-- The statistics are what they are called. -/
structure HandshakeStatistics (rules : HandshakeRules) (windowEnd : ℕ)
    (samples : List HandshakeSample) (result : InspectState) : Prop where
  transfers : result.transfers = samples.countP HandshakeSample.transfer
  max_stall : result.stall.maxStall = ((stallRuns samples).map Run.length).max?.getD 0
  ready_cycles : ((readyRuns samples).map Run.length).sum = result.ready.readyOnlyCycles
  ready_count : (readyRuns samples).length = result.ready.readyIntervalCount
  ready_intervals : rules.readyWithoutValid = .intervals →
    result.ready.readyIntervals = (readyRuns samples).map (readyInterval samples)
  hold_violations : rules.requireValidHoldUntilHandshake = true →
    ∃ drops : List (ℕ × ℕ), drops.Nodup ∧ (∀ i j, (i, j) ∈ drops ↔ IsDropped samples i j) ∧
      result.wait.validHoldViolations = drops.length
  open_wait : rules.requireValidHoldUntilHandshake = true →
    (result.wait.awaitingHandshake = true ↔
      ∃ i, Opens samples i ∧ ∀ m, i < m → ¬ At samples HandshakeSample.closes m)
  /-- The response keeps the first findings and counts all of them. -/
  long_stalls : ∃ made : List HandshakeFinding,
    result.findings = made.take rules.lineLimit ∧ result.findingCount = made.length ∧
    made.filter HandshakeFinding.isLongStall =
      ((stallRuns samples).filter fun r => r.length > rules.maxWaitCycles).map
        (stallFinding samples windowEnd)

/-! ### One sample -/

section Steps

variable {rules : HandshakeRules} {windowEnd : ℕ} {samples : List HandshakeSample} {n : ℕ}
  {sample : HandshakeSample}

lemma at_iff {p : HandshakeSample → Bool} (hn : samples[n]? = some sample) :
    At samples p n ↔ p sample = true := placesOf_eq_some hn

lemma At.lt_length {p : HandshakeSample → Bool} (h : At samples p n) : n < samples.length := by
  by_contra hge
  rw [At, placesOf, List.getElem?_eq_none (not_lt.1 hge)] at h
  cases h

lemma timeAtOr_eq (hn : samples[n]? = some sample) (default : ℕ) :
    timeAtOr samples default n = sample.time := by
  rw [timeAtOr, hn, Option.elim_some]

lemma max?_append_singleton (l : List ℕ) (a : ℕ) :
    (l ++ [a]).max?.getD 0 = max (l.max?.getD 0) a := by
  cases l with
  | nil => simp
  | cons b l =>
      rw [List.cons_append, List.max?_cons', List.max?_cons', List.foldl_append]
      rfl

lemma Run.length_singleton (i : ℕ) : (⟨i, i, ()⟩ : Run Unit).length = 1 := by
  rw [Run.length, Nat.sub_self]

/-- A run grows by one place. -/
lemma Run.length_extend {r : Run Unit} (hle : r.first ≤ r.last) (hlast : r.last + 1 = n) :
    ({ r with last := n } : Run Unit).length = r.length + 1 := by
  rw [Run.length, Run.length]
  show n - r.first + 1 = r.last - r.first + 1 + 1
  omega

/-- What the stall state says after `n` samples, with the long stalls found so far. -/
structure StallInv (rules : HandshakeRules) (windowEnd : ℕ) (samples : List HandshakeSample)
    (n : ℕ) (s : StallState) (long : List HandshakeFinding) (closed : List (Run Unit))
    (current : Option (Run Unit)) : Prop where
  progress : Progress (placesOf HandshakeSample.stall samples) n closed current
  in_stall : s.inStall = current.isSome
  max_stall : s.maxStall = (closed.map Run.length).max?.getD 0
  cycles : s.stallCycles = current.elim 0 Run.length
  since : ∀ r, current = some r → s.stallBegin = timeAtOr samples 0 r.first
  long_eq : long = (closed.filter fun r => r.length > rules.maxWaitCycles).map
    (stallFinding samples windowEnd)

variable {s : StallState} {long : List HandshakeFinding} {closed : List (Run Unit)}

/-- The end of a stall takes its run to those that have ended. -/
lemma StallInv.finish {r : Run Unit}
    (h : StallInv rules windowEnd samples n s long closed (some r)) (time : ℕ)
    (openAtWindowEnd : Bool)
    (htime : time = timeAtOr samples windowEnd (r.last + 1))
    (hopen : openAtWindowEnd = decide (r.last + 1 = samples.length)) :
    (finishStall rules time openAtWindowEnd s).1.maxStall =
        ((closed ++ [r]).map Run.length).max?.getD 0 ∧
      long ++ (finishStall rules time openAtWindowEnd s).2 =
        ((closed ++ [r]).filter fun r => r.length > rules.maxWaitCycles).map
          (stallFinding samples windowEnd) := by
  have hcycles : s.stallCycles = r.length := h.cycles
  constructor
  · rw [List.map_append, List.map_singleton, max?_append_singleton, ← h.max_stall, ← hcycles]
    rfl
  · rw [List.filter_append, List.map_append, ← h.long_eq, List.filter_singleton, finishStall,
      hcycles, h.since r rfl, htime, hopen]
    by_cases hlong : r.length > rules.maxWaitCycles
    · simp [hlong, stallFinding]
    · simp [hlong]

lemma isLongStall_of_finishStall {time : ℕ} {openAtWindowEnd : Bool} :
    (finishStall rules time openAtWindowEnd s).2.filter HandshakeFinding.isLongStall =
      (finishStall rules time openAtWindowEnd s).2 := by
  rw [finishStall]
  split_ifs <;> rfl

/-- A change of the data is no long stall. -/
lemma isLongStall_of_dataChanged (since time : ℕ) (signals : List String) :
    (signals.map (HandshakeFinding.dataChangedWhileStalled since time)).filter
      HandshakeFinding.isLongStall = [] := by
  rw [List.filter_eq_nil_iff]
  rintro _ hmem
  obtain ⟨signal, -, rfl⟩ := List.mem_map.1 hmem
  exact nofun

/-- A stall begins. -/
lemma StallInv.start (h : StallInv rules windowEnd samples n s long closed none)
    (hn : samples[n]? = some sample) (hstall : sample.stall = true) :
    StallInv rules windowEnd samples (n + 1) (stallStep rules sample s).1
      (long ++ (stallStep rules sample s).2.filter HandshakeFinding.isLongStall) closed
      (some ⟨n, n, ()⟩) := by
  have hin : s.inStall = false := h.in_stall
  have hcycles : s.stallCycles = 0 := h.cycles
  rw [stallStep, if_pos hstall]
  simp only [hin, Bool.not_false, if_true, List.filter_nil, List.append_nil]
  refine ⟨h.progress.start ((at_iff hn).2 hstall), rfl, h.max_stall, ?_, ?_, h.long_eq⟩
  · rw [Option.elim_some, Run.length_singleton, hcycles]
  · rintro r hr
    rw [← Option.some.inj hr]
    exact (timeAtOr_eq hn 0).symm

/-- What matters of the state when a stall goes on. -/
lemma StallInv.extend {r : Run Unit} {s' : StallState}
    (h : StallInv rules windowEnd samples n s long closed (some r))
    (hn : samples[n]? = some sample) (hstall : sample.stall = true) (hin : s'.inStall = true)
    (hmax : s'.maxStall = s.maxStall) (hcycles : s'.stallCycles = s.stallCycles + 1)
    (hsince : s'.stallBegin = s.stallBegin) :
    StallInv rules windowEnd samples (n + 1) s' long closed (some { r with last := n }) := by
  have hle := (h.progress.mem_iff.2 (Or.inr rfl)).le
  have hlength : s.stallCycles = r.length := h.cycles
  refine ⟨h.progress.extend ((at_iff hn).2 hstall), hin, hmax.trans h.max_stall, ?_, ?_, h.long_eq⟩
  · rw [hcycles, hlength, Option.elim_some, Run.length_extend hle (h.progress.current_eq r rfl)]
  · rintro r' hr'
    rw [← Option.some.inj hr', hsince, h.since r rfl]

/-- A stall goes on. -/
lemma StallInv.goes_on {r : Run Unit}
    (h : StallInv rules windowEnd samples n s long closed (some r))
    (hn : samples[n]? = some sample) (hstall : sample.stall = true) :
    StallInv rules windowEnd samples (n + 1) (stallStep rules sample s).1
      (long ++ (stallStep rules sample s).2.filter HandshakeFinding.isLongStall) closed
      (some { r with last := n }) := by
  have hin : s.inStall = true := h.in_stall
  rw [stallStep, if_pos hstall]
  simp only [hin, Bool.not_true, Bool.false_eq_true, if_false]
  split_ifs
  · rw [isLongStall_of_dataChanged, List.append_nil]
    exact h.extend hn hstall rfl rfl rfl rfl
  · rw [List.filter_nil, List.append_nil]
    exact h.extend hn hstall rfl rfl rfl rfl

/-- A sample that is not stalled ends the stall, if there is one. -/
lemma StallInv.gap {current : Option (Run Unit)}
    (h : StallInv rules windowEnd samples n s long closed current)
    (hn : samples[n]? = some sample) (hstall : ¬ sample.stall = true) :
    StallInv rules windowEnd samples (n + 1) (stallStep rules sample s).1
      (long ++ (stallStep rules sample s).2.filter HandshakeFinding.isLongStall)
      (closed ++ current.toList) none := by
  have hgap := h.progress.gap (placesOf_eq_none hn hstall)
  rw [stallStep, if_neg hstall]
  cases current with
  | none =>
      rw [if_neg (by rw [h.in_stall]; exact Bool.false_ne_true), List.filter_nil, List.append_nil]
      rw [Option.toList_none, List.append_nil] at hgap ⊢
      exact ⟨hgap, h.in_stall, h.max_stall, h.cycles, nofun, h.long_eq⟩
  | some r =>
      have hlast := h.progress.current_eq r rfl
      have hlt : n < samples.length := (List.getElem?_eq_some_iff.1 hn).1
      obtain ⟨hmax, hlong⟩ := h.finish sample.time false
        (by rw [hlast, timeAtOr_eq hn]) (by rw [hlast]; simp [hlt.ne])
      have hin : s.inStall = true := h.in_stall
      rw [if_pos hin, isLongStall_of_finishStall]
      exact ⟨hgap, rfl, hmax, rfl, nofun, hlong⟩

lemma StallInv.step {current : Option (Run Unit)}
    (h : StallInv rules windowEnd samples n s long closed current)
    (hn : samples[n]? = some sample) :
    ∃ closed' current', StallInv rules windowEnd samples (n + 1) (stallStep rules sample s).1
      (long ++ (stallStep rules sample s).2.filter HandshakeFinding.isLongStall)
      closed' current' := by
  by_cases hstall : sample.stall = true
  · cases current with
    | none => exact ⟨_, _, h.start hn hstall⟩
    | some r => exact ⟨_, _, h.goes_on hn hstall⟩
  · exact ⟨_, _, h.gap hn hstall⟩

end Steps

section ReadySteps

variable {rules : HandshakeRules} {samples : List HandshakeSample} {n : ℕ}
  {sample : HandshakeSample} {s : ReadyState} {closed : List (Run Unit)}
  {current : Option (Run Unit)}

/-- What the state of the ready intervals says after `n` samples. -/
structure ReadyInv (rules : HandshakeRules) (samples : List HandshakeSample) (n : ℕ)
    (s : ReadyState) (closed : List (Run Unit)) (current : Option (Run Unit)) : Prop where
  progress : Progress (placesOf HandshakeSample.readyOnly samples) n closed current
  in_ready : s.inReadyOnly = current.isSome
  cycles : s.readyIntervalCycles = current.elim 0 Run.length
  span : ∀ r, current = some r →
    s.readyBegin = timeAtOr samples 0 r.first ∧ s.readyEnd = timeAtOr samples 0 r.last
  total : s.readyOnlyCycles = (closed.map Run.length).sum + current.elim 0 Run.length
  count : s.readyIntervalCount = closed.length
  intervals : rules.readyWithoutValid = .intervals →
    s.readyIntervals = closed.map (readyInterval samples)

/-- The end of an interval takes its run to those that have ended. -/
lemma ReadyInv.finish (h : ReadyInv rules samples n s closed current) (openAtWindowEnd : Bool)
    (hopen : ∀ r, current = some r → openAtWindowEnd = decide (r.last + 1 = samples.length)) :
    let s' := finishReadyInterval rules openAtWindowEnd s
    let closed' := closed ++ current.toList
    s'.inReadyOnly = false ∧ s'.readyIntervalCycles = 0 ∧
      s'.readyOnlyCycles = (closed'.map Run.length).sum ∧ s'.readyIntervalCount = closed'.length ∧
      (rules.readyWithoutValid = .intervals →
        s'.readyIntervals = closed'.map (readyInterval samples)) := by
  dsimp only
  cases current with
  | none =>
      have hin : s.inReadyOnly = false := h.in_ready
      rw [finishReadyInterval, hin, Option.toList_none, List.append_nil]
      exact ⟨hin, h.cycles, h.total, h.count, h.intervals⟩
  | some r =>
      have hin : s.inReadyOnly = true := h.in_ready
      have hcycles : s.readyIntervalCycles = r.length := h.cycles
      have htotal : s.readyOnlyCycles = (closed.map Run.length).sum + r.length := h.total
      obtain ⟨hsince, huntil⟩ := h.span r rfl
      rw [finishReadyInterval, hin, Option.toList_some]
      refine ⟨rfl, rfl, ?_, ?_, fun hreporting => ?_⟩
      · rw [List.map_append, List.sum_append, List.map_singleton, List.sum_singleton]
        exact htotal
      · rw [List.length_append, ← h.count]
        rfl
      · rw [List.map_append, ← h.intervals hreporting, List.map_singleton, readyInterval, ← hsince,
          ← huntil, ← hcycles, ← hopen r rfl]
        simp [hreporting]

/-- An interval begins. -/
lemma ReadyInv.start (h : ReadyInv rules samples n s closed none) (hn : samples[n]? = some sample)
    (hready : sample.readyOnly = true) :
    ReadyInv rules samples (n + 1) (readyStep rules sample s).1 closed (some ⟨n, n, ()⟩) := by
  have hin : s.inReadyOnly = false := h.in_ready
  have hcycles : s.readyIntervalCycles = 0 := h.cycles
  have htotal : s.readyOnlyCycles = (closed.map Run.length).sum := h.total
  rw [readyStep, if_pos hready]
  refine ⟨h.progress.start ((at_iff hn).2 hready), rfl, ?_, ?_, ?_, h.count, h.intervals⟩
  · rw [Option.elim_some, Run.length_singleton, hcycles]
  · rintro r hr
    rw [← Option.some.inj hr, timeAtOr_eq hn, hin]
    exact ⟨rfl, rfl⟩
  · rw [Option.elim_some, Run.length_singleton, htotal]

/-- An interval goes on. -/
lemma ReadyInv.goes_on {r : Run Unit} (h : ReadyInv rules samples n s closed (some r))
    (hn : samples[n]? = some sample) (hready : sample.readyOnly = true) :
    ReadyInv rules samples (n + 1) (readyStep rules sample s).1 closed
      (some { r with last := n }) := by
  have hin : s.inReadyOnly = true := h.in_ready
  have hcycles : s.readyIntervalCycles = r.length := h.cycles
  have htotal : s.readyOnlyCycles = (closed.map Run.length).sum + r.length := h.total
  have hmax := h.progress.mem_iff.2 (Or.inr rfl)
  have hgrown := Run.length_extend hmax.le (h.progress.current_eq r rfl)
  rw [readyStep, if_pos hready]
  refine ⟨h.progress.extend ((at_iff hn).2 hready), rfl, ?_, ?_, ?_, h.count, h.intervals⟩
  · rw [Option.elim_some, hgrown, hcycles]
  · rintro r' hr'
    rw [← Option.some.inj hr', timeAtOr_eq hn, hin]
    exact ⟨(h.span r rfl).1, rfl⟩
  · rw [Option.elim_some, hgrown, htotal, Nat.add_assoc]

lemma ReadyInv.step (h : ReadyInv rules samples n s closed current)
    (hn : samples[n]? = some sample) :
    ∃ closed' current',
      ReadyInv rules samples (n + 1) (readyStep rules sample s).1 closed' current' := by
  by_cases hready : sample.readyOnly = true
  · cases current with
    | none => exact ⟨_, _, h.start hn hready⟩
    | some r => exact ⟨_, _, h.goes_on hn hready⟩
  · -- the sample ends the interval, if there is one
    have hplace : placesOf HandshakeSample.readyOnly samples n = none :=
      placesOf_eq_none hn hready
    have hlt : n < samples.length := (List.getElem?_eq_some_iff.1 hn).1
    obtain ⟨hin, hcycles, htotal, hcount, hintervals⟩ := h.finish false fun r hr => by
      rw [h.progress.current_eq r hr]
      simp [hlt.ne]
    rw [readyStep, if_neg hready]
    exact ⟨closed ++ current.toList, none, h.progress.gap hplace, hin, hcycles, nofun, htotal,
      hcount, hintervals⟩

end ReadySteps

section WaitSteps

variable {rules : HandshakeRules} {samples : List HandshakeSample} {n : ℕ}
  {sample : HandshakeSample} {s : WaitState} {drops : List (ℕ × ℕ)}

/-- What the state of the hold rule says after `n` samples, with the waits dropped so far. -/
structure WaitInv (samples : List HandshakeSample) (n : ℕ) (s : WaitState)
    (drops : List (ℕ × ℕ)) : Prop where
  nodup : drops.Nodup
  mem : ∀ i j, (i, j) ∈ drops ↔ IsDropped samples i j ∧ j < n
  count : s.validHoldViolations = drops.length
  waiting : s.awaitingHandshake = true → ∃ i < n, Opens samples i ∧
    ∀ m, i < m → m < n → ¬ At samples HandshakeSample.closes m
  shut : s.awaitingHandshake = false → ∀ k < n, At samples HandshakeSample.stall k →
    ∃ m, k < m ∧ m < n ∧ At samples HandshakeSample.closes m

/-- No sample both stalls and closes a wait. -/
lemma not_closes_of_stall (h : sample.stall = true) : sample.closes = false := by
  simp only [HandshakeSample.stall, Bool.and_eq_true, decide_eq_true_eq] at h
  simp [HandshakeSample.closes, HandshakeSample.transfer, h.1, h.2]

lemma Opens.not_closes {i : ℕ} (h : Opens samples i) : ¬ At samples HandshakeSample.closes i := by
  cases hi : samples[i]? with
  | none =>
      have hstalled := h.stalled
      rw [At, placesOf, hi] at hstalled
      cases hstalled
  | some sample =>
      rw [at_iff hi, not_closes_of_stall ((at_iff hi).1 h.stalled)]
      exact Bool.false_ne_true

/-- Of two stalls that open a wait, the second comes behind a sample that closes the first. -/
lemma IsWait.opens_unique {i i' j : ℕ} (h : IsWait samples i j) (h' : IsWait samples i' j) :
    i = i' := by
  rcases Nat.lt_trichotomy i i' with hlt | heq | hlt
  · obtain ⟨m, him, hmi, hcloses⟩ := h'.opens.none_open i hlt h.opens.stalled
    exact absurd hcloses (h.waiting m him (hmi.trans h'.lt))
  · exact heq
  · obtain ⟨m, him, hmi, hcloses⟩ := h.opens.none_open i' hlt h'.opens.stalled
    exact absurd hcloses (h'.waiting m him (hmi.trans h.lt))

/-- A sample that drops no wait leaves the dropped ones as they are. -/
lemma WaitInv.mem_succ (h : WaitInv samples n s drops) (hnone : ∀ i, ¬ IsDropped samples i n)
    (i j : ℕ) : (i, j) ∈ drops ↔ IsDropped samples i j ∧ j < n + 1 := by
  rw [h.mem i j]
  refine and_congr_right fun hdropped => ?_
  have hne : j ≠ n := by
    rintro rfl
    exact hnone i hdropped
  omega

/-- A sample that closes waits leaves none open. -/
lemma shut_of_closes (hn : samples[n]? = some sample) (hcloses : sample.closes = true) {k : ℕ}
    (hk : k < n + 1) (hstall : At samples HandshakeSample.stall k) :
    ∃ m, k < m ∧ m < n + 1 ∧ At samples HandshakeSample.closes m := by
  refine ⟨n, lt_of_le_of_ne (Nat.lt_succ_iff.1 hk) ?_, Nat.lt_succ_self n, (at_iff hn).2 hcloses⟩
  rintro rfl
  rw [not_closes_of_stall ((at_iff hn).1 hstall)] at hcloses
  cases hcloses

/-- A sample with valid true drops no wait. -/
lemma not_isDropped_of_valid (hn : samples[n]? = some sample) (hvalid : sample.valid = .true)
    (i : ℕ) : ¬ IsDropped samples i n := by
  rintro ⟨-, hat⟩
  rw [at_iff hn] at hat
  simp [hvalid] at hat

/-- The handshake closes the wait. -/
lemma WaitInv.transfer (hhold : rules.requireValidHoldUntilHandshake = true)
    (h : WaitInv samples n s drops) (hn : samples[n]? = some sample)
    (hawaiting : s.awaitingHandshake = true) (htransfer : sample.transfer = true) :
    WaitInv samples (n + 1) (waitStep rules sample s).1 drops := by
  have hvalid : sample.valid = .true ∧ sample.ready = .true := by
    simpa [HandshakeSample.transfer] using htransfer
  have hcloses : sample.closes = true := by
    rw [HandshakeSample.closes, htransfer, Bool.true_or]
  have hstall : sample.stall = false := by
    simp [HandshakeSample.stall, hvalid.2]
  have hstep : (waitStep rules sample s).1 = { s with awaitingHandshake := false } := by
    simp [waitStep, hhold, hawaiting, htransfer, hstall]
  rw [hstep]
  exact ⟨h.nodup, h.mem_succ (not_isDropped_of_valid hn hvalid.1), h.count, nofun,
    fun _ _ hk => shut_of_closes hn hcloses hk⟩

/-- The wait goes on. -/
lemma WaitInv.goes_on (hhold : rules.requireValidHoldUntilHandshake = true)
    (h : WaitInv samples n s drops) (hn : samples[n]? = some sample)
    (hawaiting : s.awaitingHandshake = true) (htransfer : sample.transfer = false)
    (hvalid : sample.valid = .true) :
    WaitInv samples (n + 1) (waitStep rules sample s).1 drops := by
  have hcloses : ¬ At samples HandshakeSample.closes n := by
    rw [at_iff hn]
    simp [HandshakeSample.closes, htransfer, hvalid]
  have hstep : (waitStep rules sample s).1 = s := by
    simp [waitStep, hhold, hawaiting, htransfer, hvalid]
  rw [hstep]
  obtain ⟨i, hi, hopens, hwaits⟩ := h.waiting hawaiting
  refine ⟨h.nodup, h.mem_succ (not_isDropped_of_valid hn hvalid), h.count, fun _ => ?_, ?_⟩
  · refine ⟨i, by omega, hopens, fun m him hm => ?_⟩
    rcases Nat.lt_succ_iff_lt_or_eq.1 hm with hm | rfl
    · exact hwaits m him hm
    · exact hcloses
  · intro hfalse
    rw [hawaiting] at hfalse
    cases hfalse

/-- One more wait is dropped. -/
lemma WaitInv.mem_append (h : WaitInv samples n s drops) {i : ℕ} (hdropped : IsDropped samples i n)
    (i' j : ℕ) : (i', j) ∈ drops ++ [(i, n)] ↔ IsDropped samples i' j ∧ j < n + 1 := by
  rw [List.mem_append, List.mem_singleton, Prod.mk.injEq, h.mem]
  constructor
  · rintro (⟨hbefore, hj⟩ | ⟨rfl, rfl⟩)
    · exact ⟨hbefore, by omega⟩
    · exact ⟨hdropped, Nat.lt_succ_self j⟩
  · rintro ⟨hbefore, hj⟩
    rcases Nat.lt_succ_iff_lt_or_eq.1 hj with hj | rfl
    · exact Or.inl ⟨hbefore, hj⟩
    · exact Or.inr ⟨hbefore.1.opens_unique hdropped.1, rfl⟩

/-- The wait ends because valid is dropped. -/
lemma WaitInv.drop (hhold : rules.requireValidHoldUntilHandshake = true)
    (h : WaitInv samples n s drops) (hn : samples[n]? = some sample)
    (hawaiting : s.awaitingHandshake = true) (hvalid : sample.valid ≠ .true) :
    ∃ i, WaitInv samples (n + 1) (waitStep rules sample s).1 (drops ++ [(i, n)]) := by
  obtain ⟨i, hi, hopens, hwaits⟩ := h.waiting hawaiting
  have hcloses : sample.closes = true := by
    simp [HandshakeSample.closes, hvalid]
  have hdropped : IsDropped samples i n :=
    ⟨⟨hopens, hi, (at_iff hn).2 hcloses, hwaits⟩, by rw [at_iff hn]; simpa using hvalid⟩
  have htransfer : sample.transfer = false := by
    simp [HandshakeSample.transfer, hvalid]
  have hstall : sample.stall = false := by
    simp [HandshakeSample.stall, hvalid]
  have hstep : (waitStep rules sample s).1 =
      { s with
        validHoldViolations := s.validHoldViolations + 1
        awaitingHandshake := false } := by
    simp [waitStep, hhold, hawaiting, htransfer, hvalid, hstall]
  rw [hstep]
  refine ⟨i, ?_, h.mem_append hdropped, ?_, nofun, fun _ _ hk => shut_of_closes hn hcloses hk⟩
  · rw [List.nodup_append]
    refine ⟨h.nodup, List.nodup_singleton _, ?_⟩
    rintro a ha b hb rfl
    obtain rfl := List.mem_singleton.1 hb
    exact absurd ((h.mem i n).1 ha).2 (lt_irrefl n)
  · rw [List.length_append, ← h.count]
    rfl

/-- Without an open wait, a stall opens one. -/
lemma WaitInv.shut_step (hhold : rules.requireValidHoldUntilHandshake = true)
    (h : WaitInv samples n s drops) (hn : samples[n]? = some sample)
    (hawaiting : s.awaitingHandshake = false) :
    WaitInv samples (n + 1) (waitStep rules sample s).1 drops := by
  have hshut := h.shut hawaiting
  have hnone : ∀ i, ¬ IsDropped samples i n := by
    rintro i ⟨hwait, -⟩
    obtain ⟨m, him, hmn, hcloses⟩ := hshut i hwait.lt hwait.opens.stalled
    exact hwait.waiting m him hmn hcloses
  cases hstall : sample.stall with
  | true =>
      have hstep : (waitStep rules sample s).1 =
          { s with awaitingHandshake := true, validWaitBegin := sample.time } := by
        simp [waitStep, hhold, hawaiting, hstall]
      rw [hstep]
      refine ⟨h.nodup, h.mem_succ hnone, h.count, fun _ => ?_, nofun⟩
      refine ⟨n, Nat.lt_succ_self n, ⟨(at_iff hn).2 hstall, hshut⟩, fun m hnm hm => ?_⟩
      omega
  | false =>
      have hstep : (waitStep rules sample s).1 = s := by
        simp [waitStep, hhold, hawaiting, hstall]
      rw [hstep]
      refine ⟨h.nodup, h.mem_succ hnone, h.count, ?_, fun _ k hk hat => ?_⟩
      · intro htrue
        rw [hawaiting] at htrue
        cases htrue
      · have hne : k ≠ n := by
          rintro rfl
          rw [at_iff hn, hstall] at hat
          cases hat
        obtain ⟨m, hkm, hmn, hcloses⟩ := hshut k (by omega) hat
        exact ⟨m, hkm, by omega, hcloses⟩

lemma WaitInv.step (hhold : rules.requireValidHoldUntilHandshake = true)
    (h : WaitInv samples n s drops) (hn : samples[n]? = some sample) :
    ∃ drops', WaitInv samples (n + 1) (waitStep rules sample s).1 drops' := by
  cases hawaiting : s.awaitingHandshake with
  | false => exact ⟨drops, h.shut_step hhold hn hawaiting⟩
  | true =>
      cases htransfer : sample.transfer with
      | true => exact ⟨drops, h.transfer hhold hn hawaiting htransfer⟩
      | false =>
          by_cases hvalid : sample.valid = .true
          · exact ⟨drops, h.goes_on hhold hn hawaiting htransfer hvalid⟩
          · obtain ⟨i, hdrop⟩ := h.drop hhold hn hawaiting hvalid
            exact ⟨_, hdrop⟩

end WaitSteps

/-! ### The whole pass -/

section Run

variable {rules : HandshakeRules} {windowEnd : ℕ} {samples : List HandshakeSample} {n : ℕ}
  {sample : HandshakeSample}

/-- The findings are added as long as there is room, and all of them are counted. -/
lemma addFindings_eq (found : List HandshakeFinding) (s : InspectState) :
    addFindings rules found s =
      { s with
        findingCount := s.findingCount + found.length
        findings := s.findings ++ found.take (rules.lineLimit - s.findings.length) } := by
  induction found generalizing s with
  | nil => simp [addFindings]
  | cons finding found ih =>
      rw [addFindings, List.foldl_cons, ← addFindings, ih]
      by_cases hroom : s.findings.length < rules.lineLimit
      · have hleft : rules.lineLimit - s.findings.length =
            rules.lineLimit - (s.findings.length + 1) + 1 := by omega
        simp only [hroom, if_true, List.length_append, hleft, List.take_succ_cons,
          List.append_assoc, List.singleton_append, List.length_cons]
        congr 1
        omega
      · have hfull : rules.lineLimit - s.findings.length = 0 := by omega
        simp only [hroom, if_false, hfull, List.take_zero, List.length_cons]
        congr 1
        omega

/-- `made` are the findings that have been made. -/
structure FindingsInv (rules : HandshakeRules) (s : InspectState)
    (made : List HandshakeFinding) : Prop where
  findings : s.findings = made.take rules.lineLimit
  count : s.findingCount = made.length

lemma FindingsInv.add {s s' : InspectState} {made : List HandshakeFinding}
    (h : FindingsInv rules s made) (hfindings : s'.findings = s.findings)
    (hcount : s'.findingCount = s.findingCount) (found : List HandshakeFinding) :
    FindingsInv rules (addFindings rules found s') (made ++ found) := by
  rw [addFindings_eq, hfindings, hcount]
  refine ⟨?_, ?_⟩
  · show s.findings ++ _ = _
    rw [h.findings, List.take_append, List.length_take]
    congr 2
    omega
  · rw [List.length_append, ← h.count]

lemma waitStep_no_longStall (s : WaitState) :
    (waitStep rules sample s).2.filter HandshakeFinding.isLongStall = [] := by
  rw [waitStep]
  split_ifs <;> dsimp only <;> split_ifs <;> rfl

lemma readyStep_no_longStall (s : ReadyState) :
    (readyStep rules sample s).2.filter HandshakeFinding.isLongStall = [] := by
  rw [readyStep]
  split_ifs <;> rfl

/-- What holds after `n` samples. -/
structure InspectInv (rules : HandshakeRules) (windowEnd : ℕ) (samples : List HandshakeSample)
    (n : ℕ) (s : InspectState) : Prop where
  transfers : s.transfers = (samples.take n).countP HandshakeSample.transfer
  ready : ∃ closed current, ReadyInv rules samples n s.ready closed current
  wait : rules.requireValidHoldUntilHandshake = true → ∃ drops, WaitInv samples n s.wait drops
  stall : ∃ made closed current, FindingsInv rules s made ∧
    StallInv rules windowEnd samples n s.stall (made.filter HandshakeFinding.isLongStall)
      closed current

lemma InspectInv.zero : InspectInv rules windowEnd samples 0 {} where
  transfers := rfl
  ready := ⟨[], none, Progress.zero _, rfl, rfl, nofun, rfl, rfl, fun _ => rfl⟩
  wait _ := ⟨[], List.nodup_nil, by simp, rfl, nofun, fun _ k hk => absurd hk k.not_lt_zero⟩
  stall := ⟨[], [], none, ⟨List.take_nil.symm, rfl⟩, Progress.zero _, rfl, rfl, rfl, nofun, rfl⟩

lemma InspectInv.step {s : InspectState} (h : InspectInv rules windowEnd samples n s)
    (hn : samples[n]? = some sample) :
    InspectInv rules windowEnd samples (n + 1) (inspectStep rules s sample) := by
  obtain ⟨closed, current, hready⟩ := h.ready
  obtain ⟨made, ended, stalled, hmade, hstall⟩ := h.stall
  let found := (waitStep rules sample s.wait).2 ++ (readyStep rules sample s.ready).2 ++
    (stallStep rules sample s.stall).2
  have hfound : (made ++ found).filter HandshakeFinding.isLongStall =
      made.filter HandshakeFinding.isLongStall ++
        (stallStep rules sample s.stall).2.filter HandshakeFinding.isLongStall := by
    rw [List.filter_append, List.filter_append, List.filter_append, waitStep_no_longStall,
      readyStep_no_longStall, List.nil_append, List.nil_append]
  have hadded : FindingsInv rules (inspectStep rules s sample) (made ++ found) := by
    rw [inspectStep]
    exact hmade.add (by rfl) (by rfl) found
  have heq : inspectStep rules s sample = _ := addFindings_eq _ _
  refine ⟨?_, ?_, fun hhold => ?_, ?_⟩
  · rw [heq, List.take_add_one, hn, Option.toList_some, List.countP_append, List.countP_singleton,
      ← h.transfers]
    show (if sample.transfer then s.transfers + 1 else s.transfers) = _
    split_ifs <;> rfl
  · rw [heq]
    exact hready.step hn
  · rw [heq]
    obtain ⟨drops, hwait⟩ := h.wait hhold
    exact hwait.step hhold hn
  · obtain ⟨ended', stalled', hnext⟩ := hstall.step hn
    refine ⟨made ++ found, ended', stalled', hadded, ?_⟩
    rw [hfound, heq]
    exact hnext

variable (rules windowEnd) in
lemma InspectInv.run (hn : n ≤ samples.length) :
    InspectInv rules windowEnd samples n ((samples.take n).foldl (inspectStep rules) {}) := by
  induction n with
  | zero => exact InspectInv.zero
  | succ n ih =>
      have hget : samples[n]? = some samples[n] := List.getElem?_eq_getElem hn
      rw [List.take_add_one, hget, Option.toList_some, List.foldl_append]
      exact (ih (Nat.le_of_succ_le hn)).step hget

/-- The stall that is open at the end of the window, and its finding. -/
lemma StallInv.finish_window {s : StallState} {long : List HandshakeFinding}
    {closed : List (Run Unit)} {current : Option (Run Unit)}
    (h : StallInv rules windowEnd samples samples.length s long closed current) :
    (if s.inStall then finishStall rules windowEnd true s else (s, [])).1.maxStall =
        ((stallRuns samples).map Run.length).max?.getD 0 ∧
      long ++ (if s.inStall then finishStall rules windowEnd true s else (s, [])).2.filter
          HandshakeFinding.isLongStall =
        ((stallRuns samples).filter fun r => r.length > rules.maxWaitCycles).map
          (stallFinding samples windowEnd) := by
  have hruns : stallRuns samples = closed ++ current.toList := h.progress.runs_eq
  rw [hruns]
  cases current with
  | none =>
      have hin : s.inStall = false := h.in_stall
      rw [hin, Option.toList_none, List.append_nil]
      refine ⟨h.max_stall, ?_⟩
      rw [← h.long_eq]
      exact List.append_nil _
  | some r =>
      have hin : s.inStall = true := h.in_stall
      have hlast := h.progress.current_eq r rfl
      rw [hin, if_pos rfl, isLongStall_of_finishStall]
      refine h.finish windowEnd true ?_ (by simp [hlast])
      rw [hlast, timeAtOr, List.getElem?_eq_none le_rfl, Option.elim_none]

/-- After the last sample a wait is open exactly when no later sample closes it. -/
lemma WaitInv.awaiting_iff {s : WaitState} {drops : List (ℕ × ℕ)}
    (h : WaitInv samples samples.length s drops) : s.awaitingHandshake = true ↔
      ∃ i, Opens samples i ∧ ∀ m, i < m → ¬ At samples HandshakeSample.closes m := by
  constructor
  · intro hawaiting
    obtain ⟨i, -, hopens, hwaits⟩ := h.waiting hawaiting
    exact ⟨i, hopens, fun m him hat => hwaits m him hat.lt_length hat⟩
  · rintro ⟨i, hopens, hwaits⟩
    by_contra hawaiting
    obtain ⟨m, him, -, hcloses⟩ := h.shut (by simpa using hawaiting) i
      hopens.stalled.lt_length hopens.stalled
    exact hwaits m him hcloses

/-- The end of the window closes the run that is open. -/
lemma InspectInv.finish {s : InspectState}
    (h : InspectInv rules windowEnd samples samples.length s) :
    HandshakeStatistics rules windowEnd samples (inspectEnd rules windowEnd s) := by
  obtain ⟨closed, current, hready⟩ := h.ready
  obtain ⟨made, ended, stalled, hmade, hstall⟩ := h.stall
  have hreadyRuns : readyRuns samples = closed ++ current.toList := hready.progress.runs_eq
  obtain ⟨-, -, htotal, hcount, hintervals⟩ := hready.finish true fun r hr => by
    rw [hready.progress.current_eq r hr]
    simp
  obtain ⟨hmax, hlong⟩ := hstall.finish_window
  have heq : inspectEnd rules windowEnd s = _ := addFindings_eq _ _
  refine ⟨?_, ?_, ?_, ?_, fun hreporting => ?_, fun hhold => ?_, fun hhold => ?_, ?_⟩
  · rw [heq]
    refine h.transfers.trans ?_
    rw [List.take_length]
  · rw [heq]
    exact hmax
  · rw [heq, hreadyRuns]
    exact htotal.symm
  · rw [heq, hreadyRuns]
    exact hcount.symm
  · rw [heq, hreadyRuns]
    exact hintervals hreporting
  · obtain ⟨drops, hwait⟩ := h.wait hhold
    refine ⟨drops, hwait.nodup, fun i j => ?_, ?_⟩
    · rw [hwait.mem]
      exact and_iff_left_of_imp fun hdropped => hdropped.2.lt_length
    · rw [heq]
      exact hwait.count
  · obtain ⟨drops, hwait⟩ := h.wait hhold
    rw [heq]
    exact hwait.awaiting_iff
  · let found := (if s.stall.inStall then finishStall rules windowEnd true s.stall
      else (s.stall, [])).2
    have hadded : FindingsInv rules (inspectEnd rules windowEnd s) (made ++ found) := by
      rw [inspectEnd]
      exact hmade.add (by rfl) (by rfl) found
    refine ⟨made ++ found, hadded.findings, hadded.count, ?_⟩
    rw [List.filter_append]
    exact hlong

end Run

/-- For every sequence of samples the pass computes what its statistics are called. -/
theorem handshakeStatistics_inspectSamples (rules : HandshakeRules) (windowEnd : ℕ)
    (samples : List HandshakeSample) :
    HandshakeStatistics rules windowEnd samples (inspectSamples rules windowEnd samples) := by
  have hrun := InspectInv.run rules windowEnd (le_refl samples.length)
  rw [List.take_length] at hrun
  exact hrun.finish

/-- What a signal says at a time index. -/
def sampledTruth (wf : Backend) (ref timeIdx : ℕ) (point : ObservationPoint) : AnalysisTri :=
  (wf.sampledValueAt ref timeIdx point).elim .unknown fun sampled => analysisTruth sampled.value

/-- The transfers of the action are the edges of the clock in the range at which both signals are
true. -/
theorem transfers_protocolHandshakeInspect (rules : HandshakeRules) (wf : Backend)
    (clockRef validRef readyRef : ℕ) (dataRefs : List ℕ) (edge : EdgeSelect) (after : Bool)
    (first last : ℕ) :
    (protocolHandshakeInspect rules wf clockRef validRef readyRef dataRefs edge after first
        last).transfers =
      (collectAnalysisEdges wf clockRef edge first last).countP fun row =>
        sampledTruth wf validRef row.timeIdx (analysisObservationPoint edge after) = .true ∧
          sampledTruth wf readyRef row.timeIdx (analysisObservationPoint edge after) = .true := by
  have hrun := InspectInv.run rules last (le_refl (handshakeSamples wf clockRef validRef readyRef
    dataRefs edge (analysisObservationPoint edge after) first last).length)
  rw [List.take_length] at hrun
  refine hrun.finish.transfers.trans ?_
  rw [handshakeSamples, List.countP_filterMap]
  refine List.countP_congr fun row _ => ?_
  rw [decide_eq_true_iff, sampledTruth, sampledTruth]
  cases wf.sampledValueAt validRef row.timeIdx (analysisObservationPoint edge after) with
  | none => simp
  | some valid =>
      cases wf.sampledValueAt readyRef row.timeIdx (analysisObservationPoint edge after) with
      | none => simp
      | some ready => simp [HandshakeSample.transfer]

end XdebugFst.Clock
