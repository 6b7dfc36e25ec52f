import Mathlib
import XdebugFst.Lib.Cuts
import XdebugFst.Lib.Throws
import XdebugFst.Signal.Changes

/-!
# Pulses and stuck signals

`signal.anomaly.inspect` looks at the rows of `collect_changes` and the times between them. What
lies between two rows is a glitch if it is short, and the signal is stuck if it is long; the last
row goes until the end of the range.

A row begins where the range begins, also if the signal does not change there. The time from it to
the first change is only a part of a longer interval, which need not be a glitch.
`inspectsAnomalies_iff` says exactly when the findings are right.
-/

namespace XdebugFst.Signal

open Lib Lib.History Waveform XdebugFst.Lists

/-! ### The rules -/

/-- A check of the request, with what `parse_time` makes of its threshold. -/
inductive AnomalyCheck
  | unknownXz
  | glitch (minPulseWidth : Except String ℕ)
  | stuck (minDuration : Except String ℕ)

/-- The variables that the checks set. -/
structure AnomalyRules where
  checkUnknown : Bool := false
  checkGlitch : Bool := false
  checkStuck : Bool := false
  glitchWidth : ℕ := 0
  stuckDuration : ℕ := 0

/-- A threshold, or the message of `INVALID_TIME`. -/
def thresholdOf (field : String) (parsed : Except String ℕ) : Except String ℕ :=
  match parsed with
  | .ok ticks => if ticks = 0 then .error (field ++ " must be greater than zero") else .ok ticks
  | .error message =>
      .error (if message = "" then field ++ " must be greater than zero" else message)

def ruleStep (rules : AnomalyRules) : AnomalyCheck → Except String AnomalyRules
  | .unknownXz => .ok { rules with checkUnknown := true }
  | .glitch minPulseWidth => do
      return { rules with
        checkGlitch := true
        glitchWidth := ← thresholdOf "min_pulse_width" minPulseWidth }
  | .stuck minDuration => do
      return { rules with
        checkStuck := true
        stuckDuration := ← thresholdOf "min_duration" minDuration }

/-- The rules of a request. Without checks it asks for unknown bits, and for signals that are stuck
for `1us`. -/
def rulesOf (oneMicrosecond : Except String ℕ) (checks : List AnomalyCheck) :
    Except String AnomalyRules := do
  if checks.isEmpty then
    return { checkUnknown := true, checkStuck := true, stuckDuration := ← oneMicrosecond }
  else checks.foldlM ruleStep {}

/-- The thresholds that are used are greater than zero. -/
structure PositiveThresholds (rules : AnomalyRules) : Prop where
  glitch : rules.checkGlitch = true → 0 < rules.glitchWidth
  stuck : rules.checkStuck = true → 0 < rules.stuckDuration

lemma thresholdOf_pos {field : String} {parsed : Except String ℕ} {ticks : ℕ}
    (h : thresholdOf field parsed = .ok ticks) : 0 < ticks := by
  cases parsed with
  | error message => cases h
  | ok parsedTicks =>
      rw [thresholdOf] at h
      split_ifs at h with hzero
      obtain rfl := Except.ok.inj h
      exact Nat.pos_of_ne_zero hzero

lemma PositiveThresholds.ruleStep {rules rules' : AnomalyRules} {check : AnomalyCheck}
    (h : PositiveThresholds rules) (hstep : ruleStep rules check = .ok rules') :
    PositiveThresholds rules' := by
  cases check with
  | unknownXz =>
      obtain rfl := Except.ok.inj hstep
      exact ⟨h.glitch, h.stuck⟩
  | glitch minPulseWidth =>
      obtain ⟨ticks, hticks, hrules⟩ := exists_of_bind_eq_ok hstep
      obtain rfl := Except.ok.inj hrules
      exact ⟨fun _ => thresholdOf_pos hticks, h.stuck⟩
  | stuck minDuration =>
      obtain ⟨ticks, hticks, hrules⟩ := exists_of_bind_eq_ok hstep
      obtain rfl := Except.ok.inj hrules
      exact ⟨h.glitch, fun _ => thresholdOf_pos hticks⟩

/-- A request whose rules are accepted has thresholds greater than zero, if `1us` is more than zero
ticks of the waveform. -/
lemma positiveThresholds_of_rulesOf {oneMicrosecond : Except String ℕ} {checks : List AnomalyCheck}
    {rules : AnomalyRules} (hdefault : ∀ ticks, oneMicrosecond = .ok ticks → 0 < ticks)
    (h : rulesOf oneMicrosecond checks = .ok rules) : PositiveThresholds rules := by
  have hrun : ∀ (checks : List AnomalyCheck) (start : AnomalyRules), PositiveThresholds start →
      checks.foldlM ruleStep start = .ok rules → PositiveThresholds rules := by
    intro checks
    induction checks with
    | nil =>
        intro start hstart hrules
        obtain rfl := Except.ok.inj hrules
        exact hstart
    | cons check checks ih =>
        intro start hstart hrules
        rw [List.foldlM_cons] at hrules
        obtain ⟨next, hnext, hrules⟩ := exists_of_bind_eq_ok hrules
        exact ih next (hstart.ruleStep hnext) hrules
  rw [rulesOf] at h
  split_ifs at h with hempty
  · obtain ⟨ticks, hticks, hrules⟩ := exists_of_bind_eq_ok h
    obtain rfl := Except.ok.inj hrules
    exact ⟨nofun, fun _ => hdefault ticks hticks⟩
  · exact hrun checks {} ⟨nofun, nofun⟩ h

/-! ### The findings -/

inductive Finding
  | unknownXz (time : ℕ) (value : WaveformValue)
  | glitch (time pulseWidth : ℕ)
  | stuck (first last duration : ℕ) (value : WaveformValue) (openAtWindowEnd : Bool)
  deriving DecidableEq, Repr

/-- `contains_xz`. -/
def containsXz (bits : String) : Bool := containsBit bits 'x' || containsBit bits 'z'

section Findings

variable (rules : AnomalyRules)

def unknownFinding (row : ChangeRow) : List Finding :=
  if rules.checkUnknown && row.value.kind = .bitVector && containsXz row.value.text then
    [.unknownXz row.time row.value]
  else []

/-- The findings about the time between two rows. -/
def intervalFindings (row next : ChangeRow) : List Finding :=
  let duration := next.time - row.time
  (if rules.checkGlitch && duration > 0 && duration < rules.glitchWidth then
    [.glitch row.time duration]
  else []) ++
  if rules.checkStuck && duration ≥ rules.stuckDuration then
    [.stuck row.time next.time duration row.value false]
  else []

/-- The loop over the rows. -/
def rowFindings : List ChangeRow → List Finding
  | [] => []
  | [row] => unknownFinding rules row
  | row :: next :: rest =>
      unknownFinding rules row ++ intervalFindings rules row next ++ rowFindings (next :: rest)

/-- The finding about the time from the last row to the end of the range. -/
def openFinding (last : ℕ) (rows : List ChangeRow) : List Finding :=
  match rows.getLast? with
  | none => []
  | some row =>
      if rules.checkStuck && last ≥ row.time && last - row.time ≥ rules.stuckDuration then
        [.stuck row.time last (last - row.time) row.value true]
      else []

/-- The findings about a signal. -/
def signalFindings {table : TimeTable} (first last : ℕ) (signal : TypedSignal table) :
    List Finding :=
  let rows := collectChanges signal.toWaveSignal first last
  rowFindings rules rows ++ openFinding rules last rows

end Findings

/-! ### The response -/

inductive ScanStatus
  | error (signal message : String)
  | ok (signal : String) (changeRowCount findingCount : ℕ) (noFindingReason : Option String)
  deriving DecidableEq, Repr

/-- The variables of the loop over the signals. -/
structure InspectState where
  findings : List (String × Finding) := []
  findingCount : ℕ := 0
  analysisComplete : Bool := true
  scanStatus : List ScanStatus := []

structure InspectReport where
  findings : List (String × Finding)
  scanStatus : List ScanStatus
  signalCount : ℕ
  glitchThreshold : Option ℕ
  stuckThreshold : Option ℕ
  scanComplete : Bool
  analysisComplete : Bool
  responseTruncated : Bool
  totalCount : ℕ
  returnedCount : ℕ
  truncationScopes : List String

section Inspect

variable {table : TimeTable} (find : String → Except String (TypedSignal table))
  (rules : AnomalyRules) (limit first last : ℕ)

/-- `add_finding`. -/
def addFinding (s : InspectState) (finding : String × Finding) : InspectState :=
  { s with
    findingCount := s.findingCount + 1
    findings := if s.findings.length < limit then s.findings ++ [finding] else s.findings }

/-- The loop over the signals. -/
def inspectStep (s : InspectState) (name : String) : InspectState :=
  match find name with
  | .error message =>
      { s with
        analysisComplete := false
        scanStatus := s.scanStatus ++ [.error name message] }
  | .ok signal =>
      let found := signalFindings rules first last signal
      let s := (found.map (name, ·)).foldl (addFinding limit) s
      { s with
        scanStatus := s.scanStatus ++
          [.ok name (collectChanges signal.toWaveSignal first last).length found.length
            (if found.length = 0 then
              some "no configured rule matched in the requested window"
            else none)] }

/-- `SignalAnomalyInspectHandler::run`. -/
def inspectAnomalies (names : List String) : InspectReport :=
  let s := names.foldl (inspectStep find rules limit first last) {}
  let responseTruncated : Bool := s.findings.length < s.findingCount
  { findings := s.findings
    scanStatus := s.scanStatus
    signalCount := s.scanStatus.length
    glitchThreshold := if rules.checkGlitch then some rules.glitchWidth else none
    stuckThreshold := if rules.checkStuck then some rules.stuckDuration else none
    scanComplete := s.analysisComplete
    analysisComplete := s.analysisComplete
    responseTruncated
    totalCount := s.findingCount
    returnedCount := s.findings.length
    truncationScopes := (if s.analysisComplete then [] else ["analysis_signals"]) ++
      if responseTruncated then ["response_findings"] else [] }

/-- What is found in all signals that can be read. -/
def allFindings (names : List String) : List (String × Finding) :=
  names.flatMap fun name =>
    match find name with
    | .error _ => []
    | .ok signal => (signalFindings rules first last signal).map (name, ·)

end Inspect

/-! ### What the findings should be -/

section Statements

variable {table : TimeTable} (rules : AnomalyRules) (first last : ℕ)

/-- The changes of a signal that the backend can read. -/
def readableIndices (signal : WaveSignal table) : List ℕ :=
  signal.timeIndicesOf.filter fun ti => (sampleRaw signal.changes ti).isSome

/-- The settled value at a time: that of the last change up to then. -/
def settledAt (signal : WaveSignal table) (t : ℕ) : Option WaveformValue :=
  (lastWhere (fun ti => table.timeAt ti ≤ t) (readableIndices signal)).bind
    (sampleRaw signal.changes)

/-- What counts of the settled value at a time. -/
def settledKey (signal : WaveSignal table) (t : ℕ) : Option (ValueKind × String) :=
  (settledAt signal t).map valueKey

/-- The loop over the changes begins a row at this time: it visits a NaN, or a value that is not the
same as that of the last row that it visits before. -/
def CutAt (signal : WaveSignal table) (t : ℕ) : Prop :=
  (first ≤ maxTime table ∧ minTime table ≤ last) ∧
    ∃ row ∈ visits first last signal, row.time = t ∧
      (IsNan row.value ∨ ∀ prev,
        lastWhere (fun row : ChangeRow => row.time < t) (visits first last signal) = some prev →
          ¬ SameValue prev.value row.value)

/-- The findings about a signal are its pulses and its long intervals in the range. -/
structure InspectsAnomalies (signal : TypedSignal table) : Prop where
  glitch : rules.checkGlitch = true → ∀ time width,
    Finding.glitch time width ∈ signalFindings rules first last signal ↔
      IsPulse (settledKey signal.toWaveSignal) first last rules.glitchWidth time (time + width)
  stuck : rules.checkStuck = true → ∀ lo hi,
    (∃ value openAtWindowEnd, Finding.stuck lo hi (hi - lo) value openAtWindowEnd ∈
        signalFindings rules first last signal) ↔
      IsStretch (settledKey signal.toWaveSignal) first last lo hi ∧ rules.stuckDuration ≤ hi - lo

/-- The rows do not cut an interval of the signal where this would be seen: next to a row that is
not a change there is no other within the width of a glitch, and an interval that is long enough
for a stuck signal is that of a row. -/
structure UncutIntervals (signal : WaveSignal table) : Prop where
  changes : rules.checkGlitch = true → ∀ lo hi, IsSegment (CutAt first last signal) last lo hi →
    CutAt first last signal hi → hi - lo < rules.glitchWidth →
      ChangedAt (settledKey signal) lo ∧ ChangedAt (settledKey signal) hi
  begins : rules.checkGlitch = true → ∀ lo hi,
    IsPulse (settledKey signal) first last rules.glitchWidth lo hi → CutAt first last signal lo
  uncut : rules.checkStuck = true → ∀ lo hi, IsStretch (settledKey signal) first last lo hi →
    rules.stuckDuration ≤ hi - lo →
      CutAt first last signal lo ∧ ∀ t, lo < t → t < hi → ¬ CutAt first last signal t
  settled : rules.checkStuck = true → ∀ lo hi, IsSegment (CutAt first last signal) last lo hi →
    rules.stuckDuration ≤ hi - lo → (settledKey signal lo).isSome

end Statements

/-! ### Settled values -/

section Settled

variable {table : TimeTable} {signal : WaveSignal table} {first last : ℕ}

lemma mem_readableIndices {ti : ℕ} :
    ti ∈ readableIndices signal ↔
      ti ∈ signal.timeIndicesOf ∧ (sampleRaw signal.changes ti).isSome := by
  simp [readableIndices]

lemma minTime_le_timeAt {ti : ℕ} (h : ti < table.times.length) :
    minTime table ≤ table.timeAt ti := by
  rw [minTime, List.headD_eq_getD]
  exact TimeTable.timeAt_le (Nat.zero_le ti) h

lemma timeAt_le_maxTime {ti : ℕ} (h : ti < table.times.length) :
    table.timeAt ti ≤ maxTime table := by
  rw [maxTime, List.getLastD_eq_getLast?, List.getLast?_eq_getElem?, ← List.getD_eq_getElem?_getD]
  exact TimeTable.timeAt_le (by omega) (by omega)

/-- Without a readable change in between, two times have the same settled value. -/
lemma settledAt_congr {s t : ℕ} (hle : s ≤ t)
    (h : ∀ ti ∈ readableIndices signal, table.timeAt ti ≤ t → table.timeAt ti ≤ s) :
    settledAt signal s = settledAt signal t := by
  rw [settledAt, settledAt, lastWhere, lastWhere]
  congr 2
  refine List.filter_congr fun ti hti => ?_
  rw [decide_eq_decide]
  exact ⟨fun hs => hs.trans hle, h ti hti⟩

lemma isSome_settledAt_iff {t : ℕ} :
    (settledAt signal t).isSome ↔ ∃ ti ∈ readableIndices signal, table.timeAt ti ≤ t := by
  rw [settledAt]
  constructor
  · intro h
    obtain ⟨value, hvalue⟩ := Option.isSome_iff_exists.1 h
    obtain ⟨ti, hti, -⟩ := Option.bind_eq_some_iff.1 hvalue
    have hmem := List.mem_filter.1 (List.mem_of_getLast? hti)
    exact ⟨ti, hmem.1, by simpa using hmem.2⟩
  · rintro ⟨ti, hti, hle⟩
    cases hlast : lastWhere (fun ti => table.timeAt ti ≤ t) (readableIndices signal) with
    | none =>
        rw [lastWhere, List.getLast?_eq_none_iff, List.filter_eq_nil_iff] at hlast
        exact absurd hle (by simpa using hlast ti hti)
    | some tj =>
        have hmem := List.mem_filter.1 (List.mem_of_getLast? hlast)
        exact (mem_readableIndices.1 hmem.1).2

/-- The settled value is that of the readable change with the largest time. -/
lemma settledAt_eq_of_max {t ti : ℕ} (hti : ti ∈ readableIndices signal)
    (hle : table.timeAt ti ≤ t)
    (hmax : ∀ tj ∈ readableIndices signal, table.timeAt tj ≤ t → table.timeAt tj ≤ table.timeAt ti) :
    settledAt signal t = sampleRaw signal.changes ti := by
  have hlt {tj : ℕ} (hj : tj ∈ readableIndices signal) : tj < table.times.length :=
    WaveSignal.timeIndicesOf_lt (mem_readableIndices.1 hj).1
  have hsorted : (readableIndices signal).Pairwise fun i j => table.timeAt i ≤ table.timeAt j :=
    ((WaveSignal.pairwise_timeIndicesOf signal).filter _).imp_of_mem fun _ hj hij =>
      TimeTable.timeAt_le hij (hlt hj)
  have hsame : ∀ tj ∈ readableIndices signal, table.timeAt tj = table.timeAt ti → tj = ti := by
    intro tj hj heq
    rcases lt_trichotomy tj ti with hlt' | heq' | hlt'
    · exact absurd heq (TimeTable.timeAt_lt hlt' (hlt hti)).ne
    · exact heq'
    · exact absurd heq (TimeTable.timeAt_lt hlt' (hlt hj)).ne'
  rw [settledAt, lastWhere_eq_of_max hsorted hti hle hmax hsame]
  rfl

/-- With fewer than `2 ^ 16` deltas at each time, all changes count, and the settled value is that
of the last one. -/
theorem settledAt_eq_lastWhere (h : IsHistory signal.changes) (t : ℕ) :
    settledAt signal t =
      (lastWhere (fun c : Change => table.timeAt c.timeIdx ≤ t) signal.changes).map Change.value := by
  have hraw (ti : ℕ) : sampleRaw signal.changes ti =
      (lastWhere (fun c : Change => c.timeIdx ≤ ti) signal.changes).map Change.value :=
    sampledValue_eq h (fun _ _ => rfl) (isOffset_offsetAt h.sorted ti) .raw
  have hreadable : readableIndices signal = signal.timeIndicesOf := by
    refine List.filter_eq_self.2 fun ti hti => ?_
    obtain ⟨c, hc, rfl⟩ := List.mem_map.1 hti
    rw [hraw, Option.isSome_map, lastWhere]
    exact List.getLast?_isSome.2 (List.ne_nil_of_mem (List.mem_filter.2 ⟨hc, by simp⟩))
  rw [settledAt, hreadable, WaveSignal.timeIndicesOf, lastWhere, List.filter_map, List.getLast?_map]
  change ((lastWhere (fun c : Change => table.timeAt c.timeIdx ≤ t) signal.changes).map
    Change.timeIdx).bind (sampleRaw signal.changes) = _
  cases hlast : lastWhere (fun c : Change => table.timeAt c.timeIdx ≤ t) signal.changes with
  | none => rfl
  | some last =>
      -- the changes up to `t` are those up to the last one of them
      have hmem := List.mem_filter.1 (List.mem_of_getLast? hlast)
      have hsorted : signal.changes.Pairwise fun a b =>
          table.timeAt a.timeIdx ≤ table.timeAt b.timeIdx :=
        signal.sorted.imp_of_mem fun _ hb hab => TimeTable.timeAt_le hab (signal.inTable _ hb)
      rw [Option.map_some, Option.bind_some, hraw, ← hlast]
      congr 1
      refine lastWhere_congr fun c hc => ?_
      rw [decide_eq_decide]
      constructor
      · intro hle
        exact (TimeTable.timeAt_le hle (signal.inTable last hmem.1)).trans (by simpa using hmem.2)
      · intro hct
        have htime : table.timeAt c.timeIdx ≤ table.timeAt last.timeIdx :=
          le_of_lastWhere hsorted hlast hc hct
        by_contra hlt
        exact absurd (TimeTable.timeAt_lt (not_le.1 hlt) (signal.inTable c hc)) (not_lt.2 htime)

/-- Where the backend samples a value, it is the settled value. -/
lemma settledAt_eq_rawAt {t : ℕ} (hmin : minTime table ≤ t) (h : (signal.rawAt t).isSome) :
    settledAt signal t = signal.rawAt t := by
  rw [minTime, List.headD_eq_getD] at hmin
  have hle {ti : ℕ} (hti : ti ∈ signal.timeIndicesOf) :
      table.timeAt ti ≤ t ↔ ti ≤ table.timeIdxOf t :=
    TimeTable.timeAt_le_iff hmin (WaveSignal.timeIndicesOf_lt hti)
  -- the last change up to `t`
  have hex : ∃ ti ∈ signal.timeIndicesOf, ti ≤ table.timeIdxOf t := by
    by_contra hnone
    push Not at hnone
    have hraw : signal.rawAt t = none :=
      sampleRaw_eq_none fun c hc => hnone c.timeIdx (List.mem_map_of_mem hc)
    rw [hraw] at h
    cases h
  obtain ⟨tk, hk, hkt⟩ := hex
  obtain ⟨ti, hti, hmax⟩ := Finset.exists_max_image
    (signal.timeIndicesOf.filter (· ≤ table.timeIdxOf t)).toFinset id
    ⟨tk, List.mem_toFinset.2 (List.mem_filter.2 ⟨hk, by simpa using hkt⟩)⟩
  obtain ⟨hti, htit⟩ := List.mem_filter.1 (List.mem_toFinset.1 hti)
  have hlast : ∀ tj ∈ signal.timeIndicesOf, tj ≤ table.timeIdxOf t → tj ≤ ti := fun tj hj hjt =>
    hmax tj (List.mem_toFinset.2 (List.mem_filter.2 ⟨hj, by simpa using hjt⟩))
  have hraw : signal.rawAt t = sampleRaw signal.changes ti :=
    (sampleRaw_congr signal.sorted (by simpa using htit) fun c hc =>
      hlast c.timeIdx (List.mem_map_of_mem hc)).symm
  rw [hraw] at h ⊢
  refine settledAt_eq_of_max (mem_readableIndices.2 ⟨hti, h⟩) ((hle hti).2 (by simpa using htit)) ?_
  intro tj hj hjt
  have hj' := (mem_readableIndices.1 hj).1
  exact TimeTable.timeAt_le (hlast tj hj' ((hle hj').1 hjt)) (WaveSignal.timeIndicesOf_lt hti)

/-- The last row that is visited up to a time has the settled value. -/
lemma value_of_lastWhere_visits {t : ℕ} {row : ChangeRow} {value : WaveformValue} (ht : t ≤ last)
    (hrow : lastWhere (fun row : ChangeRow => row.time ≤ t) (visits first last signal) = some row)
    (hvalue : settledAt signal t = some value) : row.value = value := by
  obtain ⟨hmem, hrowt⟩ := List.mem_filter.1 (List.mem_of_getLast? hrow)
  obtain ⟨hraw, -⟩ := mem_visits.1 hmem
  have hle : row.time ≤ t := by simpa using hrowt
  -- there is no later change up to `t`, since it would be visited
  have hnone : ∀ ti ∈ readableIndices signal, table.timeAt ti ≤ t → table.timeAt ti ≤ row.time := by
    intro ti hti htit
    by_contra hlt
    obtain ⟨hti, hsome⟩ := mem_readableIndices.1 hti
    obtain ⟨value', hvalue'⟩ := Option.isSome_iff_exists.1 hsome
    have hfirst : first ≤ row.time := by
      rcases (mem_visits.1 hmem).2 with heq | hrange
      · exact heq.ge
      · exact hrange.1.1.le
    refine hlt (le_of_lastWhere pairwise_visits hrow (a := ⟨table.timeAt ti, value'⟩)
      (mem_visits.2 ⟨?_, Or.inr ⟨⟨?_, ?_⟩, ti, hti, rfl⟩⟩) htit)
    · rw [WaveSignal.rawAt_timeAt hti, hvalue']
    · dsimp only
      omega
    · exact htit.trans ht
  rw [← settledAt_congr hle hnone] at hvalue
  obtain ⟨ti, hti, htirow⟩ := isSome_settledAt_iff.1 (Option.isSome_iff_exists.2 ⟨value, hvalue⟩)
  have hmin := (minTime_le_timeAt (WaveSignal.timeIndicesOf_lt (mem_readableIndices.1 hti).1)).trans
    htirow
  rw [settledAt_eq_rawAt hmin (by rw [hraw]; rfl), hraw] at hvalue
  exact Option.some.inj hvalue

/-- There is a row wherever one settled value is followed by another. -/
lemma seesChanges (hle : first ≤ last) :
    SeesChanges (settledKey signal) (CutAt first last signal) first last where
  inRange t ht := by
    obtain ⟨-, row, hrow, rfl, -⟩ := ht
    rcases (mem_visits.1 hrow).2 with heq | hrange
    · exact ⟨heq.ge, heq.trans_le hle⟩
    · exact ⟨hrange.1.1.le, hrange.1.2⟩
  stays t ht := by
    rw [settledKey, Option.isSome_map, isSome_settledAt_iff] at ht ⊢
    obtain ⟨ti, hti, hle⟩ := ht
    exact ⟨ti, hti, hle.trans (Nat.le_succ t)⟩
  changes t hfirst hlast hsome hne := by
    -- a change at `t + 1`, since the settled value is not that of `t`
    obtain ⟨ti, hti, htime⟩ : ∃ ti ∈ readableIndices signal, table.timeAt ti = t + 1 := by
      by_contra hnone
      push Not at hnone
      refine hne (congrArg (Option.map valueKey) (settledAt_congr (Nat.le_succ t) ?_))
      intro ti hti hle
      have := hnone ti hti
      omega
    obtain ⟨hmem, hreadable⟩ := mem_readableIndices.1 hti
    have hlt := WaveSignal.timeIndicesOf_lt hmem
    obtain ⟨value, hvalue⟩ := Option.isSome_iff_exists.1 hreadable
    have hmin := minTime_le_timeAt hlt
    have hmax := timeAt_le_maxTime hlt
    have hraw : signal.rawAt (t + 1) = some value := by
      rw [← htime, WaveSignal.rawAt_timeAt hmem, hvalue]
    have hsettled : settledAt signal (t + 1) = some value := by
      rw [settledAt_eq_rawAt (htime ▸ hmin) (by rw [hraw]; rfl), hraw]
    refine ⟨⟨by omega, by omega⟩, ⟨t + 1, value⟩,
      mem_visits.2 ⟨hraw, Or.inr ⟨⟨Nat.lt_succ_of_le hfirst, hlast⟩, ti, hmem, htime⟩⟩, rfl,
      Or.inr fun prev hprev hsame => hne ?_⟩
    simp only [Nat.lt_succ_iff] at hprev
    rw [settledKey, Option.isSome_map] at hsome
    obtain ⟨before, hbefore⟩ := Option.isSome_iff_exists.1 hsome
    have hbeforeValue : prev.value = before :=
      value_of_lastWhere_visits hlast.le hprev hbefore
    rw [settledKey, settledKey, hbefore, hsettled, Option.map_some, Option.map_some,
      ← hbeforeValue]
    exact congrArg some hsame

end Settled

/-! ### Rows -/

section Rows

variable {table : TimeTable} {signal : WaveSignal table} {first last : ℕ}

/-- The visited rows of one time are the same. -/
lemma eq_of_mem_visits {a b : ChangeRow} (ha : a ∈ visits first last signal)
    (hb : b ∈ visits first last signal) (htime : a.time = b.time) : a = b := by
  have hraw := (mem_visits.1 ha).1
  rw [htime, (mem_visits.1 hb).1] at hraw
  obtain ⟨time, value⟩ := a
  obtain ⟨time', value'⟩ := b
  obtain rfl : time = time' := htime
  obtain rfl : value' = value := Option.some.inj hraw
  rfl

/-- A visited row comes first among those of its time. -/
lemma exists_first_visit {row : ChangeRow} (h : row ∈ visits first last signal) :
    ∃ before after, visits first last signal = before ++ row :: after ∧
      lastWhere (fun row' : ChangeRow => row'.time < row.time) (visits first last signal) =
        before.getLast? := by
  cases hlast : lastWhere (fun row' : ChangeRow => row'.time ≤ row.time)
      (visits first last signal) with
  | none =>
      rw [lastWhere, List.getLast?_eq_none_iff, List.filter_eq_nil_iff] at hlast
      exact absurd (hlast row h) (by simp)
  | some final =>
      have hgroup := exists_isLastGroup pairwise_visits hlast
      have htime : final.time = row.time :=
        le_antisymm (by simpa using (List.mem_filter.1 (List.mem_of_getLast? hlast)).2)
          (le_of_lastWhere pairwise_visits hlast h le_rfl)
      rw [htime] at hgroup
      obtain ⟨first', rest, hrest⟩ := List.exists_cons_of_ne_nil hgroup.nonempty
      have heq := hgroup.eq
      rw [hrest, List.cons_append] at heq
      have hfirst : first' ∈ visits first last signal := by
        rw [heq]
        simp
      have hsame : first' = row :=
        eq_of_mem_visits hfirst h (hgroup.same first' (by simp [hrest]))
      exact ⟨_, _, hsame ▸ heq, rfl⟩

/-- What is kept last is the same value as what came last. -/
lemma exists_sameValue_of_getLast? {rows : List ChangeRow} {b : ChangeRow}
    (h : rows.getLast? = some b) :
    ∃ kept, (prune sameRow rows).getLast? = some kept ∧ SameValue kept.value b.value := by
  obtain ⟨kept, hkept, hor⟩ : ∃ kept, (prune sameRow rows).getLast? = some kept ∧
    (kept = b ∨ sameRow kept b = true) := getLast?_prune h
  refine ⟨kept, hkept, ?_⟩
  rcases hor with rfl | hsame
  · rw [SameValue]
  · exact (sameValue_iff _ _).2 (Or.inl hsame)

/-- A visited value that is a NaN or not the same as the one before is kept. -/
lemma mem_prune_of_cut {row : ChangeRow} (hrow : row ∈ visits first last signal)
    (hcut : IsNan row.value ∨ ∀ prev,
      lastWhere (fun row' : ChangeRow => row'.time < row.time) (visits first last signal) =
        some prev → ¬ SameValue prev.value row.value) :
    row ∈ prune sameRow (visits first last signal) := by
  obtain ⟨before, after, heq, hlast⟩ := exists_first_visit hrow
  rw [hlast] at hcut
  refine mem_prune_iff.2 ⟨before, after, heq, ?_⟩
  cases hprev : before.getLast? with
  | none => rw [getLast?_prune_eq_none hprev, Option.any_none]
  | some prev =>
      obtain ⟨kept, hkept, hprev'⟩ := exists_sameValue_of_getLast? hprev
      rw [hkept, Option.any_some]
      rcases hcut with hnan | hne
      · exact valueEqual_of_isNan (Or.inr hnan)
      · refine Bool.eq_false_iff.2 fun hsame => hne prev hprev ?_
        have hrow' : SameValue kept.value row.value := (sameValue_iff _ _).2 (Or.inl hsame)
        exact hprev'.symm.trans hrow'

/-- A value that is kept is a NaN or not the same as the one before. -/
lemma cut_of_mem_prune {row : ChangeRow} (h : row ∈ prune sameRow (visits first last signal)) :
    IsNan row.value ∨ ∀ prev,
      lastWhere (fun row' : ChangeRow => row'.time < row.time) (visits first last signal) =
        some prev → ¬ SameValue prev.value row.value := by
  rw [or_iff_not_imp_left]
  intro hnan prev hprev hsame
  obtain ⟨before, after, heq, hany⟩ := mem_prune_iff.1 h
  have hrow : row ∈ visits first last signal := (prune_sublist _).subset h
  -- the row before it is the last one of an earlier time, or the same row
  obtain ⟨b, hlast, hb⟩ : ∃ b, before.getLast? = some b ∧ SameValue b.value row.value := by
    cases hlast : before.getLast? with
    | none =>
        rw [lastWhere_lt_eq_getLast? pairwise_visits heq (by simp [hlast]), hlast] at hprev
        cases hprev
    | some b =>
        have hmem : b ∈ visits first last signal := by
          rw [heq]
          exact List.mem_append_left _ (List.mem_of_getLast? hlast)
        refine ⟨b, rfl, ?_⟩
        by_cases hlt : b.time < row.time
        · rw [lastWhere_lt_eq_getLast? pairwise_visits heq (by simpa [hlast] using hlt), hlast,
            Option.some.injEq] at hprev
          exact hprev ▸ hsame
        · have hle : b.time ≤ row.time := by
            have hsorted : (visits first last signal).Pairwise fun a b => a.time ≤ b.time :=
              pairwise_visits
            rw [heq] at hsorted
            exact (List.pairwise_append.1 hsorted).2.2 b (List.mem_of_getLast? hlast) row
              List.mem_cons_self
          rw [eq_of_mem_visits hmem hrow (le_antisymm hle (not_lt.1 hlt)), SameValue]
  obtain ⟨kept, hkept, hkeptb⟩ := exists_sameValue_of_getLast? hlast
  have hsameKept : SameValue kept.value row.value := hkeptb.trans hb
  rw [hkept, Option.any_some] at hany
  rcases (sameValue_iff _ _).1 hsameKept with hequal | hnans
  · rw [sameRow, hequal] at hany
    cases hany
  · exact hnan hnans.2

/-- The times of the rows are the cuts. -/
lemma mem_map_time_iff {t : ℕ} :
    t ∈ (collectChanges signal first last).map ChangeRow.time ↔ CutAt first last signal t := by
  by_cases hrange : first ≤ maxTime table ∧ minTime table ≤ last
  · rw [collectChanges_eq hrange.1 hrange.2, List.mem_map, CutAt, and_iff_right hrange]
    constructor
    · rintro ⟨row, hrow, rfl⟩
      exact ⟨row, (prune_sublist _).subset hrow, rfl, cut_of_mem_prune hrow⟩
    · rintro ⟨row, hrow, rfl, hcut⟩
      exact ⟨row, mem_prune_of_cut hrow hcut, rfl⟩
  · rw [collectChanges_eq_nil hrange]
    exact iff_of_false (by simp) fun h => hrange h.1

lemma pairwise_map_time :
    ((collectChanges signal first last).map ChangeRow.time).Pairwise (· ≤ ·) := by
  by_cases hrange : first ≤ maxTime table ∧ minTime table ≤ last
  · rw [collectChanges_eq hrange.1 hrange.2]
    exact List.pairwise_map.2 (pairwise_visits.sublist (prune_sublist _))
  · rw [collectChanges_eq_nil hrange]
    exact List.Pairwise.nil

end Rows

/-! ### Findings -/

section Found

variable {rules : AnomalyRules} {rows : List ChangeRow} {last : ℕ}

lemma mem_intervalFindings_glitch {row next : ChangeRow} {time width : ℕ} :
    Finding.glitch time width ∈ intervalFindings rules row next ↔
      rules.checkGlitch = true ∧ (row.time = time ∧ next.time - row.time = width) ∧
        0 < width ∧ width < rules.glitchWidth := by
  simp only [intervalFindings, List.mem_append, List.mem_ite_nil_right, List.mem_singleton,
    Bool.and_eq_true, decide_eq_true_eq, Finding.glitch.injEq, reduceCtorEq, and_false, or_false]
  grind

lemma mem_intervalFindings_stuck {row next : ChangeRow} {lo hi duration : ℕ}
    {value : WaveformValue} {openEnd : Bool} :
    Finding.stuck lo hi duration value openEnd ∈ intervalFindings rules row next ↔
      rules.checkStuck = true ∧ (row.time = lo ∧ next.time = hi ∧ row.value = value) ∧
        duration = next.time - row.time ∧ rules.stuckDuration ≤ duration ∧ openEnd = false := by
  simp only [intervalFindings, List.mem_append, List.mem_ite_nil_right, List.mem_singleton,
    Bool.and_eq_true, decide_eq_true_eq, Finding.stuck.injEq, reduceCtorEq, and_false, false_or]
  grind

/-- A finding that is not about one row is about two adjacent rows. -/
lemma mem_rowFindings {finding : Finding}
    (h : ∀ time value, finding ≠ .unknownXz time value) :
    finding ∈ rowFindings rules rows ↔
      ∃ pair ∈ adjacent rows, finding ∈ intervalFindings rules pair.1 pair.2 := by
  have hunknown (row : ChangeRow) : finding ∉ unknownFinding rules row := by
    rw [unknownFinding, List.mem_ite_nil_right, List.mem_singleton]
    exact fun hmem => h _ _ hmem.2
  induction rows with
  | nil => simp [rowFindings, adjacent]
  | cons row rest ih =>
      cases rest with
      | nil => simpa [rowFindings, adjacent] using hunknown row
      | cons next rest =>
          have hadjacent : adjacent (row :: next :: rest) = (row, next) :: adjacent (next :: rest) :=
            rfl
          rw [rowFindings, hadjacent, List.mem_append, List.mem_append, List.exists_mem_cons_iff]
          simp only [hunknown, false_or]
          exact or_congr_right ih

lemma mem_openFinding {finding : Finding} :
    finding ∈ openFinding rules last rows ↔ ∃ row, rows.getLast? = some row ∧
      rules.checkStuck = true ∧ row.time ≤ last ∧ rules.stuckDuration ≤ last - row.time ∧
        finding = .stuck row.time last (last - row.time) row.value true := by
  rw [openFinding]
  cases rows.getLast? with
  | none => simp
  | some row => simp [List.mem_ite_nil_right, and_assoc]

lemma mem_adjacent_map_time {lo hi : ℕ} :
    (lo, hi) ∈ adjacent (rows.map ChangeRow.time) ↔
      ∃ pair ∈ adjacent rows, pair.1.time = lo ∧ pair.2.time = hi := by
  simp [adjacent_map]

end Found

section SignalFindings

variable {table : TimeTable} {signal : TypedSignal table} {rules : AnomalyRules} {first last : ℕ}

lemma glitch_mem_signalFindings {time width : ℕ} :
    Finding.glitch time width ∈ signalFindings rules first last signal ↔
      rules.checkGlitch = true ∧ width < rules.glitchWidth ∧ (time, time + width) ∈ adjacent
        ((collectChanges signal.toWaveSignal first last).map ChangeRow.time) ∧ 0 < width := by
  simp only [signalFindings, List.mem_append, mem_openFinding, reduceCtorEq, and_false,
    exists_false, or_false]
  rw [mem_rowFindings fun _ _ => by simp, mem_adjacent_map_time]
  simp only [mem_intervalFindings_glitch]
  constructor
  · rintro ⟨pair, hpair, hcheck, ⟨rfl, hwidth⟩, hpos, hlt⟩
    exact ⟨hcheck, hlt, ⟨pair, hpair, rfl, by omega⟩, hpos⟩
  · rintro ⟨hcheck, hlt, ⟨pair, hpair, rfl, htime⟩, hpos⟩
    exact ⟨pair, hpair, hcheck, ⟨rfl, by omega⟩, hpos, hlt⟩

lemma stuck_mem_signalFindings {lo hi : ℕ} (hpos : 0 < rules.stuckDuration) :
    (∃ value openAtWindowEnd, Finding.stuck lo hi (hi - lo) value openAtWindowEnd ∈
        signalFindings rules first last signal) ↔
      rules.checkStuck = true ∧ rules.stuckDuration ≤ hi - lo ∧
        ((lo, hi) ∈ adjacent
            ((collectChanges signal.toWaveSignal first last).map ChangeRow.time) ∨
          ((collectChanges signal.toWaveSignal first last).map ChangeRow.time).getLast? = some lo ∧
            hi = last) ∧ lo < hi := by
  have hunknown (value : WaveformValue) (openEnd : Bool) (time : ℕ) (value' : WaveformValue) :
      Finding.stuck lo hi (hi - lo) value openEnd ≠ .unknownXz time value' := by simp
  simp only [signalFindings, List.mem_append, mem_rowFindings (hunknown _ _), mem_openFinding,
    mem_intervalFindings_stuck, mem_adjacent_map_time, List.getLast?_map, Option.map_eq_some_iff,
    Finding.stuck.injEq]
  constructor
  · rintro ⟨value, openEnd, ⟨pair, hpair, hcheck, ⟨rfl, rfl, -⟩, -, hd, -⟩ |
      ⟨row, hrow, hcheck, hle, hd, rfl, rfl, -⟩⟩
    · exact ⟨hcheck, hd, Or.inl ⟨pair, hpair, rfl, rfl⟩, by omega⟩
    · exact ⟨hcheck, hd, Or.inr ⟨⟨row, hrow, rfl⟩, rfl⟩, by omega⟩
  · rintro ⟨hcheck, hd, ⟨pair, hpair, rfl, rfl⟩ | ⟨⟨row, hrow, rfl⟩, rfl⟩, hlt⟩
    · exact ⟨pair.1.value, false, Or.inl ⟨pair, hpair, hcheck, ⟨rfl, rfl, rfl⟩, rfl, hd, rfl⟩⟩
    · exact ⟨row.value, true, Or.inr ⟨row, hrow, hcheck, hlt.le, hd, rfl, rfl, rfl, rfl, rfl⟩⟩

/-- The cuts as the times of the rows. -/
lemma cutAt_eq :
    CutAt first last signal.toWaveSignal =
      (· ∈ (collectChanges signal.toWaveSignal first last).map ChangeRow.time) :=
  funext fun _ => propext mem_map_time_iff.symm

lemma le_of_mem_map_time (hle : first ≤ last) :
    ∀ t ∈ (collectChanges signal.toWaveSignal first last).map ChangeRow.time, t ≤ last :=
  fun t ht => ((seesChanges hle).inRange t (mem_map_time_iff.1 ht)).2

lemma glitch_iff_isSegment (hle : first ≤ last) {time width : ℕ} :
    Finding.glitch time width ∈ signalFindings rules first last signal ↔
      rules.checkGlitch = true ∧ (IsSegment (CutAt first last signal.toWaveSignal) last time
        (time + width) ∧ CutAt first last signal.toWaveSignal (time + width)) ∧
          time + width - time < rules.glitchWidth := by
  rw [glitch_mem_signalFindings, cutAt_eq,
    isSegment_and_mem_iff pairwise_map_time (le_of_mem_map_time hle), Nat.add_sub_cancel_left,
    and_comm (a := width < rules.glitchWidth), Nat.lt_add_right_iff_pos]

lemma stuck_iff_isSegment (hle : first ≤ last) (hpos : 0 < rules.stuckDuration) {lo hi : ℕ} :
    (∃ value openAtWindowEnd, Finding.stuck lo hi (hi - lo) value openAtWindowEnd ∈
        signalFindings rules first last signal) ↔
      rules.checkStuck = true ∧ IsSegment (CutAt first last signal.toWaveSignal) last lo hi ∧
        rules.stuckDuration ≤ hi - lo := by
  rw [stuck_mem_signalFindings hpos, cutAt_eq,
    isSegment_iff pairwise_map_time (le_of_mem_map_time hle), and_comm (a := _ ≤ hi - lo)]

end SignalFindings

/-! ### Findings of a response -/

section Response

variable {table : TimeTable} (find : String → Except String (TypedSignal table))
  (rules : AnomalyRules) (limit first last : ℕ)

/-- The state has counted `found`, and keeps the first ones. -/
def Kept (s : InspectState) (found : List (String × Finding)) : Prop :=
  s.findings = found.take limit ∧ s.findingCount = found.length

variable {limit}

lemma Kept.addFinding {s : InspectState} {found : List (String × Finding)} (h : Kept limit s found)
    (finding : String × Finding) : Kept limit (addFinding limit s finding) (found ++ [finding]) := by
  obtain ⟨hfindings, hcount⟩ := h
  refine ⟨?_, ?_⟩
  · simp only [Signal.addFinding, hfindings, List.length_take]
    split_ifs with hlt
    · rw [List.take_of_length_le (by omega), List.take_of_length_le (by simp; omega)]
    · rw [List.take_append_of_le_length (by omega)]
  · simp [Signal.addFinding, hcount]

lemma Kept.foldl_addFinding {s : InspectState} {found : List (String × Finding)}
    (h : Kept limit s found) (more : List (String × Finding)) :
    Kept limit (more.foldl (Signal.addFinding limit) s) (found ++ more) := by
  induction more generalizing s found with
  | nil => simpa using h
  | cons finding more ih =>
      rw [List.append_cons]
      exact ih (h.addFinding finding)

lemma Kept.foldl_inspectStep {s : InspectState} {found : List (String × Finding)}
    (h : Kept limit s found) (names : List String) :
    Kept limit (names.foldl (inspectStep find rules limit first last) s)
      (found ++ allFindings find rules first last names) := by
  induction names generalizing s found with
  | nil => simpa [allFindings] using h
  | cons name names ih =>
      rw [List.foldl_cons, allFindings, List.flatMap_cons, ← List.append_assoc]
      refine ih ?_
      unfold inspectStep
      cases find name with
      | error message => simpa [Kept] using h
      | ok signal => exact h.foldl_addFinding _

/-- The response lists the first findings, counts all, and says if some are not listed. -/
theorem inspectAnomalies_findings (names : List String) :
    let report := inspectAnomalies find rules limit first last names
    report.findings = (allFindings find rules first last names).take limit ∧
      report.totalCount = (allFindings find rules first last names).length ∧
        (report.responseTruncated = true ↔ limit < report.totalCount) := by
  have h : Kept limit (names.foldl (inspectStep find rules limit first last) {})
      ([] ++ allFindings find rules first last names) :=
    Kept.foldl_inspectStep find rules first last ⟨by simp, rfl⟩ names
  rw [List.nil_append] at h
  refine ⟨h.1, h.2, ?_⟩
  simp only [inspectAnomalies, h.1, h.2, List.length_take, decide_eq_true_eq]
  omega

end Response

/-! ### Ranges that begin with a change -/

section Begin

variable {table : TimeTable} {signal : WaveSignal table} {rules : AnomalyRules} {first last : ℕ}

/-- Behind the start of a range at which the signal has a value, a row that is not a NaN is a
change. -/
lemma changedAt_of_cutAt {t : ℕ} (hmin : minTime table ≤ first)
    (hstart : (signal.rawAt first).isSome) (hfirst : first < t) (ht : CutAt first last signal t)
    (hnan : ∀ value, signal.rawAt t = some value → ¬ IsNan value) :
    ChangedAt (settledKey signal) t := by
  obtain ⟨-, row, hrow, rfl, hor⟩ := ht
  have hraw := (mem_visits.1 hrow).1
  have hne := hor.resolve_left (hnan row.value hraw)
  have hsettled : settledAt signal row.time = some row.value := by
    rw [settledAt_eq_rawAt (hmin.trans hfirst.le) (by rw [hraw]; rfl), hraw]
  refine ⟨by rw [settledKey, hsettled]; rfl, Or.inr fun heq => ?_⟩
  -- the row before it is that of the start of the range or a later one
  obtain ⟨value, hvalue⟩ := Option.isSome_iff_exists.1 hstart
  have hstartVisit : (⟨first, value⟩ : ChangeRow) ∈ visits first last signal :=
    mem_visits.2 ⟨hvalue, Or.inl rfl⟩
  have hlast : row.time ≤ last := by
    rcases (mem_visits.1 hrow).2 with htime | hrange
    · omega
    · exact hrange.1.2
  cases hprev : lastWhere (fun row' : ChangeRow => row'.time < row.time)
      (visits first last signal) with
  | none =>
      rw [lastWhere, List.getLast?_eq_none_iff, List.filter_eq_nil_iff] at hprev
      exact hprev _ hstartVisit (by simpa using hfirst)
  | some prev =>
      refine hne prev hprev ?_
      have hiff (row' : ChangeRow) : decide (row'.time < row.time) =
          decide (row'.time ≤ row.time - 1) := by
        rw [decide_eq_decide]
        omega
      simp only [hiff] at hprev
      rw [settledKey, settledKey, hsettled] at heq
      obtain ⟨before, hbefore, hkey⟩ := Option.map_eq_some_iff.1 heq
      rw [value_of_lastWhere_visits (by omega) hprev hbefore]
      exact hkey

/-- In a range that begins with a change, the rows of a signal without NaN cut no interval. -/
lemma uncutIntervals_of_changedAt (hle : first ≤ last) (hrange : first ≤ maxTime table)
    (hmin : minTime table ≤ first) (hstart : (signal.rawAt first).isSome)
    (hfirst : ChangedAt (settledKey signal) first)
    (hnan : ∀ t value, signal.rawAt t = some value → ¬ IsNan value) :
    UncutIntervals rules first last signal := by
  have hsees : SeesChanges (settledKey signal) (CutAt first last signal) first last :=
    seesChanges hle
  have hchanged (t : ℕ) (ht : CutAt first last signal t) : ChangedAt (settledKey signal) t := by
    rcases (hsees.inRange t ht).1.lt_or_eq with hlt | rfl
    · exact changedAt_of_cutAt hmin hstart hlt ht (hnan t)
    · exact hfirst
  have hsome {t : ℕ} (ht : first ≤ t) : (settledKey signal t).isSome := by
    induction t, ht using Nat.le_induction with
    | base => exact hfirst.1
    | succ t ht ih => exact hsees.stays t ih
  have hcut {lo : ℕ} (hlo : first ≤ lo) (hhi : lo ≤ last)
      (hleft : lo = first ∨ settledKey signal (lo - 1) ≠ settledKey signal lo) :
      CutAt first last signal lo := by
    rcases hlo.lt_or_eq with hlt | rfl
    · obtain ⟨t, rfl⟩ : ∃ t, lo = t + 1 := ⟨lo - 1, by omega⟩
      exact hsees.changes t (by omega) hhi (hsome (by omega)) (hleft.resolve_left (by omega))
    · obtain ⟨value, hvalue⟩ := Option.isSome_iff_exists.1 hstart
      refine ⟨⟨hrange, hmin.trans hle⟩, ⟨first, value⟩, mem_visits.2 ⟨hvalue, Or.inl rfl⟩, rfl,
        Or.inr fun prev hprev => ?_⟩
      obtain ⟨hmem, hlt⟩ := List.mem_filter.1 (List.mem_of_getLast? hprev)
      simp only [decide_eq_true_eq] at hlt
      rcases (mem_visits.1 hmem).2 with htime | hin
      · omega
      · exact absurd hin.1.1 (by omega)
  have hstretch {lo hi : ℕ} (hs : IsStretch (settledKey signal) first last lo hi) :
      CutAt first last signal lo := by
    obtain ⟨k, hs⟩ := hs
    refine hcut hs.first_le (hs.lt.le.trans hs.le_last) (hs.left.imp_right fun hne heq => hne ?_)
    exact heq.trans (hs.holds lo le_rfl hs.lt)
  exact
    { changes := fun _ lo hi hseg hright _ => ⟨hchanged lo hseg.left, hchanged hi hright⟩
      begins := fun _ lo hi hpulse => hstretch hpulse.stretch
      uncut := fun _ lo hi hs _ =>
        ⟨hstretch hs, fun t hlo hhi ht => hs.not_changedAt hlo hhi (hchanged t ht)⟩
      settled := fun _ lo hi hseg _ => hsome (hsees.inRange lo hseg.left).1 }

end Begin

/-! ### The range -/

/-- The findings about a signal are its pulses and its long intervals, if and only if the rows do
not cut an interval where this would be seen. -/
theorem inspectsAnomalies_iff {table : TimeTable} (rules : AnomalyRules) (first last : ℕ)
    (signal : TypedSignal table) (hle : first ≤ last)
    (hstuck : rules.checkStuck = true → 0 < rules.stuckDuration) :
    InspectsAnomalies rules first last signal ↔
      UncutIntervals rules first last signal.toWaveSignal := by
  have hsees : SeesChanges (settledKey signal.toWaveSignal)
      (CutAt first last signal.toWaveSignal) first last := seesChanges hle
  have hpulses := hsees.findsPulses_iff rules.glitchWidth
  have hlong := hsees.findsLong_iff rules.stuckDuration
  constructor
  · intro h
    have hglitch (hcheck : rules.checkGlitch = true) := hpulses.1 fun lo hi => by
      rcases Nat.lt_or_ge lo hi with hlt | hge
      · obtain ⟨width, rfl⟩ := Nat.exists_eq_add_of_lt hlt
        exact (and_iff_right hcheck).symm.trans
          ((glitch_iff_isSegment hle).symm.trans (h.glitch hcheck lo (width + 1)))
      · exact iff_of_false (fun hseg => absurd hseg.1.1.lt (by omega))
          fun hpulse => absurd hpulse.stretch.lt (by omega)
    have hstuck' (hcheck : rules.checkStuck = true) := hlong.1 fun lo hi =>
      (and_iff_right hcheck).symm.trans
        ((stuck_iff_isSegment hle (hstuck hcheck)).symm.trans (h.stuck hcheck lo hi))
    exact ⟨fun hcheck => (hglitch hcheck).1, fun hcheck => (hglitch hcheck).2,
      fun hcheck => (hstuck' hcheck).1, fun hcheck => (hstuck' hcheck).2⟩
  · intro h
    refine ⟨fun hcheck time width => ?_, fun hcheck lo hi => ?_⟩
    · rw [glitch_iff_isSegment hle, and_iff_right hcheck]
      exact hpulses.2 ⟨h.changes hcheck, h.begins hcheck⟩ time (time + width)
    · rw [stuck_iff_isSegment hle (hstuck hcheck), and_iff_right hcheck]
      exact hlong.2 ⟨h.uncut hcheck, h.settled hcheck⟩ lo hi

/-! ### A range that cuts an interval -/

lemma riseTimes_sorted : [0, 12].Pairwise (· < ·) := by simp

lemma riseTimes_lt : ∀ t ∈ [0, 12], t < 2 ^ 64 := by simp

/-- The times 0 and 12. -/
def riseTable : TimeTable := ⟨[0, 12], riseTimes_sorted, riseTimes_lt⟩

/-- A bit that rises at time 12. -/
def riseChanges : List Change := [⟨0, { text := "0" }⟩, ⟨1, { text := "1" }⟩]

lemma riseChanges_sorted : riseChanges.Pairwise fun a b => a.timeIdx ≤ b.timeIdx := by
  simp [riseChanges]

lemma riseChanges_inTable : ∀ c ∈ riseChanges, c.timeIdx < riseTable.times.length := by
  simp [riseChanges, riseTable]

lemma riseChanges_bits :
    ValueKind.bitVector = .bitVector → ∀ c ∈ riseChanges, c.value.kind = .bitVector := by
  simp [riseChanges]

/-- The signal with these changes. -/
def riseSignal : TypedSignal riseTable where
  width := 1
  changes := riseChanges
  sorted := riseChanges_sorted
  inTable := riseChanges_inTable
  encoding := .bitVector
  bits := riseChanges_bits

/-- Glitches are pulses shorter than 5. -/
def glitchRules : AnomalyRules := { checkGlitch := true, glitchWidth := 5 }

/-- The bit is 0 for twelve ticks. In a range that begins at time 10 two of them are left. -/
theorem riseSignal_not_inspectsAnomalies :
    ¬ InspectsAnomalies glitchRules 10 14 riseSignal := by
  intro h
  have hfound : Finding.glitch 10 2 ∈ signalFindings glitchRules 10 14 riseSignal := by
    decide +kernel
  have hpulse := (h.glitch rfl 10 2).1 hfound
  have hsame : settledKey riseSignal.toWaveSignal 9 = settledKey riseSignal.toWaveSignal 10 := by
    decide +kernel
  exact hpulse.left.2.elim (by simp) fun hne => hne hsame

/-- Glitches are pulses shorter than 5, and a signal is stuck for 10 ticks. -/
def riseRules : AnomalyRules :=
  { checkGlitch := true, checkStuck := true, glitchWidth := 5, stuckDuration := 10 }

/-- The request asks for pulses below 5 and for 10 ticks without a change. -/
lemma rulesOf_riseRules : rulesOf (.ok 1000) [.glitch (.ok 5), .stuck (.ok 10)] = .ok riseRules :=
  rfl

lemma riseRules_positive : PositiveThresholds riseRules :=
  positiveThresholds_of_rulesOf (fun ticks h => by cases h; decide) rulesOf_riseRules

/-- In a range that begins at time 0 the bit is stuck until time 12. -/
theorem riseSignal_inspectsAnomalies :
    InspectsAnomalies riseRules 0 14 riseSignal ∧
      (∃ value openAtWindowEnd, Finding.stuck 0 12 12 value openAtWindowEnd ∈
        signalFindings riseRules 0 14 riseSignal) := by
  refine ⟨(inspectsAnomalies_iff riseRules 0 14 riseSignal (by decide) riseRules_positive.stuck).2
    (uncutIntervals_of_changedAt (by decide) (by decide) (by decide) (by decide +kernel)
      ⟨by decide +kernel, Or.inl rfl⟩ fun t value hvalue hnan => ?_),
    ⟨{ text := "0" }, false, by decide +kernel⟩⟩
  have hhas : HasValue riseSignal t t value := ⟨t, ⟨le_rfl, le_rfl⟩, hvalue⟩
  have hbits := kind_of_hasValue rfl hhas
  rw [hnan.1] at hbits
  cases hbits

end XdebugFst.Signal
