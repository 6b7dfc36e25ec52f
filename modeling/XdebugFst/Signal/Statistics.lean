import Mathlib
import XdebugFst.Clock.Handshake
import XdebugFst.Lib.MaximalRuns
import XdebugFst.Lib.Scans
import XdebugFst.Signal.Anomaly
import XdebugFst.Waveform.Fill

/-!
# Statistics of a sampled signal

`signal.statistics` with a clock samples the signal at each selected edge of the clock, until it has
`max_samples` samples. One loop counts the samples, the cycles in which a one-bit signal is high and
the bursts of such cycles, and keeps the changes and the extremes of the known values.

A sample counts as known if it has no `x` and no `z`, so that a weak or uninitialized bit is taken
for a bit that is low. `countsClockSamples_iff` says that the statistics are right exactly when
there is no such bit.
-/

namespace XdebugFst.Signal

open Lib Waveform Window Clock XdebugFst.Lists

/-! ### The samples -/

/-- What is sampled at one edge. -/
structure ClockSample where
  time : ℕ
  value : Option WaveformValue
  deriving DecidableEq, Repr

/-- The samples at the edges of the clock in the range; the loop finds them as
`collect_analysis_edges` does. -/
def clockSamples (wf : Backend) (clockRef ref : ℕ) (edge : EdgeSelect) (after : Bool)
    (first last : ℕ) : List ClockSample :=
  (collectAnalysisEdges wf clockRef edge first last).map fun row =>
    ⟨row.time, wf.sample ref row.timeIdx (analysisObservationPoint edge after)⟩

/-- The bits of a sample that is taken for known. -/
def countedBits (row : ClockSample) : Option String :=
  match row.value with
  | none => none
  | some value =>
      if value.kind ≠ .bitVector || containsXz value.text then none
      else some (String.ofList (value.text.toList.map Char.toLower))

/-- The text of `unknown_value`. -/
def unknownText (width : ℕ) (row : ClockSample) : String :=
  let text := (row.value.map WaveformValue.text).getD ""
  if text = "" then String.ofList (List.replicate (max 1 width) 'x') else text

/-! ### The loop -/

inductive StatisticsEvidence
  | unknown (time : ℕ) (text : String)
  | valueChange (time : ℕ) (value : WaveformValue)
  deriving DecidableEq, Repr

/-- The variables about the cycles in which the signal is high. -/
structure HighState where
  previousHigh : Bool := false
  highBursts : ℕ := 0
  currentHigh : ℕ := 0
  maxHighCycles : ℕ := 0
  firstHigh : Option ℕ := none
  lastHigh : Option ℕ := none
  lastFall : Option ℕ := none

/-- The bits that are kept once there is a known sample. -/
structure KeptBits where
  first : String
  final : String
  min : String
  max : String
  previous : String
  deriving DecidableEq, Repr

/-- The variables about the known values. -/
structure ValueState where
  bits : Option KeptBits := none
  transitions : ℕ := 0
  firstChange : Option ℕ := none
  lastChange : Option ℕ := none

structure StatisticsState where
  samples : ℕ := 0
  known : ℕ := 0
  unknown : ℕ := 0
  highCycles : ℕ := 0
  lowCycles : ℕ := 0
  high : HighState := {}
  values : ValueState := {}
  evidence : List StatisticsEvidence := []

/-- A sample at which the signal is high. -/
def HighState.rise (h : HighState) (time : ℕ) : HighState :=
  let h := if h.previousHigh then h else
    { h with
      highBursts := h.highBursts + 1
      currentHigh := 0
      firstHigh := h.firstHigh.or (some time) }
  { h with
    currentHigh := h.currentHigh + 1
    lastHigh := some time
    previousHigh := true }

/-- A sample at which it is not. -/
def HighState.fall (h : HighState) (time : ℕ) : HighState :=
  if h.previousHigh then
    { h with
      maxHighCycles := max h.maxHighCycles h.currentHigh
      currentHigh := 0
      lastFall := some time
      previousHigh := false }
  else h

/-- A known value. -/
def ValueState.add (v : ValueState) (time : ℕ) (bits : String) : ValueState :=
  match v.bits with
  | none => { v with bits := some ⟨bits, bits, bits, bits, bits⟩ }
  | some kept =>
      let v := if bits = kept.previous then v else
        { v with
          transitions := v.transitions + 1
          firstChange := v.firstChange.or (some time)
          lastChange := some time }
      { v with
        bits := some
          { kept with
            min := if bits < kept.min then bits else kept.min
            max := if kept.max < bits then bits else kept.max
            previous := bits
            final := bits } }

/-- The body of the loop. -/
def statisticsStep (width : ℕ) (s : StatisticsState) (row : ClockSample) : StatisticsState :=
  let s := { s with samples := s.samples + 1 }
  match countedBits row with
  | none =>
      { s with
        unknown := s.unknown + 1
        evidence := s.evidence ++ [.unknown row.time (unknownText width row)]
        high := s.high.fall row.time }
  | some bits =>
      let nonzero := bits.toList.contains '1'
      let high := nonzero && bits.length = 1
      { s with
        known := s.known + 1
        lowCycles := if !nonzero then s.lowCycles + 1 else s.lowCycles
        highCycles := if high then s.highCycles + 1 else s.highCycles
        high := if high then s.high.rise row.time else s.high.fall row.time
        values := s.values.add row.time bits
        evidence :=
          if s.values.bits.any fun kept => bits ≠ kept.previous then
            s.evidence ++ [.valueChange row.time (row.value.getD {})]
          else s.evidence }

/-- The loop over the samples, which ends early at `max_samples`; and `scan_complete`. -/
def statisticsLoop (width maxSamples : ℕ) :
    List ClockSample → StatisticsState → StatisticsState × Bool
  | [], s => (s, true)
  | row :: rest, s =>
      if s.samples ≥ maxSamples then (s, false)
      else statisticsLoop width maxSamples rest (statisticsStep width s row)

/-- The part of the response that is there if a sample is known. -/
structure KnownStatistics where
  bits : KeptBits
  lowCycles : ℕ
  highCycles : ℕ
  highRatio : ℚ
  firstChange : Option ℕ
  lastChange : Option ℕ
  highBurstCount : ℕ
  firstHigh : Option ℕ
  lastHigh : Option ℕ
  lastFall : Option ℕ
  maxHighCycles : ℕ

structure ClockStatistics where
  sampleCount : ℕ
  knownCount : ℕ
  unknownCount : ℕ
  scanComplete : Bool
  transitionCount : ℕ
  known : Option KnownStatistics
  evidence : List StatisticsEvidence
  totalCount : ℕ
  responseTruncated : Bool

/-- `SignalStatisticsHandler::run` with a clock, from the samples on. -/
def clockStatistics (width : ℕ) (rows : List ClockSample) (maxSamples lineLimit : ℕ) :
    ClockStatistics :=
  let (s, scanComplete) := statisticsLoop width maxSamples rows {}
  let maxHighCycles :=
    if s.high.previousHigh then max s.high.maxHighCycles s.high.currentHigh
    else s.high.maxHighCycles
  { sampleCount := s.samples
    knownCount := s.known
    unknownCount := s.unknown
    scanComplete
    transitionCount := s.values.transitions
    known := s.values.bits.map fun bits =>
      { bits
        lowCycles := s.lowCycles
        highCycles := s.highCycles
        highRatio := if s.known = 0 then 0 else s.highCycles / s.known
        firstChange := s.values.firstChange
        lastChange := s.values.lastChange
        highBurstCount := s.high.highBursts
        firstHigh := s.high.firstHigh
        lastHigh := s.high.lastHigh
        lastFall := s.high.lastFall
        maxHighCycles }
    evidence := s.evidence.take lineLimit
    totalCount := s.evidence.length
    responseTruncated := lineLimit < s.evidence.length }

/-! ### What the statistics should be -/

/-- The bits of a sample that is known: a bit vector of the width of the signal that consists of 0
and 1. -/
def knownBits (width : ℕ) (row : ClockSample) : Option String :=
  row.value.bind fun value =>
    if value.kind = .bitVector ∧ value.text.length = width ∧
        value.text.toList.all (fun c => c = '0' || c = '1') = true then
      some value.text
    else none

/-- The number that bits are. -/
def bitsNumber (bits : String) : ℕ :=
  Nat.ofDigits 2 (bits.toList.reverse.map fun c => if c = '1' then 1 else 0)

/-- The number of changes in a list. -/
def changeCount (values : List String) : ℕ := (adjacent values).countP fun pair => pair.1 ≠ pair.2

/-- The runs of samples at which a one-bit signal is 1. -/
def highRuns (width : ℕ) (rows : List ClockSample) : List (Run Unit) :=
  runs (placesOf (fun row => knownBits width row = some "1") rows) rows.length

/-- The statistics of the samples `rows`, when the first `maxSamples` of them are looked at. -/
structure CountsClockSamples (width : ℕ) (rows : List ClockSample) (maxSamples : ℕ)
    (r : ClockStatistics) : Prop where
  total : r.sampleCount = r.knownCount + r.unknownCount
  sampleCount : r.sampleCount = (rows.take maxSamples).length
  knownCount : r.knownCount = ((rows.take maxSamples).filterMap (knownBits width)).length
  transitions : r.transitionCount = changeCount ((rows.take maxSamples).filterMap (knownBits width))
  none_iff : r.known = none ↔ (rows.take maxSamples).filterMap (knownBits width) = []
  min : ∀ k ∈ r.known, k.bits.min ∈ (rows.take maxSamples).filterMap (knownBits width) ∧
    ∀ bits ∈ (rows.take maxSamples).filterMap (knownBits width),
      bitsNumber k.bits.min ≤ bitsNumber bits
  max : ∀ k ∈ r.known, k.bits.max ∈ (rows.take maxSamples).filterMap (knownBits width) ∧
    ∀ bits ∈ (rows.take maxSamples).filterMap (knownBits width),
      bitsNumber bits ≤ bitsNumber k.bits.max
  highCycles : width = 1 → ∀ k ∈ r.known, k.highCycles =
    (rows.take maxSamples).countP fun row => knownBits width row = some "1"
  lowCycles : width = 1 → ∀ k ∈ r.known, k.lowCycles =
    (rows.take maxSamples).countP fun row => knownBits width row = some "0"
  highBurstCount : width = 1 → ∀ k ∈ r.known, k.highBurstCount =
    (highRuns width (rows.take maxSamples)).length
  maxHighCycles : width = 1 → ∀ k ∈ r.known, k.maxHighCycles =
    ((highRuns width (rows.take maxSamples)).map Run.length).max?.getD 0
  scanComplete : r.scanComplete = true ↔ rows.length ≤ maxSamples

/-- Each bit vector without `x` and `z` is known: its bits are 0 and 1, and it has the width of the
signal. -/
def KnownWithoutXz (width : ℕ) (rows : List ClockSample) : Prop :=
  ∀ row ∈ rows, ∀ value, row.value = some value → value.kind = .bitVector →
    containsXz value.text = false →
      value.text.length = width ∧ value.text.toList.all (fun c => c = '0' || c = '1') = true

/-! ### Bits in order -/

section Bits

/-- Digits of one length are in the order of their letters if the letters are in the order of the
digits. -/
lemma ofDigits_lt_of_lt {α : Type} [LT α] {digit : α → ℕ} {b : ℕ} {l l' : List α} (hb : 1 < b)
    (hlength : l.length = l'.length) (hdigit : ∀ x ∈ l, digit x < b)
    (hmono : ∀ x ∈ l, ∀ y ∈ l', x < y → digit x < digit y) (hlt : l < l') :
    Nat.ofDigits b (l.reverse.map digit) < Nat.ofDigits b (l'.reverse.map digit) := by
  induction l generalizing l' with
  | nil =>
      cases l' with
      | nil => exact absurd hlt (List.not_lt_nil [])
      | cons y l' => simp at hlength
  | cons x l ih =>
      cases l' with
      | nil => simp at hlength
      | cons y l' =>
          have hlength' : l.length = l'.length := by simpa using hlength
          rw [List.reverse_cons, List.reverse_cons, List.map_append, List.map_append,
            Nat.ofDigits_append, Nat.ofDigits_append]
          simp only [List.length_map, List.length_reverse, List.map_cons, List.map_nil,
            Nat.ofDigits_singleton, ← hlength']
          rcases List.cons_lt_cons_iff.1 hlt with hxy | ⟨rfl, htail⟩
          · -- the first digit decides
            have hlow : Nat.ofDigits b (l.reverse.map digit) < b ^ l.length := by
              have hdigits : ∀ d ∈ l.reverse.map digit, d < b := by
                simpa using fun z hz => hdigit z (List.mem_cons_of_mem x hz)
              simpa using Nat.ofDigits_lt_base_pow_length hb hdigits
            have hstep : digit x + 1 ≤ digit y := hmono x List.mem_cons_self y List.mem_cons_self hxy
            calc Nat.ofDigits b (l.reverse.map digit) + b ^ l.length * digit x
                < b ^ l.length + b ^ l.length * digit x := Nat.add_lt_add_right hlow _
              _ = b ^ l.length * (digit x + 1) := by ring
              _ ≤ b ^ l.length * digit y := Nat.mul_le_mul_left _ hstep
              _ ≤ Nat.ofDigits b (l'.reverse.map digit) + b ^ l.length * digit y :=
                Nat.le_add_left _ _
          · have hrest := ih hlength' (fun z hz => hdigit z (List.mem_cons_of_mem x hz))
              (fun z hz w hw => hmono z (List.mem_cons_of_mem x hz) w (List.mem_cons_of_mem x hw))
              htail
            omega

/-- Known bits of one width are in the order of their numbers. -/
lemma bitsNumber_le_of_not_lt {a b : String} (hlength : a.length = b.length)
    (ha : a.toList.all (fun c => c = '0' || c = '1') = true)
    (hb : b.toList.all (fun c => c = '0' || c = '1') = true) (h : ¬ b < a) :
    bitsNumber a ≤ bitsNumber b := by
  simp only [List.all_eq_true, Bool.or_eq_true, decide_eq_true_eq] at ha hb
  rcases lt_trichotomy a b with hlt | rfl | hgt
  · have hmono : ∀ x ∈ a.toList, ∀ y ∈ b.toList, x < y →
        (if x = '1' then 1 else 0) < if y = '1' then 1 else 0 := by
      intro x hx y hy hxy
      rcases ha x hx with rfl | rfl <;> rcases hb y hy with rfl | rfl
      · exact absurd hxy (lt_irrefl _)
      · decide
      · exact absurd hxy (by decide)
      · exact absurd hxy (lt_irrefl _)
    have hdigit : ∀ x ∈ a.toList, (if x = '1' then 1 else 0) < 2 := by
      intro x _
      split_ifs <;> decide
    exact (ofDigits_lt_of_lt one_lt_two (by rwa [String.length_toList, String.length_toList]) hdigit hmono
      (String.lt_iff_toList_lt.1 hlt)).le
  · exact le_rfl
  · exact absurd hgt h

end Bits

/-! ### Runs of high samples -/

section High

variable {rows : List ClockSample} {n : ℕ} {row : ClockSample} {h : HighState}
  {closed : List (Run Unit)} {current : Option (Run Unit)}

/-- The loop takes the signal for high. -/
def isHigh (row : ClockSample) : Bool :=
  (countedBits row).any fun bits => bits.toList.contains '1' && bits.length = 1

/-- What the variables say of the runs among the first `n` samples. -/
structure HighInv (rows : List ClockSample) (n : ℕ) (h : HighState) (closed : List (Run Unit))
    (current : Option (Run Unit)) : Prop where
  progress : Progress (placesOf isHigh rows) n closed current
  previousHigh : h.previousHigh = current.isSome
  highBursts : h.highBursts = closed.length + current.toList.length
  currentHigh : h.currentHigh = current.elim 0 Run.length
  maxHighCycles : h.maxHighCycles = (closed.map Run.length).max?.getD 0

lemma HighInv.rise (hinv : HighInv rows n h closed current) (hn : rows[n]? = some row)
    (hhigh : isHigh row = true) (time : ℕ) :
    ∃ current', HighInv rows (n + 1) (h.rise time) closed current' := by
  have hplace : placesOf isHigh rows n = some () := (placesOf_eq_some hn).2 hhigh
  cases current with
  | none =>
      have hprevious : h.previousHigh = false := hinv.previousHigh
      refine ⟨some ⟨n, n, ()⟩, hinv.progress.start hplace, rfl, ?_, ?_, ?_⟩
      · simp [HighState.rise, hprevious, hinv.highBursts]
      · simp [HighState.rise, hprevious, Run.length]
      · simp [HighState.rise, hprevious, hinv.maxHighCycles]
  | some r =>
      have hprevious : h.previousHigh = true := hinv.previousHigh
      have hle := (hinv.progress.mem_iff.2 (Or.inr rfl)).le
      refine ⟨some { r with last := n }, hinv.progress.extend hplace, rfl, ?_, ?_, ?_⟩
      · simp [HighState.rise, hprevious, hinv.highBursts]
      · rw [HighState.rise, if_pos hprevious, Option.elim_some,
          Run.length_extend hle (hinv.progress.current_eq r rfl)]
        exact congrArg (· + 1) hinv.currentHigh
      · simp [HighState.rise, hprevious, hinv.maxHighCycles]

/-- The variables when the run that reaches the end is taken to those that have ended. -/
lemma HighInv.max_eq (hinv : HighInv rows n h closed current) :
    (if h.previousHigh then max h.maxHighCycles h.currentHigh else h.maxHighCycles) =
      ((closed ++ current.toList).map Run.length).max?.getD 0 := by
  rw [hinv.previousHigh, hinv.maxHighCycles, hinv.currentHigh]
  cases current with
  | none => simp
  | some r =>
      rw [Option.toList_some, List.map_append, List.map_singleton, max?_append_singleton]
      rfl

lemma HighInv.fall (hinv : HighInv rows n h closed current) (hn : rows[n]? = some row)
    (hhigh : isHigh row = false) (time : ℕ) :
    HighInv rows (n + 1) (h.fall time) (closed ++ current.toList) none := by
  have hprogress := hinv.progress.gap (placesOf_eq_none hn (by simp [hhigh]))
  have hmax := hinv.max_eq
  rw [HighState.fall]
  split_ifs with hprevious
  · rw [if_pos hprevious] at hmax
    exact ⟨hprogress, rfl, by simp [hinv.highBursts], rfl, hmax⟩
  · rw [if_neg hprevious] at hmax
    have hnone : current = none := by
      rw [hinv.previousHigh] at hprevious
      simpa using hprevious
    subst hnone
    exact ⟨hprogress, hinv.previousHigh, by simp [hinv.highBursts], hinv.currentHigh, hmax⟩

end High

/-! ### Known values -/

section Values

variable {values : List String} {v : ValueState}

/-- What the variables say of the values that count as known. -/
structure ValuesInv (values : List String) (v : ValueState) : Prop where
  none_iff : v.bits = none ↔ values = []
  previous : ∀ kept ∈ v.bits, values.getLast? = some kept.previous
  transitions : v.transitions = changeCount values
  min : ∀ kept ∈ v.bits, kept.min ∈ values ∧ ∀ bits ∈ values, ¬ bits < kept.min
  max : ∀ kept ∈ v.bits, kept.max ∈ values ∧ ∀ bits ∈ values, ¬ kept.max < bits

lemma changeCount_concat (values : List String) (bits : String) :
    changeCount (values ++ [bits]) =
      changeCount values + if values.getLast?.any (bits ≠ ·) then 1 else 0 := by
  rw [changeCount, changeCount, adjacent_concat, List.countP_append]
  cases values.getLast? with
  | none => simp
  | some last => by_cases hsame : bits = last <;> simp [hsame, Ne.symm]

/-- The best of a value and the values before. -/
lemma best_concat {better : String → String → Prop} [DecidableRel better] [IsTrans String better]
    [Std.Irrefl better] {best : String} (h : best ∈ values ∧ ∀ b ∈ values, ¬ better b best)
    (bits : String) :
    (if better bits best then bits else best) ∈ values ++ [bits] ∧
      ∀ b ∈ values ++ [bits], ¬ better b (if better bits best then bits else best) := by
  split_ifs with hbetter
  · refine ⟨by simp, fun b hb hbbits => ?_⟩
    rcases List.mem_append.1 hb with hb | hb
    · exact h.2 b hb (IsTrans.trans _ _ _ hbbits hbetter)
    · rw [List.mem_singleton.1 hb] at hbbits
      exact Std.Irrefl.irrefl bits hbbits
  · refine ⟨List.mem_append_left _ h.1, fun b hb => ?_⟩
    rcases List.mem_append.1 hb with hb | hb
    · exact h.2 b hb
    · rwa [List.mem_singleton.1 hb]

lemma ValuesInv.add (hinv : ValuesInv values v) (time : ℕ) (bits : String) :
    ValuesInv (values ++ [bits]) (v.add time bits) := by
  have hcount := changeCount_concat values bits
  cases hbits : v.bits with
  | none =>
      obtain rfl := hinv.none_iff.1 hbits
      simp only [ValueState.add, hbits]
      refine ⟨by simp, by simp, hinv.transitions.trans hcount.symm, ?_, ?_⟩
      · rintro kept ⟨⟩
        refine ⟨by simp, fun b hb => ?_⟩
        rw [List.nil_append, List.mem_singleton] at hb
        exact hb ▸ lt_irrefl bits
      · rintro kept ⟨⟩
        refine ⟨by simp, fun b hb => ?_⟩
        rw [List.nil_append, List.mem_singleton] at hb
        exact hb ▸ lt_irrefl bits
  | some kept =>
      rw [hinv.previous kept hbits, ← hinv.transitions] at hcount
      simp only [ValueState.add, hbits]
      refine ⟨by simp, by simp, ?_, ?_, ?_⟩
      · rw [hcount]
        by_cases hsame : bits = kept.previous <;> simp [hsame]
      · rintro k ⟨⟩
        exact @best_concat values (· < ·) _ _ _ kept.min (hinv.min kept hbits) bits
      · rintro k ⟨⟩
        exact @best_concat values (· > ·) _ _ _ kept.max (hinv.max kept hbits) bits

end Values

/-! ### The loop -/

section Loop

variable {width : ℕ} {rows : List ClockSample} {n : ℕ} {s : StatisticsState} {row : ClockSample}

/-- The loop takes the signal for zero. -/
def isLow (row : ClockSample) : Bool := (countedBits row).any fun bits => !bits.toList.contains '1'

/-- The variables after the first `n` samples. -/
structure StatisticsInv (rows : List ClockSample) (n : ℕ) (s : StatisticsState) : Prop where
  high : ∃ closed current, HighInv rows n s.high closed current
  values : ValuesInv ((rows.take n).filterMap countedBits) s.values
  samples : s.samples = n
  total : s.samples = s.known + s.unknown
  known : s.known = ((rows.take n).filterMap countedBits).length
  highCycles : s.highCycles = (rows.take n).countP isHigh
  lowCycles : s.lowCycles = (rows.take n).countP isLow

lemma statisticsInv_zero (rows : List ClockSample) : StatisticsInv rows 0 {} where
  high := ⟨[], none, Progress.zero _, rfl, rfl, rfl, rfl⟩
  values := ⟨by simp, by simp, rfl, by simp, by simp⟩
  samples := rfl
  total := rfl
  known := rfl
  highCycles := rfl
  lowCycles := rfl

lemma StatisticsInv.step_unknown (hinv : StatisticsInv rows n s) (hn : rows[n]? = some row)
    (hnone : countedBits row = none) :
    StatisticsInv rows (n + 1) (statisticsStep width s row) := by
  obtain ⟨closed, current, hhigh⟩ := hinv.high
  have htake : rows.take (n + 1) = rows.take n ++ [row] := by rw [List.take_add_one, hn]; rfl
  have hisHigh : isHigh row = false := by rw [isHigh, hnone, Option.any_none]
  have hisLow : isLow row = false := by rw [isLow, hnone, Option.any_none]
  have hvalues : (rows.take (n + 1)).filterMap countedBits =
      (rows.take n).filterMap countedBits := by simp [htake, hnone]
  have htotal := hinv.total
  simp only [statisticsStep, hnone]
  exact
    { high := ⟨_, _, hhigh.fall hn hisHigh row.time⟩
      values := hvalues ▸ hinv.values
      samples := congrArg (· + 1) hinv.samples
      total := by simp only; omega
      known := hvalues ▸ hinv.known
      highCycles := by simp [htake, hisHigh, hinv.highCycles]
      lowCycles := by simp [htake, hisLow, hinv.lowCycles] }

lemma StatisticsInv.step_known (hinv : StatisticsInv rows n s) (hn : rows[n]? = some row)
    {bits : String} (hbits : countedBits row = some bits) :
    StatisticsInv rows (n + 1) (statisticsStep width s row) := by
  obtain ⟨closed, current, hhigh⟩ := hinv.high
  have htake : rows.take (n + 1) = rows.take n ++ [row] := by rw [List.take_add_one, hn]; rfl
  have hisHigh : isHigh row = (bits.toList.contains '1' && bits.length = 1) := by
    rw [isHigh, hbits, Option.any_some]
  have hisLow : isLow row = !bits.toList.contains '1' := by rw [isLow, hbits, Option.any_some]
  have hvalues : (rows.take (n + 1)).filterMap countedBits =
      (rows.take n).filterMap countedBits ++ [bits] := by simp [htake, hbits]
  have htotal := hinv.total
  simp only [statisticsStep, hbits, ← hisHigh, ← hisLow]
  refine ⟨?_, ?_, congrArg (· + 1) hinv.samples, by simp only; omega, ?_, ?_, ?_⟩
  · cases hcase : isHigh row with
    | true =>
        obtain ⟨current', hrise⟩ := hhigh.rise hn hcase row.time
        exact ⟨closed, current', hrise⟩
    | false => exact ⟨_, _, hhigh.fall hn hcase row.time⟩
  · rw [hvalues]
    exact hinv.values.add row.time bits
  · simp [hvalues, hinv.known]
  · cases hcase : isHigh row <;> simp [htake, hcase, hinv.highCycles]
  · cases hcase : isLow row <;> simp [htake, hcase, hinv.lowCycles]

lemma StatisticsInv.step (hinv : StatisticsInv rows n s) (hn : rows[n]? = some row) :
    StatisticsInv rows (n + 1) (statisticsStep width s row) := by
  cases hbits : countedBits row with
  | none => exact hinv.step_unknown hn hbits
  | some bits => exact hinv.step_known hn hbits

lemma StatisticsInv.run (hn : n ≤ rows.length) :
    StatisticsInv rows n ((rows.take n).foldl (statisticsStep width) {}) := by
  induction n with
  | zero => exact statisticsInv_zero rows
  | succ n ih =>
      have hget : rows[n]? = some rows[n] := List.getElem?_eq_getElem hn
      rw [List.take_add_one, hget, Option.toList_some, List.foldl_concat]
      exact (ih (Nat.le_of_succ_le hn)).step hget

/-- The loop looks at the first `maxSamples` samples. -/
lemma statisticsLoop_eq (maxSamples : ℕ) (rest : List ClockSample) (s : StatisticsState) :
    (statisticsLoop width maxSamples rest s).1 =
        (rest.take (maxSamples - s.samples)).foldl (statisticsStep width) s ∧
      ((statisticsLoop width maxSamples rest s).2 = true ↔
        rest.length ≤ maxSamples - s.samples) := by
  induction rest generalizing s with
  | nil => simp [statisticsLoop]
  | cons row rest ih =>
      rw [statisticsLoop]
      split_ifs with hstop
      · have hzero : maxSamples - s.samples = 0 := by omega
        simp [hzero]
      · have hsamples : (statisticsStep width s row).samples = s.samples + 1 := by
          rw [statisticsStep]
          cases countedBits row <;> rfl
        obtain ⟨k, hk⟩ : ∃ k, maxSamples - s.samples = k + 1 := ⟨maxSamples - s.samples - 1, by omega⟩
        have hnext := ih (statisticsStep width s row)
        rw [hsamples, Nat.sub_add_eq, hk, Nat.add_sub_cancel] at hnext
        rw [hk, List.take_succ_cons, List.foldl_cons, List.length_cons, Nat.succ_le_succ_iff]
        exact hnext

end Loop

/-! ### Known samples -/

section Known

variable {width : ℕ} {rows : List ClockSample} {row : ClockSample} {bits : String}

lemma knownBits_eq_some :
    knownBits width row = some bits ↔ ∃ value, row.value = some value ∧
      value.kind = .bitVector ∧ value.text.length = width ∧
        value.text.toList.all (fun c => c = '0' || c = '1') = true ∧ value.text = bits := by
  rw [knownBits, Option.bind_eq_some_iff]
  simp only [Option.ite_none_right_eq_some, Option.some.injEq, and_assoc]

/-- Bits that are known have no `x` and no `z`. -/
lemma countedBits_of_knownBits (h : knownBits width row = some bits) :
    countedBits row = some bits := by
  obtain ⟨value, hvalue, hkind, -, hall, rfl⟩ := knownBits_eq_some.1 h
  simp only [List.all_eq_true, Bool.or_eq_true, decide_eq_true_eq] at hall
  have hlower : value.text.toList.map Char.toLower = value.text.toList := by
    conv_rhs => rw [← List.map_id value.text.toList]
    refine List.map_congr_left fun c hc => ?_
    rcases hall c hc with rfl | rfl <;> rfl
  have hnot (c : Char) (h0 : c ≠ '0') (h1 : c ≠ '1') : containsBit value.text c = false := by
    rw [containsBit, hlower, List.contains_eq_mem, decide_eq_false_iff_not]
    exact fun hc => (hall c hc).elim h0 h1
  have hxz : containsXz value.text = false := by
    rw [containsXz, hnot 'x' (by decide) (by decide), hnot 'z' (by decide) (by decide)]
    rfl
  simp [countedBits, hvalue, hkind, hxz, hlower]

/-- The samples without `x` and `z` are known if and only if the loop counts what is known. -/
lemma knownWithoutXz_iff :
    KnownWithoutXz width rows ↔ ∀ row ∈ rows, countedBits row = knownBits width row := by
  constructor
  · intro h row hrow
    cases hknown : knownBits width row with
    | some bits => exact countedBits_of_knownBits hknown
    | none =>
        rw [countedBits]
        cases hvalue : row.value with
        | none => rfl
        | some value =>
            dsimp only
            split_ifs with hcond
            · rfl
            · -- a value that is counted is known
              simp only [ne_eq, decide_not, Bool.or_eq_true, Bool.not_eq_true', decide_eq_false_iff_not,
                not_or, not_not, Bool.not_eq_true] at hcond
              obtain ⟨hlength, hall⟩ := h row hrow value hvalue hcond.1 hcond.2
              rw [knownBits_eq_some.2 ⟨value, hvalue, hcond.1, hlength, hall, rfl⟩] at hknown
              cases hknown
  · intro h row hrow value hvalue hkind hxz
    have hcounted : countedBits row = some (String.ofList (value.text.toList.map Char.toLower)) := by
      simp [countedBits, hvalue, hkind, hxz]
    rw [h row hrow] at hcounted
    obtain ⟨value', hvalue', -, hlength, hall, -⟩ := knownBits_eq_some.1 hcounted
    obtain rfl := Option.some.inj (hvalue.symm.trans hvalue')
    exact ⟨hlength, hall⟩

/-- If as many samples are counted as are known, they are the same. -/
lemma countedBits_eq_of_length (hlength : (rows.filterMap countedBits).length =
      (rows.filterMap (knownBits width)).length) {row : ClockSample} (hrow : row ∈ rows) :
    countedBits row = knownBits width row := by
  cases hknown : knownBits width row with
  | some bits => exact countedBits_of_knownBits hknown
  | none =>
      by_contra hne
      rw [List.length_filterMap_eq_countP, List.length_filterMap_eq_countP,
        List.countP_eq_length_filter, List.countP_eq_length_filter] at hlength
      have hsub : (rows.filter fun row => (knownBits width row).isSome).Sublist
          (rows.filter fun row => (countedBits row).isSome) := by
        refine List.monotone_filter_right rows fun row h => ?_
        obtain ⟨bits, hbits⟩ := Option.isSome_iff_exists.1 h
        rw [countedBits_of_knownBits hbits]
        rfl
      have hmem : row ∈ rows.filter fun row => (countedBits row).isSome :=
        List.mem_filter.2 ⟨hrow, Option.isSome_iff_ne_none.2 hne⟩
      rw [← hsub.eq_of_length hlength.symm] at hmem
      simpa [hknown] using (List.mem_filter.1 hmem).2

/-- A known sample of one bit. -/
lemma bits_of_width_one (h : knownBits 1 row = some bits) : bits = "0" ∨ bits = "1" := by
  obtain ⟨value, -, -, hlength, hall, rfl⟩ := knownBits_eq_some.1 h
  rw [← String.length_toList] at hlength
  obtain ⟨c, hc⟩ := List.length_eq_one_iff.1 hlength
  rw [hc, List.all_cons, List.all_nil, Bool.and_true, Bool.or_eq_true, decide_eq_true_eq,
    decide_eq_true_eq] at hall
  rw [← String.toList_inj, ← String.toList_inj, hc]
  rcases hall with rfl | rfl
  · exact Or.inl rfl
  · exact Or.inr rfl

lemma isHigh_eq (h : countedBits row = knownBits 1 row) :
    isHigh row = decide (knownBits 1 row = some "1") := by
  rw [isHigh, h]
  cases hbits : knownBits 1 row with
  | none => rfl
  | some bits => rcases bits_of_width_one hbits with rfl | rfl <;> rfl

lemma isLow_eq (h : countedBits row = knownBits 1 row) :
    isLow row = decide (knownBits 1 row = some "0") := by
  rw [isLow, h]
  cases hbits : knownBits 1 row with
  | none => rfl
  | some bits => rcases bits_of_width_one hbits with rfl | rfl <;> rfl

end Known

/-! ### The statistics -/

section Statistics

variable {width maxSamples : ℕ} {rows : List ClockSample}

lemma placesOf_congr {α : Type} {p q : α → Bool} {l : List α} (h : ∀ a ∈ l, p a = q a) :
    placesOf p l = placesOf q l := by
  funext i
  rw [placesOf, placesOf]
  cases hi : l[i]? with
  | none => rfl
  | some a => rw [Option.any_some, Option.any_some, h a (List.mem_of_getElem? hi)]

/-- The best of the known values in the order of their letters is the best number. -/
lemma bitsNumber_le_of_mem {l : List ClockSample} {a b : String}
    (ha : a ∈ l.filterMap (knownBits width)) (hb : b ∈ l.filterMap (knownBits width))
    (h : ¬ b < a) : bitsNumber a ≤ bitsNumber b := by
  obtain ⟨row, -, hrow⟩ := List.mem_filterMap.1 ha
  obtain ⟨row', -, hrow'⟩ := List.mem_filterMap.1 hb
  obtain ⟨value, -, -, hlength, hall, rfl⟩ := knownBits_eq_some.1 hrow
  obtain ⟨value', -, -, hlength', hall', rfl⟩ := knownBits_eq_some.1 hrow'
  exact bitsNumber_le_of_not_lt (hlength.trans hlength'.symm) hall hall' h

/-- The variables behind the loop. -/
lemma statisticsInv_loop (width maxSamples : ℕ) (rows : List ClockSample) :
    StatisticsInv (rows.take maxSamples) (rows.take maxSamples).length
      (statisticsLoop width maxSamples rows {}).1 := by
  have hrun := @StatisticsInv.run width (rows.take maxSamples) _ le_rfl
  rw [List.take_of_length_le le_rfl] at hrun
  rwa [(statisticsLoop_eq maxSamples rows {}).1]

lemma countsClockSamples_of_eq (lineLimit : ℕ)
    (h : ∀ row ∈ rows.take maxSamples, countedBits row = knownBits width row) :
    CountsClockSamples width rows maxSamples (clockStatistics width rows maxSamples lineLimit) := by
  have hrun := statisticsInv_loop width maxSamples rows
  obtain ⟨closed, current, hhigh⟩ := hrun.high
  have hinv := hrun.values
  have hknown := hrun.known
  rw [List.take_of_length_le le_rfl, List.filterMap_congr h] at hinv hknown
  have hruns : width = 1 → highRuns width (rows.take maxSamples) = closed ++ current.toList := by
    rintro rfl
    rw [highRuns, ← hhigh.progress.runs_eq]
    exact congrArg (runs · _) (placesOf_congr fun row hrow => (isHigh_eq (h row hrow)).symm)
  exact
    { total := hrun.total
      sampleCount := hrun.samples
      knownCount := hknown
      transitions := hinv.transitions
      none_iff := Option.map_eq_none_iff.trans hinv.none_iff
      min := by
        intro k hk
        obtain ⟨kept, hkept, rfl⟩ := Option.map_eq_some_iff.1 hk
        obtain ⟨hmem, hleast⟩ := hinv.min kept hkept
        exact ⟨hmem, fun bits hbits => bitsNumber_le_of_mem hmem hbits (hleast bits hbits)⟩
      max := by
        intro k hk
        obtain ⟨kept, hkept, rfl⟩ := Option.map_eq_some_iff.1 hk
        obtain ⟨hmem, hgreatest⟩ := hinv.max kept hkept
        exact ⟨hmem, fun bits hbits => bitsNumber_le_of_mem hbits hmem (hgreatest bits hbits)⟩
      highCycles := by
        rintro rfl k hk
        obtain ⟨kept, -, rfl⟩ := Option.map_eq_some_iff.1 hk
        have hcycles := hrun.highCycles
        rw [List.take_of_length_le le_rfl] at hcycles
        exact hcycles.trans (List.countP_congr fun row hrow => by rw [isHigh_eq (h row hrow)])
      lowCycles := by
        rintro rfl k hk
        obtain ⟨kept, -, rfl⟩ := Option.map_eq_some_iff.1 hk
        have hcycles := hrun.lowCycles
        rw [List.take_of_length_le le_rfl] at hcycles
        exact hcycles.trans (List.countP_congr fun row hrow => by rw [isLow_eq (h row hrow)])
      highBurstCount := by
        intro hwidth k hk
        obtain ⟨kept, -, rfl⟩ := Option.map_eq_some_iff.1 hk
        rw [hruns hwidth, List.length_append]
        exact hhigh.highBursts
      maxHighCycles := by
        intro hwidth k hk
        obtain ⟨kept, -, rfl⟩ := Option.map_eq_some_iff.1 hk
        rw [hruns hwidth]
        exact hhigh.max_eq
      scanComplete := (statisticsLoop_eq maxSamples rows {}).2 }

end Statistics

/-- The statistics are right if and only if each sample without `x` and `z` is known. -/
theorem countsClockSamples_iff (width : ℕ) (rows : List ClockSample) (maxSamples lineLimit : ℕ) :
    CountsClockSamples width rows maxSamples (clockStatistics width rows maxSamples lineLimit) ↔
      KnownWithoutXz width (rows.take maxSamples) := by
  rw [knownWithoutXz_iff]
  refine ⟨fun h row hrow => countedBits_eq_of_length ?_ hrow, countsClockSamples_of_eq lineLimit⟩
  have hknown := (statisticsInv_loop width maxSamples rows).known
  rw [List.take_of_length_le le_rfl] at hknown
  exact hknown.symm.trans h.knownCount

/-- The action is right about a signal of which every value without `x` and `z` is known. -/
theorem countsClockSamples_clockSamples {wf : Backend} {ref width : ℕ}
    (h : ∀ c ∈ wf.changesOf ref, c.value.kind = .bitVector → containsXz c.value.text = false →
      c.value.text.length = width ∧ c.value.text.toList.all (fun b => b = '0' || b = '1') = true)
    (clockRef : ℕ) (edge : EdgeSelect) (after : Bool) (first last maxSamples lineLimit : ℕ) :
    CountsClockSamples width (clockSamples wf clockRef ref edge after first last) maxSamples
      (clockStatistics width (clockSamples wf clockRef ref edge after first last) maxSamples
        lineLimit) := by
  refine countsClockSamples_of_eq lineLimit (knownWithoutXz_iff.1 fun row hrow value hvalue => ?_)
  obtain ⟨edgeRow, -, rfl⟩ := List.mem_map.1 (List.mem_of_mem_take hrow)
  obtain ⟨c, hc, rfl⟩ := Backend.exists_of_sample hvalue
  exact h c hc

/-! ### An uninitialized bit -/

/-- A one-bit signal that is uninitialized at one edge. -/
def uninitializedSamples : List ClockSample := [⟨5, some { text := "u" }⟩]

/-- It counts as known and low. -/
theorem uninitializedSamples_not_counted :
    ¬ CountsClockSamples 1 uninitializedSamples 10
      (clockStatistics 1 uninitializedSamples 10 100) := by
  intro h
  have hnone : (uninitializedSamples.take 10).filterMap (knownBits 1) = [] := by decide +kernel
  have hknown := h.none_iff.2 hnone
  revert hknown
  decide +kernel

end XdebugFst.Signal
