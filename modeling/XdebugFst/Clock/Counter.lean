import Mathlib
import XdebugFst.Lib.Scans
import XdebugFst.Waveform.Fill
import XdebugFst.Expr.Eval
import XdebugFst.Clock.Handshake

/-!
# Statistics of a counter

`counter.statistics` samples a valid condition and a counter at the edges of a clock. The counter
may be a concatenation of signals, of 64 bits at most. A sample counts if valid is true and all bits
of the counter are known; of the values that count the smallest and the largest are kept, each with
the number of its samples and the time of the first, and each change of value is evidence.

`counterStatistics_correct` says this of the loop, for every sequence of samples.
-/

namespace XdebugFst.Clock

open Lib Waveform Window XdebugFst.Expr

/-! ### Samples -/

/-- What is sampled at one edge: valid, and the values of the counter signals from left to right. -/
structure CounterSample where
  time : ℕ
  valid : AnalysisTri
  values : List (Option WaveformValue)
  width_le : (values.map fun value => (value.map fun v => v.text.length).getD 0).sum ≤ 64

/-- The bits of the counter; there are none when a signal has no value or no bits. -/
def counterBits : List (Option WaveformValue) → Option String
  | [] => some ""
  | none :: _ => none
  | some value :: rest =>
      if value.kind ≠ .bitVector then none
      else (counterBits rest).map fun bits => value.text ++ bits

/-- The loop of `bits_to_u64`, in 64 bits. -/
def bitsToU64From : ℕ → List Char → Option ℕ
  | out, [] => some out
  | out, c :: rest =>
      if c = '1' then bitsToU64From (out * 2 % 2 ^ 64 + 1) rest
      else if c = '0' then bitsToU64From (out * 2 % 2 ^ 64) rest
      else none

/-- `bits_to_u64`. -/
def bitsToU64 (bits : String) : Option ℕ := bitsToU64From 0 bits.toList

section Samples

variable (wf : Backend)

/-- A signal of a counter. All its values have its width. -/
structure CounterSignal where
  ref : ℕ
  width : ℕ
  sized : ∀ c ∈ wf.changesOf ref, c.value.text.length = width

/-- The counter signals from left to right, of 64 bits at most together. -/
structure CounterSignals where
  signals : List (CounterSignal wf)
  width_le : (signals.map CounterSignal.width).sum ≤ 64

/-- `vld`: a signal, or an expression that is bound to signals. -/
inductive ValidSource
  | signal (ref : ℕ)
  | expression (root : ExprNode)

/-- The state of valid at a time index. -/
def ValidSource.stateAt (valid : ValidSource) (timeIdx : ℕ) (point : ObservationPoint) :
    AnalysisTri :=
  match valid with
  | .signal ref => (wf.sample ref timeIdx point).elim .unknown analysisTruth
  | .expression root =>
      let result := evalExpression wf timeIdx point root
      if !result.known then .unknown
      else if result.bits.toList.contains '1' then .true
      else .false

variable {wf}

/-- A sampled text has the width of its signal. -/
lemma CounterSignal.length_sample_le (counter : CounterSignal wf) (timeIdx : ℕ)
    (point : ObservationPoint) :
    ((wf.sample counter.ref timeIdx point).map fun v => v.text.length).getD 0 ≤ counter.width := by
  cases hsample : wf.sample counter.ref timeIdx point with
  | none => simp
  | some value =>
      obtain ⟨c, hc, rfl⟩ := Backend.exists_of_sample hsample
      simp [counter.sized c hc]

lemma CounterSignals.length_samples_le (counters : CounterSignals wf) (timeIdx : ℕ)
    (point : ObservationPoint) :
    ((counters.signals.map fun counter => wf.sample counter.ref timeIdx point).map fun value =>
      (value.map fun v => v.text.length).getD 0).sum ≤ 64 := by
  refine le_trans ?_ counters.width_le
  rw [List.map_map]
  exact List.sum_le_sum fun counter _ => counter.length_sample_le timeIdx point

/-- The sample at an edge. -/
def counterSampleAt (valid : ValidSource) (counters : CounterSignals wf) (point : ObservationPoint)
    (row : AnalysisEdge) : CounterSample where
  time := row.time
  valid := valid.stateAt wf row.timeIdx point
  values := counters.signals.map fun (counter : CounterSignal wf) =>
    wf.sample counter.ref row.timeIdx point
  width_le := counters.length_samples_le row.timeIdx point

/-- The samples of the action. -/
def counterSamples (clockRef : ℕ) (edge : EdgeSelect) (after : Bool) (first last : ℕ)
    (valid : ValidSource) (counters : CounterSignals wf) : List CounterSample :=
  (collectAnalysisEdges wf clockRef edge first last).map
    (counterSampleAt valid counters (analysisObservationPoint edge after))

end Samples

/-! ### The loop -/

/-- A row of evidence; a value is rendered from its bits. -/
inductive CounterEvidence
  | unknownValid (time : ℕ)
  | unknownCounter (time : ℕ)
  | initial (time : ℕ) (bits : String)
  | valueChange (time : ℕ) (bits : String)
  deriving DecidableEq, Repr

/-- `min_value`, `max_value` and what is kept with them: the bits and the time of the first sample. -/
structure CounterExtremes where
  min : Extreme ℕ (String × ℕ)
  max : Extreme ℕ (String × ℕ)
  deriving DecidableEq, Repr

/-- The accumulators of the loop; a value with its flag is an option. -/
structure CounterState where
  samples : ℕ := 0
  validCount : ℕ := 0
  validFalse : ℕ := 0
  unknown : ℕ := 0
  evidence : List CounterEvidence := []
  previousValue : Option ℕ := none
  extremes : Option CounterExtremes := none

/-- The extremes after one more value. -/
def updateExtremes (extremes : Option CounterExtremes) (value : ℕ) (bits : String) (time : ℕ) :
    CounterExtremes :=
  match extremes with
  | none => ⟨⟨value, 1, bits, time⟩, ⟨value, 1, bits, time⟩⟩
  | some e => ⟨e.min.update (· < ·) value (bits, time), e.max.update (· > ·) value (bits, time)⟩

/-- A value that counts. -/
def CounterState.addValue (s : CounterState) (time : ℕ) (bits : String) (value : ℕ) :
    CounterState :=
  { s with
    evidence :=
      match s.previousValue with
      | none => s.evidence ++ [.initial time bits]
      | some previous => if value ≠ previous then s.evidence ++ [.valueChange time bits] else s.evidence
    previousValue := some value
    validCount := s.validCount + 1
    extremes := some (updateExtremes s.extremes value bits time) }

/-- The body of the loop. -/
def counterStep (s : CounterState) (row : CounterSample) : CounterState :=
  let s := { s with samples := s.samples + 1 }
  match row.valid with
  | .false => { s with validFalse := s.validFalse + 1 }
  | .unknown => { s with
      unknown := s.unknown + 1
      evidence := s.evidence ++ [.unknownValid row.time] }
  | .true =>
      match counterBits row.values with
      | none => { s with
          unknown := s.unknown + 1
          evidence := s.evidence ++ [.unknownCounter row.time] }
      | some bits =>
          match bitsToU64 bits with
          | none => { s with
              unknown := s.unknown + 1
              evidence := s.evidence ++ [.unknownCounter row.time] }
          | some value => s.addValue row.time bits value

/-- The loop over the samples, which ends early at `max_samples`; and `scan_complete`. -/
def counterLoop (maxSamples : ℕ) : List CounterSample → CounterState → CounterState × Bool
  | [], s => (s, true)
  | row :: rest, s =>
      if s.samples ≥ maxSamples then (s, false) else counterLoop maxSamples rest (counterStep s row)

/-- The response. -/
structure CounterReport where
  sampleCount : ℕ
  validCount : ℕ
  validFalseCount : ℕ
  unknownCount : ℕ
  scanComplete : Bool
  extremes : Option CounterExtremes
  evidence : List CounterEvidence
  totalCount : ℕ
  responseTruncated : Bool

/-- `CounterStatisticsHandler::run`, from the samples on. -/
def counterStatistics (rows : List CounterSample) (maxSamples lineLimit : ℕ) : CounterReport :=
  let (s, scanComplete) := counterLoop maxSamples rows {}
  { sampleCount := s.samples
    validCount := s.validCount
    validFalseCount := s.validFalse
    unknownCount := s.unknown
    scanComplete
    extremes := s.extremes
    evidence := s.evidence.take lineLimit
    totalCount := s.evidence.length
    responseTruncated := lineLimit < s.evidence.length }

/-! ### What is to be counted -/

/-- The number that known bits are, written with the most significant one first. -/
def knownValue (bits : List Char) : Option ℕ :=
  if bits.all fun c => c = '0' || c = '1' then
    some (Nat.ofDigits 2 (bits.reverse.map fun c => if c = '1' then 1 else 0))
  else none

/-- The value that counts at a sample, with its bits and the time. -/
def countedAt (row : CounterSample) : Option (ℕ × (String × ℕ)) :=
  if row.valid = .true then
    (counterBits row.values).bind fun bits =>
      (knownValue bits.toList).map fun value => (value, bits, row.time)
  else none

/-- The values that count. -/
def countedValues (rows : List CounterSample) : List (ℕ × (String × ℕ)) := rows.filterMap countedAt

/-- The values that differ from the one before. -/
def changedValues (values : List (ℕ × (String × ℕ))) : List (String × ℕ) :=
  ((adjacent values).filter fun pair => pair.2.1 ≠ pair.1.1).map fun pair => pair.2.2

/-- The bits and the time of a change of value. -/
def CounterEvidence.change : CounterEvidence → Option (String × ℕ)
  | .valueChange time bits => some (bits, time)
  | _ => none

/-- The response to a sequence of samples is what its fields say. -/
structure CountsSamples (rows : List CounterSample) (maxSamples lineLimit : ℕ) (r : CounterReport) :
    Prop where
  total : r.sampleCount = r.validCount + r.validFalseCount + r.unknownCount
  sampleCount : r.sampleCount = (rows.take maxSamples).length
  validCount : r.validCount = (countedValues (rows.take maxSamples)).length
  validFalseCount : r.validFalseCount = (rows.take maxSamples).countP fun row => row.valid = .false
  unknownCount : r.unknownCount =
    (rows.take maxSamples).countP fun row => row.valid ≠ .false ∧ countedAt row = none
  none_iff : r.extremes = none ↔ countedValues (rows.take maxSamples) = []
  min : ∀ e ∈ r.extremes, IsExtreme (· < ·) (countedValues (rows.take maxSamples)) e.min
  max : ∀ e ∈ r.extremes, IsExtreme (· > ·) (countedValues (rows.take maxSamples)) e.max
  evidence : ∃ evidence : List CounterEvidence,
    evidence.filterMap CounterEvidence.change = changedValues (countedValues (rows.take maxSamples)) ∧
      r.evidence = evidence.take lineLimit ∧ r.totalCount = evidence.length ∧
      (r.responseTruncated = true ↔ lineLimit < evidence.length)
  scanComplete : r.scanComplete = true ↔ rows.length ≤ maxSamples

/-! ### Bits -/

/-- A first bit counts with the weight of its place. -/
lemma knownValue_cons (c : Char) (rest : List Char) :
    knownValue (c :: rest) =
      if c = '1' then (knownValue rest).map fun value => 2 ^ rest.length + value
      else if c = '0' then knownValue rest
      else none := by
  rw [knownValue, knownValue, List.all_cons, List.reverse_cons, List.map_append,
    Nat.ofDigits_append]
  by_cases hone : c = '1'
  · subst hone
    cases rest.all fun c => c = '0' || c = '1' <;> simp [Nat.ofDigits_singleton, Nat.add_comm]
  · by_cases hzero : c = '0'
    · subst hzero
      simp [Nat.ofDigits_singleton]
    · simp [hone, hzero]

/-- Reading bits behind `out` in 64 bits, as long as they fit. -/
lemma bitsToU64From_eq {bits : List Char} {out k : ℕ} (hout : out < 2 ^ k)
    (hk : k + bits.length ≤ 64) :
    bitsToU64From out bits = (knownValue bits).map fun value => out * 2 ^ bits.length + value := by
  induction bits generalizing out k with
  | nil => simp [bitsToU64From, knownValue]
  | cons c rest ih =>
      rw [List.length_cons] at hk ⊢
      have hfits : out * 2 + 1 < 2 ^ (k + 1) := by
        rw [pow_succ]
        omega
      have hlt : out * 2 < 2 ^ 64 :=
        (Nat.lt_of_succ_lt hfits).trans_le (Nat.pow_le_pow_right (by omega) (by omega))
      rw [bitsToU64From, Nat.mod_eq_of_lt hlt, knownValue_cons]
      split_ifs with hone hzero
      · rw [ih hfits (by omega), Option.map_map]
        congr 1
        ext value
        rw [Function.comp_apply, pow_succ]
        ring
      · rw [ih (Nat.lt_of_succ_lt hfits) (by omega)]
        congr 1
        ext value
        rw [pow_succ]
        ring
      · rfl

/-- `bits_to_u64` reads up to 64 known bits as the number that they are. -/
lemma bitsToU64_eq {bits : String} (h : bits.length ≤ 64) :
    bitsToU64 bits = knownValue bits.toList := by
  have hlength : 0 + bits.toList.length ≤ 64 := by
    rw [Nat.zero_add, String.length_toList]
    exact h
  rw [bitsToU64, bitsToU64From_eq Nat.one_pos hlength]
  simp

/-- The bits of a counter have the widths of its signals together. -/
lemma length_counterBits_le {values : List (Option WaveformValue)} {bits : String}
    (h : counterBits values = some bits) :
    bits.length ≤ (values.map fun value => (value.map fun v => v.text.length).getD 0).sum := by
  induction values generalizing bits with
  | nil =>
      cases h
      simp
  | cons value rest ih =>
      cases value with
      | none => cases h
      | some value =>
          rw [counterBits] at h
          split_ifs at h
          obtain ⟨tail, htail, rfl⟩ := Option.map_eq_some_iff.1 h
          have := ih htail
          simp only [List.map_cons, List.sum_cons, Option.map_some, Option.getD_some,
            String.length_append]
          omega

/-! ### One sample -/

section Step

variable {s : CounterState} {row : CounterSample}

lemma bitsToU64_counterBits {bits : String} (h : counterBits row.values = some bits) :
    bitsToU64 bits = knownValue bits.toList :=
  bitsToU64_eq ((length_counterBits_le h).trans row.width_le)

lemma counterStep_of_false (h : row.valid = .false) :
    counterStep s row = { s with samples := s.samples + 1, validFalse := s.validFalse + 1 } := by
  simp only [counterStep, h]

/-- A sample that does not count although valid is not false. -/
lemma counterStep_of_unknown (h : row.valid ≠ .false) (hnone : countedAt row = none) :
    ∃ e : CounterEvidence, e.change = none ∧
      counterStep s row =
        { s with
          samples := s.samples + 1
          unknown := s.unknown + 1
          evidence := s.evidence ++ [e] } := by
  cases hvalid : row.valid with
  | false => exact absurd hvalid h
  | unknown =>
      refine ⟨.unknownValid row.time, rfl, ?_⟩
      simp only [counterStep, hvalid]
  | true =>
      refine ⟨.unknownCounter row.time, rfl, ?_⟩
      rw [countedAt, if_pos hvalid] at hnone
      cases hbits : counterBits row.values with
      | none => simp only [counterStep, hvalid, hbits]
      | some bits =>
          rw [hbits, Option.bind_some, Option.map_eq_none_iff, ← bitsToU64_counterBits hbits] at hnone
          simp only [counterStep, hvalid, hbits, hnone]

/-- A sample that counts. -/
lemma counterStep_of_counted {value time : ℕ} {bits : String}
    (h : countedAt row = some (value, bits, time)) :
    row.valid = .true ∧
      counterStep s row = { s with samples := s.samples + 1 }.addValue time bits value := by
  rw [countedAt] at h
  split_ifs at h with hvalid
  obtain ⟨bits', hbits, h⟩ := Option.bind_eq_some_iff.1 h
  obtain ⟨value', hvalue, h⟩ := Option.map_eq_some_iff.1 h
  cases h
  rw [← bitsToU64_counterBits hbits] at hvalue
  exact ⟨hvalid, by simp only [counterStep, hvalid, hbits, hvalue]⟩

end Step

/-! ### The loop -/

/-- The accumulators of the values, after the values that count. -/
structure ValuesInv (values : List (ℕ × (String × ℕ))) (s : CounterState) : Prop where
  validCount : s.validCount = values.length
  previous : s.previousValue = values.getLast?.map Prod.fst
  changes : s.evidence.filterMap CounterEvidence.change = changedValues values
  none_iff : s.extremes = none ↔ values = []
  min : ∀ e ∈ s.extremes, IsExtreme (· < ·) values e.min
  max : ∀ e ∈ s.extremes, IsExtreme (· > ·) values e.max

/-- The accumulators after the samples `rows`. -/
structure CounterInv (rows : List CounterSample) (s : CounterState) : Prop where
  values : ValuesInv (countedValues rows) s
  samples : s.samples = rows.length
  total : s.samples = s.validCount + s.validFalse + s.unknown
  validFalse : s.validFalse = rows.countP fun row => row.valid = .false
  unknown : s.unknown = rows.countP fun row => row.valid ≠ .false ∧ countedAt row = none

section Values

variable {values : List (ℕ × (String × ℕ))} {s s' : CounterState}

/-- Evidence that is no change of value does not matter. -/
lemma ValuesInv.frame (h : ValuesInv values s) (hcount : s'.validCount = s.validCount)
    (hprevious : s'.previousValue = s.previousValue) (hextremes : s'.extremes = s.extremes)
    (hevidence : s'.evidence.filterMap CounterEvidence.change =
      s.evidence.filterMap CounterEvidence.change) : ValuesInv values s' where
  validCount := hcount.trans h.validCount
  previous := hprevious.trans h.previous
  changes := hevidence.trans h.changes
  none_iff := hextremes ▸ h.none_iff
  min := hextremes ▸ h.min
  max := hextremes ▸ h.max

/-- One more value changes the extremes. -/
lemma ValuesInv.addExtremes (h : ValuesInv values s) (value time : ℕ) (bits : String) :
    IsExtreme (· < ·) (values ++ [(value, bits, time)])
        (updateExtremes s.extremes value bits time).min ∧
      IsExtreme (· > ·) (values ++ [(value, bits, time)])
        (updateExtremes s.extremes value bits time).max := by
  cases hextremes : s.extremes with
  | none =>
      rw [h.none_iff.1 hextremes]
      exact ⟨isExtreme_singleton, isExtreme_singleton⟩
  | some e => exact ⟨(h.min e hextremes).update, (h.max e hextremes).update⟩

/-- One more value is evidence if it differs from the last. -/
lemma ValuesInv.addChange (h : ValuesInv values s) (value time : ℕ) (bits : String) :
    (s.addValue time bits value).evidence.filterMap CounterEvidence.change =
      changedValues (values ++ [(value, bits, time)]) := by
  have hchanges := h.changes
  rw [changedValues] at hchanges
  rw [CounterState.addValue, changedValues, adjacent_concat, List.filter_append, List.map_append,
    ← hchanges, h.previous]
  cases values.getLast? with
  | none => simp [CounterEvidence.change]
  | some last => by_cases hsame : value = last.1 <;> simp [hsame, CounterEvidence.change]

lemma ValuesInv.addValue (h : ValuesInv values s) (value time : ℕ) (bits : String) :
    ValuesInv (values ++ [(value, bits, time)]) (s.addValue time bits value) where
  validCount := by simp [CounterState.addValue, h.validCount]
  previous := by simp [CounterState.addValue]
  changes := h.addChange value time bits
  none_iff := by simp [CounterState.addValue]
  min := by
    rintro e ⟨⟩
    exact (h.addExtremes value time bits).1
  max := by
    rintro e ⟨⟩
    exact (h.addExtremes value time bits).2

end Values

section Loop

variable {s : CounterState} {rows : List CounterSample} {row : CounterSample}

lemma counterInv_nil : CounterInv [] {} where
  values := ⟨rfl, rfl, rfl, by simp [countedValues], by simp, by simp⟩
  samples := rfl
  total := rfl
  validFalse := rfl
  unknown := rfl

lemma countedValues_concat (rows : List CounterSample) (row : CounterSample) :
    countedValues (rows ++ [row]) = countedValues rows ++ (countedAt row).toList := by
  rw [countedValues, countedValues, List.filterMap_append]
  cases h : countedAt row <;> simp [h]

/-- A sample that does not count because valid is false. -/
lemma CounterInv.step_false (h : CounterInv rows s) (hvalid : row.valid = .false) :
    CounterInv (rows ++ [row]) (counterStep s row) := by
  have hcounted : countedAt row = none := by simp [countedAt, hvalid]
  have htotal := h.total
  rw [counterStep_of_false hvalid]
  refine ⟨?_, by simp [h.samples], by simp only; omega, ?_, ?_⟩
  · rw [countedValues_concat, hcounted, Option.toList_none, List.append_nil]
    exact h.values.frame rfl rfl rfl rfl
  · simp [List.countP_append, h.validFalse, hvalid]
  · simp [List.countP_append, h.unknown, hvalid]

/-- A sample that does not count although valid is not false. -/
lemma CounterInv.step_unknown (h : CounterInv rows s) (hvalid : row.valid ≠ .false)
    (hcounted : countedAt row = none) : CounterInv (rows ++ [row]) (counterStep s row) := by
  obtain ⟨e, hchange, hstep⟩ := counterStep_of_unknown (s := s) hvalid hcounted
  have htotal := h.total
  rw [hstep]
  refine ⟨?_, by simp [h.samples], by simp only; omega, ?_, ?_⟩
  · rw [countedValues_concat, hcounted, Option.toList_none, List.append_nil]
    exact h.values.frame rfl rfl rfl (by simp [hchange])
  · simp [List.countP_append, h.validFalse, hvalid]
  · simp [List.countP_append, h.unknown, hvalid, hcounted]

/-- A sample that counts. -/
lemma CounterInv.step_counted (h : CounterInv rows s) {counted : ℕ × (String × ℕ)}
    (hcounted : countedAt row = some counted) : CounterInv (rows ++ [row]) (counterStep s row) := by
  obtain ⟨value, bits, time⟩ := counted
  obtain ⟨hvalid, hstep⟩ := counterStep_of_counted (s := s) hcounted
  have htotal := h.total
  rw [hstep]
  refine ⟨?_, ?_, ?_, ?_, ?_⟩
  · rw [countedValues_concat, hcounted, Option.toList_some]
    refine ValuesInv.addValue ?_ value time bits
    exact h.values.frame rfl rfl rfl rfl
  · simp [CounterState.addValue, h.samples]
  · simp only [CounterState.addValue]
    omega
  · simp [CounterState.addValue, List.countP_append, h.validFalse, hvalid]
  · simp [CounterState.addValue, List.countP_append, h.unknown, hcounted]

lemma CounterInv.step (h : CounterInv rows s) : CounterInv (rows ++ [row]) (counterStep s row) := by
  cases hcounted : countedAt row with
  | some counted => exact h.step_counted hcounted
  | none =>
      by_cases hvalid : row.valid = .false
      · exact h.step_false hvalid
      · exact h.step_unknown hvalid hcounted

/-- The samples that the loop visits are the first `maxSamples` ones. -/
lemma CounterInv.loop (h : CounterInv rows s) (rest : List CounterSample) {maxSamples : ℕ}
    (hle : rows.length ≤ maxSamples) :
    CounterInv ((rows ++ rest).take maxSamples) (counterLoop maxSamples rest s).1 ∧
      ((counterLoop maxSamples rest s).2 = true ↔ (rows ++ rest).length ≤ maxSamples) := by
  induction rest generalizing rows s with
  | nil =>
      rw [List.append_nil, List.take_of_length_le hle]
      exact ⟨h, by simpa [counterLoop] using hle⟩
  | cons row rest ih =>
      rw [counterLoop, h.samples]
      split_ifs with hstop
      · have heq : rows.length = maxSamples := le_antisymm hle hstop
        subst heq
        rw [List.take_left]
        exact ⟨h, by simp⟩
      · have hstep : CounterInv (rows ++ [row]) (counterStep s row) := h.step
        have hnext := ih hstep (by simp; omega)
        rwa [List.append_assoc, List.singleton_append] at hnext

end Loop

/-- The statistics of every sequence of samples are what their fields say. -/
theorem counterStatistics_correct (rows : List CounterSample) (maxSamples lineLimit : ℕ) :
    CountsSamples rows maxSamples lineLimit (counterStatistics rows maxSamples lineLimit) := by
  obtain ⟨h, hcomplete⟩ := counterInv_nil.loop rows (Nat.zero_le maxSamples)
  rw [List.nil_append] at h hcomplete
  exact
    { total := h.total
      sampleCount := h.samples
      validCount := h.values.validCount
      validFalseCount := h.validFalse
      unknownCount := h.unknown
      none_iff := h.values.none_iff
      min := h.values.min
      max := h.values.max
      evidence := ⟨_, h.values.changes, rfl, rfl, by simp [counterStatistics]⟩
      scanComplete := hcomplete }

/-- The action takes one sample for each edge of the clock in the range, up to `max_samples`, and
valid is false at as many as it says. -/
theorem counts_counterSamples {wf : Backend} (clockRef : ℕ) (edge : EdgeSelect) (after : Bool)
    (first last : ℕ) (valid : ValidSource) (counters : CounterSignals wf)
    (maxSamples lineLimit : ℕ) :
    let edges := (collectAnalysisEdges wf clockRef edge first last).take maxSamples
    let report := counterStatistics
      (counterSamples clockRef edge after first last valid counters) maxSamples lineLimit
    report.sampleCount = edges.length ∧
      report.validFalseCount = edges.countP fun row =>
        valid.stateAt wf row.timeIdx (analysisObservationPoint edge after) = .false := by
  intro edges report
  have h := (counterInv_nil.loop (counterSamples clockRef edge after first last valid counters)
    (Nat.zero_le maxSamples)).1
  rw [List.nil_append, counterSamples, ← List.map_take] at h
  refine ⟨h.samples.trans (List.length_map _), h.validFalse.trans ?_⟩
  rw [List.countP_map]
  rfl

end XdebugFst.Clock
