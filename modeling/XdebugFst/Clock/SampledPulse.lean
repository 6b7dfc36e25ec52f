import Mathlib
import XdebugFst.Lib.Pieces
import XdebugFst.Waveform.Fill
import XdebugFst.Clock.Handshake

/-!
# Pulses that no clock edge samples

`signal.sampled_pulse.inspect` samples a valid signal at the edges of a clock and then walks over
the changes of valid. Between two changes it has one value, and a piece on which that is high is a
finding if no sample with a time of the piece is high.

What is to be found are the maximal intervals of the window on which valid is high and that no
sample reads. A sample before an edge reads the time just before it, so it can read the interval
that ends at the edge, of which the time of the edge is no part; and an interval may consist of
several pieces, when valid has more than one bit or a change repeats its value. `reportsExactly_iff`
says when the walk finds these intervals nevertheless.
-/

namespace XdebugFst.Clock

open Lib Lib.History Waveform Window

/-! ### Samples -/

/-- `Sample`. -/
structure PulseSample where
  time : ℕ
  valid : WaveformValue
  payloadValues : List WaveformValue
  deriving Inhabited

section Samples

variable (wf : Backend) (clockRef validRef : ℕ) (payloadRefs : List ℕ) (edge : EdgeSelect)
  (point : ObservationPoint) (first last : ℕ)

/-- The samples: the edges at which valid has a value. -/
def pulseSamples : List PulseSample :=
  (collectAnalysisEdges wf clockRef edge first last).filterMap fun row =>
    (wf.sample validRef row.timeIdx point).map fun valid =>
      { time := row.time
        valid
        payloadValues := payloadRefs.map fun ref => (wf.sample ref row.timeIdx point).getD {} }

end Samples

section Search

variable (samples : List PulseSample)

/-- `lower_sample`. -/
def lowerSample (time : ℕ) : ℕ := (samples.takeWhile fun row => row.time < time).length

/-- `nearest_sample`; there is none when there are no samples. -/
def nearestSample (time : ℕ) : Option ℕ :=
  if samples = [] then none
  else
    let next := lowerSample samples time
    if next = 0 then some 0
    else if next ≥ samples.length then some (samples.length - 1)
    else
      let timeOf (i : ℕ) := (samples.getD i default).time
      some (if time - timeOf (next - 1) ≤ timeOf next - time then next - 1 else next)

/-- What a finding says about the samples around it. -/
structure SamplesAround where
  previousSampleEdge : Option ℕ
  nextSampleEdge : Option ℕ
  nearestSampleEdge : Option ℕ
  sampledValid : Option WaveformValue
  sampledPayloads : List WaveformValue

/-- The samples around a time. -/
def samplesAround (time : ℕ) : SamplesAround where
  previousSampleEdge :=
    if lowerSample samples time = 0 then none
    else samples[lowerSample samples time - 1]?.map PulseSample.time
  nextSampleEdge := samples[lowerSample samples time]?.map PulseSample.time
  nearestSampleEdge := ((nearestSample samples time).bind (samples[·]?)).map PulseSample.time
  sampledValid := ((nearestSample samples time).bind (samples[·]?)).map PulseSample.valid
  sampledPayloads :=
    (((nearestSample samples time).bind (samples[·]?)).map PulseSample.payloadValues).getD []

/-- `sampled_high_between`. -/
def sampledHighBetween (lo hi : ℕ) : Bool :=
  ((samples.drop (lowerSample samples lo)).takeWhile fun row => row.time < hi).any fun row =>
    analysisTruth row.valid = .true

end Search

/-! ### Findings -/

/-- The findings. -/
inductive PulseFinding
  | unsampledValidPulse (rawBegin rawEnd : ℕ) (rawValid : WaveformValue) (around : SamplesAround)
      (reason : String)
  | payloadChangedWithoutSampledValid (rawTime payload : ℕ) (value : WaveformValue)
      (around : SamplesAround) (reason : String)

/-- The interval of an unsampled pulse. -/
def PulseFinding.interval : PulseFinding → Option (ℕ × ℕ)
  | .unsampledValidPulse rawBegin rawEnd _ _ _ => some (rawBegin, rawEnd)
  | _ => none

/-- `rules.payload_changed_without_sampled_valid`. -/
inductive PayloadReporting
  | off | summary | all
  deriving DecidableEq, Repr

section Pulses

variable (wf : Backend) (validRef : ℕ) (samples : List PulseSample) (first last : ℕ)

/-- `emit_pulse`. -/
def emitPulse (lo hi : ℕ) (raw : WaveformValue) : List PulseFinding :=
  if hi ≤ lo ∨ analysisTruth raw ≠ .true ∨ sampledHighBetween samples lo hi then []
  else
    [.unsampledValidPulse lo hi raw (samplesAround samples lo)
      "valid was high between sample edges but not high at any sampled edge"]

/-- `valid_changes`. -/
def validChanges : List ℕ :=
  (wf.timeIndicesOf validRef).filter fun ti => wf.timeAt ti ≥ first && wf.timeAt ti ≤ last

/-- The loop over the changes of valid, with `segment_begin` and `current_valid`. -/
def pulseLoop : ℕ → WaveformValue → List ℕ → List PulseFinding
  | segmentBegin, currentValid, [] => emitPulse samples segmentBegin last currentValid
  | segmentBegin, currentValid, ti :: rest =>
      if wf.timeAt ti = first then pulseLoop first currentValid rest
      else
        emitPulse samples segmentBegin (wf.timeAt ti) currentValid ++
          pulseLoop (wf.timeAt ti) ((wf.sample validRef ti .raw).getD currentValid) rest

/-- The unsampled pulses that are found. -/
def unsampledPulses : List PulseFinding :=
  pulseLoop wf validRef samples first last first
    ((wf.sample validRef (wf.timeIdxOf first) .raw).getD {}) (validChanges wf validRef first last)

/-- The changes of a payload in the window at which the nearest sample of valid is not high. -/
def payloadRisks (payload ref : ℕ) : List PulseFinding :=
  (validChanges wf ref first last).filterMap fun ti =>
    let time := wf.timeAt ti
    let state := (((nearestSample samples time).bind (samples[·]?)).map fun row =>
      analysisTruth row.valid).getD .unknown
    if state = .true then none
    else
      some (.payloadChangedWithoutSampledValid time payload ((wf.sample ref ti .raw).getD {})
        (samplesAround samples time)
        (if state = .unknown then "payload changed but sampled valid was unknown"
          else "payload changed but valid was not sampled high by the DUT clock"))

end Pulses

/-- The numbers and findings of a response. -/
structure PulseReport where
  sampleCount : ℕ
  sampledHigh : ℕ
  sampledLow : ℕ
  sampledUnknown : ℕ
  firstHigh : Option ℕ
  lastHigh : Option ℕ
  rawValidTransitionCount : ℕ
  payloadTransitionCount : ℕ
  unsampledValidPulseCount : ℕ
  payloadRiskCount : ℕ
  totalCount : ℕ
  findings : List PulseFinding
  responseTruncated : Bool

section Request

variable (wf : Backend) (clockRef validRef : ℕ) (payloadRefs : List ℕ) (edge : EdgeSelect)
  (after : Bool) (first last : ℕ) (reporting : PayloadReporting) (lineLimit : ℕ)

/-- The samples that the action takes. -/
def samplesOf : List PulseSample :=
  pulseSamples wf clockRef validRef payloadRefs edge (analysisObservationPoint edge after) first last

/-- `SignalSampledPulseInspectHandler::run`, from the signals that are found and the window on. -/
def signalSampledPulseInspect : PulseReport :=
  let samples := samplesOf wf clockRef validRef payloadRefs edge after first last
  let states := samples.map fun row => analysisTruth row.valid
  let highTimes := (samples.filter fun row => analysisTruth row.valid = .true).map PulseSample.time
  let pulses := unsampledPulses wf validRef samples first last
  let scanned := if reporting = .off then [] else payloadRefs.zipIdx
  let risks := scanned.flatMap fun (ref, i) => payloadRisks wf samples first last i ref
  let found := pulses ++ if reporting = .all then risks else []
  { sampleCount := samples.length
    sampledHigh := states.count .true
    sampledLow := states.count .false
    sampledUnknown := states.count .unknown
    firstHigh := highTimes.head?
    lastHigh := highTimes.getLast?
    rawValidTransitionCount := (validChanges wf validRef first last).length
    payloadTransitionCount :=
      (scanned.map fun (ref, _) => (validChanges wf ref first last).length).sum
    unsampledValidPulseCount := pulses.length
    payloadRiskCount := risks.length
    totalCount := found.length + if reporting = .summary then risks.length else 0
    findings := found.take lineLimit
    responseTruncated := lineLimit < found.length }

end Request

/-! ### What is to be reported -/

section Statements

variable (wf : Backend) (clockRef validRef : ℕ) (payloadRefs : List ℕ) (edge : EdgeSelect)
  (after : Bool) (first last : ℕ) (reporting : PayloadReporting) (lineLimit : ℕ)

/-- The value of a signal at a time. -/
def valueAt (ref t : ℕ) : WaveformValue := (wf.sample ref (wf.timeIdxOf t) .raw).getD {}

/-- The signal is high at a time. -/
def HighAt (ref t : ℕ) : Prop := analysisTruth (valueAt wf ref t) = .true

/-- The signal has a change at a time. -/
def ChangesAt (ref t : ℕ) : Prop := ∃ ti ∈ wf.timeIndicesOf ref, wf.timeAt ti = t

/-- The time whose value is sampled at an edge. -/
def readTime (point : ObservationPoint) (time : ℕ) : ℕ :=
  match point with
  | .before => time - 1
  | _ => time

/-- The sample of valid at an edge is high. -/
def SamplesHigh (point : ObservationPoint) (row : AnalysisEdge) : Prop :=
  ∃ value, wf.sample validRef row.timeIdx point = some value ∧ analysisTruth value = .true

/-- The sample at an edge reads the high value of the interval from `lo` until before `hi`: it is
high, and valid is high from the time that is read to the interval. -/
structure ReadsInterval (point : ObservationPoint) (row : AnalysisEdge) (lo hi : ℕ) : Prop where
  high : SamplesHigh wf validRef point row
  back : ∀ t, readTime point row.time ≤ t → t < lo → HighAt wf validRef t
  ahead : ∀ t, hi ≤ t → t ≤ readTime point row.time → HighAt wf validRef t

/-- The unsampled pulses of a request. -/
def foundPulses : List PulseFinding :=
  unsampledPulses wf validRef
    (samplesOf wf clockRef validRef payloadRefs edge after first last) first last

/-- The intervals that are found are the maximal intervals with valid high which no selected edge
reads, in their order; the response counts them and lists the first ones. -/
structure ReportsExactly : Prop where
  mem_iff : ∀ lo hi,
    (lo, hi) ∈ (foundPulses wf clockRef validRef payloadRefs edge after first last).filterMap
        PulseFinding.interval ↔
      IsMaximalInterval (HighAt wf validRef) first last lo hi ∧
        ∀ row ∈ collectAnalysisEdges wf clockRef edge first last,
          ¬ ReadsInterval wf validRef (analysisObservationPoint edge after) row lo hi
  ordered : ((foundPulses wf clockRef validRef payloadRefs edge after first last).filterMap
    PulseFinding.interval).Pairwise fun a b => a.2 ≤ b.1
  count : (signalSampledPulseInspect wf clockRef validRef payloadRefs edge after first last reporting
      lineLimit).unsampledValidPulseCount =
    ((foundPulses wf clockRef validRef payloadRefs edge after first last).filterMap
      PulseFinding.interval).length
  listed : (signalSampledPulseInspect wf clockRef validRef payloadRefs edge after first last reporting
      lineLimit).findings.filterMap PulseFinding.interval =
    ((foundPulses wf clockRef validRef payloadRefs edge after first last).filterMap
      PulseFinding.interval).take lineLimit

/-- A high piece between two changes of valid at whose times nothing is sampled high stands alone:
valid is not high next to it, and an edge at its end does not sample valid high. -/
def UnsampledPiecesAlone : Prop :=
  let point := analysisObservationPoint edge after
  ∀ lo hi, IsPiece (ChangesAt wf validRef) first last lo hi → HighAt wf validRef lo →
    (∀ row ∈ collectAnalysisEdges wf clockRef edge first last, lo ≤ row.time → row.time < hi →
      ¬ SamplesHigh wf validRef point row) →
    (lo = first ∨ ¬ HighAt wf validRef (lo - 1)) ∧ (hi = last ∨ ¬ HighAt wf validRef hi) ∧
      ∀ row ∈ collectAnalysisEdges wf clockRef edge first last, row.time = hi →
        ¬ SamplesHigh wf validRef point row

end Statements

variable {wf : Backend} {clockRef validRef ref : ℕ} {payloadRefs : List ℕ} {edge : EdgeSelect}
  {after : Bool} {point : ObservationPoint} {first last lo hi : ℕ} {samples : List PulseSample}

/-! ### The value of a signal over time -/

/-- Where there is a change, its index is that of its time, and its last delta is read. -/
lemma valueAt_timeAt (hfew : IsHistory (wf.changesOf ref)) {ti : ℕ}
    (h : ti ∈ wf.timeIndicesOf ref) (default : WaveformValue) :
    (wf.sample ref ti .raw).getD default = valueAt wf ref (wf.timeAt ti) := by
  have hsome : (wf.sample ref ti .raw).isSome = true := by
    rw [Backend.sample, raw_sampledValueAt h, countedLast_deltasAt hfew h, Option.isSome_map,
      Option.isSome_iff_ne_none]
    obtain ⟨c, hc, rfl⟩ := List.mem_map.1 h
    exact fun hnone => lt_irrefl _ (lastWhere_eq_none_iff.1 hnone c hc)
  obtain ⟨value, hvalue⟩ := Option.isSome_iff_exists.1 hsome
  rw [valueAt, Backend.timeIdxOf_timeAt (Backend.timeIndicesOf_lt h), hvalue]
  rfl

/-- The changes up to the index of a time are those up to the time. When the time is before the
waveform these are the changes of the first index. -/
lemma le_timeIdxOf_iff {c : Change} (hc : c ∈ wf.changesOf ref) (t : ℕ) :
    c.timeIdx ≤ wf.timeIdxOf t ↔ c.timeIdx = 0 ∨ wf.timeAt c.timeIdx ≤ t := by
  have hlen := Backend.changesOf_lt hc
  have hne : wf.timeTable ≠ [] := List.ne_nil_of_length_pos (by omega)
  constructor
  · intro hle
    rcases lt_or_ge t wf.minTime with hbefore | hmin
    · rw [Backend.timeIdxOf_eq_zero hbefore] at hle
      exact Or.inl (Nat.le_zero.1 hle)
    · exact Or.inr ((Backend.timeAt_le_of_le hle (Backend.timeIdxOf_lt hne t)).trans
        (Backend.timeAt_timeIdxOf_le hne hmin))
  · rintro (hzero | hle)
    · omega
    · exact Backend.le_timeIdxOf hlen hle

/-- Without a change the value stays. -/
lemma valueAt_succ (hfew : IsHistory (wf.changesOf ref)) {t : ℕ} (h : ¬ ChangesAt wf ref (t + 1)) :
    valueAt wf ref (t + 1) = valueAt wf ref t := by
  have hsees : ∀ c ∈ wf.changesOf ref,
      ObservationPoint.raw.sees (wf.timeIdxOf (t + 1)) c =
        ObservationPoint.raw.sees (wf.timeIdxOf t) c := by
    intro c hc
    have hne : wf.timeAt c.timeIdx ≠ t + 1 := fun heq => h ⟨c.timeIdx, List.mem_map_of_mem hc, heq⟩
    show decide (c.timeIdx ≤ _) = decide (c.timeIdx ≤ _)
    rw [decide_eq_decide, le_timeIdxOf_iff hc, le_timeIdxOf_iff hc]
    omega
  rw [valueAt, valueAt, Backend.sample_eq hfew, Backend.sample_eq hfew, lastWhere, lastWhere,
    List.filter_congr hsees]

lemma changesAtCuts_highAt (hfew : IsHistory (wf.changesOf ref)) :
    ChangesAtCuts (HighAt wf ref) (ChangesAt wf ref) := by
  intro t h
  rw [HighAt, HighAt, valueAt_succ hfew h]

/-! ### What an edge reads -/

lemma mem_collectAnalysisEdges {row : AnalysisEdge}
    (h : row ∈ collectAnalysisEdges wf clockRef edge first last) :
    row.time = wf.timeAt row.timeIdx ∧ 0 < row.timeIdx ∧ row.timeIdx < wf.timeTable.length ∧
      first ≤ row.time ∧ row.time ≤ last := by
  rw [collectAnalysisEdges_eq] at h
  obtain ⟨ti, hti, rfl⟩ := List.mem_map.1 h
  obtain ⟨hmem, hsel⟩ := List.mem_filter.1 hti
  obtain ⟨hrange, hedge⟩ := Bool.and_eq_true_iff.1 hsel
  have hlen := Backend.timeIndicesOf_lt (mem_distinctIndices.1 hmem)
  refine ⟨rfl, ?_, hlen, ?_⟩
  · -- before the first index the clock has no value, so that it has no edge there
    rcases Nat.eq_zero_or_pos ti with rfl | hpos
    · have hnil : settledText wf clockRef (fun c => c.timeIdx < 0) = "" := by
        simp [settledText, lastWhere]
      rw [countedEdge, hnil, isRisingEdge_empty, isFallingEdge_empty, selectedEdge_false] at hedge
      simp at hedge
    · exact hpos
  · simp [inRange] at hrange
    exact hrange

/-- The sample at an edge is the value at the time that is read. -/
lemma sample_eq_readTime (hfew : IsHistory (wf.changesOf ref)) {row : AnalysisEdge}
    (h : row ∈ collectAnalysisEdges wf clockRef edge first last) :
    wf.sample ref row.timeIdx point =
      wf.sample ref (wf.timeIdxOf (readTime point row.time)) .raw := by
  obtain ⟨htime, hpos, hlen, -⟩ := mem_collectAnalysisEdges h
  have hself : wf.timeIdxOf row.time = row.timeIdx := htime ▸ Backend.timeIdxOf_timeAt hlen
  cases point with
  | raw =>
      show _ = wf.sample ref (wf.timeIdxOf row.time) .raw
      rw [hself]
  | after =>
      show _ = wf.sample ref (wf.timeIdxOf row.time) .raw
      rw [hself, Backend.sample_eq hfew, Backend.sample_eq hfew]
      rfl
  | before =>
      -- the changes before the edge are those up to the time before it
      have hsees : ∀ c ∈ wf.changesOf ref,
          ObservationPoint.before.sees row.timeIdx c =
            ObservationPoint.raw.sees (wf.timeIdxOf (readTime .before row.time)) c := by
        intro c hc
        show decide (c.timeIdx < _) = decide (c.timeIdx ≤ _)
        rw [decide_eq_decide, le_timeIdxOf_iff hc, readTime, htime]
        constructor
        · intro hlt
          have := Backend.timeAt_lt_of_lt hlt hlen
          omega
        · rintro (hzero | hle)
          · omega
          · by_contra hge
            have hle' := Backend.timeAt_le_of_le (not_lt.1 hge) (Backend.changesOf_lt hc)
            have hfirst := Backend.timeAt_lt_of_lt hpos hlen
            omega
      rw [Backend.sample_eq hfew, Backend.sample_eq hfew, lastWhere, lastWhere,
        List.filter_congr hsees]

lemma samplesHigh_iff (hfew : IsHistory (wf.changesOf ref)) {row : AnalysisEdge}
    (h : row ∈ collectAnalysisEdges wf clockRef edge first last) :
    SamplesHigh wf ref point row ↔ HighAt wf ref (readTime point row.time) := by
  rw [SamplesHigh, HighAt, valueAt, sample_eq_readTime hfew h]
  cases wf.sample ref (wf.timeIdxOf (readTime point row.time)) .raw with
  | none => simp [show analysisTruth {} = .unknown from rfl]
  | some value => simp

/-- A sample reads a maximal interval exactly when it is high and its edge is inside or at one of
the two ends. -/
lemma readsInterval_iff (hfew : IsHistory (wf.changesOf ref)) {row : AnalysisEdge}
    (h : row ∈ collectAnalysisEdges wf clockRef edge first last)
    (hmax : IsMaximalInterval (HighAt wf ref) first last lo hi) :
    ReadsInterval wf ref point row lo hi ↔
      SamplesHigh wf ref point row ∧ lo ≤ row.time ∧ row.time ≤ hi := by
  obtain ⟨-, -, -, hfirst, hlast⟩ := mem_collectAnalysisEdges h
  have hle : readTime point row.time ≤ row.time ∧ row.time ≤ readTime point row.time + 1 := by
    cases point <;> simp only [readTime] <;> omega
  have hlt := hmax.lt
  constructor
  · intro hreads
    refine ⟨hreads.high, ?_, ?_⟩
    · by_contra hbefore
      -- valid is not high just before the interval
      rcases hmax.left with hleft | hnot
      · omega
      · exact hnot (hreads.back (lo - 1) (by omega) (by omega))
    · by_contra hbehind
      rcases hmax.right with hright | hnot
      · omega
      · exact hnot (hreads.ahead hi le_rfl (by omega))
  · rintro ⟨hhigh, hlo, hhi⟩
    have hread := (samplesHigh_iff hfew h).1 hhigh
    -- the only times between are the one that is read
    refine ⟨hhigh, fun t hle' hlt' => ?_, fun t hle' hlt' => ?_⟩
    · obtain rfl : t = readTime point row.time := by omega
      exact hread
    · obtain rfl : t = readTime point row.time := by omega
      exact hread

/-! ### The walk over the changes -/

lemma pairwise_pulseSamples : (pulseSamples wf clockRef validRef payloadRefs edge point first
    last).Pairwise fun a b => a.time ≤ b.time := by
  have hrows : (collectAnalysisEdges wf clockRef edge first last).Pairwise
      fun a b => a.time ≤ b.time := by
    rw [collectAnalysisEdges_eq]
    refine List.pairwise_map.2 (selectedIndices_pairwise.imp_of_mem fun _ hb hlt => ?_)
    have hmem := mem_distinctIndices.1 (List.mem_filter.1 hb).1
    exact (Backend.timeAt_lt_of_lt hlt (Backend.timeIndicesOf_lt hmem)).le
  refine hrows.filterMap _ fun a a' hle b hb b' hb' => ?_
  obtain ⟨_, -, rfl⟩ := Option.map_eq_some_iff.1 hb
  obtain ⟨_, -, rfl⟩ := Option.map_eq_some_iff.1 hb'
  exact hle

/-- A high sample is found between two times exactly when an edge there samples high. -/
lemma sampledHighBetween_iff :
    sampledHighBetween (pulseSamples wf clockRef validRef payloadRefs edge point first last) lo hi =
        true ↔
      ∃ row ∈ collectAnalysisEdges wf clockRef edge first last, lo ≤ row.time ∧ row.time < hi ∧
        SamplesHigh wf validRef point row := by
  rw [sampledHighBetween, List.any_eq_true]
  constructor
  · rintro ⟨s, hs, htrue⟩
    obtain ⟨hmem, hlo, hhi⟩ := (mem_takeWhile_drop_iff pairwise_pulseSamples).1 hs
    obtain ⟨row, hrow, hsome⟩ := List.mem_filterMap.1 hmem
    obtain ⟨value, hvalue, rfl⟩ := Option.map_eq_some_iff.1 hsome
    exact ⟨row, hrow, hlo, hhi, value, hvalue, by simpa using htrue⟩
  · rintro ⟨row, hrow, hlo, hhi, value, hvalue, htrue⟩
    refine ⟨⟨row.time, value, payloadRefs.map fun ref => (wf.sample ref row.timeIdx point).getD {}⟩,
      (mem_takeWhile_drop_iff pairwise_pulseSamples).2 ⟨?_, hlo, hhi⟩, by simpa using htrue⟩
    exact List.mem_filterMap.2 ⟨row, hrow, by rw [hvalue]; rfl⟩

/-- A piece of the window is a finding. -/
def isFound (wf : Backend) (validRef : ℕ) (samples : List PulseSample) (piece : ℕ × ℕ) : Bool :=
  piece.1 < piece.2 && analysisTruth (valueAt wf validRef piece.1) = .true &&
    !sampledHighBetween samples piece.1 piece.2

lemma interval_emitPulse (lo hi : ℕ) :
    (emitPulse samples lo hi (valueAt wf validRef lo)).filterMap PulseFinding.interval =
      [(lo, hi)].filter (isFound wf validRef samples) := by
  rw [emitPulse, List.filter_singleton]
  by_cases hlt : lo < hi <;> by_cases htrue : analysisTruth (valueAt wf validRef lo) = .true <;>
    cases hbetween : sampledHighBetween samples lo hi <;>
    simp [isFound, hlt, htrue, hbetween, not_le.2, not_lt.1, PulseFinding.interval]

/-- The walk keeps the pieces that are findings. The invariant is that `current_valid` is the value
at the begin of the piece. -/
lemma interval_pulseLoop (hfew : IsHistory (wf.changesOf validRef)) {segmentBegin : ℕ} {l : List ℕ}
    (hmem : ∀ ti ∈ l, ti ∈ wf.timeIndicesOf validRef)
    (hs : (l.map wf.timeAt).Pairwise (· ≤ ·)) (hfirst : first ≤ segmentBegin)
    (hle : ∀ ti ∈ l, segmentBegin ≤ wf.timeAt ti) :
    (pulseLoop wf validRef samples first last segmentBegin (valueAt wf validRef segmentBegin)
        l).filterMap PulseFinding.interval =
      (pieces segmentBegin (l.map wf.timeAt) last).filter (isFound wf validRef samples) := by
  induction l generalizing segmentBegin with
  | nil => exact interval_emitPulse segmentBegin last
  | cons ti l ih =>
      rw [List.map_cons, List.pairwise_cons] at hs
      have hti := hmem ti List.mem_cons_self
      have htime := hle ti List.mem_cons_self
      have hrest : ∀ tj ∈ l, wf.timeAt ti ≤ wf.timeAt tj := fun tj htj =>
        hs.1 _ (List.mem_map_of_mem htj)
      have ih' := @ih (wf.timeAt ti) (fun tj htj => hmem tj (List.mem_cons_of_mem _ htj)) hs.2
        (hfirst.trans htime) hrest
      rw [pulseLoop, List.map_cons, pieces, ← List.singleton_append, List.filter_append,
        ← interval_emitPulse, ← ih']
      split_ifs with hbegin
      · -- a change at the begin of the window ends no piece
        obtain rfl : segmentBegin = first := by omega
        have hnil : emitPulse samples segmentBegin (wf.timeAt ti)
            (valueAt wf validRef segmentBegin) = [] := by
          rw [emitPulse, if_pos (Or.inl hbegin.le)]
        rw [hnil, hbegin]
        rfl
      · rw [List.filterMap_append, valueAt_timeAt hfew hti]

lemma mem_validChanges {ti : ℕ} : ti ∈ validChanges wf ref first last ↔
    ti ∈ wf.timeIndicesOf ref ∧ first ≤ wf.timeAt ti ∧ wf.timeAt ti ≤ last := by
  simp [validChanges]

lemma pairwise_time_validChanges :
    ((validChanges wf ref first last).map wf.timeAt).Pairwise (· ≤ ·) := by
  have hs := (@Backend.timeIndicesOf_sorted wf ref).filter
    fun ti => wf.timeAt ti ≥ first && wf.timeAt ti ≤ last
  refine List.pairwise_map.2 (hs.imp_of_mem fun _ hb hle => ?_)
  exact Backend.timeAt_le_of_le hle (Backend.timeIndicesOf_lt (List.mem_filter.1 hb).1)

lemma interval_unsampledPulses (hfew : IsHistory (wf.changesOf validRef)) :
    (unsampledPulses wf validRef samples first last).filterMap PulseFinding.interval =
      (pieces first ((validChanges wf validRef first last).map wf.timeAt) last).filter
        (isFound wf validRef samples) :=
  interval_pulseLoop hfew (fun _ hti => (mem_validChanges.1 hti).1) pairwise_time_validChanges le_rfl
    fun _ hti => (mem_validChanges.1 hti).2.1

/-- In the window the times of `valid_changes` are the times at which valid changes. -/
lemma mem_time_validChanges {t : ℕ} (hfirst : first ≤ t) (hlast : t ≤ last) :
    t ∈ (validChanges wf ref first last).map wf.timeAt ↔ ChangesAt wf ref t := by
  rw [List.mem_map, ChangesAt]
  constructor
  · rintro ⟨ti, hti, rfl⟩
    exact ⟨ti, (mem_validChanges.1 hti).1, rfl⟩
  · rintro ⟨ti, hti, rfl⟩
    exact ⟨ti, mem_validChanges.2 ⟨hti, hfirst, hlast⟩, rfl⟩

lemma isPiece_validChanges_iff :
    IsPiece (· ∈ (validChanges wf ref first last).map wf.timeAt) first last lo hi ↔
      IsPiece (ChangesAt wf ref) first last lo hi := by
  constructor
  · intro h
    have hlo : lo ≤ last := h.lt.le.trans h.le_last
    have hhi : first ≤ hi := h.first_le.trans h.lt.le
    refine ⟨h.first_le, h.lt, h.le_last, h.left.imp_right (mem_time_validChanges h.first_le hlo).1,
      h.right.imp_right (mem_time_validChanges hhi h.le_last).1, fun t hlt hth hcut => ?_⟩
    have hfirst : first ≤ t := h.first_le.trans hlt.le
    have hlast : t ≤ last := hth.le.trans h.le_last
    exact h.inside t hlt hth ((mem_time_validChanges hfirst hlast).2 hcut)
  · intro h
    have hlo : lo ≤ last := h.lt.le.trans h.le_last
    have hhi : first ≤ hi := h.first_le.trans h.lt.le
    refine ⟨h.first_le, h.lt, h.le_last, h.left.imp_right (mem_time_validChanges h.first_le hlo).2,
      h.right.imp_right (mem_time_validChanges hhi h.le_last).2, fun t hlt hth hcut => ?_⟩
    have hfirst : first ≤ t := h.first_le.trans hlt.le
    have hlast : t ≤ last := hth.le.trans h.le_last
    exact h.inside t hlt hth ((mem_time_validChanges hfirst hlast).1 hcut)

/-- What is found: the high pieces at whose times no edge samples high. -/
lemma mem_foundPulses_iff (hfew : IsHistory (wf.changesOf validRef)) :
    (lo, hi) ∈ (foundPulses wf clockRef validRef payloadRefs edge after first last).filterMap
        PulseFinding.interval ↔
      IsPiece (ChangesAt wf validRef) first last lo hi ∧ HighAt wf validRef lo ∧
        ∀ row ∈ collectAnalysisEdges wf clockRef edge first last, lo ≤ row.time → row.time < hi →
          ¬ SamplesHigh wf validRef (analysisObservationPoint edge after) row := by
  have hbetween := @sampledHighBetween_iff wf clockRef validRef payloadRefs edge
    (analysisObservationPoint edge after) first last lo hi
  have hpiece := @mem_pieces_iff first last lo hi _
    (@pairwise_time_validChanges wf validRef first last)
    (fun t ht => by
      obtain ⟨ti, hti, rfl⟩ := List.mem_map.1 ht
      exact (mem_validChanges.1 hti).2.1)
    (fun t ht => by
      obtain ⟨ti, hti, rfl⟩ := List.mem_map.1 ht
      exact (mem_validChanges.1 hti).2.2)
  rw [foundPulses, interval_unsampledPulses hfew, List.mem_filter, ← isPiece_validChanges_iff, ← hpiece,
    isFound, Bool.and_eq_true, Bool.and_eq_true, decide_eq_true_eq, decide_eq_true_eq,
    Bool.not_eq_true', ← Bool.not_eq_true, samplesOf, hbetween, HighAt]
  constructor
  · rintro ⟨hmem, ⟨hlt, hhigh⟩, hnone⟩
    exact ⟨⟨hmem, hlt⟩, hhigh, fun row hrow hlo hhi hs => hnone ⟨row, hrow, hlo, hhi, hs⟩⟩
  · rintro ⟨⟨hmem, hlt⟩, hhigh, hnone⟩
    refine ⟨hmem, ⟨hlt, hhigh⟩, ?_⟩
    rintro ⟨row, hrow, hlo, hhi, hs⟩
    exact hnone row hrow hlo hhi hs

/-! ### The response -/

lemma interval_of_mem_emitPulse {raw : WaveformValue} {f : PulseFinding}
    (h : f ∈ emitPulse samples lo hi raw) : f.interval ≠ none := by
  rw [emitPulse] at h
  split_ifs at h
  · simp at h
  · rw [List.mem_singleton.1 h]
    simp [PulseFinding.interval]

lemma interval_of_mem_pulseLoop {segmentBegin : ℕ} {current : WaveformValue} {l : List ℕ}
    {f : PulseFinding} (h : f ∈ pulseLoop wf validRef samples first last segmentBegin current l) :
    f.interval ≠ none := by
  induction l generalizing segmentBegin current with
  | nil => exact interval_of_mem_emitPulse h
  | cons ti l ih =>
      rw [pulseLoop] at h
      split_ifs at h
      · exact ih h
      · rcases List.mem_append.1 h with h | h
        · exact interval_of_mem_emitPulse h
        · exact ih h

lemma interval_of_mem_payloadRisks {payload : ℕ} {f : PulseFinding}
    (h : f ∈ payloadRisks wf samples first last payload ref) : f.interval = none := by
  obtain ⟨ti, -, hsome⟩ := List.mem_filterMap.1 h
  dsimp only at hsome
  split_ifs at hsome
  all_goals
    cases hsome
    rfl

/-- The pulses come first, so that a limit cuts them as it cuts the findings. -/
lemma interval_take_append {pulses others : List PulseFinding}
    (hpulses : ∀ f ∈ pulses, f.interval ≠ none) (hothers : ∀ f ∈ others, f.interval = none)
    (n : ℕ) : ((pulses ++ others).take n).filterMap PulseFinding.interval =
      (pulses.filterMap PulseFinding.interval).take n := by
  induction pulses generalizing n with
  | nil =>
      rw [List.nil_append, List.filterMap_nil, List.take_nil, List.filterMap_eq_nil_iff]
      exact fun f hf => hothers f (List.mem_of_mem_take hf)
  | cons f pulses ih =>
      obtain ⟨i, hi⟩ := Option.ne_none_iff_exists'.1 (hpulses f List.mem_cons_self)
      cases n with
      | zero => rfl
      | succ n =>
          rw [List.cons_append, List.take_succ_cons, List.filterMap_cons_some hi,
            List.filterMap_cons_some hi, List.take_succ_cons,
            ih (fun g hg => hpulses g (List.mem_cons_of_mem _ hg))]

lemma length_interval {pulses : List PulseFinding} (h : ∀ f ∈ pulses, f.interval ≠ none) :
    pulses.length = (pulses.filterMap PulseFinding.interval).length := by
  induction pulses with
  | nil => rfl
  | cons f pulses ih =>
      obtain ⟨i, hi⟩ := Option.ne_none_iff_exists'.1 (h f List.mem_cons_self)
      rw [List.filterMap_cons_some hi, List.length_cons, List.length_cons,
        ih fun g hg => h g (List.mem_cons_of_mem _ hg)]

lemma pairwise_foundPulses (hfew : IsHistory (wf.changesOf validRef)) :
    ((foundPulses wf clockRef validRef payloadRefs edge after first last).filterMap
      PulseFinding.interval).Pairwise fun a b => a.2 ≤ b.1 := by
  rw [foundPulses, interval_unsampledPulses hfew]
  exact (pairwise_pieces pairwise_time_validChanges).filter _

lemma interval_findings (reporting : PayloadReporting) (lineLimit : ℕ) :
    (signalSampledPulseInspect wf clockRef validRef payloadRefs edge after first last reporting
        lineLimit).findings.filterMap PulseFinding.interval =
      ((foundPulses wf clockRef validRef payloadRefs edge after first last).filterMap
        PulseFinding.interval).take lineLimit := by
  refine interval_take_append (fun f hf => interval_of_mem_pulseLoop hf) (fun f hf => ?_) lineLimit
  by_cases hall : reporting = .all
  · rw [if_pos hall] at hf
    obtain ⟨⟨ref, i⟩, -, hrisk⟩ := List.mem_flatMap.1 hf
    exact interval_of_mem_payloadRisks hrisk
  · rw [if_neg hall] at hf
    simp at hf

/-- For a valid signal with fewer than `2 ^ 16` deltas at each time, pulses are reported exactly if and
only if every high piece of valid in which nothing is sampled high is a whole interval and no edge
at its end reads it. -/
theorem reportsExactly_iff (wf : Backend) (clockRef validRef : ℕ) (payloadRefs : List ℕ)
    (edge : EdgeSelect) (after : Bool) (first last : ℕ) (reporting : PayloadReporting)
    (lineLimit : ℕ) (hfew : IsHistory (wf.changesOf validRef)) :
    ReportsExactly wf clockRef validRef payloadRefs edge after first last reporting lineLimit ↔
      UnsampledPiecesAlone wf clockRef validRef edge after first last := by
  constructor
  · intro h lo hi hpiece hhigh hnone
    obtain ⟨hmax, hunread⟩ := (h.mem_iff lo hi).1 ((mem_foundPulses_iff hfew).2 ⟨hpiece, hhigh, hnone⟩)
    refine ⟨hmax.left, hmax.right, fun row hrow htime hsamples => ?_⟩
    have hlt := hmax.lt
    exact hunread row hrow ((readsInterval_iff hfew hrow hmax).2 ⟨hsamples, by omega, by omega⟩)
  · intro h
    refine ⟨fun lo hi => ⟨fun hfound => ?_, ?_⟩, pairwise_foundPulses hfew,
      length_interval fun f hf => interval_of_mem_pulseLoop hf, interval_findings reporting lineLimit⟩
    · obtain ⟨hpiece, hhigh, hnone⟩ := (mem_foundPulses_iff hfew).1 hfound
      obtain ⟨hleft, hright, hend⟩ := h lo hi hpiece hhigh hnone
      have hmax : IsMaximalInterval (HighAt wf validRef) first last lo hi :=
        ⟨hpiece.first_le, hpiece.lt, hpiece.le_last,
          fun t hlo hhi => (hpiece.iff_of_mem (changesAtCuts_highAt hfew) hlo hhi).2 hhigh, hleft, hright⟩
      refine ⟨hmax, fun row hrow hreads => ?_⟩
      obtain ⟨hsamples, hlo, hhi⟩ := (readsInterval_iff hfew hrow hmax).1 hreads
      rcases hhi.lt_or_eq with hlt | heq
      · exact hnone row hrow hlo hlt hsamples
      · exact hend row hrow heq hsamples
    · rintro ⟨hmax, hunread⟩
      -- the first piece of the interval is found, and as it stands alone it is the interval
      obtain ⟨b, hb, hpiece⟩ := hmax.exists_isPiece (changesAtCuts_highAt hfew)
      have hhigh := hmax.holds lo le_rfl hmax.lt
      have hnone : ∀ row ∈ collectAnalysisEdges wf clockRef edge first last, lo ≤ row.time →
          row.time < b → ¬ SamplesHigh wf validRef (analysisObservationPoint edge after) row := by
        intro row hrow hlo hlt hsamples
        exact hunread row hrow ((readsInterval_iff hfew hrow hmax).2 ⟨hsamples, hlo, by omega⟩)
      obtain ⟨-, hright, -⟩ := h lo b hpiece hhigh hnone
      obtain rfl : b = hi := by
        by_contra hne
        have hlast := hmax.le_last
        have hlt := hpiece.lt
        rcases hright with heq | hnot
        · omega
        · exact hnot (hmax.holds b hlt.le (by omega))
      exact (mem_foundPulses_iff hfew).2 ⟨hpiece, hhigh, hnone⟩

lemma pulseTimes_sorted : [0, 4, 10, 20].Pairwise (· < ·) := by decide

lemma pulseTimes_lt : ∀ t ∈ [0, 4, 10, 20], t < 2 ^ 64 := by decide

/-- A clock that rises at time 10, when a valid signal falls that is high from time 4 on. -/
def pulseWave : Backend :=
  Backend.ofTable [0, 4, 10, 20]
    [("clk", [(0, "0"), (2, "1")]), ("valid", [(0, "0"), (1, "1"), (2, "0")])]
    pulseTimes_sorted pulseTimes_lt (by decide)

/-- The sample before the edge at time 10 reads the pulse that ends there, and the pulse is reported
as unsampled. -/
theorem pulseWave_not_reportsExactly :
    ¬ ReportsExactly pulseWave 1 2 [] .posedge false 0 20 .summary 100 := by
  intro h
  have hrows : collectAnalysisEdges pulseWave 1 .posedge 0 20 = [⟨2, 10⟩] := by decide +kernel
  have hfound : (foundPulses pulseWave 1 2 [] .posedge false 0 20).filterMap
      PulseFinding.interval = [(4, 10)] := by decide +kernel
  have hunread := ((h.mem_iff 4 10).1 (by rw [hfound]; exact List.mem_singleton_self _)).2
  refine hunread ⟨2, 10⟩ (by rw [hrows]; exact List.mem_singleton_self _) ⟨?_, ?_, ?_⟩
  · exact ⟨⟨.bitVector, "1", ""⟩, by decide +kernel, by decide +kernel⟩
  · intro t hle hlt
    have hle' : 9 ≤ t := hle
    omega
  · intro t hle hlt
    have hlt' : t ≤ 9 := hlt
    omega

lemma pulseWave_few : IsHistory (pulseWave.changesOf 2) :=
  isHistory_of_length_lt (Backend.changesOf_sorted 2) (by decide +kernel)

lemma pulseWave_changesAt {t : ℕ} (h : ChangesAt pulseWave 2 t) : t = 0 ∨ t = 4 ∨ t = 10 := by
  obtain ⟨ti, hti, rfl⟩ := h
  have hindices : pulseWave.timeIndicesOf 2 = [0, 1, 2] := by decide +kernel
  rw [hindices] at hti
  simp only [List.mem_cons, List.not_mem_nil, or_false] at hti
  rcases hti with rfl | rfl | rfl <;> decide +kernel

/-- The sample after the edge at time 10 does not read the pulse that ends there, and the pulse is
reported. -/
theorem pulseWave_reportsExactly_after :
    IsHistory (pulseWave.changesOf 2) ∧
      ReportsExactly pulseWave 1 2 [] .posedge true 0 20 .summary 100 := by
  refine ⟨pulseWave_few, (reportsExactly_iff _ _ _ _ _ _ _ _ _ _ pulseWave_few).2 ?_⟩
  intro lo hi hpiece hhigh _
  have hten : ChangesAt pulseWave 2 10 := ⟨2, by decide +kernel, by decide +kernel⟩
  have hlow : ∀ t ∈ [0, 3, 10], ¬ HighAt pulseWave 2 t := by
    simp only [HighAt]
    decide +kernel
  -- the piece with valid high begins at time 4, and it ends with the next change
  obtain rfl : lo = 4 := by
    rcases hpiece.left with rfl | hchange
    · exact absurd hhigh (hlow 0 (by decide))
    · rcases pulseWave_changesAt hchange with rfl | rfl | rfl
      · exact absurd hhigh (hlow 0 (by decide))
      · rfl
      · exact absurd hhigh (hlow 10 (by decide))
  have hlt := hpiece.lt
  have hle : hi ≤ 10 := not_lt.1 fun hbehind => hpiece.inside 10 (by decide) hbehind hten
  obtain rfl : hi = 10 := by
    rcases hpiece.right with rfl | hchange
    · omega
    · rcases pulseWave_changesAt hchange with rfl | rfl | rfl <;> omega
  refine ⟨Or.inr (hlow 3 (by decide)), Or.inr (hlow 10 (by decide)), fun row hrow _ hsamples => ?_⟩
  have hrows : collectAnalysisEdges pulseWave 1 .posedge 0 20 = [⟨2, 10⟩] := by decide +kernel
  rw [hrows, List.mem_singleton] at hrow
  have hread : row.time = 10 := by rw [hrow]
  have hhigh' := (samplesHigh_iff pulseWave_few (hrows ▸ List.mem_singleton.2 hrow)).1 hsamples
  change HighAt pulseWave 2 row.time at hhigh'
  rw [hread] at hhigh'
  exact hlow 10 (by decide) hhigh'
end XdebugFst.Clock
