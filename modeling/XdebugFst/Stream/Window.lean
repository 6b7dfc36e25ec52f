import XdebugFst.Stream.Scan

/-!
# The window of a stream query

`stream.query` turns the bounds of its window into time indices with `time_idx_of`, which rounds
down to the last recorded time, and compares the indices of the edges with these. For the end this
is the same as comparing the times. A begin that lies between two recorded times is moved back to
the earlier one, and an edge at that time is sampled although it lies before the window. A window
that ends before the first recorded time is moved to that time.

`windowRespected_iff` says that this is the only way in which the samples of a window differ from
those of the full range whose time lies in it.
-/

namespace XdebugFst.Stream

open Lib Waveform

section Times

variable (wf : Backend) (query : StreamQuery)

/-- `begin_time`. -/
def beginTime : ℕ := query.beginTime.getD wf.minTime

/-- `end_time`. -/
def endTime : ℕ := query.endTime.getD wf.maxTime

/-- A time lies in the requested window. -/
def inWindow (time : ℕ) : Bool := beginTime wf query ≤ time && time ≤ endTime wf query

variable {wf query}

lemma queryWindow_eq_ok {window : ℕ × ℕ} : queryWindow wf query = .ok window ↔
    beginTime wf query ≤ endTime wf query ∧
      window = (wf.timeIdxOf (beginTime wf query), wf.timeIdxOf (endTime wf query)) := by
  rw [queryWindow]
  show (if beginTime wf query > endTime wf query then _ else _) = _ ↔ _
  split_ifs with h
  · simp only [false_iff, not_and]
    exact fun hle => absurd hle (not_le.2 h)
  · rw [Except.ok.injEq, eq_comm]
    exact (and_iff_right (not_lt.1 h)).symm

/-- An index inside the window of indices is inside the window of times, except for the index that
the begin is rounded to. -/
lemma inWindow_iff {ti : ℕ} (hti : ti < wf.timeTable.length) :
    inWindow wf query (wf.timeAt ti) = true ↔
      (wf.timeIdxOf (beginTime wf query) ≤ ti ∧ ti ≤ wf.timeIdxOf (endTime wf query)) ∧
        (ti = wf.timeIdxOf (beginTime wf query) → inWindow wf query (wf.timeAt ti) = true) := by
  have hne : wf.timeTable ≠ [] := List.ne_nil_of_length_pos (by omega)
  have hmin : wf.minTime ≤ wf.timeAt ti :=
    Backend.minTime_eq_timeAt_zero.trans_le (Backend.timeAt_le_of_le (Nat.zero_le ti) hti)
  constructor
  · intro hin
    simp only [inWindow, Bool.and_eq_true, decide_eq_true_eq] at hin
    refine ⟨⟨?_, Backend.le_timeIdxOf hti hin.2⟩, fun _ => by simpa [inWindow] using hin⟩
    by_contra hlt
    -- the begin is rounded to an index whose time is not after it
    have hbegin : wf.minTime ≤ beginTime wf query := by
      by_contra hbefore
      have hzero := Backend.timeIdxOf_eq_zero (not_le.1 hbefore)
      omega
    have hlast := Backend.timeAt_timeIdxOf_le hne hbegin
    have hbefore := Backend.timeAt_lt_of_lt (not_le.1 hlt) (Backend.timeIdxOf_lt hne _)
    omega
  · rintro ⟨⟨hfirst, hlast⟩, hround⟩
    rcases Nat.eq_or_lt_of_le hfirst with heq | hlt
    · exact hround heq.symm
    · simp only [inWindow, Bool.and_eq_true, decide_eq_true_eq]
      constructor
      · by_contra hbefore
        exact absurd (Backend.le_timeIdxOf hti (not_le.1 hbefore).le) (not_le.2 hlt)
      · -- the end is not before the first time, since an index after 0 is in the window
        have hend : wf.minTime ≤ endTime wf query := by
          by_contra hbefore
          have hzero := Backend.timeIdxOf_eq_zero (not_le.1 hbefore)
          omega
        exact (Backend.timeAt_le_of_le hlast (Backend.timeIdxOf_lt hne _)).trans
          (Backend.timeAt_timeIdxOf_le hne hend)

end Times

/-! ### Samples of the window and of the full range -/

/-- The samples with the cycles counted from 0. -/
def renumber {J : Type} (samples : List (StreamSample J)) : List (StreamSample J) :=
  samples.zipIdx.map fun s => { s.1 with cycle := s.2 }

/-- The samples of the whole waveform. -/
def fullScan (wf : Backend) (cfg : StreamConfig) (compiled : CompiledStreamExpressions) :
    List (StreamSample FieldJson) :=
  (scanStreamSamples wf cfg compiled (wf.timeIdxOf wf.minTime) (wf.timeIdxOf wf.maxTime)).1

section Samples

variable {wf : Backend} {cfg : StreamConfig} {compiled : CompiledStreamExpressions}

/-- The cycle is only a number in the sample. -/
lemma sampleAt_cycle (ti cycle cycle' : ℕ) :
    { (sampleAt wf cfg compiled ti cycle).1 with cycle := cycle' } =
      (sampleAt wf cfg compiled ti cycle').1 := by
  rw [sampleAt, sampleAt]
  cases resetDeasserted wf cfg ti with
  | false => rfl
  | true =>
      cases htransfer : transferNow wf cfg compiled ti (samplePoint cfg) with
      | false => simp [controlSample, resetSample, htransfer]
      | true => simp [controlSample, resetSample, htransfer, readFields]

lemma time_sampleAt (ti cycle : ℕ) :
    (sampleAt wf cfg compiled ti cycle).1.time = wf.timeAt ti := by
  rw [sampleAt]
  cases resetDeasserted wf cfg ti with
  | false => rfl
  | true =>
      cases htransfer : transferNow wf cfg compiled ti (samplePoint cfg) with
      | false => simp [controlSample, resetSample, htransfer]
      | true => simp [controlSample, resetSample, htransfer, readFields]

/-- The samples are those of the edges in the window, counted from 0. -/
lemma scanStreamSamples_eq (first last : ℕ) :
    (scanStreamSamples wf cfg compiled first last).1 =
      ((windowEdges wf cfg compiled first last).zipIdx).map fun edge =>
        (sampleAt wf cfg compiled edge.1 edge.2).1 := by
  rw [scanStreamSamples, scanLoop_eq pairwise_clockTimeIndices, List.map_map]
  rfl

/-- Renumbering some samples of edges gives the samples of these edges. -/
lemma renumber_filter (p : ℕ → Bool) (edges : List ℕ) (cycle : ℕ) :
    renumber (((edges.zipIdx cycle).map fun edge =>
        (sampleAt wf cfg compiled edge.1 edge.2).1).filter fun s => p s.time) =
      ((edges.filter fun ti => p (wf.timeAt ti)).zipIdx).map fun edge =>
        (sampleAt wf cfg compiled edge.1 edge.2).1 := by
  -- the numbers count the edges that are kept
  have hcount : ∀ (edges : List ℕ) (cycle k : ℕ),
      ((((edges.zipIdx cycle).map fun edge =>
          (sampleAt wf cfg compiled edge.1 edge.2).1).filter fun s => p s.time).zipIdx k).map
          (fun s => { s.1 with cycle := s.2 }) =
        ((edges.filter fun ti => p (wf.timeAt ti)).zipIdx k).map fun edge =>
          (sampleAt wf cfg compiled edge.1 edge.2).1 := by
    intro edges
    induction edges with
    | nil => exact fun _ _ => rfl
    | cons ti rest ih =>
        intro cycle k
        rw [List.zipIdx_cons, List.map_cons, List.filter_cons, List.filter_cons, time_sampleAt]
        split_ifs with hp
        · rw [List.zipIdx_cons, List.zipIdx_cons, List.map_cons, List.map_cons, ih,
            sampleAt_cycle]
        · exact ih (cycle + 1) k
  exact hcount edges cycle 0

lemma lt_of_mem_clockTimeIndices {ti : ℕ} (h : ti ∈ clockTimeIndices wf compiled) :
    ti < wf.timeTable.length := by
  obtain ⟨ref, -, hti⟩ := mem_clockTimeIndices.1 h
  exact Backend.timeIndicesOf_lt hti

/-- The full range has all selected edges. -/
lemma windowEdges_full : windowEdges wf cfg compiled (wf.timeIdxOf wf.minTime)
    (wf.timeIdxOf wf.maxTime) = (clockTimeIndices wf compiled).filter (isClockEdge wf cfg compiled) := by
  rw [windowEdges]
  refine List.filter_congr fun ti hti => ?_
  have hlt := lt_of_mem_clockTimeIndices hti
  have hne : wf.timeTable ≠ [] := List.ne_nil_of_length_pos (by omega)
  have hfirst : wf.timeIdxOf wf.minTime = 0 := by
    rw [Backend.minTime_eq_timeAt_zero, Backend.timeIdxOf_timeAt (by omega)]
  have hlast : ti ≤ wf.timeIdxOf wf.maxTime := by
    have hmax : wf.maxTime = wf.timeAt (wf.timeTable.length - 1) := by
      rw [Backend.maxTime, Backend.timeAt, List.getLastD_eq_getLast?, List.getLast?_eq_getElem?,
        List.getD_eq_getElem?_getD]
    rw [hmax, Backend.timeIdxOf_timeAt (by omega)]
    omega
  rw [hfirst]
  simp [hlast]

end Samples

/-! ### Windows that are respected -/

/-- The samples of a query lie in its window, and they are those samples of the full range that
do, counted from 0. -/
structure WindowRespected (wf : Backend) (cfg : StreamConfig) (query : StreamQuery) : Prop where
  inside : ∀ compiled window, compileStreamExpressions wf cfg = .ok compiled →
    queryWindow wf query = .ok window →
    ∀ s ∈ (scanStreamSamples wf cfg compiled window.1 window.2).1, inWindow wf query s.time = true
  complete : ∀ compiled window, compileStreamExpressions wf cfg = .ok compiled →
    queryWindow wf query = .ok window →
    (scanStreamSamples wf cfg compiled window.1 window.2).1 =
      renumber ((fullScan wf cfg compiled).filter fun s => inWindow wf query s.time)

/-- The clock has a selected edge at the time that the begin is rounded to, and this time is
outside of the window. -/
def RoundsToEdge (wf : Backend) (cfg : StreamConfig) (query : StreamQuery)
    (compiled : CompiledStreamExpressions) : Prop :=
  wf.timeIdxOf (beginTime wf query) ∈ clockTimeIndices wf compiled ∧
    isClockEdge wf cfg compiled (wf.timeIdxOf (beginTime wf query)) = true ∧
    inWindow wf query (wf.timeAt (wf.timeIdxOf (beginTime wf query))) = false

section Rounding

variable {wf : Backend} {cfg : StreamConfig} {query : StreamQuery}
  {compiled : CompiledStreamExpressions} {window : ℕ × ℕ}

/-- An edge that the begin is rounded to is sampled. -/
lemma exists_sample_of_roundsToEdge (hwindow : queryWindow wf query = .ok window)
    (h : RoundsToEdge wf cfg query compiled) :
    ∃ s ∈ (scanStreamSamples wf cfg compiled window.1 window.2).1,
      inWindow wf query s.time = false := by
  obtain ⟨hmem, hedge, hout⟩ := h
  obtain ⟨hle, hindices⟩ := queryWindow_eq_ok.1 hwindow
  -- a begin ahead of the first recorded time is rounded up to it
  have hround : wf.timeIdxOf (beginTime wf query) ≤ wf.timeIdxOf (endTime wf query) := by
    by_cases hmin : wf.minTime ≤ beginTime wf query
    · have hlt := lt_of_mem_clockTimeIndices hmem
      have hne : wf.timeTable ≠ [] := List.ne_nil_of_length_pos (by omega)
      exact Backend.le_timeIdxOf hlt ((Backend.timeAt_timeIdxOf_le hne hmin).trans hle)
    · rw [Backend.timeIdxOf_eq_zero (not_le.1 hmin)]
      exact Nat.zero_le _
  have hsampled : wf.timeIdxOf (beginTime wf query) ∈
      windowEdges wf cfg compiled window.1 window.2 := by
    rw [hindices]
    exact List.mem_filter.2 ⟨hmem, by simp [hedge, hround]⟩
  obtain ⟨i, hi, hget⟩ := List.getElem_of_mem hsampled
  refine ⟨(sampleAt wf cfg compiled (wf.timeIdxOf (beginTime wf query)) i).1, ?_, ?_⟩
  · rw [scanStreamSamples_eq]
    refine List.mem_map.2
      ⟨(wf.timeIdxOf (beginTime wf query), i), List.mk_mem_zipIdx_iff_getElem?.2 ?_, rfl⟩
    rw [List.getElem?_eq_getElem hi, hget]
  · rw [time_sampleAt]
    exact hout

/-- Without such an edge the samples are those of the whole scan in the window. -/
lemma scanStreamSamples_eq_renumber (hwindow : queryWindow wf query = .ok window)
    (h : ¬ RoundsToEdge wf cfg query compiled) :
    (scanStreamSamples wf cfg compiled window.1 window.2).1 =
      renumber ((fullScan wf cfg compiled).filter fun s => inWindow wf query s.time) := by
  obtain ⟨hle, hindices⟩ := queryWindow_eq_ok.1 hwindow
  rw [fullScan, scanStreamSamples_eq, scanStreamSamples_eq, renumber_filter, windowEdges_full,
    List.filter_filter, windowEdges, hindices]
  refine congrArg (fun edges => (List.zipIdx edges).map _) (List.filter_congr fun ti hti => ?_)
  have hiff := @inWindow_iff wf query ti (lt_of_mem_clockTimeIndices hti)
  cases hedge : isClockEdge wf cfg compiled ti with
  | false => simp
  | true =>
      rw [Bool.and_true, Bool.eq_iff_iff, hiff]
      simp only [Bool.true_and, Bool.and_eq_true, decide_eq_true_eq]
      refine (and_iff_left ?_).symm
      rintro rfl
      by_contra hout
      exact h ⟨hti, hedge, Bool.eq_false_of_not_eq_true hout⟩

end Rounding

/-- The window of a query is respected exactly if its begin is not rounded to an edge outside of
it. -/
theorem windowRespected_iff (wf : Backend) (cfg : StreamConfig) (query : StreamQuery) :
    WindowRespected wf cfg query ↔ ∀ compiled window,
      compileStreamExpressions wf cfg = .ok compiled → queryWindow wf query = .ok window →
      ¬ RoundsToEdge wf cfg query compiled := by
  constructor
  · intro h compiled window hcompiled hwindow hrounds
    obtain ⟨s, hs, hout⟩ := exists_sample_of_roundsToEdge hwindow hrounds
    have hin := h.inside compiled window hcompiled hwindow s hs
    rw [hout] at hin
    cases hin
  · intro h
    have hcomplete : ∀ compiled window, compileStreamExpressions wf cfg = .ok compiled →
        queryWindow wf query = .ok window →
        (scanStreamSamples wf cfg compiled window.1 window.2).1 =
          renumber ((fullScan wf cfg compiled).filter fun s => inWindow wf query s.time) :=
      fun compiled window hcompiled hwindow =>
        scanStreamSamples_eq_renumber hwindow (h compiled window hcompiled hwindow)
    refine ⟨fun compiled window hcompiled hwindow s hs => ?_, hcomplete⟩
    rw [hcomplete compiled window hcompiled hwindow, renumber] at hs
    obtain ⟨⟨s', k⟩, hs', rfl⟩ := List.mem_map.1 hs
    exact (List.mem_filter.1 (List.fst_mem_of_mem_zipIdx hs')).2

/-! ### A begin between two recorded times -/

lemma roundedTimes_sorted : [0, 5, 10].Pairwise (· < ·) := by decide

lemma roundedTimes_lt : ∀ t ∈ [0, 5, 10], t < 2 ^ 64 := by decide

def roundedTable : List (String × List (ℕ × String)) :=
  [("clk", [(0, "0"), (1, "1"), (2, "0")]), ("vld", [(0, "1")])]

lemma roundedTable_changes : ∀ s ∈ roundedTable,
    s.2.Pairwise (fun a b => a.1 ≤ b.1) ∧ ∀ c ∈ s.2, c.1 < [0, 5, 10].length := by
  decide

/-- The clock rises at time 5 and falls at time 10. -/
def roundedWave : Backend :=
  Backend.ofTable [0, 5, 10] roundedTable roundedTimes_sorted roundedTimes_lt roundedTable_changes

def roundedConfig : StreamConfig where
  clock := "clk"
  valid := "vld"

def roundedStream : CompiledStreamExpressions where
  clock := .signal "clk"
  valid := .signal "vld"
  ready := none
  backpressure := none
  sop := none
  eop := none
  data := none
  channelId := none
  clockDependencies := [1]

lemma compileStreamExpressions_rounded :
    compileStreamExpressions roundedWave roundedConfig = .ok roundedStream := by
  have hclock := @compileStreamExpression_signal roundedWave "clk" "clock" (by decide)
    (by decide +kernel) (show (1 : ℕ) ≠ 0 by decide)
  have hvalid := @compileStreamExpression_signal roundedWave "vld" "vld" (by decide)
    (by decide +kernel) (show (2 : ℕ) ≠ 0 by decide)
  rw [compileStreamExpressions, roundedConfig, hclock, hvalid]
  rfl

/-- The edge at time 5 is sampled for a window that begins at time 7. -/
theorem rounded_not_windowRespected : ¬ ∀ (wf : Backend) (cfg : StreamConfig) (query : StreamQuery),
    WindowRespected wf cfg query := by
  intro hall
  have hinside := (hall roundedWave roundedConfig
    { query := "transfer_window", beginTime := some 7, endTime := some 10 }).inside roundedStream
    (1, 2) compileStreamExpressions_rounded rfl
  revert hinside
  decide +kernel

end XdebugFst.Stream
