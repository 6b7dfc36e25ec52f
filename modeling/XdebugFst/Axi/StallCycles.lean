import Mathlib
import XdebugFst.Axi.ChannelStall
import XdebugFst.Clock.Edges
import XdebugFst.Waveform.Fill

/-!
# Cycles of a stall

`axi.channel_stall` takes a tenth of the duration of a stall for its number of cycles. The clock
does not enter, so that this is the number of clock edges in the stall only by the times at which
they are.

When valid and ready change between known values, once at a time, every edge inside of a stall
samples it: at its ends it depends on the sample point which edge does. So the edges of a stall can
be told from the times of the clock and of the two signals, and `countsEdges_iff` compares their
number with a tenth of the duration, for any clock and in closed form for one with a period.
-/

namespace XdebugFst.Axi

open Lib Lib.History Waveform

/-! ### Edges of a period -/

/-- The number of edges of a clock with this period and phase that sample a stretch: behind its
begin up to its end for samples before the edge, from its begin to before its end for others. -/
def spannedEdges (point : ObservationPoint) (period phase beginTime endTime : ℕ) : ℕ :=
  let shift := if point = .before then period - phase else period - 1 - phase
  (endTime + shift) / period - (beginTime + shift) / period

section Period

variable {period phase a b : ℕ}

/-- The numbers with a rest, below a bound. -/
lemma card_filter_mod_range (h : phase < period) (n : ℕ) :
    ((Finset.range n).filter fun t => t % period = phase).card =
      (n + (period - 1 - phase)) / period := by
  have hpos : 0 < period := Nat.zero_lt_of_lt h
  have hcount := Nat.count_modEq_card n hpos phase
  rw [Nat.count_eq_card_filter_range, Nat.mod_eq_of_lt h] at hcount
  have hsame : (Finset.range n).filter (fun t => t % period = phase) =
      (Finset.range n).filter fun t => t ≡ phase [MOD period] :=
    Finset.filter_congr fun t _ => by rw [Nat.ModEq, Nat.mod_eq_of_lt h]
  have hlt : period - 1 - phase < period := by omega
  rw [hsame, hcount, Nat.add_div hpos, Nat.mod_eq_of_lt hlt, Nat.div_eq_of_lt hlt, Nat.add_zero]
  congr 1
  exact if_congr (by omega) rfl rfl

lemma card_filter_mod_Ico (h : phase < period) (hle : a ≤ b) :
    ((Finset.Ico a b).filter fun t => t % period = phase).card =
      (b + (period - 1 - phase)) / period - (a + (period - 1 - phase)) / period := by
  have hsum := Finset.sum_range_add_sum_Ico (fun t => if t % period = phase then 1 else 0) hle
  rw [← Finset.card_filter, ← Finset.card_filter, ← Finset.card_filter,
    card_filter_mod_range h, card_filter_mod_range h] at hsum
  omega

lemma card_filter_mod_Ioc (h : phase < period) (hle : a ≤ b) :
    ((Finset.Ioc a b).filter fun t => t % period = phase).card =
      (b + (period - phase)) / period - (a + (period - phase)) / period := by
  have hIoc : Finset.Ioc a b = Finset.Ico (a + 1) (b + 1) := by
    ext t
    simp only [Finset.mem_Ioc, Finset.mem_Ico]
    omega
  rw [hIoc, card_filter_mod_Ico h (Nat.succ_le_succ hle)]
  congr 2 <;> omega

end Period

/-! ### Signals without glitches -/

/-- A signal with a known value at every time, which changes at most once at a time. -/
structure IsClean (wf : Backend) (loaded : Loaded) (ref : ℕ) : Prop where
  found : ref ≠ 0
  loaded : wf.nativeRef ref ∈ loaded
  single : (wf.changesOf ref).Pairwise fun a b => a.timeIdx < b.timeIdx
  initial : 0 ∈ wf.timeIndicesOf ref
  known : ∀ c ∈ wf.changesOf ref, c.value.kind = .bitVector ∧ knownBinary c.value.text = true

namespace IsClean

variable {wf : Backend} {loaded : Loaded} {ref i j : ℕ}

lemma isHistory (h : IsClean wf loaded ref) : IsHistory (wf.changesOf ref) := by
  refine ⟨h.single.imp le_of_lt, fun g => ?_⟩
  have hnodup : ((wf.changesOf ref).map Change.timeIdx).Nodup :=
    List.pairwise_map.2 (h.single.imp ne_of_lt)
  have hcount : (wf.changesOf ref).countP (fun c => c.timeIdx = g) =
      ((wf.changesOf ref).map Change.timeIdx).count g := by
    rw [List.count_eq_countP, List.countP_map]
    exact List.countP_congr fun c _ => by simp
  have hle := List.nodup_iff_count_le_one.1 hnodup g
  omega

/-- At every index there is a last change. -/
lemma exists_last (h : IsClean wf loaded ref) (i : ℕ) :
    ∃ c ∈ wf.changesOf ref,
      lastWhere (fun c : Change => c.timeIdx ≤ i) (wf.changesOf ref) = some c ∧
      ∃ pre post, IsLastGroup Change.timeIdx i (wf.changesOf ref) pre [c] post c.timeIdx := by
  cases hlast : lastWhere (fun c : Change => c.timeIdx ≤ i) (wf.changesOf ref) with
  | none =>
      obtain ⟨c, hc, hzero⟩ := List.mem_map.1 h.initial
      have hlt := lastWhere_eq_none_iff.1 hlast c hc
      omega
  | some c =>
      have hgroup := exists_isLastGroup h.isHistory.sorted hlast
      have hmem := (List.mem_filter.1 (List.mem_of_getLast? hlast)).1
      -- the deltas of its time are the change alone
      have hdeltas : (wf.changesOf ref).filter (fun d => d.timeIdx = c.timeIdx) = [c] := by
        have hsub := h.single.filter fun d => d.timeIdx = c.timeIdx
        have hin : c ∈ (wf.changesOf ref).filter fun d => d.timeIdx = c.timeIdx :=
          List.mem_filter.2 ⟨hmem, decide_eq_true rfl⟩
        cases hfilter : (wf.changesOf ref).filter fun d => d.timeIdx = c.timeIdx with
        | nil =>
            rw [hfilter] at hin
            cases hin
        | cons d rest =>
            rw [hfilter] at hsub hin
            have hsame : ∀ e ∈ d :: rest, e.timeIdx = c.timeIdx := fun e he => by
              rw [← hfilter] at he
              exact of_decide_eq_true (List.mem_filter.1 he).2
            cases rest with
            | nil => rw [List.mem_singleton.1 hin]
            | cons e rest =>
                have hlt := (List.pairwise_cons.1 hsub).1 e List.mem_cons_self
                rw [hsame d List.mem_cons_self,
                  hsame e (List.mem_cons_of_mem _ List.mem_cons_self)] at hlt
                exact absurd hlt (lt_irrefl _)
      rw [hdeltas] at hgroup
      exact ⟨c, hmem, rfl, _, _, hgroup⟩

/-- The first value at an index is that of the last change. -/
lemma readSignalFirst_eq (h : IsClean wf loaded ref) (i : ℕ) :
    readSignalFirst wf loaded ref i = Clock.settledText wf ref fun c => c.timeIdx ≤ i := by
  obtain ⟨c, hc, hlast, pre, post, hgroup⟩ := h.exists_last i
  have hguard : (ref = 0 || !loaded.contains (wf.nativeRef ref)) = false := by
    simp [h.found, h.loaded]
  have hvalue : wf.signalTypedValueAt ref pre.length 0 = some c.value := by
    rw [Backend.signalTypedValueAt, hgroup.eq]
    simp
  rw [readSignalFirst, hguard, Backend.signalOffsetAt, offsetAt_of_isLastGroup hgroup,
    Clock.settledText, hlast]
  dsimp only
  rw [Backend.signalValueStr, hvalue, Option.map_some, Option.getD_some]
  dsimp only
  rw [(h.known c hc).1]
  rfl

lemma readSignalAt_eq (h : IsClean wf loaded ref) (point : ObservationPoint)
    (hsome : (lastWhere (point.sees i) (wf.changesOf ref)).isSome) :
    readSignalAt wf loaded ref i point = Clock.settledText wf ref (point.sees i) := by
  obtain ⟨c, hlast⟩ := Option.isSome_iff_exists.1 hsome
  have hc := (List.mem_filter.1 (List.mem_of_getLast? hlast)).1
  have hguard : (ref = 0 || !loaded.contains (wf.nativeRef ref)) = false := by
    simp [h.found, h.loaded]
  have hsample := Backend.sample_eq h.isHistory i point
  rw [hlast, Option.map_some, Backend.sample, Option.map_eq_some_iff] at hsample
  obtain ⟨sampled, hsampled, hvalue⟩ := hsample
  rw [readSignalAt, hguard, hsampled, Clock.settledText, hlast]
  dsimp only
  rw [hvalue, if_pos (h.known c hc).1]
  rfl

/-- A sample that is not before the index reads the last change up to it. -/
lemma readSignalAt_of_ne (h : IsClean wf loaded ref) {point : ObservationPoint}
    (hpoint : point ≠ .before) :
    readSignalAt wf loaded ref i point = readSignalFirst wf loaded ref i := by
  obtain ⟨c, -, hlast, -⟩ := h.exists_last i
  have hsees : point.sees i = fun c : Change => decide (c.timeIdx ≤ i) := by
    cases point with
    | before => exact absurd rfl hpoint
    | raw => rfl
    | after => rfl
  rw [h.readSignalFirst_eq, h.readSignalAt_eq point (by rw [hsees, hlast]; rfl), hsees]

/-- A sample before the index reads the last change up to the index before. -/
lemma readSignalAt_before (h : IsClean wf loaded ref) (hpos : 0 < i) :
    readSignalAt wf loaded ref i .before = readSignalFirst wf loaded ref (i - 1) := by
  obtain ⟨c, -, hlast, -⟩ := h.exists_last (i - 1)
  have hsees : ObservationPoint.before.sees i = fun c : Change => decide (c.timeIdx ≤ i - 1) := by
    funext c
    show decide (c.timeIdx < i) = _
    exact decide_eq_decide.2 (by omega)
  rw [h.readSignalFirst_eq, h.readSignalAt_eq .before (by rw [hsees, hlast]; rfl), hsees]

/-- Before the first index nothing is read. -/
lemma readSignalAt_before_zero (h : IsClean wf loaded ref) :
    readSignalAt wf loaded ref 0 .before = "x" := by
  have hnone : wf.sampledValueAt ref 0 .before = none := by
    have hnil : (wf.changesOf ref).filter (ObservationPoint.before.sees 0) = [] :=
      List.filter_eq_nil_iff.2 fun c _ => by simp [ObservationPoint.sees]
    have hsample := Backend.sample_eq h.isHistory 0 .before
    rw [lastWhere, hnil] at hsample
    exact Option.map_eq_none_iff.1 hsample
  rw [readSignalAt, hnone]
  split_ifs <;> rfl

/-- Between its changes a signal keeps its value. -/
lemma readSignalFirst_congr (h : IsClean wf loaded ref) (hij : i ≤ j)
    (hchange : ∀ ti ∈ wf.timeIndicesOf ref, i < ti → j < ti) :
    readSignalFirst wf loaded ref j = readSignalFirst wf loaded ref i := by
  rw [h.readSignalFirst_eq, h.readSignalFirst_eq, Clock.settledText, Clock.settledText, lastWhere,
    lastWhere, List.filter_congr fun c hc => decide_eq_decide.2 ?_]
  have := hchange c.timeIdx (List.mem_map_of_mem hc)
  omega

lemma knownBinary_readSignalFirst (h : IsClean wf loaded ref) (i : ℕ) :
    knownBinary (readSignalFirst wf loaded ref i) = true := by
  obtain ⟨c, hc, hlast, -⟩ := h.exists_last i
  rw [h.readSignalFirst_eq, Clock.settledText, hlast]
  exact (h.known c hc).2

end IsClean

/-! ### A channel in step with its clock -/

namespace ChannelView

variable (view : ChannelView)

/-- The earliest time at which a stall can begin. -/
def firstTime : ℕ := view.wf.timeAt (view.wf.timeIdxOf view.tBegin)

/-- The times of the selected clock edges of the window. -/
def edgeTimes : List ℕ :=
  (selectedClockEdges view.wf view.loaded view.sm view.firstTime view.tEnd).map view.wf.timeAt

/-- The clock edges at which a stretch is sampled, by their times. A sample before an edge reads the
stretch when the edge is behind its begin and not behind its end; any other sample when the edge is
not before its begin, and before its end. -/
def edgesWithin (beginTime endTime : ℕ) : List ℕ :=
  view.edgeTimes.filter fun t =>
    decide (if axiPoint view.sm = .before then beginTime < t ∧ t ≤ endTime
      else beginTime ≤ t ∧ t < endTime)

/-- Valid and ready are clean signals. A sample before an edge at the begin of the window would read
what is in front of it, and any other sample at its end what is behind, so that there is no such
edge. -/
structure InStep : Prop where
  valid : IsClean view.wf view.loaded view.refValid
  ready : IsClean view.wf view.loaded view.refReady
  ordered : view.tBegin ≤ view.tEnd
  begins : axiPoint view.sm = .before → view.tBegin ≤ view.wf.minTime ∨
    0 < view.wf.timeIdxOf view.tBegin ∧ view.firstTime ∉ view.edgeTimes
  ends : axiPoint view.sm ≠ .before → view.tEnd ∉ view.edgeTimes

/-- The selected edges of the clock in the window are those of a period and a phase. -/
structure IsPeriodic (period phase : ℕ) : Prop where
  phase_lt : phase < period
  edges : ∀ t, view.firstTime ≤ t → t ≤ view.tEnd → (t ∈ view.edgeTimes ↔ t % period = phase)

variable {view}

lemma mem_changeIndices {ti : ℕ} : ti ∈ view.changeIndices ↔ ti < view.wf.timeTable.length ∧
    ((ti ∈ view.wf.timeIndicesOf view.refValid ∨ ti ∈ view.wf.timeIndicesOf view.refReady) ∧
        view.tBegin ≤ view.wf.timeAt ti ∧ view.wf.timeAt ti ≤ view.tEnd ∨
      0 < view.wf.timeIdxOf view.tBegin ∧ ti = view.wf.timeIdxOf view.tBegin) := by
  rw [changeIndices, List.mem_filter, List.mem_range, decide_eq_true_eq]

lemma pairwise_changeIndices : view.changeIndices.Pairwise (· < ·) :=
  List.pairwise_lt_range.filter _

/-- The time at the begin of the window is not behind its begin. -/
lemma firstTime_le (hpos : 0 < view.wf.timeIdxOf view.tBegin) : view.firstTime ≤ view.tBegin := by
  have hne : view.wf.timeTable ≠ [] := by
    rintro hnil
    rw [Backend.timeIdxOf, hnil] at hpos
    exact absurd hpos (lt_irrefl _)
  refine Backend.timeAt_timeIdxOf_le hne (not_lt.1 fun hlt => ?_)
  rw [Backend.timeIdxOf_eq_zero hlt] at hpos
  exact absurd hpos (lt_irrefl _)

/-- Behind the begin of the window the times are behind its begin. -/
lemma lt_timeAt {ti : ℕ} (hlen : ti < view.wf.timeTable.length)
    (hlt : view.wf.timeIdxOf view.tBegin < ti) : view.tBegin < view.wf.timeAt ti := by
  by_contra hle
  have := Backend.le_timeIdxOf hlen (not_lt.1 hle)
  omega

lemma le_changeIndex {ti : ℕ} (h : ti ∈ view.changeIndices) :
    view.wf.timeIdxOf view.tBegin ≤ ti := by
  obtain ⟨hlen, ⟨-, hbegin, -⟩ | ⟨-, rfl⟩⟩ := mem_changeIndices.1 h
  · by_contra hlt
    have hpos : 0 < view.wf.timeIdxOf view.tBegin := by omega
    have htime := Backend.timeAt_lt_of_lt (not_le.1 hlt)
      (Backend.timeIdxOf_lt (List.ne_nil_of_length_pos (by omega)) view.tBegin)
    have hfirst := view.firstTime_le hpos
    rw [firstTime] at hfirst
    omega
  · exact le_rfl

lemma timeAt_changeIndex_le (hordered : view.tBegin ≤ view.tEnd) {ti : ℕ}
    (h : ti ∈ view.changeIndices) : view.wf.timeAt ti ≤ view.tEnd := by
  obtain ⟨-, ⟨-, -, hend⟩ | ⟨hpos, rfl⟩⟩ := mem_changeIndices.1 h
  · exact hend
  · exact (view.firstTime_le hpos).trans hordered

/-- Behind a change of the walk, a signal only changes at changes of the walk. -/
lemma mem_changeIndices_of_lt {k ti : ℕ} (hk : k ∈ view.changeIndices) (hlt : k < ti)
    (hmem : ti ∈ view.wf.timeIndicesOf view.refValid ∨ ti ∈ view.wf.timeIndicesOf view.refReady)
    (hend : view.wf.timeAt ti ≤ view.tEnd) : ti ∈ view.changeIndices := by
  have hlen : ti < view.wf.timeTable.length :=
    hmem.elim (fun h => Backend.timeIndicesOf_lt h) fun h => Backend.timeIndicesOf_lt h
  refine mem_changeIndices.2 ⟨hlen, Or.inl ⟨hmem, ?_, hend⟩⟩
  exact (lt_timeAt hlen ((le_changeIndex hk).trans_lt hlt)).le

/-! ### The selected edges -/

lemma mem_selectedClockEdges {first last ti : ℕ} :
    ti ∈ selectedClockEdges view.wf view.loaded view.sm first last ↔
      (view.wf.findSignal view.sm.aclk ≠ 0 ∧
        ti ∈ view.wf.timeIndicesOf (view.wf.findSignal view.sm.aclk) ∧
        isSelectedEdge view.wf view.loaded view.sm (view.wf.findSignal view.sm.aclk) ti = true) ∧
      first ≤ view.wf.timeAt ti ∧ view.wf.timeAt ti ≤ last := by
  rw [selectedClockEdges]
  split_ifs with hzero
  · simp [hzero]
  · rw [Clock.selectEdges_eq, List.mem_filter, Bool.and_eq_true]
    change ti ∈ Clock.distinctIndices _ _ ∧ _ ↔ _
    rw [Clock.mem_distinctIndices]
    simp [Clock.inRange, hzero]
    tauto

lemma pairwise_selectedClockEdges (first last : ℕ) :
    (selectedClockEdges view.wf view.loaded view.sm first last).Pairwise (· < ·) := by
  rw [selectedClockEdges]
  split_ifs
  · exact List.Pairwise.nil
  · rw [Clock.selectEdges_eq]
    exact (Clock.pairwise_distinctIndices view.wf _).filter _

/-- The edges between two times of the window. -/
lemma selectedClockEdges_eq_filter {beginTime endTime : ℕ} (hfirst : view.firstTime ≤ beginTime)
    (hlast : endTime ≤ view.tEnd) :
    selectedClockEdges view.wf view.loaded view.sm beginTime endTime =
      (selectedClockEdges view.wf view.loaded view.sm view.firstTime view.tEnd).filter
        fun ti => beginTime ≤ view.wf.timeAt ti ∧ view.wf.timeAt ti ≤ endTime := by
  rw [selectedClockEdges, selectedClockEdges]
  split_ifs
  · rfl
  · rw [Clock.selectEdges_eq, Clock.selectEdges_eq, List.filter_filter]
    refine List.filter_congr fun ti _ => ?_
    rw [Bool.eq_iff_iff]
    simp only [Clock.inRange, Bool.and_eq_true, decide_eq_true_eq]
    simp only [Bool.not_eq_true', Bool.or_eq_false_iff, decide_eq_false_iff_not, not_lt]
    constructor
    · rintro ⟨⟨hbegin, hend⟩, hedge⟩
      exact ⟨⟨hbegin, hend⟩, ⟨hfirst.trans hbegin, hend.trans hlast⟩, hedge⟩
    · rintro ⟨hrange, -, hedge⟩
      exact ⟨hrange, hedge⟩

/-! ### Stalls of clean signals -/

namespace InStep

variable (h : view.InStep)
include h

/-- The walk passes no time over. -/
lemma knownIndices_eq : view.knownIndices = view.changeIndices :=
  List.filter_eq_self.2 fun ti _ => by
    rw [knownAt, h.valid.knownBinary_readSignalFirst, h.ready.knownBinary_readSignalFirst]
    rfl

lemma mem_knownIndices {ti : ℕ} : ti ∈ view.knownIndices ↔ ti ∈ view.changeIndices := by
  rw [h.knownIndices_eq]

lemma pairwise_knownIndices : view.knownIndices.Pairwise (· < ·) :=
  h.knownIndices_eq ▸ pairwise_changeIndices

/-- Between two changes of the walk the channel stalls as at the first of them. -/
lemma stalledAt_eq {k i : ℕ} (hk : k ∈ view.knownIndices) (hki : k ≤ i)
    (hlen : i < view.wf.timeTable.length) (hend : view.wf.timeAt i ≤ view.tEnd)
    (hnext : ∀ k' ∈ view.knownIndices, k < k' → i < k') : view.stalledAt i = view.stalledAt k := by
  rw [h.knownIndices_eq] at hk hnext
  have hchange : ∀ ti, ti ∈ view.wf.timeIndicesOf view.refValid ∨
      ti ∈ view.wf.timeIndicesOf view.refReady → k < ti → i < ti := by
    intro ti hti hlt
    by_contra hle
    have htime := Backend.timeAt_le_of_le (not_lt.1 hle) hlen
    exact hle (hnext ti (mem_changeIndices_of_lt hk hlt hti (htime.trans hend)) hlt)
  rw [stalledAt, stalledAt, h.valid.readSignalFirst_congr hki fun ti hti => hchange ti (Or.inl hti),
    h.ready.readSignalFirst_congr hki fun ti hti => hchange ti (Or.inr hti)]

/-! ### What a sample reads -/

lemma stalledSample_of_ne (hpoint : axiPoint view.sm ≠ .before) (i : ℕ) :
    view.stalledSample i = view.stalledAt i := by
  rw [stalledSample, sampleAt, stalledAt, h.valid.readSignalAt_of_ne hpoint,
    h.ready.readSignalAt_of_ne hpoint, h.ready.knownBinary_readSignalFirst, Bool.and_true]

lemma stalledSample_before (hpoint : axiPoint view.sm = .before) {i : ℕ} (hpos : 0 < i) :
    view.stalledSample i = view.stalledAt (i - 1) := by
  rw [stalledSample, sampleAt, stalledAt, hpoint, h.valid.readSignalAt_before hpos,
    h.ready.readSignalAt_before hpos, h.ready.knownBinary_readSignalFirst, Bool.and_true]

lemma stalledSample_zero (hpoint : axiPoint view.sm = .before) : view.stalledSample 0 = false := by
  have hx : knownHigh "x" = false := by decide
  rw [stalledSample, sampleAt, hpoint, h.valid.readSignalAt_before_zero, hx, Bool.false_and,
    Bool.false_and]

/-! ### A run of the walk -/

omit h in
lemma getElem_le_iff {l : List ℕ} (hl : l.Pairwise (· < ·)) {i j : ℕ} (hi : i < l.length)
    (hj : j < l.length) : l[i] ≤ l[j] ↔ i ≤ j :=
  @StrictMono.le_iff_le _ _ _ _ _ (List.sortedLT_iff_pairwise.2 hl).strictMono_get ⟨i, hi⟩ ⟨j, hj⟩

variable {r : Run Unit} (hr : r.IsMaximal (placesOf view.stalledAt view.knownIndices)
  view.knownIndices.length)
include hr

omit h in
lemma start_mem : (runStretch view.knownIndices r).1 ∈ view.knownIndices := by
  have hlt := hr.le.trans_lt hr.lt
  rw [runStretch, List.getD_eq_getElem _ _ hlt]
  exact List.getElem_mem hlt

/-- The changes of the walk in the stretch of a run stall. -/
lemma stalledAt_of_mem {k : ℕ} (hk : k ∈ view.knownIndices)
    (hstart : (runStretch view.knownIndices r).1 ≤ k)
    (hend : ∀ e ∈ (runStretch view.knownIndices r).2, k < e) : view.stalledAt k = true := by
  have hlt := hr.le.trans_lt hr.lt
  rw [runStretch, List.getD_eq_getElem _ _ hlt] at hstart
  obtain ⟨j, hj, rfl⟩ := List.getElem_of_mem hk
  have hhas : r.Has j := by
    refine ⟨(getElem_le_iff h.pairwise_knownIndices hlt hj).1 hstart, ?_⟩
    by_contra hbehind
    have hnext : r.last + 1 < view.knownIndices.length := by omega
    have hlt' := hend _ (List.getElem?_eq_getElem hnext)
    have hle := (getElem_le_iff h.pairwise_knownIndices hnext hj).2 (by omega)
    exact absurd hlt' (not_lt.2 hle)
  exact (placesOf_eq_some (List.getElem?_eq_getElem hj)).1 (hr.constant j hhas)

/-- The channel stalls through the stretch of a run. -/
lemma stalledAt_within {i : ℕ} (hstart : (runStretch view.knownIndices r).1 ≤ i)
    (hend : ∀ e ∈ (runStretch view.knownIndices r).2, i < e) (hlen : i < view.wf.timeTable.length)
    (htime : view.wf.timeAt i ≤ view.tEnd) : view.stalledAt i = true := by
  -- the last change of the walk up to the index is in the stretch
  cases hlast : lastWhere (fun k : ℕ => k ≤ i) view.knownIndices with
  | none =>
      rw [lastWhere, List.getLast?_eq_none_iff, List.filter_eq_nil_iff] at hlast
      exact absurd (decide_eq_true hstart) (hlast _ (start_mem hr))
  | some k =>
      obtain ⟨hk, hki⟩ := List.mem_filter.1 (List.mem_of_getLast? hlast)
      have hki : k ≤ i := of_decide_eq_true hki
      have hmax : ∀ k' ∈ view.knownIndices, k' ≤ i → k' ≤ k := fun k' hk' hle =>
        @le_of_lastWhere ℕ id i _ (h.pairwise_knownIndices.imp le_of_lt) k hlast k' hk' hle
      rw [h.stalledAt_eq hk hki hlen htime fun k' hk' hlt =>
        not_le.1 fun hle => absurd (hmax k' hk' hle) (not_le.2 hlt)]
      exact h.stalledAt_of_mem hr hk (hmax _ (start_mem hr) hstart)
        fun e he => hki.trans_lt (hend e he)

/-- Where a run ends the channel does not stall. -/
lemma end_spec {e : ℕ} (he : e ∈ (runStretch view.knownIndices r).2) :
    e ∈ view.knownIndices ∧ (runStretch view.knownIndices r).1 < e ∧ view.stalledAt e = false := by
  have hlt := hr.le.trans_lt hr.lt
  obtain ⟨hnext, rfl⟩ := List.getElem?_eq_some_iff.1
    (show view.knownIndices[r.last + 1]? = some e from he)
  refine ⟨List.getElem_mem hnext, ?_, ?_⟩
  · rw [runStretch, List.getD_eq_getElem _ _ hlt]
    exact List.pairwise_iff_getElem.1 h.pairwise_knownIndices r.first (r.last + 1) hlt hnext
      (by have := hr.le; omega)
  · have hright := hr.right hnext
    rw [Ne, placesOf_eq_some (List.getElem?_eq_getElem hnext)] at hright
    exact Bool.eq_false_iff.2 hright

/-- A run at an edge that starts with the first change of the walk starts with the recording. -/
lemma start_eq_zero (hpoint : axiPoint view.sm = .before) (hzero : r.first = 0)
    (hedge : view.wf.timeAt (runStretch view.knownIndices r).1 ∈ view.edgeTimes) :
    (runStretch view.knownIndices r).1 = 0 := by
  have hlt := hr.le.trans_lt hr.lt
  have hstart := h.mem_knownIndices.1 (start_mem hr)
  have hfirst : ∀ k ∈ view.knownIndices, (runStretch view.knownIndices r).1 ≤ k := by
    intro k hk
    obtain ⟨j, hj, rfl⟩ := List.getElem_of_mem hk
    rw [runStretch, List.getD_eq_getElem _ _ hlt]
    exact (getElem_le_iff h.pairwise_knownIndices hlt hj).2 (by omega)
  have hlen := (mem_changeIndices.1 hstart).1
  rcases h.begins hpoint with hmin | ⟨hpos, hnone⟩
  · have hmem : 0 ∈ view.knownIndices := by
      refine h.mem_knownIndices.2
        (mem_changeIndices.2 ⟨by omega, Or.inl ⟨Or.inl h.valid.initial, ?_, ?_⟩⟩)
      · rwa [← Backend.minTime_eq_timeAt_zero]
      · exact (Backend.timeAt_le_of_le (Nat.zero_le _) hlen).trans
          (timeAt_changeIndex_le h.ordered hstart)
    exact Nat.le_zero.1 (hfirst 0 hmem)
  · -- then the window begins with a change of the walk, which is no edge
    have hmem : view.wf.timeIdxOf view.tBegin ∈ view.knownIndices :=
      h.mem_knownIndices.2 (mem_changeIndices.2
        ⟨Backend.timeIdxOf_lt (List.ne_nil_of_length_pos (by omega)) _, Or.inr ⟨hpos, rfl⟩⟩)
    rw [le_antisymm (hfirst _ hmem) (le_changeIndex hstart)] at hedge
    exact absurd hedge hnone

/-- In front of a run at an edge the channel does not stall. -/
lemma not_stalledAt_pred (hpoint : axiPoint view.sm = .before)
    (hpos : 0 < (runStretch view.knownIndices r).1)
    (hedge : view.wf.timeAt (runStretch view.knownIndices r).1 ∈ view.edgeTimes) :
    view.stalledAt ((runStretch view.knownIndices r).1 - 1) = false := by
  have hfirst : 0 < r.first := by
    by_contra hzero
    have := h.start_eq_zero hr hpoint (by omega) hedge
    omega
  have hlt := hr.le.trans_lt hr.lt
  have hstart := h.mem_knownIndices.1 (start_mem hr)
  have hlen := (mem_changeIndices.1 hstart).1
  have hend := timeAt_changeIndex_le h.ordered hstart
  have htime := Backend.timeAt_le_of_le (Nat.sub_le (runStretch view.knownIndices r).1 1) hlen
  -- the change of the walk in front of the run does not stall
  have hprev : r.first - 1 < view.knownIndices.length := by omega
  have hleft := hr.left hfirst
  rw [Ne, placesOf_eq_some (List.getElem?_eq_getElem hprev)] at hleft
  have hnext : ∀ k ∈ view.knownIndices, view.knownIndices[r.first - 1] < k →
      (runStretch view.knownIndices r).1 ≤ k := by
    intro k hk hlt'
    obtain ⟨j, hj, rfl⟩ := List.getElem_of_mem hk
    rw [runStretch, List.getD_eq_getElem _ _ hlt]
    refine (getElem_le_iff h.pairwise_knownIndices hlt hj).2 ?_
    have := mt (getElem_le_iff h.pairwise_knownIndices hj hprev).2 (not_le.2 hlt')
    omega
  have hbefore : view.knownIndices[r.first - 1] < (runStretch view.knownIndices r).1 := by
    rw [runStretch, List.getD_eq_getElem _ _ hlt]
    exact List.pairwise_iff_getElem.1 h.pairwise_knownIndices _ _ hprev hlt (by omega)
  rw [h.stalledAt_eq (List.getElem_mem hprev) (by omega) (by omega) (htime.trans hend)
    fun k hk hlt' => by have := hnext k hk hlt'; omega]
  exact Bool.eq_false_iff.2 hleft

/-! ### The edges of a run -/

/-- The times of a run are in the window. -/
lemma runTimes_spec : view.firstTime ≤ (view.runTimes r).1 ∧
    (view.runTimes r).1 ≤ (view.runTimes r).2 ∧ (view.runTimes r).2 ≤ view.tEnd := by
  have hstart := h.mem_knownIndices.1 (start_mem hr)
  have hlen := (mem_changeIndices.1 hstart).1
  refine ⟨Backend.timeAt_le_of_le (le_changeIndex hstart) hlen, ?_⟩
  rw [runTimes]
  cases hend : (runStretch view.knownIndices r).2 with
  | none => exact ⟨timeAt_changeIndex_le h.ordered hstart, le_rfl⟩
  | some e =>
      obtain ⟨hmem, hlt, -⟩ := h.end_spec hr hend
      have hmem := h.mem_knownIndices.1 hmem
      exact ⟨Backend.timeAt_le_of_le hlt.le (mem_changeIndices.1 hmem).1,
        timeAt_changeIndex_le h.ordered hmem⟩

/-- Times in a run are those of indices from its start to its end. -/
lemma index_spec {ti : ℕ} (hlen : ti < view.wf.timeTable.length)
    (hbegin : (view.runTimes r).1 ≤ view.wf.timeAt ti)
    (hend : view.wf.timeAt ti ≤ (view.runTimes r).2) :
    (runStretch view.knownIndices r).1 ≤ ti ∧
      ∀ e ∈ (runStretch view.knownIndices r).2, ti ≤ e := by
  have hstart := (mem_changeIndices.1 (h.mem_knownIndices.1 (start_mem hr))).1
  refine ⟨?_, fun e he => ?_⟩
  · by_contra hlt
    exact absurd hbegin (not_le.2 (Backend.timeAt_lt_of_lt (not_le.1 hlt) hstart))
  · by_contra hlt
    rw [runTimes, show (runStretch view.knownIndices r).2 = some e from he] at hend
    exact absurd hend (not_le.2 (Backend.timeAt_lt_of_lt (not_le.1 hlt) hlen))

/-- An edge in a run that does not sample before it samples the stall unless it stands at the end
of the run. -/
lemma stalledSample_iff_of_ne (hpoint : axiPoint view.sm ≠ .before) {ti : ℕ}
    (hlen : ti < view.wf.timeTable.length) (hbegin : (view.runTimes r).1 ≤ view.wf.timeAt ti)
    (hend : view.wf.timeAt ti ≤ (view.runTimes r).2)
    (hedge : view.wf.timeAt ti ∈ view.edgeTimes) :
    view.stalledSample ti = true ↔ view.wf.timeAt ti < (view.runTimes r).2 := by
  obtain ⟨hstart, hle⟩ := h.index_spec hr hlen hbegin hend
  have htime := hend.trans (h.runTimes_spec hr).2.2
  rw [h.stalledSample_of_ne hpoint]
  cases hstop : (runStretch view.knownIndices r).2 with
  | none =>
      have hlast : (view.runTimes r).2 = view.tEnd := by rw [runTimes, hstop]; rfl
      refine iff_of_true (h.stalledAt_within hr hstart (by simp [hstop]) hlen htime) ?_
      refine lt_of_le_of_ne hend fun heq => h.ends hpoint ?_
      rwa [← hlast, ← heq]
  | some e =>
      obtain ⟨hmem, -, hstalled⟩ := h.end_spec hr hstop
      have hlast : (view.runTimes r).2 = view.wf.timeAt e := by rw [runTimes, hstop]; rfl
      have helen := (mem_changeIndices.1 (h.mem_knownIndices.1 hmem)).1
      rw [hlast]
      rcases Nat.eq_or_lt_of_le (hle e hstop) with rfl | hlt
      · rw [hstalled]
        simp
      · refine iff_of_true (h.stalledAt_within hr hstart (fun e' he' => ?_) hlen htime)
          (Backend.timeAt_lt_of_lt hlt helen)
        obtain rfl := Option.mem_unique hstop he'
        exact hlt

/-- An edge in a run that samples before it samples the stall unless it stands at the begin of the
run. -/
lemma stalledSample_iff_of_eq (hpoint : axiPoint view.sm = .before) {ti : ℕ}
    (hlen : ti < view.wf.timeTable.length) (hbegin : (view.runTimes r).1 ≤ view.wf.timeAt ti)
    (hend : view.wf.timeAt ti ≤ (view.runTimes r).2)
    (hedge : view.wf.timeAt ti ∈ view.edgeTimes) :
    view.stalledSample ti = true ↔ (view.runTimes r).1 < view.wf.timeAt ti := by
  obtain ⟨hstart, hle⟩ := h.index_spec hr hlen hbegin hend
  have htime := hend.trans (h.runTimes_spec hr).2.2
  have hfirst : (view.runTimes r).1 = view.wf.timeAt (runStretch view.knownIndices r).1 := rfl
  rcases Nat.eq_or_lt_of_le hstart with heq | hlt
  · have hfalse : view.stalledSample ti = false := by
      rcases Nat.eq_zero_or_pos ti with rfl | hpos
      · exact h.stalledSample_zero hpoint
      · rw [h.stalledSample_before hpoint hpos, ← heq]
        exact h.not_stalledAt_pred hr hpoint (heq ▸ hpos) (heq ▸ hedge)
    rw [hfalse, hfirst, heq]
    simp
  · rw [h.stalledSample_before hpoint (by omega), hfirst]
    have hle' := (Backend.timeAt_le_of_le (Nat.sub_le ti 1) hlen).trans htime
    refine iff_of_true (h.stalledAt_within hr (by omega) (fun e he => ?_) (by omega) hle')
      (Backend.timeAt_lt_of_lt hlt hlen)
    have := hle e he
    omega

/-- The edges of a run that sample the stall are those within its times. -/
lemma stalledEdges_eq :
    view.stalledEdges (view.runTimes r).1 (view.runTimes r).2 =
      (view.edgesWithin (view.runTimes r).1 (view.runTimes r).2).length := by
  obtain ⟨hfirst, -, hlast⟩ := h.runTimes_spec hr
  rw [stalledEdges, selectedClockEdges_eq_filter hfirst hlast, List.countP_filter, edgesWithin,
    ← List.countP_eq_length_filter, edgeTimes, List.countP_map]
  refine List.countP_congr fun ti hti => ?_
  have hlen := Backend.timeIndicesOf_lt (mem_selectedClockEdges.1 hti).1.2.1
  have hedge : view.wf.timeAt ti ∈ view.edgeTimes := List.mem_map_of_mem hti
  rw [Bool.and_eq_true, decide_eq_true_eq, Function.comp_apply, decide_eq_true_eq]
  by_cases hpoint : axiPoint view.sm = .before
  · rw [if_pos hpoint]
    constructor
    · rintro ⟨hstalled, hbegin, hend⟩
      exact ⟨(h.stalledSample_iff_of_eq hr hpoint hlen hbegin hend hedge).1 hstalled, hend⟩
    · rintro ⟨hbegin, hend⟩
      exact ⟨(h.stalledSample_iff_of_eq hr hpoint hlen hbegin.le hend hedge).2 hbegin,
        hbegin.le, hend⟩
  · rw [if_neg hpoint]
    constructor
    · rintro ⟨hstalled, hbegin, hend⟩
      exact ⟨hbegin, (h.stalledSample_iff_of_ne hr hpoint hlen hbegin hend hedge).1 hstalled⟩
    · rintro ⟨hbegin, hend⟩
      exact ⟨(h.stalledSample_iff_of_ne hr hpoint hlen hbegin hend.le hedge).2 hend,
        hbegin, hend.le⟩

end InStep

/-- The edges of a periodic clock within two times, in closed form. -/
lemma IsPeriodic.length_edgesWithin {period phase : ℕ} (h : view.IsPeriodic period phase)
    {beginTime endTime : ℕ} (hfirst : view.firstTime ≤ beginTime) (hle : beginTime ≤ endTime)
    (hlast : endTime ≤ view.tEnd) :
    (view.edgesWithin beginTime endTime).length =
      spannedEdges (axiPoint view.sm) period phase beginTime endTime := by
  have hnodup : (view.edgesWithin beginTime endTime).Nodup :=
    (Clock.nodup_map_timeAt
      (fun ti hti => Backend.timeIndicesOf_lt (mem_selectedClockEdges.1 hti).1.2.1)
      (pairwise_selectedClockEdges _ _)).filter _
  rw [← List.toFinset_card_of_nodup hnodup, spannedEdges]
  have hmem (t : ℕ) (hbegin : beginTime ≤ t) (hend : t ≤ endTime) :
      t ∈ view.edgeTimes ↔ t % period = phase :=
    h.edges t (hfirst.trans hbegin) (hend.trans hlast)
  by_cases hpoint : axiPoint view.sm = .before
  · rw [if_pos hpoint, ← card_filter_mod_Ioc h.phase_lt hle]
    congr 1
    ext t
    simp only [edgesWithin, if_pos hpoint, List.mem_toFinset, List.mem_filter, decide_eq_true_eq,
      Finset.mem_filter, Finset.mem_Ioc]
    constructor
    · rintro ⟨hedge, hbegin, hend⟩
      exact ⟨⟨hbegin, hend⟩, (hmem t hbegin.le hend).1 hedge⟩
    · rintro ⟨⟨hbegin, hend⟩, hphase⟩
      exact ⟨(hmem t hbegin.le hend).2 hphase, hbegin, hend⟩
  · rw [if_neg hpoint, ← card_filter_mod_Ico h.phase_lt hle]
    congr 1
    ext t
    simp only [edgesWithin, if_neg hpoint, List.mem_toFinset, List.mem_filter, decide_eq_true_eq,
      Finset.mem_filter, Finset.mem_Ico]
    constructor
    · rintro ⟨hedge, hbegin, hend⟩
      exact ⟨⟨hbegin, hend⟩, (hmem t hbegin hend.le).1 hedge⟩
    · rintro ⟨⟨hbegin, hend⟩, hphase⟩
      exact ⟨(hmem t hbegin hend.le).2 hphase, hbegin, hend⟩

/-- A run lasts as many tens of ticks as there are edges between its times. -/
def SpansTens (view : ChannelView) (edges : ℕ → ℕ → ℕ) (r : Run Unit) : Prop :=
  ((view.runTimes r).2 - (view.runTimes r).1) / 10 = edges (view.runTimes r).1 (view.runTimes r).2

instance (view : ChannelView) (edges : ℕ → ℕ → ℕ) (r : Run Unit) :
    Decidable (view.SpansTens edges r) :=
  inferInstanceAs (Decidable (_ = _))

end ChannelView

/-- The runs of stalling times that are reported. -/
def ChannelView.reportedRuns (view : ChannelView) (limit : ℕ) : List (Run Unit) :=
  (runs (placesOf view.stalledAt view.knownIndices) view.knownIndices.length).take limit

/-- With clean signals, or without a reported stall, the cycles of the findings are the clock edges
at which the channel is sampled as stalled exactly if every reported run of stalling times lasts as
many tens of ticks as there are clock edges between its times; with a periodic clock, as its period
has between them. -/
theorem countsEdges_iff {std : StdSort} {wf : Backend} {sm : AxiSignalMap} {hardLimit : ℕ}
    {loaded : Loaded} {channel : Channel} {limit tBegin tEnd : ℕ} {report : ChannelStall}
    (h : channelStall std wf sm hardLimit loaded channel limit tBegin tEnd = .ok report)
    (hstep : (channelView wf sm loaded channel tBegin tEnd).reportedRuns limit ≠ [] →
      (channelView wf sm loaded channel tBegin tEnd).InStep) :
    let view := channelView wf sm loaded channel tBegin tEnd
    (CountsEdges view report ↔ ∀ r ∈ view.reportedRuns limit,
      view.SpansTens (fun beginTime endTime => (view.edgesWithin beginTime endTime).length) r) ∧
    ∀ period phase, view.IsPeriodic period phase →
      (CountsEdges view report ↔ ∀ r ∈ view.reportedRuns limit,
        view.SpansTens (spannedEdges (axiPoint sm) period phase) r) := by
  intro view
  have hwithin : CountsEdges view report ↔ ∀ r ∈ view.reportedRuns limit,
      view.SpansTens (fun beginTime endTime => (view.edgesWithin beginTime endTime).length) r := by
    refine (countsEdges_iff_runs h).trans (forall₂_congr fun r hr => ?_)
    have hrun := mem_runs_iff.1 (List.mem_of_mem_take hr)
    rw [ChannelView.SpansTens, (hstep (List.ne_nil_of_mem hr)).stalledEdges_eq hrun]
  refine ⟨hwithin, fun period phase hperiodic => hwithin.trans (forall₂_congr fun r hr => ?_)⟩
  have hrun := mem_runs_iff.1 (List.mem_of_mem_take hr)
  obtain ⟨hfirst, hle, hlast⟩ := (hstep (List.ne_nil_of_mem hr)).runTimes_spec hrun
  rw [ChannelView.SpansTens, hperiodic.length_edgesWithin hfirst hle hlast]
  rfl

/-- The address channel over the signals of the waveforms below; the other channels are idle. -/
def slowConfig : AxiSignalMap :=
  { earlyConfig with
    awvalid := "valid"
    awready := "ready"
    wvalid := "zero"
    bvalid := "zero" }

/-- The findings of a result. -/
def findingsIn : Except AxiScanError ChannelStall → List Finding
  | .ok report => report.findings
  | .error _ => []

/-- A clock with falling edges at 10, 20 and 30, and an address that waits from 5 to 35. -/
def steadyWave : Backend :=
  .ofTable [0, 5, 10, 15, 20, 25, 30, 35]
    [("clk", [(0, "1"), (2, "0"), (3, "1"), (4, "0"), (5, "1"), (6, "0"), (7, "1")]),
      ("valid", [(0, "0"), (1, "1")]), ("ready", [(0, "0"), (7, "1")]), ("one", [(0, "1")]),
      ("zero", [(0, "0")])]
    (by decide) (by decide) (by decide)

lemma steadyWave_report :
    findingsIn (channelStall insertionSort steadyWave slowConfig 0 [] .aw 1000 5 35) =
        [⟨5, 35, 3⟩] ∧
      ∀ r ∈ (channelView steadyWave slowConfig [] .aw 5 35).reportedRuns 1000,
        (channelView steadyWave slowConfig [] .aw 5 35).SpansTens (spannedEdges .raw 10 0) r := by
  decide +kernel

lemma steadyWave_inStep : (channelView steadyWave slowConfig [] .aw 5 35).InStep where
  valid := ⟨by decide +kernel, by decide +kernel, by decide +kernel, by decide +kernel,
    by decide +kernel⟩
  ready := ⟨by decide +kernel, by decide +kernel, by decide +kernel, by decide +kernel,
    by decide +kernel⟩
  ordered := by decide
  begins hpoint := by cases hpoint
  ends _ := by decide +kernel

lemma steadyWave_isPeriodic :
    (channelView steadyWave slowConfig [] .aw 5 35).IsPeriodic 10 0 where
  phase_lt := by decide
  edges t hbegin hend := by
    have hbound : ∀ t < 36, (channelView steadyWave slowConfig [] .aw 5 35).firstTime ≤ t →
        (t ∈ (channelView steadyWave slowConfig [] .aw 5 35).edgeTimes ↔ t % 10 = 0) := by
      decide +kernel
    exact hbound t (Nat.lt_succ_of_le hend) hbegin

/-- The address waits over three edges, and three cycles are reported. -/
theorem steadyWave_countsEdges :
    ∃ report, channelStall insertionSort steadyWave slowConfig 0 [] .aw 1000 5 35 = .ok report ∧
      report.findings = [⟨5, 35, 3⟩] ∧
      CountsEdges (channelView steadyWave slowConfig [] .aw 5 35) report := by
  obtain ⟨hfound, hspans⟩ := steadyWave_report
  cases hstall : channelStall insertionSort steadyWave slowConfig 0 [] .aw 1000 5 35 with
  | error error =>
      rw [hstall] at hfound
      cases hfound
  | ok report =>
      rw [hstall] at hfound
      exact ⟨report, rfl, hfound,
        ((countsEdges_iff hstall fun _ => steadyWave_inStep).2 10 0 steadyWave_isPeriodic).2 hspans⟩

/-- A clock with falling edges at 20, 40 and 60, and an address that waits from 10 to 70. -/
def slowWave : Backend :=
  .ofTable [0, 10, 20, 30, 40, 50, 60, 70]
    [("clk", [(0, "1"), (2, "0"), (3, "1"), (4, "0"), (5, "1"), (6, "0"), (7, "1")]),
      ("valid", [(0, "0"), (1, "1")]), ("ready", [(0, "0"), (7, "1")]), ("one", [(0, "1")]),
      ("zero", [(0, "0")])]
    (by decide) (by decide) (by decide)

lemma slowWave_findings :
    findingsIn (channelStall insertionSort slowWave slowConfig 0 [] .aw 1000 0 70) =
        [⟨10, 70, 6⟩] ∧
      (channelView slowWave slowConfig [] .aw 0 70).stalledEdges 10 70 = 3 := by
  decide +kernel

/-- The address waits over three edges, and six cycles are reported. -/
theorem slowWave_not_countsEdges :
    ∃ report, channelStall insertionSort slowWave slowConfig 0 [] .aw 1000 0 70 = .ok report ∧
      ¬ CountsEdges (channelView slowWave slowConfig [] .aw 0 70) report := by
  obtain ⟨hfound, hedges⟩ := slowWave_findings
  cases hstall : channelStall insertionSort slowWave slowConfig 0 [] .aw 1000 0 70 with
  | error error =>
      rw [hstall] at hfound
      cases hfound
  | ok report =>
      rw [hstall] at hfound
      refine ⟨report, rfl, fun hcounts => ?_⟩
      have hmem : (⟨10, 70, 6⟩ : Finding) ∈ report.findings := by
        have hlist : report.findings = [⟨10, 70, 6⟩] := hfound
        rw [hlist]
        exact List.mem_singleton_self _
      have hsix := hcounts _ hmem
      rw [hedges] at hsix
      exact absurd hsix (by decide)

end XdebugFst.Axi
