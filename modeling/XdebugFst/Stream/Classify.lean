import Mathlib
import XdebugFst.Stream.Scan

/-!
# Transfers and stalls

Every sample of a stream at which something is offered is a transfer or a stall. When the samples
are taken after the edge, valid and ready of a transfer that was accepted at the edge are set to
what they were for it; the stall is still computed from ready after the edge. So a transfer whose
ready falls at the edge at which valid rises is counted as a stall, too: `classified_iff`.
-/

namespace XdebugFst.Stream

open Lib Waveform Axi XdebugFst.Expr

/-- Nothing is both a transfer and a stall, and what is offered is one of them. -/
def StreamSample.Classified {J : Type} (s : StreamSample J) : Prop :=
  ¬ (s.transfer = true ∧ s.stall = true) ∧
    (s.vld = true → Xor (s.transfer = true) (s.stall = true))

section Edge

variable (wf : Backend) (cfg : StreamConfig) (compiled : CompiledStreamExpressions) (ti : ℕ)

/-- Valid rises at the edge at which ready falls. -/
structure Crosses : Prop where
  joins : joins cfg compiled = true
  vld : vldHigh wf compiled ti (samplePoint cfg) = true
  rdy : rdyHigh wf compiled ti (samplePoint cfg) = false
  vldBefore : vldHigh wf compiled ti .before = false
  rdyBefore : rdyHigh wf compiled ti .before = true

variable {wf cfg compiled ti}

/-- The consumer is ready when ready is high, if there is no backpressure. -/
lemma readyNow_of_joins (h : joins cfg compiled = true) (point : ObservationPoint) :
    readyNow wf compiled ti point = rdyHigh wf compiled ti point := by
  simp only [joins, Bool.and_eq_true, Option.isNone_iff_eq_none] at h
  obtain ⟨⟨-, hready⟩, hbackpressure⟩ := h
  rw [readyNow, bpHigh, hbackpressure, Option.isNone_eq_false_iff.2 hready]
  simp

/-- The sample at an edge outside reset is a transfer and a stall exactly if valid and ready
cross. -/
lemma transfer_and_stall_iff (cycle : ℕ) :
    (controlSample wf cfg compiled ti cycle).transfer = true ∧
        (controlSample wf cfg compiled ti cycle).stall = true ↔ Crosses wf cfg compiled ti := by
  simp only [controlSample, Bool.and_eq_true, Bool.not_eq_true']
  cases hjoins : joins cfg compiled with
  | false =>
      constructor
      · rintro ⟨htransfer, -, hready⟩
        simp [transferNow, hjoins, hready] at htransfer
      · intro h
        rw [h.joins] at hjoins
        cases hjoins
  | true =>
      rw [transferNow, readyNow_of_joins hjoins, hjoins]
      constructor
      · rintro ⟨htransfer, -, hrdy⟩
        simp only [hrdy, Bool.and_false, Bool.false_and, Bool.or_false, Bool.false_or,
          Bool.true_and, Bool.and_eq_true, Bool.not_eq_true'] at htransfer
        exact ⟨hjoins, htransfer.1.1, hrdy, htransfer.1.2, htransfer.2⟩
      · intro h
        simp [h.vld, h.rdy, h.vldBefore, h.rdyBefore]

/-- What is offered outside reset is a transfer or a stall. -/
lemma transfer_or_stall (cycle : ℕ) (hvld : (controlSample wf cfg compiled ti cycle).vld = true) :
    (controlSample wf cfg compiled ti cycle).transfer = true ∨
      (controlSample wf cfg compiled ti cycle).stall = true := by
  simp only [controlSample, Bool.or_eq_true, Bool.and_eq_true, Bool.not_eq_true'] at hvld ⊢
  cases hready : readyNow wf compiled ti (samplePoint cfg) with
  | false => exact Or.inr ⟨hvld, rfl⟩
  | true =>
      left
      rcases hvld with hvld | hvld
      · simp [transferNow, hvld, hready]
      · exact hvld.2

/-- A transfer is offered. -/
lemma vld_of_transfer (cycle : ℕ)
    (htransfer : (controlSample wf cfg compiled ti cycle).transfer = true) :
    (controlSample wf cfg compiled ti cycle).vld = true := by
  simp only [controlSample, Bool.or_eq_true, Bool.and_eq_true] at htransfer ⊢
  cases hjoins : joins cfg compiled with
  | false =>
      rw [transferNow, hjoins, Bool.false_and, Bool.or_false, Bool.and_eq_true] at htransfer
      exact Or.inl htransfer.1
  | true => exact Or.inr ⟨rfl, htransfer⟩

lemma vld_of_stall (cycle : ℕ) (hstall : (controlSample wf cfg compiled ti cycle).stall = true) :
    (controlSample wf cfg compiled ti cycle).vld = true :=
  (Bool.and_eq_true_iff.1 hstall).1

/-- The levels of a sample are those of its controls. -/
lemma levels_sampleAt (cycle : ℕ) :
    ((sampleAt wf cfg compiled ti cycle).1.vld, (sampleAt wf cfg compiled ti cycle).1.transfer,
        (sampleAt wf cfg compiled ti cycle).1.stall) =
      if resetDeasserted wf cfg ti then
        ((controlSample wf cfg compiled ti cycle).vld,
          (controlSample wf cfg compiled ti cycle).transfer,
          (controlSample wf cfg compiled ti cycle).stall)
      else (false, false, false) := by
  rw [sampleAt]
  cases resetDeasserted wf cfg ti with
  | false => rfl
  | true =>
      cases htransfer : (controlSample wf cfg compiled ti cycle).transfer with
      | false => simp [htransfer]
      | true => simp [htransfer, readFields]

/-- What is offered is a transfer or a stall. -/
lemma vld_sampleAt (cycle : ℕ) : (sampleAt wf cfg compiled ti cycle).1.vld =
    ((sampleAt wf cfg compiled ti cycle).1.transfer ||
      (sampleAt wf cfg compiled ti cycle).1.stall) := by
  have hlevels := @levels_sampleAt wf cfg compiled ti cycle
  cases hreset : resetDeasserted wf cfg ti with
  | false =>
      rw [hreset] at hlevels
      simp only [Bool.false_eq_true, if_false, Prod.mk.injEq] at hlevels
      rw [hlevels.1, hlevels.2.1, hlevels.2.2]
      rfl
  | true =>
      rw [hreset] at hlevels
      simp only [if_true, Prod.mk.injEq] at hlevels
      rw [hlevels.1, hlevels.2.1, hlevels.2.2, Bool.eq_iff_iff, Bool.or_eq_true]
      constructor
      · exact transfer_or_stall cycle
      · rintro (htransfer | hstall)
        · exact vld_of_transfer cycle htransfer
        · exact vld_of_stall cycle hstall

/-- A sample is a transfer and a stall exactly if valid and ready cross outside reset. -/
lemma sampleAt_both_iff (cycle : ℕ) :
    (sampleAt wf cfg compiled ti cycle).1.transfer = true ∧
        (sampleAt wf cfg compiled ti cycle).1.stall = true ↔
      resetDeasserted wf cfg ti = true ∧ Crosses wf cfg compiled ti := by
  have hlevels := @levels_sampleAt wf cfg compiled ti cycle
  cases hreset : resetDeasserted wf cfg ti with
  | false =>
      rw [hreset] at hlevels
      simp only [Bool.false_eq_true, if_false, Prod.mk.injEq] at hlevels
      simp [hlevels.2.1]
  | true =>
      rw [hreset] at hlevels
      simp only [if_true, Prod.mk.injEq] at hlevels
      rw [hlevels.2.1, hlevels.2.2, transfer_and_stall_iff, and_iff_right rfl]

end Edge

/-! ### Windows -/

/-- Transfers and stalls, counted over a list of samples. -/
lemma countP_transfer_add_countP_stall {J : Type} {samples : List (StreamSample J)}
    (h : ∀ s ∈ samples, s.vld = (s.transfer || s.stall)) :
    samples.countP StreamSample.transfer + samples.countP StreamSample.stall =
      samples.countP StreamSample.vld + samples.countP fun s => s.transfer && s.stall := by
  induction samples with
  | nil => rfl
  | cons s rest ih =>
      rw [List.forall_mem_cons] at h
      have hrest := ih h.2
      simp only [List.countP_cons, h.1]
      cases s.transfer <;> cases s.stall <;> simp <;> omega

/-- A sample that is offered only as a transfer or a stall is classified unless it is both. -/
lemma classified_iff_not_both {J : Type} {s : StreamSample J} (h : s.vld = (s.transfer || s.stall)) :
    s.Classified ↔ ¬ (s.transfer = true ∧ s.stall = true) := by
  rw [StreamSample.Classified, h]
  cases s.transfer <;> cases s.stall <;> simp [Xor]

variable (wf : Backend) (cfg : StreamConfig) (compiled : CompiledStreamExpressions)
  (beginTi endTi : ℕ)

/-- The samples of a scan are those of the edges in the window. -/
lemma mem_scanStreamSamples {s : StreamSample FieldJson} :
    s ∈ (scanStreamSamples wf cfg compiled beginTi endTi).1 →
      ∃ ti ∈ windowEdges wf cfg compiled beginTi endTi, ∃ cycle,
        s = (sampleAt wf cfg compiled ti cycle).1 := by
  rw [scanStreamSamples, scanLoop_eq pairwise_clockTimeIndices, List.map_map, List.mem_map]
  rintro ⟨⟨ti, cycle⟩, hedge, rfl⟩
  exact ⟨ti, List.fst_mem_of_mem_zipIdx hedge, cycle, rfl⟩

lemma exists_mem_scanStreamSamples {ti : ℕ} (h : ti ∈ windowEdges wf cfg compiled beginTi endTi) :
    ∃ cycle, (sampleAt wf cfg compiled ti cycle).1 ∈
      (scanStreamSamples wf cfg compiled beginTi endTi).1 := by
  obtain ⟨i, hi, rfl⟩ := List.getElem_of_mem h
  refine ⟨i, ?_⟩
  rw [scanStreamSamples, scanLoop_eq pairwise_clockTimeIndices, List.map_map, List.mem_map]
  exact ⟨_, List.mk_mem_zipIdx_iff_getElem?.2 (List.getElem?_eq_getElem hi), rfl⟩

/-- The samples of a window are each counted once exactly if valid never rises at an edge at
which ready falls. -/
theorem classified_iff :
    ((∀ s ∈ (scanStreamSamples wf cfg compiled beginTi endTi).1, s.Classified) ∧
        ∀ fieldsComplete,
          let result := streamResult (scanStreamSamples wf cfg compiled beginTi endTi).1
            fieldsComplete
          result.vldCycles = result.transferCount + result.stallCycles) ↔
      ∀ ti ∈ windowEdges wf cfg compiled beginTi endTi, resetDeasserted wf cfg ti = true →
        ¬ Crosses wf cfg compiled ti := by
  have hvld : ∀ s ∈ (scanStreamSamples wf cfg compiled beginTi endTi).1,
      s.vld = (s.transfer || s.stall) := by
    intro s hs
    obtain ⟨ti, -, cycle, rfl⟩ := mem_scanStreamSamples wf cfg compiled beginTi endTi hs
    exact vld_sampleAt cycle
  constructor
  · rintro ⟨hclassified, -⟩ ti hti hreset hcrosses
    obtain ⟨cycle, hs⟩ := exists_mem_scanStreamSamples wf cfg compiled beginTi endTi hti
    exact (classified_iff_not_both (hvld _ hs)).1 (hclassified _ hs)
      ((sampleAt_both_iff cycle).2 ⟨hreset, hcrosses⟩)
  · intro hnone
    have hboth : ∀ s ∈ (scanStreamSamples wf cfg compiled beginTi endTi).1,
        ¬ (s.transfer = true ∧ s.stall = true) := by
      intro s hs hboth
      obtain ⟨ti, hti, cycle, rfl⟩ := mem_scanStreamSamples wf cfg compiled beginTi endTi hs
      obtain ⟨hreset, hcrosses⟩ := (sampleAt_both_iff cycle).1 hboth
      exact hnone ti hti hreset hcrosses
    refine ⟨fun s hs => (classified_iff_not_both (hvld s hs)).2 (hboth s hs), ?_⟩
    intro fieldsComplete
    have hcount := countP_transfer_add_countP_stall hvld
    have hzero : (scanStreamSamples wf cfg compiled beginTi endTi).1.countP
        (fun s => s.transfer && s.stall) = 0 := by
      refine List.countP_eq_zero.2 fun s hs => ?_
      rw [Bool.and_eq_true]
      exact hboth s hs
    rw [hzero, List.countP_eq_length_filter] at hcount
    exact hcount.symm

/-! ### Valid rises while ready falls -/

lemma crossingTimes_sorted : [0, 5].Pairwise (· < ·) := by decide

lemma crossingTimes_lt : ∀ t ∈ [0, 5], t < 2 ^ 64 := by decide

def crossingTable : List (String × List (ℕ × String)) :=
  [("clk", [(0, "0"), (1, "1")]), ("vld", [(0, "0"), (1, "1")]), ("rdy", [(0, "1"), (1, "0")])]

lemma crossingTable_changes : ∀ s ∈ crossingTable,
    s.2.Pairwise (fun a b => a.1 ≤ b.1) ∧ ∀ c ∈ s.2, c.1 < [0, 5].length := by
  decide

/-- At the edge at time 5, valid rises and ready falls. -/
def crossingWave : Backend :=
  Backend.ofTable [0, 5] crossingTable crossingTimes_sorted crossingTimes_lt crossingTable_changes

/-- The stream is sampled after the edge. -/
def crossingConfig : StreamConfig where
  clock := "clk"
  valid := "vld"
  ready := "rdy"
  sampleAfter := true

def crossingStream : CompiledStreamExpressions where
  clock := .signal "clk"
  valid := .signal "vld"
  ready := some (.signal "rdy")
  backpressure := none
  sop := none
  eop := none
  data := none
  channelId := none
  clockDependencies := [1]

lemma compileStreamExpressions_crossing :
    compileStreamExpressions crossingWave crossingConfig = .ok crossingStream := by
  have hclock := @compileStreamExpression_signal crossingWave "clk" "clock" (by decide)
    (by decide +kernel) (show (1 : ℕ) ≠ 0 by decide)
  have hvalid := @compileStreamExpression_signal crossingWave "vld" "vld" (by decide)
    (by decide +kernel) (show (2 : ℕ) ≠ 0 by decide)
  have hready := @compileStreamExpression_signal crossingWave "rdy" "rdy" (by decide)
    (by decide +kernel) (show (3 : ℕ) ≠ 0 by decide)
  rw [compileStreamExpressions, crossingConfig, hclock, hvalid, hready]
  rfl

/-- The only sample of this stream is a transfer and a stall. -/
theorem crossing_not_classified :
    ¬ ∀ (wf : Backend) (cfg : StreamConfig) (compiled : CompiledStreamExpressions)
      (beginTi endTi : ℕ), compileStreamExpressions wf cfg = .ok compiled →
      (∀ s ∈ (scanStreamSamples wf cfg compiled beginTi endTi).1, s.Classified) ∧
        ∀ fieldsComplete,
          let result := streamResult (scanStreamSamples wf cfg compiled beginTi endTi).1
            fieldsComplete
          result.vldCycles = result.transferCount + result.stallCycles := by
  intro hall
  have hcount := (hall crossingWave crossingConfig crossingStream 0 1
    compileStreamExpressions_crossing).2 true
  revert hcount
  decide +kernel

end XdebugFst.Stream
