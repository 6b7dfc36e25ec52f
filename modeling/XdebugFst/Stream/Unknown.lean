import Mathlib
import XdebugFst.Lib.Repeats
import XdebugFst.Stream.Scan

/-!
# Unknown controls of a stream

A scan of a stream is reported as complete if valid, ready, backpressure and the packet
boundaries are known at every sampled edge outside reset. Two samples are not looked at: the reset
itself, where an unknown value counts as asserted, and the levels before the edge that a scan
after the edge joins to those after it.

A complete scan is compared with the scan of a second waveform in which unknown bits of these
samples are 0 or 1. `queryStream_same_iff` says exactly when the transfers are the same.
-/

namespace XdebugFst.Stream

open Lib Waveform Clock Window Axi XdebugFst.Expr

/-! ### Waveforms with other unknown bits -/

/-- The second waveform has the samples of the first one with unknown bits of the reset and of
the controls replaced. -/
structure FillsSamples (wf wf' : Backend) (cfg : StreamConfig)
    (compiled : CompiledStreamExpressions) : Prop where
  timeTable : wf'.timeTable = wf.timeTable
  findSignal : wf'.findSignal = wf.findSignal
  clockIndices : ∀ ref ∈ compiled.clockDependencies,
    wf'.timeIndicesOf ref = wf.timeIndicesOf ref
  clock : ∀ ti point, expressionBitsAt wf' (some compiled.clock) ti point "" =
    expressionBitsAt wf (some compiled.clock) ti point ""
  reset : ∀ ti point, FillsText (sampledSignalBitsAt wf (resetRef wf cfg) ti point)
    (sampledSignalBitsAt wf' (resetRef wf cfg) ti point)
  vld : ∀ ti point, FillsText (vldBits wf compiled ti point) (vldBits wf' compiled ti point)
  rdy : ∀ ti point, FillsText (rdyBits wf compiled ti point) (rdyBits wf' compiled ti point)
  bp : ∀ ti point, FillsText (bpBits wf compiled ti point) (bpBits wf' compiled ti point)
  sop : ∀ ti point, FillsText (sopBits wf compiled ti point) (sopBits wf' compiled ti point)
  eop : ∀ ti point, FillsText (eopBits wf compiled ti point) (eopBits wf' compiled ti point)

/-- Known bits are not replaced. -/
lemma eq_of_knownBinary {bits bits' : String} (h : FillsText bits bits')
    (hknown : knownBinary bits = true) : bits' = bits := by
  refine h.eq_of_known (List.any_eq_false.2 fun bit hbit => ?_)
  rw [knownBinary, Bool.and_eq_true, List.all_eq_true] at hknown
  have hbinary := hknown.2 bit hbit
  simp only [Bool.or_eq_true, decide_eq_true_eq] at hbinary
  rcases hbinary with rfl | rfl <;> simp [isXz]

/-! ### Transfers at one edge -/

/-- The levels at an edge make a transfer. -/
inductive Accepts (wf : Backend) (cfg : StreamConfig) (compiled : CompiledStreamExpressions)
    (ti : ℕ) : Prop
  | offered (hvld : vldHigh wf compiled ti (samplePoint cfg) = true)
      (hready : readyNow wf compiled ti (samplePoint cfg) = true)
  | vldRose (hjoins : joins cfg compiled = true)
      (hvld : vldHigh wf compiled ti (samplePoint cfg) = true)
      (hbefore : vldHigh wf compiled ti .before = false ∧ rdyHigh wf compiled ti .before = true)
  | rdyRose (hjoins : joins cfg compiled = true)
      (hrdy : rdyHigh wf compiled ti (samplePoint cfg) = true)
      (hbefore : rdyHigh wf compiled ti .before = false ∧ vldHigh wf compiled ti .before = true)

section Edge

variable {wf wf' : Backend} {cfg : StreamConfig} {compiled : CompiledStreamExpressions} {ti : ℕ}

lemma transferNow_eq_true :
    transferNow wf cfg compiled ti (samplePoint cfg) = true ↔ Accepts wf cfg compiled ti := by
  simp only [transferNow, Bool.or_eq_true, Bool.and_eq_true, Bool.not_eq_true']
  constructor
  · rintro (⟨hvld, hready⟩ | ⟨hjoins, ⟨⟨hvld, hlow⟩, hhigh⟩ | ⟨⟨hrdy, hlow⟩, hhigh⟩⟩)
    · exact .offered hvld hready
    · exact .vldRose hjoins hvld ⟨hlow, hhigh⟩
    · exact .rdyRose hjoins hrdy ⟨hlow, hhigh⟩
  · rintro (⟨hvld, hready⟩ | ⟨hjoins, hvld, hlow, hhigh⟩ | ⟨hjoins, hrdy, hlow, hhigh⟩)
    · exact Or.inl ⟨hvld, hready⟩
    · exact Or.inr ⟨hjoins, Or.inl ⟨⟨hvld, hlow⟩, hhigh⟩⟩
    · exact Or.inr ⟨hjoins, Or.inr ⟨⟨hrdy, hlow⟩, hhigh⟩⟩

variable (wf wf' cfg compiled ti) in
/-- What has to be the same at an edge although the scan does not look whether it is known. -/
structure KeepsTransfer : Prop where
  /-- A reset with unknown bits does not hide a transfer. -/
  reset : (resetBits wf cfg ti).toList.any isXz = true → resetDeasserted wf' cfg ti = true →
    ¬ Accepts wf' cfg compiled ti
  /-- The levels before an edge after which only valid is high. -/
  vldBefore : resetDeasserted wf cfg ti = true → joins cfg compiled = true →
    vldHigh wf compiled ti (samplePoint cfg) = true →
    rdyHigh wf compiled ti (samplePoint cfg) = false →
    (vldHigh wf' compiled ti .before = false ∧ rdyHigh wf' compiled ti .before = true ↔
      vldHigh wf compiled ti .before = false ∧ rdyHigh wf compiled ti .before = true)
  /-- The levels before an edge after which only ready is high. -/
  rdyBefore : resetDeasserted wf cfg ti = true → joins cfg compiled = true →
    rdyHigh wf compiled ti (samplePoint cfg) = true →
    vldHigh wf compiled ti (samplePoint cfg) = false →
    (rdyHigh wf' compiled ti .before = false ∧ vldHigh wf' compiled ti .before = true ↔
      rdyHigh wf compiled ti .before = false ∧ vldHigh wf compiled ti .before = true)

namespace FillsSamples

lemma resetRef_eq (h : FillsSamples wf wf' cfg compiled) : resetRef wf' cfg = resetRef wf cfg := by
  rw [resetRef, resetRef, h.findSignal]

lemma fillsText_resetBits (h : FillsSamples wf wf' cfg compiled) :
    FillsText (resetBits wf cfg ti) (resetBits wf' cfg ti) := by
  rw [resetBits, resetBits, h.resetRef_eq]
  exact h.reset ti _

/-- A known reset is the same on both waveforms. -/
lemma resetDeasserted_eq (h : FillsSamples wf wf' cfg compiled)
    (hknown : (resetBits wf cfg ti).toList.any isXz = false) :
    resetDeasserted wf' cfg ti = resetDeasserted wf cfg ti := by
  rw [resetDeasserted, resetDeasserted, h.resetRef_eq, h.fillsText_resetBits.eq_of_known hknown]

/-- A reset that is released is known. -/
lemma known_of_resetDeasserted (hreset : resetDeasserted wf cfg ti = true) :
    (resetBits wf cfg ti).toList.any isXz = false := by
  rw [resetDeasserted, Bool.or_eq_true, decide_eq_true_eq, decide_eq_true_eq] at hreset
  rcases hreset with hreset | hreset
  · rw [resetBits, sampledSignalBitsAt, if_pos hreset]
    rfl
  · rw [hreset]
    cases cfg.resetPolarity <;> rfl

/-- Where the controls are known, the two waveforms differ only in the levels before the edge. -/
lemma transferAt_eq_iff (h : FillsSamples wf wf' cfg compiled)
    (hreset : resetDeasserted wf cfg ti = true)
    (hknown : controlKnown wf compiled ti (samplePoint cfg) = true) :
    transferAt wf' cfg compiled ti = transferAt wf cfg compiled ti ↔
      transferNow wf' cfg compiled ti (samplePoint cfg) =
        transferNow wf cfg compiled ti (samplePoint cfg) := by
  simp only [controlKnown, Bool.and_eq_true] at hknown
  obtain ⟨⟨-, hsop⟩, heop⟩ := hknown
  rw [transferAt, transferAt, h.resetDeasserted_eq (known_of_resetDeasserted hreset), hreset,
    eq_of_knownBinary (h.sop ti _) hsop, eq_of_knownBinary (h.eop ti _) heop]
  cases transferNow wf cfg compiled ti (samplePoint cfg) <;>
    cases transferNow wf' cfg compiled ti (samplePoint cfg) <;> simp

end FillsSamples

/-- The joined levels, when both sides have the same levels after the edge. -/
lemma joined_eq_iff (v r vb rb vb' rb' : Bool) :
    (v && r || (v && !vb' && rb' || r && !rb' && vb')) =
        (v && r || (v && !vb && rb || r && !rb && vb)) ↔
      (v = true → r = false → (vb' = false ∧ rb' = true ↔ vb = false ∧ rb = true)) ∧
        (r = true → v = false → (rb' = false ∧ vb' = true ↔ rb = false ∧ vb = true)) := by
  cases v <;> cases r <;> simp <;> cases vb <;> cases rb <;> cases vb' <;> cases rb' <;> simp

/-- With the reset asserted or unknown there is no transfer, and none may appear. -/
lemma transferAt_eq_iff_of_reset (h : FillsSamples wf wf' cfg compiled)
    (hreset : resetDeasserted wf cfg ti = false) :
    transferAt wf' cfg compiled ti = transferAt wf cfg compiled ti ↔
      KeepsTransfer wf wf' cfg compiled ti := by
  have hnone : transferAt wf cfg compiled ti = none := by
    rw [transferAt, hreset]
    rfl
  rw [hnone, transferAt]
  constructor
  · intro htransfer
    refine ⟨?_, ?_, ?_⟩
    · intro _ hreset' haccepts
      rw [hreset', transferNow_eq_true.2 haccepts] at htransfer
      cases htransfer
    · intro hreset'
      rw [hreset] at hreset'
      cases hreset'
    · intro hreset'
      rw [hreset] at hreset'
      cases hreset'
  · intro hkeeps
    refine if_neg ?_
    rw [Bool.and_eq_true, transferNow_eq_true]
    rintro ⟨hreset', haccepts⟩
    -- the reset has changed, so it was unknown
    cases hunknown : (resetBits wf cfg ti).toList.any isXz with
    | false =>
        rw [h.resetDeasserted_eq hunknown, hreset] at hreset'
        cases hreset'
    | true => exact hkeeps.reset hunknown hreset' haccepts

/-- Known control bits are the same in both waveforms. -/
lemma FillsSamples.control_eq (h : FillsSamples wf wf' cfg compiled)
    (hknown : controlKnown wf compiled ti (samplePoint cfg) = true) :
    vldHigh wf' compiled ti (samplePoint cfg) = vldHigh wf compiled ti (samplePoint cfg) ∧
      rdyHigh wf' compiled ti (samplePoint cfg) = rdyHigh wf compiled ti (samplePoint cfg) ∧
      bpHigh wf' compiled ti (samplePoint cfg) = bpHigh wf compiled ti (samplePoint cfg) := by
  simp only [controlKnown, Bool.and_eq_true] at hknown
  obtain ⟨⟨⟨⟨hvld, hrdy⟩, hbp⟩, -⟩, -⟩ := hknown
  refine ⟨?_, ?_, ?_⟩
  · rw [vldHigh, vldHigh, eq_of_knownBinary (h.vld ti _) hvld]
  · rw [rdyHigh, rdyHigh, eq_of_knownBinary (h.rdy ti _) hrdy]
  · rw [bpHigh, bpHigh, eq_of_knownBinary (h.bp ti _) hbp]

/-- Without the reset, only the bits that join two transfers can differ. -/
lemma transferAt_eq_iff_of_deasserted (h : FillsSamples wf wf' cfg compiled)
    (hreset : resetDeasserted wf cfg ti = true)
    (hknown : controlKnown wf compiled ti (samplePoint cfg) = true) :
    transferAt wf' cfg compiled ti = transferAt wf cfg compiled ti ↔
      KeepsTransfer wf wf' cfg compiled ti := by
  obtain ⟨hvld, hrdy, hbp⟩ := h.control_eq hknown
  rw [h.transferAt_eq_iff hreset hknown, transferNow, transferNow, readyNow, readyNow, hvld, hrdy,
    hbp]
  have hunreset : ¬ (resetBits wf cfg ti).toList.any isXz = true := by
    rw [FillsSamples.known_of_resetDeasserted hreset]
    exact Bool.false_ne_true
  cases hjoins : joins cfg compiled with
  | false =>
      have hnot : ¬ joins cfg compiled = true := by
        rw [hjoins]
        exact Bool.false_ne_true
      exact iff_of_true (by simp) ⟨fun hunknown => absurd hunknown hunreset,
        fun _ hjoins' => absurd hjoins' hnot, fun _ hjoins' => absurd hjoins' hnot⟩
  | true =>
      -- without backpressure, the consumer is ready when ready is high
      have hsides := hjoins
      simp only [joins, Bool.and_eq_true, Option.isNone_iff_eq_none] at hsides
      obtain ⟨⟨-, hready⟩, hbackpressure⟩ := hsides
      have hsome : compiled.ready.isNone = false := Option.isNone_eq_false_iff.2 hready
      have hfree : bpHigh wf compiled ti (samplePoint cfg) = false := by
        rw [bpHigh, hbackpressure]
        rfl
      rw [hsome, hfree]
      simp only [Bool.false_or, Bool.not_false, Bool.and_true, Bool.true_and]
      rw [joined_eq_iff]
      constructor
      · rintro ⟨hvldOnly, hrdyOnly⟩
        exact ⟨fun hunknown => absurd hunknown hunreset, fun _ _ => hvldOnly, fun _ _ => hrdyOnly⟩
      · intro hkeeps
        exact ⟨hkeeps.vldBefore hreset hjoins, hkeeps.rdyBefore hreset hjoins⟩

/-- At an edge where the scan has found nothing unknown, the transfers of the two waveforms are
the same exactly if what the scan does not look at allows it. -/
lemma transferAt_eq_iff_keepsTransfer (h : FillsSamples wf wf' cfg compiled)
    (hcomplete : resetDeasserted wf cfg ti = true →
      controlKnown wf compiled ti (samplePoint cfg) = true) :
    transferAt wf' cfg compiled ti = transferAt wf cfg compiled ti ↔
      KeepsTransfer wf wf' cfg compiled ti := by
  cases hreset : resetDeasserted wf cfg ti with
  | false => exact transferAt_eq_iff_of_reset h hreset
  | true => exact transferAt_eq_iff_of_deasserted h hreset (hcomplete hreset)

end Edge

/-! ### Whole scans -/

section Scans

variable {wf wf' : Backend} {cfg : StreamConfig} {compiled : CompiledStreamExpressions}

lemma compileStreamExpressions_fills (h : FillsSamples wf wf' cfg compiled) :
    compileStreamExpressions wf' cfg = compileStreamExpressions wf cfg := by
  have hone : compileStreamExpression wf' = compileStreamExpression wf := by
    funext label expression
    rw [compileStreamExpression, compileStreamExpression, h.findSignal]
  rw [compileStreamExpressions, compileStreamExpressions, hone, h.findSignal]

lemma queryWindow_fills (h : FillsSamples wf wf' cfg compiled) (query : StreamQuery) :
    queryWindow wf' query = queryWindow wf query := by
  rw [queryWindow, queryWindow, Backend.minTime, Backend.maxTime, h.timeTable]
  simp only [Backend.timeIdxOf, h.timeTable]
  rfl

/-- The two waveforms have the same edges. -/
lemma windowEdges_fills (h : FillsSamples wf wf' cfg compiled) (beginTi endTi : ℕ) :
    windowEdges wf' cfg compiled beginTi endTi = windowEdges wf cfg compiled beginTi endTi := by
  have hindices : clockTimeIndices wf' compiled = clockTimeIndices wf compiled := by
    rw [clockTimeIndices, clockTimeIndices, List.flatMap_congr h.clockIndices]
  have hedge : isClockEdge wf' cfg compiled = isClockEdge wf cfg compiled := by
    funext ti
    rw [isClockEdge, isClockEdge, h.clock, h.clock]
  rw [windowEdges, windowEdges, hindices, hedge]

/-- The edges have different times. -/
lemma nodup_windowEdges (wf : Backend) (cfg : StreamConfig)
    (compiled : CompiledStreamExpressions) (beginTi endTi : ℕ) :
    ((windowEdges wf cfg compiled beginTi endTi).map wf.timeAt).Nodup := by
  refine nodup_map_timeAt ?_ (pairwise_clockTimeIndices.filter _)
  intro ti hti
  obtain ⟨ref, -, hmem⟩ := mem_clockTimeIndices.1 (List.mem_filter.1 hti).1
  exact Backend.timeIndicesOf_lt hmem

/-- The lists of transfers are the same exactly if the transfers at the edges are. -/
lemma transfers_eq_iff (h : FillsSamples wf wf' cfg compiled) (beginTi endTi : ℕ) :
    ((scanStreamSamples wf' cfg compiled beginTi endTi).1.filter StreamSample.transfer).map
          transferRow =
        ((scanStreamSamples wf cfg compiled beginTi endTi).1.filter StreamSample.transfer).map
          transferRow ↔
      ∀ ti ∈ windowEdges wf cfg compiled beginTi endTi,
        transferAt wf' cfg compiled ti = transferAt wf cfg compiled ti := by
  have htime : wf'.timeAt = wf.timeAt := by
    funext ti
    rw [Backend.timeAt, Backend.timeAt, h.timeTable]
  rw [transfers_scanStreamSamples, transfers_scanStreamSamples, windowEdges_fills h, htime]
  constructor
  · intro hrows
    exact filterMap_key_inj (nodup_windowEdges wf cfg compiled beginTi endTi) hrows
  · intro hsame
    refine List.filterMap_congr fun ti hti => ?_
    rw [hsame ti hti]

lemma scanComplete_streamResult (samples : List (StreamSample FieldJson)) (fieldsComplete : Bool) :
    (streamResult samples fieldsComplete).scanComplete = true ↔
      ∀ s ∈ samples, s.controlKnown = true := by
  rw [streamResult, decide_eq_true_eq, List.countP_eq_zero]
  simp

/-- On a complete waveform, the query of a waveform with unknown bits of the reset and the
controls filled in has the same transfers exactly if an unknown reset hides no transfer, and
unknown levels before an edge decide none. -/
theorem queryStream_same_iff (wf wf' : Backend) (cfg : StreamConfig) (query : StreamQuery)
    (result : StreamResult)
    (hfills : ∀ compiled, compileStreamExpressions wf cfg = .ok compiled →
      FillsSamples wf wf' cfg compiled)
    (hquery : queryStream wf cfg query = .ok result) (hcomplete : result.scanComplete = true) :
    (∃ result', queryStream wf' cfg query = .ok result' ∧
        result'.transferCount = result.transferCount ∧
        result'.transfers.map transferRow = result.transfers.map transferRow) ↔
      ∀ compiled window, compileStreamExpressions wf cfg = .ok compiled →
        queryWindow wf query = .ok window →
        ∀ ti ∈ windowEdges wf cfg compiled window.1 window.2,
          KeepsTransfer wf wf' cfg compiled ti := by
  obtain ⟨compiled, window, hcompiled, hwindow, hcheck, rfl⟩ := queryStream_eq_ok.1 hquery
  have h := hfills compiled hcompiled
  rw [scanComplete_streamResult, controlKnown_scanStreamSamples] at hcomplete
  have hquery' : queryStream wf' cfg query =
      .ok (streamResult (scanStreamSamples wf' cfg compiled window.1 window.2).1
        (scanStreamSamples wf' cfg compiled window.1 window.2).2) :=
    queryStream_eq_ok.2 ⟨compiled, window, (compileStreamExpressions_fills h).trans hcompiled,
      (queryWindow_fills h query).trans hwindow, hcheck, rfl⟩
  have hsame := transfers_eq_iff h window.1 window.2
  constructor
  · rintro ⟨result', hresult', -, hrows⟩ compiled' window' hcompiled' hwindow' ti hti
    obtain rfl := Except.ok.inj (hcompiled.symm.trans hcompiled')
    obtain rfl := Except.ok.inj (hwindow.symm.trans hwindow')
    obtain rfl := Except.ok.inj (hquery'.symm.trans hresult')
    exact (transferAt_eq_iff_keepsTransfer h (hcomplete ti hti)).1 (hsame.1 hrows ti hti)
  · intro hkeeps
    have hrows := hsame.2 fun ti hti => (transferAt_eq_iff_keepsTransfer h (hcomplete ti hti)).2
      (hkeeps compiled window hcompiled hwindow ti hti)
    refine ⟨_, hquery', ?_, hrows⟩
    simpa [streamResult] using congrArg List.length hrows

end Scans

/-! ### A transfer during an unknown reset -/

/-- Unknown bits of a signal in an expression that is only this signal. -/
lemma fillsText_evalSignal {filled : ℕ → Prop} {wf wf' : Backend} (h : Fills filled wf wf')
    (ti : ℕ) (point : ObservationPoint) (name : String) :
    FillsText (evalSignal wf ti point name none).bits (evalSignal wf' ti point name none).bits := by
  have hbits : ∀ wf : Backend, (evalSignal wf ti point name none).bits =
      if wf.findSignal name = Backend.kInvalidSignalRef then "x"
      else ((wf.sample (wf.findSignal name) ti point).map WaveformValue.text).getD "x" := by
    intro wf
    rw [evalSignal, Backend.sample]
    split_ifs
    · rfl
    · cases wf.sampledValueAt (wf.findSignal name) ti point <;> rfl
  rw [hbits, hbits, h.findSignal]
  split_ifs
  · exact FillsText.refl _
  · exact h.fillsText_sample ti point (FillsText.refl _)

/-- Signals without replaced bits have the same value in both waveforms. -/
lemma evalSignal_fills {filled : ℕ → Prop} {wf wf' : Backend} (h : Fills filled wf wf')
    {name : String} (hother : ¬ filled (wf.findSignal name)) (ti : ℕ) (point : ObservationPoint)
    (range : Option (ℤ × ℤ)) :
    evalSignal wf' ti point name range = evalSignal wf ti point name range := by
  simp only [evalSignal, h.findSignal, h.sampledValueAt hother, h.width]

/-- A stream that is valid at its only edge, with given values of the reset and of valid. -/
def streamTable (reset vld : String) : List (String × List (ℕ × String)) :=
  [("clk", [(0, "0"), (1, "1")]), ("rst_n", [(0, reset)]), ("vld", [(0, vld)])]

lemma streamTimes_sorted : [0, 5].Pairwise (· < ·) := by decide

lemma streamTimes_lt : ∀ t ∈ [0, 5], t < 2 ^ 64 := by decide

lemma streamTable_changes (reset vld : String) : ∀ s ∈ streamTable reset vld,
    s.2.Pairwise (fun a b => a.1 ≤ b.1) ∧ ∀ c ∈ s.2, c.1 < [0, 5].length := by
  simp only [streamTable, List.forall_mem_cons, List.not_mem_nil, false_implies, implies_true,
    and_true]
  refine ⟨?_, ?_, ?_⟩ <;> simp

def streamWave (reset vld : String) : Backend :=
  Backend.ofTable [0, 5] (streamTable reset vld) streamTimes_sorted streamTimes_lt
    (streamTable_changes reset vld)

def streamConfig : StreamConfig where
  clock := "clk"
  valid := "vld"
  reset := "rst_n"

def compiledStream : CompiledStreamExpressions where
  clock := .signal "clk"
  valid := .signal "vld"
  ready := none
  backpressure := none
  sop := none
  eop := none
  data := none
  channelId := none
  clockDependencies := [1]

lemma compileStreamExpressions_streamWave (reset vld : String) :
    compileStreamExpressions (streamWave reset vld) streamConfig = .ok compiledStream := by
  have hclock := @compileStreamExpression_signal (streamWave reset vld) "clk" "clock" (by decide)
    (by decide +kernel) (show (1 : ℕ) ≠ 0 by decide)
  have hvalid := @compileStreamExpression_signal (streamWave reset vld) "vld" "vld" (by decide)
    (by decide +kernel) (show (3 : ℕ) ≠ 0 by decide)
  rw [compileStreamExpressions, streamConfig, hclock, hvalid]
  rfl

lemma fills_streamWave {reset reset' vld vld' : String} (hreset : FillsText reset reset')
    (hvld : FillsText vld vld') :
    Fills (· ≠ 1) (streamWave reset vld) (streamWave reset' vld') := by
  have hbeyond : ∀ {reset vld : String} {ref : ℕ}, 4 ≤ ref →
      (streamWave reset vld).signal ref = none := by
    intro reset vld ref hge
    refine dif_neg ?_
    rintro ⟨-, hlt⟩
    have hlength : (streamTable reset vld).length = 3 := rfl
    omega
  have hone : ∀ {text text' : String}, FillsText text text' →
      List.Forall₂ FillsChange [⟨0, { text }⟩] [⟨0, { text := text' }⟩] := by
    intro text text' htext
    exact .cons ⟨rfl, rfl, rfl, htext⟩ .nil
  refine ⟨rfl, rfl, rfl, ?_, ?_, ?_⟩
  · intro ref
    rcases lt_or_ge ref 4 with hlt | hge
    · interval_cases ref <;> rfl
    · rw [hbeyond hge, hbeyond hge]
  · intro ref hne
    rcases lt_or_ge ref 4 with hlt | hge
    · interval_cases ref
      · exact .nil
      · exact absurd rfl hne
      · exact hone hreset
      · exact hone hvld
    · rw [Backend.changesOf, Backend.changesOf, hbeyond hge, hbeyond hge]
      exact .nil
  · intro ref hone
    obtain rfl : ref = 1 := not_not.1 hone
    rfl

lemma fillsSamples_streamWave {reset reset' vld vld' : String} (hreset : FillsText reset reset')
    (hvld : FillsText vld vld') (compiled : CompiledStreamExpressions)
    (hcompiled : compileStreamExpressions (streamWave reset vld) streamConfig = .ok compiled) :
    FillsSamples (streamWave reset vld) (streamWave reset' vld') streamConfig compiled := by
  obtain rfl := Except.ok.inj ((compileStreamExpressions_streamWave reset vld).symm.trans hcompiled)
  have h := fills_streamWave hreset hvld
  refine ⟨rfl, rfl, ?_, ?_, ?_, ?_, ?_, ?_, ?_, ?_⟩
  · intro ref hmem
    obtain rfl : ref = 1 := List.mem_singleton.1 hmem
    rfl
  · intro ti point
    have hclock : ¬ (streamWave reset vld).findSignal "clk" ≠ 1 := not_not.2 rfl
    exact congrArg LogicValue.bits (evalSignal_fills h hclock ti point none)
  · intro ti point
    have href : resetRef (streamWave reset vld) streamConfig = 2 := rfl
    rw [href, sampledSignalBitsAt, sampledSignalBitsAt, if_neg (by decide), if_neg (by decide)]
    exact h.fillsText_sample ti point (FillsText.refl "")
  · intro ti point
    exact fillsText_evalSignal h ti point "vld"
  · intro ti point
    exact FillsText.refl "1"
  · intro ti point
    exact FillsText.refl "0"
  · intro ti point
    exact FillsText.refl "0"
  · intro ti point
    exact FillsText.refl "0"

def summaryQuery : StreamQuery where
  query := "summary"

/-- The scan of the whole wave. -/
def waveResult (reset vld : String) : StreamResult :=
  streamResult (scanStreamSamples (streamWave reset vld) streamConfig compiledStream 0 1).1
    (scanStreamSamples (streamWave reset vld) streamConfig compiledStream 0 1).2

lemma queryStream_streamWave (reset vld : String) :
    queryStream (streamWave reset vld) streamConfig summaryQuery =
      .ok (waveResult reset vld) := by
  refine queryStream_eq_ok.2
    ⟨compiledStream, (0, 1), compileStreamExpressions_streamWave reset vld, ?_, rfl, rfl⟩
  show queryWindow (streamWave "x" "1") summaryQuery = _
  decide +kernel

/-- With an unknown reset the scan is complete and empty, and with the reset released there is a
transfer. -/
theorem unknownReset_hides_transfer : ¬ ∀ (wf wf' : Backend) (cfg : StreamConfig)
    (query : StreamQuery) (result : StreamResult),
    (∀ compiled, compileStreamExpressions wf cfg = .ok compiled →
      FillsSamples wf wf' cfg compiled) →
    queryStream wf cfg query = .ok result → result.scanComplete = true →
    ∃ result', queryStream wf' cfg query = .ok result' ∧
      result'.transferCount = result.transferCount ∧
      result'.transfers.map transferRow = result.transfers.map transferRow := by
  intro hall
  have hreset : FillsText "x" "1" := .cons (Or.inr ⟨rfl, Or.inr rfl⟩) .nil
  obtain ⟨result', hresult', hcount, -⟩ := hall _ _ streamConfig summaryQuery _
    (fillsSamples_streamWave hreset (FillsText.refl "1")) (queryStream_streamWave "x" "1")
    (by decide +kernel)
  obtain rfl := Except.ok.inj ((queryStream_streamWave "1" "1").symm.trans hresult')
  have hnone : (waveResult "x" "1").transferCount = 0 := by decide +kernel
  have hone : (waveResult "1" "1").transferCount = 1 := by decide +kernel
  rw [hnone, hone] at hcount
  cases hcount

/-- An unknown reset that turns out to be asserted hides nothing. -/
theorem assertedReset_same :
    (waveResult "x" "1").scanComplete = true ∧
    ((∃ result', queryStream (streamWave "0" "1") streamConfig summaryQuery = .ok result' ∧
        result'.transferCount = (waveResult "x" "1").transferCount ∧
        result'.transfers.map transferRow = (waveResult "x" "1").transfers.map transferRow) ↔
      ∀ compiled window,
        compileStreamExpressions (streamWave "x" "1") streamConfig = .ok compiled →
        queryWindow (streamWave "x" "1") summaryQuery = .ok window →
        ∀ ti ∈ windowEdges (streamWave "x" "1") streamConfig compiled window.1 window.2,
          KeepsTransfer (streamWave "x" "1") (streamWave "0" "1") streamConfig compiled ti) := by
  have hreset : FillsText "x" "0" := .cons (Or.inr ⟨rfl, Or.inl rfl⟩) .nil
  have hcomplete : (waveResult "x" "1").scanComplete = true := by decide +kernel
  exact ⟨hcomplete, queryStream_same_iff _ _ _ _ _
    (fillsSamples_streamWave hreset (FillsText.refl "1")) (queryStream_streamWave "x" "1")
    hcomplete⟩

end XdebugFst.Stream
