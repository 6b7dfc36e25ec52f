import XdebugFst.Lib.MaximalRuns
import XdebugFst.Axi.Analysis

/-!
# The stalls of a channel

`axi.channel_stall` walks over the times at which the valid or the ready signal of a channel changes.
A stall is open from the first of them with a known high valid and a known low ready to the next one
with other known values, or to the end of the window. Times with unknown values are passed over.

The stalls are the maximal runs of stalling times among the known ones: `stallsOf_eq`. The number of
cycles of a stall is a tenth of its duration, whatever the clock does: `countsEdges_iff_runs` compares
it with the clock edges at which the channel is sampled as stalled.
-/

namespace XdebugFst.Axi

open Lib Waveform

/-! ### The walk over the changes -/

/-- `read_signal_at` without an observation point: the first value at the time, `0` when there is
none. -/
def readSignalFirst (wf : Backend) (loaded : Loaded) (ref ti : ℕ) : String :=
  if ref = 0 || !loaded.contains (wf.nativeRef ref) then "0"
  else
    match wf.signalOffsetAt ref ti with
    | none => "0"
    | some offset => wf.signalValueStr ref offset.start 0

/-- The valid and ready signals of a channel. -/
def AxiSignalMap.handshakeSignals (sm : AxiSignalMap) : Channel → String × String
  | .aw => (sm.awvalid, sm.awready)
  | .w => (sm.wvalid, sm.wready)
  | .b => (sm.bvalid, sm.bready)
  | .ar => (sm.arvalid, sm.arready)
  | .r => (sm.rvalid, sm.rready)

/-- What the walk and the samples read. -/
structure ChannelView where
  wf : Backend
  sm : AxiSignalMap
  loaded : Loaded
  refValid : ℕ
  refReady : ℕ
  tBegin : ℕ
  tEnd : ℕ

namespace ChannelView

variable (view : ChannelView)

/-- `tis`: the time indices in the window at which the signals change, and the one at the begin of
the window, as a set in order. -/
def changeIndices : List ℕ :=
  (List.range view.wf.timeTable.length).filter fun ti =>
    (ti ∈ view.wf.timeIndicesOf view.refValid ∨ ti ∈ view.wf.timeIndicesOf view.refReady) ∧
        view.tBegin ≤ view.wf.timeAt ti ∧ view.wf.timeAt ti ≤ view.tEnd ∨
      0 < view.wf.timeIdxOf view.tBegin ∧ ti = view.wf.timeIdxOf view.tBegin

/-- The values of both signals at a time are known. -/
def knownAt (ti : ℕ) : Bool :=
  knownBinary (readSignalFirst view.wf view.loaded view.refValid ti) &&
    knownBinary (readSignalFirst view.wf view.loaded view.refReady ti)

/-- The channel stalls at a time. -/
def stalledAt (ti : ℕ) : Bool :=
  knownHigh (readSignalFirst view.wf view.loaded view.refValid ti) &&
    !knownHigh (readSignalFirst view.wf view.loaded view.refReady ti)

end ChannelView

/-- An entry of `stalls`. -/
structure Stall where
  startTime : ℕ
  endTime : ℕ
  duration : ℕ
  startTimeIdx : ℕ
  endTimeIdx : ℕ
  deriving DecidableEq, Repr

/-- The stall from a time index to a time. -/
def ChannelView.stall (view : ChannelView) (startTi endTime endTi : ℕ) : Stall where
  startTime := view.wf.timeAt startTi
  endTime := endTime
  duration := if endTime > view.wf.timeAt startTi then endTime - view.wf.timeAt startTi else 0
  startTimeIdx := startTi
  endTimeIdx := endTi

/-- The variables of the walk. The start of an open stall is kept as its time index. -/
structure StallState where
  openTi : Option ℕ := none
  stalls : List Stall := []
  scanComplete : Bool := true

/-- One time of the walk. -/
def ChannelView.stallStep (view : ChannelView) (st : StallState) (ti : ℕ) : StallState :=
  if !view.knownAt ti then { st with scanComplete := false }
  else if view.stalledAt ti then
    match st.openTi with
    | none => { st with openTi := some ti }
    | some _ => st
  else
    match st.openTi with
    | none => st
    | some startTi =>
        { st with
          openTi := none
          stalls := st.stalls ++ [view.stall startTi (view.wf.timeAt ti) ti] }

/-- The walk, before an open stall is closed. -/
def ChannelView.walk (view : ChannelView) : StallState :=
  view.changeIndices.foldl view.stallStep {}

/-- `stalls`: a stall that is still open ends with the window. -/
def ChannelView.stallsOf (view : ChannelView) : List Stall :=
  let st := view.walk
  match st.openTi with
  | none => st.stalls
  | some startTi => st.stalls ++ [view.stall startTi view.tEnd (view.wf.timeIdxOf view.tEnd)]

/-! ### The report -/

/-- An entry of `findings`. -/
structure Finding where
  beginTime : ℕ
  endTime : ℕ
  cycles : ℕ
  deriving DecidableEq, Repr

/-- `cycles` of a stall. -/
def Stall.cycles (stall : Stall) : ℕ := stall.duration / 10

/-- What `axi.channel_stall` reports. -/
structure ChannelStall where
  channel : Channel
  sampleCount : ℕ
  transferCount : ℕ
  maxStallCycles : ℕ
  readyWithoutValidCycles : ℕ
  firstActivityTime : ℕ
  scanComplete : Bool
  truncated : Bool
  totalCount : ℕ
  findings : List Finding
  deriving DecidableEq, Repr

/-- The samples of all channels at a clock edge. -/
def activityAt (wf : Backend) (loaded : Loaded) (sm : AxiSignalMap) (ti : ℕ) :
    List (String × String) :=
  [Channel.aw, .w, .b, .ar, .r].map fun channel =>
    (readSignalAt wf loaded (wf.findSignal (sm.handshakeSignals channel).1) ti (axiPoint sm),
      readSignalAt wf loaded (wf.findSignal (sm.handshakeSignals channel).2) ti (axiPoint sm))

/-- `first_activity`: the time of the first edge whose samples differ from those of the edge before
it, or the end of the window. -/
def firstActivity (wf : Backend) (loaded : Loaded) (sm : AxiSignalMap) (tEnd : ℕ) :
    Option (List (String × String)) → List ℕ → ℕ
  | _, [] => tEnd
  | none, ti :: rest => firstActivity wf loaded sm tEnd (some (activityAt wf loaded sm ti)) rest
  | some previous, ti :: rest =>
      if activityAt wf loaded sm ti ≠ previous then wf.timeAt ti
      else firstActivity wf loaded sm tEnd (some (activityAt wf loaded sm ti)) rest

/-- The signals that are loaded after the scan. -/
def scanLoaded (wf : Backend) (sm : AxiSignalMap) (loaded : Loaded) : Loaded :=
  let loaded := controlLoaded wf sm loaded
  let loaded := (augmentAwEvents wf sm loaded []).2
  let loaded := (augmentWEvents wf sm loaded []).2
  let loaded := (augmentBEvents wf sm loaded []).2
  let loaded := (augmentArEvents wf sm loaded []).2
  (augmentREvents wf sm loaded []).2

/-- The accepted transfers of a channel. -/
def AxiScanResult.transferCount (result : AxiScanResult) : Channel → ℕ
  | .aw => result.awEvents.length
  | .w => result.wEvents.length
  | .b => result.bEvents.length
  | .ar => result.arEvents.length
  | .r => result.rEvents.length

/-- The view of a channel that the handler has. The signals of all channels have been found when
the scan has a result. -/
def channelView (wf : Backend) (sm : AxiSignalMap) (loaded : Loaded) (channel : Channel)
    (tBegin tEnd : ℕ) : ChannelView :=
  let refValid := wf.findSignal (sm.handshakeSignals channel).1
  let refReady := wf.findSignal (sm.handshakeSignals channel).2
  { wf := wf
    sm := sm
    loaded := loadSignals wf (scanLoaded wf sm loaded) [refValid, refReady]
    refValid := refValid
    refReady := refReady
    tBegin := tBegin
    tEnd := tEnd }

/-- The selected clock edges of the window. -/
def ChannelView.clockEdges (view : ChannelView) : List ℕ :=
  selectedClockEdges view.wf view.loaded view.sm view.tBegin view.tEnd

/-- The sampled values of the channel at a clock edge. -/
def ChannelView.sampleAt (view : ChannelView) (ti : ℕ) : String × String :=
  (readSignalAt view.wf view.loaded view.refValid ti (axiPoint view.sm),
    readSignalAt view.wf view.loaded view.refReady ti (axiPoint view.sm))

/-- `ready_without_valid`. -/
def ChannelView.readyWithoutValid (view : ChannelView) (firstActivityTime : ℕ) : ℕ :=
  view.clockEdges.countP fun ti =>
    firstActivityTime ≤ view.wf.timeAt ti && knownBinary (view.sampleAt ti).1 &&
      knownBinary (view.sampleAt ti).2 && !knownHigh (view.sampleAt ti).1 &&
        knownHigh (view.sampleAt ti).2

/-- `findings`. -/
def findingsOf (limit : ℕ) (stalls : List Stall) : List Finding :=
  (stalls.take limit).map fun stall => ⟨stall.startTime, stall.endTime, stall.cycles⟩

/-- `axi.channel_stall`. -/
def channelStall (std : StdSort) (wf : Backend) (sm : AxiSignalMap) (hardLimit : ℕ)
    (loaded : Loaded) (channel : Channel) (limit tBegin tEnd : ℕ) :
    Except AxiScanError ChannelStall :=
  match scanAxi std wf sm hardLimit loaded tBegin tEnd with
  | .error error => .error error
  | .ok result =>
      let view := channelView wf sm loaded channel tBegin tEnd
      let stalls := view.stallsOf
      let findings := findingsOf limit stalls
      let firstActivityTime := firstActivity wf view.loaded sm tEnd none view.clockEdges
      .ok
        { channel := channel
          sampleCount := view.clockEdges.length
          transferCount := result.transferCount channel
          maxStallCycles := (stalls.map Stall.cycles).foldl max 0
          readyWithoutValidCycles := view.readyWithoutValid firstActivityTime
          firstActivityTime := firstActivityTime
          scanComplete := view.walk.scanComplete
          truncated := findings.length < stalls.length
          totalCount := stalls.length
          findings := findings }

/-! ### The stalls as runs -/

/-- The times of the walk with known values. -/
def ChannelView.knownIndices (view : ChannelView) : List ℕ :=
  view.changeIndices.filter view.knownAt

/-- The time index and the time at which a stretch ends. -/
def ChannelView.stallEnd (view : ChannelView) : Option ℕ → ℕ × ℕ
  | none => (view.tEnd, view.wf.timeIdxOf view.tEnd)
  | some ti => (view.wf.timeAt ti, ti)

/-- The stall of a stretch of stalling times. -/
def ChannelView.stretchStall (view : ChannelView) (s : ℕ × Option ℕ) : Stall :=
  view.stall s.1 (view.stallEnd s.2).1 (view.stallEnd s.2).2

/-- The stalls of a state of the walk, with the open one. -/
def ChannelView.close (view : ChannelView) (st : StallState) : List Stall :=
  match st.openTi with
  | none => st.stalls
  | some startTi => st.stalls ++ [view.stall startTi view.tEnd (view.wf.timeIdxOf view.tEnd)]

lemma close_foldl (view : ChannelView) (l : List ℕ) (st : StallState) :
    view.close (l.foldl view.stallStep st) = st.stalls ++
      (stretches view.stalledAt st.openTi (l.filter view.knownAt)).map view.stretchStall := by
  induction l generalizing st with
  | nil =>
      obtain ⟨openTi, stalls, complete⟩ := st
      cases openTi with
      | none => simp [ChannelView.close, stretches]
      | some startTi => rfl
  | cons ti l ih =>
      rw [List.foldl_cons, ih, ChannelView.stallStep]
      cases hknown : view.knownAt ti with
      | false => simp [hknown]
      | true =>
          obtain ⟨openTi, stalls, complete⟩ := st
          cases hstalled : view.stalledAt ti <;> cases openTi <;>
            simp [hknown, hstalled, stretches, ChannelView.stretchStall, ChannelView.stallEnd]

/-- The stalls are the maximal runs of stalling times among those with known values. -/
lemma stallsOf_eq (view : ChannelView) :
    view.stallsOf = (runs (placesOf view.stalledAt view.knownIndices)
      view.knownIndices.length).map fun r =>
        view.stretchStall (runStretch view.knownIndices r) := by
  have h := close_foldl view view.changeIndices {}
  rw [List.nil_append, stretches_eq, List.map_map] at h
  exact h

/-! ### Cycles and clock edges -/

/-- The sampled valid is high and the sampled ready is low. -/
def ChannelView.stalledSample (view : ChannelView) (ti : ℕ) : Bool :=
  knownHigh (view.sampleAt ti).1 && knownBinary (view.sampleAt ti).2 &&
    !knownHigh (view.sampleAt ti).2

/-- The number of selected clock edges from one time to another at which the channel is sampled as
stalled. -/
def ChannelView.stalledEdges (view : ChannelView) (beginTime endTime : ℕ) : ℕ :=
  (selectedClockEdges view.wf view.loaded view.sm beginTime endTime).countP view.stalledSample

/-- The cycles of every finding are the stalled edges of its stall. -/
def CountsEdges (view : ChannelView) (report : ChannelStall) : Prop :=
  ∀ finding ∈ report.findings,
    finding.cycles = view.stalledEdges finding.beginTime finding.endTime

/-- The time from the first place of a run to the place behind it, or to the end of the window. -/
def ChannelView.runTimes (view : ChannelView) (r : Run Unit) : ℕ × ℕ :=
  (view.wf.timeAt (runStretch view.knownIndices r).1,
    (view.stallEnd (runStretch view.knownIndices r).2).1)

/-- The finding of a run. -/
def ChannelView.runFinding (view : ChannelView) (r : Run Unit) : Finding where
  beginTime := (view.runTimes r).1
  endTime := (view.runTimes r).2
  cycles := ((view.runTimes r).2 - (view.runTimes r).1) / 10

lemma stall_duration (view : ChannelView) (startTi endTime endTi : ℕ) :
    (view.stall startTi endTime endTi).duration = endTime - view.wf.timeAt startTi := by
  rw [ChannelView.stall]
  dsimp only
  split_ifs with hlt
  · rfl
  · omega

/-- The findings are those of the first runs. -/
lemma findingsOf_stallsOf (view : ChannelView) (limit : ℕ) :
    findingsOf limit view.stallsOf =
      ((runs (placesOf view.stalledAt view.knownIndices) view.knownIndices.length).take limit).map
        view.runFinding := by
  rw [findingsOf, stallsOf_eq, ← List.map_take, List.map_map]
  refine List.map_congr_left fun r _ => ?_
  rw [Function.comp_apply, ChannelView.stretchStall, Stall.cycles, stall_duration]
  rfl

lemma findings_of_channelStall {std : StdSort} {wf : Backend} {sm : AxiSignalMap}
    {hardLimit : ℕ} {loaded : Loaded} {channel : Channel} {limit tBegin tEnd : ℕ}
    {report : ChannelStall}
    (h : channelStall std wf sm hardLimit loaded channel limit tBegin tEnd = .ok report) :
    report.findings = findingsOf limit (channelView wf sm loaded channel tBegin tEnd).stallsOf := by
  rw [channelStall] at h
  cases hscan : scanAxi std wf sm hardLimit loaded tBegin tEnd with
  | error error =>
      rw [hscan] at h
      cases h
  | ok result =>
      rw [hscan] at h
      cases h
      rfl

/-- The cycles of the findings are the clock edges at which the channel is sampled as stalled exactly
if every reported run of stalling times has as many of them as tens of ticks. -/
lemma countsEdges_iff_runs {std : StdSort} {wf : Backend} {sm : AxiSignalMap} {hardLimit : ℕ}
    {loaded : Loaded} {channel : Channel} {limit tBegin tEnd : ℕ} {report : ChannelStall}
    (h : channelStall std wf sm hardLimit loaded channel limit tBegin tEnd = .ok report) :
    let view := channelView wf sm loaded channel tBegin tEnd
    CountsEdges view report ↔
      ∀ r ∈ (runs (placesOf view.stalledAt view.knownIndices) view.knownIndices.length).take limit,
        ((view.runTimes r).2 - (view.runTimes r).1) / 10 =
          view.stalledEdges (view.runTimes r).1 (view.runTimes r).2 := by
  intro view
  rw [CountsEdges, findings_of_channelStall h, findingsOf_stallsOf, List.forall_mem_map]
  rfl

end XdebugFst.Axi
