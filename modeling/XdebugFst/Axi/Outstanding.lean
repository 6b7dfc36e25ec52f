import XdebugFst.Lib.Sweep
import XdebugFst.Axi.Analysis

/-!
# Outstanding transactions

`axi.analysis` with `osd` sweeps over the starts and ends of the transactions and reports the number
of open ones at every active clock edge. `axi.outstanding_timeline` adds the same changes up in a map
by time and reports the totals at its keys.

A response without a write is a transaction of its own, which starts and does not end: it stays in
both counts for good. A write that is answered before its address handshake is left out by the
sweep, but not by the timeline, where it is counted down first. `outstandingExact_iff` says that
these are the only ways in which the reports differ from the number of open transactions, and when
they do.
-/

namespace XdebugFst.Axi

open Lib Waveform

/-! ### The depth at the clock edges -/

/-- A change of the reads or of the writes, as a pair of both. -/
def sideDelta (isWrite : Bool) (amount : ℤ) : ℤ × ℤ := if isWrite then (0, amount) else (amount, 0)

/-- `DepthEvent`, with the changes of the reads and of the writes. -/
structure DepthEvent where
  time : ℕ
  delta : ℤ × ℤ
  deriving DecidableEq, Repr

/-- The events of one transaction. -/
def transactionEvents (direction : String) (txn : AxiTransaction) : List DepthEvent :=
  if !selectsDirection direction txn then []
  else if txn.complete && txn.endTime ≤ txn.startTime then []
  else
    ⟨txn.startTime, sideDelta txn.isWrite 1⟩ ::
      if txn.complete then [⟨txn.endTime, sideDelta txn.isWrite (-1)⟩] else []

/-- `events`. -/
def depthEvents (direction : String) (transactions : List AxiTransaction) : List DepthEvent :=
  transactions.flatMap (transactionEvents direction)

/-- `std::sort` by time: some permutation that is sorted by time. -/
structure DepthSort where
  sort : List DepthEvent → List DepthEvent
  perm : ∀ l, (sort l).Perm l
  sorted : ∀ l, (sort l).Pairwise fun a b => a.time ≤ b.time

/-- The conversion of a signed to an unsigned 64-bit integer. -/
def castUInt64 (n : ℤ) : ℕ := if 0 ≤ n then n.toNat else (n + 2 ^ 64).toNat

/-- `depth_stats`. The average is the sum divided by the number of samples. -/
structure DepthStats where
  samples : ℕ
  min : ℕ
  max : ℕ
  sum : ℕ
  deriving DecidableEq, Repr

def depthStats (values : List ℕ) : DepthStats where
  samples := values.length
  min := values.min?.getD 0
  max := values.max?.getD 0
  sum := values.sum % 2 ^ 64

/-- What `axi.analysis` reports for `osd`, and the depths it is computed from. -/
structure Osd where
  readDepth : List ℕ
  writeDepth : List ℕ
  read : DepthStats
  write : DepthStats
  total : DepthStats
  finalRead : ℕ
  finalWrite : ℕ
  deriving DecidableEq, Repr

/-- The times of the clock edges outside reset. -/
def activeTimes (wf : Backend) (sm : AxiSignalMap) (loaded : Loaded) (tBegin tEnd : ℕ) : List ℕ :=
  (activeEdges wf sm loaded tBegin tEnd).map wf.timeAt

/-- `axi.analysis` with `osd`, for the transactions of the scan and the times of the active
edges. -/
def analysisOsd (std : DepthSort) (direction : String) (times : List ℕ)
    (transactions : List AxiTransaction) : Osd :=
  let depths := sweep DepthEvent.time DepthEvent.delta times
    (std.sort (depthEvents direction transactions)) 0
  let readDepth := depths.map fun d => castUInt64 d.1
  let writeDepth := depths.map fun d => castUInt64 d.2
  { readDepth := readDepth
    writeDepth := writeDepth
    read := depthStats readDepth
    write := depthStats writeDepth
    total := depthStats (List.zipWith (fun r w => (r + w) % 2 ^ 64) readDepth writeDepth)
    finalRead := readDepth.getLastD 0
    finalWrite := writeDepth.getLastD 0 }

/-! ### The timeline -/

/-- The changes of one transaction. -/
def addTransaction (direction : String) (deltas : OrderedMap ℕ (ℤ × ℤ)) (txn : AxiTransaction) :
    OrderedMap ℕ (ℤ × ℤ) :=
  if !selectsDirection direction txn then deltas
  else
    let deltas := bump deltas txn.startTime (sideDelta txn.isWrite 1)
    if txn.complete then bump deltas txn.endTime (sideDelta txn.isWrite (-1)) else deltas

/-- `deltas`, without the times at which nothing changes. -/
def timelineDeltas (direction : String) (transactions : List AxiTransaction) :
    OrderedMap ℕ (ℤ × ℤ) :=
  (transactions.foldl (addTransaction direction) .empty).filter fun _ delta => delta ≠ 0

/-- A point of the timeline. -/
structure ChangePoint where
  time : ℕ
  read : ℤ
  write : ℤ
  readDelta : ℤ
  writeDelta : ℤ
  readEvent : String
  writeEvent : String
  deriving DecidableEq, Repr

/-- The point of an entry of the map, with the totals behind it. -/
def changePoint (total : ℤ × ℤ) (item : ℕ × (ℤ × ℤ)) : ChangePoint where
  time := item.1
  read := total.1
  write := total.2
  readDelta := item.2.1
  writeDelta := item.2.2
  readEvent := if item.2.1 > 0 then "ar_handshake" else
    if item.2.1 < 0 then "rlast_handshake" else "none"
  writeEvent := if item.2.2 > 0 then "aw_handshake" else
    if item.2.2 < 0 then "b_handshake" else "none"

/-- The variables of the loop over the map. -/
structure TimelineState where
  total : ℤ × ℤ := 0
  peakRead : ℤ := 0
  peakWrite : ℤ := 0
  peakReadTime : ℕ
  peakWriteTime : ℕ
  firstNonzero : ℕ
  hasNonzero : Bool := false
  points : List ChangePoint

/-- One entry of the map. -/
def timelineStep (limit : ℕ) (st : TimelineState) (item : ℕ × (ℤ × ℤ)) : TimelineState :=
  let total := st.total + item.2
  { total := total
    peakRead := if total.1 > st.peakRead then total.1 else st.peakRead
    peakWrite := if total.2 > st.peakWrite then total.2 else st.peakWrite
    peakReadTime := if total.1 > st.peakRead then item.1 else st.peakReadTime
    peakWriteTime := if total.2 > st.peakWrite then item.1 else st.peakWriteTime
    firstNonzero := if !st.hasNonzero && total ≠ 0 then item.1 else st.firstNonzero
    hasNonzero := st.hasNonzero || total ≠ 0
    points := if st.points.length < limit then st.points ++ [changePoint total item]
      else st.points }

/-- What `axi.outstanding_timeline` reports. -/
structure Timeline where
  sampleCount : ℕ
  peakRead : ℤ
  peakWrite : ℤ
  peakReadTime : ℕ
  peakWriteTime : ℕ
  firstNonzeroTime : ℕ
  finalRead : ℤ
  finalWrite : ℤ
  totalPoints : ℕ
  truncated : Bool
  changePoints : List ChangePoint
  deriving DecidableEq, Repr

/-- An initial point of value zero is reported for the `before` sampling contract, unless there
is nothing to report. -/
def includesInitialPoint (sm : AxiSignalMap) (deltas : OrderedMap ℕ (ℤ × ℤ)) : Bool :=
  axiPoint sm = .before && !deltas.entries.isEmpty

/-- The initial point. -/
def initialPoints (sm : AxiSignalMap) (limit firstActiveTime : ℕ)
    (deltas : OrderedMap ℕ (ℤ × ℤ)) : List ChangePoint :=
  if includesInitialPoint sm deltas && 0 < limit then
    [{ time := firstActiveTime, read := 0, write := 0, readDelta := 0, writeDelta := 0,
       readEvent := "none", writeEvent := "none" }]
  else []

/-- `axi.outstanding_timeline`, for the transactions of the scan and the times of the active
edges. -/
def outstandingTimeline (sm : AxiSignalMap) (direction : String) (limit tBegin : ℕ)
    (times : List ℕ) (transactions : List AxiTransaction) : Timeline :=
  let deltas := timelineDeltas direction transactions
  let st := deltas.entries.foldl (timelineStep limit)
    { peakReadTime := tBegin, peakWriteTime := tBegin, firstNonzero := tBegin
      points := initialPoints sm limit (times.headD tBegin) deltas }
  let totalPoints := deltas.entries.length + if includesInitialPoint sm deltas then 1 else 0
  { sampleCount := times.length
    peakRead := st.peakRead
    peakWrite := st.peakWrite
    peakReadTime := st.peakReadTime
    peakWriteTime := st.peakWriteTime
    firstNonzeroTime := st.firstNonzero
    finalRead := st.total.1
    finalWrite := st.total.2
    totalPoints := totalPoints
    truncated := st.points.length < totalPoints
    changePoints := st.points }

/-! ### Open transactions -/

/-- The transaction with an origin and an index. -/
def Origin.numbered (ev : Events) (o : Origin × ℕ) : AxiTransaction :=
  { o.1.render ev with index := o.2 }

/-- The transactions with these origins and indices. -/
def numbered (ev : Events) (os : List (Origin × ℕ)) : List AxiTransaction :=
  os.map (Origin.numbered ev)

/-- The time of the address handshake, if there is one. -/
def Origin.addressTime? (ev : Events) : Origin → Option ℕ
  | write aw _ _ => some (awAt ev.aw aw).time
  | orphan _ => none
  | read ar _ _ => some (ev.ar.getD ar default).time

/-- The time of the response that completes the transaction, if there is one. -/
def Origin.responseTime? (ev : Events) : Origin → Option ℕ
  | write _ _ b => b.map fun p => (ev.b.getD p default).time
  | orphan _ => none
  | read _ rs complete =>
      if complete then some (ev.r.getD (rs.getLastD 0) default).time else none

/-- The time of a response that belongs to no write. -/
def Origin.orphanTime? (ev : Events) : Origin → Option ℕ
  | orphan p => some (ev.b.getD p default).time
  | _ => none

/-- The address handshake is at or before the time, the response is not. -/
def Origin.openAt (ev : Events) (t : ℕ) (o : Origin) : Bool :=
  (o.addressTime? ev).any (· ≤ t) && !(o.responseTime? ev).any (· ≤ t)

/-- The response is at or before the time, the address handshake is not. -/
def Origin.earlyAt (ev : Events) (t : ℕ) (o : Origin) : Bool :=
  (o.responseTime? ev).any (· ≤ t) && !(o.addressTime? ev).any (· ≤ t)

/-- The request selects the transactions of this direction. -/
def selectsSide (direction : String) (isWrite : Bool) : Bool :=
  direction = "all" || decide (direction = "write") = isWrite

/-- The selected transactions of one direction with some property. -/
def countSide (direction : String) (isWrite : Bool) (p : Origin → Bool) (os : List (Origin × ℕ)) :
    ℕ :=
  os.countP fun o => selectsSide direction isWrite && o.1.isWrite = isWrite && p o.1

/-- The open transactions of one direction. -/
def openCount (ev : Events) (direction : String) (isWrite : Bool) (os : List (Origin × ℕ))
    (t : ℕ) : ℕ :=
  countSide direction isWrite (Origin.openAt ev t) os

/-- The responses without a write up to a time. -/
def orphanCount (ev : Events) (direction : String) (isWrite : Bool) (os : List (Origin × ℕ))
    (t : ℕ) : ℕ :=
  countSide direction isWrite (fun o => (o.orphanTime? ev).any (· ≤ t)) os

/-- The transactions that are answered up to a time, before their address handshake. -/
def earlyCount (ev : Events) (direction : String) (isWrite : Bool) (os : List (Origin × ℕ))
    (t : ℕ) : ℕ :=
  countSide direction isWrite (Origin.earlyAt ev t) os

/-- The number of transactions that begin and the number of those that are answered at a time
differ, in one of the directions. -/
def changesAt (ev : Events) (direction : String) (os : List (Origin × ℕ)) (t : ℕ) : Bool :=
  [false, true].any fun isWrite =>
    countSide direction isWrite
        (fun o => (o.addressTime? ev).any (· = t) || (o.orphanTime? ev).any (· = t)) os ≠
      countSide direction isWrite (fun o => (o.responseTime? ev).any (· = t)) os

/-- The room that the initial point leaves for the others. -/
def pointsRoom (sm : AxiSignalMap) (limit : ℕ) : ℕ :=
  if axiPoint sm = .before then limit - 1 else limit

/-- The time is one of the first times at which something changes, as many of them as the
response has room for. -/
def reportedAt (ev : Events) (sm : AxiSignalMap) (direction : String) (limit : ℕ)
    (os : List (Origin × ℕ)) (t : ℕ) : Prop :=
  changesAt ev direction os t = true ∧
    (List.range t).countP (changesAt ev direction os) < pointsRoom sm limit

/-- The reports are the numbers of open transactions, and none of their values is negative. -/
structure OutstandingExact (std : DepthSort) (ev : Events) (sm : AxiSignalMap) (direction : String)
    (limit tBegin : ℕ) (times : List ℕ) (os : List (Origin × ℕ)) : Prop where
  readDepth : (analysisOsd std direction times (numbered ev os)).readDepth =
    times.map (openCount ev direction false os)
  writeDepth : (analysisOsd std direction times (numbered ev os)).writeDepth =
    times.map (openCount ev direction true os)
  points : ∀ point ∈ (outstandingTimeline sm direction limit tBegin times
    (numbered ev os)).changePoints, 0 ≤ point.read ∧ 0 ≤ point.write
  peakRead : 0 ≤ (outstandingTimeline sm direction limit tBegin times (numbered ev os)).peakRead
  peakWrite : 0 ≤ (outstandingTimeline sm direction limit tBegin times (numbered ev os)).peakWrite
  finalRead : 0 ≤ (outstandingTimeline sm direction limit tBegin times (numbered ev os)).finalRead
  finalWrite : 0 ≤ (outstandingTimeline sm direction limit tBegin times (numbered ev os)).finalWrite

/-! ### One direction -/

/-- The reads or the writes of a pair of both. -/
def onSide (isWrite : Bool) (d : ℤ × ℤ) : ℤ := if isWrite then d.2 else d.1

@[simp] lemma onSide_zero (isWrite : Bool) : onSide isWrite 0 = 0 := by cases isWrite <;> rfl

lemma onSide_add (isWrite : Bool) (d d' : ℤ × ℤ) :
    onSide isWrite (d + d') = onSide isWrite d + onSide isWrite d' := by
  cases isWrite <;> rfl

lemma onSide_sum (isWrite : Bool) (l : List (ℤ × ℤ)) :
    onSide isWrite l.sum = (l.map (onSide isWrite)).sum := by
  induction l with
  | nil => simp
  | cons d l ih => rw [List.sum_cons, onSide_add, ih, List.map_cons, List.sum_cons]

lemma onSide_ite (isWrite : Bool) (p : Prop) [Decidable p] (d d' : ℤ × ℤ) :
    onSide isWrite (if p then d else d') =
      if p then onSide isWrite d else onSide isWrite d' := apply_ite _ _ _ _

lemma onSide_sideDelta (side isWrite : Bool) (amount : ℤ) :
    onSide side (sideDelta isWrite amount) = if isWrite = side then amount else 0 := by
  cases side <;> cases isWrite <;> rfl

lemma eq_zero_iff_onSide (d : ℤ × ℤ) : d = 0 ↔ ∀ isWrite, onSide isWrite d = 0 := by
  simp [Prod.ext_iff, onSide]

/-- A transaction as the reports see it. -/
lemma numbered_times (ev : Events) (o : Origin × ℕ) :
    (Origin.numbered ev o).isWrite = o.1.isWrite ∧
      (o.1.addressTime? ev = some (Origin.numbered ev o).startTime ∧ o.1.orphanTime? ev = none ∨
        o.1.addressTime? ev = none ∧ o.1.orphanTime? ev = some (Origin.numbered ev o).startTime ∧
          (Origin.numbered ev o).complete = false) ∧
      o.1.responseTime? ev =
        if (Origin.numbered ev o).complete then some (Origin.numbered ev o).endTime else none := by
  obtain ⟨o, i⟩ := o
  cases o with
  | write aw ws b => cases b <;> exact ⟨rfl, .inl ⟨rfl, rfl⟩, rfl⟩
  | orphan p => exact ⟨rfl, .inr ⟨rfl, rfl, rfl⟩, rfl⟩
  | read ar rs complete => cases complete <;> exact ⟨rfl, .inl ⟨rfl, rfl⟩, rfl⟩

section Counts

variable (ev : Events) (direction : String) (isWrite : Bool)

/-- The numbers of three kinds of transactions add up, if the indicators of each do. -/
lemma sum_eq_countSide {f : Origin × ℕ → ℤ} {p q r : Origin → Bool}
    (hf : ∀ o : Origin × ℕ, f o =
      if selectsSide direction isWrite ∧ o.1.isWrite = isWrite then
        (if p o.1 then 1 else 0) + (if q o.1 then 1 else 0) - (if r o.1 then 1 else 0)
      else 0) (os : List (Origin × ℕ)) :
    (os.map f).sum = (countSide direction isWrite p os : ℤ) + countSide direction isWrite q os -
      countSide direction isWrite r os := by
  induction os with
  | nil => rfl
  | cons o os ih =>
      rw [List.map_cons, List.sum_cons, ih, hf o]
      simp only [countSide, List.countP_cons]
      by_cases hsel : selectsSide direction isWrite ∧ o.1.isWrite = isWrite
      · simp only [hsel.1, hsel.2, decide_true, Bool.and_true, Bool.true_and, if_true,
          and_self]
        split_ifs <;> push_cast <;> ring
      · have hno : (selectsSide direction isWrite && decide (o.1.isWrite = isWrite)) = false := by
          simpa using hsel
        simp [hsel, hno]

lemma onSide_sideDelta_of_ne {isWrite side : Bool} (h : side ≠ isWrite) (amount : ℤ) :
    onSide isWrite (sideDelta side amount) = 0 := by
  rw [onSide_sideDelta, if_neg h]

/-- What a transaction adds to the depth at a time. -/
lemma weightUpTo_transactionEvents (txn : AxiTransaction) (t : ℕ) :
    onSide isWrite (weightUpTo DepthEvent.time DepthEvent.delta (transactionEvents direction txn) t) =
      if selectsSide direction isWrite ∧ txn.isWrite = isWrite then
        if txn.startTime ≤ t ∧ ¬ (txn.complete ∧ txn.endTime ≤ t) then 1 else 0
      else 0 := by
  have hselects : selectsDirection direction txn = selectsSide direction txn.isWrite := rfl
  unfold transactionEvents
  rw [hselects]
  by_cases hside : txn.isWrite = isWrite
  · subst hside
    cases selectsSide direction txn.isWrite with
    | false => simp
    | true =>
        cases hcomplete : txn.complete with
        | false => simp [weightUpTo_cons, onSide_ite, onSide_sideDelta]
        | true =>
            -- `analysis_osd` leaves out what ends no later than it starts
            by_cases hle : txn.endTime ≤ txn.startTime
            · have hno : ¬ (txn.startTime ≤ t ∧ t < txn.endTime) := by omega
              simp [hle, hno]
            · simp only [hle, decide_false, Bool.and_false, Bool.not_true, Bool.false_eq_true,
                if_false, if_true, weightUpTo_cons, weightUpTo_nil, onSide_add, onSide_ite,
                onSide_sideDelta, onSide_zero, true_and, not_le]
              split_ifs <;> omega
  · -- the transaction is on the other side
    have hzero := onSide_sideDelta_of_ne hside
    rw [if_neg fun h : _ ∧ _ => hside h.2, weightUpTo, weightIn, onSide_sum, List.map_map]
    refine List.sum_eq_zero fun x hx => ?_
    obtain ⟨e, he, rfl⟩ := List.mem_map.1 hx
    have he' := (List.mem_filter.1 he).1
    split_ifs at he' <;> simp only [List.mem_cons, List.not_mem_nil, or_false] at he'
    · rcases he' with rfl | rfl <;> exact hzero _
    · subst he'
      exact hzero _

/-- The depth at a time is the number of open transactions and of responses without a write. -/
lemma weightUpTo_depthEvents (os : List (Origin × ℕ)) (t : ℕ) :
    onSide isWrite (weightUpTo DepthEvent.time DepthEvent.delta
        (depthEvents direction (numbered ev os)) t) =
      openCount ev direction isWrite os t + orphanCount ev direction isWrite os t := by
  have hsum : onSide isWrite (weightUpTo DepthEvent.time DepthEvent.delta
      (depthEvents direction (numbered ev os)) t) =
        (os.map fun o => onSide isWrite (weightUpTo DepthEvent.time DepthEvent.delta
          (transactionEvents direction (Origin.numbered ev o)) t)).sum := by
    rw [weightUpTo, depthEvents, weightIn_flatMap, onSide_sum, numbered, List.map_map, List.map_map]
    rfl
  rw [hsum, sum_eq_countSide direction isWrite (p := Origin.openAt ev t)
    (q := fun o => (o.orphanTime? ev).any (· ≤ t)) (r := fun _ => false)]
  · simp [openCount, orphanCount, countSide]
  · intro o
    obtain ⟨hside, hstart, hresponse⟩ := numbered_times ev o
    rw [weightUpTo_transactionEvents, hside, Origin.openAt, hresponse]
    congr 1
    rcases hstart with ⟨ha, ho⟩ | ⟨ha, ho, hcomplete⟩
    · rw [ha, ho]
      cases (Origin.numbered ev o).complete <;> simp
    · rw [ha, ho]
      simp [hcomplete]

/-- What a transaction adds to the changes at the times of interest. -/
lemma totalIn_addTransaction (p : ℕ → Bool) (m : OrderedMap ℕ (ℤ × ℤ)) (txn : AxiTransaction) :
    onSide isWrite (totalIn p (addTransaction direction m txn)) =
      onSide isWrite (totalIn p m) +
        if selectsSide direction isWrite ∧ txn.isWrite = isWrite then
          (if p txn.startTime then 1 else 0) - (if txn.complete ∧ p txn.endTime then 1 else 0)
        else 0 := by
  have hselects : selectsDirection direction txn = selectsSide direction txn.isWrite := rfl
  unfold addTransaction
  rw [hselects]
  by_cases hside : txn.isWrite = isWrite
  · subst hside
    cases selectsSide direction txn.isWrite with
    | false => simp
    | true =>
        cases txn.complete <;>
          simp only [Bool.not_true, Bool.false_eq_true, if_false, if_true, totalIn_bump, onSide_add,
            onSide_ite, onSide_sideDelta, onSide_zero, true_and, false_and, and_self, sub_zero]
        split_ifs <;> ring
  · -- the transaction is on the other side
    have hzero := onSide_sideDelta_of_ne hside
    rw [if_neg fun h : _ ∧ _ => hside h.2]
    cases selectsSide direction txn.isWrite <;> cases txn.complete <;>
      simp only [Bool.not_true, Bool.not_false, Bool.false_eq_true, if_false, if_true, totalIn_bump,
        onSide_add, onSide_ite, hzero, onSide_zero, ite_self, add_zero]

lemma totalIn_timelineDeltas (p : ℕ → Bool) (os : List (Origin × ℕ)) :
    onSide isWrite (totalIn p (timelineDeltas direction (numbered ev os))) =
      (os.map fun o => if selectsSide direction isWrite ∧ o.1.isWrite = isWrite then
        (if p (Origin.numbered ev o).startTime then (1 : ℤ) else 0) -
          (if (Origin.numbered ev o).complete ∧ p (Origin.numbered ev o).endTime then 1 else 0)
        else 0).sum := by
  have hfold : ∀ (os : List (Origin × ℕ)) (m : OrderedMap ℕ (ℤ × ℤ)),
      onSide isWrite (totalIn p ((numbered ev os).foldl (addTransaction direction) m)) =
        onSide isWrite (totalIn p m) +
          (os.map fun o => if selectsSide direction isWrite ∧ o.1.isWrite = isWrite then
            (if p (Origin.numbered ev o).startTime then (1 : ℤ) else 0) -
              (if (Origin.numbered ev o).complete ∧ p (Origin.numbered ev o).endTime then 1 else 0)
            else 0).sum := by
    intro os
    induction os with
    | nil => simp [numbered]
    | cons o os ih =>
        intro m
        have hcons : numbered ev (o :: os) = Origin.numbered ev o :: numbered ev os := rfl
        rw [hcons, List.foldl_cons, ih, totalIn_addTransaction, (numbered_times ev o).1,
          List.map_cons, List.sum_cons, add_assoc]
  rw [timelineDeltas, totalIn_filter p _ fun k w h => by simpa using h, hfold]
  simp

/-- The total up to a time: open transactions and responses without a write, less the early
responses. -/
lemma totalUpTo_timelineDeltas (os : List (Origin × ℕ)) (t : ℕ) :
    onSide isWrite (totalIn (fun t' => t' ≤ t) (timelineDeltas direction (numbered ev os))) =
      openCount ev direction isWrite os t + orphanCount ev direction isWrite os t -
        earlyCount ev direction isWrite os t := by
  rw [totalIn_timelineDeltas, sum_eq_countSide direction isWrite (p := Origin.openAt ev t)
    (q := fun o => (o.orphanTime? ev).any (· ≤ t)) (r := Origin.earlyAt ev t)]
  · rfl
  · intro o
    obtain ⟨-, hstart, hresponse⟩ := numbered_times ev o
    rw [Origin.openAt, Origin.earlyAt, hresponse]
    congr 1
    rcases hstart with ⟨ha, ho⟩ | ⟨ha, ho, hcomplete⟩
    · rw [ha, ho]
      cases (Origin.numbered ev o).complete
      · simp
      · simp only [Option.any_some, Option.any_none, if_true, true_and, decide_eq_true_eq,
          Bool.and_eq_true, Bool.not_eq_true', decide_eq_false_iff_not, Bool.false_eq_true, if_false]
        split_ifs <;> omega
    · rw [ha, ho]
      simp [hcomplete]

/-- The change at a time: what starts there less what ends there. -/
lemma find?_timelineDeltas (os : List (Origin × ℕ)) (t : ℕ) :
    onSide isWrite (((timelineDeltas direction (numbered ev os)).find? t).getD 0) =
      (countSide direction isWrite
          (fun o => (o.addressTime? ev).any (· = t) || (o.orphanTime? ev).any (· = t)) os : ℤ) -
        countSide direction isWrite (fun o => (o.responseTime? ev).any (· = t)) os := by
  rw [← totalIn_eq, totalIn_timelineDeltas, sum_eq_countSide direction isWrite
    (p := fun o => (o.addressTime? ev).any (· = t) || (o.orphanTime? ev).any (· = t))
    (q := fun _ => false) (r := fun o => (o.responseTime? ev).any (· = t))]
  · simp [countSide]
  · intro o
    obtain ⟨-, hstart, hresponse⟩ := numbered_times ev o
    rw [hresponse]
    congr 1
    rcases hstart with ⟨ha, ho⟩ | ⟨ha, ho, hcomplete⟩
    · rw [ha, ho]
      cases (Origin.numbered ev o).complete <;> simp
    · rw [ha, ho]
      simp [hcomplete]

/-- The map has an entry where something changes. -/
lemma find?_timelineDeltas_isSome (os : List (Origin × ℕ)) (t : ℕ) :
    ((timelineDeltas direction (numbered ev os)).find? t).isSome = changesAt ev direction os t := by
  have hside := fun isWrite => find?_timelineDeltas ev direction isWrite os t
  -- entries whose change is zero have been erased
  have hnonzero : ((timelineDeltas direction (numbered ev os)).find? t).isSome = true ↔
      ((timelineDeltas direction (numbered ev os)).find? t).getD 0 ≠ 0 := by
    cases hfind : (timelineDeltas direction (numbered ev os)).find? t with
    | none => simp
    | some d =>
        have hd := ((OrderedMap.find?_filter_eq_some_iff _).1 hfind).2
        simpa using hd
  rw [Bool.eq_iff_iff, hnonzero, Ne, eq_zero_iff_onSide]
  simp only [hside, changesAt, List.any_cons, List.any_nil, Bool.or_false, Bool.or_eq_true,
    decide_eq_true_eq, Bool.forall_bool, sub_eq_zero, Nat.cast_inj]
  tauto

end Counts

/-! ### The depths -/

lemma castUInt64_natCast (n : ℕ) : castUInt64 n = n := by simp [castUInt64]

/-- The depths are the numbers of open transactions and of responses without a write. -/
lemma analysisOsd_depths (std : DepthSort) (ev : Events) (direction : String) {times : List ℕ}
    (htimes : times.Pairwise (· ≤ ·)) (os : List (Origin × ℕ)) :
    (analysisOsd std direction times (numbered ev os)).readDepth = times.map (fun t =>
        openCount ev direction false os t + orphanCount ev direction false os t) ∧
      (analysisOsd std direction times (numbered ev os)).writeDepth = times.map fun t =>
        openCount ev direction true os t + orphanCount ev direction true os t := by
  have hsweep : sweep DepthEvent.time DepthEvent.delta times
      (std.sort (depthEvents direction (numbered ev os))) 0 =
        times.map (weightUpTo DepthEvent.time DepthEvent.delta
          (depthEvents direction (numbered ev os))) := by
    rw [sweep_eq htimes (std.sorted _)]
    refine List.map_congr_left fun t _ => ?_
    rw [zero_add]
    exact weightIn_perm _ (std.perm _)
  have hside : ∀ isWrite, (times.map (weightUpTo DepthEvent.time DepthEvent.delta
      (depthEvents direction (numbered ev os)))).map (fun d => castUInt64 (onSide isWrite d)) =
        times.map fun t => openCount ev direction isWrite os t +
          orphanCount ev direction isWrite os t := by
    intro isWrite
    rw [List.map_map]
    refine List.map_congr_left fun t _ => ?_
    rw [Function.comp_apply, weightUpTo_depthEvents, ← Nat.cast_add, castUInt64_natCast]
  exact ⟨(congrArg _ hsweep).trans (hside false), (congrArg _ hsweep).trans (hside true)⟩

/-- No response without a write is at or before one of the times. -/
def NoOrphanBefore (ev : Events) (direction : String) (times : List ℕ) (os : List (Origin × ℕ)) :
    Prop :=
  selectsSide direction true = true →
    ∀ o ∈ os, ∀ u ∈ o.1.orphanTime? ev, ∀ t ∈ times, t < u

lemma orphanCount_read (ev : Events) (direction : String) (os : List (Origin × ℕ)) (t : ℕ) :
    orphanCount ev direction false os t = 0 := by
  refine List.countP_eq_zero.2 fun o _ => ?_
  obtain ⟨o, i⟩ := o
  cases o <;> simp [Origin.isWrite, Origin.orphanTime?]

lemma orphanCount_write_eq_zero_iff (ev : Events) (direction : String) (os : List (Origin × ℕ))
    (t : ℕ) : orphanCount ev direction true os t = 0 ↔
      (selectsSide direction true = true → ∀ o ∈ os, ∀ u ∈ o.1.orphanTime? ev, t < u) := by
  have hwrite : ∀ (o : Origin) (u : ℕ), u ∈ o.orphanTime? ev → o.isWrite = true := by
    intro o u hu
    cases o with
    | write aw ws b => rfl
    | orphan p => rfl
    | read ar rs complete => cases hu
  rw [orphanCount, countSide, List.countP_eq_zero]
  constructor
  · intro h hsel o ho u hu
    by_contra hle
    refine h o ho ?_
    rw [hsel, hwrite o.1 u hu, Option.mem_def.1 hu]
    simpa using hle
  · intro h o ho hcount
    simp only [Bool.and_eq_true, decide_eq_true_eq] at hcount
    obtain ⟨⟨hsel, -⟩, hany⟩ := hcount
    cases hu : o.1.orphanTime? ev with
    | none => simp [hu] at hany
    | some u =>
        have hle : u ≤ t := by simpa [hu] using hany
        exact absurd (h hsel o ho u hu) (not_lt.2 hle)

lemma depths_exact_iff (std : DepthSort) (ev : Events) (direction : String) {times : List ℕ}
    (htimes : times.Pairwise (· ≤ ·)) (os : List (Origin × ℕ)) :
    ((analysisOsd std direction times (numbered ev os)).readDepth =
        times.map (openCount ev direction false os) ∧
      (analysisOsd std direction times (numbered ev os)).writeDepth =
        times.map (openCount ev direction true os)) ↔ NoOrphanBefore ev direction times os := by
  obtain ⟨hread, hwrite⟩ := analysisOsd_depths std ev direction htimes os
  have hfree : ∀ isWrite, (times.map (fun t => openCount ev direction isWrite os t +
      orphanCount ev direction isWrite os t) = times.map (openCount ev direction isWrite os)) ↔
        ∀ t ∈ times, orphanCount ev direction isWrite os t = 0 := by
    intro isWrite
    rw [List.map_inj_left]
    exact forall₂_congr fun t _ => by omega
  rw [hread, hwrite, hfree, hfree]
  simp only [orphanCount_read, implies_true, true_and, orphanCount_write_eq_zero_iff]
  exact ⟨fun h hsel o ho u hu t ht => h t ht hsel o ho u hu,
    fun h t ht hsel o ho u hu => h hsel o ho u hu t ht⟩

/-! ### The points of the timeline -/

lemma timeline_foldl (limit : ℕ) (entries : List (ℕ × (ℤ × ℤ))) (st : TimelineState) :
    (entries.foldl (timelineStep limit) st).points = st.points ++
        (List.zipWith changePoint (runningTotals Prod.snd st.total entries) entries).take
          (limit - st.points.length) ∧
      (entries.foldl (timelineStep limit) st).total = st.total + (entries.map Prod.snd).sum ∧
      st.peakRead ≤ (entries.foldl (timelineStep limit) st).peakRead ∧
      st.peakWrite ≤ (entries.foldl (timelineStep limit) st).peakWrite := by
  induction entries generalizing st with
  | nil => simp [runningTotals]
  | cons item entries ih =>
      obtain ⟨hpoints, htotal, hread, hwrite⟩ := ih (timelineStep limit st item)
      rw [List.foldl_cons]
      refine ⟨?_, ?_, le_trans ?_ hread, le_trans ?_ hwrite⟩
      · rw [hpoints, runningTotals, List.zipWith_cons_cons]
        simp only [timelineStep]
        split_ifs with hroom
        · -- the point is the first of those there is room for
          obtain ⟨k, hk⟩ : ∃ k, limit - st.points.length = k + 1 := ⟨limit - st.points.length - 1,
            by omega⟩
          rw [List.length_append, List.length_singleton, Nat.sub_add_eq, hk, List.append_assoc,
            Nat.add_sub_cancel, List.take_succ_cons, List.singleton_append]
        · rw [Nat.sub_eq_zero_of_le (not_lt.1 hroom), List.take_zero, List.take_zero]
      · rw [htotal, List.map_cons, List.sum_cons, timelineStep]
        exact add_assoc _ _ _
      · simp only [timelineStep]
        split_ifs with h
        · exact le_of_lt h
        · exact le_rfl
      · simp only [timelineStep]
        split_ifs with h
        · exact le_of_lt h
        · exact le_rfl

/-- The reported entries of the map and the totals behind them. -/
lemma mem_changePoints {sm : AxiSignalMap} {direction : String} {limit tBegin : ℕ}
    {times : List ℕ} {transactions : List AxiTransaction} {point : ChangePoint} :
    point ∈ (outstandingTimeline sm direction limit tBegin times transactions).changePoints ↔
      point ∈ initialPoints sm limit (times.headD tBegin) (timelineDeltas direction transactions) ∨
      ∃ e ∈ (timelineDeltas direction transactions).entries.take (pointsRoom sm limit),
        point = changePoint
          (totalIn (fun t => t ≤ e.1) (timelineDeltas direction transactions)) e := by
  set deltas := timelineDeltas direction transactions with hdeltas
  -- the initial point takes one place of the limit
  have hroom : deltas.entries ≠ [] →
      limit - (initialPoints sm limit (times.headD tBegin) deltas).length = pointsRoom sm limit := by
    intro hne
    have hempty : deltas.entries.isEmpty = false := by simpa using hne
    simp only [initialPoints, includesInitialPoint, hempty, pointsRoom, Bool.not_false,
      Bool.and_true, Bool.and_eq_true, decide_eq_true_eq]
    by_cases hbefore : axiPoint sm = .before <;> by_cases hlimit : 0 < limit
    · simp [hbefore, hlimit]
    · simp [hbefore, hlimit]
      omega
    · simp [hbefore]
    · simp [hbefore]
  have hpoints : (outstandingTimeline sm direction limit tBegin times transactions).changePoints =
      initialPoints sm limit (times.headD tBegin) deltas ++
        (List.zipWith changePoint (runningTotals Prod.snd 0 deltas.entries) deltas.entries).take
          (limit - (initialPoints sm limit (times.headD tBegin) deltas).length) :=
    (timeline_foldl limit deltas.entries _).1
  have htotals : List.zipWith changePoint (runningTotals Prod.snd 0 deltas.entries) deltas.entries =
      deltas.entries.map fun e => changePoint (totalIn (fun t => t ≤ e.1) deltas) e := by
    rw [runningTotals_eq deltas.sorted, List.zipWith_map_left, List.zipWith_self]
    refine List.map_congr_left fun e _ => ?_
    rw [zero_add]
    rfl
  rw [hpoints, htotals, List.mem_append, ← List.map_take, List.mem_map]
  by_cases hne : deltas.entries = []
  · simp [hne]
  · rw [hroom hne]
    simp only [eq_comm]

lemma mem_initialPoints {sm : AxiSignalMap} {limit time : ℕ} {deltas : OrderedMap ℕ (ℤ × ℤ)}
    {point : ChangePoint} (h : point ∈ initialPoints sm limit time deltas) :
    point.read = 0 ∧ point.write = 0 := by
  unfold initialPoints at h
  split_ifs at h
  · obtain rfl := List.mem_singleton.1 h
    exact ⟨rfl, rfl⟩
  · simp at h

/-- The points are not negative exactly if no reported time has more early responses than open
transactions and responses without a write. -/
lemma points_nonneg_iff (ev : Events) (sm : AxiSignalMap) (direction : String)
    (limit tBegin : ℕ) (times : List ℕ) (os : List (Origin × ℕ)) :
    (∀ point ∈ (outstandingTimeline sm direction limit tBegin times
        (numbered ev os)).changePoints, 0 ≤ point.read ∧ 0 ≤ point.write) ↔
      ∀ t, reportedAt ev sm direction limit os t → ∀ isWrite,
        earlyCount ev direction isWrite os t ≤
          openCount ev direction isWrite os t + orphanCount ev direction isWrite os t := by
  have hvalue : ∀ t, (∀ isWrite, earlyCount ev direction isWrite os t ≤
      openCount ev direction isWrite os t + orphanCount ev direction isWrite os t) ↔
        0 ≤ (totalIn (fun t' => t' ≤ t) (timelineDeltas direction (numbered ev os))).1 ∧
        0 ≤ (totalIn (fun t' => t' ≤ t) (timelineDeltas direction (numbered ev os))).2 := by
    intro t
    have hread := totalUpTo_timelineDeltas ev direction false os t
    have hwrite := totalUpTo_timelineDeltas ev direction true os t
    simp only [onSide, Bool.false_eq_true, if_false, if_true] at hread hwrite
    rw [hread, hwrite, Bool.forall_bool]
    omega
  have hreported : ∀ e : ℕ × (ℤ × ℤ),
      e ∈ (timelineDeltas direction (numbered ev os)).entries.take (pointsRoom sm limit) ↔
        (timelineDeltas direction (numbered ev os)).find? e.1 = some e.2 ∧
          reportedAt ev sm direction limit os e.1 := by
    intro e
    rw [mem_take_entries_iff, OrderedMap.mem_entries_iff, reportedAt,
      ← find?_timelineDeltas_isSome]
    simp only [find?_timelineDeltas_isSome]
    refine and_congr_right fun hfind => ?_
    rw [← find?_timelineDeltas_isSome, hfind]
    simp
  constructor
  · intro h t ht
    rw [hvalue]
    have hsome := ht.1
    rw [← find?_timelineDeltas_isSome, Option.isSome_iff_exists] at hsome
    obtain ⟨d, hd⟩ := hsome
    exact h _ (mem_changePoints.2 (.inr ⟨(t, d), (hreported (t, d)).2 ⟨hd, ht⟩, rfl⟩))
  · intro h point hpoint
    rcases mem_changePoints.1 hpoint with hinit | ⟨e, he, rfl⟩
    · -- the initial point is zero
      rw [(mem_initialPoints hinit).1, (mem_initialPoints hinit).2]
      exact ⟨le_rfl, le_rfl⟩
    · exact (hvalue e.1).1 (h e.1 ((hreported e).1 he).2)

/-- The final values count the incomplete transactions. -/
lemma final_nonneg (ev : Events) (sm : AxiSignalMap) (direction : String) (limit tBegin : ℕ)
    (times : List ℕ) (os : List (Origin × ℕ)) :
    0 ≤ (outstandingTimeline sm direction limit tBegin times (numbered ev os)).finalRead ∧
      0 ≤ (outstandingTimeline sm direction limit tBegin times (numbered ev os)).finalWrite := by
  have hside : ∀ isWrite,
      0 ≤ onSide isWrite (totalIn (fun _ => true) (timelineDeltas direction (numbered ev os))) := by
    intro isWrite
    rw [totalIn_timelineDeltas]
    refine List.sum_nonneg fun x hx => ?_
    obtain ⟨o, -, rfl⟩ := List.mem_map.1 hx
    simp only [if_true, and_true]
    split_ifs <;> omega
  have htotal : totalIn (fun _ => true) (timelineDeltas direction (numbered ev os)) =
      ((timelineDeltas direction (numbered ev os)).entries.map Prod.snd).sum := by
    rw [totalIn, weightIn, List.filter_eq_self.2 fun _ _ => rfl]
  rw [htotal] at hside
  have hfinal : ∀ st : TimelineState, st.total = 0 →
      ((timelineDeltas direction (numbered ev os)).entries.foldl (timelineStep limit) st).total =
        ((timelineDeltas direction (numbered ev os)).entries.map Prod.snd).sum := by
    intro st hst
    rw [(timeline_foldl limit _ st).2.1, hst, zero_add]
  unfold outstandingTimeline
  simp only [hfinal]
  exact ⟨hside false, hside true⟩

lemma activeTimes_sorted (wf : Backend) (sm : AxiSignalMap) (loaded : Loaded) (tBegin tEnd : ℕ) :
    (activeTimes wf sm loaded tBegin tEnd).Pairwise (· ≤ ·) := by
  obtain ⟨hsorted, hlt⟩ := activeEdges_spec wf sm loaded tBegin tEnd
  refine List.pairwise_map.2 (hsorted.imp_of_mem fun ha hb hab => ?_)
  exact Backend.timeAt_le_of_le hab.le (hlt _ hb)

/-- The reports are the numbers of open transactions, and never negative, exactly if no response
without a write is at or before an active edge, and no reported time of the timeline has more early
responses than open transactions and responses without a write. -/
theorem outstandingExact_iff (std : DepthSort) (ev : Events) (wf : Backend) (sm : AxiSignalMap)
    (loaded : Loaded) (direction : String) (limit tBegin tEnd : ℕ) (os : List (Origin × ℕ)) :
    OutstandingExact std ev sm direction limit tBegin (activeTimes wf sm loaded tBegin tEnd) os ↔
      NoOrphanBefore ev direction (activeTimes wf sm loaded tBegin tEnd) os ∧
      ∀ t, reportedAt ev sm direction limit os t → ∀ isWrite,
        earlyCount ev direction isWrite os t ≤
          openCount ev direction isWrite os t + orphanCount ev direction isWrite os t := by
  have htimes := activeTimes_sorted wf sm loaded tBegin tEnd
  rw [← depths_exact_iff std ev direction htimes os,
    ← points_nonneg_iff ev sm direction limit tBegin (activeTimes wf sm loaded tBegin tEnd) os]
  constructor
  · intro h
    exact ⟨⟨h.readDepth, h.writeDepth⟩, h.points⟩
  · rintro ⟨⟨hread, hwrite⟩, hpoints⟩
    obtain ⟨hfinalRead, hfinalWrite⟩ := final_nonneg ev sm direction limit tBegin
      (activeTimes wf sm loaded tBegin tEnd) os
    exact ⟨hread, hwrite, hpoints, (timeline_foldl limit _ _).2.2.1, (timeline_foldl limit _ _).2.2.2,
      hfinalRead, hfinalWrite⟩

/-- A sort by insertion. -/
def depthInsertionSort : DepthSort where
  sort l := l.insertionSort fun a b => a.time ≤ b.time
  perm l := List.perm_insertionSort _ _
  sorted l := by
    have : Std.Total fun a b : DepthEvent => a.time ≤ b.time := ⟨fun a b => le_total _ _⟩
    have : IsTrans DepthEvent fun a b => a.time ≤ b.time := ⟨fun a b c => le_trans⟩
    exact List.pairwise_insertionSort _ _

/-- A bus on which a response is accepted and no address is. -/
def orphanConfig : AxiSignalMap := { earlyConfig with awvalid := "zero", wvalid := "zero" }

/-- The response at 5. -/
def orphanEvents : Events where
  aw := []
  w := []
  b := [{ channel := .b, time := 5, timeIdx := 1, validBeginTime := 5, id := "0", resp := "0" }]
  ar := []
  r := []

/-- The transactions of a scan, if it has a result. -/
def scannedTransactions : Except AxiScanError AxiScanResult → List AxiTransaction
  | .ok result => result.transactions
  | .error _ => []

/-- The scan finds the response only, and the depth of the writes is one although no write is
open. -/
theorem orphanConfig_not_outstandingExact :
    scannedTransactions (scanAxi insertionSort earlyWave orphanConfig 0 [] 0 15) =
        numbered orphanEvents [(.orphan 0, 0)] ∧
      ¬ OutstandingExact depthInsertionSort orphanEvents orphanConfig "all" 1000 0
        (activeTimes earlyWave orphanConfig (controlLoaded earlyWave orphanConfig []) 0 15)
        [(.orphan 0, 0)] := by
  refine ⟨by decide +kernel, fun h => ?_⟩
  have hedge : 15 ∈ activeTimes earlyWave orphanConfig
      (controlLoaded earlyWave orphanConfig []) 0 15 := by decide +kernel
  have hfree := (depths_exact_iff _ _ _ (activeTimes_sorted _ _ _ _ _) _).1
    ⟨h.readDepth, h.writeDepth⟩
  have hlt := hfree rfl _ (List.mem_singleton_self _) 5 rfl 15 hedge
  omega

end XdebugFst.Axi
