import XdebugFst.Trace.Projection
import Mathlib.Order.Interval.Set.Basic

/-!
# When a statement was executed

The waveform records changes of values, but a clocked assignment is
executed at every edge of its clock. The driver chain dates a hop by the
last edge, goes back over edges at which a register only held its value,
looks through continuous aliases for the edge behind them, and moves to
the next edge, or back to the last change, where two simulators order
the same time slot differently.

Every one of these times is the time of a change in the waveform and
lies at or before the horizon it is searched with.
-/

namespace XdebugFst.Trace

open Lib Waveform

/-- A record of the statement is a clock event. -/
def StatementGroup.isEventDriven (statement : StatementGroup) : Bool :=
  statement.records.any fun record => hasStart record.dependencyRole "event_"

/-- `is_pure_self_hold`: a register is assigned nothing but itself. -/
def isPureSelfHold (targetSignal : ℤ) (statement : StatementGroup) : Bool :=
  statement.kind = "nba" ∧ statement.rhs = [] ∧ statement.records.any fun record =>
    record.dependencyRole = "self_rhs" ∧ record.srcSignal = targetSignal

/-- The last event of statements that all have one. -/
def lastEvent (statements : List StatementGroup) : Option ℕ :=
  if statements.all (·.eventTime.isSome) then (statements.filterMap (·.eventTime)).max? else none

/-- Where `causal_event_time_through_unique_chain` stands after one signal. -/
inductive CausalStep
  | answer (eventTime : Option ℕ)
  | through (upstream : String)

/-- `NativeCandidateChange`. -/
structure NativeCandidateChange where
  candidateCount : ℕ
  sampledCount : ℕ
  /-- The positions of the candidates that changed. -/
  changed : List ℕ

/-- What the search for boundaries carries. -/
structure BoundaryScan where
  remaining : ℕ
  visited : List ℤ := []
  boundaries : List StatementGroup := []

namespace Session

variable (session : Session)

/-! ### Initialisation -/

/-- `suppress_initialization_only_event_evidence`: at the start of the waveform nothing was
clocked yet. Also whether something was set aside. -/
def suppressInitializationOnlyEventEvidence (statements : EvaluatedStatements) (target : Sample) :
    EvaluatedStatements × Bool :=
  if target.activeTime ≠ session.waveform.minTime ∨ target.queryTime ≤ target.activeTime then
    (statements, false)
  else
    let kept : EvaluatedStatements :=
      { active := statements.active.filter fun statement => !statement.isEventDriven
        unresolved := statements.unresolved.filter fun statement => !statement.isEventDriven }
    (kept, statements.active.length + statements.unresolved.length ≠
      kept.active.length + kept.unresolved.length)

/-! ### Holding registers -/

/-- The statements at a horizon, with a single non-blocking assignment first. -/
def prioritizedGroups (drivers : List DriverRecord) (activeTime eventHorizon : ℕ) :
    EvaluatedStatements :=
  applyUniqueNbaPriority (session.activeStatementGroups drivers activeTime eventHorizon)

/-- The backtracking loop: as long as the register only held its value, the horizon moves
before the edge. The first argument is the number of attempts left. -/
def selfHoldLoop (drivers : List DriverRecord) (targetSignal : ℤ) (activeTime : ℕ)
    (original : EvaluatedStatements) : ℕ → EvaluatedStatements → EvaluatedStatements × Bool
  | 0, current =>
      if current.unresolved ≠ [] ∨ current.active = [] ∨
          !current.active.all (isPureSelfHold targetSignal) then (current, false)
      else (original, true)
  | attempts + 1, current =>
      if current.unresolved ≠ [] ∨ current.active = [] ∨
          !current.active.all (isPureSelfHold targetSignal) then (current, false)
      else
        match lastEvent current.active with
        | none => (original, false)
        | some 0 => (original, false)
        | some (before + 1) =>
            selfHoldLoop drivers targetSignal activeTime original attempts
              (session.prioritizedGroups drivers activeTime before)

/-- `active_statement_groups_skipping_self_hold`. Also whether the attempts ran out. -/
def activeStatementGroupsSkippingSelfHold (drivers : List DriverRecord) (targetSignal : ℤ)
    (activeTime eventHorizon maxBacktracks : ℕ) : EvaluatedStatements × Bool :=
  let original := session.prioritizedGroups drivers activeTime eventHorizon
  session.selfHoldLoop drivers targetSignal activeTime original maxBacktracks original

/-! ### Continuous aliases -/

/-- One signal of `causal_event_time_through_unique_chain`. -/
def causalStep (signal : String) (horizon remaining : ℕ) : CausalStep :=
  let index := session.design.resolve signal
  let sample := sampleAt session.waveform signal horizon
  if index < 0 ∨ sample.ok = false then .answer none
  else
    let drivers := session.annotateOutputInstanceIdentities index (session.driversFor index)
    let evaluated := (session.activeStatementGroupsSkippingSelfHold drivers index sample.activeTime
      horizon remaining).1
    match evaluated.unresolved, evaluated.active with
    | [], [statement] =>
        if statement.kind = "nba" ∧ statement.eventTime.isSome then .answer statement.eventTime
        else
          match statement.rhs with
          | [rhs] =>
              let upstream := session.design.signalName rhs.srcSignal
              if statement.kind ≠ "cont_assign" ∨ upstream = "" ∨ upstream = signal then .answer none
              else .through upstream
          | _ => .answer none
    | _, _ => .answer none

/-- `causal_event_time_through_unique_chain`. The first argument is the number of signals that
may still be looked at. -/
def causalEventTime (horizon : ℕ) : ℕ → List String → String → Option ℕ
  | 0, _, _ => none
  | remaining + 1, visited, signal =>
      if signal ∈ visited then none
      else
        match session.causalStep signal horizon (remaining + 1) with
        | .answer eventTime => eventTime
        | .through upstream => causalEventTime horizon remaining (signal :: visited) upstream

/-! ### Races in one time slot -/

/-- `has_collapsed_array_propagation_stage`: an element feeds another one of its array. -/
def hasCollapsedArrayPropagationStage (source : ℤ) : Bool :=
  let sourceName := session.design.signalName source
  0 ≤ source ∧ sourceName ≠ "" ∧ (session.design.traceLoad source).any fun load =>
    let consumer := session.design.signalName load.consumer
    0 ≤ load.consumer ∧ consumer ≠ "" ∧ selectorBaseName consumer = selectorBaseName sourceName

/-- `duplicate_top_waveform_name`. -/
def duplicateTopWaveformName (designSignal requestedRoot : String) : String :=
  if session.isSampleable designSignal then designSignal
  else
    let projected := publicSignalName designSignal requestedRoot true
    if session.isSampleable projected then projected else ""

/-- The signal changed at the time of the event. -/
def changedAtEvent (requestedRoot : String) (eventTime : ℕ) (candidate : String) : Bool :=
  let source := session.duplicateTopWaveformName candidate requestedRoot
  let sample := sampleAt session.waveform source eventTime
  source ≠ "" ∧ sample.ok ∧ sample.activeTime = eventTime

/-- The last element of an array changed at the time of the event. -/
def lastElementChanged (requestedRoot : String) (eventTime : ℕ) (base : String) : Bool :=
  match session.index.lastMaterializedSelector base with
  | some last =>
      session.changedAtEvent requestedRoot eventTime (base ++ "[" ++ toString last ++ "]") ||
        session.changedAtEvent requestedRoot eventTime
          (base ++ "__bra__" ++ toString last ++ "__ket__")
  | none => false

/-- `has_same_slot_array_propagation_race_source`. -/
def hasSameSlotArrayPropagationRaceSource (statement : StatementGroup) (requestedRoot : String)
    (eventTime : ℕ) : Bool :=
  statement.rhs.any fun driver =>
    let designSource := session.design.signalName driver.srcSignal
    session.hasCollapsedArrayPropagationStage driver.srcSignal ∧
      (session.changedAtEvent requestedRoot eventTime designSource ∨
        session.lastElementChanged requestedRoot eventTime (selectorBaseName designSource))

/-- The first event of one record after a time and up to the horizon. -/
def nextRecordEvent (requestedRoot : String) (after horizon : ℕ) (record : DriverRecord) :
    Option ℕ :=
  let ref := session.waveform.findSignal
    (session.duplicateTopWaveformName (session.design.signalName record.srcSignal) requestedRoot)
  if isEventRecord record ∧ session.canLoad ref then
    (((session.waveform.timeIndicesOf ref).takeWhile fun idx =>
        idx ≤ session.waveform.timeIdxOf horizon ∧ session.waveform.timeAt idx ≤ horizon).find?
      fun idx => after < session.waveform.timeAt idx ∧
        session.edgeAt ref record.dependencyRole idx).map session.waveform.timeAt
  else none

/-- `next_statement_event_time`. -/
def nextStatementEventTime (statement : StatementGroup) (requestedRoot : String)
    (after horizon : ℕ) : Option ℕ :=
  (statement.records.filterMap (session.nextRecordEvent requestedRoot after horizon)).min?

/-- The assignments of a signal that race in the time slot. -/
def raceBoundaries (signal : ℤ) (requestedRoot : String) (eventTime : ℕ) : List StatementGroup :=
  (session.prioritizedGroups (session.driversFor signal) eventTime eventTime).active.filter
    fun statement => statement.kind = "nba" ∧ statement.eventTime = some eventTime ∧
      session.hasSameSlotArrayPropagationRaceSource statement requestedRoot eventTime

/-- A signal is looked at. -/
def enterBoundary (requestedRoot : String) (eventTime : ℕ) (scan : BoundaryScan) (signal : ℤ) :
    BoundaryScan where
  remaining := scan.remaining - 1
  visited := signal :: scan.visited
  boundaries := scan.boundaries ++ session.raceBoundaries signal requestedRoot eventTime

/-- The continuous sources of a signal. -/
def continuousSources (signal : ℤ) : List ℤ :=
  ((session.driversFor signal).filter fun driver => driver.kind = "cont_assign" ∧
    driver.dependencyRole = "rhs" ∧ 0 ≤ driver.srcSignal).map (·.srcSignal)

/-- `collect_same_slot_nba_boundaries`, nothing when it fails. The first argument bounds the
depth of the recursion; `remaining` falls with it, so the source fails where it runs out. -/
def collectSameSlotNbaBoundaries (requestedRoot : String) (eventTime : ℕ) :
    ℕ → BoundaryScan → ℤ → Option BoundaryScan
  | 0, scan, signal => if signal < 0 ∨ signal ∈ scan.visited then some scan else none
  | fuel + 1, scan, signal =>
      if signal < 0 ∨ signal ∈ scan.visited then some scan
      else if scan.remaining = 0 then none
      else (session.continuousSources signal).foldlM
        (fun scan source => collectSameSlotNbaBoundaries requestedRoot eventTime fuel scan source)
        (session.enterBoundary requestedRoot eventTime scan signal)

/-- `sample_before_transition`. -/
def sampleBeforeTransition (signal : String) (transition queryTime : ℕ) : Option Sample :=
  let ref := session.waveform.findSignal signal
  if ref = Backend.kInvalidSignalRef then none
  else
    let before := ((session.waveform.timeIndicesOf ref).map session.waveform.timeAt).takeWhile
      (· < transition)
    if before = [] ∧ transition ≤ session.waveform.minTime then none
    else
      let previous := sampleAt session.waveform signal (before.getLastD session.waveform.minTime)
      if previous.ok then some { previous with queryTime := queryTime } else none

/-- `project_duplicate_top_same_slot_nba_race`: the sample at the next edge, or else at the
change before, when one assignment races. -/
def projectDuplicateTopSameSlotNbaRace (rootIndex : ℤ) (root : String) (queryTime maxNodes : ℕ)
    (sample : Sample) : Sample :=
  if sample.ok = false ∨ sample.activeTime > queryTime then sample
  else
    match session.collectSameSlotNbaBoundaries root sample.activeTime maxNodes
        { remaining := maxNodes } rootIndex with
    | none => sample
    | some scan =>
        match scan.boundaries with
        | [boundary] =>
            match session.nextStatementEventTime boundary root sample.activeTime queryTime with
            | some nextEvent => { sample with activeTime := nextEvent }
            | none =>
                (session.sampleBeforeTransition root sample.activeTime sample.queryTime).getD sample
        | _ => sample

/-! ### Candidates -/

/-- `sample_before`: the sample at the last change before a time. -/
def sampleBefore (signal : String) (time : ℕ) : Sample :=
  let ref := session.waveform.findSignal signal
  if ref = Backend.kInvalidSignalRef then {}
  else
    match ((session.waveform.timeIndicesOf ref).reverse.map session.waveform.timeAt).find?
        (· < time) with
    | some candidateTime => sampleAt session.waveform signal candidateTime
    | none => {}

/-- `driver_source_name`. -/
def driverSourceName (driver : DriverRecord) : String :=
  let source := session.design.signalName driver.srcSignal
  let leaf := leafName (session.design.signalName driver.rhsSelectorSignal)
  match driver.rhsNumericSelector with
  | some selector => if source ≠ "" then source ++ "[" ++ toString selector ++ "]" else source
  | none =>
      if 0 ≤ driver.rhsSelectorSignal ∧ source ≠ "" ∧ leaf ≠ "" then source ++ "[" ++ leaf ++ "]"
      else source

/-- The values of a candidate before and after a time, when both are known. -/
def candidateChange (requestedRoot : String) (evidenceTime : ℕ) (driver : DriverRecord) :
    Option Bool :=
  let source := publicSignalName (session.driverSourceName driver) requestedRoot true
  let before := session.sampleBefore source evidenceTime
  let after := sampleAt session.waveform source evidenceTime
  if before.ok ∧ after.ok then some (before.bits ≠ after.bits) else none

/-- `native_candidate_changes`. -/
def nativeCandidateChanges (group : StatementGroup) (requestedRoot : String)
    (evidenceTime : ℕ) : NativeCandidateChange :=
  let changes := group.rhs.map (session.candidateChange requestedRoot evidenceTime)
  { candidateCount := group.rhs.length
    sampledCount := changes.countP Option.isSome
    changed := (List.range changes.length).filter fun i => changes[i]? = some (some true) }

/-- Statements in the order of one file. -/
def inSourceOrder : List StatementGroup → Bool
  | first :: second :: rest =>
      first.file = second.file ∧ first.line < second.line ∧ inSourceOrder (second :: rest)
  | _ => true

/-- `select_native_statement_input`: the statement of a stimulus whose statements and changes
are one to one. -/
def selectNativeStatementInput (drivers : List DriverRecord) (sample : Sample) :
    Option StatementGroup :=
  let statements := statementGroups drivers
  let changes := (session.waveform.timeIndicesOf sample.ref).map session.waveform.timeAt
  if drivers = [] ∨ !drivers.all (fun driver => driver.srcSignal < 0 ∧
        driver.kind = "proc_assign" ∧ driver.dependencyRole = "statement") ∨
      statements = [] ∨ !statements.all (fun statement => statement.rhs = [] ∧
        statement.records ≠ []) ∨
      !inSourceOrder statements ∨ changes.length ≠ statements.length ∨
      ¬ changes.IsChain (· < ·) then none
  else (changes.findIdx? (· = sample.activeTime)).bind fun position => statements[position]?

end Session

/-! ### Bounds

A time of the waveform up to a bound is one in `Set.Icc minTime bound`: the driver chain also
needs the lower end, because a sample at a time before the start is not at or before it. -/

section Bounds

variable {session : Session} {horizon t : ℕ}

/-- The events of statements are times of the waveform up to a bound. -/
def EventsWithin (session : Session) (bound : ℕ) (statements : List StatementGroup) : Prop :=
  ∀ s ∈ statements, ∀ t ∈ s.eventTime, t ∈ Set.Icc session.waveform.minTime bound

lemma EventsWithin.mono {bound bound' : ℕ} {statements : List StatementGroup}
    (h : EventsWithin session bound statements) (hle : bound ≤ bound') :
    EventsWithin session bound' statements :=
  fun s hs t ht => Set.Icc_subset_Icc_right hle (h s hs t ht)

lemma EventsWithin.subset {bound : ℕ} {statements statements' : List StatementGroup}
    (h : EventsWithin session bound statements) (hsub : statements' ⊆ statements) :
    EventsWithin session bound statements' :=
  fun s hs => h s (hsub hs)

/-- The statements may change otherwise, as long as their events stay. -/
lemma EventsWithin.map {bound : ℕ} {statements : List StatementGroup}
    {f : StatementGroup → StatementGroup} (h : EventsWithin session bound statements)
    (hf : ∀ s, (f s).eventTime = s.eventTime) : EventsWithin session bound (statements.map f) := by
  intro s hs t ht
  obtain ⟨s', hs', rfl⟩ := List.mem_map.1 hs
  rw [hf] at ht
  exact h s' hs' t ht

lemma minTime_le_timeAt {idx : ℕ} (h : idx < session.waveform.timeTable.length) :
    session.waveform.minTime ≤ session.waveform.timeAt idx :=
  Backend.minTime_eq_timeAt_zero.trans_le (Backend.timeAt_le_of_le (Nat.zero_le idx) h)

/-- A signal is sampled at its last change, which is at or before the time asked for. -/
lemma activeTime_mem_Icc {signal : String} {time : ℕ}
    (hok : (sampleAt session.waveform signal time).ok = true)
    (hmin : session.waveform.minTime ≤ time) :
    (sampleAt session.waveform signal time).activeTime ∈ Set.Icc session.waveform.minTime time := by
  unfold sampleAt at hok ⊢
  dsimp only at hok ⊢
  split_ifs at hok ⊢
  cases hoff : session.waveform.signalOffsetAt (session.waveform.findSignal signal)
      (session.waveform.timeIdxOf time) with
  | none => simp [hoff] at hok
  | some offset =>
      -- something was read, so the signal has a change and the waveform has a time
      obtain ⟨g, hg, -⟩ := @readAt_eq session.waveform (session.waveform.findSignal signal)
        (session.waveform.timeIdxOf time) _ (by rw [readAt, hoff]; rfl)
      have hne : session.waveform.timeTable ≠ [] := List.ne_nil_of_length_pos
        (Nat.zero_lt_of_lt (Backend.timeIndicesOf_lt hg.1))
      have hidx := Backend.timeIdxOf_lt hne time
      have htime := Backend.timeAt_timeIdxOf_le hne hmin
      show previousChangeTime _ _ _ _ ∈ _
      unfold previousChangeTime
      cases hfind : (session.waveform.timeIndicesOf (session.waveform.findSignal signal)).reverse.find?
          (· ≤ session.waveform.timeIdxOf time) with
      | none => exact ⟨minTime_le_timeAt hidx, htime⟩
      | some idx =>
          have hle : idx ≤ session.waveform.timeIdxOf time := by
            simpa using List.find?_some hfind
          exact ⟨minTime_le_timeAt (hle.trans_lt hidx),
            (Backend.timeAt_le_of_le hle hidx).trans htime⟩

/-- The last event of a statement is at or before the horizon. -/
lemma latestStatementEventTime_mem_Icc {statement : StatementGroup}
    (h : session.latestStatementEventTime statement horizon = some t) :
    t ∈ Set.Icc session.waveform.minTime horizon := by
  obtain ⟨record, -, hrecord⟩ := List.mem_filterMap.1 (List.max?_mem h)
  unfold Session.lastRecordEvent at hrecord
  dsimp only at hrecord
  split_ifs at hrecord
  obtain ⟨idx, hfind, rfl⟩ := Option.map_eq_some_iff.1 hrecord
  have hmem := List.mem_reverse.1 (List.mem_of_find?_eq_some hfind)
  have hidx := List.find?_some hfind
  simp only [decide_eq_true_eq] at hidx
  exact ⟨minTime_le_timeAt (Backend.timeIndicesOf_lt hmem), hidx.2.1⟩

/-- The next event of a statement is after a time and at or before the horizon. -/
lemma nextStatementEventTime_mem_Icc {statement : StatementGroup} {root : String} {after : ℕ}
    (h : session.nextStatementEventTime statement root after horizon = some t) :
    t ∈ Set.Icc session.waveform.minTime horizon := by
  obtain ⟨record, -, hrecord⟩ := List.mem_filterMap.1 (List.min?_mem h)
  unfold Session.nextRecordEvent at hrecord
  dsimp only at hrecord
  split_ifs at hrecord
  obtain ⟨idx, hfind, rfl⟩ := Option.map_eq_some_iff.1 hrecord
  have hmem := List.mem_of_find?_eq_some hfind
  have hidx := List.mem_takeWhile_imp hmem
  simp only [decide_eq_true_eq] at hidx
  exact ⟨minTime_le_timeAt (Backend.timeIndicesOf_lt (List.takeWhile_subset _ hmem)), hidx.2⟩

/-- The events of active statements are at or before the horizon. -/
lemma eventsWithin_activeStatementGroups (drivers : List DriverRecord) (activeTime : ℕ) :
    EventsWithin session horizon
      (session.activeStatementGroups drivers activeTime horizon).active := by
  intro s hs t ht
  obtain ⟨g, hg, rfl, -⟩ := mem_active hs
  unfold Session.withEventTime at ht
  split_ifs at ht
  · exact latestStatementEventTime_mem_Icc ht
  · -- without a horizon no events are looked for
    rw [eventTime_of_mem hg] at ht
    exact absurd ht (by simp)

lemma eventsWithin_prioritizedGroups (drivers : List DriverRecord) (activeTime : ℕ) :
    EventsWithin session horizon
      (session.prioritizedGroups drivers activeTime horizon).active :=
  (eventsWithin_activeStatementGroups drivers activeTime).subset
    fun _ hs => mem_of_mem_applyUniqueNbaPriority.1 hs

lemma lastEvent_mem_Icc {statements : List StatementGroup}
    (h : EventsWithin session horizon statements) (ht : lastEvent statements = some t) :
    t ∈ Set.Icc session.waveform.minTime horizon := by
  unfold lastEvent at ht
  split_ifs at ht
  obtain ⟨s, hs, hst⟩ := List.mem_filterMap.1 (List.max?_mem ht)
  exact h s hs t hst

/-- Going back over edges keeps the events at or before the horizon: each attempt looks before
an event of the last one. -/
lemma eventsWithin_selfHoldLoop {drivers : List DriverRecord} {target : ℤ} {activeTime : ℕ}
    {original : EvaluatedStatements} (horiginal : EventsWithin session horizon original.active)
    (attempts : ℕ) {current : EvaluatedStatements}
    (h : EventsWithin session horizon current.active) :
    EventsWithin session horizon
      (session.selfHoldLoop drivers target activeTime original attempts current).1.active := by
  induction attempts generalizing current with
  | zero =>
      unfold Session.selfHoldLoop
      split_ifs
      · exact h
      · exact horiginal
  | succ attempts ih =>
      unfold Session.selfHoldLoop
      split_ifs
      · exact h
      · cases hlast : lastEvent current.active with
        | none => exact horiginal
        | some last =>
            cases last with
            | zero => exact horiginal
            | succ before =>
                have hle := (lastEvent_mem_Icc h hlast).2
                exact ih ((eventsWithin_prioritizedGroups drivers activeTime).mono (by omega))

lemma eventsWithin_skippingSelfHold (drivers : List DriverRecord) (target : ℤ)
    (activeTime maxBacktracks : ℕ) :
    EventsWithin session horizon (session.activeStatementGroupsSkippingSelfHold drivers target
      activeTime horizon maxBacktracks).1.active :=
  eventsWithin_selfHoldLoop (eventsWithin_prioritizedGroups drivers activeTime) maxBacktracks
    (eventsWithin_prioritizedGroups drivers activeTime)

lemma causalStep_mem_Icc {signal : String} {remaining : ℕ}
    (h : session.causalStep signal horizon remaining = .answer (some t)) :
    t ∈ Set.Icc session.waveform.minTime horizon := by
  unfold Session.causalStep at h
  dsimp only at h
  split_ifs at h with hsampled
  · simp at h
  have hevents := @eventsWithin_skippingSelfHold session horizon
    (session.annotateOutputInstanceIdentities (session.design.resolve signal)
      (session.driversFor (session.design.resolve signal))) (session.design.resolve signal)
    (sampleAt session.waveform signal horizon).activeTime remaining
  split at h
  next statement _ hactive =>
    rw [hactive] at hevents
    split_ifs at h with hnba
    · rw [CausalStep.answer.injEq] at h
      exact hevents statement List.mem_cons_self t h
    · split at h
      · split_ifs at h
        · simp at h
      · simp at h
  next => simp at h

/-- The edge behind continuous aliases is at or before the horizon, however many aliases there
are. -/
lemma causalEventTime_mem_Icc {remaining : ℕ} {visited : List String} {signal : String}
    (h : session.causalEventTime horizon remaining visited signal = some t) :
    t ∈ Set.Icc session.waveform.minTime horizon := by
  induction remaining generalizing visited signal with
  | zero => simp [Session.causalEventTime] at h
  | succ remaining ih =>
      unfold Session.causalEventTime at h
      split_ifs at h
      cases hstep : session.causalStep signal horizon (remaining + 1) with
      | answer eventTime =>
          rw [hstep] at h
          obtain rfl : eventTime = some t := h
          exact causalStep_mem_Icc hstep
      | through upstream =>
          rw [hstep] at h
          exact ih h

/-- The change before a transition is at or before it. -/
lemma sampleBeforeTransition_mem_Icc {signal : String} {transition queryTime : ℕ} {sample : Sample}
    (h : session.sampleBeforeTransition signal transition queryTime = some sample) :
    sample.activeTime ∈ Set.Icc session.waveform.minTime transition := by
  unfold Session.sampleBeforeTransition at h
  dsimp only at h
  split_ifs at h with href hstart hok
  obtain rfl := Option.some.inj h
  set before := ((session.waveform.timeIndicesOf (session.waveform.findSignal signal)).map
    session.waveform.timeAt).takeWhile (· < transition) with hbefore
  have hlast : before.getLastD session.waveform.minTime ∈
      Set.Icc session.waveform.minTime transition := by
    by_cases hnil : before = []
    · rw [hnil]
      have hlt : ¬ transition ≤ session.waveform.minTime := fun hle => hstart ⟨hnil, hle⟩
      exact ⟨le_rfl, (not_le.1 hlt).le⟩
    · have hmem : before.getLastD session.waveform.minTime ∈ before := by
        rw [List.getLastD_eq_getLast?, List.getLast?_eq_some_getLast hnil]
        exact List.getLast_mem hnil
      obtain ⟨idx, hidx, heq⟩ := List.mem_map.1 (List.takeWhile_subset _ hmem)
      refine ⟨heq ▸ minTime_le_timeAt (Backend.timeIndicesOf_lt hidx), ?_⟩
      have hlt := List.mem_takeWhile_imp hmem
      simp only [decide_eq_true_eq] at hlt
      exact hlt.le
  exact Set.Icc_subset_Icc_right hlast.2 (activeTime_mem_Icc hok hlast.1)

/-- The projection of a race leaves a sample at or before the time of the query, be it moved to
the next edge or back to the change before. -/
lemma projectRace_mem_Icc {rootIndex : ℤ} {root : String} {queryTime maxNodes : ℕ} {sample : Sample}
    (h : sample.activeTime ∈ Set.Icc session.waveform.minTime queryTime) :
    (session.projectDuplicateTopSameSlotNbaRace rootIndex root queryTime maxNodes
      sample).activeTime ∈ Set.Icc session.waveform.minTime queryTime := by
  unfold Session.projectDuplicateTopSameSlotNbaRace
  split_ifs
  · exact h
  cases session.collectSameSlotNbaBoundaries root sample.activeTime maxNodes
      { remaining := maxNodes } rootIndex with
  | none => exact h
  | some scan =>
      dsimp only
      split
      next boundary _ =>
        cases hnext : session.nextStatementEventTime boundary root sample.activeTime queryTime with
        | some nextEvent => exact nextStatementEventTime_mem_Icc hnext
        | none =>
            dsimp only
            cases hback : session.sampleBeforeTransition root sample.activeTime
                sample.queryTime with
            | none => exact h
            | some previous =>
                exact Set.Icc_subset_Icc_right h.2 (sampleBeforeTransition_mem_Icc hback)
      next => exact h

end Bounds

end XdebugFst.Trace
