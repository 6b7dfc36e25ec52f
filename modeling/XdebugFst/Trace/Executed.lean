import XdebugFst.Trace.EventSearch

/-!
# Statements that were executed

A clocked assignment is executed at the edges of its clock, and only there. A statement is
reported as active with the time of its last edge, so that is the time at which it was executed;
but a statement whose clock has had no edge yet is evaluated at another time, that of the sample.

Where a register only held its value the search goes back over the edge. It looks at the
statements before the edge, and a horizon of `0`, before an edge at time `1`, asks for no edges at
all. `Backtracks` says over which edges the search goes and where it stops, and
`reportsExecuted_iff` when everything that is reported was executed.
-/

namespace XdebugFst.Trace

open Lib Waveform

/-! ### Edges -/

/-- An event signal of the statement can be read and has a matching edge at a time. -/
def HasEdgeAt (session : Session) (statement : StatementGroup) (time : ℕ) : Prop :=
  ∃ record ∈ statement.records, Session.isEventRecord record ∧
    ∃ ref, session.waveform.findSignal (session.design.signalName record.srcSignal) = ref ∧
      session.canLoad ref ∧ ∃ idx ∈ session.waveform.timeIndicesOf ref,
        session.waveform.timeAt idx = time ∧ session.edgeAt ref record.dependencyRole idx

/-- The statement was executed: its clock had an edge at or before the horizon, at which its
predicate holds. -/
def IsExecuted (session : Session) (horizon : ℕ) (statement : StatementGroup) : Prop :=
  ∃ time, statement.eventTime = some time ∧ time ≤ horizon ∧ HasEdgeAt session statement time ∧
    session.evaluatePredicate statement time = .active

/-- A clocked statement whose clock has had no edge up to the horizon; a horizon of `0` shows
none. -/
def IsUnfired (session : Session) (horizon : ℕ) (statement : StatementGroup) : Prop :=
  statement.isEventDriven ∧ (horizon = 0 ∨ ∀ time ≤ horizon, ¬ HasEdgeAt session statement time)

section Edges

variable {session : Session} {statement : StatementGroup} {record : DriverRecord}
  {horizon time : ℕ}

/-- The edges of a statement are those that the search of its events can see. -/
lemma hasEdgeAt_iff : HasEdgeAt session statement time ↔
    time ∈ session.eventWaveform.countedTimes session.design.signalName statement := by
  rw [EventWaveform.countedTimes_eq]
  refine exists_congr fun record => and_congr_right fun _ => ?_
  by_cases hread : session.eventWaveform.IsReadableEvent session.design.signalName record
  · rw [EventWaveform.recordTimes_eq _ _ hread]
    obtain ⟨hevent, hload⟩ := (session.isReadableEvent_iff _ _).1 hread
    constructor
    · rintro ⟨-, ref, rfl, -, idx, hidx, rfl, hedge⟩
      exact ⟨idx, ⟨hidx, (session.edgeAt_eq _ _ _).symm.trans hedge⟩, rfl⟩
    · rintro ⟨idx, ⟨hidx, hedge⟩, rfl⟩
      exact ⟨hevent, _, rfl, hload, idx, hidx, rfl, (session.edgeAt_eq _ _ _).trans hedge⟩
  · refine iff_of_false ?_ fun h => hread h.1
    rintro ⟨hevent, ref, rfl, hload, -⟩
    exact hread ((session.isReadableEvent_iff _ _).2 ⟨hevent, hload⟩)

/-- The event of a statement is the last edge of any of its event signals. -/
lemma findsGreatest_edge (session : Session) (statement : StatementGroup) (horizon : ℕ) :
    FindsGreatest {t | t ≤ horizon ∧ HasEdgeAt session statement t}
      (session.latestStatementEventTime statement horizon) := by
  simp only [hasEdgeAt_iff, Session.latestStatementEventTime_eq, and_comm (a := _ ≤ horizon)]
  exact EventWaveform.findsGreatest_latestStatementEventTime _ _ _

lemma isGreatest_latestStatementEventTime
    (h : session.latestStatementEventTime statement horizon = some time) :
    IsGreatest {t | t ≤ horizon ∧ HasEdgeAt session statement t} time := by
  have hfinds := findsGreatest_edge session statement horizon
  rwa [h] at hfinds

lemma latestStatementEventTime_eq_none_iff :
    session.latestStatementEventTime statement horizon = none ↔
      ∀ time ≤ horizon, ¬ HasEdgeAt session statement time := by
  have hfinds := findsGreatest_edge session statement horizon
  constructor
  · intro hnone time htime hedge
    rw [hnone] at hfinds
    exact (Set.eq_empty_iff_forall_notMem.1 hfinds) time ⟨htime, hedge⟩
  · intro hnone
    cases hlatest : session.latestStatementEventTime statement horizon with
    | none => rfl
    | some time =>
        rw [hlatest] at hfinds
        exact absurd hfinds.1.2 (hnone time hfinds.1.1)

end Edges

/-! ### Evaluated statements -/

section Evaluated

variable {session : Session} {drivers : List DriverRecord} {activeTime horizon : ℕ}
  {group statement : StatementGroup}

/-- What the predicate of a statement says: at its last edge when there is one, else at another
time. -/
def stateAt (session : Session) (activeTime horizon : ℕ) (group : StatementGroup) :
    PredicateState :=
  let statement := session.withEventTime horizon group
  session.evaluatePredicate statement (statement.eventTime.getD activeTime)

@[simp] lemma withEventTime_kind : (session.withEventTime horizon group).kind = group.kind := by
  unfold Session.withEventTime
  split_ifs <;> rfl

@[simp] lemma withEventTime_records :
    (session.withEventTime horizon group).records = group.records := by
  unfold Session.withEventTime
  split_ifs <;> rfl

@[simp] lemma isEventDriven_withEventTime :
    (session.withEventTime horizon group).isEventDriven = group.isEventDriven := by
  simp [StatementGroup.isEventDriven]

/-- The event of a statement has no part in its predicate. -/
@[simp] lemma evaluatePredicate_withEventTime (time : ℕ) :
    session.evaluatePredicate (session.withEventTime horizon group) time =
      session.evaluatePredicate group time := by
  unfold Session.withEventTime
  split_ifs <;> rfl

@[simp] lemma hasEdgeAt_withEventTime {time : ℕ} :
    HasEdgeAt session (session.withEventTime horizon group) time ↔
      HasEdgeAt session group time := by
  simp [HasEdgeAt]

/-- A statement of the drivers has no event exactly if it is unfired, or without a clock. -/
lemma isUnfired_iff (hgroup : group ∈ statementGroups drivers) :
    IsUnfired session horizon group ↔
      group.isEventDriven ∧ (session.withEventTime horizon group).eventTime = none := by
  refine and_congr_right fun _ => ?_
  unfold Session.withEventTime
  split_ifs with hpos
  · rw [← latestStatementEventTime_eq_none_iff]
    exact or_iff_right hpos.ne'
  · exact iff_of_true (Or.inl (Nat.eq_zero_of_not_pos hpos)) (eventTime_of_mem hgroup)

/-- Without an event, the predicate is evaluated at the other time. -/
lemma IsUnfired.stateAt (hgroup : group ∈ statementGroups drivers)
    (h : IsUnfired session horizon group) :
    stateAt session activeTime horizon group = session.evaluatePredicate group activeTime := by
  have hnone := ((isUnfired_iff hgroup).1 h).2
  unfold Trace.stateAt
  simp [hnone]

lemma IsUnfired.not_isExecuted (hgroup : group ∈ statementGroups drivers)
    (h : IsUnfired session horizon group) (last : ℕ) :
    ¬ IsExecuted session last (session.withEventTime horizon group) := by
  rintro ⟨time, htime, -⟩
  rw [((isUnfired_iff hgroup).1 h).2] at htime
  cases htime

/-- An active clocked statement with an event was executed at it. -/
lemma isExecuted_withEventTime (hgroup : group ∈ statementGroups drivers)
    (hstate : stateAt session activeTime horizon group = .active)
    (hdriven : group.isEventDriven) (hfired : ¬ IsUnfired session horizon group) :
    IsExecuted session horizon (session.withEventTime horizon group) := by
  cases htime : (session.withEventTime horizon group).eventTime with
  | none => exact absurd ((isUnfired_iff hgroup).2 ⟨hdriven, htime⟩) hfired
  | some time =>
      have hlatest : session.latestStatementEventTime group horizon = some time := by
        unfold Session.withEventTime at htime
        split_ifs at htime with hpos
        · exact htime
        · rw [eventTime_of_mem hgroup] at htime
          exact absurd htime (by simp)
      obtain ⟨⟨hle, hedge⟩, -⟩ := isGreatest_latestStatementEventTime hlatest
      refine ⟨time, htime, hle, hasEdgeAt_withEventTime.2 hedge, ?_⟩
      unfold stateAt at hstate
      simpa [htime] using hstate

lemma IsExecuted.mono {horizon' : ℕ} (h : IsExecuted session horizon statement)
    (hle : horizon ≤ horizon') : IsExecuted session horizon' statement := by
  obtain ⟨time, htime, hbound, hedge, hstate⟩ := h
  exact ⟨time, htime, hbound.trans hle, hedge, hstate⟩

/-- The groups are evaluated one after the other. -/
lemma foldl_addEvaluated_eq (groups : List StatementGroup) (acc : EvaluatedStatements) :
    (groups.foldl (session.addEvaluated activeTime horizon) acc).active =
        acc.active ++ (groups.filter fun group =>
          stateAt session activeTime horizon group = .active).map
            (session.withEventTime horizon) ∧
      (groups.foldl (session.addEvaluated activeTime horizon) acc).unresolved.map (·.kind) =
        acc.unresolved.map (·.kind) ++ (groups.filter fun group =>
          stateAt session activeTime horizon group = .waveformUnknown ∨
            stateAt session activeTime horizon group = .unresolved).map (·.kind) := by
  induction groups generalizing acc with
  | nil => simp
  | cons group groups ih =>
      rw [List.foldl_cons, (ih _).1, (ih _).2]
      unfold Session.addEvaluated
      dsimp only
      cases hstate : stateAt session activeTime horizon group <;>
        (have heval := hstate; unfold stateAt at heval; simp [hstate, heval])

/-- The active statements are those of the drivers whose predicate says so. -/
lemma active_eq :
    (session.activeStatementGroups drivers activeTime horizon).active =
      ((statementGroups drivers).filter fun group =>
        stateAt session activeTime horizon group = .active).map
          (session.withEventTime horizon) := by
  simpa [Session.activeStatementGroups] using (foldl_addEvaluated_eq (statementGroups drivers) {}).1

/-- The unresolved statements are of the kinds of those whose predicate says neither. -/
lemma map_kind_unresolved :
    (session.activeStatementGroups drivers activeTime horizon).unresolved.map (·.kind) =
      ((statementGroups drivers).filter fun group =>
        stateAt session activeTime horizon group = .waveformUnknown ∨
          stateAt session activeTime horizon group = .unresolved).map (·.kind) := by
  simpa [Session.activeStatementGroups] using (foldl_addEvaluated_eq (statementGroups drivers) {}).2

/-- A single active non-blocking assignment sets everything else aside: no other is unresolved,
and there is no force. -/
def NbaPrevails (session : Session) (drivers : List DriverRecord) (activeTime horizon : ℕ) :
    Prop :=
  (statementGroups drivers).countP (fun group =>
      group.kind = "nba" ∧ stateAt session activeTime horizon group = .active) = 1 ∧
    ∀ group ∈ statementGroups drivers,
      (group.kind = "force" → stateAt session activeTime horizon group = .inactive) ∧
      (group.kind = "nba" → stateAt session activeTime horizon group = .inactive ∨
        stateAt session activeTime horizon group = .active)

lemma any_active_iff {kind : String} :
    (session.activeStatementGroups drivers activeTime horizon).active.any (·.kind = kind) ↔
      ∃ group ∈ statementGroups drivers, group.kind = kind ∧
        stateAt session activeTime horizon group = .active := by
  simp [active_eq, and_comm, and_assoc]

lemma any_unresolved_iff {kind : String} :
    (session.activeStatementGroups drivers activeTime horizon).unresolved.any (·.kind = kind) ↔
      ∃ group ∈ statementGroups drivers, group.kind = kind ∧
        (stateAt session activeTime horizon group = .waveformUnknown ∨
          stateAt session activeTime horizon group = .unresolved) := by
  have hmap : ∀ l : List StatementGroup, l.any (·.kind = kind) ↔ kind ∈ l.map (·.kind) := by
    simp [List.mem_map]
  rw [hmap, map_kind_unresolved]
  simp [and_comm, and_assoc]

lemma countP_active :
    (session.activeStatementGroups drivers activeTime horizon).active.countP (·.kind = "nba") =
      (statementGroups drivers).countP fun group =>
        group.kind = "nba" ∧ stateAt session activeTime horizon group = .active := by
  rw [active_eq, List.countP_map, List.countP_filter]
  congr 1
  funext group
  simp

/-- The rule applies exactly if a single non-blocking assignment prevails. -/
lemma not_nbaPrevails_iff {statements : EvaluatedStatements}
    (h : session.activeStatementGroups drivers activeTime horizon = statements) :
    (statements.active.any (·.kind = "force") ∨ statements.unresolved.any (·.kind = "force") ∨
        statements.active.countP (·.kind = "nba") ≠ 1 ∨
          statements.unresolved.any (·.kind = "nba")) ↔
      ¬ NbaPrevails session drivers activeTime horizon := by
  subst h
  rw [any_active_iff, any_unresolved_iff, any_unresolved_iff, countP_active, ← not_iff_not, not_not]
  simp only [not_or, not_not]
  constructor
  · rintro ⟨hforce, hforce', hcount, hnba⟩
    refine ⟨hcount, fun group hgroup => ⟨fun hkind => ?_, fun hkind => ?_⟩⟩
    · cases hstate : stateAt session activeTime horizon group with
      | active => exact absurd ⟨group, hgroup, hkind, hstate⟩ hforce
      | inactive => rfl
      | waveformUnknown => exact absurd ⟨group, hgroup, hkind, Or.inl hstate⟩ hforce'
      | unresolved => exact absurd ⟨group, hgroup, hkind, Or.inr hstate⟩ hforce'
    · cases hstate : stateAt session activeTime horizon group with
      | active => exact Or.inr rfl
      | inactive => exact Or.inl rfl
      | waveformUnknown => exact absurd ⟨group, hgroup, hkind, Or.inl hstate⟩ hnba
      | unresolved => exact absurd ⟨group, hgroup, hkind, Or.inr hstate⟩ hnba
  · rintro ⟨hcount, hstates⟩
    refine ⟨?_, ?_, hcount, ?_⟩
    · rintro ⟨group, hgroup, hkind, hstate⟩
      simp [(hstates group hgroup).1 hkind] at hstate
    · rintro ⟨group, hgroup, hkind, hstate⟩
      simp [(hstates group hgroup).1 hkind] at hstate
    · rintro ⟨group, hgroup, hkind, hstate⟩
      rcases (hstates group hgroup).2 hkind with h | h <;> simp [h] at hstate

lemma mem_prioritizedGroups_iff :
    statement ∈ (session.prioritizedGroups drivers activeTime horizon).active ↔
      ∃ group ∈ statementGroups drivers, session.withEventTime horizon group = statement ∧
        stateAt session activeTime horizon group = .active ∧
        (group.kind = "nba" ∨ ¬ NbaPrevails session drivers activeTime horizon) := by
  have hactive : statement ∈ (session.activeStatementGroups drivers activeTime horizon).active ↔
      ∃ group ∈ statementGroups drivers, session.withEventTime horizon group = statement ∧
        stateAt session activeTime horizon group = .active := by
    rw [active_eq, List.mem_map]
    simp [and_assoc, @and_comm (stateAt _ _ _ _ = _)]
  unfold Session.prioritizedGroups applyUniqueNbaPriority
  dsimp only
  rw [apply_ite EvaluatedStatements.active]
  split_ifs with hrule
  · have hnot := (not_nbaPrevails_iff rfl).1 hrule
    rw [hactive]
    simp [hnot]
  · have hprevails : NbaPrevails session drivers activeTime horizon := by
      by_contra hnot
      exact hrule ((not_nbaPrevails_iff rfl).2 hnot)
    simp only [List.mem_filter, hactive, decide_eq_true_eq, hprevails, not_true, or_false]
    constructor
    · rintro ⟨⟨group, hgroup, rfl, hstate⟩, hkind⟩
      exact ⟨group, hgroup, rfl, hstate, by simpa using hkind⟩
    · rintro ⟨group, hgroup, rfl, hstate, hkind⟩
      exact ⟨⟨group, hgroup, rfl, hstate⟩, by simpa using hkind⟩

end Evaluated

/-! ### Going back -/

section Backtracking

variable (session : Session) (drivers : List DriverRecord) (target : ℤ) (activeTime : ℕ)

/-- What is active at a horizon assigns the register nothing but itself. -/
def HeldAt (horizon : ℕ) : Prop :=
  let groups := session.prioritizedGroups drivers activeTime horizon
  groups.unresolved = [] ∧ groups.active ≠ [] ∧ groups.active.all (isPureSelfHold target)

/-- From a horizon the search goes back over the edges `skipped` and stops at the horizon `last`.
The first argument is the number of attempts that are left. -/
inductive Backtracks : ℕ → ℕ → List ℕ → ℕ → Prop
  | stop {attempts horizon : ℕ} (hheld : ¬ HeldAt session drivers target activeTime horizon) :
      Backtracks attempts horizon [] horizon
  | skip {attempts horizon before last : ℕ} {skipped : List ℕ}
      (hheld : HeldAt session drivers target activeTime horizon)
      (hlast : lastEvent (session.prioritizedGroups drivers activeTime horizon).active =
        some (before + 1))
      (hrest : Backtracks attempts before skipped last) :
      Backtracks (attempts + 1) horizon ((before + 1) :: skipped) last

/-- Every clocked statement that is reported as active was executed, and the edges that were
skipped are later than those of the statements that are reported. -/
structure ReportsExecuted (horizon maxBacktracks : ℕ) : Prop where
  active : ∀ s ∈ (session.activeStatementGroups drivers activeTime horizon).active,
    s.isEventDriven → IsExecuted session horizon s
  skipping : ∀ s ∈ (session.activeStatementGroupsSkippingSelfHold drivers target activeTime horizon
    maxBacktracks).1.active, s.isEventDriven → IsExecuted session horizon s
  later : ∀ skipped last,
    Backtracks session drivers target activeTime maxBacktracks horizon skipped last →
      ∀ s ∈ (session.activeStatementGroupsSkippingSelfHold drivers target activeTime horizon
        maxBacktracks).1.active, ∀ time ∈ s.eventTime, ∀ edge ∈ skipped, time < edge

variable {session drivers target activeTime} {horizon last attempts : ℕ} {skipped : List ℕ}
  {original : EvaluatedStatements}

lemma Backtracks.lt (h : Backtracks session drivers target activeTime attempts horizon skipped last) :
    last ≤ horizon ∧ ∀ edge ∈ skipped, last < edge := by
  induction h with
  | stop => exact ⟨le_rfl, by simp⟩
  | skip hheld hlast _ ih =>
      have hle := (lastEvent_mem_Icc (eventsWithin_prioritizedGroups drivers activeTime) hlast).2
      refine ⟨by omega, fun edge hedge => ?_⟩
      rcases List.mem_cons.1 hedge with rfl | hedge
      · omega
      · exact ih.2 edge hedge

/-- Where the search stops it reports what is active there. -/
lemma Backtracks.selfHoldLoop
    (h : Backtracks session drivers target activeTime attempts horizon skipped last) :
    session.selfHoldLoop drivers target activeTime original attempts
        (session.prioritizedGroups drivers activeTime horizon) =
      (session.prioritizedGroups drivers activeTime last, false) := by
  induction h with
  | stop hheld =>
      rename_i attempts horizon
      unfold HeldAt at hheld
      cases attempts <;>
      · unfold Session.selfHoldLoop
        rw [if_pos]
        simp only [not_and_or, not_not] at hheld
        simpa using hheld
  | skip hheld hlast _ ih =>
      obtain ⟨hunresolved, hactive, hall⟩ := hheld
      unfold Session.selfHoldLoop
      rw [if_neg (by simp [hunresolved, hactive, hall]), hlast]
      exact ih

lemma Backtracks.skippingSelfHold {maxBacktracks : ℕ}
    (h : Backtracks session drivers target activeTime maxBacktracks horizon skipped last) :
    (session.activeStatementGroupsSkippingSelfHold drivers target activeTime horizon
      maxBacktracks).1 = session.prioritizedGroups drivers activeTime last := by
  unfold Session.activeStatementGroupsSkippingSelfHold
  dsimp only
  rw [h.selfHoldLoop]

/-- Where it does not stop it reports what it started with. -/
lemma selfHoldLoop_of_not_backtracks
    (h : ¬ ∃ skipped last,
      Backtracks session drivers target activeTime attempts horizon skipped last) :
    (session.selfHoldLoop drivers target activeTime original attempts
      (session.prioritizedGroups drivers activeTime horizon)).1 = original := by
  have hheld : HeldAt session drivers target activeTime horizon := by
    by_contra hheld
    exact h ⟨_, _, .stop hheld⟩
  obtain ⟨hunresolved, hactive, hall⟩ := id hheld
  induction attempts generalizing horizon with
  | zero =>
      unfold Session.selfHoldLoop
      rw [if_neg (by simp [hunresolved, hactive, hall])]
  | succ attempts ih =>
      unfold Session.selfHoldLoop
      rw [if_neg (by simp [hunresolved, hactive, hall])]
      cases hlast : lastEvent (session.prioritizedGroups drivers activeTime horizon).active with
      | none => rfl
      | some edge =>
          cases edge with
          | zero => rfl
          | succ before =>
              have hrest : ¬ ∃ skipped last, Backtracks session drivers target activeTime attempts
                  before skipped last := by
                rintro ⟨skipped, last, hrest⟩
                exact h ⟨_, _, .skip hheld hlast hrest⟩
              have hbefore : HeldAt session drivers target activeTime before := by
                by_contra hbefore
                exact hrest ⟨_, _, .stop hbefore⟩
              exact ih hrest hbefore hbefore.1 hbefore.2.1 hbefore.2.2

/-- What is reported is what is active at the horizon asked for, or where the search stops. -/
lemma mem_skippingSelfHold {s : StatementGroup} {maxBacktracks : ℕ}
    (hs : s ∈ (session.activeStatementGroupsSkippingSelfHold drivers target activeTime horizon
      maxBacktracks).1.active) :
    s ∈ (session.prioritizedGroups drivers activeTime horizon).active ∨
      ∃ skipped last,
        Backtracks session drivers target activeTime maxBacktracks horizon skipped last ∧
          skipped ≠ [] ∧ s ∈ (session.prioritizedGroups drivers activeTime last).active := by
  by_cases hback : ∃ skipped last,
      Backtracks session drivers target activeTime maxBacktracks horizon skipped last
  · obtain ⟨skipped, last, hback⟩ := hback
    rw [hback.skippingSelfHold] at hs
    cases hback with
    | stop => exact Or.inl hs
    | skip hheld hlast hrest => exact Or.inr ⟨_, _, .skip hheld hlast hrest, by simp, hs⟩
  · unfold Session.activeStatementGroupsSkippingSelfHold at hs
    dsimp only at hs
    rw [selfHoldLoop_of_not_backtracks hback] at hs
    exact Or.inl hs

variable (session drivers target activeTime)

/-- Everything that is reported was executed, unless a clocked statement without an edge up to the
horizon has a predicate that holds at the other time, or the search stops after skipping edges
where one does, and is not set aside there by a single non-blocking assignment. -/
theorem reportsExecuted_iff (horizon maxBacktracks : ℕ) :
    ReportsExecuted session drivers target activeTime horizon maxBacktracks ↔
      (∀ group ∈ statementGroups drivers, IsUnfired session horizon group →
        session.evaluatePredicate group activeTime ≠ .active) ∧
      ∀ skipped last,
        Backtracks session drivers target activeTime maxBacktracks horizon skipped last →
        skipped ≠ [] → ∀ group ∈ statementGroups drivers, IsUnfired session last group →
          session.evaluatePredicate group activeTime = .active →
            group.kind ≠ "nba" ∧ NbaPrevails session drivers activeTime last := by
  constructor
  · intro h
    constructor
    · intro group hgroup hunfired hactive
      have hmem : session.withEventTime horizon group ∈
          (session.activeStatementGroups drivers activeTime horizon).active := by
        rw [active_eq]
        refine List.mem_map_of_mem (List.mem_filter.2 ⟨hgroup, ?_⟩)
        simpa [hunfired.stateAt hgroup] using hactive
      exact hunfired.not_isExecuted hgroup horizon (h.active _ hmem (by simpa using hunfired.1))
    · intro skipped last hback _ group hgroup hunfired hactive
      by_contra hkept
      have hmem : session.withEventTime last group ∈
          (session.prioritizedGroups drivers activeTime last).active := by
        refine mem_prioritizedGroups_iff.2 ⟨group, hgroup, rfl, ?_, by tauto⟩
        rwa [hunfired.stateAt hgroup]
      rw [← hback.skippingSelfHold] at hmem
      exact hunfired.not_isExecuted hgroup horizon (h.skipping _ hmem (by simpa using hunfired.1))
  · rintro ⟨hfirst, hlast⟩
    -- at the horizon asked for every active clocked statement was executed
    have hexecuted : ∀ group ∈ statementGroups drivers, group.isEventDriven →
        stateAt session activeTime horizon group = .active →
        IsExecuted session horizon (session.withEventTime horizon group) := by
      intro group hgroup hdriven hstate
      refine isExecuted_withEventTime hgroup hstate hdriven fun hunfired => ?_
      exact hfirst group hgroup hunfired (hunfired.stateAt hgroup ▸ hstate)
    refine ⟨fun s hs hdriven => ?_, fun s hs hdriven => ?_, ?_⟩
    · rw [active_eq] at hs
      obtain ⟨group, hgroup, rfl⟩ := List.mem_map.1 hs
      obtain ⟨hgroup, hstate⟩ := List.mem_filter.1 hgroup
      exact hexecuted group hgroup (by simpa using hdriven) (by simpa using hstate)
    · rcases mem_skippingSelfHold hs with hs | ⟨skipped, last, hback, hne, hs⟩
      · obtain ⟨group, hgroup, rfl, hstate, -⟩ := mem_prioritizedGroups_iff.1 hs
        exact hexecuted group hgroup (by simpa using hdriven) hstate
      · obtain ⟨group, hgroup, rfl, hstate, hkept⟩ := mem_prioritizedGroups_iff.1 hs
        refine (isExecuted_withEventTime hgroup hstate (by simpa using hdriven) ?_).mono
          hback.lt.1
        intro hunfired
        obtain ⟨hkind, hprevails⟩ := hlast skipped last hback hne group hgroup hunfired
          (hunfired.stateAt hgroup ▸ hstate)
        exact hkept.elim hkind fun hnot => hnot hprevails
    · intro skipped last hback s hs time htime edge hedge
      rw [hback.skippingSelfHold] at hs
      have hle := (eventsWithin_prioritizedGroups drivers activeTime s hs time htime).2
      exact hle.trans_lt (hback.lt.2 edge hedge)

end Backtracking

/-- A register `q` that keeps its value while `hold` is set and takes `d` otherwise, at the rising
edge of `clk` at time `1`. -/
def holdSession : Session where
  waveform := Backend.ofTable [0, 1]
    [("q", [(0, "0")]), ("clk", [(0, "0"), (1, "1")]), ("d", [(0, "1")]),
      ("hold", [(0, "0"), (1, "1")])] (by decide) (by decide) (by decide)
  design := .ofSignals [{ name := some "q", width := 1 }, { name := some "clk", width := 1 },
    { name := some "d", width := 1 }, { name := some "hold", width := 1 }]
  sourceContext _ _ := []
  formatTime time := toString time ++ "ns"

/-- The records of a non-blocking assignment of one source at an edge of `clk`. -/
def clockedDrivers (source : ℤ) (role edge predicate : String) (line : ℤ) : List DriverRecord :=
  [{ srcSignal := source, kind := "nba", dependencyRole := role, activationPredicate := predicate
     file := "t.v", line := line },
   { srcSignal := 1, kind := "nba", dependencyRole := edge, activationPredicate := predicate
     file := "t.v", line := line }]

/-- The clock never falls, so a statement at its falling edge is not executed; and before the edge
at time `1` nothing was, but the search reports the statement that takes `d`. -/
theorem holdSession_not_reportsExecuted :
    ¬ ReportsExecuted holdSession (clockedDrivers 2 "rhs" "event_negedge" "1" 5) 0 0 1 8 ∧
      ¬ ReportsExecuted holdSession (clockedDrivers 0 "self_rhs" "event_posedge" "hold" 5 ++
        clockedDrivers 2 "rhs" "event_posedge" "!hold" 6) 0 0 1 8 := by
  have hno : ∀ (statements : List StatementGroup) (horizon : ℕ),
      statements.any (fun s => s.isEventDriven && s.eventTime.isNone) = true →
      ¬ ∀ s ∈ statements, s.isEventDriven → IsExecuted holdSession horizon s := by
    intro statements horizon hany h
    obtain ⟨s, hs, hdriven⟩ := List.any_eq_true.1 hany
    simp only [Bool.and_eq_true, Option.isNone_iff_eq_none] at hdriven
    obtain ⟨time, htime, -⟩ := h s hs hdriven.1
    simp [hdriven.2] at htime
  refine ⟨fun h => hno _ _ ?_ h.active, fun h => hno _ _ ?_ h.skipping⟩ <;> decide +kernel

end XdebugFst.Trace
