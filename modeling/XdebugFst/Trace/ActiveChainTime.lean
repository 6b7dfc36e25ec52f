import XdebugFst.Trace.ActiveChain

/-!
# The driver chain goes back in time

A hop is dated by the last change of its signal, by a clock event, by an
edge behind continuous aliases, or by the rules for a race in one time
slot. Whichever it is, the date is not after the time that the round was
entered with, and the next round is entered with the date. So the dates
fall along the chain.

`round_cases` says what one round does to the hops. The invariant
`ChainState.GoesBack` follows from it, and the loop ends because every
round that goes on raises the depth, which the limits bound.
-/

namespace XdebugFst.Trace.ActiveChain

open Lib Waveform

variable {session : Session} {limits : Limits} {projection : Projection} {state : ChainState}
  {facts : Facts} {sample : Sample} {bound : ℕ}

/-! ### The events of the chosen statements -/

lemma eventTime_suppressPredicateRhsSources (statement : StatementGroup) :
    (session.suppressPredicateRhsSources statement).eventTime = statement.eventTime := by
  unfold Session.suppressPredicateRhsSources
  dsimp only
  split_ifs <;> rfl

lemma eventsWithin_suppressNonSourceRhs {evaluated : EvaluatedStatements}
    (h : EventsWithin session bound evaluated.active) :
    EventsWithin session bound (session.suppressNonSourceRhs evaluated).active :=
  h.map eventTime_suppressPredicateRhsSources

lemma eventsWithin_applyUniqueNbaPriority {evaluated : EvaluatedStatements}
    (h : EventsWithin session bound evaluated.active) :
    EventsWithin session bound (applyUniqueNbaPriority evaluated).active :=
  h.subset fun _ hs => mem_of_mem_applyUniqueNbaPriority.1 hs

lemma eventHorizon_le (h : sample.activeTime ≤ state.currentTime) :
    eventHorizon projection state sample ≤ state.currentTime := by
  unfold eventHorizon
  split_ifs
  · exact h
  · exact le_rfl

lemma eventsWithin_evaluate (h : sample.activeTime ≤ state.currentTime) :
    EventsWithin session state.currentTime
      (evaluate session limits projection state facts sample).1.active :=
  (eventsWithin_skippingSelfHold _ _ _ _).mono (eventHorizon_le h)

lemma eventsWithin_observable {evaluated : EvaluatedStatements}
    (h : EventsWithin session bound evaluated.active) :
    EventsWithin session bound (observable session projection facts sample evaluated).1.active := by
  have hsource : EventsWithin session bound
      (if projection.compatibility ∧ ¬ projection.duplicateTop then
        session.suppressNonSourceRhs evaluated else evaluated).active := by
    split_ifs
    · exact eventsWithin_suppressNonSourceRhs h
    · exact h
  unfold observable
  dsimp only
  generalize (if projection.compatibility ∧ ¬ projection.duplicateTop then
    session.suppressNonSourceRhs evaluated else evaluated) = source at hsource ⊢
  split_ifs
  · unfold Session.suppressInitializationOnlyEventEvidence
    dsimp only
    split_ifs
    · exact hsource
    · exact hsource.subset fun _ hs => List.mem_of_mem_filter hs
  · exact hsource

lemma eventsWithin_prioritized {evaluated : EvaluatedStatements}
    (h : EventsWithin session bound evaluated.active) :
    EventsWithin session bound (prioritized session sample evaluated).active :=
  eventsWithin_applyUniqueNbaPriority (h.subset fun _ hs => mem_of_mem_suppressForce.1 hs)

lemma explanations_subset (evaluated : EvaluatedStatements) :
    explanations evaluated ⊆ evaluated.active := by
  intro s hs
  unfold explanations at hs
  dsimp only at hs
  split_ifs at hs
  · exact List.mem_of_mem_filter (List.mem_of_mem_filter hs)
  · exact List.mem_of_mem_filter hs

/-- The statement of a stimulus has no event. -/
lemma eventTime_statementInput {evaluated : EvaluatedStatements} {statement : StatementGroup}
    (h : statementInput session projection state facts sample evaluated = some statement) :
    statement.eventTime = none := by
  unfold statementInput at h
  split_ifs at h
  unfold Session.selectNativeStatementInput at h
  dsimp only at h
  split_ifs at h
  obtain ⟨position, -, hposition⟩ := Option.bind_eq_some_iff.1 h
  exact eventTime_of_mem (List.mem_of_getElem? hposition)

lemma eventTime_addDependencies (drivers : List DriverRecord) (group : StatementGroup) :
    (addDependencies drivers group).eventTime = group.eventTime := by
  unfold addDependencies
  generalize drivers.filter group.dependsOn = dependencies
  induction dependencies generalizing group with
  | nil => rfl
  | cons driver dependencies ih =>
      rw [List.foldl_cons, ih]

/-- Merging keeps the events of the statements that it starts from. -/
lemma eventsWithin_nativeDependencyGroups {active : List StatementGroup}
    (h : EventsWithin session bound active) (drivers : List DriverRecord) :
    EventsWithin session bound (nativeDependencyGroups active drivers) := by
  have hmerged : ∀ (l merged : List StatementGroup), EventsWithin session bound l →
      EventsWithin session bound merged →
      EventsWithin session bound (l.foldl (fun (merged : List StatementGroup) statement =>
        if merged.any fun group => group.file = statement.file ∧ group.line = statement.line ∧
            group.kind = statement.kind then merged
        else merged ++ [nativeGroup statement]) merged) := by
    intro l
    induction l with
    | nil => exact fun merged _ hmerged => hmerged
    | cons statement l ih =>
        intro merged hl hmerged
        refine ih _ (hl.subset (List.subset_cons_self _ _)) ?_
        dsimp only
        split_ifs
        · exact hmerged
        · intro s hs t ht
          rcases List.mem_append.1 hs with hs | hs
          · exact hmerged s hs t ht
          · rw [List.mem_singleton.1 hs] at ht
            exact hl statement List.mem_cons_self t ht
  have hall := (hmerged active [] h fun s hs => absurd hs List.not_mem_nil).map
    (eventTime_addDependencies drivers)
  exact hall.subset fun _ hs => List.mem_of_mem_filter hs

lemma eventsWithin_candidateGroups {evaluated : EvaluatedStatements}
    (h : EventsWithin session bound evaluated.active) :
    EventsWithin session bound
      (candidateGroups session projection state facts sample evaluated) := by
  unfold candidateGroups
  cases hinput : statementInput session projection state facts sample evaluated with
  | some statement =>
      intro s hs t ht
      rw [List.mem_singleton.1 hs, eventTime_statementInput hinput] at ht
      exact absurd ht (by simp)
  | none =>
      have hgroups := h.subset (explanations_subset evaluated)
      dsimp only
      split_ifs
      · exact eventsWithin_nativeDependencyGroups hgroups facts.drivers
      · exact hgroups

/-! The choice of a source only drops statements, except where the statement of the signal
before stands in for them. -/

lemma groups_chooseSource (group : StatementGroup) :
    (chooseSource session projection state facts sample group).groups = [group] := by
  unfold chooseSource
  dsimp only
  split_ifs
  · rfl
  · split
    · split <;> rfl
    · rfl
    · rfl

lemma groups_choose_subset (evaluated : EvaluatedStatements) (groups : List StatementGroup) :
    (choose session projection state facts sample evaluated groups).groups ⊆ groups := by
  unfold choose
  dsimp only
  split_ifs
  · exact List.nil_subset _
  · exact List.Subset.refl _
  · split
    · exact List.nil_subset _
    · rw [groups_chooseSource]
      exact List.Subset.refl _
    · exact List.Subset.refl _

lemma groups_crossTo (choice : Choice) (port : ℤ) :
    (crossTo session sample choice port).groups = choice.groups := by
  unfold crossTo
  dsimp only
  split_ifs <;> rfl

lemma groups_chooseChildOutput (evaluated : EvaluatedStatements) (choice : Choice) :
    (chooseChildOutput session state facts sample evaluated choice).groups = choice.groups := by
  unfold chooseChildOutput
  split_ifs
  · split
    · exact groups_crossTo choice _
    · rfl
  · rfl

lemma groups_chooseOutputPort (evaluated : EvaluatedStatements) (choice : Choice) :
    (chooseOutputPort session state facts sample evaluated choice).groups = choice.groups := by
  unfold chooseOutputPort
  split_ifs
  · split
    · dsimp only
      split_ifs
      · exact groups_crossTo choice _
      · rfl
    · rfl
  · rfl

lemma groups_chooseAncestor (choice : Choice) :
    (chooseAncestor session state facts sample choice).groups = choice.groups := by
  unfold chooseAncestor
  split
  · rfl
  · split_ifs
    · dsimp only
      split
      · split_ifs <;> rfl
      · rfl
    · rfl

lemma groups_chooseFinal (choice : Choice) :
    (chooseFinal session projection facts choice).1.groups = choice.groups := by
  unfold chooseFinal
  dsimp only
  split
  · split_ifs <;> rfl
  · split_ifs <;> rfl

lemma eventsWithin_chooseMapped {choice : Choice} {group : StatementGroup}
    (h : EventsWithin session bound choice.groups) (hgroup : EventsWithin session bound [group]) :
    EventsWithin session bound (chooseMapped session state choice group).groups := by
  unfold chooseMapped
  split_ifs
  · exact hgroup
  · split
    · exact h
    · -- the mapped statement has the event of the statement it is made from
      intro s hs t ht
      rw [List.mem_singleton.1 hs] at ht
      exact hgroup group List.mem_cons_self t ht

lemma eventsWithin_parentEvaluated (h : sample.activeTime ≤ state.currentTime) :
    EventsWithin session state.currentTime
      (parentEvaluated session projection state sample).active := by
  unfold parentEvaluated
  refine eventsWithin_applyUniqueNbaPriority ?_
  have hgroups := (@eventsWithin_activeStatementGroups session
    (eventHorizon projection state sample)
    (session.driversFor (session.design.resolve state.previous)) sample.activeTime).mono
    (eventHorizon_le h)
  split_ifs
  · exact eventsWithin_suppressNonSourceRhs hgroups
  · exact hgroups

lemma eventsWithin_chooseParent {choice : Choice} (h : sample.activeTime ≤ state.currentTime)
    (hgroups : EventsWithin session state.currentTime choice.groups) :
    EventsWithin session state.currentTime
      (chooseParent session projection state facts sample choice).groups := by
  have hparent := @eventsWithin_parentEvaluated session projection state sample h
  unfold chooseParent
  split_ifs
  · dsimp only
    split
    next group _ hactive =>
      rw [hactive] at hparent
      exact eventsWithin_chooseMapped hgroups hparent
    next => exact hgroups
  · exact hgroups

lemma eventsWithin_chooseAll {evaluated : EvaluatedStatements}
    (h : sample.activeTime ≤ state.currentTime)
    (hevaluated : EventsWithin session state.currentTime evaluated.active) :
    EventsWithin session state.currentTime
      (chooseAll session projection state facts sample evaluated).1.groups := by
  unfold chooseAll
  dsimp only
  rw [groups_chooseFinal, groups_chooseAncestor]
  refine eventsWithin_chooseParent h ?_
  rw [groups_chooseOutputPort, groups_chooseChildOutput]
  exact (eventsWithin_candidateGroups hevaluated).subset (groups_choose_subset _ _)

/-! ### The date of a hop -/

lemma raceSample_mem_Icc
    (h : sample.activeTime ∈ Set.Icc session.waveform.minTime state.currentTime) :
    (raceSample session limits projection state facts sample).activeTime ∈
      Set.Icc session.waveform.minTime state.currentTime := by
  unfold raceSample
  split_ifs
  · exact projectRace_mem_Icc h
  · exact h

lemma causalTime_mem_Icc {upstream : String} {t : ℕ}
    (h : causalTime session limits projection state sample upstream = some t) :
    t ∈ Set.Icc session.waveform.minTime state.currentTime := by
  unfold causalTime at h
  split at h
  next eventTime hcausal =>
    split_ifs at h
    obtain rfl := Option.some.inj h
    exact causalEventTime_mem_Icc hcausal
  next => simp at h

/-- However a hop is dated, its date is not after the time of the round. -/
lemma dateSample_mem_Icc {choice : Choice}
    (h : sample.activeTime ∈ Set.Icc session.waveform.minTime state.currentTime)
    (hgroups : EventsWithin session state.currentTime choice.groups) :
    (dateSample session limits projection state choice sample).activeTime ∈
      Set.Icc session.waveform.minTime state.currentTime := by
  unfold dateSample
  split
  next group _ hgroup =>
    rw [hgroup] at hgroups
    split_ifs
    · -- a clocked assignment is executed at its event
      cases hevent : group.eventTime with
      | none => exact h
      | some eventTime => exact hgroups group List.mem_cons_self eventTime hevent
    · -- a continuous one at the edge behind it
      cases hcausal : causalTime session limits projection state sample choice.upstream with
      | none => exact h
      | some eventTime => exact causalTime_mem_Icc hcausal
    · exact h
  next => exact h

/-! ### What a round does -/

/-- The date of a hop is not after the time of the round, if the round starts in the waveform. -/
def IsDated (session : Session) (state : ChainState) (date : ℕ) : Prop :=
  session.waveform.minTime ≤ state.currentTime →
    date ∈ Set.Icc session.waveform.minTime state.currentTime

/-- A round adds at most one hop. It goes on only when it has added one, within the limits, and
the next round is entered with the date of the hop. -/
inductive RoundCase (session : Session) (limits : Limits) (state : ChainState) :
    ChainState ⊕ Outcome → Prop
  | error {code message : String} : RoundCase session limits state (.inr (.error code message))
  | stop {ending : Ending} (hhops : ending.hops = state.hops) :
      RoundCase session limits state (.inr (.ended ending))
  | last {ending : Ending} {hop : Hop} (hhops : ending.hops = state.hops ++ [hop])
      (hdate : IsDated session state hop.activeTime) :
      RoundCase session limits state (.inr (.ended ending))
  | next {state' : ChainState} {hop : Hop} (hhops : state'.hops = state.hops ++ [hop])
      (hdate : IsDated session state hop.activeTime) (htime : state'.currentTime = hop.activeTime)
      (hdepth : state'.depth = state.depth + 1) (hnodes : state'.hops.length < limits.maxNodes)
      (hlimit : state.depth < limits.maxDepth) :
      RoundCase session limits state (.inl state')

/-- A visit is remembered, which the hops do not depend on. -/
lemma RoundCase.of_visited {visited : List String} {result : ChainState ⊕ Outcome}
    (h : RoundCase session limits { state with visited := visited } result) :
    RoundCase session limits state result := by
  cases h with
  | error => exact .error
  | stop hhops => exact .stop hhops
  | last hhops hdate => exact .last hhops hdate
  | next hhops hdate htime hdepth hnodes hlimit =>
      exact .next hhops hdate htime hdepth hnodes hlimit

lemma activeTime_chainHop (choice : Choice) :
    (chainHop session projection state facts choice sample).activeTime = sample.activeTime := by
  unfold chainHop
  dsimp only
  split_ifs <;> rfl

lemma roundCase_ended {choice : Choice} {ending : Ending}
    (hdate : IsDated session state sample.activeTime)
    (h : ending.hops = hopsAfter session projection state facts choice sample) :
    RoundCase session limits state (.inr (.ended ending)) := by
  unfold hopsAfter at h
  split_ifs at h
  · exact .stop h
  · exact .last h (activeTime_chainHop choice ▸ hdate)

lemma roundCase_continueWith {hops : List Hop} {hop : Hop} {upstream : String}
    (hdate : IsDated session state sample.activeTime) (hhops : hops = state.hops ++ [hop])
    (hhop : hop.activeTime = sample.activeTime) :
    RoundCase session limits state
      (continueWith session limits state facts sample hops upstream) := by
  rw [← hhop] at hdate
  unfold continueWith
  dsimp only
  split_ifs with hnodes hdepth
  · exact .last hhops hdate
  · exact .last hhops hdate
  · exact .next hhops hdate hhop.symm rfl (not_le.1 hnodes) (not_le.1 hdepth)

lemma roundCase_finish {evaluated : EvaluatedStatements} {choice : Choice}
    {nonDirect stimulus : Bool} (hdate : IsDated session state sample.activeTime) :
    RoundCase session limits state
      (finish session limits projection state facts evaluated choice nonDirect stimulus
        sample) := by
  unfold finish
  dsimp only
  split
  · exact roundCase_ended hdate rfl
  split
  · exact roundCase_ended hdate rfl
  split
  · exact roundCase_ended hdate rfl
  cases hambiguity : choice.ambiguity with
  | some kind => exact roundCase_ended hdate rfl
  | none =>
      -- without an ambiguity there is a hop, so the chain may go on from it
      have hhops : hopsAfter session projection state facts choice sample =
          state.hops ++ [chainHop session projection state facts choice sample] := by
        unfold hopsAfter
        rw [hambiguity]
        exact if_neg (by simp)
      dsimp only
      split
      · exact roundCase_ended hdate rfl
      split
      · exact roundCase_continueWith hdate hhops (activeTime_chainHop choice)
      split
      · exact roundCase_continueWith hdate hhops (activeTime_chainHop choice)
      · exact roundCase_ended hdate rfl

lemma roundCase_examine {selected : SelectedDesignSignal}
    (hdate : IsDated session state sample.activeTime) :
    RoundCase session limits state
      (examine session limits projection state selected sample) := by
  unfold examine
  dsimp only
  split_ifs
  · exact .last rfl hdate
  · exact .stop rfl
  · refine roundCase_finish fun hmin => ?_
    have hsample := hdate hmin
    exact dateSample_mem_Icc (raceSample_mem_Icc hsample)
      (eventsWithin_chooseAll hsample.2 (eventsWithin_prioritized
        (eventsWithin_observable (eventsWithin_evaluate hsample.2))))

/-- What a round does. -/
lemma round_cases (state : ChainState) :
    RoundCase session limits state (round session limits projection state) := by
  unfold round
  dsimp only
  split_ifs with hvisited hindex hok hinput
  · exact .stop rfl
  · exact .error
  · exact .error
  · exact .last rfl fun hmin => activeTime_mem_Icc (by simpa using hok) hmin
  · exact (roundCase_examine fun hmin => activeTime_mem_Icc (by simpa using hok) hmin).of_visited

/-! ### Whole runs -/

section Runs

variable (session : Session) (limits : Limits) (root : String) (time : ℕ)

/-- The hops after a round. -/
def hopsOf : ChainState ⊕ Outcome → List Hop
  | .inl state => state.hops
  | .inr (.ended ending) => ending.hops
  | .inr (.error _ _) => []

/-- The date of the last hop, which is the time of the query as long as there is none. -/
def timeAfter (hops : List Hop) : ℕ := (hops.getLast?.map (·.activeTime)).getD time

/-- The states of the loop of a request. -/
def Visits (result : ChainState ⊕ Outcome) : Prop :=
  Reaches (step session limits (projectionOf session root)) (.inl (initialState root time)) result

/-- A hop is evaluated at the date of the hop before it: a round that is entered with this time
adds it to the hops before. -/
def IsEvaluatedAfter (before : List Hop) (hop : Hop) : Prop :=
  ∃ state, Visits session limits root time (.inl state) ∧ state.hops = before ∧
    state.currentTime = timeAfter time before ∧
    hopsOf (round session limits (projectionOf session root) state) = before ++ [hop]

/-- The hops of a chain go back in time from the query. -/
structure GoesBack (hops : List Hop) : Prop where
  start : ∀ hop ∈ hops.head?, hop.activeTime ≤ time
  backwards : hops.IsChain fun hop next => next.activeTime ≤ hop.activeTime
  evaluated : ∀ before hop after, hops = before ++ hop :: after →
    IsEvaluatedAfter session limits root time before hop

/-- The hops stay within the limits. -/
structure IsLimited (hops : List Hop) : Prop where
  nodes : hops.length ≤ limits.maxNodes
  depth : hops.length ≤ limits.maxDepth + 1

/-- The invariant of a running chain. -/
structure ChainState.GoesBack (state : ChainState) : Prop where
  hops : ActiveChain.GoesBack session limits root time state.hops
  current : state.currentTime = timeAfter time state.hops
  started : session.waveform.minTime ≤ state.currentTime
  depth : state.depth = state.hops.length
  nodes : state.hops.length < limits.maxNodes
  limited : state.depth ≤ limits.maxDepth

/-- The invariant of the loop. -/
def Invariant : ChainState ⊕ Outcome → Prop
  | .inl state => state.GoesBack session limits root time
  | .inr (.ended ending) => GoesBack session limits root time ending.hops ∧
      IsLimited limits ending.hops
  | .inr (.error _ _) => True

end Runs

variable {root : String} {time : ℕ}

lemma timeAfter_append (hops : List Hop) (hop : Hop) :
    timeAfter time (hops ++ [hop]) = hop.activeTime := by
  simp [timeAfter]

lemma goesBack_nil : GoesBack session limits root time [] where
  start _ h := by simp at h
  backwards := .nil
  evaluated _ _ _ h := by simp at h

/-- A chain that goes back still does with one more hop, evaluated after it. -/
lemma GoesBack.push {hops : List Hop} {hop : Hop} (h : GoesBack session limits root time hops)
    (hdate : hop.activeTime ≤ timeAfter time hops)
    (hhop : IsEvaluatedAfter session limits root time hops hop) :
    GoesBack session limits root time (hops ++ [hop]) where
  start := by
    intro first hfirst
    cases hops with
    | nil =>
        obtain rfl : hop = first := by simpa using hfirst
        simpa [timeAfter] using hdate
    | cons a hops => exact h.start first (by simpa using hfirst)
  backwards := by
    refine List.isChain_append.2 ⟨h.backwards, .singleton hop, ?_⟩
    intro last hlast next hnext
    obtain rfl : hop = next := by simpa using hnext
    rw [timeAfter, Option.mem_def.1 hlast] at hdate
    exact hdate
  evaluated := by
    intro before hop' after heq
    rcases List.eq_nil_or_concat' after with rfl | ⟨after, last, rfl⟩
    · -- the new hop
      obtain ⟨rfl, hlast⟩ := List.append_inj' heq rfl
      obtain rfl : hop = hop' := by simpa using hlast
      exact hhop
    · have hinit : hops = before ++ hop' :: after := by
        rw [← List.cons_append, ← List.append_assoc] at heq
        exact (List.append_inj' heq rfl).1
      exact h.evaluated before hop' after hinit

/-- A hop that a round of the loop adds is evaluated after the hops before. -/
lemma ChainState.GoesBack.push (h : state.GoesBack session limits root time)
    (hvisits : Visits session limits root time (.inl state)) {hop : Hop}
    (hhops : hopsOf (round session limits (projectionOf session root) state) = state.hops ++ [hop])
    (hdate : IsDated session state hop.activeTime) :
    ActiveChain.GoesBack session limits root time (state.hops ++ [hop]) := by
  refine h.hops.push ?_ ⟨state, hvisits, rfl, h.current, hhops⟩
  rw [← h.current]
  exact (hdate h.started).2

lemma invariant_initialState (hmin : session.waveform.minTime ≤ time)
    (hnodes : 0 < limits.maxNodes) :
    Invariant session limits root time (.inl (initialState root time)) where
  hops := goesBack_nil
  current := rfl
  started := hmin
  depth := rfl
  nodes := hnodes
  limited := Nat.zero_le _

/-- A round keeps the invariant. -/
lemma invariant_round (hvisits : Visits session limits root time (.inl state))
    (h : state.GoesBack session limits root time) :
    Invariant session limits root time
      (round session limits (projectionOf session root) state) := by
  have hcase := @round_cases session limits (projectionOf session root) state
  have hpush := fun hop => @ChainState.GoesBack.push session limits state root time h hvisits hop
  have hdepth := h.depth
  have hnodes := h.nodes
  have hlimited := h.limited
  generalize round session limits (projectionOf session root) state = result at hcase hpush ⊢
  cases hcase with
  | error => trivial
  | @stop ending hhops =>
      refine ⟨hhops ▸ h.hops, ?_, ?_⟩
      · rw [hhops]
        exact hnodes.le
      · rw [hhops]
        omega
  | @last ending hop hhops hdate =>
      refine ⟨hhops ▸ hpush hop hhops hdate, ?_, ?_⟩
      · rw [hhops, List.length_append]
        exact hnodes
      · rw [hhops, List.length_append, List.length_singleton]
        omega
  | @next state' hop hhops hdate htime hdepth' hnodes' hlimit =>
      refine ⟨hhops ▸ hpush hop hhops hdate, ?_, ?_, ?_, hnodes', ?_⟩
      · rw [htime, hhops, timeAfter_append]
      · rw [htime]
        exact (hdate h.started).1
      · rw [hdepth', hhops, List.length_append, List.length_singleton, hdepth]
      · omega

lemma invariant_of_visits (hmin : session.waveform.minTime ≤ time)
    (hnodes : 0 < limits.maxNodes) {result : ChainState ⊕ Outcome}
    (h : Visits session limits root time result) :
    Invariant session limits root time result := by
  refine (Reaches.invariant (I := fun result => Visits session limits root time result ∧
    Invariant session limits root time result) ?_ h
    ⟨.refl, invariant_initialState hmin hnodes⟩).2
  rintro (state | outcome) result ⟨hvisits, hstate⟩ hstep
  · refine ⟨hvisits.tail hstep, ?_⟩
    obtain rfl := Option.some.inj hstep
    exact invariant_round hvisits hstate
  · simp [step] at hstep

/-- The number of rounds that a chain can still go through. -/
def rounds (limits : Limits) : ChainState ⊕ Outcome → ℕ
  | .inl state => limits.maxDepth - state.depth + 1
  | .inr _ => 0

/-- The loop ends: a round that goes on raises the depth. -/
lemma exists_runChain (session : Session) (limits : Limits) (root : String) (time : ℕ) :
    ∃ fuel result, runChain session limits root time fuel = some result := by
  refine exists_runLoop (measure (rounds limits)).wf ?_ _
  rintro (state | outcome) result hstep
  · have hcase := @round_cases session limits (projectionOf session root) state
    rw [Option.some.inj hstep] at hcase
    cases hcase with
    | error => exact Nat.succ_pos _
    | stop => exact Nat.succ_pos _
    | last => exact Nat.succ_pos _
    | next _ _ _ hdepth _ hlimit =>
        show limits.maxDepth - _ + 1 < limits.maxDepth - state.depth + 1
        omega
  · simp [step] at hstep

/-- `trace.active_driver_chain` ends, and its hops go back in time, each evaluated at the date of
the hop before it, within the limits of the request. -/
theorem traceActiveDriverChain_goesBack (session : Session) (limits : Limits) (root : String)
    (time : ℕ) (hmin : session.waveform.minTime ≤ time) (hnodes : 0 < limits.maxNodes) :
    (∃ fuel response, traceActiveDriverChain session limits root time fuel = some response) ∧
      ∀ fuel answer, traceActiveDriverChain session limits root time fuel = some (.traced answer) →
        GoesBack session limits root time answer.hops ∧ IsLimited limits answer.hops := by
  constructor
  · obtain ⟨fuel, result, hrun⟩ := exists_runChain session limits root time
    obtain ⟨-, hend⟩ := reaches_of_runLoop hrun
    refine ⟨fuel, ?_⟩
    unfold traceActiveDriverChain
    rw [hrun]
    rcases result with state | ⟨code, message⟩ | ending
    · simp [step] at hend
    · exact ⟨_, rfl⟩
    · exact ⟨_, rfl⟩
  · intro fuel answer hanswer
    obtain ⟨result, hrun, hresult⟩ := Option.bind_eq_some_iff.1 hanswer
    have hinvariant := invariant_of_visits hmin hnodes (reaches_of_runLoop hrun).1
    rcases result with state | ⟨code, message⟩ | ending
    · simp at hresult
    · simp at hresult
    · obtain rfl : respond ending = answer := by simpa using hresult
      exact hinvariant

/-- The dates of the hops of a response. -/
def Response.dates : Response → List ℕ
  | .error _ _ => []
  | .traced answer => answer.hops.map (·.activeTime)

/-- A register `q` that samples `d` at the rising edges of `clk`, where `d` is a copy of `a`. -/
def registerSession : Session where
  waveform := Backend.ofTable [0, 5, 10]
    [("q", [(0, "0"), (1, "1")]), ("d", [(0, "1")]), ("a", [(0, "1")]),
      ("clk", [(0, "0"), (1, "1"), (2, "0")])]
    (by decide) (by decide) (by decide)
  design := .ofSignals
    [{ name := some "q", width := 1
       drivers := [{ srcSignal := 1, kind := "nba", dependencyRole := "rhs"
                     activationPredicate := "1", file := "t.v", line := 4 },
                   { srcSignal := 3, kind := "nba", dependencyRole := "event_posedge"
                     activationPredicate := "1", file := "t.v", line := 4 }] },
     { name := some "d", width := 1
       drivers := [{ srcSignal := 2, kind := "cont_assign", dependencyRole := "rhs"
                     activationPredicate := "1", file := "t.v", line := 2 }] },
     { name := some "a", width := 1 },
     { name := some "clk", width := 1 }]
  sourceContext _ _ := []
  formatTime time := toString time ++ "ns"

theorem registerSession_goesBack :
    (traceActiveDriverChain registerSession {} "q" 12 3).map Response.dates = some [5, 0, 0] ∧
      registerSession.waveform.minTime ≤ 12 ∧
      ∀ answer, traceActiveDriverChain registerSession {} "q" 12 3 = some (.traced answer) →
        GoesBack registerSession {} "q" 12 answer.hops ∧ IsLimited {} answer.hops := by
  refine ⟨by decide +kernel, by decide +kernel, fun answer h => ?_⟩
  exact (traceActiveDriverChain_goesBack registerSession {} "q" 12 (by decide +kernel)
    (by decide)).2 3 answer h

end XdebugFst.Trace.ActiveChain
