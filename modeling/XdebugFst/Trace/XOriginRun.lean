import XdebugFst.Trace.XOrigin

/-!
# Rounds of the X-origin search

One round takes up a state and either ends its chain or continues it.
`Ends` and `Continues` list all the ways in which it can do so, with
what the round has found out on the way; a round adds no other chains
and no other states. That is all the later proofs know about a round.

Every round either takes a state off the stack or expands one of the
bounded number of nodes, so the search ends.
-/

namespace XdebugFst.Trace.XOrigin

open Lib Waveform

/-- A place on a chain. -/
structure Link where
  signal : String
  onset : ℕ
  relation : String
  deriving DecidableEq, Repr

def Hop.link (hop : Hop) : Link := ⟨hop.signal, hop.onset, hop.relation⟩

variable (session : Session) (limits : Limits)

/-- The index of the signal of a state. -/
def stateIndex (state : State) : ℤ := session.design.resolve state.signal

/-- An expanded state, with its own hop. -/
def withHop (state : State) : State :=
  { state with
    hops := state.hops ++ [xHop session state (stateIndex session state)
      (stateSample session state) (stateOnset session state)] }

/-- The statements that are active or unresolved at the signal of a state. -/
def stateEvaluated (state : State) : EvaluatedStatements :=
  evaluated session (stateIndex session state) (stateSample session state)

/-- What the statements of the signal of a state say. -/
def stateFinding (state : State) : Finding :=
  finding session (stateIndex session state) (stateSample session state)

/-- An expanded state whose sources are followed, with the dependencies beyond the limit left
pending. -/
def followed (state : State) (dependencies : List DriverRecord) : State :=
  truncate session limits (withHop session state) dependencies

/-- The sources of an expanded state. -/
def stateSources (state : State) (dependencies : List DriverRecord) : List Source :=
  sourcesOf session (followed session limits state dependencies) (stateIndex session state)
    (dependencies.take limits.maxTraceSignals)

/-- The chain of an origin. -/
def originChain (state : State) (dependencies : List DriverRecord) : Chain :=
  let state' := followed session limits state dependencies
  { finishChain state' (stateSample session state) (stateOnset session state) .originFound
      .candidateXSource state'.complete with
    origin := some (assignmentOrigin session state' (stateOnset session state) .candidateXSource) }

/-- The chains with which a round can end a state. -/
inductive Ends (state : State) : Chain → Prop
  | cut (detail : Detail) : Ends state (finishChain state (stateSample session state)
      (stateOnset session state) .limit detail false)
  | force (hdepth : state.depth ≤ limits.maxDepth) (statement : StatementGroup) :
      Ends state (forceChain (withHop session state) (stateSample session state)
        (stateOnset session state) statement)
  | unresolved (hdepth : state.depth ≤ limits.maxDepth) (detail : Detail) :
      Ends state (finishChain (withHop session state) (stateSample session state)
        (stateOnset session state) .unresolved detail false)
  | loop (hdepth : state.depth ≤ limits.maxDepth) {dependencies : List DriverRecord}
      (hfinding : stateFinding session state = .follow dependencies) {source : Source}
      (hsource : source ∈ stateSources session limits state dependencies)
      (hvisited : isVisited (followed session limits state dependencies) source = true) :
      Ends state (loopChain session (followed session limits state dependencies) source)
  | origin (hdepth : state.depth ≤ limits.maxDepth) {dependencies : List DriverRecord}
      (hfinding : stateFinding session state = .follow dependencies)
      (hnone : stateSources session limits state dependencies = []) :
      Ends state (originChain session limits state dependencies)

/-- The states with which a round can continue a state. -/
inductive Continues (state : State) : State → Prop
  | child (hdepth : state.depth ≤ limits.maxDepth) {dependencies : List DriverRecord}
      (hfinding : stateFinding session state = .follow dependencies) {source : Source}
      (hsource : source ∈ stateSources session limits state dependencies)
      (hfresh : isVisited (followed session limits state dependencies) source = false) :
      Continues state (childState (followed session limits state dependencies) source)
  | branch (hdepth : state.depth ≤ limits.maxDepth) {dependencies : List DriverRecord}
      (hfinding : stateFinding session state = .follow dependencies) {source : Source}
      (hsource : source ∈ stateSources session limits state dependencies)
      (hfresh : isVisited (followed session limits state dependencies) source = false)
      (serial : ℕ) :
      Continues state (branchState (followed session limits state dependencies) source serial)

variable {session limits} {search search' : Search} {state : State}

/-! ### The fate of a state -/

lemma depth_le_of_fate (h : fate session limits search state = .expanded) :
    state.depth ≤ limits.maxDepth := by
  unfold fate at h
  split_ifs at h with _ hdepth
  exact not_lt.1 hdepth

lemma nodes_lt_of_fate (h : fate session limits search state = .expanded) :
    search.nodes < limits.maxNodes := by
  unfold fate at h
  split_ifs at h with _ _ _ _ hnodes
  exact not_le.1 hnodes

/-! ### Dependencies and sources -/

section Dependencies

variable {drivers : List DriverRecord}

/-- One record of the dependency loop. -/
lemma foldl_dependencies (l out : List DriverRecord) {d : DriverRecord} :
    (d ∈ l.foldl (fun out driver =>
        if out.any fun e => e.srcSignal = driver.srcSignal ∧ e.dependencyRole = driver.dependencyRole
        then out else out ++ [driver]) out → d ∈ out ∨ d ∈ l) ∧
      (d ∈ out ∨ d ∈ l → ∃ e ∈ l.foldl (fun out driver =>
        if out.any fun e => e.srcSignal = driver.srcSignal ∧ e.dependencyRole = driver.dependencyRole
        then out else out ++ [driver]) out,
          e.srcSignal = d.srcSignal ∧ e.dependencyRole = d.dependencyRole) := by
  induction l generalizing out d with
  | nil => exact ⟨Or.inl, fun h => ⟨d, by simpa using h, rfl, rfl⟩⟩
  | cons driver l ih =>
      rw [List.foldl_cons]
      split_ifs with hknown
      · obtain ⟨ih1, ih2⟩ := ih out
        refine ⟨fun h => ?_, fun h => ?_⟩
        · exact (ih1 h).imp_right (List.mem_cons_of_mem _)
        · rcases h with h | h
          · exact ih2 (Or.inl h)
          rcases List.mem_cons.1 h with rfl | h
          · -- the record is represented by one that is there already
            obtain ⟨e, he, hkey⟩ := List.any_eq_true.1 hknown
            have hkey' : e.srcSignal = d.srcSignal ∧ e.dependencyRole = d.dependencyRole := by
              simpa using hkey
            obtain ⟨e', he', h1, h2⟩ := (ih (d := e) out).2 (Or.inl he)
            exact ⟨e', he', h1.trans hkey'.1, h2.trans hkey'.2⟩
          · exact ih2 (Or.inr h)
      · obtain ⟨ih1, ih2⟩ := ih (out ++ [driver])
        refine ⟨fun h => ?_, fun h => ih2 ?_⟩
        · rcases ih1 h with h | h
          · rcases List.mem_append.1 h with h | h
            · exact Or.inl h
            · exact Or.inr (by simp [List.mem_singleton.1 h])
          · exact Or.inr (List.mem_cons_of_mem _ h)
        · rcases h with h | h
          · exact Or.inl (List.mem_append_left _ h)
          rcases List.mem_cons.1 h with rfl | h
          · exact Or.inl (by simp)
          · exact Or.inr h

lemma mem_of_mem_dependenciesOf {d : DriverRecord} (h : d ∈ dependenciesOf drivers) :
    d ∈ drivers ∧ isDependency d = true := by
  rcases (foldl_dependencies _ _).1 h with h | h
  · exact absurd h List.not_mem_nil
  · exact List.mem_filter.1 h

/-- Each dependency is represented by one with its source and its role. -/
lemma exists_mem_dependenciesOf {d : DriverRecord} (h : d ∈ drivers) (hd : isDependency d = true) :
    ∃ e ∈ dependenciesOf drivers,
      e.srcSignal = d.srcSignal ∧ e.dependencyRole = d.dependencyRole :=
  (foldl_dependencies _ _).2 (Or.inr (List.mem_filter.2 ⟨h, hd⟩))

lemma dependenciesOf_eq_nil_iff :
    dependenciesOf drivers = [] ↔ ∀ d ∈ drivers, isDependency d = false := by
  constructor
  · intro h d hd
    by_contra hdep
    obtain ⟨e, he, -⟩ := exists_mem_dependenciesOf hd (by simpa using hdep)
    rw [h] at he
    exact List.not_mem_nil he
  · intro h
    refine List.eq_nil_iff_forall_not_mem.2 fun d hd => ?_
    obtain ⟨h1, h2⟩ := mem_of_mem_dependenciesOf hd
    rw [h d h1] at h2
    exact absurd h2 (by decide)

end Dependencies

/-- When the sources of a signal are followed, its statements are active or unknown in the
waveform. -/
lemma stateFinding_eq_follow {dependencies : List DriverRecord}
    (h : stateFinding session state = .follow dependencies) :
    (∀ statement ∈ (stateEvaluated session state).unresolved,
      statement.predicateWaveformUnknown = true) ∧
      dependencies = dependenciesOf (activeDrivers (stateEvaluated session state)) := by
  unfold stateFinding finding at h
  dsimp only at h
  split at h
  · exact absurd h (by simp)
  · split_ifs at h with hany hinactive
    refine ⟨fun statement hmem => ?_, (Finding.follow.inj h).symm⟩
    by_contra hknown
    exact hany (List.any_eq_true.2 ⟨statement, hmem, by simpa using hknown⟩)

/-- Without a source, the signal has no name or does not read X. -/
lemma xSource_eq_none {time : ℕ} {signal relation : String} {driver : DriverRecord} :
    xSource session time signal relation driver = none ↔
      signal = "" ∨ ¬ ReadsX session.waveform signal time := by
  unfold xSource ReadsX
  dsimp only
  split_ifs with hskip
  · simp only [true_iff]
    refine hskip.imp_right fun h => ?_
    rintro ⟨hok, hx⟩
    rcases h with h | h
    · rw [h] at hok
      exact absurd hok (by decide)
    · rw [h] at hx
      exact absurd hx (by decide)
  · simp only [not_or, Bool.not_eq_false] at hskip
    simp [hskip]

/-- A source is a signal that reads X, with its onset. -/
lemma xSource_eq_some {time : ℕ} {signal relation : String} {driver : DriverRecord}
    {source : Source} (h : xSource session time signal relation driver = some source) :
    ReadsX session.waveform signal time ∧ source =
      { signal, relation, onset := xOnsetTime session.waveform
          (sampleAt session.waveform signal time), driver } := by
  unfold xSource at h
  dsimp only at h
  split_ifs at h with hskip
  simp only [not_or, Bool.not_eq_false] at hskip
  exact ⟨⟨hskip.2.1, hskip.2.2⟩, (Option.some.inj h).symm⟩

lemma followed_time {dependencies : List DriverRecord} :
    (followed session limits state dependencies).time = state.time := by
  unfold followed truncate
  split_ifs <;> rfl

/-- A source of an expanded state reads X at its time, and it is a dependency, or a port
when no dependency is followed. -/
lemma mem_stateSources {dependencies : List DriverRecord} {source : Source}
    (h : source ∈ stateSources session limits state dependencies) :
    ReadsX session.waveform source.signal state.time ∧
      source.onset = xOnsetTime session.waveform
        (sampleAt session.waveform source.signal state.time) ∧
      ((∃ driver ∈ dependencies, session.design.signalName driver.srcSignal = source.signal ∧
          driver.dependencyRole = source.relation) ∨
        dependencies.take limits.maxTraceSignals = [] ∧ source.relation = "port" ∧
          ∃ port ∈ session.design.portConnections (stateIndex session state),
            session.design.signalName (port.other (stateIndex session state)) = source.signal) := by
  unfold stateSources sourcesOf at h
  rw [followed_time] at h
  rcases List.mem_append.1 h with h | h
  · obtain ⟨driver, hdriver, hsource⟩ := List.mem_filterMap.1 h
    obtain ⟨hreads, rfl⟩ := xSource_eq_some hsource
    exact ⟨hreads, rfl, Or.inl ⟨driver, List.mem_of_mem_take hdriver, rfl, rfl⟩⟩
  · split_ifs at h with hnone
    · obtain ⟨port, hport, hsource⟩ := List.mem_filterMap.1 (List.mem_filter.1 h).1
      obtain ⟨hreads, rfl⟩ := xSource_eq_some hsource
      exact ⟨hreads, rfl, Or.inr ⟨hnone, rfl, port, hport, rfl⟩⟩
    · exact absurd h List.not_mem_nil

/-! ### What a round adds -/

/-- What following the sources adds. -/
lemma follow_adds (hdepth : state.depth ≤ limits.maxDepth) {dependencies : List DriverRecord}
    (hfinding : stateFinding session state = .follow dependencies)
    (h : follow session limits search (withHop session state) (stateIndex session state)
      (stateSample session state) (stateOnset session state) dependencies = search') :
    (∀ chain ∈ search'.chains, chain ∈ search.chains ∨ Ends session limits state chain) ∧
      ∀ child ∈ search'.pending, child ∈ search.pending ∨ Continues session limits state child := by
  subst h
  unfold follow
  dsimp only
  set state' := truncate session limits (withHop session state) dependencies
  set candidates := sourcesOf session state' (stateIndex session state)
    (dependencies.take limits.maxTraceSignals)
  have hloops : ∀ chain ∈ (candidates.filter (isVisited state')).map (loopChain session state'),
      Ends session limits state chain := by
    intro chain hchain
    obtain ⟨source, hsource, rfl⟩ := List.mem_map.1 hchain
    exact .loop hdepth hfinding (List.mem_filter.1 hsource).1 (List.mem_filter.1 hsource).2
  split_ifs with hsources hloop
  · -- an origin: no candidate is left at all
    refine ⟨fun chain hchain => ?_, fun child hchild => Or.inl hchild⟩
    rcases List.mem_append.1 hchain with hchain | hchain
    · rcases List.mem_append.1 hchain with hchain | hchain
      · exact Or.inl hchain
      · exact Or.inr (hloops chain hchain)
    · right
      have hnone : candidates = [] := by
        refine List.eq_nil_iff_forall_not_mem.2 fun source hsource => ?_
        rw [List.filter_eq_nil_iff] at hsources hloop
        have h1 := hsources source hsource
        have h2 := hloop source hsource
        simp_all
      rw [List.mem_singleton.1 hchain]
      exact .origin hdepth hfinding hnone
  · refine ⟨fun chain hchain => ?_, fun child hchild => Or.inl hchild⟩
    rcases List.mem_append.1 hchain with hchain | hchain
    · exact Or.inl hchain
    · exact Or.inr (hloops chain hchain)
  · refine ⟨fun chain hchain => ?_, fun child hchild => ?_⟩
    · rcases List.mem_append.1 hchain with hchain | hchain
      · exact Or.inl hchain
      · exact Or.inr (hloops chain hchain)
    · rcases List.mem_append.1 hchild with hchild | hchild
      · right
        obtain ⟨source, rest, hcons⟩ := List.exists_cons_of_ne_nil hsources
        have hmem : ∀ s ∈ source :: rest, s ∈ candidates ∧ isVisited state' s = false := by
          intro s hs
          rw [← hcons, List.mem_filter] at hs
          exact ⟨hs.1, by simpa using hs.2⟩
        rw [hcons, childrenOf] at hchild
        rcases List.mem_cons.1 hchild with rfl | hchild
        · obtain ⟨h1, h2⟩ := hmem source List.mem_cons_self
          exact .child hdepth hfinding h1 h2
        · obtain ⟨i, hi, rfl⟩ := List.mem_mapIdx.1 hchild
          obtain ⟨h1, h2⟩ := hmem rest[i] (List.mem_cons_of_mem _ (List.getElem_mem hi))
          exact .branch hdepth hfinding h1 h2 _
      · exact Or.inl hchild

/-- What expanding a state adds. -/
lemma expand_adds (hdepth : state.depth ≤ limits.maxDepth) :
    (∀ chain ∈ (expand session limits search state).chains,
      chain ∈ search.chains ∨ Ends session limits state chain) ∧
      ∀ child ∈ (expand session limits search state).pending,
        child ∈ search.pending ∨ Continues session limits state child := by
  unfold expand
  dsimp only
  cases hfinding : finding session (session.design.resolve state.signal)
      (stateSample session state) with
  | force statement =>
      refine ⟨fun chain hchain => ?_, fun child hchild => Or.inl hchild⟩
      rcases List.mem_append.1 hchain with hchain | hchain
      · exact Or.inl hchain
      · rw [List.mem_singleton.1 hchain]
        exact Or.inr (.force hdepth statement)
  | unresolvedPredicate =>
      refine ⟨fun chain hchain => ?_, fun child hchild => Or.inl hchild⟩
      rcases List.mem_append.1 hchain with hchain | hchain
      · exact Or.inl hchain
      · rw [List.mem_singleton.1 hchain]
        exact Or.inr (.unresolved hdepth _)
  | inactive =>
      refine ⟨fun chain hchain => ?_, fun child hchild => Or.inl hchild⟩
      rcases List.mem_append.1 hchain with hchain | hchain
      · exact Or.inl hchain
      · rw [List.mem_singleton.1 hchain]
        exact Or.inr (.unresolved hdepth _)
  | follow dependencies => 
      exact @follow_adds session limits { search with nodes := search.nodes + 1 } _ state hdepth _
        hfinding rfl

/-- What a round adds. -/
lemma visit_adds :
    (∀ chain ∈ (visit session limits search state).chains,
      chain ∈ search.chains ∨ Ends session limits state chain) ∧
      ∀ child ∈ (visit session limits search state).pending,
        child ∈ search.pending ∨ Continues session limits state child := by
  have hcut : ∀ (s : Search) (detail : Detail), ∀ chain ∈ (cut session s state detail).chains,
      chain ∈ s.chains ∨ Ends session limits state chain := by
    intro s detail chain hchain
    rcases List.mem_append.1 hchain with hchain | hchain
    · exact Or.inl hchain
    · rw [List.mem_singleton.1 hchain]
      exact Or.inr (.cut detail)
  unfold visit
  dsimp only
  cases hfate : fate session limits search state with
  | unsampled => exact ⟨fun _ => Or.inl, fun _ => Or.inl⟩
  | tooDeep => exact ⟨hcut _ _, fun _ => Or.inl⟩
  | explored => exact ⟨fun _ => Or.inl, fun _ => Or.inl⟩
  | globalLimit => exact ⟨hcut _ _, fun _ => Or.inl⟩
  | nodeLimit => exact ⟨hcut _ _, fun _ => Or.inl⟩
  | timeLimit => exact ⟨hcut _ _, fun _ => Or.inl⟩
  | expanded => exact expand_adds (depth_le_of_fate hfate)

/-- Only an expanded state is ended by anything but a limit. -/
lemma visit_expanded {chain : Chain} (h : chain ∈ (visit session limits search state).chains) :
    chain ∈ search.chains ∨ chain.status = .limit ∨
      fate session limits search state = .expanded := by
  have hcut : ∀ (s : Search) (detail : Detail), s.chains = search.chains →
      chain ∈ (cut session s state detail).chains → chain ∈ search.chains ∨ chain.status = .limit := by
    intro s detail hs hchain
    rcases List.mem_append.1 hchain with hchain | hchain
    · exact Or.inl (hs ▸ hchain)
    · rw [List.mem_singleton.1 hchain]
      exact Or.inr rfl
  unfold visit at h
  dsimp only at h
  cases hfate : fate session limits search state with
  | expanded => exact Or.inr (Or.inr rfl)
  | unsampled => exact Or.inl (by simpa [hfate] using h)
  | explored => exact Or.inl (by simpa [hfate] using h)
  | tooDeep =>
      rw [hfate] at h
      exact (hcut _ _ rfl h).imp_right Or.inl
  | globalLimit =>
      rw [hfate] at h
      exact (hcut _ _ rfl h).imp_right Or.inl
  | nodeLimit =>
      rw [hfate] at h
      exact (hcut _ _ rfl h).imp_right Or.inl
  | timeLimit =>
      rw [hfate] at h
      exact (hcut _ _ rfl h).imp_right Or.inl

/-- A state without sources is ended as an origin. -/
lemma originChain_mem_visit {dependencies : List DriverRecord}
    (hfate : fate session limits search state = .expanded)
    (hfinding : stateFinding session state = .follow dependencies)
    (hnone : stateSources session limits state dependencies = []) :
    originChain session limits state dependencies ∈ (visit session limits search state).chains := by
  have hfollow : ∀ s : Search, originChain session limits state dependencies ∈
      (follow session limits s (withHop session state) (stateIndex session state)
        (stateSample session state) (stateOnset session state) dependencies).chains := by
    intro s
    have hsources : sourcesOf session
        (truncate session limits (withHop session state) dependencies) (stateIndex session state)
        (dependencies.take limits.maxTraceSignals) = [] := hnone
    unfold follow
    dsimp only
    rw [hsources, List.filter_nil, List.filter_nil, if_pos rfl, if_pos rfl]
    exact List.mem_append_right _ (List.mem_singleton_self _)
  unfold visit
  dsimp only
  rw [hfate]
  dsimp only
  unfold expand
  dsimp only
  have hfinding' : finding session (session.design.resolve state.signal)
      (stateSample session state) = .follow dependencies := hfinding
  rw [hfinding']
  exact hfollow _

lemma step_eq_some (h : step session limits search = some search') :
    ∃ state rest, search.pending = state :: rest ∧
      search' = visit session limits { search with pending := rest } state := by
  unfold step at h
  cases hpending : search.pending with
  | nil => simp [hpending] at h
  | cons state rest =>
      rw [hpending] at h
      exact ⟨state, rest, rfl, (Option.some.inj h).symm⟩

/-- What holds of all states and all chains is kept by a round if it is kept from a state to
what the state is ended or continued with. -/
lemma step_forall {P : State → Prop} {Q : Chain → Prop}
    (hends : ∀ state chain, P state → Ends session limits state chain → Q chain)
    (hcontinues : ∀ state child, P state → Continues session limits state child → P child)
    (hP : ∀ state ∈ search.pending, P state) (hQ : ∀ chain ∈ search.chains, Q chain)
    (h : step session limits search = some search') :
    (∀ state ∈ search'.pending, P state) ∧ ∀ chain ∈ search'.chains, Q chain := by
  obtain ⟨state, rest, hpending, rfl⟩ := step_eq_some h
  have hstate := hP state (by simp [hpending])
  refine ⟨fun child hchild => ?_, fun chain hchain => ?_⟩
  · rcases visit_adds.2 child hchild with hchild | hchild
    · exact hP child (by rw [hpending]; exact List.mem_cons_of_mem _ hchild)
    · exact hcontinues state child hstate hchild
  · rcases visit_adds.1 chain hchain with hchain | hchain
    · exact hQ chain hchain
    · exact hends state chain hstate hchain

/-! ### What a round keeps -/

lemma follow_keeps {index : ℤ} {sample : Sample} {onset : ℕ} {dependencies : List DriverRecord} :
    (∀ s ∈ search.pending, s ∈
        (follow session limits search state index sample onset dependencies).pending) ∧
      ∀ c ∈ search.chains, c ∈
        (follow session limits search state index sample onset dependencies).chains := by
  unfold follow
  dsimp only
  split_ifs
  · exact ⟨fun s h => h, fun c h => List.mem_append_left _ (List.mem_append_left _ h)⟩
  · exact ⟨fun s h => h, fun c h => List.mem_append_left _ h⟩
  · exact ⟨fun s h => List.mem_append_right _ h, fun c h => List.mem_append_left _ h⟩

lemma expand_keeps :
    (∀ s ∈ search.pending, s ∈ (expand session limits search state).pending) ∧
      ∀ c ∈ search.chains, c ∈ (expand session limits search state).chains := by
  unfold expand
  dsimp only
  split
  · exact ⟨fun s h => h, fun c h => List.mem_append_left _ h⟩
  · exact ⟨fun s h => h, fun c h => List.mem_append_left _ h⟩
  · exact ⟨fun s h => h, fun c h => List.mem_append_left _ h⟩
  · exact @follow_keeps session limits { search with nodes := search.nodes + 1 } _ _ _ _ _

/-- A round keeps the other states and all chains. -/
lemma visit_keeps :
    (∀ s ∈ search.pending, s ∈ (visit session limits search state).pending) ∧
      ∀ c ∈ search.chains, c ∈ (visit session limits search state).chains := by
  unfold visit
  dsimp only
  cases fate session limits search state with
  | unsampled => exact ⟨fun s h => h, fun c h => h⟩
  | explored => exact ⟨fun s h => h, fun c h => h⟩
  | tooDeep => exact ⟨fun s h => h, fun c h => List.mem_append_left _ h⟩
  | globalLimit => exact ⟨fun s h => h, fun c h => List.mem_append_left _ h⟩
  | nodeLimit => exact ⟨fun s h => h, fun c h => List.mem_append_left _ h⟩
  | timeLimit => exact ⟨fun s h => h, fun c h => List.mem_append_left _ h⟩
  | expanded =>
      dsimp only
      exact ⟨fun s h => expand_keeps.1 s h, fun c h => expand_keeps.2 c h⟩

/-! ### Nodes and termination -/

lemma nodes_expand : (expand session limits search state).nodes = search.nodes + 1 := by
  unfold expand
  dsimp only
  split
  · rfl
  · rfl
  · rfl
  · unfold follow
    dsimp only
    split_ifs <;> rfl

/-- A round expands a node below the limit, or it takes a state off the stack and leaves
everything else on it. -/
lemma visit_nodes :
    ((visit session limits search state).nodes = search.nodes + 1 ∧
      search.nodes < limits.maxNodes) ∨
      ((visit session limits search state).nodes = search.nodes ∧
        (visit session limits search state).pending = search.pending) := by
  unfold visit
  dsimp only
  cases hfate : fate session limits search state with
  | expanded => exact Or.inl ⟨nodes_expand, nodes_lt_of_fate hfate⟩
  | _ => exact Or.inr ⟨rfl, rfl⟩

/-- The nodes still allowed, and the states still on the stack. -/
def remaining (limits : Limits) (search : Search) : ℕ ×ₗ ℕ :=
  toLex (limits.maxNodes - search.nodes, search.pending.length)

lemma remaining_lt (h : step session limits search = some search') :
    remaining limits search' < remaining limits search := by
  obtain ⟨state, rest, hpending, rfl⟩ := step_eq_some h
  unfold remaining
  rw [Prod.Lex.toLex_lt_toLex]
  rcases @visit_nodes session limits { search with pending := rest } state with
    ⟨hnodes, hlt⟩ | ⟨hnodes, hpend⟩
  · left
    simp only at hnodes hlt ⊢
    omega
  · right
    simp only at hnodes hpend ⊢
    rw [hnodes, hpend, hpending]
    exact ⟨rfl, by simp⟩

/-- The search ends on every design and waveform. -/
lemma exists_runSearch (root : String) (query : Sample) :
    ∃ fuel search, runSearch session limits root query fuel = some search :=
  exists_runLoop (InvImage.wf (remaining limits) wellFounded_lt)
    (fun _ _ h => remaining_lt h) (initialSearch session root query)

lemma step_nodes_le (hle : search.nodes ≤ limits.maxNodes)
    (h : step session limits search = some search') : search'.nodes ≤ limits.maxNodes := by
  obtain ⟨state, rest, -, rfl⟩ := step_eq_some h
  rcases @visit_nodes session limits { search with pending := rest } state with
    ⟨hnodes, hlt⟩ | ⟨hnodes, -⟩
  · rw [hnodes]
    exact hlt
  · rw [hnodes]
    exact hle

/-! ### The answer -/

/-- A chain of the answer that comes from a chain of the search. -/
structure IsAnswerOf (built chain : Chain) : Prop where
  hops : chain.hops.map Hop.link = built.hops.map Hop.link
  status : chain.status = built.status
  detail : chain.detail = built.detail
  current : chain.current = built.current
  complete : chain.complete = true → built.complete = true

lemma mem_foldl_coalesceStep {chains : List Chain} {kept : List (String × Chain)}
    {e : String × Chain} (h : e ∈ chains.foldl (coalesceStep session) kept) :
    e ∈ kept ∨ e.2 ∈ chains := by
  induction chains generalizing kept with
  | nil => exact Or.inl h
  | cons chain chains ih =>
      rcases ih h with h | h
      · unfold coalesceStep at h
        dsimp only at h
        split_ifs at h
        · obtain ⟨e', he', rfl⟩ := List.mem_map.1 h
          split_ifs
          · exact Or.inr List.mem_cons_self
          · exact Or.inl he'
        · rcases List.mem_append.1 h with h | h
          · exact Or.inl h
          · rw [List.mem_singleton.1 h]
            exact Or.inr List.mem_cons_self
      · exact Or.inr (List.mem_cons_of_mem _ h)

lemma mem_of_mem_coalesce {chains : List Chain} {chain : Chain}
    (h : chain ∈ coalesce session chains) : chain ∈ chains := by
  obtain ⟨e, he, rfl⟩ := List.mem_map.1 h
  rcases mem_foldl_coalesceStep he with h | h
  · exact absurd h List.not_mem_nil
  · exact h

lemma mem_capChains {chains : List Chain} {limitations : List String} {chain : Chain}
    (h : chain ∈ (capChains limits chains limitations).1) :
    ∃ built ∈ chains, IsAnswerOf built chain := by
  unfold capChains at h
  split_ifs at h
  · have hmem := List.mem_of_mem_take h
    cases chains with
    | nil => exact absurd hmem List.not_mem_nil
    | cons first rest =>
        rw [List.modifyHead_cons] at hmem
        rcases List.mem_cons.1 hmem with rfl | hmem
        · exact ⟨first, List.mem_cons_self, rfl, rfl, rfl, rfl, fun h => absurd h (by simp [retain])⟩
        · exact ⟨chain, List.mem_cons_of_mem _ hmem, rfl, rfl, rfl, rfl, id⟩
  · exact ⟨chain, h, rfl, rfl, rfl, rfl, id⟩

/-- Every chain of the answer comes from a chain of the search. -/
lemma mem_respond {chain : Chain} (h : chain ∈ (respond session limits search).chains) :
    ∃ built ∈ search.chains, IsAnswerOf built chain := by
  obtain ⟨i, hi, rfl⟩ := List.mem_mapIdx.1 h
  obtain ⟨built, hbuilt, hof⟩ := mem_capChains (List.getElem_mem hi)
  refine ⟨built, mem_of_mem_coalesce hbuilt, ?_, hof.status, hof.detail, hof.current, hof.complete⟩
  rw [← hof.hops]
  simp only [List.map_map]
  rfl

/-- When chains are traced, the signal reads X and the search has ended. -/
lemma traceXOrigin_eq_traced {root : String} {time fuel : ℕ} {answer : Answer}
    (h : traceXOrigin session limits root time fuel = some (.traced answer)) :
    0 ≤ session.design.resolve root ∧ ReadsX session.waveform root time ∧
      ∃ search, runSearch session limits root (sampleAt session.waveform root time) fuel =
        some search ∧ answer = respond session limits search := by
  unfold traceXOrigin at h
  dsimp only at h
  split_ifs at h with hresolve hok hx
  · simp at h
  · simp at h
  · simp at h
  · obtain ⟨search, hrun, hanswer⟩ := Option.map_eq_some_iff.1 h
    exact ⟨not_lt.1 hresolve, ⟨by simpa using hok, by simpa using hx⟩, search, hrun,
      (Response.traced.inj hanswer).symm⟩

/-- The action ends on every design and waveform. -/
lemma exists_traceXOrigin (root : String) (time : ℕ) :
    ∃ fuel response, traceXOrigin session limits root time fuel = some response := by
  obtain ⟨fuel, search, hrun⟩ := @exists_runSearch session limits root
    (sampleAt session.waveform root time)
  refine ⟨fuel, ?_⟩
  unfold traceXOrigin
  dsimp only
  rw [hrun]
  split_ifs <;> exact ⟨_, rfl⟩

end XdebugFst.Trace.XOrigin
