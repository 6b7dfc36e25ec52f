import XdebugFst.Trace.XOriginRun

/-!
# Chains of the X-origin search are causal paths

A chain is a list of places: a signal, the onset of its X, and how the
place before depends on it. The places of a chain that is still growing
form a path together with the signal that is taken up next, and a round
extends the path by a source that is not on it yet.

A source is a dependency of a statement that is active or unknown in the
waveform, or a port. Ports are looked at when the statements that are
left have no dependencies: a force that the waveform does not show and
everything beside a single non-blocking assignment have been set aside
before. So a signal with an active statement that depends on something
can be followed through its ports all the same.
-/

namespace XdebugFst.Trace.XOrigin

open Lib Waveform

namespace Link

def pair (link : Link) : String × ℕ := (link.signal, link.onset)

def key (link : Link) : String := visitKey link.signal link.onset

variable (session : Session) (link : Link)

def index : ℤ := session.design.resolve link.signal

def sample : Sample := sampleAt session.waveform link.signal link.onset

/-- The statements whose predicate is active or unknown in the waveform at the place. -/
def statements : List StatementGroup :=
  (statementGroups (allDrivers session (link.index session))).filter fun statement =>
    let verdict := session.evaluatePredicate statement (link.sample session).activeTime
    verdict = .active ∨ verdict = .waveformUnknown

/-- The statements that are left after the rules for unobserved forces and for a single
non-blocking assignment. -/
def remaining : List StatementGroup :=
  let statements := evaluated session (link.index session) (link.sample session)
  statements.active ++ statements.unresolved

end Link

/-- Some statement has a dependency. -/
def HasDependency (statements : List StatementGroup) : Prop :=
  ∃ statement ∈ statements, ∃ record ∈ statement.records, isDependency record = true

instance (statements : List StatementGroup) : Decidable (HasDependency statements) :=
  inferInstanceAs (Decidable (∃ statement ∈ statements, ∃ record ∈ statement.records, _))

section Definitions

variable (session : Session)

/-- A statement that is active or unknown depends on the next place. -/
def IsStatementSource (link next : Link) : Prop :=
  ∃ statement ∈ link.statements session, ∃ record ∈ statement.records,
    isDependency record = true ∧ record.dependencyRole = next.relation ∧
      session.design.signalName record.srcSignal = next.signal

/-- A port connects the place to the next one. -/
def IsPortSource (link next : Link) : Prop :=
  next.relation = "port" ∧ ∃ port ∈ session.design.portConnections (link.index session),
    session.design.signalName (port.other (link.index session)) = next.signal

/-- A source by a statement, or by a port when no statement that is active or unknown has a
dependency. -/
def IsStrictSource (link next : Link) : Prop :=
  IsStatementSource session link next ∨
    IsPortSource session link next ∧ ¬ HasDependency (link.statements session)

/-- A source by a statement, or by a port when no statement that is left has a dependency. -/
def IsSource (link next : Link) : Prop :=
  IsStatementSource session link next ∨
    IsPortSource session link next ∧ ¬ HasDependency (link.remaining session)

/-- A path of places back in time. -/
structure IsPath (source : Link → Link → Prop) (time : ℕ) (path : List Link) : Prop where
  onset : ∀ link ∈ path, IsXOnset session.waveform link.signal link.onset
  backwards : path.IsChain fun link next => next.onset ≤ link.onset
  source : path.IsChain source
  start : ∀ link ∈ path.head?, link.onset ≤ time
  nodup : (path.map Link.pair).Nodup

/-- A chain whose hops are a path of bounded length. -/
structure IsCausal (limits : Limits) (source : Link → Link → Prop) (time : ℕ) (chain : Chain) :
    Prop where
  path : IsPath session source time (chain.hops.map Hop.link)
  length : chain.hops.length ≤ limits.maxDepth + 1

end Definitions

/-! ### Paths -/

section Paths

variable {session : Session} {source : Link → Link → Prop} {time : ℕ} {path : List Link}
  {link next : Link}

lemma IsPath.singleton (honset : IsXOnset session.waveform link.signal link.onset)
    (hstart : link.onset ≤ time) : IsPath session source time [link] where
  onset := by simpa using honset
  backwards := List.isChain_singleton _
  source := List.isChain_singleton _
  start := by simpa using hstart
  nodup := List.nodup_singleton _

/-- A path without its last place is a path. -/
lemma IsPath.init (h : IsPath session source time (path ++ [link])) :
    IsPath session source time path where
  onset l hl := h.onset l (List.mem_append_left _ hl)
  backwards := h.backwards.left_of_append
  source := h.source.left_of_append
  start l hl := h.start l (by
    rw [Option.mem_def] at hl ⊢
    rw [List.head?_append, hl]
    rfl)
  nodup := by
    have := h.nodup
    rw [List.map_append] at this
    exact this.of_append_left

/-- A path is extended by a source of its last place that is not on it. -/
lemma IsPath.extend (h : IsPath session source time (path ++ [link]))
    (honset : IsXOnset session.waveform next.signal next.onset) (hle : next.onset ≤ link.onset)
    (hsource : source link next) (hfresh : next.pair ∉ (path ++ [link]).map Link.pair) :
    IsPath session source time (path ++ [link] ++ [next]) where
  onset l hl := by
    rcases List.mem_append.1 hl with hl | hl
    · exact h.onset l hl
    · rw [List.mem_singleton.1 hl]
      exact honset
  backwards := List.isChain_append.2 ⟨h.backwards, List.isChain_singleton _, by simpa using hle⟩
  source := List.isChain_append.2 ⟨h.source, List.isChain_singleton _, by simpa using hsource⟩
  start l hl := h.start l (by
    rw [Option.mem_def] at hl ⊢
    rw [← hl]
    simp [List.head?_append])
  nodup := by
    rw [List.map_append, List.nodup_append]
    refine ⟨h.nodup, List.nodup_singleton _, ?_⟩
    rintro a ha b hb rfl
    rw [List.map_singleton, List.mem_singleton] at hb
    exact hfresh (hb ▸ ha)

end Paths

/-! ### Growing chains -/

/-- The places of a growing chain and of the signal that is taken up next. -/
def State.path (state : State) : List Link :=
  state.hops.map Hop.link ++ [⟨state.signal, state.time, state.relation⟩]

/-- A chain that is still growing. -/
structure IsGrowing (session : Session) (limits : Limits) (rel : Link → Link → Prop) (time : ℕ)
    (state : State) : Prop where
  path : IsPath session rel time state.path
  visited : state.visited = state.path.map Link.key
  depth : state.depth = state.hops.length
  bound : state.depth ≤ limits.maxDepth + 1

section Growing

variable {session : Session} {limits : Limits} {rel : Link → Link → Prop} {time : ℕ} {state : State}

lemma IsGrowing.onset (h : IsGrowing session limits rel time state) :
    IsXOnset session.waveform state.signal state.time :=
  h.path.onset ⟨state.signal, state.time, state.relation⟩ (by simp [State.path])

/-- The time of a growing chain is the onset. -/
lemma IsGrowing.stateOnset_eq (h : IsGrowing session limits rel time state) :
    stateOnset session state = state.time := xOnsetTime_of_isXOnset h.onset

/-- The hops of an expanded state are its path. -/
lemma IsGrowing.hops_withHop (h : IsGrowing session limits rel time state) :
    (withHop session state).hops.map Hop.link = state.path := by
  unfold withHop State.path
  dsimp only
  rw [List.map_append, h.stateOnset_eq]
  rfl

lemma truncate_hops {dependencies : List DriverRecord} :
    (truncate session limits state dependencies).hops = state.hops ∧
      (truncate session limits state dependencies).visited = state.visited ∧
      (truncate session limits state dependencies).depth = state.depth := by
  unfold truncate
  split_ifs <;> exact ⟨rfl, rfl, rfl⟩

lemma followed_hops {dependencies : List DriverRecord} :
    (followed session limits state dependencies).hops = (withHop session state).hops ∧
      (followed session limits state dependencies).visited = state.visited ∧
      (followed session limits state dependencies).depth = state.depth := truncate_hops

/-- The chain of an expanded state is causal. -/
lemma IsGrowing.isCausal_withHop (h : IsGrowing session limits rel time state)
    (hdepth : state.depth ≤ limits.maxDepth) {chain : Chain}
    (hhops : chain.hops.map Hop.link = (withHop session state).hops.map Hop.link) :
    IsCausal session limits rel time chain := by
  refine ⟨?_, ?_⟩
  · rw [hhops, h.hops_withHop]
    exact h.path
  · have hlen := congrArg List.length hhops
    rw [h.hops_withHop] at hlen
    simp only [State.path, List.length_map, List.length_append, List.length_singleton] at hlen
    have := h.depth
    omega

/-- A force changes the place of the last hop in the source only. -/
lemma forceChain_hops {sample : Sample} {onset : ℕ} {statement : StatementGroup}
    (hne : state.hops ≠ []) :
    (forceChain state sample onset statement).hops.map Hop.link = state.hops.map Hop.link := by
  unfold forceChain finishChain
  dsimp only
  cases representativeDriver statement with
  | none => rfl
  | some driver =>
      dsimp only
      conv_rhs => rw [← List.dropLast_append_getLast hne]
      rw [List.getLast?_eq_some_getLast hne, List.map_append, List.map_append]
      rfl

/-- A chain with which a round ends a state is causal. -/
lemma isCausal_of_ends {chain : Chain} (h : IsGrowing session limits rel time state)
    (hends : Ends session limits state chain) :
    IsCausal session limits rel time chain := by
  cases hends with
  | cut detail =>
      refine ⟨h.path.init, ?_⟩
      have h1 := h.depth
      have h2 := h.bound
      simp only [finishChain]
      omega
  | force hdepth statement =>
      exact h.isCausal_withHop hdepth (forceChain_hops (by simp [withHop]))
  | unresolved hdepth detail => exact h.isCausal_withHop hdepth rfl
  | loop hdepth hfinding hsource hvisited =>
      exact h.isCausal_withHop hdepth (congrArg _ followed_hops.1)
  | origin hdepth hfinding hnone =>
      exact h.isCausal_withHop hdepth (congrArg _ followed_hops.1)

/-- The statements that are left are statements that are active, unknown or unresolved. -/
lemma mem_statements_of_mem_evaluated {link : Link} {s : StatementGroup}
    (h : s ∈ (evaluated session (link.index session) (link.sample session)).active ∨
      s ∈ (evaluated session (link.index session) (link.sample session)).unresolved ∧
        s.predicateWaveformUnknown = true) :
    ∃ statement ∈ link.statements session, statement.records = s.records := by
  unfold Link.statements
  rcases h with h | ⟨h, hunknown⟩
  · have hs := mem_of_mem_suppressForce.1 (mem_of_mem_applyUniqueNbaPriority.1 h)
    obtain ⟨g, hg, heval⟩ := mem_active hs
    obtain ⟨rfl, hverdict⟩ := isEvaluated_zero.1 heval
    rw [eventTime_of_mem hg, Option.getD_none] at hverdict
    exact ⟨s, List.mem_filter.2 ⟨hg, by simp [hverdict]⟩, rfl⟩
  · have hs := mem_of_mem_suppressForce.2 (mem_of_mem_applyUniqueNbaPriority.2 h)
    obtain ⟨g, hg, s', ⟨heval, rfl⟩ | ⟨heval, rfl⟩⟩ := mem_unresolved hs
    · obtain ⟨rfl, hverdict⟩ := isEvaluated_zero.1 heval
      rw [eventTime_of_mem hg, Option.getD_none] at hverdict
      exact ⟨s', List.mem_filter.2 ⟨hg, by simp [hverdict]⟩, rfl⟩
    · -- it was not marked, so it is not unknown in the waveform
      obtain ⟨rfl, -⟩ := isEvaluated_zero.1 heval
      rw [predicateWaveformUnknown_of_mem hg] at hunknown
      exact absurd hunknown (by decide)

/-- The place of a source. -/
def Source.link (source : Source) : Link := ⟨source.signal, source.onset, source.relation⟩

/-- A source of an expanded state is a source of its signal. -/
lemma isSource_of_mem_stateSources (hpos : 0 < limits.maxTraceSignals)
    {dependencies : List DriverRecord} {source : Source}
    (hfinding : stateFinding session state = .follow dependencies)
    (hsource : source ∈ stateSources session limits state dependencies) :
    IsSource session ⟨state.signal, state.time, state.relation⟩ source.link := by
  obtain ⟨-, -, hkind⟩ := mem_stateSources hsource
  obtain ⟨hunknown, hdeps⟩ := stateFinding_eq_follow hfinding
  rw [hdeps] at hkind
  rcases hkind with ⟨driver, hdriver, hsignal, hrole⟩ | ⟨hnone, hport, port, hmem, hsignal⟩
  · left
    obtain ⟨hactive, hdep⟩ := mem_of_mem_dependenciesOf hdriver
    obtain ⟨s, hs, hrecord⟩ := List.mem_flatMap.1 hactive
    obtain ⟨statement, hstatement, hrecords⟩ := @mem_statements_of_mem_evaluated session
      ⟨state.signal, state.time, state.relation⟩ s
        ((List.mem_append.1 hs).imp_right fun hs => ⟨hs, hunknown s hs⟩)
    rw [← hrecords] at hrecord
    exact ⟨statement, hstatement, driver, hrecord, hdep, hrole, hsignal⟩
  · right
    refine ⟨⟨hport, port, hmem, hsignal⟩, ?_⟩
    rintro ⟨statement, hstatement, record, hrecord, hdep⟩
    have hnil := (List.take_eq_nil_iff.1 hnone).resolve_left hpos.ne'
    have := dependenciesOf_eq_nil_iff.1 hnil record
      (List.mem_flatMap.2 ⟨statement, hstatement, hrecord⟩)
    rw [this] at hdep
    exact absurd hdep (by decide)

/-- The sources that an expanded state is continued with are in a relation to its signal. -/
def Follows (session : Session) (limits : Limits) (rel : Link → Link → Prop) : Prop :=
  ∀ state dependencies source, stateFinding session state = .follow dependencies →
    source ∈ stateSources session limits state dependencies →
    rel ⟨state.signal, state.time, state.relation⟩ source.link

/-- The onset of a run of X is a time of the waveform. -/
lemma minTime_le_onset {signal : String} {onset : ℕ}
    (h : IsXOnset session.waveform signal onset) : session.waveform.minTime ≤ onset := by
  obtain ⟨idx, hidx, rfl⟩ := h.change
  rw [Backend.minTime_eq_timeAt_zero]
  exact Backend.timeAt_le_of_le (Nat.zero_le idx) (Backend.timeIndicesOf_lt hidx)

/-- The path of a growing chain is extended by a fresh source. -/
lemma IsGrowing.path_extend (h : IsGrowing session limits rel time state)
    (hrel : Follows session limits rel)
    {dependencies : List DriverRecord} {source : Source}
    (hfinding : stateFinding session state = .follow dependencies)
    (hsource : source ∈ stateSources session limits state dependencies)
    (hfresh : isVisited (followed session limits state dependencies) source = false) :
    IsPath session rel time (state.path ++ [source.link]) := by
  obtain ⟨hreads, honset, -⟩ := mem_stateSources hsource
  obtain ⟨hX, hle⟩ := isXOnset_xOnsetTime hreads
  rw [← honset] at hX hle
  refine h.path.extend hX (hle (minTime_le_onset h.onset))
    (hrel state dependencies source hfinding hsource) ?_
  intro hmem
  obtain ⟨l, hl, hpair⟩ := List.mem_map.1 hmem
  have hkey : visitKey source.signal source.onset ∈ state.visited := by
    rw [h.visited]
    refine List.mem_map.2 ⟨l, hl, ?_⟩
    simp only [Link.pair, Prod.mk.injEq] at hpair
    rw [Link.key, hpair.1, hpair.2]
    rfl
  unfold isVisited at hfresh
  rw [followed_hops.2.1] at hfresh
  simp [hkey] at hfresh

/-- A state with which a round continues a growing chain is a growing chain. -/
lemma isGrowing_of_continues (hrel : Follows session limits rel) {child : State}
    (h : IsGrowing session limits rel time state)
    (hcontinues : Continues session limits state child) :
    IsGrowing session limits rel time child := by
  have hlength : (withHop session state).hops.length = state.depth + 1 := by
    simp [withHop, h.depth]
  cases hcontinues with
  | @child hdepth dependencies hfinding source hsource hfresh =>
      obtain ⟨hhops, hvisited, hdep⟩ := @followed_hops session limits state dependencies
      have hpath : (childState (followed session limits state dependencies) source).path =
          state.path ++ [source.link] := by
        rw [← h.hops_withHop, ← hhops]
        rfl
      refine ⟨hpath ▸ h.path_extend hrel hfinding hsource hfresh, ?_, ?_, ?_⟩
      · rw [hpath, List.map_append, ← h.visited, ← hvisited]
        rfl
      · rw [childState, hdep, hhops, hlength]
      · simp only [childState]
        rw [hdep]
        omega
  | @branch hdepth dependencies hfinding source hsource hfresh serial =>
      obtain ⟨hhops, hvisited, hdep⟩ := @followed_hops session limits state dependencies
      have hpath : (branchState (followed session limits state dependencies) source serial).path =
          state.path ++ [source.link] := by
        rw [← h.hops_withHop, ← hhops]
        unfold branchState State.path
        dsimp only
        rw [List.map_map]
        rfl
      refine ⟨hpath ▸ h.path_extend hrel hfinding hsource hfresh, ?_, ?_, ?_⟩
      · rw [hpath, List.map_append, ← h.visited, ← hvisited]
        rfl
      · simp only [branchState, childState, List.length_map]
        rw [hdep, hhops, hlength]
      · simp only [branchState, childState]
        rw [hdep]
        omega

end Growing

/-! ### The whole search -/

section Run

variable {session : Session} {limits : Limits} {rel : Link → Link → Prop} {root : String} {time : ℕ}

/-- The search starts with a path of one place. -/
lemma isGrowing_initial {query : ℕ} (hreads : ReadsX session.waveform root query)
    (hle : xOnsetTime session.waveform (sampleAt session.waveform root query) ≤ time) :
    ∀ state ∈ (initialSearch session root (sampleAt session.waveform root query)).pending,
      IsGrowing session limits rel time state := by
  intro state hstate
  rw [List.mem_singleton.1 hstate]
  exact ⟨IsPath.singleton (isXOnset_xOnsetTime hreads).1 hle, rfl, rfl, Nat.zero_le _⟩

/-- Every state that the search reaches has growing and causal chains only, and has expanded
no more nodes than allowed. -/
lemma reaches_isCausal (hrel : Follows session limits rel) {query : ℕ}
    (hreads : ReadsX session.waveform root query)
    (hle : xOnsetTime session.waveform (sampleAt session.waveform root query) ≤ time)
    {search : Search} (h : Reaches (step session limits)
      (initialSearch session root (sampleAt session.waveform root query)) search) :
    (∀ state ∈ search.pending, IsGrowing session limits rel time state) ∧
      (∀ chain ∈ search.chains, IsCausal session limits rel time chain) ∧
      search.nodes ≤ limits.maxNodes := by
  refine h.invariant (I := fun search =>
    (∀ state ∈ search.pending, IsGrowing session limits rel time state) ∧
      (∀ chain ∈ search.chains, IsCausal session limits rel time chain) ∧
      search.nodes ≤ limits.maxNodes) ?_ ⟨isGrowing_initial hreads hle, ?_, Nat.zero_le _⟩
  · rintro a b ⟨hpending, hchains, hnodes⟩ hstep
    obtain ⟨h1, h2⟩ := step_forall (fun _ _ => isCausal_of_ends)
      (fun _ _ => isGrowing_of_continues hrel) hpending hchains hstep
    exact ⟨h1, h2, step_nodes_le hnodes hstep⟩
  · intro chain hchain
    exact absurd hchain List.not_mem_nil

/-- The chains of the answer have the hops of the chains of the search. -/
lemma IsCausal.of_answerOf {source : Link → Link → Prop} {built chain : Chain}
    (h : IsCausal session limits source time built) (hof : IsAnswerOf built chain) :
    IsCausal session limits source time chain := by
  refine ⟨hof.hops ▸ h.path, ?_⟩
  have := congrArg List.length hof.hops
  simp only [List.length_map] at this
  rw [this]
  exact h.length

end Run

/-- The action ends for every design, waveform and limits, and every chain is a path back to
signals that read X. -/
theorem traceXOrigin_isCausal (session : Session) (limits : Limits) (root : String) (time : ℕ)
    (hmin : session.waveform.minTime ≤ time) (hpos : 0 < limits.maxTraceSignals) :
    (∃ fuel response, traceXOrigin session limits root time fuel = some response) ∧
      ∀ fuel answer, traceXOrigin session limits root time fuel = some (.traced answer) →
        (∀ chain ∈ answer.chains, IsCausal session limits (IsSource session) time chain) ∧
        ∃ search, runSearch session limits root (sampleAt session.waveform root time) fuel =
            some search ∧ answer = respond session limits search ∧
          search.nodes ≤ limits.maxNodes ∧
          ∀ chain ∈ search.chains, IsCausal session limits (IsSource session) time chain := by
  refine ⟨exists_traceXOrigin root time, fun fuel answer h => ?_⟩
  obtain ⟨-, hreads, search, hrun, rfl⟩ := traceXOrigin_eq_traced h
  obtain ⟨-, hchains, hnodes⟩ := reaches_isCausal
    (fun _ _ _ => isSource_of_mem_stateSources hpos) hreads ((isXOnset_xOnsetTime hreads).2 hmin)
    (reaches_of_runLoop hrun).1
  refine ⟨fun chain hchain => ?_, search, hrun, rfl, hnodes, hchains⟩
  obtain ⟨built, hbuilt, hof⟩ := mem_respond hchain
  exact (hchains built hbuilt).of_answerOf hof

/-- The places of the chains of an answer. -/
def Response.paths : Response → List (List Link)
  | .traced answer => answer.chains.map fun chain => chain.hops.map Hop.link
  | _ => []

/-- A session over a table of signals that all read X from the start. -/
def allX (signals : List SignalFacts) : Session where
  waveform := Backend.ofTable [0] (signals.map fun facts => (facts.name.getD "", [(0, "x")]))
    (by simp) (by simp) (by simp)
  design := .ofSignals signals
  sourceContext _ _ := []
  formatTime time := toString time ++ "ns"

/-- A signal `y` that a continuous assignment copies from `a`. -/
def copySession : Session := allX
  [{ name := some "y", width := 1
     drivers := [{ srcSignal := 1, kind := "cont_assign", dependencyRole := "rhs"
                   activationPredicate := "1", file := "t.v", line := 2 }] },
   { name := some "a", width := 1 }]

theorem copySession_isCausal :
    (traceXOrigin copySession {} "y" 0 3).map Response.paths =
        some [[⟨"y", 0, "root"⟩, ⟨"a", 0, "rhs"⟩]] ∧
      copySession.waveform.minTime ≤ 0 ∧
      ∀ answer, traceXOrigin copySession {} "y" 0 3 = some (.traced answer) →
        ∀ chain ∈ answer.chains,
          IsCausal copySession {} (IsSource copySession) 0 chain := by
  refine ⟨by decide +kernel, by decide +kernel, fun answer h => ?_⟩
  exact ((traceXOrigin_isCausal copySession {} "y" 0 (by decide +kernel) (by decide)).2 3
    answer h).1

/-- A register `q` that a non-blocking assignment sets to a constant, and that an initial
block has copied from `a`; a port connects it to `p`. -/
def constantNbaSession : Session := allX
  [{ name := some "q", width := 1
     drivers := [{ srcSignal := 1, kind := "proc_assign", dependencyRole := "rhs"
                   activationPredicate := "1", file := "t.v", line := 2 },
                 { srcSignal := -1, kind := "nba", dependencyRole := "statement"
                   activationPredicate := "1", file := "t.v", line := 5 }]
     ports := [{ portSignal := 2, connectedSignal := 0, kind := "port_boundary" }] },
   { name := some "a", width := 1 },
   { name := some "p", width := 1 }]

/-- The search goes to the port `p`, although an active statement of `q` depends on `a`. -/
theorem constantNbaSession_not_strict :
    constantNbaSession.waveform.minTime ≤ 0 ∧
      ¬ ∀ fuel answer, traceXOrigin constantNbaSession {} "q" 0 fuel = some (.traced answer) →
        ∀ chain ∈ answer.chains,
          IsCausal constantNbaSession {} (IsStrictSource constantNbaSession) 0 chain := by
  refine ⟨by decide +kernel, fun h => ?_⟩
  have hpaths : (traceXOrigin constantNbaSession {} "q" 0 3).map Response.paths =
      some [[⟨"q", 0, "root"⟩, ⟨"p", 0, "port"⟩]] := by decide +kernel
  obtain ⟨response, hresponse, hpaths⟩ := Option.map_eq_some_iff.1 hpaths
  cases response with
  | error code message => exact absurd hpaths (by simp [Response.paths])
  | notXAtQueryTime => exact absurd hpaths (by simp [Response.paths])
  | traced answer =>
      obtain ⟨chain, hchain, hlinks⟩ : ∃ chain ∈ answer.chains,
          chain.hops.map Hop.link = [⟨"q", 0, "root"⟩, ⟨"p", 0, "port"⟩] := by
        have hmem : [⟨"q", 0, "root"⟩, ⟨"p", 0, "port"⟩] ∈
            answer.chains.map fun chain => chain.hops.map Hop.link := by
          rw [Response.paths] at hpaths
          rw [hpaths]
          exact List.mem_singleton_self _
        exact List.mem_map.1 hmem
      have hsource := (h 3 answer hresponse chain hchain).path.source
      rw [hlinks] at hsource
      rcases (List.isChain_cons_cons.1 hsource).1 with hstatement | ⟨-, hnone⟩
      · obtain ⟨statement, -, record, -, hdep, hrole, -⟩ := hstatement
        simp [isDependency, hrole] at hdep
      · exact hnone (by decide +kernel)

end XdebugFst.Trace.XOrigin
