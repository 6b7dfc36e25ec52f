import XdebugFst.Lib.Text
import XdebugFst.Trace.XOriginCausal

/-!
# Where the X-origin search stops

A chain ends as a candidate origin when no source of its last signal
reads X. Sources that are on the chain already end it as a loop instead.

A port leads back to where the chain came from, so a port neighbour with
the name of the hop before is skipped. It is skipped whatever its onset
is: the hop before stands on the chain with one run of X, and the
neighbour may read an earlier run at the onset of the last signal. Such
a run is not on the chain, and the chain stops although the X goes on.
-/

namespace XdebugFst.Trace.XOrigin

open Lib Waveform

section Definitions

variable (session : Session) (limits : Limits)

/-- The place at which a chain ends. -/
def Chain.stop (chain : Chain) : Link := ⟨chain.current.signal, chain.current.onset, ""⟩

/-- The sources of a place: those of the statements that are left, or else its ports. -/
def IsUpstream (link : Link) (name : String) : Prop :=
  (∃ statement ∈ link.remaining session, ∃ record ∈ statement.records,
      isDependency record = true ∧ session.design.signalName record.srcSignal = name) ∨
    ¬ HasDependency (link.remaining session) ∧
      ∃ port ∈ session.design.portConnections (link.index session),
        session.design.signalName (port.other (link.index session)) = name

/-- No source of the end of the chain reads X there, unless that run of X is on the chain. -/
def StopsAtStart (chain : Chain) : Prop :=
  ∀ name, IsUpstream session chain.stop name → name ≠ "" →
    ReadsX session.waveform name chain.stop.onset →
    (name, xOnsetTime session.waveform (sampleAt session.waveform name chain.stop.onset)) ∈
      chain.hops.map fun hop => (hop.signal, hop.onset)

/-- A complete chain that ends at a candidate origin. -/
def Chain.IsCandidate (chain : Chain) : Prop :=
  chain.complete = true ∧ chain.status = .originFound ∧ chain.detail = .candidateXSource

/-- The state is ended as a complete candidate origin. -/
structure BecomesOrigin (search : Search) (state : State) (dependencies : List DriverRecord) :
    Prop where
  expanded : fate session limits search state = .expanded
  finding : stateFinding session state = .follow dependencies
  noSource : stateSources session limits state dependencies = []
  complete : (followed session limits state dependencies).complete = true

/-- A port with the name of the hop before reads X, and this run of X is not on the way. -/
def SkipsSource (state : State) : Prop :=
  ∃ port ∈ session.design.portConnections (stateIndex session state),
    let name := session.design.signalName (port.other (stateIndex session state))
    name ≠ "" ∧ ReadsX session.waveform name state.time ∧
      returnsToParent (withHop session state).hops name = true ∧
      visitKey name (xOnsetTime session.waveform (sampleAt session.waveform name state.time)) ∉
        state.visited

end Definitions

/-- Different pairs have different keys. -/
lemma visitKey_inj {signal signal' : String} {onset onset' : ℕ}
    (h : visitKey signal onset = visitKey signal' onset') : signal = signal' ∧ onset = onset' :=
  @textKey_inj (Char.ofNat 0x1f) (by decide) _ _ _ _ h

variable {session : Session} {limits : Limits} {rel : Link → Link → Prop} {bound : ℕ}
  {search : Search} {state : State}
  {dependencies : List DriverRecord}

/-! ### The end of a chain -/

/-- The keys on the way are those of the pairs of the hops. -/
lemma IsGrowing.mem_visited_iff (h : IsGrowing session limits rel bound state) {name : String}
    {onset : ℕ} : visitKey name onset ∈ state.visited ↔
      (name, onset) ∈ (withHop session state).hops.map fun hop => (hop.signal, hop.onset) := by
  have hpairs : ((withHop session state).hops.map fun hop => (hop.signal, hop.onset)) =
      state.path.map Link.pair := by
    rw [← h.hops_withHop, List.map_map]
    rfl
  rw [hpairs, h.visited]
  constructor
  · intro hkey
    obtain ⟨link, hlink, heq⟩ := List.mem_map.1 hkey
    obtain ⟨h1, h2⟩ := visitKey_inj heq
    exact List.mem_map.2 ⟨link, hlink, Prod.ext h1 h2⟩
  · intro hpair
    obtain ⟨link, hlink, heq⟩ := List.mem_map.1 hpair
    refine List.mem_map.2 ⟨link, hlink, ?_⟩
    rw [Link.pair, Prod.mk.injEq] at heq
    rw [Link.key, heq.1, heq.2]

/-- The place at which the chain of an origin ends is the state. -/
lemma IsGrowing.stop_originChain (h : IsGrowing session limits rel bound state) :
    (originChain session limits state dependencies).stop = ⟨state.signal, state.time, ""⟩ := by
  have hsignal : (followed session limits state dependencies).signal = state.signal := by
    unfold followed truncate
    split_ifs <;> rfl
  unfold Chain.stop originChain finishChain
  dsimp only
  rw [hsignal, h.stateOnset_eq]

lemma hasDependency_iff {relation : String}
    (hfinding : stateFinding session state = .follow dependencies) :
    HasDependency (Link.remaining session ⟨state.signal, state.time, relation⟩) ↔
      dependencies ≠ [] := by
  rw [(stateFinding_eq_follow hfinding).2, Ne, dependenciesOf_eq_nil_iff]
  constructor
  · rintro ⟨statement, hstatement, record, hrecord, hdep⟩ hall
    rw [hall record (List.mem_flatMap.2 ⟨statement, hstatement, hrecord⟩)] at hdep
    exact absurd hdep (by decide)
  · intro hall
    simp only [not_forall, Bool.not_eq_false] at hall
    obtain ⟨record, hrecord, hdep⟩ := hall
    obtain ⟨statement, hstatement, hmem⟩ := List.mem_flatMap.1 hrecord
    exact ⟨statement, hstatement, record, hmem, hdep⟩

/-- A complete chain had none of its last dependencies truncated. -/
lemma take_of_complete (h : (followed session limits state dependencies).complete = true) :
    dependencies.take limits.maxTraceSignals = dependencies := by
  refine List.take_of_length_le ?_
  by_contra hlen
  unfold followed truncate at h
  rw [if_pos (not_le.1 hlen)] at h
  exact Bool.false_ne_true h

/-- No dependency of a candidate origin reads X. -/
lemma BecomesOrigin.not_reads (h : BecomesOrigin session limits search state dependencies)
    {relation : String} {statement : StatementGroup} {record : DriverRecord}
    (hstatement : statement ∈ Link.remaining session ⟨state.signal, state.time, relation⟩)
    (hrecord : record ∈ statement.records) (hdep : isDependency record = true)
    (hname : session.design.signalName record.srcSignal ≠ "") :
    ¬ ReadsX session.waveform (session.design.signalName record.srcSignal) state.time := by
  have hnone := h.noSource
  unfold stateSources sourcesOf at hnone
  rw [followed_time, take_of_complete h.complete] at hnone
  have hdeps := (List.append_eq_nil_iff.1 hnone).1
  unfold dependencySources at hdeps
  rw [List.filterMap_eq_nil_iff] at hdeps
  -- the record is represented by one of the same source
  obtain ⟨e, he, hsrc, -⟩ := exists_mem_dependenciesOf
    (List.mem_flatMap.2 ⟨statement, hstatement, hrecord⟩) hdep
  have hmem : e ∈ dependencies := by
    rw [(stateFinding_eq_follow h.finding).2]
    exact he
  have := xSource_eq_none.1 (hdeps e hmem)
  rw [hsrc] at this
  exact this.resolve_left hname

/-- A port of a candidate origin without dependencies reads X only if it is skipped. -/
lemma BecomesOrigin.returns (h : BecomesOrigin session limits search state []) {port : PortConnection}
    (hport : port ∈ session.design.portConnections (stateIndex session state))
    (hname : session.design.signalName (port.other (stateIndex session state)) ≠ "")
    (hreads : ReadsX session.waveform
      (session.design.signalName (port.other (stateIndex session state))) state.time) :
    returnsToParent (withHop session state).hops
      (session.design.signalName (port.other (stateIndex session state))) = true := by
  have hnone := h.noSource
  unfold stateSources sourcesOf at hnone
  rw [followed_time, List.take_nil, if_pos rfl, followed_hops.1] at hnone
  have hports := List.filter_eq_nil_iff.1 (List.append_eq_nil_iff.1 hnone).2
  unfold portSources at hports
  cases hsource : xSource session state.time
      (session.design.signalName (port.other (stateIndex session state))) "port"
      { srcSignal := port.other (stateIndex session state), kind := port.kind,
        dependencyRole := "port" } with
  | none =>
      rcases xSource_eq_none.1 hsource with hempty | hnot
      · exact absurd hempty hname
      · exact absurd hreads hnot
  | some source =>
      have := hports source (List.mem_filterMap.2 ⟨port, hport, hsource⟩)
      obtain ⟨-, rfl⟩ := xSource_eq_some hsource
      simpa using this

/-- A candidate origin is where X starts, unless a source was skipped at its ports. -/
lemma stopsAtStart_originChain (hgrowing : IsGrowing session limits rel bound state)
    (h : BecomesOrigin session limits search state dependencies) :
    StopsAtStart session (originChain session limits state dependencies) ↔
      ¬ (dependencies = [] ∧ SkipsSource session state) := by
  have hhops : (originChain session limits state dependencies).hops =
      (withHop session state).hops := followed_hops.1
  unfold StopsAtStart IsUpstream
  rw [hgrowing.stop_originChain, hasDependency_iff h.finding, hhops]
  constructor
  · rintro hstops ⟨rfl, port, hport, hname, hreads, hreturns, hfresh⟩
    refine hfresh (hgrowing.mem_visited_iff.2 ?_)
    exact hstops _ (Or.inr ⟨fun hne => hne rfl, port, hport, rfl⟩) hname hreads
  · rintro hskips name (⟨statement, hstatement, record, hrecord, hdep, rfl⟩ |
      ⟨hnone, port, hport, rfl⟩) hname hreads
    · exact absurd hreads (h.not_reads hstatement hrecord hdep hname)
    · obtain rfl : dependencies = [] := not_not.1 hnone
      by_contra hfresh
      refine hskips ⟨rfl, port, hport, hname, hreads, h.returns hport hname hreads, ?_⟩
      exact fun hkey => hfresh (hgrowing.mem_visited_iff.1 hkey)

/-! ### The whole search -/

/-- A candidate chain is the chain of an origin. -/
lemma Ends.isCandidate {chain : Chain} (h : Ends session limits state chain)
    (hcandidate : chain.IsCandidate) :
    ∃ dependencies, stateFinding session state = .follow dependencies ∧
      stateSources session limits state dependencies = [] ∧
      chain = originChain session limits state dependencies := by
  obtain ⟨-, hstatus, hdetail⟩ := hcandidate
  cases h with
  | cut detail => exact absurd hstatus (by simp [finishChain])
  | force hdepth statement => exact absurd hdetail (by simp [forceChain, finishChain])
  | unresolved hdepth detail => exact absurd hstatus (by simp [finishChain])
  | loop hdepth hfinding hsource hvisited =>
      exact absurd hstatus (by simp [loopChain, finishChain])
  | origin hdepth hfinding hnone => exact ⟨_, hfinding, hnone, rfl⟩

/-- The fate of a state does not depend on the other states. -/
lemma fate_pending (rest : List State) :
    fate session limits { search with pending := rest } state =
      fate session limits search state := rfl

/-- Chains are never taken back. -/
lemma chains_of_reaches {search' : Search} {chain : Chain}
    (h : Reaches (step session limits) search search') (hchain : chain ∈ search.chains) :
    chain ∈ search'.chains := by
  refine h.invariant (I := fun s => chain ∈ s.chains) ?_ hchain
  rintro a b ha hab
  obtain ⟨state, rest, -, rfl⟩ := step_eq_some hab
  exact visit_keeps.2 chain ha

/-- The rounds that stop too early: a candidate origin without dependencies skips a source at
its ports. -/
def StopsEarly (session : Session) (limits : Limits) (search : Search) : Prop :=
  ∃ state rest, search.pending = state :: rest ∧
    BecomesOrigin session limits search state [] ∧ SkipsSource session state

/-- Where the chains lead is all the same here. -/
lemma follows_true (session : Session) (limits : Limits) :
    Follows session limits fun _ _ => True :=
  fun _ _ _ _ _ => trivial

/-- The candidate chains of a run whose rounds do not stop early end where X starts. -/
lemma stopsAtStart_of_reaches {root : String} {time : ℕ}
    (hreads : ReadsX session.waveform root time)
    (hrounds : ∀ s, Reaches (step session limits)
      (initialSearch session root (sampleAt session.waveform root time)) s →
      ¬ StopsEarly session limits s)
    (h : Reaches (step session limits)
      (initialSearch session root (sampleAt session.waveform root time)) search) :
    ∀ chain ∈ search.chains, chain.IsCandidate → StopsAtStart session chain := by
  refine (h.invariant (I := fun s => Reaches (step session limits)
    (initialSearch session root (sampleAt session.waveform root time)) s ∧
    ∀ chain ∈ s.chains, chain.IsCandidate → StopsAtStart session chain) ?_ ⟨.refl, ?_⟩).2
  · rintro a b ⟨ha, hchains⟩ hab
    refine ⟨ha.tail hab, fun chain hchain hcandidate => ?_⟩
    obtain ⟨state, rest, hpending, rfl⟩ := step_eq_some hab
    rcases visit_adds.1 chain hchain with hold | hends
    · exact hchains chain hold hcandidate
    rcases visit_expanded hchain with hold | hlimit | hfate
    · exact hchains chain hold hcandidate
    · rw [hcandidate.2.1] at hlimit
      exact absurd hlimit (by decide)
    -- the chain is new, and its state has just been expanded
    obtain ⟨dependencies, hfinding, hnone, rfl⟩ := hends.isCandidate hcandidate
    have hgrowing := (reaches_isCausal (follows_true session limits) hreads le_rfl ha).1 state
      (by simp [hpending])
    have horigin : BecomesOrigin session limits a state dependencies :=
      ⟨hfate, hfinding, hnone, hcandidate.1⟩
    refine (stopsAtStart_originChain hgrowing horigin).2 ?_
    rintro ⟨rfl, hskips⟩
    exact hrounds a ha ⟨state, rest, hpending, horigin, hskips⟩
  · intro chain hchain
    exact absurd hchain List.not_mem_nil

/-- The chains of the answer end where the chains of the search end. -/
lemma StopsAtStart.of_answerOf {built chain : Chain} (h : StopsAtStart session built)
    (hof : IsAnswerOf built chain) : StopsAtStart session chain := by
  have hpairs : (chain.hops.map fun hop => (hop.signal, hop.onset)) =
      built.hops.map fun hop => (hop.signal, hop.onset) := by
    have := congrArg (List.map Link.pair) hof.hops
    rw [List.map_map, List.map_map] at this
    exact this
  have hstop : chain.stop = built.stop := by rw [Chain.stop, hof.current, Chain.stop]
  unfold StopsAtStart
  rw [hstop, hpairs]
  exact h

/-- The complete candidate chains of a search all end where X starts exactly when no round
stops early, and then so do those of the answer. -/
theorem stopsAtStart_iff (session : Session) (limits : Limits) (root : String) (time : ℕ)
    (hreads : ReadsX session.waveform root time) :
    ((∀ fuel search, runSearch session limits root (sampleAt session.waveform root time) fuel =
          some search →
        ∀ chain ∈ search.chains, chain.IsCandidate → StopsAtStart session chain) ↔
      ∀ s, Reaches (step session limits)
        (initialSearch session root (sampleAt session.waveform root time)) s →
        ¬ StopsEarly session limits s) ∧
    ((∀ s, Reaches (step session limits)
        (initialSearch session root (sampleAt session.waveform root time)) s →
        ¬ StopsEarly session limits s) →
      ∀ fuel answer, traceXOrigin session limits root time fuel = some (.traced answer) →
        ∀ chain ∈ answer.chains, chain.IsCandidate → StopsAtStart session chain) := by
  refine ⟨⟨?_, ?_⟩, ?_⟩
  · rintro hstops s hs ⟨state, rest, hpending, horigin, hskips⟩
    have hstep : step session limits s =
        some (visit session limits { s with pending := rest } state) := by rw [step, hpending]
    have hbuilt : originChain session limits state [] ∈
        (visit session limits { s with pending := rest } state).chains :=
      originChain_mem_visit ((fate_pending rest).trans horigin.expanded) horigin.finding
        horigin.noSource
    -- the chain is still there when the search ends
    obtain ⟨fuel, search, hrun⟩ := @exists_runSearch session limits root
      (sampleAt session.waveform root time)
    obtain ⟨hend, hnone⟩ := reaches_of_runLoop hrun
    have hmem := chains_of_reaches (Reaches.to_end (hs.tail hstep) hend hnone) hbuilt
    have hgrowing := (reaches_isCausal (follows_true session limits) hreads le_rfl hs).1 state
      (by simp [hpending])
    have := hstops fuel search hrun _ hmem ⟨horigin.complete, rfl, rfl⟩
    exact (stopsAtStart_originChain hgrowing horigin).1 this ⟨rfl, hskips⟩
  · intro hrounds fuel search hrun
    exact stopsAtStart_of_reaches hreads hrounds (reaches_of_runLoop hrun).1
  · intro hrounds fuel answer h chain hchain hcandidate
    obtain ⟨-, -, search, hrun, rfl⟩ := traceXOrigin_eq_traced h
    obtain ⟨built, hbuilt, hof⟩ := mem_respond hchain
    refine StopsAtStart.of_answerOf (stopsAtStart_of_reaches hreads hrounds
      (reaches_of_runLoop hrun).1 built hbuilt ⟨hof.complete hcandidate.1, ?_, ?_⟩) hof
    · rw [← hof.status]
      exact hcandidate.2.1
    · rw [← hof.detail]
      exact hcandidate.2.2

/-- A signal without ports is where X starts. -/
theorem copySession_stopsAtStart :
    ReadsX copySession.waveform "y" 0 ∧
      ∀ answer, traceXOrigin copySession {} "y" 0 3 = some (.traced answer) →
        ∀ chain ∈ answer.chains, chain.IsCandidate → StopsAtStart copySession chain := by
  refine ⟨by decide +kernel, fun answer => ?_⟩
  refine (stopsAtStart_iff copySession {} "y" 0 (by decide +kernel)).2 ?_ 3 answer
  rintro s hs ⟨state, rest, hpending, -, port, hport, -⟩
  have hrun : (runSearch copySession {} "y" (sampleAt copySession.waveform "y" 0) 3).isSome =
      true := by decide +kernel
  obtain ⟨search, hsearch⟩ := Option.isSome_iff_exists.1 hrun
  have hall : (loopStates (step copySession {}) 3 (initialSearch copySession "y"
      (sampleAt copySession.waveform "y" 0))).all (fun s => s.pending.head?.all fun state =>
        copySession.design.portConnections (stateIndex copySession state) = []) = true := by
    decide +kernel
  have := List.all_eq_true.1 hall s (mem_loopStates hsearch hs)
  simp only [hpending, List.head?_cons, Option.all_some, decide_eq_true_eq] at this
  rw [this] at hport
  exact List.not_mem_nil hport

/-- Two ends of a port: `p` reads X up to 5 and again from 10 on, `c` reads X from 3 on. -/
def returnSession : Session where
  waveform := Backend.ofTable [0, 3, 5, 10]
    [("p", [(0, "x"), (2, "0"), (3, "x")]), ("c", [(0, "0"), (1, "x")])]
    (by decide) (by decide) (by decide)
  design := .ofSignals
    [{ name := some "p", width := 1
       ports := [{ portSignal := 1, connectedSignal := 0, kind := "port_boundary" }] },
     { name := some "c", width := 1
       ports := [{ portSignal := 1, connectedSignal := 0, kind := "port_boundary" }] }]
  sourceContext _ _ := []
  formatTime time := toString time ++ "ns"

/-- The end and the places of a chain. -/
structure Ending where
  complete : Bool
  status : Status
  detail : Detail
  stop : Link
  places : List (String × ℕ)
  deriving DecidableEq

def Chain.ending (chain : Chain) : Ending :=
  ⟨chain.complete, chain.status, chain.detail, chain.stop,
    chain.hops.map fun hop => (hop.signal, hop.onset)⟩

def Response.endings : Response → List Ending
  | .traced answer => answer.chains.map Chain.ending
  | _ => []

/-- The search from `p` at 12 ends at `c` and 3, where `p` reads the X that it has from 0
on. -/
theorem returnSession_not_stopsAtStart :
    ¬ ∀ fuel answer, traceXOrigin returnSession {} "p" 12 fuel = some (.traced answer) →
      ∀ chain ∈ answer.chains, chain.IsCandidate → StopsAtStart returnSession chain := by
  intro h
  have hrun : (traceXOrigin returnSession {} "p" 12 3).map Response.endings =
      some [⟨true, .originFound, .candidateXSource, ⟨"c", 3, ""⟩, [("p", 10), ("c", 3)]⟩] := by
    decide +kernel
  obtain ⟨response, hresponse, hchains⟩ := Option.map_eq_some_iff.1 hrun
  cases response with
  | error code message => exact absurd hchains (by simp [Response.endings])
  | notXAtQueryTime => exact absurd hchains (by simp [Response.endings])
  | traced answer =>
      rw [Response.endings] at hchains
      obtain ⟨chain, hchain⟩ : ∃ chain, answer.chains = [chain] := by
        rw [← List.length_eq_one_iff]
        simpa using congrArg List.length hchains
      rw [hchain] at hchains
      simp only [List.map_cons, List.map_nil, List.cons.injEq, Chain.ending, Ending.mk.injEq,
        and_true] at hchains
      obtain ⟨hcomplete, hstatus, hdetail, hstop, hhops⟩ := hchains
      have hstops := h 3 answer hresponse chain (by simp [hchain]) ⟨hcomplete, hstatus, hdetail⟩ "p"
      rw [hstop, hhops] at hstops
      have hmem := hstops (Or.inr ⟨by decide +kernel,
          ⟨1, 0, "port_boundary"⟩, by decide +kernel, by decide +kernel⟩)
        (by decide) (by decide +kernel)
      exact absurd hmem (by decide +kernel)

end XdebugFst.Trace.XOrigin
