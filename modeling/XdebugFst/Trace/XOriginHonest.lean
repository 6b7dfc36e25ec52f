import XdebugFst.Trace.XOriginCausal

/-!
# What a complete X-origin analysis promises

When something is left out of the search, a chain is marked as
incomplete: the state whose dependencies were truncated, the chain that
was cut, the chain at an unresolved predicate. The mark of a state goes
to its first child, and at last to a chain. The summary reports a
complete analysis when no chain of the answer is marked.

A mark is lost in three places. A state that was explored before, or
that the design does not resolve, is dropped with its mark, and chains
of the same key are coalesced in favour of an unmarked one. A run in
which no mark is lost is honest about its completeness.
-/

namespace XdebugFst.Trace.XOrigin

open Lib Waveform

section Definitions

variable (session : Session) (limits : Limits)

/-- Something is left out when this state is taken up. -/
def limitsState (search : Search) (state : State) : Bool :=
  match fate session limits search state with
  | .unsampled => false
  | .explored => false
  | .expanded =>
      match stateFinding session state with
      | .force _ => false
      | .unresolvedPredicate => true
      | .inactive => true
      | .follow dependencies => limits.maxTraceSignals < dependencies.length
  | .tooDeep => true
  | .globalLimit => true
  | .nodeLimit => true
  | .timeLimit => true

/-- A marked state is dropped when this state is taken up. -/
def losesMark (search : Search) (state : State) : Bool :=
  !state.complete ∧ (fate session limits search state = .unsampled ∨
    fate session limits search state = .explored)

/-- Nothing was left out of a search that ended, in any of its rounds or by dropping chains. -/
structure IsUnlimited (start search : Search) : Prop where
  rounds : ∀ s state rest, Reaches (step session limits) start s → s.pending = state :: rest →
    limitsState session limits s state = false
  chains : (coalesce session search.chains).length ≤ limits.maxChains
  limitations : (respond session limits search).limitations = []

/-- A complete analysis is one from which nothing was left out. -/
def IsHonest (root : String) (time : ℕ) : Prop :=
  ∀ fuel search, runSearch session limits root (sampleAt session.waveform root time) fuel =
      some search → (respond session limits search).analysisComplete = true →
    IsUnlimited session limits
      (initialSearch session root (sampleAt session.waveform root time)) search

/-- No round of the search drops a marked state. -/
def KeepsMarks (start : Search) : Prop :=
  ∀ s state rest, Reaches (step session limits) start s → s.pending = state :: rest →
    losesMark session limits s state = false

/-- Chains of the same key are all marked or all unmarked. -/
def AgreeOnMarks (chains : List Chain) : Prop :=
  ∀ chain ∈ chains, ∀ chain' ∈ chains,
    semanticChainKey session chain = semanticChainKey session chain' →
    chain.complete = chain'.complete

end Definitions

variable {session : Session} {limits : Limits} {search search' : Search} {state : State}

/-! ### Marks -/

/-- The tests on a state do not look at the other states. -/
lemma limitsState_pending (rest : List State) :
    limitsState session limits { search with pending := rest } state =
      limitsState session limits search state := by
  unfold limitsState
  rfl

lemma losesMark_pending (rest : List State) :
    losesMark session limits { search with pending := rest } state =
      losesMark session limits search state := by
  unfold losesMark
  rfl

/-- A mark is on a state or on a chain. -/
def IsMarked (search : Search) : Prop :=
  (∃ state ∈ search.pending, state.complete = false) ∨
    ∃ chain ∈ search.chains, chain.complete = false

lemma isMarked_of_mem {chain : Chain} (h : chain ∈ search.chains) (hmark : chain.complete = false) :
    IsMarked search := Or.inr ⟨chain, h, hmark⟩

/-- Following the sources of a marked state leaves a mark. -/
lemma isMarked_follow {index : ℤ} {sample : Sample} {onset : ℕ}
    {dependencies : List DriverRecord}
    (hmark : (truncate session limits state dependencies).complete = false) :
    IsMarked (follow session limits search state index sample onset dependencies) := by
  unfold follow
  dsimp only
  split_ifs with hsources hloops
  · exact isMarked_of_mem (List.mem_append_right _ (List.mem_singleton_self _)) hmark
  · obtain ⟨source, rest, hcons⟩ := List.exists_cons_of_ne_nil hloops
    refine isMarked_of_mem (List.mem_append_right _ (List.mem_map.2 ⟨source, ?_, rfl⟩)) hmark
    rw [hcons]
    exact List.mem_cons_self
  · -- the first child has the mark
    obtain ⟨source, rest, hcons⟩ := List.exists_cons_of_ne_nil hsources
    left
    refine ⟨childState (truncate session limits state dependencies) source, ?_, hmark⟩
    rw [hcons]
    exact List.mem_append_left _ List.mem_cons_self

lemma truncate_complete_eq_false {dependencies : List DriverRecord}
    (h : state.complete = false ∨ limits.maxTraceSignals < dependencies.length) :
    (truncate session limits state dependencies).complete = false := by
  unfold truncate
  split_ifs with hlen
  · rfl
  · exact h.resolve_right hlen

/-- Expanding a state that is marked, or that is limited, leaves a mark. -/
lemma isMarked_expand (h : state.complete = false ∨ match stateFinding session state with
      | .force _ => False
      | .unresolvedPredicate => True
      | .inactive => True
      | .follow dependencies => limits.maxTraceSignals < dependencies.length) :
    IsMarked (expand session limits search state) := by
  unfold expand
  dsimp only
  cases hfinding : finding session (session.design.resolve state.signal)
      (stateSample session state) with
  | force statement =>
      have hstate : stateFinding session state = .force statement := hfinding
      rw [hstate] at h
      exact isMarked_of_mem (List.mem_append_right _ (List.mem_singleton_self _))
        (h.resolve_right id)
  | unresolvedPredicate =>
      exact isMarked_of_mem (List.mem_append_right _ (List.mem_singleton_self _)) rfl
  | inactive => exact isMarked_of_mem (List.mem_append_right _ (List.mem_singleton_self _)) rfl
  | follow dependencies =>
      have hstate : stateFinding session state = .follow dependencies := hfinding
      rw [hstate] at h
      exact isMarked_follow (truncate_complete_eq_false h)

/-- A round that takes up a marked state, or that is limited, leaves a mark unless it drops
the state. -/
lemma isMarked_visit
    (h : state.complete = false ∧ losesMark session limits search state = false ∨
      limitsState session limits search state = true) :
    IsMarked (visit session limits search state) := by
  have hcut : ∀ (s : Search) (detail : Detail), IsMarked (cut session s state detail) :=
    fun s detail => isMarked_of_mem (List.mem_append_right _ (List.mem_singleton_self _)) rfl
  unfold visit
  unfold losesMark limitsState at h
  dsimp only
  cases hfate : fate session limits search state with
  | unsampled => simp_all
  | explored => simp_all
  | tooDeep => exact hcut _ _
  | globalLimit => exact hcut _ _
  | nodeLimit => exact hcut _ _
  | timeLimit => exact hcut _ _
  | expanded =>
      refine isMarked_expand ?_
      rw [hfate] at h
      refine h.imp And.left fun h => ?_
      cases hfinding : stateFinding session state <;> simp_all

/-- A mark stays unless it is lost. -/
lemma isMarked_step (hstep : step session limits search = some search')
    (hlost : ∀ state rest, search.pending = state :: rest →
      losesMark session limits search state = false) (h : IsMarked search) : IsMarked search' := by
  obtain ⟨state, rest, hpending, rfl⟩ := step_eq_some hstep
  rcases h with ⟨s, hs, hmark⟩ | ⟨c, hc, hmark⟩
  · rw [hpending] at hs
    rcases List.mem_cons.1 hs with rfl | hs
    · exact isMarked_visit
        (Or.inl ⟨hmark, (losesMark_pending rest).trans (hlost s rest hpending)⟩)
    · exact Or.inl ⟨s, visit_keeps.1 s hs, hmark⟩
  · exact isMarked_of_mem (visit_keeps.2 c hc) hmark

/-- A limited round leaves a mark. -/
lemma isMarked_of_limitsState {rest : List State} (hpending : search.pending = state :: rest)
    (h : limitsState session limits search state = true) :
    ∃ search', step session limits search = some search' ∧ IsMarked search' := by
  refine ⟨visit session limits { search with pending := rest } state, ?_, ?_⟩
  · rw [step, hpending]
  · exact isMarked_visit (Or.inr ((limitsState_pending rest).trans h))

lemma limitations_follow {index : ℤ} {sample : Sample} {onset : ℕ}
    {dependencies : List DriverRecord} (h : dependencies.length ≤ limits.maxTraceSignals) :
    (follow session limits search state index sample onset dependencies).limitations =
      search.limitations := by
  unfold follow truncationNote
  rw [if_neg (not_lt.2 h)]
  dsimp only
  split_ifs <;> exact List.append_nil _

/-- A round that is not limited adds no limitation. -/
lemma limitations_visit (h : limitsState session limits search state = false) :
    (visit session limits search state).limitations = search.limitations := by
  unfold limitsState at h
  unfold visit
  dsimp only
  cases hfate : fate session limits search state with
  | unsampled => rfl
  | explored => rfl
  | tooDeep => rfl
  | globalLimit => rfl
  | nodeLimit => simp [hfate] at h
  | timeLimit => simp [hfate] at h
  | expanded =>
      rw [hfate] at h
      unfold expand
      dsimp only
      cases hfinding : finding session (session.design.resolve state.signal)
          (stateSample session state) with
      | force statement => rfl
      | unresolvedPredicate =>
          have hstate : stateFinding session state = .unresolvedPredicate := hfinding
          simp [hstate] at h
      | inactive =>
          have hstate : stateFinding session state = .inactive := hfinding
          simp [hstate] at h
      | follow dependencies =>
          have hstate : stateFinding session state = .follow dependencies := hfinding
          rw [hstate] at h
          dsimp only
          rw [limitations_follow (by simpa using h)]

/-! ### Coalescing -/

/-- Entries keep their keys, and every chain has an entry. -/
lemma foldl_coalesceStep (chains : List Chain) (kept : List (String × Chain)) :
    ((∀ e ∈ kept, e.1 = semanticChainKey session e.2) →
      ∀ e ∈ chains.foldl (coalesceStep session) kept, e.1 = semanticChainKey session e.2) ∧
    ∀ k, (∃ e ∈ kept, e.1 = k) ∨ (∃ chain ∈ chains, semanticChainKey session chain = k) →
      ∃ e ∈ chains.foldl (coalesceStep session) kept, e.1 = k := by
  induction chains generalizing kept with
  | nil => exact ⟨id, fun k h => h.resolve_right (by simp)⟩
  | cons chain chains ih =>
      obtain ⟨ihkeys, ihmem⟩ := ih (coalesceStep session kept chain)
      refine ⟨fun hkept => ihkeys fun e he => ?_, fun k h => ihmem k ?_⟩
      · unfold coalesceStep at he
        dsimp only at he
        split_ifs at he
        · obtain ⟨e', he', rfl⟩ := List.mem_map.1 he
          split_ifs
          · rfl
          · exact hkept e' he'
        · rcases List.mem_append.1 he with he | he
          · exact hkept e he
          · rw [List.mem_singleton.1 he]
      · -- an entry is replaced under its own key only
        have hkeep : ∀ e ∈ kept, ∃ e' ∈ coalesceStep session kept chain, e'.1 = e.1 := by
          intro e he
          unfold coalesceStep
          dsimp only
          split_ifs
          · refine ⟨_, List.mem_map.2 ⟨e, he, rfl⟩, ?_⟩
            split_ifs with hsame
            · exact hsame.1.symm
            · rfl
          · exact ⟨e, List.mem_append_left _ he, rfl⟩
        rcases h with ⟨e, he, rfl⟩ | ⟨c, hc, rfl⟩
        · exact Or.inl (hkeep e he)
        rcases List.mem_cons.1 hc with rfl | hc
        · left
          by_cases hknown : kept.any (fun e => e.1 = semanticChainKey session c) = true
          · obtain ⟨e, he, hkey⟩ := List.any_eq_true.1 hknown
            obtain ⟨e', he', hsame⟩ := hkeep e he
            exact ⟨e', he', hsame.trans (by simpa using hkey)⟩
          · unfold coalesceStep
            dsimp only
            rw [if_neg hknown]
            exact ⟨_, List.mem_append_right _ (List.mem_singleton_self _), rfl⟩
        · exact Or.inr ⟨c, hc, rfl⟩

lemma exists_mem_coalesce {chains : List Chain} {chain : Chain} (h : chain ∈ chains) :
    ∃ c ∈ coalesce session chains, semanticChainKey session c = semanticChainKey session chain := by
  obtain ⟨e, he, hkey⟩ := (foldl_coalesceStep chains []).2 _ (Or.inr ⟨chain, h, rfl⟩)
  refine ⟨e.2, List.mem_map.2 ⟨e, he, rfl⟩, ?_⟩
  rw [← (foldl_coalesceStep chains []).1 (by simp) e he, hkey]

/-! ### The summary -/

/-- A complete analysis has no marked chain and has dropped none. -/
lemma complete_of_analysisComplete (hpos : 0 < limits.maxChains)
    (h : (respond session limits search).analysisComplete = true) :
    (coalesce session search.chains).length ≤ limits.maxChains ∧
      ∀ chain ∈ coalesce session search.chains, chain.complete = true := by
  have hkept : ∀ chain ∈ (capChains limits (coalesce session search.chains)
      search.limitations).1, chain.complete = true := by
    intro chain hchain
    have hcount : (renumber (capChains limits (coalesce session search.chains)
        search.limitations).1).countP (·.isLimited) = 0 := of_decide_eq_true h
    rw [List.countP_eq_zero] at hcount
    obtain ⟨i, hi, rfl⟩ := List.mem_iff_getElem.1 hchain
    have hlimited := hcount _ (List.mem_mapIdx.2 ⟨i, hi, rfl⟩)
    by_contra hc
    exact hlimited (by simp [Chain.isLimited, Bool.eq_false_of_not_eq_true hc])
  by_cases hlen : (coalesce session search.chains).length > limits.maxChains
  · exfalso
    obtain ⟨first, rest, hcons⟩ := List.exists_cons_of_length_pos
      (Nat.zero_lt_of_lt hlen)
    unfold capChains at hkept
    rw [if_pos hlen, hcons] at hkept
    dsimp only at hkept
    rw [List.modifyHead_cons] at hkept
    obtain ⟨n, hn⟩ := Nat.exists_eq_succ_of_ne_zero hpos.ne'
    rw [hn, List.take_succ_cons] at hkept
    exact absurd (hkept _ List.mem_cons_self) (by simp [retain])
  · unfold capChains at hkept
    rw [if_neg hlen] at hkept
    exact ⟨not_lt.1 hlen, hkept⟩

/-- At the end of a run that keeps its marks, a marked chain is left of every limited
round. -/
lemma isMarked_of_reaches {start s : Search} {rest : List State}
    (hkeeps : KeepsMarks session limits start) (hs : Reaches (step session limits) start s)
    (hpending : s.pending = state :: rest) (hlimits : limitsState session limits s state = true)
    (hend : Reaches (step session limits) start search) (hnone : step session limits search = none) :
    IsMarked search := by
  obtain ⟨s', hstep, hmarked⟩ := isMarked_of_limitsState hpending hlimits
  have hs' : Reaches (step session limits) start s' := hs.tail hstep
  have hinv : Reaches (step session limits) start search ∧ IsMarked search := by
    refine (hs'.to_end hend hnone).invariant
      (I := fun t => Reaches (step session limits) start t ∧ IsMarked t) ?_ ⟨hs', hmarked⟩
    rintro a b ⟨ha, hmark⟩ hab
    exact ⟨ha.tail hab, isMarked_step hab (fun state rest h => hkeeps a state rest ha h) hmark⟩
  exact hinv.2

/-- A run without limited rounds leaves no limitation. -/
lemma limitations_of_reaches {start : Search} (hstart : start.limitations = [])
    (hrounds : ∀ s state rest, Reaches (step session limits) start s →
      s.pending = state :: rest → limitsState session limits s state = false)
    (hend : Reaches (step session limits) start search) : search.limitations = [] := by
  refine (hend.invariant (I := fun t => Reaches (step session limits) start t ∧
    t.limitations = []) ?_ ⟨.refl, hstart⟩).2
  rintro a b ⟨ha, hnil⟩ hab
  refine ⟨ha.tail hab, ?_⟩
  obtain ⟨state, rest, hpending, rfl⟩ := step_eq_some hab
  rw [limitations_visit ((limitsState_pending rest).trans (hrounds a state rest ha hpending))]
  exact hnil

/-- A run that may report a chain, keeps the marks of its states, and in which chains of the same
key agree on their marks is honest about its completeness. -/
theorem isHonest_of_keepsMarks (session : Session) (limits : Limits) (root : String) (time : ℕ)
    (hpos : 0 < limits.maxChains)
    (hkeeps : KeepsMarks session limits
      (initialSearch session root (sampleAt session.waveform root time)))
    (hagree : ∀ search, Reaches (step session limits)
      (initialSearch session root (sampleAt session.waveform root time)) search →
      search.pending = [] → AgreeOnMarks session search.chains) :
    IsHonest session limits root time := by
  intro fuel search hrun hcomplete
  obtain ⟨hend, hnone⟩ := reaches_of_runLoop hrun
  obtain ⟨hlen, hall⟩ := complete_of_analysisComplete hpos hcomplete
  have hdone : search.pending = [] := by
    unfold step at hnone
    cases hp : search.pending with
    | nil => rfl
    | cons state rest => simp [hp] at hnone
  have hrounds : ∀ s state rest, Reaches (step session limits)
      (initialSearch session root (sampleAt session.waveform root time)) s →
      s.pending = state :: rest → limitsState session limits s state = false := by
    intro s state rest hs hpending
    by_contra hlimits
    have hmarked := isMarked_of_reaches hkeeps hs hpending (by simpa using hlimits) hend hnone
    rcases hmarked with ⟨state, hstate, -⟩ | ⟨chain, hchain, hmark⟩
    · -- the search is over
      simp [hdone] at hstate
    · obtain ⟨c, hc, hkey⟩ := @exists_mem_coalesce session _ _ hchain
      have hsame := hagree search hend hdone c (mem_of_mem_coalesce hc) chain hchain hkey
      rw [hall c hc, hmark] at hsame
      exact absurd hsame (by decide)
  refine ⟨hrounds, hlen, ?_⟩
  have hnil := limitations_of_reaches rfl hrounds hend
  unfold respond capChains
  rw [if_neg (not_lt.2 hlen)]
  exact hnil

/-- One assignment is followed to its source, and nothing is left out. -/
theorem copySession_isHonest :
    (runSearch copySession {} "y" (sampleAt copySession.waveform "y" 0) 3).map
        (fun search => (respond copySession {} search).analysisComplete) = some true ∧
      IsHonest copySession {} "y" 0 := by
  have hrun : (runSearch copySession {} "y" (sampleAt copySession.waveform "y" 0) 3).isSome =
      true := by decide +kernel
  obtain ⟨search, hsearch⟩ := Option.isSome_iff_exists.1 hrun
  refine ⟨by decide +kernel, isHonest_of_keepsMarks copySession {} "y" 0 (by decide) ?_ ?_⟩
  · intro s state rest hs hpending
    have hall : (loopStates (step copySession {}) 3 (initialSearch copySession "y"
        (sampleAt copySession.waveform "y" 0))).all (fun s => s.pending.head?.all fun state =>
          !losesMark copySession {} s state) = true := by decide +kernel
    have := List.all_eq_true.1 hall s (mem_loopStates hsearch hs)
    simpa [hpending] using this
  · intro s hs hpending
    have hall : (loopStates (step copySession {}) 3 (initialSearch copySession "y"
        (sampleAt copySession.waveform "y" 0))).all (fun s =>
          s.chains.all (·.complete)) = true := by decide +kernel
    have := List.all_eq_true.1 hall s (mem_loopStates hsearch hs)
    intro chain hchain chain' hchain' _
    rw [List.all_eq_true.1 this chain hchain, List.all_eq_true.1 this chain' hchain']

/-- A signal `r` with two ports: `p1` copies `a`, and `p2` depends on `a` and `b`. -/
def aliasSession : Session := allX
  [{ name := some "r", width := 1
     ports := [{ portSignal := 0, connectedSignal := 1, kind := "port_boundary" },
               { portSignal := 0, connectedSignal := 2, kind := "port_boundary" }] },
   { name := some "p1", width := 1
     drivers := [{ srcSignal := 3, kind := "cont_assign", dependencyRole := "rhs"
                   activationPredicate := "1", file := "t.v", line := 2 }] },
   { name := some "p2", width := 1
     drivers := [{ srcSignal := 3, kind := "cont_assign", dependencyRole := "rhs"
                   activationPredicate := "1", file := "t.v", line := 3 },
                 { srcSignal := 4, kind := "cont_assign", dependencyRole := "rhs"
                   activationPredicate := "1", file := "t.v", line := 3 }] },
   { name := some "a", width := 1 },
   { name := some "b", width := 1 }]

/-- With one dependency per hop, `b` is truncated at `p2`; the state of `a` that bears the
mark was explored through `p1` before, and the analysis counts as complete. -/
theorem aliasSession_not_isHonest : ¬ IsHonest aliasSession { traceSignals := some 1 } "r" 0 := by
  intro h
  have hrun : (runSearch aliasSession { traceSignals := some 1 } "r"
      (sampleAt aliasSession.waveform "r" 0) 8).map (fun search =>
        ((respond aliasSession { traceSignals := some 1 } search).analysisComplete,
          (respond aliasSession { traceSignals := some 1 } search).limitations)) =
      some (true, ["dependency enumeration truncated by limits.max_trace_signals at p2"]) := by
    decide +kernel
  obtain ⟨search, hsearch, heq⟩ := Option.map_eq_some_iff.1 hrun
  rw [Prod.mk.injEq] at heq
  have hnil := (h 8 search hsearch heq.1).limitations
  rw [heq.2] at hnil
  exact List.cons_ne_nil _ _ hnil

end XdebugFst.Trace.XOrigin
