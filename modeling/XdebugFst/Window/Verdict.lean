import XdebugFst.Window.Verify

/-!
# What the verdict of `window.verify` says about the window

The meaning of a request is a property of the whole window: an `always` condition is
known to be true at every selected edge, a `never` condition is known to be false at
every one, an `eventually` condition is known to be true at some edge.  A window is
here the list of its samples, a sample being the values of all conditions at one edge.

The scan reads a prefix of the window.  `scanEdges_outcome` says which prefix and why
the scan stopped there; everything about the verdict follows from its four cases.  Of
the two early stops only the one on a violation is sound: the one on the `eventually`
conditions ignores the `always` and `never` conditions that a later edge may violate.
-/

namespace XdebugFst.Window

variable {ε ρ : Type}

/-- The values of the conditions at one edge. -/
abbrev Sample (ε : Type) := ε → LogicValue

/-- The condition is known to be true. -/
def KnownTrue (v : LogicValue) : Prop := v.known = true ∧ truthy v = true

/-- The condition is known to be false. -/
def KnownFalse (v : LogicValue) : Prop := v.known = true ∧ truthy v = false

instance (v : LogicValue) : Decidable (KnownTrue v) := inferInstanceAs (Decidable (_ ∧ _))
instance (v : LogicValue) : Decidable (KnownFalse v) := inferInstanceAs (Decidable (_ ∧ _))

namespace Condition

/-- The mode is `always` or `never`. -/
def IsSafety (c : Condition ε) : Prop := c.mode ≠ .eventually

/-- The condition is not violated by the sample.  An `eventually` condition never is. -/
def SafeAt (c : Condition ε) (s : Sample ε) : Prop :=
  match c.mode with
  | .always => KnownTrue (s c.root)
  | .never => KnownFalse (s c.root)
  | .eventually => True

/-- The condition is an `eventually` condition that the sample makes true. -/
def SeenAt (c : Condition ε) (s : Sample ε) : Prop :=
  c.mode = .eventually ∧ KnownTrue (s c.root)

/-- The meaning of a condition over a window. -/
def Holds (c : Condition ε) (W : List (Sample ε)) : Prop :=
  match c.mode with
  | .always => ∀ s ∈ W, KnownTrue (s c.root)
  | .never => ∀ s ∈ W, KnownFalse (s c.root)
  | .eventually => ∃ s ∈ W, KnownTrue (s c.root)

instance (c : Condition ε) : Decidable c.IsSafety := inferInstanceAs (Decidable (_ ≠ _))

instance (c : Condition ε) (s : Sample ε) : Decidable (c.SafeAt s) :=
  match c with
  | ⟨_, .always, root⟩ => inferInstanceAs (Decidable (KnownTrue (s root)))
  | ⟨_, .never, root⟩ => inferInstanceAs (Decidable (KnownFalse (s root)))
  | ⟨_, .eventually, _⟩ => inferInstanceAs (Decidable True)

instance (c : Condition ε) (W : List (Sample ε)) : Decidable (c.Holds W) :=
  match c with
  | ⟨_, .always, root⟩ => inferInstanceAs (Decidable (∀ s ∈ W, KnownTrue (s root)))
  | ⟨_, .never, root⟩ => inferInstanceAs (Decidable (∀ s ∈ W, KnownFalse (s root)))
  | ⟨_, .eventually, root⟩ => inferInstanceAs (Decidable (∃ s ∈ W, KnownTrue (s root)))

lemma holds_of_isSafety {c : Condition ε} (hc : c.IsSafety) (W : List (Sample ε)) :
    c.Holds W ↔ ∀ s ∈ W, c.SafeAt s := by
  unfold Holds SafeAt
  cases hm : c.mode with
  | always => rfl
  | never => rfl
  | eventually => exact absurd hm hc

lemma holds_of_eventually {c : Condition ε} (hc : ¬ c.IsSafety) (W : List (Sample ε)) :
    c.Holds W ↔ ∃ s ∈ W, c.SeenAt s := by
  have hm : c.mode = .eventually := not_not.mp hc
  unfold Holds SeenAt
  simp [hm]

lemma safeAt_of_eventually {c : Condition ε} (hc : ¬ c.IsSafety) (s : Sample ε) :
    c.SafeAt s := by
  have hm : c.mode = .eventually := not_not.mp hc
  unfold SafeAt
  simp [hm]

end Condition

/-- Every condition holds over the window: the specification of the verdict `pass`. -/
def WindowHolds (cs : List (Condition ε)) (W : List (Sample ε)) : Prop :=
  ∀ c ∈ cs, c.Holds W

/-- No condition is violated by the sample. -/
def SafeSample (cs : List (Condition ε)) (s : Sample ε) : Prop := ∀ c ∈ cs, c.SafeAt s

/-- Some condition is an `eventually` condition and each of them is true at some sample
of the list. -/
def AllSeen (cs : List (Condition ε)) (W : List (Sample ε)) : Prop :=
  (∃ c ∈ cs, ¬ c.IsSafety) ∧ ∀ c ∈ cs, ¬ c.IsSafety → ∃ s ∈ W, c.SeenAt s

instance (cs : List (Condition ε)) (W : List (Sample ε)) : Decidable (WindowHolds cs W) :=
  inferInstanceAs (Decidable (∀ c ∈ cs, c.Holds W))

instance (cs : List (Condition ε)) (s : Sample ε) : Decidable (SafeSample cs s) :=
  inferInstanceAs (Decidable (∀ c ∈ cs, c.SafeAt s))

/-- A window without a violation in which every `eventually` condition is seen. -/
lemma windowHolds_iff {cs : List (Condition ε)} {W : List (Sample ε)} :
    WindowHolds cs W ↔ (∀ s ∈ W, SafeSample cs s) ∧
      ∀ c ∈ cs, ¬ c.IsSafety → ∃ s ∈ W, c.SeenAt s := by
  constructor
  · intro h
    refine ⟨fun s hs c hc => ?_, fun c hc hev => (c.holds_of_eventually hev W).1 (h c hc)⟩
    by_cases hsafe : c.IsSafety
    · exact (c.holds_of_isSafety hsafe W).1 (h c hc) s hs
    · exact c.safeAt_of_eventually hsafe s
  · rintro ⟨hsafe, hseen⟩ c hc
    by_cases h : c.IsSafety
    · exact (c.holds_of_isSafety h W).2 fun s hs => hsafe s hs c hc
    · exact (c.holds_of_eventually h W).2 (hseen c hc h)

/-- A violation refutes the window, whatever follows it. -/
lemma not_windowHolds_of_violation {cs : List (Condition ε)} {W : List (Sample ε)}
    {s : Sample ε} (hs : s ∈ W) (hv : ¬ SafeSample cs s) : ¬ WindowHolds cs W :=
  fun h => hv ((windowHolds_iff.1 h).1 s hs)

/-! ### The counters -/

/-- The state of a condition after the samples of a list. -/
def tally (c : Condition ε) (W : List (Sample ε)) : State ε :=
  W.foldl (fun st s => st.count (s c.root)) c.fresh

@[simp] lemma tally_nil (c : Condition ε) : tally c [] = c.fresh := rfl

lemma tally_append_singleton (c : Condition ε) (W : List (Sample ε)) (s : Sample ε) :
    tally c (W ++ [s]) = (tally c W).count (s c.root) := by
  simp [tally]

@[simp] lemma State.count_toCondition (st : State ε) (v : LogicValue) :
    (st.count v).toCondition = st.toCondition := by
  unfold State.count
  split_ifs <;> rfl

@[simp] lemma tally_toCondition (c : Condition ε) (W : List (Sample ε)) :
    (tally c W).toCondition = c := by
  induction W using List.reverseRecOn with
  | nil => rfl
  | append_singleton W s ih => rw [tally_append_singleton, State.count_toCondition, ih]

/-- A sample that violates no condition raises no counter but `passed`. -/
lemma State.count_of_safe {st : State ε} {s : Sample ε} (hc : st.toCondition.IsSafety)
    (h : st.toCondition.SafeAt s) :
    (st.count (s st.root)).failed = st.failed ∧
      (st.count (s st.root)).unknown = st.unknown := by
  unfold Condition.SafeAt at h
  unfold State.count passes
  cases hm : st.mode with
  | always =>
      simp only [hm, KnownTrue] at h
      simp [h.1, h.2]
  | never =>
      simp only [hm, KnownFalse] at h
      simp [h.1, h.2]
  | eventually => exact absurd hm hc

/-- A sample that violates the condition leaves a failed or an unknown sample. -/
lemma State.not_ok_count_of_violation {st : State ε} {s : Sample ε}
    (h : ¬ st.toCondition.SafeAt s) : (st.count (s st.root)).ok = false := by
  unfold Condition.SafeAt at h
  unfold State.count passes State.ok
  cases hm : st.mode with
  | always =>
      simp only [hm, KnownTrue, not_and, Bool.not_eq_true] at h
      cases hk : (s st.root).known with
      | false => simp [hm]
      | true => simp [h hk, hm]
  | never =>
      simp only [hm, KnownFalse, not_and, Bool.not_eq_false] at h
      cases hk : (s st.root).known with
      | false => simp [hm]
      | true => simp [h hk, hm]
  | eventually => simp [hm] at h

lemma tally_ok_of_safe {c : Condition ε} (hc : c.IsSafety) {W : List (Sample ε)}
    (h : ∀ s ∈ W, c.SafeAt s) : (tally c W).failed = 0 ∧ (tally c W).unknown = 0 := by
  induction W using List.reverseRecOn with
  | nil => exact ⟨rfl, rfl⟩
  | append_singleton W s ih =>
      have hW := ih fun s' hs' => h s' (List.mem_append_left _ hs')
      have hs : c.SafeAt s := h s (by simp)
      rw [tally_append_singleton]
      have hstep := @State.count_of_safe ε (tally c W) s (by simpa using hc) (by simpa using hs)
      simp only [tally_toCondition] at hstep
      exact ⟨hstep.1.trans hW.1, hstep.2.trans hW.2⟩

/-- An `eventually` condition has a passed sample exactly when it was seen. -/
lemma tally_passed_pos_iff {c : Condition ε} (hc : ¬ c.IsSafety) (W : List (Sample ε)) :
    0 < (tally c W).passed ↔ ∃ s ∈ W, c.SeenAt s := by
  have hm : c.mode = .eventually := not_not.mp hc
  induction W using List.reverseRecOn with
  | nil => simp [Condition.fresh]
  | append_singleton W s ih =>
      have hstep : (tally c (W ++ [s])).passed =
          (tally c W).passed + if KnownTrue (s c.root) then 1 else 0 := by
        rw [tally_append_singleton]
        unfold State.count passes KnownTrue
        by_cases hk : (s c.root).known = true
        · by_cases ht : truthy (s c.root) = true <;> simp [hm, hk, ht]
        · simp [hk]
      rw [hstep]
      constructor
      · intro h
        by_cases hs : KnownTrue (s c.root)
        · exact ⟨s, by simp, hm, hs⟩
        · obtain ⟨s', hs', hseen⟩ := ih.1 (by simpa [hs] using h)
          exact ⟨s', List.mem_append_left _ hs', hseen⟩
      · rintro ⟨s', hs', hseen⟩
        rcases List.mem_append.1 hs' with hW | hl
        · exact Nat.add_pos_left (ih.2 ⟨s', hW, hseen⟩) _
        · obtain rfl : s' = s := by simpa using hl
          simp [hseen.2]

/-- Over samples without a violation, the counters decide the conditions. -/
lemma all_ok_tally_iff (cs : List (Condition ε)) {W : List (Sample ε)}
    (h : ∀ s ∈ W, SafeSample cs s) :
    (cs.map (tally · W)).all State.ok = true ↔ WindowHolds cs W := by
  rw [windowHolds_iff, List.all_eq_true]
  simp only [List.mem_map, forall_exists_index, and_imp, forall_apply_eq_imp_iff₂]
  have hok : ∀ c ∈ cs, (tally c W).ok = true ↔ (¬ c.IsSafety → ∃ s ∈ W, c.SeenAt s) := by
    intro c hc
    by_cases hsafe : c.IsSafety
    · obtain ⟨hf, hu⟩ := tally_ok_of_safe hsafe fun s hs => h s hs c hc
      have hmode : (tally c W).mode ≠ .eventually := by
        simpa [Condition.IsSafety] using hsafe
      unfold State.ok
      cases hm : (tally c W).mode with
      | always => simp [hf, hu, hsafe]
      | never => simp [hf, hu, hsafe]
      | eventually => exact absurd hm hmode
    · have hmode : (tally c W).mode = .eventually := by
        simpa [Condition.IsSafety] using hsafe
      unfold State.ok
      simp only [hmode, decide_eq_true_eq, hsafe, not_false_iff, true_imp_iff]
      exact tally_passed_pos_iff hsafe W
  constructor
  · intro hall
    exact ⟨h, fun c hc => (hok c hc).1 (hall c hc)⟩
  · rintro ⟨-, hseen⟩ c hc
    exact (hok c hc).2 (hseen c hc)

/-! ### One edge -/

/-- The sample that the scan takes at an edge. -/
def Request.sampleAt (r : Request ε ρ) (edge : EdgeRecord) : Sample ε :=
  fun root => r.eval root edge.timeIdx

/-- The condition passes at the sample, in the sense of the inner loop. -/
lemma not_bad_iff_safe {st : State ε} {s : Sample ε} (hc : st.toCondition.IsSafety) :
    (!(s st.root).known || !passes st.mode (s st.root)) = false ↔ st.toCondition.SafeAt s := by
  unfold Condition.SafeAt passes KnownTrue KnownFalse
  cases hm : st.mode with
  | always => simp
  | never => simp
  | eventually => exact absurd hm hc

/-- An edge without a violation: every condition is counted. -/
lemma passConditions_of_safe (r : Request ε ρ) (edge : EdgeRecord) (sts : List (State ε))
    (p : Pass ε ρ) (h : ∀ st ∈ sts, st.toCondition.SafeAt (r.sampleAt edge)) :
    let q := passConditions r edge sts p
    q.done = p.done ++ sts.map (fun st => st.count (r.sampleAt edge st.root)) ∧
      q.decisive = p.decisive ∧
      (q.hasEventually = true ↔ p.hasEventually = true ∨
        ∃ st ∈ sts, ¬ st.toCondition.IsSafety) ∧
      (q.allEventuallySeen = true ↔ p.allEventuallySeen = true ∧
        ∀ st ∈ sts, ¬ st.toCondition.IsSafety →
          0 < (st.count (r.sampleAt edge st.root)).passed) := by
  induction sts generalizing p with
  | nil => simp [passConditions]
  | cons st rest ih =>
      have hst := h st (by simp)
      have hrest : ∀ st' ∈ rest, st'.toCondition.SafeAt (r.sampleAt edge) :=
        fun st' h' => h st' (by simp [h'])
      by_cases hc : st.toCondition.IsSafety
      · have hgood := (not_bad_iff_safe hc).2 hst
        have hgood' : (!(r.eval st.root edge.timeIdx).known ||
            !passes st.mode (r.eval st.root edge.timeIdx)) = false := hgood
        have hstep : passConditions r edge (st :: rest) p = passConditions r edge rest
            { p with done := p.done ++ [st.count (r.eval st.root edge.timeIdx)] } := by
          rw [passConditions]
          cases hm : st.mode with
          | always => simp only [hm] at hgood'; simp [hgood']
          | never => simp only [hm] at hgood'; simp [hgood']
          | eventually => exact absurd hm hc
        rw [hstep]
        obtain ⟨h1, h2, h3, h4⟩ := ih _ hrest
        refine ⟨?_, h2, ?_, ?_⟩
        · rw [h1]; simp [Request.sampleAt]
        · rw [h3]; simp [hc]
        · rw [h4]; simp [hc]
      · have hm : st.mode = .eventually := not_not.mp hc
        rw [passConditions]
        simp only [hm]
        obtain ⟨h1, h2, h3, h4⟩ := ih _ hrest
        refine ⟨h1.trans ?_, h2.trans ?_, h3.trans ?_, h4.trans ?_⟩
        · split_ifs <;> simp [Request.sampleAt]
        · split_ifs <;> rfl
        · simp [hc]
        · split_ifs <;>
            simp [hc, Request.sampleAt, Nat.pos_iff_ne_zero, and_assoc]

/-- An edge with a violation: the inner loop is decisive, and a condition that counted a
failed or an unknown sample is among the states. -/
lemma passConditions_of_violation (r : Request ε ρ) (edge : EdgeRecord) (sts : List (State ε))
    (p : Pass ε ρ) (h : ∃ st ∈ sts, ¬ st.toCondition.SafeAt (r.sampleAt edge)) :
    let q := passConditions r edge sts p
    q.decisive = true ∧ ∃ st ∈ q.done, st.ok = false := by
  induction sts generalizing p with
  | nil => simp at h
  | cons st rest ih =>
      by_cases hst : st.toCondition.SafeAt (r.sampleAt edge)
      · -- the violation is behind this condition, and the loop gets there
        have hrest : ∃ st' ∈ rest, ¬ st'.toCondition.SafeAt (r.sampleAt edge) := by
          obtain ⟨st', hmem, hbad⟩ := h
          rcases List.mem_cons.1 hmem with rfl | hmem
          · exact absurd hst hbad
          · exact ⟨st', hmem, hbad⟩
        rw [passConditions]
        by_cases hc : st.toCondition.IsSafety
        · have hgood : (!(r.eval st.root edge.timeIdx).known ||
              !passes st.mode (r.eval st.root edge.timeIdx)) = false :=
            (not_bad_iff_safe (s := r.sampleAt edge) hc).2 hst
          cases hm : st.mode with
          | always => simp only [hm] at hgood; simp only [hgood]; exact ih _ hrest
          | never => simp only [hm] at hgood; simp only [hgood]; exact ih _ hrest
          | eventually => exact absurd hm hc
        · have hm : st.mode = .eventually := not_not.mp hc
          simp only [hm]
          exact ih _ hrest
      · have hc : st.toCondition.IsSafety := by
          by_contra hc
          exact hst (Condition.safeAt_of_eventually hc _)
        have hbad : (!(r.eval st.root edge.timeIdx).known ||
            !passes st.mode (r.eval st.root edge.timeIdx)) = true := by
          rw [← Bool.not_eq_false]
          exact fun hf => hst ((not_bad_iff_safe (s := r.sampleAt edge) hc).1 hf)
        have hno : (st.count (r.eval st.root edge.timeIdx)).ok = false :=
          State.not_ok_count_of_violation hst
        rw [passConditions]
        cases hm : st.mode with
        | always =>
            simp only [hm] at hbad
            simp only [hbad, if_true]
            exact ⟨trivial, _, by simp, hno⟩
        | never =>
            simp only [hm] at hbad
            simp only [hbad, if_true]
            exact ⟨trivial, _, by simp, hno⟩
        | eventually => exact absurd hm hc

/-! ### The scan -/

/-- The samples of the selected edges: the window that the request is about. -/
def Request.window (r : Request ε ρ) (edges : List EdgeRecord) : List (Sample ε) :=
  (edges.filter (selects r)).map r.sampleAt

/-- The scan has read the samples `A` without a reason to stop. -/
structure Tracks (cs : List (Condition ε)) (L : ℕ) (A : List (Sample ε)) (s : Scan ε ρ) :
    Prop where
  states : s.states = cs.map (tally · A)
  samples : s.samples = A.length
  truncated : s.truncated = false
  decisive : s.decisive = false
  le_limit : A.length ≤ L
  safe : ∀ x ∈ A, SafeSample cs x
  unseen : A ≠ [] → ¬ AllSeen cs A

/-- How a scan of the window `W` with the sample budget `L` ends. -/
inductive Outcome (cs : List (Condition ε)) (L : ℕ) (W : List (Sample ε)) (s : Scan ε ρ) :
    Prop
  /-- A violation within the budget stopped the scan. -/
  | violation (A : List (Sample ε)) (x : Sample ε) (hA : A ++ [x] <+: W)
      (hlen : A.length < L) (hunseen : A ≠ [] → ¬ AllSeen cs A)
      (hx : ¬ SafeSample cs x) (hdec : s.decisive = true)
      (htr : s.truncated = false) (hno : s.states.all State.ok = false)
  /-- Every `eventually` condition was seen within the budget, before any violation. -/
  | seen (A : List (Sample ε)) (hA : A <+: W) (hne : A ≠ []) (hlen : A.length ≤ L)
      (hsafe : ∀ x ∈ A, SafeSample cs x) (hseen : AllSeen cs A) (hdec : s.decisive = true)
      (htr : s.truncated = false) (hst : s.states = cs.map (tally · A))
  /-- The budget was used up before the end of the window. -/
  | budget (hlen : L < W.length) (hdec : s.decisive = false) (htr : s.truncated = true)
      (hsafe : ∀ x ∈ W.take L, SafeSample cs x)
      (hunseen : W.take L ≠ [] → ¬ AllSeen cs (W.take L))
  /-- The whole window was read. -/
  | complete (hlen : W.length ≤ L) (hdec : s.decisive = false) (htr : s.truncated = false)
      (hsafe : ∀ x ∈ W, SafeSample cs x) (hunseen : W ≠ [] → ¬ AllSeen cs W)
      (hst : s.states = cs.map (tally · W))

section Edge

variable {r : Request ε ρ} {cs : List (Condition ε)} {A : List (Sample ε)} {s : Scan ε ρ}

/-- The conditions at an edge without a violation. -/
lemma Tracks.pass_of_safe (h : Tracks cs r.sampleLimit A s) {edge : EdgeRecord}
    (hsafe : SafeSample cs (r.sampleAt edge)) :
    let p := passConditions r edge s.states
      { findingCount := s.findingCount, findings := s.findings }
    p.done = cs.map (tally · (A ++ [r.sampleAt edge])) ∧ p.decisive = false ∧
      ((p.hasEventually && p.allEventuallySeen) = true ↔
        AllSeen cs (A ++ [r.sampleAt edge])) := by
  have hstates : ∀ st ∈ s.states, st.toCondition.SafeAt (r.sampleAt edge) := by
    intro st hst
    rw [h.states] at hst
    obtain ⟨c, hc, rfl⟩ := List.mem_map.1 hst
    simpa using hsafe c hc
  obtain ⟨hdone, hdecisive, hhas, hall⟩ := passConditions_of_safe r edge s.states
    { findingCount := s.findingCount, findings := s.findings } hstates
  refine ⟨?_, hdecisive, ?_⟩
  · rw [hdone, h.states]
    simp [Function.comp_def, tally_append_singleton]
  · rw [Bool.and_eq_true, hhas, hall, h.states]
    unfold AllSeen
    simp only [Bool.false_eq_true, false_or, true_and, List.mem_map, exists_exists_and_eq_and,
      forall_exists_index, and_imp, forall_apply_eq_imp_iff₂, tally_toCondition]
    refine and_congr Iff.rfl (forall₂_congr fun c _ => ?_)
    refine imp_congr_right fun hc => ?_
    rw [← tally_passed_pos_iff hc, tally_append_singleton]

/-- The conditions at an edge with a violation. -/
lemma Tracks.pass_of_violation (h : Tracks cs r.sampleLimit A s) {edge : EdgeRecord}
    (hsafe : ¬ SafeSample cs (r.sampleAt edge)) :
    let p := passConditions r edge s.states
      { findingCount := s.findingCount, findings := s.findings }
    p.decisive = true ∧ p.done.all State.ok = false := by
  have hviolated : ∃ st ∈ s.states, ¬ st.toCondition.SafeAt (r.sampleAt edge) := by
    unfold SafeSample at hsafe
    push Not at hsafe
    obtain ⟨c, hc, hbad⟩ := hsafe
    refine ⟨tally c A, ?_, by simpa using hbad⟩
    rw [h.states]
    exact List.mem_map_of_mem hc
  obtain ⟨hdecisive, st, hst, hno⟩ := passConditions_of_violation r edge s.states
    { findingCount := s.findingCount, findings := s.findings } hviolated
  exact ⟨hdecisive, List.all_eq_false.2 ⟨st, hst, by simp [hno]⟩⟩

lemma Tracks.safe_append (h : Tracks cs r.sampleLimit A s) {x : Sample ε} (hx : SafeSample cs x) :
    ∀ y ∈ A ++ [x], SafeSample cs y := by
  intro y hy
  rcases List.mem_append.1 hy with hy | hy
  · exact h.safe y hy
  · rw [List.mem_singleton.1 hy]
    exact hx

end Edge

lemma scanEdges_outcome_of_tracks (r : Request ε ρ) (cs : List (Condition ε))
    (edges : List EdgeRecord) (A : List (Sample ε)) (s : Scan ε ρ)
    (h : Tracks cs r.sampleLimit A s) :
    Outcome cs r.sampleLimit (A ++ r.window edges) (scanEdges r edges s) := by
  induction edges generalizing A s with
  | nil =>
      have hW : A ++ r.window [] = A := by simp [Request.window]
      rw [hW]
      exact .complete h.le_limit h.decisive h.truncated h.safe h.unseen h.states
  | cons edge rest ih =>
      rw [scanEdges]
      by_cases hsel : selects r edge = true
      · have hW : r.window (edge :: rest) = r.sampleAt edge :: r.window rest := by
          simp [Request.window, hsel]
        simp only [hsel, Bool.not_true, Bool.false_eq_true, if_false]
        by_cases hlim : s.samples ≥ r.sampleLimit
        · -- the budget is used up
          have hlen : A.length = r.sampleLimit := le_antisymm h.le_limit (h.samples ▸ hlim)
          have htake : (A ++ r.window (edge :: rest)).take r.sampleLimit = A := by
            rw [← hlen, List.take_left]
          simp only [if_pos hlim]
          refine .budget ?_ h.decisive rfl ?_ ?_
          · rw [hW, ← hlen]; simp
          · rw [htake]; exact h.safe
          · rw [htake]; exact h.unseen
        · have hlt : A.length < r.sampleLimit := by rw [← h.samples]; omega
          simp only [if_neg hlim]
          by_cases hsafe : SafeSample cs (r.sampleAt edge)
          · -- no violation at this edge
            obtain ⟨hstates, hdecisive, hall⟩ := h.pass_of_safe hsafe
            set p := passConditions r edge s.states
              { findingCount := s.findingCount, findings := s.findings } with hp
            have hassoc : A ++ r.window (edge :: rest) =
                (A ++ [r.sampleAt edge]) ++ r.window rest := by rw [hW]; simp
            have hlen : (A ++ [r.sampleAt edge]).length ≤ r.sampleLimit := by simpa using hlt
            simp only [hdecisive, Bool.false_eq_true, if_false]
            rw [hassoc]
            by_cases hseen : (p.hasEventually && p.allEventuallySeen) = true
            · rw [if_pos hseen]
              exact .seen _ (List.prefix_append _ _) (by simp) hlen (h.safe_append hsafe)
                (hall.1 hseen) rfl h.truncated hstates
            · rw [if_neg hseen]
              refine ih _ _ ⟨hstates, ?_, h.truncated, h.decisive, hlen, h.safe_append hsafe,
                fun _ hc => hseen (hall.2 hc)⟩
              simp [h.samples]
          · -- a violation at this edge
            obtain ⟨hdecisive, hno⟩ := h.pass_of_violation hsafe
            simp only [hdecisive, if_true]
            refine .violation A (r.sampleAt edge) ?_ hlt h.unseen hsafe rfl h.truncated hno
            exact ⟨r.window rest, by rw [hW]; simp⟩
      · have hW : r.window (edge :: rest) = r.window rest := by
          simp [Request.window, hsel]
        simp only [hsel, Bool.not_false, if_true]
        rw [hW]
        exact ih A s h

/-- Every scan ends in one of the four ways of `Outcome`. -/
theorem scan_outcome (r : Request ε ρ) (cs : List (Condition ε)) (edges : List EdgeRecord) :
    Outcome cs r.sampleLimit (r.window edges) (scan r cs edges) := by
  have h : Tracks cs r.sampleLimit ([] : List (Sample ε))
      ({ states := cs.map Condition.fresh } : Scan ε ρ) :=
    ⟨by simp, rfl, rfl, rfl, Nat.zero_le _, by simp, fun hne => absurd rfl hne⟩
  exact scanEdges_outcome_of_tracks r cs edges [] _ h

/-! ### The verdict -/

/-- The verdict that a window deserves. -/
def windowVerdict (cs : List (Condition ε)) (W : List (Sample ε)) : Verdict :=
  if WindowHolds cs W then .pass else .fail

/-- The verdict of the response is the one that the window deserves.  When the scan was
not cut by the sample budget the verdict decides the conditions over the whole window;
when the window is longer than the budget, a verdict `pass` or `fail` is one that every
continuation of the samples within the budget deserves. -/
def DecidesWindow (r : Request ε ρ) (cs : List (Condition ε)) (edges : List EdgeRecord) : Prop :=
  ((windowVerify r cs edges).scanComplete = true →
    (windowVerify r cs edges).verdict = windowVerdict cs (r.window edges)) ∧
  (r.sampleLimit < (r.window edges).length →
    (windowVerify r cs edges).verdict ≠ .inconclusive →
    ∀ beyond : List (Sample ε),
      (windowVerify r cs edges).verdict =
        windowVerdict cs ((r.window edges).take r.sampleLimit ++ beyond))

/-- The edge at which the scan stops because every `eventually` condition has been seen
exists: some nonempty part of the window, within the budget, has no violation and shows
every `eventually` condition. -/
def SeenWithinBudget (cs : List (Condition ε)) (L : ℕ) (W : List (Sample ε)) : Prop :=
  ∃ A, A <+: W ∧ A ≠ [] ∧ A.length ≤ L ∧ (∀ x ∈ A, SafeSample cs x) ∧ AllSeen cs A

lemma AllSeen.mono {cs : List (Condition ε)} {A B : List (Sample ε)} (hAB : A ⊆ B)
    (h : AllSeen cs A) : AllSeen cs B :=
  ⟨h.1, fun c hc hev => (h.2 c hc hev).imp fun _ hs => ⟨hAB hs.1, hs.2⟩⟩

/-- Where the longer of two nested parts of the window is unseen, no stop lies within the
shorter one. -/
lemma not_seen_of_prefix {cs : List (Condition ε)} {A B : List (Sample ε)} (hAB : A <+: B)
    (hne : A ≠ []) (hseen : AllSeen cs A) (hun : B ≠ [] → ¬ AllSeen cs B) : False := by
  refine hun ?_ (hseen.mono hAB.subset)
  rintro rfl
  exact hne (List.prefix_nil.1 hAB)

lemma windowVerdict_of_seen {cs : List (Condition ε)} {A W : List (Sample ε)} (hAW : A ⊆ W)
    (hseen : AllSeen cs A) : windowVerdict cs W = .pass ↔ ∀ x ∈ W, SafeSample cs x := by
  have h : WindowHolds cs W ↔ ∀ x ∈ W, SafeSample cs x :=
    windowHolds_iff.trans (and_iff_left (hseen.mono hAW).2)
  rw [← h]
  unfold windowVerdict
  split_ifs with hW <;> simp [hW]

/-- A sample at which nothing is known violates every `always` and `never` condition. -/
lemma isSafety_of_unsafe_unknown {cs : List (Condition ε)} :
    SafeSample cs (fun _ => { bits := "x", known := false }) ↔ ∀ c ∈ cs, ¬ c.IsSafety := by
  refine forall₂_congr fun c _ => ?_
  unfold Condition.SafeAt Condition.IsSafety KnownTrue KnownFalse
  cases c.mode <;> simp

/-- A window that has been seen is not violated however it goes on exactly if no condition can be
violated at all. -/
lemma windowVerdict_extends_iff {cs : List (Condition ε)} {A W : List (Sample ε)} (hAW : A ⊆ W)
    (hseen : AllSeen cs A) :
    (∀ beyond, .pass = windowVerdict cs (W ++ beyond)) ↔ ∀ c ∈ cs, ¬ c.IsSafety := by
  have hpass : ∀ beyond, .pass = windowVerdict cs (W ++ beyond) ↔
      ∀ x ∈ W ++ beyond, SafeSample cs x := by
    intro beyond
    rw [eq_comm, windowVerdict_of_seen (fun x hx => List.mem_append_left _ (hAW hx)) hseen]
  simp only [hpass]
  constructor
  · intro h
    exact isSafety_of_unsafe_unknown.1 (h [fun _ => { bits := "x", known := false }] _ (by simp))
  · intro hnone beyond x _ c hc
    exact Condition.safeAt_of_eventually (hnone c hc) x

lemma windowVerify_verdict_of_decisive {r : Request ε ρ} {cs : List (Condition ε)}
    {edges : List EdgeRecord} (h : (scan r cs edges).decisive = true) :
    (windowVerify r cs edges).verdict =
      if (scan r cs edges).states.all State.ok then .pass else .fail := by
  simp [windowVerify, Scan.response, h]

/-- The verdict of `window.verify` is the one the window deserves exactly when the stop
on the `eventually` conditions, if the scan makes it, hides no violation: no `always` or
`never` condition is violated at a later edge of the window or, where the window is
longer than the sample budget, no such condition is listed at all. -/
theorem decidesWindow_iff (r : Request ε ρ) (cs : List (Condition ε))
    (edges : List EdgeRecord) :
    DecidesWindow r cs edges ↔
      (SeenWithinBudget cs r.sampleLimit (r.window edges) →
        if r.sampleLimit < (r.window edges).length then ∀ c ∈ cs, ¬ c.IsSafety
        else ∀ x ∈ r.window edges, SafeSample cs x) := by
  set W := r.window edges with hWdef
  unfold DecidesWindow
  rw [← hWdef]
  have hscan : (windowVerify r cs edges).scanComplete = !(scan r cs edges).truncated := rfl
  cases scan_outcome r cs edges with
  | violation A x hA hlen hunseen hx hdec htr hno =>
      -- the violation is in the window and within the budget, and before any stop
      have hverdict : (windowVerify r cs edges).verdict = .fail := by
        rw [windowVerify_verdict_of_decisive hdec, hno]; rfl
      have hfail : ∀ B, x ∈ B → windowVerdict cs B = .fail := fun B hB =>
        if_neg (not_windowHolds_of_violation hB hx)
      have hnot : ¬ SeenWithinBudget cs r.sampleLimit W := by
        rintro ⟨B, hB, hne, -, hsafe, hseen⟩
        rcases List.prefix_or_prefix_of_prefix hB hA with hBA | hBA
        · rcases List.prefix_concat_iff.1 hBA with rfl | hBA
          · exact hx (hsafe x (by simp))
          · exact not_seen_of_prefix hBA hne hseen hunseen
        · exact hx (hsafe x (hBA.subset (by simp)))
      refine iff_of_true ⟨fun _ => ?_, fun _ _ beyond => ?_⟩ fun h => absurd h hnot
      · rw [hverdict, hfail W (hA.subset (by simp))]
      · have htake : A ++ [x] <+: W.take r.sampleLimit :=
          List.prefix_take_iff.2 ⟨hA, by simpa using hlen⟩
        rw [hverdict, hfail _ (List.mem_append_left _ (htake.subset (by simp)))]
  | seen A hA hne hlen hsafe hseen hdec htr hst =>
      -- the scan stops with a pass, which the rest of the window may contradict
      have hbudget : SeenWithinBudget cs r.sampleLimit W := ⟨A, hA, hne, hlen, hsafe, hseen⟩
      have hok : (scan r cs edges).states.all State.ok = true := by
        rw [hst, all_ok_tally_iff cs hsafe]
        exact windowHolds_iff.2 ⟨hsafe, hseen.2⟩
      have hverdict : (windowVerify r cs edges).verdict = .pass := by
        rw [windowVerify_verdict_of_decisive hdec, hok]; rfl
      have hwhole : (windowVerify r cs edges).verdict = windowVerdict cs W ↔
          ∀ x ∈ W, SafeSample cs x := by
        rw [hverdict, eq_comm, windowVerdict_of_seen hA.subset hseen]
      have hsub : A ⊆ W.take r.sampleLimit := (List.prefix_take_iff.2 ⟨hA, hlen⟩).subset
      simp only [hscan, htr, Bool.not_false, true_imp_iff, hwhole, hbudget]
      by_cases hcut : r.sampleLimit < W.length
      · simp only [if_true, true_imp_iff, hcut, hverdict, ne_eq, reduceCtorEq, not_false_eq_true]
        rw [windowVerdict_extends_iff hsub hseen]
        refine and_iff_right_of_imp fun hnone x _ c hc => ?_
        exact Condition.safeAt_of_eventually (hnone c hc) x
      · simp only [hcut, false_imp_iff, and_true, if_false]
  | budget hlen hdec htr hsafe hunseen =>
      have hverdict : (windowVerify r cs edges).verdict = .inconclusive := by
        simp [windowVerify, Scan.response, hdec, htr]
      have hnot : ¬ SeenWithinBudget cs r.sampleLimit W := by
        rintro ⟨B, hB, hne, hB', -, hseen⟩
        exact not_seen_of_prefix (List.prefix_take_iff.2 ⟨hB, hB'⟩) hne hseen hunseen
      refine iff_of_true ⟨fun h => ?_, fun _ h => absurd hverdict h⟩ fun h => absurd h hnot
      rw [hscan, htr] at h
      exact absurd h (by simp)
  | complete hlen hdec htr hsafe hunseen hst =>
      -- every sample of the window has been tallied
      have hnot : ¬ SeenWithinBudget cs r.sampleLimit W := by
        rintro ⟨B, hB, hne, -, -, hseen⟩
        exact not_seen_of_prefix hB hne hseen hunseen
      refine iff_of_true ⟨fun _ => ?_, fun h => absurd h hlen.not_gt⟩ fun h => absurd h hnot
      have hall := all_ok_tally_iff cs hsafe
      rw [← hst] at hall
      unfold windowVerdict
      by_cases hW : WindowHolds cs W
      · simp [windowVerify, Scan.response, hdec, htr, hall.2 hW, hW]
      · have hno : (scan r cs edges).states.all State.ok = false := by
          rw [← Bool.not_eq_true]
          exact fun h => hW (hall.1 h)
        simp [windowVerify, Scan.response, hdec, htr, hno, hW]

/-- Two conditions over two falling edges: `a` is to hold always and is false at the
second edge, `b` is to hold eventually and is true at the first. -/
def mixedRequest : Request String Unit where
  eval root timeIdx := { bits := if root = "a" ∧ timeIdx = 1 then "0" else "1", width := 1 }
  renderedValues _ := ()
  edge := .negedge
  beginTime := 0
  endTime := 100
  evidenceLimit := 100
  sampleLimit := 1000

/-- The scan of `mixedRequest` stops at the first edge and reports `pass`. -/
theorem mixedRequest_not_decidesWindow :
    ¬ DecidesWindow mixedRequest
      [{ expr := "a", mode := .always, root := "a" },
       { expr := "b", mode := .eventually, root := "b" }]
      [{ timeIdx := 0, time := 10, kind := .negedge },
       { timeIdx := 1, time := 20, kind := .negedge }] := by
  intro h
  exact absurd (h.1 (by decide)) (by decide)

end XdebugFst.Window
