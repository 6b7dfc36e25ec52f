import Mathlib
import XdebugFst.Lib.Explore
import XdebugFst.Trace.Drivers

/-!
# Sources behind temporaries

`collect_expression_sources` looks through compiler temporaries. It should give the signals behind
them, and a temporary itself only where it cannot be replaced: if nothing stands behind it or if it
is on a cycle.

The recursion cannot tell a temporary on a cycle from one that two others use, since in both cases
it has visited the temporary before. `expandsTemporaries_iff` says when this does not matter.
-/

namespace XdebugFst.Trace

open Lib Waveform

section Statements

variable (session : Session) (parentControls : List ℤ)

/-- A signal that the recursion looks through. -/
def IsTemporary (source : ℤ) : Prop := session.isTransparentExpressionSignal source = true

/-- The sources of the records along which it goes on from a temporary. -/
def temporarySources (source : ℤ) : List ℤ :=
  (session.temporaryDependencies parentControls source).map (·.srcSignal)

/-- The recursion ends with the signals behind `start`, and with the temporaries that have no
dependency or are on a cycle; a temporary that is expanded is not among them. -/
structure ExpandsTemporaries (start : ℤ) : Prop where
  sources : ∃ acc, session.collectExpressionSources parentControls session.design.signals.length
    start {} = some acc ∧ ∀ x, x ∈ acc.sources ↔
      Reached (IsTemporary session) (temporarySources session parentControls) start x ∧
        (¬ IsTemporary session x ∨ temporarySources session parentControls x = [] ∨
          OnCycle (IsTemporary session) (temporarySources session parentControls) x)
  expanded : ∀ x ∈ session.expressionSources parentControls start, IsTemporary session x →
    temporarySources session parentControls x ≠ [] →
      OnCycle (IsTemporary session) (temporarySources session parentControls) x

/-- The temporaries behind `start` to which more than one record leads, the start being one, are
those on a cycle. -/
def SharesOnlyCycles (start : ℤ) : Prop :=
  ∀ x, Reached (IsTemporary session) (temporarySources session parentControls) start x →
    IsTemporary session x → temporarySources session parentControls x ≠ [] →
      (EnteredAgain (IsTemporary session) (temporarySources session parentControls) start x ↔
        OnCycle (IsTemporary session) (temporarySources session parentControls) x)

end Statements

/-! ### The recursion -/

section Walk

variable {session : Session} {parentControls : List ℤ} {start source : ℤ}
  {acc : Session.Collected}

/-- The result of a walk, if there is one, adds the calls to what is explored. -/
def Explores (session : Session) (parentControls : List ℤ) (start : ℤ) (acc : Session.Collected)
    (calls : Multiset ℤ) (out : Option Session.Collected) : Prop :=
  ∀ acc', out = some acc' → ∀ entered,
    Explored (IsTemporary session) (temporarySources session parentControls) start
      acc.visited acc.sources entered →
    ∃ entered', Explored (IsTemporary session) (temporarySources session parentControls) start
        acc'.visited acc'.sources entered' ∧
      Extends (temporarySources session parentControls) acc.visited entered calls
        acc'.visited entered'

/-- A sequence of walks. -/
lemma explores_foldlM {walk : Session.Collected → DriverRecord → Option Session.Collected}
    {l : List DriverRecord}
    (hwalk : ∀ d ∈ l, ∀ acc, Explores session parentControls start acc {d.srcSignal} (walk acc d)) :
    Explores session parentControls start acc (l.map (·.srcSignal) : List ℤ)
      (l.foldlM walk acc) := by
  induction l generalizing acc with
  | nil =>
      rintro acc' ⟨⟩ entered h
      exact ⟨entered, h, Extends.refl⟩
  | cons d l ih =>
      intro acc' hout entered h
      rw [List.foldlM_cons] at hout
      obtain ⟨mid, hmid, hout⟩ := Option.bind_eq_some_iff.1 hout
      obtain ⟨entered₁, h₁, hext₁⟩ := hwalk d List.mem_cons_self acc mid hmid entered h
      have hrest : Explores session parentControls start mid (l.map (·.srcSignal) : List ℤ)
          (l.foldlM walk mid) := ih fun d' hd' => hwalk d' (List.mem_cons_of_mem d hd')
      obtain ⟨entered₂, h₂, hext₂⟩ := hrest acc' hout entered₁ h₁
      refine ⟨entered₂, h₂, ?_⟩
      have hext := hext₁.trans hext₂
      rwa [Multiset.singleton_add] at hext

lemma perm_setInsert {visited : List ℤ} {x : ℤ} (h : x ∉ visited) :
    (setInsert visited x).Perm (x :: visited) := by
  rw [setInsert, if_neg h]
  exact List.perm_orderedInsert _ _ _

/-- A temporary that is new is visited, and the walk goes on from it. -/
lemma explores_visit {walk : Session.Collected → DriverRecord → Option Session.Collected}
    (hreached : Reached (IsTemporary session) (temporarySources session parentControls) start source)
    (hin : IsTemporary session source) (hnew : source ∉ acc.visited)
    (hwalk : ∀ d ∈ session.temporaryDependencies parentControls source, ∀ acc,
      Explores session parentControls start acc {d.srcSignal} (walk acc d)) :
    Explores session parentControls start acc {source}
      (if session.temporaryDependencies parentControls source = [] then
        some ((acc.visit source).found source)
      else (session.temporaryDependencies parentControls source).foldlM walk (acc.visit source)) := by
  intro acc' hout entered h
  have hperm := perm_setInsert hnew
  have hseen : ((acc.visit source).visited : Multiset ℤ) = source ::ₘ acc.visited :=
    Multiset.coe_eq_coe.2 hperm
  split_ifs at hout with hnil
  · rw [Option.some.injEq] at hout
    subst hout
    have hnext : temporarySources session parentControls source = [] := by
      rw [temporarySources, hnil, List.map_nil]
    refine ⟨source ::ₘ entered, h.visit_cons hreached hin hnew hperm fun y => ?_, ?_⟩
    · exact mem_setInsert.trans (or_congr_left (and_iff_left_of_imp fun _ => hnext).symm)
    · refine Extends.visit hseen ?_
      rw [hnext]
      exact Extends.refl
  · have hnext : temporarySources session parentControls source ≠ [] := by
      rwa [temporarySources, Ne, List.map_eq_nil_iff]
    have hvisit : Explored (IsTemporary session) (temporarySources session parentControls) start
        (acc.visit source).visited (acc.visit source).sources (source ::ₘ entered) := by
      refine h.visit_cons hreached hin hnew hperm fun y => ⟨Or.inr, ?_⟩
      rintro (⟨-, hnil'⟩ | hy)
      · exact absurd hnil' hnext
      · exact hy
    obtain ⟨entered', h', hext⟩ := explores_foldlM hwalk acc' hout _ hvisit
    exact ⟨entered', h', Extends.visit hseen hext⟩

/-- One call adds its signal to what is entered. -/
lemma explores_collectStep
    {calls : Option (Session.Collected → DriverRecord → Option Session.Collected)}
    (hreached : Reached (IsTemporary session) (temporarySources session parentControls) start source)
    (hsource : 0 ≤ source)
    (hcalls : ∀ call, calls = some call → IsTemporary session source →
      ∀ d ∈ session.temporaryDependencies parentControls source, ∀ acc,
        Explores session parentControls start acc {d.srcSignal} (call acc d)) :
    Explores session parentControls start acc {source}
      (session.collectStep parentControls source acc calls) := by
  unfold Session.collectStep
  by_cases htemporary : session.isTransparentExpressionSignal source = false
  · rw [if_pos htemporary, if_pos hsource]
    have hnot : ¬ IsTemporary session source := by simp [IsTemporary, htemporary]
    rintro acc' ⟨⟩ entered h
    exact ⟨source ::ₘ entered, h.found_cons hreached (fun hin => absurd hin hnot)
      fun y => mem_setInsert, Extends.single⟩
  · have hin : IsTemporary session source := by simpa [IsTemporary] using htemporary
    rw [if_neg htemporary]
    split_ifs with hvisited
    · rintro acc' ⟨⟩ entered h
      exact ⟨source ::ₘ entered, h.found_cons hreached (fun _ => hvisited)
        fun y => mem_setInsert, Extends.single⟩
    · cases calls with
      | none => rintro acc' ⟨⟩
      | some call => exact explores_visit hreached hin hvisited (hcalls call rfl hin)

lemma mem_temporarySources {x : ℤ} (h : x ∈ temporarySources session parentControls source) :
    0 ≤ x := by
  obtain ⟨d, hd, rfl⟩ := List.mem_map.1 h
  have hcond := (List.mem_filter.1 hd).2
  simp only [decide_eq_true_eq, not_or, not_lt] at hcond
  exact hcond.1

/-- The recursion explores the graph of the temporaries. -/
lemma explores_collectExpressionSources (fuel : ℕ)
    (hreached : Reached (IsTemporary session) (temporarySources session parentControls) start source)
    (hsource : 0 ≤ source) :
    Explores session parentControls start acc {source}
      (session.collectExpressionSources parentControls fuel source acc) := by
  induction fuel generalizing source acc with
  | zero => exact explores_collectStep hreached hsource fun call hcall => by cases hcall
  | succ fuel ih =>
      refine explores_collectStep hreached hsource fun call hcall hin d hd acc => ?_
      have hmem : d.srcSignal ∈ temporarySources session parentControls source :=
        List.mem_map_of_mem hd
      obtain rfl := Option.some.inj hcall
      exact ih (hreached.tail ⟨hin, hmem⟩) (mem_temporarySources hmem)

end Walk

/-! ### The sources -/

/-- What the recursion finds: beside the signals behind `start`, the temporaries without dependency
and those that it enters again. -/
lemma exists_collectExpressionSources (session : Session) (parentControls : List ℤ) {start : ℤ}
    (hstart : IsTemporary session start) :
    ∃ acc, session.collectExpressionSources parentControls session.design.signals.length start {} =
      some acc ∧ ∀ x, x ∈ acc.sources ↔
        Reached (IsTemporary session) (temporarySources session parentControls) start x ∧
          (¬ IsTemporary session x ∨ temporarySources session parentControls x = [] ∨
            EnteredAgain (IsTemporary session) (temporarySources session parentControls) start x) := by
  have hsome : (session.collectExpressionSources parentControls session.design.signals.length start
      {}).isSome := collectExpressionSources_isSome parentControls start
  obtain ⟨acc, hacc⟩ := Option.isSome_iff_exists.1 hsome
  have hempty : Explored (IsTemporary session) (temporarySources session parentControls) start
      [] [] 0 := ⟨List.nodup_nil, by simp, by simp, by simp⟩
  obtain ⟨entered, h, hext⟩ := explores_collectExpressionSources session.design.signals.length
    Relation.ReflTransGen.refl (isTransparent_lt hstart).1 acc hacc 0 hempty
  exact ⟨acc, hacc, fun x => h.mem_found_iff hext⟩

/-- The recursion gives the sources behind a temporary, if and only if it enters again just those
temporaries that are on a cycle. -/
theorem expandsTemporaries_iff (session : Session) (parentControls : List ℤ) (start : ℤ)
    (hstart : IsTemporary session start) :
    ExpandsTemporaries session parentControls start ↔
      SharesOnlyCycles session parentControls start := by
  obtain ⟨acc, hacc, hsources⟩ := exists_collectExpressionSources session parentControls hstart
  constructor
  · rintro ⟨⟨acc', hacc', hexpected⟩, -⟩ x hreached hin hnext
    obtain rfl := Option.some.inj (hacc.symm.trans hacc')
    have hiff := (hsources x).symm.trans (hexpected x)
    simpa [hreached, hin, hnext] using hiff
  · intro h
    have hexpected : ∀ x, x ∈ acc.sources ↔
        Reached (IsTemporary session) (temporarySources session parentControls) start x ∧
          (¬ IsTemporary session x ∨ temporarySources session parentControls x = [] ∨
            OnCycle (IsTemporary session) (temporarySources session parentControls) x) := by
      intro x
      rw [hsources]
      refine and_congr_right fun hreached => ?_
      by_cases hin : IsTemporary session x
      · by_cases hnext : temporarySources session parentControls x = []
        · simp [hnext]
        · simp only [hin, hnext, h x hreached hin hnext]
      · simp [hin]
    refine ⟨⟨acc, hacc, hexpected⟩, fun x hx hin hnext => ?_⟩
    rw [Session.expressionSources, hacc, Option.getD_some, hexpected] at hx
    exact (hx.2.resolve_left (not_not.2 hin)).resolve_left hnext

/-! ### A shared temporary -/

lemma temporaryTimes_sorted : List.Pairwise (· < ·) [0] := List.pairwise_singleton _ _

lemma temporaryTimes_lt : ∀ t ∈ [0], t < 2 ^ 64 :=
  List.forall_mem_singleton.2 (Nat.two_pow_pos 64)

lemma temporaryTable_changes : ∀ s ∈ [("s", [(0, "0")])],
    s.2.Pairwise (fun a b : ℕ × String => a.1 ≤ b.1) ∧ ∀ c ∈ s.2, c.1 < [0].length :=
  List.forall_mem_singleton.2 ⟨List.pairwise_singleton _ _, List.forall_mem_singleton.2 Nat.one_pos⟩

/-- A session over a table of signals, of which the waveform has `s` only. -/
def temporarySession (signals : List SignalFacts) : Session where
  waveform := Backend.ofTable [0] [("s", [(0, "0")])] temporaryTimes_sorted temporaryTimes_lt
    temporaryTable_changes
  design := .ofSignals signals
  sourceContext _ _ := []
  formatTime time := toString time ++ "ns"

/-- A signal with this name that the given ones drive. -/
def drivenBy (name : String) (sources : List ℤ) : SignalFacts where
  name := some name
  width := 1
  drivers := sources.map fun source =>
    { srcSignal := source, kind := "cont_assign", dependencyRole := "rhs" }

/-- The temporary 0 uses 1 and 2, and 1 uses 2 as well, behind which `s` stands. -/
def sharedSession : Session := temporarySession
  [drivenBy "__vlemcall_0" [1, 2], drivenBy "__vlemcall_1" [2], drivenBy "__vlemcall_2" [3],
    drivenBy "s" []]

/-- The temporary 0 uses 1, behind which `s` stands. -/
def chainSession : Session := temporarySession
  [drivenBy "__vlemcall_0" [1], drivenBy "__vlemcall_1" [2], drivenBy "s" []]

/-- A temporary that uses only later signals is not on a cycle. -/
lemma not_onCycle_of_lt {session : Session} {parentControls : List ℤ}
    (h : ∀ i < session.design.signals.length,
      ∀ b ∈ temporarySources session parentControls i, (i : ℤ) < b) (x : ℤ) :
    ¬ OnCycle (IsTemporary session) (temporarySources session parentControls) x := by
  have hstep : ∀ a b, Leads (IsTemporary session) (temporarySources session parentControls) a b →
      a < b := by
    rintro a b ⟨ha, hb⟩
    obtain ⟨hnonneg, hlt⟩ := isTransparent_lt ha
    lift a to ℕ using hnonneg
    exact h a hlt b hb
  intro hcycle
  have hlt : ∀ {a b}, Relation.TransGen
      (Leads (IsTemporary session) (temporarySources session parentControls)) a b → a < b := by
    intro a b hab
    induction hab with
    | single hab => exact hstep _ _ hab
    | tail _ hbc ih => exact ih.trans (hstep _ _ hbc)
  exact lt_irrefl x (hlt hcycle)

/-- The temporary 2 is among the sources of 0, although it is expanded. -/
theorem sharedSession_not_expandsTemporaries :
    IsTemporary sharedSession 0 ∧ ¬ ExpandsTemporaries sharedSession [] 0 := by
  refine ⟨by unfold IsTemporary; decide +kernel, fun h => ?_⟩
  have hmem : (2 : ℤ) ∈ sharedSession.expressionSources [] 0 := by decide +kernel
  have hlater : ∀ i < sharedSession.design.signals.length,
      ∀ b ∈ temporarySources sharedSession [] i, (i : ℤ) < b := by decide +kernel
  exact not_onCycle_of_lt hlater 2
    (h.expanded 2 hmem (by unfold IsTemporary; decide +kernel) (by decide +kernel))

/-- In a chain, `s` is the only source. -/
theorem chainSession_expandsTemporaries :
    ExpandsTemporaries chainSession [] 0 ∧ chainSession.expressionSources [] 0 = [2] := by
  have hlater : ∀ i < chainSession.design.signals.length,
      ∀ b ∈ temporarySources chainSession [] i, (i : ℤ) < b := by decide +kernel
  have hplaces : ∀ i < chainSession.design.signals.length,
      ∀ j < (temporarySources chainSession [] i).length, j = 0 ∧
        (temporarySources chainSession [] i)[j]? = some (i + 1 : ℤ) := by decide +kernel
  refine ⟨(expandsTemporaries_iff chainSession [] 0 (by unfold IsTemporary; decide +kernel)).2
    fun x hreached hin hnext => iff_of_false ?_ (not_onCycle_of_lt hlater x), by decide +kernel⟩
  -- only the signal before it leads to a signal, and only once
  have hentry : ∀ p ∈ entries (IsTemporary chainSession) (temporarySources chainSession []) 0 x,
      p = (x - 1, 0) ∧ 0 < x := by
    rintro ⟨v, j⟩ ⟨⟨-, hv⟩, hj⟩
    obtain ⟨hnonneg, hlt⟩ := isTransparent_lt hv
    lift v to ℕ using hnonneg
    obtain ⟨rfl, hsome⟩ := hplaces v hlt j (List.getElem?_eq_some_iff.1 hj).1
    obtain rfl : (v : ℤ) + 1 = x := Option.some.inj (hsome.symm.trans hj)
    exact ⟨by simp, by omega⟩
  rintro (⟨p, hp, q, hq, hne⟩ | ⟨rfl, p, hp⟩)
  · exact hne ((hentry p hp).1.trans (hentry q hq).1.symm)
  · exact lt_irrefl _ (hentry p hp).2

end XdebugFst.Trace
