import Mathlib.Logic.Relation
import Mathlib.Order.WellFounded

/-!
# Loops

A loop is a function that takes a state to the next one, or to nothing
when the loop is over. `runLoop` runs it with a bound on the number of
rounds and answers nothing when the bound is too small, so a result is
the result of a loop that ended.

What a loop preserves is proved for the states it reaches, and that it
ends by a well-founded relation that every round descends.
-/

namespace Lib

variable {σ : Type}

/-- The state in which the loop ends, if it ends within the given number of rounds. -/
def runLoop (step : σ → Option σ) : ℕ → σ → Option σ
  | 0, s => if (step s).isNone then some s else none
  | fuel + 1, s =>
      match step s with
      | none => some s
      | some s' => runLoop step fuel s'

/-- The states of the first rounds. -/
def loopStates (step : σ → Option σ) : ℕ → σ → List σ
  | 0, s => [s]
  | fuel + 1, s =>
      match step s with
      | none => [s]
      | some s' => s :: loopStates step fuel s'

/-- The states that the loop goes through. -/
def Reaches (step : σ → Option σ) : σ → σ → Prop :=
  Relation.ReflTransGen fun a b => step a = some b

variable {step : σ → Option σ}

/-- A result is a state that the loop reaches and at which it ends. -/
lemma reaches_of_runLoop {fuel : ℕ} {s r : σ} (h : runLoop step fuel s = some r) :
    Reaches step s r ∧ step r = none := by
  induction fuel generalizing s with
  | zero =>
      rw [runLoop] at h
      split_ifs at h with hs
      obtain rfl := Option.some.inj h
      exact ⟨.refl, Option.isNone_iff_eq_none.1 hs⟩
  | succ fuel ih =>
      rw [runLoop] at h
      cases hs : step s with
      | none =>
          rw [hs] at h
          obtain rfl := Option.some.inj h
          exact ⟨.refl, hs⟩
      | some s' =>
          rw [hs] at h
          obtain ⟨hr, hend⟩ := ih h
          exact ⟨.head hs hr, hend⟩

/-- The invariant rule. -/
lemma Reaches.invariant {I : σ → Prop} (hstep : ∀ a b, I a → step a = some b → I b)
    {s r : σ} (h : Reaches step s r) (hs : I s) : I r := by
  induction h with
  | refl => exact hs
  | tail _ hab ih => exact hstep _ _ ih hab

/-- A loop goes through every state that it reaches before it ends. -/
lemma Reaches.to_end {s a r : σ} (h : Reaches step s a) (hr : Reaches step s r)
    (hend : step r = none) : Reaches step a r := by
  have hunique : Relator.RightUnique fun a b : σ => step a = some b := by
    intro a b c hb hc
    exact Option.some.inj (hb.symm.trans hc)
  rcases Relation.ReflTransGen.total_of_right_unique hunique h hr with h | h
  · exact h
  · -- the loop does not go on from its end
    rcases h.cases_head with rfl | ⟨b, hb, -⟩
    · exact .refl
    · simp [hend] at hb

/-- The states of a loop that ends are a list. -/
lemma mem_loopStates {fuel : ℕ} {s r a : σ} (hrun : runLoop step fuel s = some r)
    (h : Reaches step s a) : a ∈ loopStates step fuel s := by
  induction fuel generalizing s with
  | zero =>
      rcases h.cases_head with rfl | ⟨b, hb, -⟩
      · exact List.mem_singleton_self _
      · simp [runLoop, hb] at hrun
  | succ fuel ih =>
      rw [loopStates]
      rcases h.cases_head with rfl | ⟨b, hb, hba⟩
      · cases step s with
        | none => exact List.mem_singleton_self _
        | some s' => exact List.mem_cons_self
      · rw [runLoop, hb] at hrun
        rw [hb]
        exact List.mem_cons_of_mem _ (ih hrun hba)

/-- A loop ends if each of its rounds descends a well-founded relation. -/
lemma exists_runLoop {r : σ → σ → Prop} (hwf : WellFounded r)
    (hstep : ∀ a b, step a = some b → r b a) (s : σ) :
    ∃ fuel result, runLoop step fuel s = some result := by
  induction s using hwf.induction with
  | _ s ih =>
      cases hs : step s with
      | none => exact ⟨0, s, by simp [runLoop, hs]⟩
      | some s' =>
          obtain ⟨fuel, result, h⟩ := ih s' (hstep s s' hs)
          exact ⟨fuel + 1, result, by rw [runLoop, hs]; exact h⟩

end Lib
