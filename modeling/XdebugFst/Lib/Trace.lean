import Mathlib.Data.List.Basic
import Mathlib.Tactic

/-!
# Traces

A machine that takes one event after the other, the states it passes through, and the first
step on which a property of the states is lost.
-/

namespace Lib

section States

variable {σ ε : Type*} (step : σ → ε → σ) (init : σ) (events : List ε)

/-- The state after the first `n` events. -/
def stateAt (n : ℕ) : σ := (events.take n).foldl step init

variable {events} in
lemma stateAt_succ {n : ℕ} (h : n < events.length) :
    stateAt step init events (n + 1) = step (stateAt step init events n) (events.get ⟨n, h⟩) := by
  rw [stateAt, List.take_succ_eq_append_getElem h, List.foldl_append]
  rfl

end States

/-- A property that holds at first and not at last is lost on some step, and holds up to it. -/
lemma exists_last_step {P : ℕ → Prop} {i j : ℕ} (hij : i ≤ j) (hi : P i) (hj : ¬ P j) :
    ∃ k, i ≤ k ∧ k < j ∧ (∀ m, i ≤ m → m ≤ k → P m) ∧ ¬ P (k + 1) := by
  classical
  -- the first step after `i` at which it is lost
  have hex : ∃ n, i ≤ n ∧ ¬ P n := ⟨j, hij, hj⟩
  obtain ⟨hle, hlost⟩ := Nat.find_spec hex
  have hmin : ∀ m, i ≤ m → m < Nat.find hex → P m := fun m him hm =>
    of_not_not fun hPm => Nat.find_min hex hm ⟨him, hPm⟩
  have hne : Nat.find hex ≠ i := fun heq => hlost (heq.symm ▸ hi)
  obtain ⟨k, hk⟩ := Nat.exists_eq_succ_of_ne_zero (show Nat.find hex ≠ 0 by omega)
  have hfind : Nat.find hex ≤ j := Nat.find_min' hex ⟨hij, hj⟩
  refine ⟨k, by omega, by omega, fun m him hmk => hmin m him (by omega), ?_⟩
  rwa [hk] at hlost

end Lib
