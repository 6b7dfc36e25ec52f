import Mathlib.Data.Multiset.Bind
import Mathlib.Tactic

/-!
# The levels of a tree

A tree is given by the children of a node. Going through its levels one after the other is going
through the tree, node for node (`flatMap_atDepth_perm`).
-/

namespace Lib

variable {α : Type} (children : α → List α)

/-- The nodes at a depth below a node. -/
def atDepth : ℕ → α → List α
  | 0, x => [x]
  | d + 1, x => (children x).flatMap (atDepth d)

/-- The nodes at depths less than `n`, each one in front of what is below it. -/
def within : ℕ → α → List α
  | 0, _ => []
  | n + 1, x => x :: (children x).flatMap (within n)

/-- Two loops that collect can change places. -/
lemma flatMap_flatMap_perm {β γ : Type} (l : List α) (m : List β) (f : α → β → List γ) :
    (l.flatMap fun a => m.flatMap (f a)).Perm (m.flatMap fun b => l.flatMap fun a => f a b) := by
  induction l with
  | nil => simp
  | cons a l ih =>
    simp only [List.flatMap_cons]
    exact (ih.append_left _).trans (List.flatMap_append_perm m (f a) _)

/-- The levels of a tree are the tree. -/
theorem flatMap_atDepth_perm (n : ℕ) (x : α) :
    ((List.range n).flatMap fun d => atDepth children d x).Perm (within children n x) := by
  induction n generalizing x with
  | zero => rfl
  | succ n ih =>
    rw [List.range_succ_eq_map, List.flatMap_cons, List.flatMap_map, atDepth, within]
    refine List.Perm.cons x ?_
    -- for each child, all of its levels
    exact (flatMap_flatMap_perm _ _ _).trans (List.Perm.flatMap_left _ fun c _ => ih c)

/-- The same for several trees. -/
theorem flatMap_levels_perm (n : ℕ) (start : List α) :
    ((List.range n).flatMap fun d => start.flatMap (atDepth children d)).Perm
      (start.flatMap (within children n)) :=
  (flatMap_flatMap_perm _ _ _).trans
    (List.Perm.flatMap_left _ fun x _ => flatMap_atDepth_perm children n x)

end Lib
