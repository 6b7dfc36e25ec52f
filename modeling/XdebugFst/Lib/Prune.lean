import Mathlib.Tactic
import Mathlib.Data.List.Chain

/-!
# Dropping repeated values

A loop that appends an item to a list unless it is the same as the last item of the list. What
counts as the same is a test, which need not be an equivalence: an item that is not the same as
itself is kept as often as it comes.

The list that results keeps the order of the items. Each item has a representative, the last one
kept up to it (`getLast?_prune`), and `mem_prune_iff` says which items are kept. Where the test is an
equivalence but for some odd items, `isChain_prune_iff` says when adjacent items differ in the sense
of the equivalence: no two odd items follow each other.
-/

namespace Lib

variable {α : Type} (same : α → α → Bool)

/-- One turn of the loop. -/
def pruneStep (kept : List α) (a : α) : List α :=
  if kept.getLast?.any (same · a) then kept else kept ++ [a]

/-- The items that are kept. -/
def prune (l : List α) : List α := l.foldl (pruneStep same) []

variable {same} {l : List α} {a : α}

@[simp] lemma prune_nil : prune same [] = [] := rfl

lemma prune_concat (l : List α) (a : α) :
    prune same (l ++ [a]) = pruneStep same (prune same l) a := by
  rw [prune, List.foldl_append]
  rfl

/-- What is kept stays, and what is added are further items. -/
lemma exists_prune_append (l l' : List α) :
    ∃ added, prune same (l ++ l') = prune same l ++ added ∧ added.Sublist l' := by
  induction l' using List.reverseRecOn with
  | nil => exact ⟨[], by simp, List.Sublist.slnil⟩
  | append_singleton l' a ih =>
      obtain ⟨added, hprune, hsub⟩ := ih
      rw [← List.append_assoc, prune_concat, hprune, pruneStep]
      split_ifs
      · exact ⟨added, rfl, hsub.trans (List.sublist_append_left l' [a])⟩
      · exact ⟨added ++ [a], by simp, hsub.append_right [a]⟩

lemma prune_sublist (l : List α) : (prune same l).Sublist l := by
  have h : ∃ added, prune same ([] ++ l) = prune same [] ++ added ∧ added.Sublist l :=
    exists_prune_append [] l
  obtain ⟨added, hprune, hsub⟩ := h
  rw [List.nil_append, prune_nil, List.nil_append] at hprune
  exact hprune ▸ hsub

/-- The last item is kept, or it is the same as the last one that is. -/
lemma getLast?_prune (h : l.getLast? = some a) :
    ∃ b, (prune same l).getLast? = some b ∧ (b = a ∨ same b a = true) := by
  obtain ⟨init, rfl⟩ := List.getLast?_eq_some_iff.1 h
  rw [prune_concat, pruneStep]
  split_ifs with hsame
  · cases hlast : (prune same init).getLast? with
    | none => simp [hlast] at hsame
    | some b => exact ⟨b, rfl, Or.inr (by simpa [hlast] using hsame)⟩
  · exact ⟨a, by simp, Or.inl rfl⟩

lemma getLast?_prune_eq_none (h : l.getLast? = none) : (prune same l).getLast? = none := by
  rw [List.getLast?_eq_none_iff] at h ⊢
  rw [h, prune_nil]

/-- An item is kept where the last one that is kept before it is not the same. -/
lemma mem_prune_iff : a ∈ prune same l ↔ ∃ before after, l = before ++ a :: after ∧
    (prune same before).getLast?.any (same · a) = false := by
  constructor
  · intro h
    induction l using List.reverseRecOn with
    | nil => simp at h
    | append_singleton l b ih =>
        rw [prune_concat, pruneStep] at h
        have hkeep (h : a ∈ prune same l) : ∃ before after, l ++ [b] = before ++ a :: after ∧
            (prune same before).getLast?.any (same · a) = false := by
          obtain ⟨before, after, rfl, hlast⟩ := ih h
          exact ⟨before, after ++ [b], by simp, hlast⟩
        split_ifs at h with hsame
        · exact hkeep h
        · rcases List.mem_append.1 h with h | h
          · exact hkeep h
          · obtain rfl := List.mem_singleton.1 h
            exact ⟨l, [], rfl, by simpa using hsame⟩
  · rintro ⟨before, after, rfl, hlast⟩
    have h : ∃ added, prune same ((before ++ [a]) ++ after) = prune same (before ++ [a]) ++ added ∧
        added.Sublist after := exists_prune_append _ _
    obtain ⟨added, hprune, -⟩ := h
    rw [List.append_cons, hprune, prune_concat, pruneStep, if_neg (by simp [hlast])]
    simp

/-- If the test is an equivalence `E` but for odd items, which are not the same as any item although
`E` holds of them all, adjacent items differ unless an odd item follows another. -/
lemma isChain_prune_iff {E : α → α → Prop} {odd : α → Prop}
    (hE : ∀ a b, E a b ↔ same a b = true ∨ odd a ∧ odd b)
    (hodd : ∀ a b, odd a ∨ odd b → same a b = false) (l : List α) :
    ((prune same l).IsChain fun a b => ¬ E a b) ↔ l.IsChain fun a b => ¬ (odd a ∧ odd b) := by
  induction l using List.reverseRecOn with
  | nil => simp
  | append_singleton l a ih =>
      rw [prune_concat, pruneStep, List.isChain_append, ← ih]
      cases hlast : l.getLast? with
      | none =>
          have hnone : (prune same l).getLast? = none := getLast?_prune_eq_none hlast
          rw [hnone, Option.any_none, if_neg Bool.false_ne_true, List.isChain_append, hnone]
          simp
      | some b =>
          obtain ⟨c, hc, hcb⟩ : ∃ c, (prune same l).getLast? = some c ∧ (c = b ∨ same c b = true) :=
            getLast?_prune hlast
          -- the item before is odd exactly if the last one kept is
          have hiff : odd b ↔ odd c := by
            rcases hcb with rfl | hcb
            · rfl
            · refine iff_of_false (fun h => ?_) fun h => ?_
              · rw [hodd c b (Or.inr h)] at hcb
                cases hcb
              · rw [hodd c b (Or.inl h)] at hcb
                cases hcb
          rw [hc, Option.any_some]
          split_ifs with hsame
          · have hnot : ¬ odd a := fun h => by
              rw [hodd c a (Or.inr h)] at hsame
              cases hsame
            simp [hnot]
          · rw [List.isChain_append, hc]
            simp [hE, hsame, hiff]

end Lib
