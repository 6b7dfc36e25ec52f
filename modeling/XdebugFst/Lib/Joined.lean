import Mathlib

/-!
# Joined values

Labelled values are joined into one text: each value stands behind its label, and its end is not
marked. Two sequences of values with the same labels are then joined into the same text although
they differ exactly if, behind equal values, one value contains the beginning of what stands behind
the other: `joined_eq_iff`. If all labels begin with one separator, such a value contains it.
-/

namespace Lib

variable {ι α : Type} (label : ι → List α)

/-- The values behind their labels, in the order of a list. -/
def joined (value : ι → List α) : List ι → List α
  | [] => []
  | i :: rest => label i ++ (value i ++ joined value rest)

/-- The value of `t` contains the beginning of what stands behind the value of `s`. -/
def Spills (s t : ι → List α) (i : ι) (rest : List ι) : Prop :=
  ∃ m ≠ [], t i = s i ++ m ∧ joined label s rest = m ++ joined label t rest

/-- Behind equal values, one value spills. -/
def Shifted (s t : ι → List α) : List ι → Prop
  | [] => False
  | i :: rest =>
      (s i = t i ∧ Shifted s t rest) ∨ Spills label s t i rest ∨ Spills label t s i rest

variable {label} {s t : ι → List α}

/-- Joined texts are equal if the values are, or if they are shifted. -/
theorem joined_eq_iff (l : List ι) :
    joined label s l = joined label t l ↔ (∀ i ∈ l, s i = t i) ∨ Shifted label s t l := by
  induction l with
  | nil => simp [joined]
  | cons i rest ih =>
      rw [joined, joined, List.append_cancel_left_eq, List.forall_mem_cons, Shifted]
      constructor
      · intro h
        by_cases hi : s i = t i
        · rw [hi, List.append_cancel_left_eq, ih] at h
          rcases h with h | h
          · exact Or.inl ⟨hi, h⟩
          · exact Or.inr (Or.inl ⟨hi, h⟩)
        · -- one of the two values is longer
          rcases List.append_eq_append_iff.1 h with ⟨m, hm, hrest⟩ | ⟨m, hm, hrest⟩
          · refine Or.inr (Or.inr (Or.inl ⟨m, ?_, hm, hrest⟩))
            rintro rfl
            exact hi (by rw [hm, List.append_nil])
          · refine Or.inr (Or.inr (Or.inr ⟨m, ?_, hm, hrest⟩))
            rintro rfl
            exact hi (by rw [hm, List.append_nil])
      · rintro (⟨hi, h⟩ | ⟨hi, h⟩ | ⟨m, -, hm, hrest⟩ | ⟨m, -, hm, hrest⟩)
        · rw [hi, ih.2 (Or.inl h)]
        · rw [hi, ih.2 (Or.inr h)]
        · rw [hm, hrest, List.append_assoc]
        · rw [hm, hrest, List.append_assoc]

/-- Shifted values differ. -/
lemma Shifted.ne {l : List ι} (h : Shifted label s t l) : ∃ i ∈ l, s i ≠ t i := by
  induction l with
  | nil => exact h.elim
  | cons i rest ih =>
      rcases h with ⟨-, h⟩ | ⟨m, hne, hm, -⟩ | ⟨m, hne, hm, -⟩
      · obtain ⟨j, hj, hdiffer⟩ := ih h
        exact ⟨j, List.mem_cons_of_mem _ hj, hdiffer⟩
      · exact ⟨i, List.mem_cons_self, by simpa [hm] using hne⟩
      · exact ⟨i, List.mem_cons_self, by simpa [hm] using hne⟩

lemma Spills.mem {sep : α} (hlabel : ∀ i, (label i).head? = some sep) {i : ι} {rest : List ι}
    (h : Spills label s t i rest) : sep ∈ t i := by
  obtain ⟨m, hne, hm, hrest⟩ := h
  obtain ⟨c, m, rfl⟩ := List.exists_cons_of_ne_nil hne
  cases rest with
  | nil => simp [joined] at hrest
  | cons j rest =>
      obtain ⟨label', hj⟩ := List.head?_eq_some_iff.1 (hlabel j)
      rw [joined, hj, List.cons_append, List.cons_append] at hrest
      rw [hm, ← (List.cons.inj hrest).1]
      exact List.mem_append_right _ List.mem_cons_self

/-- Only values with the separator are shifted. -/
lemma Shifted.mem {sep : α} (hlabel : ∀ i, (label i).head? = some sep) {l : List ι}
    (h : Shifted label s t l) : ∃ i ∈ l, sep ∈ s i ∨ sep ∈ t i := by
  induction l with
  | nil => exact h.elim
  | cons i rest ih =>
      rcases h with ⟨-, h⟩ | h | h
      · obtain ⟨j, hj, hmem⟩ := ih h
        exact ⟨j, List.mem_cons_of_mem _ hj, hmem⟩
      · exact ⟨i, List.mem_cons_self, Or.inr (h.mem hlabel)⟩
      · exact ⟨i, List.mem_cons_self, Or.inl (h.mem hlabel)⟩

end Lib
