import Mathlib

/-!
# Searches for an extreme element

A search for the least or the greatest element of a set finds nothing exactly if the set is empty.
Searching a sorted list for the first element of a kind is such a search, and so is the minimum or
the maximum over the results of several.

A search in a set `s` is right for another set exactly if the extreme element of both together is
in each of them: `FindsLeast.iff_of_findsLeast`.
-/

namespace Lib

variable {ι α β : Type}

/-- The result of a search for the least element of a set. -/
def FindsLeast [Preorder α] (s : Set α) : Option α → Prop
  | none => s = ∅
  | some a => IsLeast s a

/-- The result of a search for the greatest element of a set. -/
def FindsGreatest [Preorder α] (s : Set α) : Option α → Prop
  | none => s = ∅
  | some a => IsGreatest s a

section Lists

variable [Preorder α] {l : List α}

/-- The first element of a kind in a sorted list is the least one. -/
lemma findsLeast_find? (h : l.Pairwise (· ≤ ·)) (p : α → Bool) :
    FindsLeast {a | a ∈ l ∧ p a = true} (l.find? p) := by
  cases hfind : l.find? p with
  | none =>
      refine Set.eq_empty_iff_forall_notMem.2 ?_
      rintro a ⟨hmem, hp⟩
      exact List.find?_eq_none.1 hfind a hmem hp
  | some a =>
      refine ⟨⟨List.mem_of_find?_eq_some hfind, List.find?_some hfind⟩, ?_⟩
      rintro b ⟨hmem, hp⟩
      obtain ⟨-, before, after, rfl, hbefore⟩ := List.find?_eq_some_iff_append.1 hfind
      rcases List.mem_append.1 hmem with hin | hin
      · have hno := hbefore b hin
        simp [hp] at hno
      · rcases List.mem_cons.1 hin with rfl | hin
        · exact le_rfl
        · exact (List.pairwise_cons.1 (List.pairwise_append.1 h).2.1).1 b hin

/-- The last element of a kind in a sorted list is the greatest one. -/
lemma findsGreatest_find?_reverse (h : l.Pairwise (· ≤ ·)) (p : α → Bool) :
    FindsGreatest {a | a ∈ l ∧ p a = true} (l.reverse.find? p) := by
  have hleast := findsLeast_find? (α := αᵒᵈ) (l := l.reverse) (List.pairwise_reverse.2 h) p
  have hset : {a : α | a ∈ l ∧ p a = true} = {a | a ∈ l.reverse ∧ p a = true} := by
    ext a
    simp
  rw [hset]
  exact hleast

/-- In a sorted list the elements up to the first one that fails a condition are those that satisfy
it, when an element satisfies it as soon as a larger one does. -/
lemma mem_takeWhile_iff (h : l.Pairwise (· ≤ ·)) {p : α → Bool}
    (hp : ∀ a ∈ l, ∀ b ∈ l, a ≤ b → p b = true → p a = true) {a : α} :
    a ∈ l.takeWhile p ↔ a ∈ l ∧ p a = true := by
  induction l with
  | nil => simp
  | cons b l ih =>
      obtain ⟨hb, hl⟩ := List.pairwise_cons.1 h
      have htail := ih hl fun c hc d hd =>
        hp c (List.mem_cons_of_mem b hc) d (List.mem_cons_of_mem b hd)
      rw [List.takeWhile_cons]
      cases hpb : p b with
      | true =>
          rw [if_pos rfl, List.mem_cons, htail, List.mem_cons]
          refine ⟨fun hor => hor.elim (fun heq => ⟨.inl heq, heq ▸ hpb⟩) fun hin => ⟨.inr hin.1, hin.2⟩,
            fun hand => hand.1.imp_right fun hin => ⟨hin, hand.2⟩⟩
      | false =>
          refine iff_of_false (by simp) ?_
          rintro ⟨hmem, hpa⟩
          rcases List.mem_cons.1 hmem with rfl | hin
          · simp [hpb] at hpa
          · have hpb' := hp b List.mem_cons_self a hmem (hb a hin) hpa
            simp [hpb] at hpb'

end Lists

section Image

variable [Preorder α] [Preorder β] {f : α → β} {s : Set α} {r : Option α}

lemma FindsLeast.image (h : FindsLeast s r) (hf : MonotoneOn f s) :
    FindsLeast (f '' s) (r.map f) := by
  cases r with
  | none =>
      rw [FindsLeast] at h
      rw [h]
      exact Set.image_empty f
  | some a => exact hf.map_isLeast h

lemma FindsGreatest.image (h : FindsGreatest s r) (hf : MonotoneOn f s) :
    FindsGreatest (f '' s) (r.map f) := by
  cases r with
  | none =>
      rw [FindsGreatest] at h
      rw [h]
      exact Set.image_empty f
  | some a => exact hf.map_isGreatest h

end Image

section Several

variable [LinearOrder α] {l : List ι} {f : ι → Option α} {s : ι → Set α}

/-- The minimum over several searches. -/
lemma findsLeast_filterMap (h : ∀ i ∈ l, FindsLeast (s i) (f i)) :
    FindsLeast {a | ∃ i ∈ l, a ∈ s i} (l.filterMap f).min? := by
  cases hmin : (l.filterMap f).min? with
  | none =>
      rw [List.min?_eq_none_iff, List.filterMap_eq_nil_iff] at hmin
      refine Set.eq_empty_iff_forall_notMem.2 ?_
      rintro a ⟨i, hi, ha⟩
      have hempty := h i hi
      rw [hmin i hi, FindsLeast] at hempty
      exact (Set.eq_empty_iff_forall_notMem.1 hempty) a ha
  | some a =>
      obtain ⟨hmem, hle⟩ := List.min?_eq_some_iff.1 hmin
      obtain ⟨i, hi, hfi⟩ := List.mem_filterMap.1 hmem
      have hleast := h i hi
      rw [hfi] at hleast
      refine ⟨⟨i, hi, hleast.1⟩, ?_⟩
      rintro b ⟨j, hj, hb⟩
      have hother := h j hj
      cases hfj : f j with
      | none =>
          rw [hfj] at hother
          exact absurd hb ((Set.eq_empty_iff_forall_notMem.1 hother) b)
      | some c =>
          rw [hfj] at hother
          exact (hle c (List.mem_filterMap.2 ⟨j, hj, hfj⟩)).trans (hother.2 hb)

/-- The maximum over several searches. -/
lemma findsGreatest_filterMap (h : ∀ i ∈ l, FindsGreatest (s i) (f i)) :
    FindsGreatest {a | ∃ i ∈ l, a ∈ s i} (l.filterMap f).max? :=
  findsLeast_filterMap (α := αᵒᵈ) h

end Several

section Compare

variable [PartialOrder α] {s t : Set α} {r : Option α}

/-- A search in one set that is taken for one in another. -/
lemma FindsLeast.iff_of_findsLeast (h : FindsLeast s r)
    (hleast : (t ∪ s).Nonempty → ∃ a, IsLeast (t ∪ s) a) :
    FindsLeast t r ↔ ∀ a, IsLeast (t ∪ s) a → a ∈ t ∧ a ∈ s := by
  constructor
  · intro ht a ha
    cases r with
    | none =>
        rw [FindsLeast] at h ht
        rw [h, ht, Set.union_empty] at ha
        exact absurd ha.1 (Set.notMem_empty a)
    | some b =>
        have hb : IsLeast (t ∪ s) b := ⟨.inl ht.1, fun c hc => hc.elim (ht.2 ·) (h.2 ·)⟩
        rw [ha.unique hb]
        exact ⟨ht.1, h.1⟩
  · intro hboth
    rcases (t ∪ s).eq_empty_or_nonempty with hempty | hne
    · obtain ⟨rfl, rfl⟩ := Set.union_empty_iff.1 hempty
      exact h
    · obtain ⟨a, ha⟩ := hleast hne
      obtain ⟨hat, has⟩ := hboth a ha
      have hs : IsLeast s a := ⟨has, fun c hc => ha.2 (.inr hc)⟩
      cases r with
      | none =>
          rw [FindsLeast] at h
          exact absurd has (h ▸ Set.notMem_empty a)
      | some b =>
          rw [hs.unique h] at ha hat
          exact ⟨hat, fun c hc => ha.2 (.inl hc)⟩

lemma FindsGreatest.iff_of_findsGreatest (h : FindsGreatest s r)
    (hgreatest : (t ∪ s).Nonempty → ∃ a, IsGreatest (t ∪ s) a) :
    FindsGreatest t r ↔ ∀ a, IsGreatest (t ∪ s) a → a ∈ t ∧ a ∈ s :=
  FindsLeast.iff_of_findsLeast (α := αᵒᵈ) h hgreatest

end Compare

end Lib
