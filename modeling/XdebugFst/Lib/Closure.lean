import Mathlib.Data.Finset.Basic
import Mathlib.Logic.Relation
import Mathlib.Tactic

/-!
# Closing a set of names under references

Definitions are looked up by name and refer to other names. Starting from some names, a worklist
takes a pending name, skips it if it was selected before, and else selects its definition and adds
the names that this refers to.

`Closing` is the invariant of such a loop, with one lemma for each of its steps. It holds in
whatever order the names are taken. At the end the selected names are the ones that the start
refers to, at any distance (`Closing.mem_iff`).
-/

namespace Lib

variable {α β : Type} [DecidableEq α]

/-- The definition of the first name refers to the second one. -/
def RefersTo (lookup : α → Option β) (refs : β → Finset α) (a b : α) : Prop :=
  ∃ v, lookup a = some v ∧ b ∈ refs v

/-- The names that the start refers to, at any distance. -/
def Needs (lookup : α → Option β) (refs : β → Finset α) (start : Finset α) (a : α) : Prop :=
  ∃ s ∈ start, Relation.ReflTransGen (RefersTo lookup refs) s a

variable {lookup : α → Option β} {refs : β → Finset α} {start pending : Finset α}
  {selected : Set α} {a b : α} {v : β}

omit [DecidableEq α] in
lemma Needs.of_mem (h : a ∈ start) : Needs lookup refs start a := ⟨a, h, .refl⟩

omit [DecidableEq α] in
lemma Needs.next (h : Needs lookup refs start a) (hv : lookup a = some v) (hb : b ∈ refs v) :
    Needs lookup refs start b := by
  obtain ⟨s, hs, hpath⟩ := h
  exact ⟨s, hs, hpath.tail ⟨v, hv, hb⟩⟩

/-- The state of a worklist that closes the names of the start. -/
structure Closing (lookup : α → Option β) (refs : β → Finset α) (start pending : Finset α)
    (selected : Set α) : Prop where
  needs_pending : ∀ a ∈ pending, Needs lookup refs start a
  needs_selected : ∀ a ∈ selected, Needs lookup refs start a
  start_covered : ∀ a ∈ start, a ∈ selected ∨ a ∈ pending
  refs_covered : ∀ a ∈ selected, ∃ v, lookup a = some v ∧
    ∀ b ∈ refs v, b ∈ selected ∨ b ∈ pending

namespace Closing

omit [DecidableEq α] in
/-- At first all names are pending. -/
lemma init : Closing lookup refs start start ∅ where
  needs_pending _ h := .of_mem h
  needs_selected _ h := h.elim
  start_covered _ h := Or.inr h
  refs_covered _ h := h.elim

/-- A pending name that was selected before is skipped. -/
lemma skip (h : Closing lookup refs start pending selected) (ha : a ∈ selected) :
    Closing lookup refs start (pending.erase a) selected where
  needs_pending b hb := h.needs_pending b (Finset.mem_of_mem_erase hb)
  needs_selected := h.needs_selected
  start_covered b hb := by
    by_cases hba : b = a
    · exact Or.inl (hba ▸ ha)
    · exact (h.start_covered b hb).imp_right fun hmem => Finset.mem_erase.2 ⟨hba, hmem⟩
  refs_covered b hb := by
    obtain ⟨v, hv, hrefs⟩ := h.refs_covered b hb
    refine ⟨v, hv, fun c hc => ?_⟩
    by_cases hca : c = a
    · exact Or.inl (hca ▸ ha)
    · exact (hrefs c hc).imp_right fun hmem => Finset.mem_erase.2 ⟨hca, hmem⟩

/-- A pending name is selected, and what it refers to is pending. -/
lemma select (h : Closing lookup refs start pending selected) (ha : a ∈ pending)
    (hv : lookup a = some v) :
    Closing lookup refs start (pending.erase a ∪ refs v) (insert a selected) := by
  have hneeds := h.needs_pending a ha
  have hcovered : ∀ b, b ∈ selected ∨ b ∈ pending →
      b ∈ insert a selected ∨ b ∈ pending.erase a ∪ refs v := by
    rintro b (hb | hb)
    · exact Or.inl (Set.mem_insert_of_mem _ hb)
    · by_cases hba : b = a
      · exact Or.inl (hba ▸ Set.mem_insert _ _)
      · exact Or.inr (Finset.mem_union_left _ (Finset.mem_erase.2 ⟨hba, hb⟩))
  refine ⟨fun b hb => ?_, ?_, fun b hb => hcovered b (h.start_covered b hb), ?_⟩
  · rcases Finset.mem_union.1 hb with hb | hb
    · exact h.needs_pending b (Finset.mem_of_mem_erase hb)
    · exact hneeds.next hv hb
  · rintro b (rfl | hb)
    · exact hneeds
    · exact h.needs_selected b hb
  · rintro b (rfl | hb)
    · exact ⟨v, hv, fun c hc => Or.inr (Finset.mem_union_right _ hc)⟩
    · obtain ⟨w, hw, hrefs⟩ := h.refs_covered b hb
      exact ⟨w, hw, fun c hc => hcovered c (hrefs c hc)⟩

omit [DecidableEq α] in
/-- When nothing is pending, the selected names are the needed ones. -/
theorem mem_iff (h : Closing lookup refs start ∅ selected) :
    a ∈ selected ↔ Needs lookup refs start a := by
  refine ⟨h.needs_selected a, ?_⟩
  rintro ⟨s, hs, hpath⟩
  induction hpath with
  | refl => exact (h.start_covered s hs).resolve_right (Finset.notMem_empty s)
  | tail _ hstep ih =>
      obtain ⟨v, hv, hb⟩ := hstep
      obtain ⟨w, hw, hrefs⟩ := h.refs_covered _ ih
      obtain rfl := Option.some.inj (hv.symm.trans hw)
      exact (hrefs _ hb).resolve_right (Finset.notMem_empty _)

end Closing

end Lib
