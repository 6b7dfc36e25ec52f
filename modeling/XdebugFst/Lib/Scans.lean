import Mathlib.Tactic
import Mathlib.Data.List.Basic

/-!
# Scans of a sequence

What a scan keeps of the values that it has seen: the best one, how often it has seen it, and what
came with it the first time; and the pairs of adjacent values. Values are compared with a relation
`better`; for a smallest value it is `<` and for a largest one `>`. `IsExtreme.update` and
`adjacent_concat` are one step of the scan.
-/

namespace Lib

variable {α β : Type}

/-- A value with the number of its occurrences and what the first of them came with. -/
structure Extreme (α β : Type) where
  value : α
  count : ℕ
  first : β
  deriving DecidableEq, Repr

/-- The extreme after one more value. -/
def Extreme.update (better : α → α → Prop) [DecidableRel better] [DecidableEq α] (e : Extreme α β)
    (a : α) (b : β) : Extreme α β :=
  if better a e.value then ⟨a, 1, b⟩
  else if a = e.value then { e with count := e.count + 1 }
  else e

/-- The extreme of a list: none of its values is better, the count is exact, and `first` came with
the first occurrence. -/
structure IsExtreme (better : α → α → Prop) [DecidableEq α] (l : List (α × β)) (e : Extreme α β) :
    Prop where
  first : l.find? (fun x => x.1 = e.value) = some (e.value, e.first)
  best : ∀ x ∈ l, ¬ better x.1 e.value
  count : e.count = l.countP fun x => x.1 = e.value

section Scan

variable {better : α → α → Prop} [DecidableEq α] {l : List (α × β)}
  {e : Extreme α β} {a : α} {b : β}

lemma isExtreme_singleton [Std.Irrefl better] : IsExtreme better [(a, b)] ⟨a, 1, b⟩ :=
  ⟨by simp, by simpa using Std.Irrefl.irrefl a, by simp⟩

/-- A better value is seen for the first time. -/
lemma IsExtreme.replace [IsTrans α better] [Std.Irrefl better] (h : IsExtreme better l e)
    (hbetter : better a e.value) : IsExtreme better (l ++ [(a, b)]) ⟨a, 1, b⟩ := by
  have hnew : ∀ x ∈ l, x.1 ≠ a := by
    rintro x hx rfl
    exact h.best x hx hbetter
  refine ⟨?_, ?_, ?_⟩
  · rw [List.find?_append, List.find?_eq_none.2 fun x hx => by simpa using hnew x hx]
    simp
  · intro x hx
    rcases List.mem_append.1 hx with hx | hx
    · exact fun hxa => h.best x hx (IsTrans.trans _ _ _ hxa hbetter)
    · rw [List.mem_singleton.1 hx]
      exact Std.Irrefl.irrefl a
  · rw [List.countP_append, List.countP_eq_zero.2 fun x hx => by simpa using hnew x hx]
    simp

/-- A value that is no better is counted if it is the same. -/
lemma IsExtreme.keep (h : IsExtreme better l e) (hbetter : ¬ better a e.value) :
    IsExtreme better (l ++ [(a, b)])
      { e with count := e.count + if a = e.value then 1 else 0 } := by
  refine ⟨?_, ?_, ?_⟩
  · rw [List.find?_append, h.first]
    rfl
  · intro x hx
    rcases List.mem_append.1 hx with hx | hx
    · exact h.best x hx
    · rw [List.mem_singleton.1 hx]
      exact hbetter
  · rw [List.countP_append, h.count]
    simp [List.countP_cons]

lemma IsExtreme.update [DecidableRel better] [IsTrans α better] [Std.Irrefl better]
    (h : IsExtreme better l e) : IsExtreme better (l ++ [(a, b)]) (e.update better a b) := by
  rw [Extreme.update]
  split_ifs with hbetter hsame
  · exact h.replace hbetter
  · simpa [hsame] using h.keep (a := a) (b := b) hbetter
  · simpa [hsame] using h.keep (a := a) (b := b) hbetter

end Scan

/-- The pairs of adjacent values. -/
def adjacent (l : List α) : List (α × α) := l.zip l.tail

lemma adjacent_map (f : α → β) (l : List α) :
    adjacent (l.map f) = (adjacent l).map (Prod.map f f) := by
  rw [adjacent, adjacent, ← List.map_tail, List.zip_map]

/-- A further value makes a pair with the last one. -/
lemma adjacent_concat (l : List α) (a : α) :
    adjacent (l ++ [a]) = adjacent l ++ (l.getLast?.map fun last => (last, a)).toList := by
  induction l with
  | nil => rfl
  | cons b rest ih =>
      cases rest with
      | nil => rfl
      | cons c rest =>
          rw [List.getLast?_cons_cons]
          exact congrArg (List.cons (b, c)) ih

end Lib
