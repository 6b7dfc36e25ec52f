import Mathlib.Data.List.Induction
import Mathlib.Data.List.Perm.Basic
import Mathlib.Tactic.Common

/-!
# Orders that differ in ties only

A loop over a list that was sorted by a key sees one of several orders when keys repeat.
`foldl_eq_of_sorted_perm` says when that does not matter: two neighbours with the same key
can change places wherever they occur.

The second half is about a counter that goes up at an opening and down at a closing, and
stays at zero when there is nothing to close.  It is positive behind a list exactly
if some end of the list has more openings than closings.
-/

namespace Lib

section Sorted

variable {α σ : Type} (key : α → ℕ) (step : σ → α → σ)

/-- The keys do not go down. -/
def SortedBy (l : List α) : Prop := l.Pairwise fun a b => key a ≤ key b

variable {key step}

lemma SortedBy.replace_end {done l l' : List α} (h : SortedBy key (done ++ l))
    (hl : SortedBy key l') (hmem : ∀ x ∈ l', x ∈ l) : SortedBy key (done ++ l') := by
  obtain ⟨hdone, -, hcross⟩ := List.pairwise_append.1 h
  exact List.pairwise_append.2 ⟨hdone, hl, fun x hx y hy => hcross x hx y (hmem y hy)⟩

/-- A sorted list falls into the elements below a bound and the others. -/
lemma SortedBy.exists_split {l : List α} (h : SortedBy key l) (s : ℕ) :
    ∃ l₁ l₂, l = l₁ ++ l₂ ∧ (∀ x ∈ l₁, key x < s) ∧ ∀ x ∈ l₂, s ≤ key x := by
  induction l with
  | nil => exact ⟨[], [], by simp⟩
  | cons a l ih =>
      obtain ⟨ha, hl⟩ := List.pairwise_cons.1 h
      by_cases has : key a < s
      · obtain ⟨l₁, l₂, rfl, h₁, h₂⟩ := ih hl
        exact ⟨a :: l₁, l₂, rfl, by simpa [has] using h₁, h₂⟩
      · refine ⟨[], a :: l, rfl, by simp, fun x hx => ?_⟩
        rcases List.mem_cons.1 hx with rfl | hx
        · omega
        · have := ha x hx
          omega

/-- An element with the key of those before it can stand first. -/
lemma SortedBy.move_first {u v : List α} {a : α} (h : SortedBy key (u ++ a :: v))
    (hkey : ∀ x ∈ u, key x = key a) : SortedBy key (a :: (u ++ v)) := by
  obtain ⟨hu, hav, hcross⟩ := List.pairwise_append.1 h
  obtain ⟨ha, hv⟩ := List.pairwise_cons.1 hav
  refine List.pairwise_cons.2 ⟨fun x hx => ?_, List.pairwise_append.2 ⟨hu, hv, fun x hx y hy =>
    hcross x hx y (List.mem_cons_of_mem _ hy)⟩⟩
  rcases List.mem_append.1 hx with hx | hx
  · exact Nat.le_of_eq (hkey x hx).symm
  · exact ha x hx

/-- An element behind others of its key can be taken first. -/
lemma foldl_take_first {init : σ} {all : List α}
    (hswap : ∀ done a b rest, (done ++ a :: b :: rest).Perm all →
      SortedBy key (done ++ a :: b :: rest) → key a = key b →
        (done ++ [a, b]).foldl step init = (done ++ [b, a]).foldl step init)
    (u v : List α) {a : α} (done : List α) (hkey : ∀ x ∈ u, key x = key a)
    (hperm : (done ++ (u ++ a :: v)).Perm all) (hsorted : SortedBy key (done ++ (u ++ a :: v))) :
    (done ++ (u ++ a :: v)).foldl step init = (done ++ a :: (u ++ v)).foldl step init := by
  induction u generalizing done with
  | nil => rfl
  | cons x u ih =>
      have hx : key x = key a := hkey x (by simp)
      have hshift : done ++ (x :: u ++ a :: v) = (done ++ [x]) ++ (u ++ a :: v) := by simp
      have hmove : (done ++ x :: a :: (u ++ v)).Perm (done ++ (x :: u ++ a :: v)) := by
        refine (List.Perm.cons x ?_).append_left done
        exact List.perm_middle.symm
      have hsorted' : SortedBy key (done ++ x :: a :: (u ++ v)) := by
        have htail : SortedBy key (x :: (u ++ a :: v)) := (List.pairwise_append.1 hsorted).2.1
        obtain ⟨hfirst, hrest⟩ := List.pairwise_cons.1 htail
        have hmem : ∀ y ∈ a :: (u ++ v), y ∈ u ++ a :: v := fun y hy =>
          List.perm_middle.mem_iff.2 hy
        refine hsorted.replace_end (List.pairwise_cons.2 ⟨fun y hy => hfirst y (hmem y hy), ?_⟩) ?_
        · exact SortedBy.move_first hrest fun y hy => hkey y (List.mem_cons_of_mem _ hy)
        · intro y hy
          rcases List.mem_cons.1 hy with rfl | hy
          · exact List.mem_cons_self
          · exact List.mem_cons_of_mem _ (hmem y hy)
      rw [hshift, ih (done ++ [x]) (fun y hy => hkey y (List.mem_cons_of_mem _ hy))
        (by rw [← hshift]; exact hperm) (by rw [← hshift]; exact hsorted)]
      have h := hswap done x a (u ++ v) (hmove.trans hperm) hsorted' hx
      calc (done ++ [x] ++ a :: (u ++ v)).foldl step init
          = (u ++ v).foldl step ((done ++ [x, a]).foldl step init) := by
            simp [List.foldl_append]
        _ = (u ++ v).foldl step ((done ++ [a, x]).foldl step init) := by rw [h]
        _ = (done ++ a :: (x :: u ++ v)).foldl step init := by simp [List.foldl_append]

/-- When neighbours of equal key can change places, the loop gives the same result for
every sorted order of the elements. -/
lemma foldl_eq_of_sorted_perm (key : α → ℕ) {init : σ} {all : List α}
    (hswap : ∀ done a b rest, (done ++ a :: b :: rest).Perm all →
      SortedBy key (done ++ a :: b :: rest) → key a = key b →
        (done ++ [a, b]).foldl step init = (done ++ [b, a]).foldl step init)
    (l₁ l₂ done : List α) (hall : (done ++ l₁).Perm all) (hperm : l₁.Perm l₂)
    (h₁ : SortedBy key (done ++ l₁)) (h₂ : SortedBy key (done ++ l₂)) :
    (done ++ l₁).foldl step init = (done ++ l₂).foldl step init := by
  induction l₁ generalizing l₂ done with
  | nil =>
      obtain rfl := hperm.nil_eq
      rfl
  | cons a l₁ ih =>
      obtain ⟨u, v, rfl⟩ := List.append_of_mem (hperm.mem_iff.1 List.mem_cons_self)
      have hrest : l₁.Perm (u ++ v) := (hperm.trans List.perm_middle).cons_inv
      -- what stands before `a` in the second order stands behind it in the first
      have hkey : ∀ x ∈ u, key x = key a := by
        intro x hx
        have hle : key x ≤ key a :=
          (List.pairwise_append.1 (List.pairwise_append.1 h₂).2.1).2.2 x hx a (by simp)
        have hge : key a ≤ key x :=
          (List.pairwise_cons.1 (List.pairwise_append.1 h₁).2.1).1 x
            (hrest.mem_iff.2 (List.mem_append_left _ hx))
        omega
      have hall₂ : (done ++ (u ++ a :: v)).Perm all := (hperm.symm.append_left done).trans hall
      have hmoved : SortedBy key (a :: (u ++ v)) :=
        SortedBy.move_first (List.pairwise_append.1 h₂).2.1 hkey
      have h₂' : SortedBy key (done ++ a :: (u ++ v)) :=
        SortedBy.replace_end h₂ hmoved fun x hx => List.perm_middle.mem_iff.2 hx
      have hshift : ∀ l, done ++ a :: l = (done ++ [a]) ++ l := by simp
      rw [foldl_take_first hswap u v done hkey hall₂ h₂, hshift l₁, hshift (u ++ v)]
      rw [hshift] at hall h₁ h₂'
      exact ih (u ++ v) (done ++ [a]) hall hrest h₁ h₂'

end Sorted

/-! ### Openings and closings -/

section Depth

variable {α : Type} (opens closes : α → Bool)

/-- The number of open things after one more event. -/
def depthStep (n : ℕ) (x : α) : ℕ := if opens x then n + 1 else if closes x then n - 1 else n

/-- The number of open things after the events. -/
def depth (l : List α) : ℕ := l.foldl (depthStep opens closes) 0

variable {opens closes}

@[simp] lemma depth_nil : depth opens closes [] = 0 := rfl

lemma depth_snoc (l : List α) (x : α) :
    depth opens closes (l ++ [x]) = depthStep opens closes (depth opens closes l) x := by
  simp [depth]

/-- At least what the end of the list leaves open is open. -/
lemma countP_opens_le (l₁ l₂ : List α) :
    l₂.countP opens ≤ l₂.countP closes + depth opens closes (l₁ ++ l₂) := by
  induction l₂ using List.reverseRecOn with
  | nil => simp
  | append_singleton l₂ x ih =>
      rw [← List.append_assoc, depth_snoc, depthStep]
      simp only [List.countP_append, List.countP_singleton]
      split_ifs <;> omega

/-- What is open was opened behind the last moment with nothing open. -/
lemma exists_depth_eq (hdisj : ∀ x, opens x → ¬ closes x) (l : List α) :
    ∃ l₁ l₂, l = l₁ ++ l₂ ∧ (∀ x ∈ l₂.head?, opens x) ∧
      l₂.countP opens = l₂.countP closes + depth opens closes l := by
  induction l using List.reverseRecOn with
  | nil => exact ⟨[], [], by simp⟩
  | append_singleton l x ih =>
      obtain ⟨l₁, l₂, rfl, hhead, hcount⟩ := ih
      rw [depth_snoc, depthStep]
      by_cases hzero : depth opens closes (l₁ ++ l₂) = 0
      · -- a new stretch begins here, if anything does
        by_cases hx : opens x
        · exact ⟨l₁ ++ l₂, [x], rfl, by simpa using hx, by simp [hx, hzero, hdisj x hx]⟩
        · exact ⟨l₁ ++ l₂ ++ [x], [], by simp, by simp, by simp [hx, hzero]⟩
      · have hne : l₂ ≠ [] := by
          rintro rfl
          simp only [List.countP_nil, Nat.zero_add] at hcount
          exact hzero hcount.symm
        refine ⟨l₁, l₂ ++ [x], by simp, ?_, ?_⟩
        · rw [List.head?_append_of_ne_nil _ hne]
          exact hhead
        · have hx := hdisj x
          simp only [List.countP_append, List.countP_singleton, hcount]
          split_ifs <;> first | omega | simp_all

end Depth

end Lib
