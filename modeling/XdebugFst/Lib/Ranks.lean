import Mathlib.Data.List.Sort
import Mathlib.Order.Bounds.Basic
import Mathlib.Tactic

/-!
# Ranks in sorted lists

The element at a place of a sorted list is the least value that enough elements do not exceed
(`isLeast_getElem`). The nearest rank of a percentage is such a place, and what stands there is the
least value that at least that percentage of the elements do not exceed.

The first of the greatest elements is what a loop finds that keeps the greatest element so far, and
it is the head of the list after a stable sort.
-/

namespace Lib

section Sorted

variable {α : Type} [LinearOrder α] {l : List α}

/-- An element at a place is at most `v` when more elements than stand in front of it are. -/
lemma lt_countP_le_iff (h : l.Pairwise (· ≤ ·)) {i : ℕ} (hi : i < l.length) (v : α) :
    i < l.countP (· ≤ v) ↔ l[i] ≤ v := by
  have hsplit : l.countP (· ≤ v) = (l.take i).countP (· ≤ v) + (l.drop i).countP (· ≤ v) := by
    rw [← List.countP_append, List.take_append_drop]
  have hdrop := List.drop_eq_getElem_cons hi
  constructor
  · intro hlt
    by_contra hgt
    rw [not_le] at hgt
    have hzero : (l.drop i).countP (· ≤ v) = 0 := by
      rw [List.countP_eq_zero]
      intro x hx
      have hxi : l[i] ≤ x := by
        rw [hdrop] at hx
        rcases List.mem_cons.1 hx with rfl | hx
        · exact le_rfl
        · have hsorted := h.drop (i := i)
          rw [hdrop] at hsorted
          exact (List.pairwise_cons.1 hsorted).1 x hx
      simpa using hgt.trans_le hxi
    have hle := List.countP_le_length (p := (· ≤ v)) (l := l.take i)
    rw [List.length_take] at hle
    omega
  · intro hle
    have hall : (l.take i).countP (· ≤ v) = (l.take i).length := by
      rw [List.countP_eq_length]
      intro x hx
      obtain ⟨j, hj, rfl⟩ := List.mem_take_iff_getElem.1 hx
      have hji : j < i := lt_of_lt_of_le hj (min_le_left _ _)
      have hjl := List.pairwise_iff_getElem.1 h j i (by omega) hi hji
      simpa using hjl.trans hle
    rw [hsplit, hall, List.length_take, hdrop, List.countP_cons]
    simp [hle]
    omega

theorem isLeast_getElem (h : l.Pairwise (· ≤ ·)) {i : ℕ} (hi : i < l.length) :
    IsLeast {v | i < l.countP (· ≤ v)} l[i] :=
  ⟨(lt_countP_le_iff h hi _).2 le_rfl, fun v hv => (lt_countP_le_iff h hi v).1 hv⟩

end Sorted

/-- The place of the nearest rank of `p` percent among `n` elements. -/
def nearestRank (p n : ℕ) : ℕ := min (n - 1) ((n * p + 99) / 100 - 1)

lemma nearestRank_lt {p n : ℕ} (hn : 0 < n) : nearestRank p n < n := by
  rw [nearestRank]
  omega

/-- So many elements are that percentage. -/
lemma nearestRank_lt_iff {p n : ℕ} (hn : 0 < n) (hp : 0 < p) (hp' : p ≤ 100) (c : ℕ) :
    nearestRank p n < c ↔ p * n ≤ 100 * c := by
  have hpos : 0 < n * p := Nat.mul_pos hn hp
  have hle : n * p ≤ n * 100 := Nat.mul_le_mul_left n hp'
  rw [nearestRank, Nat.mul_comm p n]
  omega

/-- The value at the nearest rank is the least one that `p` percent of the elements do not
exceed. -/
theorem isLeast_getD_nearestRank {l : List ℕ} (h : l.Pairwise (· ≤ ·)) (hl : l ≠ []) {p : ℕ}
    (hp : 0 < p) (hp' : p ≤ 100) :
    IsLeast {v | p * l.length ≤ 100 * l.countP (· ≤ v)} (l.getD (nearestRank p l.length) 0) := by
  have hpos : 0 < l.length := List.length_pos_iff.2 hl
  have hleast := isLeast_getElem h (nearestRank_lt (p := p) hpos)
  simp only [nearestRank_lt_iff hpos hp hp'] at hleast
  rwa [List.getD_eq_getElem?_getD, List.getElem?_eq_getElem (nearestRank_lt hpos),
    Option.getD_some]

/-- The elements with a property that is lost for good along the list stand in front. -/
lemma filter_isPrefix {α : Type} {p : α → Bool} {l : List α}
    (h : l.Pairwise fun a b => p b = true → p a = true) : l.filter p <+: l := by
  induction l with
  | nil => exact List.prefix_rfl
  | cons a l ih =>
    obtain ⟨ha, hl⟩ := List.pairwise_cons.1 h
    by_cases hpa : p a = true
    · rw [List.filter_cons_of_pos hpa]
      exact List.cons_prefix_cons.2 ⟨rfl, ih hl⟩
    · have hnone : (a :: l).filter p = [] := by
        rw [List.filter_eq_nil_iff]
        intro b hb
        rcases List.mem_cons.1 hb with rfl | hb
        · exact hpa
        · exact mt (ha b hb) hpa
      rw [hnone]
      exact List.nil_prefix

/-! ### The first of the greatest elements -/

section FirstGreatest

variable {α β : Type} [LinearOrder β] (key : α → β)

/-- The first element of a list with the greatest key. -/
def FirstGreatest (l : List α) (x : α) : Prop :=
  ∃ before after, l = before ++ x :: after ∧ (∀ y ∈ before, key y < key x) ∧
    ∀ y ∈ after, key y ≤ key x

/-- The greater one of what was found so far and the next element. -/
def greater (found : Option α) (next : α) : Option α :=
  match found with
  | none => some next
  | some x => if key x < key next then some next else some x

variable {key} {l : List α} {x : α}

lemma FirstGreatest.unique {x' : α} (h : FirstGreatest key l x) (h' : FirstGreatest key l x') :
    x = x' := by
  obtain ⟨before, after, rfl, hbefore, hafter⟩ := h
  obtain ⟨before', after', heq, hbefore', hafter'⟩ := h'
  rcases List.append_eq_append_iff.1 heq with ⟨mid, hmid, htail⟩ | ⟨mid, hmid, htail⟩
  · cases mid with
    | nil => exact (List.cons.inj htail).1
    | cons y mid =>
      obtain ⟨rfl, rfl⟩ := List.cons.inj htail
      exact absurd (hafter x' (by simp)) (not_le.2 (hbefore' x (by simp [hmid])))
  · cases mid with
    | nil => exact (List.cons.inj htail).1.symm
    | cons y mid =>
      obtain ⟨rfl, rfl⟩ := List.cons.inj htail
      exact absurd (hafter' x (by simp)) (not_le.2 (hbefore x' (by simp [hmid])))

/-- It can be looked for in a list of values. -/
lemma FirstGreatest.of_map {γ : Type} {f : γ → α} {m : List γ} (h : FirstGreatest key (m.map f) x) :
    ∃ y, x = f y ∧ FirstGreatest (fun z => key (f z)) m y := by
  obtain ⟨before, after, heq, hbefore, hafter⟩ := h
  obtain ⟨before', tail, rfl, rfl, htail⟩ := List.map_eq_append_iff.1 heq
  obtain ⟨y, after', rfl, rfl, rfl⟩ := List.map_eq_cons_iff.1 htail
  exact ⟨y, rfl, before', after', rfl, fun z hz => hbefore _ (List.mem_map_of_mem hz),
    fun z hz => hafter _ (List.mem_map_of_mem hz)⟩

/-- The loop finds it. -/
lemma exists_foldl_greater (first : α) (l : List α) :
    ∃ x, (first :: l).foldl (greater key) none = some x ∧ FirstGreatest key (first :: l) x := by
  induction l using List.reverseRecOn with
  | nil => exact ⟨first, rfl, [], [], rfl, by simp, by simp⟩
  | append_singleton l next ih =>
    obtain ⟨x, hfold, before, after, hsplit, hbefore, hafter⟩ := ih
    rw [← List.cons_append, List.foldl_append, hfold]
    by_cases hlt : key x < key next
    · refine ⟨next, by simp [greater, hlt], first :: l, [], rfl, fun y hy => ?_, by simp⟩
      rw [hsplit, List.mem_append, List.mem_cons] at hy
      rcases hy with hy | rfl | hy
      · exact (hbefore y hy).trans hlt
      · exact hlt
      · exact (hafter y hy).trans_lt hlt
    · refine ⟨x, by simp [greater, hlt], before, after ++ [next], by simp [hsplit], hbefore,
        fun y hy => ?_⟩
      rcases List.mem_append.1 hy with hy | hy
      · exact hafter y hy
      · rw [List.mem_singleton.1 hy]
        exact not_lt.1 hlt

/-- It comes first after a sort that puts an element in front of later ones with no greater key. -/
lemma exists_insertionSort_cons {r : α → α → Prop} [DecidableRel r] {first : α} {l : List α}
    (h : (first :: l).Pairwise fun a b => r a b ↔ key b ≤ key a) :
    ∃ x rest, (first :: l).insertionSort r = x :: rest ∧ FirstGreatest key (first :: l) x := by
  induction l generalizing first with
  | nil => exact ⟨first, [], rfl, [], [], rfl, by simp, by simp⟩
  | cons next l ih =>
    obtain ⟨hfirst, hl⟩ := List.pairwise_cons.1 h
    obtain ⟨x, rest, hsort, before, after, hsplit, hbefore, hafter⟩ := ih hl
    have hx : x ∈ next :: l := by
      rw [hsplit]
      simp
    rw [List.insertionSort_cons, hsort, List.orderedInsert]
    by_cases hle : key x ≤ key first
    · rw [if_pos ((hfirst x hx).2 hle)]
      refine ⟨first, x :: rest, rfl, [], next :: l, rfl, by simp, fun y hy => ?_⟩
      rw [hsplit, List.mem_append, List.mem_cons] at hy
      rcases hy with hy | rfl | hy
      · exact (hbefore y hy).le.trans hle
      · exact hle
      · exact (hafter y hy).trans hle
    · rw [if_neg (mt (hfirst x hx).1 hle)]
      refine ⟨x, _, rfl, first :: before, after, by rw [hsplit]; rfl, fun y hy => ?_, hafter⟩
      rcases List.mem_cons.1 hy with rfl | hy
      · exact not_le.1 hle
      · exact hbefore y hy

end FirstGreatest

end Lib
