import Mathlib
import XdebugFst.Lib.Access

/-!
# Grouped tables

A list of groups written as one table: the elements of all groups one after the other, each
with the number of its group, and the position at which each group starts. The starts cut the
table into the groups again.
-/

namespace Lib

variable {α : Type*} (groups : List (List α))

/-- The elements of all groups, each with the number of its group, counted from `n` on. -/
def groupedFrom : ℕ → List (List α) → List (ℕ × α)
  | _, [] => []
  | n, group :: rest => group.map (n, ·) ++ groupedFrom (n + 1) rest

/-- The elements of all groups, each with the number of its group. -/
def grouped : List (ℕ × α) := groupedFrom 0 groups

/-- The number of elements before a group. -/
def groupStart (k : ℕ) : ℕ := ((groups.take k).map List.length).sum

@[simp]
lemma groupStart_zero : groupStart groups 0 = 0 := rfl

variable {groups}

lemma groupStart_succ {k : ℕ} (hk : k < groups.length) :
    groupStart groups (k + 1) = groupStart groups k + (groups.get ⟨k, hk⟩).length := by
  rw [groupStart, List.take_succ_eq_append_getElem hk, List.map_append, List.sum_append]
  rfl

lemma getElem?_groupedFrom (n : ℕ) {k i : ℕ} (hk : k < groups.length)
    (hi : i < (groups.get ⟨k, hk⟩).length) :
    (groupedFrom n groups)[groupStart groups k + i]? =
      some (n + k, (groups.get ⟨k, hk⟩).get ⟨i, hi⟩) := by
  induction groups generalizing n k with
  | nil => exact absurd hk (Nat.not_lt_zero k)
  | cons group rest ih =>
      rw [groupedFrom]
      cases k with
      | zero =>
          have hi' : i < group.length := hi
          rw [groupStart_zero, Nat.zero_add, List.getElem?_append_left (by simpa using hi'),
            List.getElem?_map, List.getElem?_eq_getElem hi']
          rfl
      | succ k =>
          have hstart : groupStart (group :: rest) (k + 1) =
              group.length + groupStart rest k := by
            rw [groupStart, List.take_succ_cons, List.map_cons, List.sum_cons]
            rfl
          rw [hstart, Nat.add_assoc, List.getElem?_append_right (by simp), List.length_map,
            Nat.add_sub_cancel_left, ih (n + 1) (Nat.lt_of_succ_lt_succ hk) hi]
          rw [Nat.add_right_comm, Nat.add_assoc]
          rfl

lemma groupStart_append {groups' : List (List α)} {k : ℕ} (hk : k ≤ groups.length) :
    groupStart (groups ++ groups') k = groupStart groups k := by
  rw [groupStart, List.take_append_of_le_length hk]
  rfl

lemma groupedFrom_concat (n : ℕ) (group : List α) :
    groupedFrom n (groups ++ [group]) =
      groupedFrom n groups ++ group.map (n + groups.length, ·) := by
  induction groups generalizing n with
  | nil => simp [groupedFrom]
  | cons first rest ih =>
      rw [List.cons_append, groupedFrom, ih, groupedFrom, List.append_assoc, List.length_cons,
        Nat.add_right_comm, Nat.add_assoc]

lemma grouped_concat (groups : List (List α)) (group : List α) :
    grouped (groups ++ [group]) = grouped groups ++ group.map (groups.length, ·) := by
  rw [grouped, groupedFrom_concat, Nat.zero_add]
  rfl

/-- An element of a group, found in the table. -/
lemma getElem?_grouped {k i : ℕ} (hk : k < groups.length)
    (hi : i < (groups.get ⟨k, hk⟩).length) :
    (grouped groups)[groupStart groups k + i]? =
      some (k, (groups.get ⟨k, hk⟩).get ⟨i, hi⟩) := by
  rw [grouped, getElem?_groupedFrom 0 hk hi, Nat.zero_add]

lemma length_groupedFrom (n : ℕ) :
    (groupedFrom n groups).length = groupStart groups groups.length := by
  induction groups generalizing n with
  | nil => rfl
  | cons group rest ih =>
      rw [groupedFrom, List.length_append, List.length_map, ih, groupStart, groupStart,
        List.take_length, List.take_length, List.map_cons, List.sum_cons]

lemma length_grouped : (grouped groups).length = groupStart groups groups.length :=
  length_groupedFrom 0

lemma isCut_groupStart (groups : List (List α)) :
    IsCut (groupStart groups) groups.length (grouped groups).length where
  first := rfl
  last := length_grouped.symm
  step k hk := by
    rw [groupStart_succ hk]
    exact Nat.le_add_right _ _

/-- The element at a position of the piece `k` is one of the group `k`. -/
lemma exists_of_mem_piece {j k : ℕ} (hk : k < groups.length) (hstart : groupStart groups k ≤ j)
    (hstop : j < groupStart groups (k + 1)) :
    ∃ x ∈ groups.get ⟨k, hk⟩, (grouped groups)[j]? = some (k, x) := by
  obtain ⟨i, rfl⟩ := Nat.exists_eq_add_of_le hstart
  rw [groupStart_succ hk] at hstop
  have hi : i < (groups.get ⟨k, hk⟩).length := by omega
  exact ⟨_, List.get_mem _ ⟨i, hi⟩, getElem?_grouped hk hi⟩

/-- Every element of the table is one of the group whose number it has. -/
lemma mem_of_getElem?_grouped {j : ℕ} {entry : ℕ × α} (h : (grouped groups)[j]? = some entry) :
    ∃ hk : entry.1 < groups.length, entry.2 ∈ groups.get ⟨entry.1, hk⟩ := by
  obtain ⟨hj, -⟩ := List.getElem?_eq_some_iff.1 h
  obtain ⟨k, hk, hstart, hstop⟩ := (isCut_groupStart groups).exists_mem hj
  obtain ⟨x, hx, hget⟩ := exists_of_mem_piece hk hstart hstop
  rw [h] at hget
  obtain rfl := Option.some.inj hget
  exact ⟨hk, hx⟩

end Lib
