import Mathlib.Tactic
import Mathlib.Data.List.Basic

/-!
# Sequences without their repeats

A sequence of values, some of which may be missing, is reported by the values that do not
repeat the one before. Two sequences can have the same report although one of them has a value
where the other has none: `firstAt_agree_iff` says when, for a sequence and another one that has
a value wherever the first has one.

A report with the place of each value is a list; it determines the sequence of its values.
-/

namespace Lib

variable {β : Type} [DecidableEq β]

/-- The value at `i`, unless it repeats the value before. -/
def firstAt (x : ℕ → Option β) (i : ℕ) : Option β :=
  if 0 < i ∧ x (i - 1) = x i then none else x i

lemma firstAt_of_eq_none {x : ℕ → Option β} {i : ℕ} (h : x i = none) : firstAt x i = none := by
  rw [firstAt, h]
  exact ite_self none

lemma firstAt_eq_none {x : ℕ → Option β} {i : ℕ} {b : β} (h : x i = some b) :
    firstAt x i = none ↔ 0 < i ∧ x (i - 1) = some b := by
  rw [firstAt, h]
  split_ifs with hrepeat
  · simpa using hrepeat
  · simpa using hrepeat

lemma firstAt_eq_some {x : ℕ → Option β} {i : ℕ} {b : β} (h : firstAt x i = some b) :
    x i = some b := by
  rw [firstAt] at h
  split_ifs at h
  exact h

/-- If the second sequence has a value wherever the first has one, then the two reports agree
exactly if it has the same value there, and every other value of it repeats the one before and
is not repeated by the next value of the first sequence. -/
theorem firstAt_agree_iff {x y : ℕ → Option β} (hkeeps : ∀ i, (x i).isSome → (y i).isSome) :
    (∀ i, firstAt x i = firstAt y i) ↔
      (∀ i b, x i = some b → y i = some b) ∧
      ∀ i b, x i = none → y i = some b →
        (0 < i ∧ y (i - 1) = some b) ∧ x (i + 1) ≠ some b := by
  constructor
  · intro hagree
    have hsame : ∀ i b, x i = some b → y i = some b := by
      intro i
      induction i using Nat.strong_induction_on with
      | _ i ih =>
      intro b hx
      obtain ⟨c, hy⟩ := Option.isSome_iff_exists.1 (hkeeps i (by rw [hx]; rfl))
      cases hfirst : firstAt x i with
      | some d =>
          obtain rfl : b = d := Option.some.inj (hx.symm.trans (firstAt_eq_some hfirst))
          exact firstAt_eq_some ((hagree i).symm.trans hfirst)
      | none =>
          -- the value repeats one that the second sequence has too
          obtain ⟨hpos, hprev⟩ := (firstAt_eq_none hx).1 hfirst
          have hprev' := ih (i - 1) (by omega) b hprev
          obtain ⟨-, hrepeat⟩ := (firstAt_eq_none hy).1 ((hagree i).symm.trans hfirst)
          rw [hy, ← hprev', hrepeat]
    refine ⟨hsame, ?_⟩
    intro i b hx hy
    have hnone : firstAt y i = none := (hagree i).symm.trans (firstAt_of_eq_none hx)
    refine ⟨(firstAt_eq_none hy).1 hnone, ?_⟩
    intro hnext
    have hrepeat : firstAt y (i + 1) = none :=
      (firstAt_eq_none (hsame (i + 1) b hnext)).2 ⟨Nat.succ_pos i, hy⟩
    rw [← hagree (i + 1), firstAt_eq_none hnext, Nat.add_sub_cancel, hx] at hrepeat
    exact absurd hrepeat.2 (by simp)
  · rintro ⟨hsame, hother⟩ i
    cases hx : x i with
    | none =>
        rw [firstAt_of_eq_none hx]
        cases hy : y i with
        | none => rw [firstAt_of_eq_none hy]
        | some b => exact ((firstAt_eq_none hy).2 (hother i b hx hy).1).symm
    | some b =>
        have hy := hsame i b hx
        have hprev : 0 < i ∧ x (i - 1) = some b ↔ 0 < i ∧ y (i - 1) = some b := by
          refine and_congr_right fun hpos => ?_
          constructor
          · exact hsame (i - 1) b
          · intro hy'
            cases hx' : x (i - 1) with
            | some c => rw [← hsame (i - 1) c hx', hy']
            | none =>
                have hnext := (hother (i - 1) b hx' hy').2
                rw [Nat.sub_add_cancel hpos] at hnext
                exact absurd hx hnext
        rw [firstAt, firstAt, hx, hy]
        simp only [hprev]

/-! ### Reports with places -/

/-- A report with the places of its values determines the values. -/
lemma filterMap_key_inj {ι κ α : Type} {f g : ι → Option α} {key : ι → κ} {l : List ι}
    (hkey : (l.map key).Nodup)
    (h : l.filterMap (fun i => (f i).map (key i, ·)) = l.filterMap fun i => (g i).map (key i, ·)) :
    ∀ i ∈ l, f i = g i := by
  -- a value that one report has at the first place is not in the rest of the other
  have hrest : ∀ {f : ι → Option α} {i : ι} {l : List ι} {a : α}, key i ∉ l.map key →
      (key i, a) ∉ l.filterMap fun i => (f i).map (key i, ·) := by
    intro f i l a hnot hmem
    obtain ⟨j, hj, hpair⟩ := List.mem_filterMap.1 hmem
    obtain ⟨b, -, hb⟩ := Option.map_eq_some_iff.1 hpair
    rw [← (Prod.mk.inj hb).1] at hnot
    exact hnot (List.mem_map_of_mem hj)
  induction l with
  | nil => simp
  | cons i l ih =>
      rw [List.map_cons, List.nodup_cons] at hkey
      rw [List.filterMap_cons, List.filterMap_cons] at h
      cases hf : f i with
      | none =>
          cases hg : g i with
          | none =>
              rw [hf, hg] at h
              exact List.forall_mem_cons.2 ⟨hf.trans hg.symm, ih hkey.2 h⟩
          | some b =>
              rw [hf, hg] at h
              have hmem := (congrArg ((key i, b) ∈ ·) h).mpr List.mem_cons_self
              exact absurd hmem (hrest hkey.1)
      | some a =>
          cases hg : g i with
          | none =>
              rw [hf, hg] at h
              have hmem := (congrArg ((key i, a) ∈ ·) h).mp List.mem_cons_self
              exact absurd hmem (hrest hkey.1)
          | some b =>
              rw [hf, hg] at h
              obtain ⟨hhead, htail⟩ := List.cons.inj h
              obtain rfl := (Prod.mk.inj hhead).2
              exact List.forall_mem_cons.2 ⟨hf.trans hg.symm, ih hkey.2 htail⟩

end Lib
