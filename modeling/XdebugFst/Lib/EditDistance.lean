import Mathlib.Order.ConditionallyCompleteLattice.Basic
import Mathlib.Order.Nat
import Mathlib.Tactic

/-!
# The edit distance

One edit inserts, removes or replaces one letter anywhere in a word (`Edit`), and `Edits n` is a
chain of `n` of them. The edit distance of two words, `distance`, is the least length of a chain
between them.

A table of the distances of prefixes computes it from the last letters. `Aligned` describes what
such a table optimises: a way to read both words from the left in parallel. Chains and alignments
have the same least length (`isLeast_edits_iff`), and `isLeast_concat` is the step of the table.
-/

namespace Lib

variable {α : Type}

/-- One edit of a word. -/
inductive Edit : List α → List α → Prop
  | insert (pre post : List α) (c : α) : Edit (pre ++ post) (pre ++ c :: post)
  | remove (pre post : List α) (c : α) : Edit (pre ++ c :: post) (pre ++ post)
  | replace (pre post : List α) (c d : α) : Edit (pre ++ c :: post) (pre ++ d :: post)

/-- A chain of `n` edits. -/
inductive Edits : ℕ → List α → List α → Prop
  | refl (xs : List α) : Edits 0 xs xs
  | tail {n : ℕ} {xs ys zs : List α} (h : Edits n xs ys) (hstep : Edit ys zs) : Edits (n + 1) xs zs

/-- The edit distance of two words. -/
noncomputable def distance (xs ys : List α) : ℕ := sInf {n | Edits n xs ys}

/-- Two words are read in parallel, with `n` letters that do not correspond. -/
inductive Aligned : ℕ → List α → List α → Prop
  | nil : Aligned 0 [] []
  | keep {n : ℕ} {xs ys : List α} (c : α) (h : Aligned n xs ys) : Aligned n (xs ++ [c]) (ys ++ [c])
  | replace {n : ℕ} {xs ys : List α} (c d : α) (h : Aligned n xs ys) :
      Aligned (n + 1) (xs ++ [c]) (ys ++ [d])
  | remove {n : ℕ} {xs ys : List α} (c : α) (h : Aligned n xs ys) : Aligned (n + 1) (xs ++ [c]) ys
  | insert {n : ℕ} {xs ys : List α} (d : α) (h : Aligned n xs ys) : Aligned (n + 1) xs (ys ++ [d])

variable {n m : ℕ} {xs ys xs' ys' zs : List α} {c d : α}

/-! ### From alignments to chains -/

lemma Edit.append_right (h : Edit xs ys) (zs : List α) : Edit (xs ++ zs) (ys ++ zs) := by
  cases h with
  | insert pre post c => simpa using Edit.insert pre (post ++ zs) c
  | remove pre post c => simpa using Edit.remove pre (post ++ zs) c
  | replace pre post c d => simpa using Edit.replace pre (post ++ zs) c d

lemma Edits.append_right (h : Edits n xs ys) (zs : List α) : Edits n (xs ++ zs) (ys ++ zs) := by
  induction h with
  | refl xs => exact .refl _
  | tail _ hstep ih => exact ih.tail (hstep.append_right zs)

/-- What does not correspond in an alignment is edited. -/
lemma Aligned.edits (h : Aligned n xs ys) : Edits n xs ys := by
  induction h with
  | nil => exact .refl []
  | keep c _ ih => exact ih.append_right [c]
  | replace c d _ ih =>
      rename_i n xs ys _
      exact (ih.append_right [c]).tail (.replace ys [] c d)
  | remove c _ ih =>
      rename_i n xs ys _
      simpa using (ih.append_right [c]).tail (.remove ys [] c)
  | insert d _ ih =>
      rename_i n xs ys _
      have hstep : Edit ys (ys ++ [d]) := by simpa using Edit.insert ys [] d
      exact ih.tail hstep

/-! ### From chains to alignments -/

lemma Aligned.refl (xs : List α) : Aligned 0 xs xs := by
  induction xs using List.reverseRecOn with
  | nil => exact .nil
  | append_singleton xs c ih => exact ih.keep c

lemma Aligned.append (h : Aligned n xs ys) (h' : Aligned m xs' ys') :
    Aligned (n + m) (xs ++ xs') (ys ++ ys') := by
  induction h' with
  | nil => simpa using h
  | keep c _ ih => simpa using ih.keep c
  | replace c d _ ih => simpa [add_assoc] using ih.replace c d
  | remove c _ ih => simpa [add_assoc] using ih.remove c
  | insert d _ ih => simpa [add_assoc] using ih.insert d

/-- An alignment is cut where its second word is cut. -/
lemma Aligned.split {us vs : List α} (h : Aligned n xs ys) (hys : ys = us ++ vs) :
    ∃ n₁ n₂ xs₁ xs₂, n = n₁ + n₂ ∧ xs = xs₁ ++ xs₂ ∧ Aligned n₁ xs₁ us ∧ Aligned n₂ xs₂ vs := by
  rcases List.eq_nil_or_concat' vs with rfl | ⟨vs', e, rfl⟩
  · rw [List.append_nil] at hys
    exact ⟨n, 0, xs, [], rfl, (List.append_nil xs).symm, hys ▸ h, .nil⟩
  induction h generalizing vs' e with
  | nil => simp at hys
  | keep c h ih =>
      rename_i n xs ys
      rw [← List.append_assoc] at hys
      obtain ⟨rfl, rfl⟩ := List.append_inj' hys rfl |>.imp_right List.singleton_inj.1
      rcases List.eq_nil_or_concat' vs' with rfl | ⟨vs'', e', rfl⟩
      · exact ⟨n, 0, xs, [c], rfl, rfl, by simpa using h, .keep c .nil⟩
      · obtain ⟨n₁, n₂, xs₁, xs₂, rfl, rfl, h₁, h₂⟩ := ih vs'' e' rfl
        exact ⟨n₁, n₂, xs₁, xs₂ ++ [c], rfl, by simp, h₁, h₂.keep c⟩
  | replace c d h ih =>
      rename_i n xs ys
      rw [← List.append_assoc] at hys
      obtain ⟨rfl, rfl⟩ := List.append_inj' hys rfl |>.imp_right List.singleton_inj.1
      rcases List.eq_nil_or_concat' vs' with rfl | ⟨vs'', e', rfl⟩
      · exact ⟨n, 1, xs, [c], rfl, rfl, by simpa using h, .replace c d .nil⟩
      · obtain ⟨n₁, n₂, xs₁, xs₂, rfl, rfl, h₁, h₂⟩ := ih vs'' e' rfl
        exact ⟨n₁, n₂ + 1, xs₁, xs₂ ++ [c], rfl, by simp, h₁, h₂.replace c d⟩
  | remove c h ih =>
      obtain ⟨n₁, n₂, xs₁, xs₂, rfl, rfl, h₁, h₂⟩ := ih vs' e hys
      exact ⟨n₁, n₂ + 1, xs₁, xs₂ ++ [c], rfl, by simp, h₁, h₂.remove c⟩
  | insert d h ih =>
      rename_i n xs ys
      rw [← List.append_assoc] at hys
      obtain ⟨rfl, rfl⟩ := List.append_inj' hys rfl |>.imp_right List.singleton_inj.1
      rcases List.eq_nil_or_concat' vs' with rfl | ⟨vs'', e', rfl⟩
      · exact ⟨n, 1, xs, [], rfl, by simp, by simpa using h, .insert d .nil⟩
      · obtain ⟨n₁, n₂, xs₁, xs₂, rfl, rfl, h₁, h₂⟩ := ih vs'' e' rfl
        exact ⟨n₁, n₂ + 1, xs₁, xs₂, rfl, rfl, h₁, h₂.insert d⟩

lemma Aligned.length_le (h : Aligned n xs ys) :
    xs.length ≤ n + ys.length ∧ ys.length ≤ n + xs.length := by
  induction h with
  | nil => simp
  | _ => simp only [List.length_append, List.length_singleton]; omega

lemma aligned_nil_right (xs : List α) : Aligned xs.length xs [] := by
  induction xs using List.reverseRecOn with
  | nil => exact .nil
  | append_singleton xs c ih => simpa using ih.remove c

lemma aligned_nil_left (ys : List α) : Aligned ys.length [] ys := by
  induction ys using List.reverseRecOn with
  | nil => exact .nil
  | append_singleton ys d ih => simpa using ih.insert d

/-- A word is aligned with a letter by replacing its last letter. -/
lemma exists_aligned_singleton (xs : List α) (d : α) :
    ∃ n, n ≤ max 1 xs.length ∧ Aligned n xs [d] := by
  rcases List.eq_nil_or_concat' xs with rfl | ⟨xs', c, rfl⟩
  · exact ⟨1, by simp, aligned_nil_left [d]⟩
  · exact ⟨xs'.length + 1, by simp, (aligned_nil_right xs').replace c d⟩

/-- One edit more is one letter more that does not correspond, at most. -/
lemma Aligned.edit (h : Aligned n xs ys) (hstep : Edit ys zs) :
    ∃ m, m ≤ n + 1 ∧ Aligned m xs zs := by
  cases hstep with
  | insert pre post c =>
      obtain ⟨n₁, n₂, xs₁, xs₂, rfl, rfl, h₁, h₂⟩ := h.split rfl
      exact ⟨n₁ + 1 + n₂, by omega, by simpa using (h₁.insert c).append h₂⟩
  | remove pre post c =>
      obtain ⟨n₁, n₂, xs₁, xs₂, rfl, rfl, h₁, h₂⟩ := h.split rfl
      obtain ⟨n₃, n₄, xs₃, xs₄, rfl, rfl, h₃, h₄⟩ := h₂.split (show c :: post = [c] ++ post from rfl)
      have hlength := h₃.length_le.1
      exact ⟨n₁ + xs₃.length + n₄, by simp at hlength; omega,
        by simpa using (h₁.append (aligned_nil_right xs₃)).append h₄⟩
  | replace pre post c d =>
      obtain ⟨n₁, n₂, xs₁, xs₂, rfl, rfl, h₁, h₂⟩ := h.split rfl
      obtain ⟨n₃, n₄, xs₃, xs₄, rfl, rfl, h₃, h₄⟩ := h₂.split (show c :: post = [c] ++ post from rfl)
      have hlength := h₃.length_le.1
      obtain ⟨k, hk, h₃⟩ := exists_aligned_singleton xs₃ d
      exact ⟨n₁ + k + n₄, by simp at hlength; omega, by simpa using (h₁.append h₃).append h₄⟩

lemma Edits.exists_aligned (h : Edits n xs ys) : ∃ m, m ≤ n ∧ Aligned m xs ys := by
  induction h with
  | refl xs => exact ⟨0, le_rfl, .refl xs⟩
  | tail _ hstep ih =>
      obtain ⟨m, hm, haligned⟩ := ih
      obtain ⟨k, hk, haligned⟩ := haligned.edit hstep
      exact ⟨k, hk.trans (by omega), haligned⟩

/-- The least chain is as long as the least alignment. -/
theorem isLeast_edits_iff {k : ℕ} :
    IsLeast {n | Edits n xs ys} k ↔ IsLeast {n | Aligned n xs ys} k := by
  constructor
  · rintro ⟨hmem, hleast⟩
    obtain ⟨m, hm, haligned⟩ := Edits.exists_aligned hmem
    obtain rfl := le_antisymm hm (hleast haligned.edits)
    exact ⟨haligned, fun n hn => hleast hn.edits⟩
  · rintro ⟨hmem, hleast⟩
    refine ⟨hmem.edits, fun n hn => ?_⟩
    obtain ⟨m, hm, haligned⟩ := Edits.exists_aligned hn
    exact (hleast haligned).trans hm

lemma distance_eq {k : ℕ} (h : IsLeast {n | Edits n xs ys} k) : distance xs ys = k := h.csInf_eq

/-! ### The table of the distances of prefixes -/

lemma isLeast_nil_left (ys : List α) : IsLeast {n | Aligned n [] ys} ys.length := by
  exact ⟨aligned_nil_left ys, fun n hn => by simpa using (Aligned.length_le hn).2⟩

lemma isLeast_nil_right (xs : List α) : IsLeast {n | Aligned n xs []} xs.length :=
  ⟨aligned_nil_right xs, fun n hn => by simpa using (Aligned.length_le hn).1⟩

/-- One entry of the table, from the three before it. -/
theorem isLeast_concat [DecidableEq α] {i j k : ℕ} (hremove : IsLeast {n | Aligned n xs (ys ++ [d])} i)
    (hinsert : IsLeast {n | Aligned n (xs ++ [c]) ys} j) (hboth : IsLeast {n | Aligned n xs ys} k) :
    IsLeast {n | Aligned n (xs ++ [c]) (ys ++ [d])}
      (min (min (i + 1) (j + 1)) (k + if c = d then 0 else 1)) := by
  constructor
  · have hremove' : Aligned (i + 1) (xs ++ [c]) (ys ++ [d]) := .remove c hremove.1
    have hinsert' : Aligned (j + 1) (xs ++ [c]) (ys ++ [d]) := .insert d hinsert.1
    have hboth' : Aligned (k + if c = d then 0 else 1) (xs ++ [c]) (ys ++ [d]) := by
      split_ifs with hcd
      · exact hcd ▸ .keep c hboth.1
      · exact .replace c d hboth.1
    rcases min_choice (min (i + 1) (j + 1)) (k + if c = d then 0 else 1) with h | h
    · rcases min_choice (i + 1) (j + 1) with h' | h'
      · rw [h, h']
        exact hremove'
      · rw [h, h']
        exact hinsert'
    · rw [h]
      exact hboth'
  · intro n hn
    obtain ⟨us, hus⟩ : ∃ us, us = xs ++ [c] := ⟨_, rfl⟩
    obtain ⟨vs, hvs⟩ : ∃ vs, vs = ys ++ [d] := ⟨_, rfl⟩
    have haligned : Aligned n us vs := hus ▸ hvs ▸ hn
    cases haligned with
    | nil => simp at hus
    | keep e h =>
        obtain ⟨rfl, rfl⟩ := List.append_inj' hus rfl |>.imp_right List.singleton_inj.1
        obtain ⟨rfl, rfl⟩ := List.append_inj' hvs rfl |>.imp_right List.singleton_inj.1
        rw [if_pos rfl]
        exact (min_le_right _ _).trans (hboth.2 h)
    | replace e f h =>
        obtain ⟨rfl, rfl⟩ := List.append_inj' hus rfl |>.imp_right List.singleton_inj.1
        obtain ⟨rfl, rfl⟩ := List.append_inj' hvs rfl |>.imp_right List.singleton_inj.1
        refine (min_le_right _ _).trans (Nat.add_le_add (hboth.2 h) ?_)
        split_ifs <;> omega
    | remove e h =>
        obtain ⟨rfl, rfl⟩ := List.append_inj' hus rfl |>.imp_right List.singleton_inj.1
        exact (min_le_left _ _).trans ((min_le_left _ _).trans
          (Nat.add_le_add_right (hremove.2 (hvs ▸ h)) 1))
    | insert f h =>
        obtain ⟨rfl, rfl⟩ := List.append_inj' hvs rfl |>.imp_right List.singleton_inj.1
        exact (min_le_left _ _).trans ((min_le_right _ _).trans
          (Nat.add_le_add_right (hinsert.2 (hus ▸ h)) 1))

end Lib
