import Mathlib

/-!
# Text keys

Keys made of a text, a separator and a number in decimal are equal only
if their parts are: the separator is not a digit, so the last one is
where the number starts.
-/

namespace Lib

/-- The parts before and after the last separator. -/
lemma append_separator_inj {α : Type} {sep : α} {a a' b b' : List α} (hb : sep ∉ b)
    (hb' : sep ∉ b') (h : a ++ sep :: b = a' ++ sep :: b') : a = a' ∧ b = b' := by
  rcases List.append_eq_append_iff.1 h with ⟨m, rfl, hm⟩ | ⟨m, rfl, hm⟩
  · cases m with
    | nil => exact ⟨by simp, (List.cons.inj hm).2⟩
    | cons c m =>
        rw [List.cons_append] at hm
        exact absurd (by rw [(List.cons.inj hm).2]; simp) hb
  · cases m with
    | nil => exact ⟨by simp, (List.cons.inj hm).2.symm⟩
    | cons c m =>
        rw [List.cons_append] at hm
        exact absurd (by rw [(List.cons.inj hm).2]; simp) hb'

/-- The parts before and after the first separator. -/
lemma append_separator_inj_of_notMem {α : Type} {sep : α} {a a' b b' : List α} (ha : sep ∉ a)
    (ha' : sep ∉ a') (h : a ++ sep :: b = a' ++ sep :: b') : a = a' ∧ b = b' := by
  have hreverse := congrArg List.reverse h
  simp only [List.reverse_append, List.reverse_cons, List.append_assoc, List.singleton_append]
    at hreverse
  obtain ⟨hb, ha⟩ := append_separator_inj (by simpa using ha) (by simpa using ha') hreverse
  exact ⟨List.reverse_injective ha, List.reverse_injective hb⟩

lemma notMem_toString {c : Char} (hc : c.isDigit = false) (n : ℕ) : c ∉ (toString n).toList := by
  intro h
  have hdigits : c ∈ n.repr.toList := h
  rw [Nat.toList_repr] at hdigits
  rw [Nat.isDigit_of_mem_toDigits (by decide) (by decide) hdigits] at hc
  exact absurd hc (by decide)

lemma toNat_of_isDigit {c : Char} (h : c.isDigit = true) : 48 ≤ c.toNat ∧ c.toNat ≤ 57 := by
  rw [Char.isDigit, Bool.and_eq_true, decide_eq_true_eq, decide_eq_true_eq] at h
  exact ⟨UInt32.le_iff_toNat_le.1 h.1, UInt32.le_iff_toNat_le.1 h.2⟩

/-- The characters of an integer in decimal. -/
lemma toList_toString_int (i : ℤ) : (toString i).toList =
    if i < 0 then '-' :: Nat.toDigits 10 i.natAbs else Nat.toDigits 10 i.natAbs := by
  cases i with
  | ofNat n =>
      rw [if_neg (by simp)]
      exact Nat.toList_repr
  | negSucc n =>
      rw [if_pos (Int.negSucc_lt_zero n)]
      show ("-" ++ Nat.repr (n + 1)).toList = _
      rw [String.toList_append, Nat.toList_repr]
      rfl

/-- A character that is neither a digit nor a sign is not in an integer. -/
lemma notMem_toString_int {c : Char} (hc : c.isDigit = false) (hsign : c ≠ '-') (i : ℤ) :
    c ∉ (toString i).toList := by
  rw [toList_toString_int]
  have hdigits : c ∉ Nat.toDigits 10 i.natAbs := by
    intro h
    rw [Nat.isDigit_of_mem_toDigits (by decide) (by decide) h] at hc
    cases hc
  split_ifs
  · simp [hsign, hdigits]
  · exact hdigits

lemma toString_int_ne_nil (i : ℤ) : (toString i).toList ≠ [] := by
  rw [toList_toString_int]
  split_ifs
  · simp
  · exact Nat.toDigits_ne_nil

/-- A text and a number behind a separator that is not a digit. -/
lemma textKey_inj {sep : Char} (hsep : sep.isDigit = false) {s s' : String} {n n' : ℕ}
    (h : s ++ String.singleton sep ++ toString n = s' ++ String.singleton sep ++ toString n') :
    s = s' ∧ n = n' := by
  have hlist := congrArg String.toList h
  simp only [String.toList_append, List.append_assoc, String.toList_singleton] at hlist
  obtain ⟨htext, hnumber⟩ :=
    append_separator_inj (notMem_toString hsep n) (notMem_toString hsep n') hlist
  exact ⟨String.toList_injective htext, Nat.repr_injective (String.toList_injective hnumber)⟩

end Lib
