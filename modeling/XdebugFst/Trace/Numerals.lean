import Mathlib
import XdebugFst.Lib.Text
import XdebugFst.Trace.Names

/-!
# Signed decimal numerals

`parse_signed_decimal` and `final_numeric_selector` read a signed number of 64 bits. Both collect
the magnitude in an unsigned word, against a limit that depends on the sign, and both look whether
the next digit still fits before they multiply.

Here every operation is done on words, and it stops the run if its result does not fit.
`numerals_exact` says that this never happens, and that the numerals in range are read, with their
values, and nothing else.
-/

namespace XdebugFst.Trace

/-! ### The parsers on words -/

/-- The result of an operation does not fit into its word. -/
inductive Overflow
  | unsigned | signed
  deriving DecidableEq, Repr

/-- A result of type `uint64_t`. -/
def word (n : ℤ) : Except Overflow ℕ :=
  if 0 ≤ n ∧ n < 2 ^ 64 then .ok n.toNat else .error .unsigned

/-- A result of type `int64_t`. -/
def signedWord (n : ℤ) : Except Overflow ℤ :=
  if -2 ^ 63 ≤ n ∧ n < 2 ^ 63 then .ok n else .error .signed

/-- The loop over the digits. -/
def digitLoop (limit : ℕ) : List Char → ℕ → Except Overflow (Option ℕ)
  | [], magnitude => .ok (some magnitude)
  | c :: rest, magnitude =>
      if c.isDigit then do
        let digit ← word (c.toNat - '0'.toNat)
        let room ← word (limit - digit)
        if magnitude > room / 10 then return none
        else
          let product ← word (magnitude * 10)
          let magnitude ← word (product + digit)
          digitLoop limit rest magnitude
      else return none

/-- The value of a magnitude with its sign. -/
def applySign (negative : Bool) (limit magnitude : ℕ) : Except Overflow ℤ :=
  if negative then
    if magnitude = limit then .ok (-2 ^ 63)
    else do
      let value ← signedWord magnitude
      signedWord (-value)
  else signedWord magnitude

/-- What both parsers make of a numeral. -/
def signedDecimalWords (token : List Char) : Except Overflow (Option ℤ) :=
  let (negative, digits) := match token with
    | '-' :: rest => (true, rest)
    | '+' :: rest => (false, rest)
    | rest => (false, rest)
  if digits = [] then .ok none
  else do
    let limit := if negative then 2 ^ 63 else 2 ^ 63 - 1
    match ← digitLoop limit digits 0 with
    | none => return none
    | some magnitude => return some (← applySign negative limit magnitude)

/-- `parse_signed_decimal`. -/
def parseSignedDecimalWords (token : String) : Except Overflow (Option ℤ) :=
  signedDecimalWords token.toList

/-- `final_numeric_selector`. -/
def finalNumericSelectorWords (signal : String) : Except Overflow (Option (String × ℤ)) :=
  if signal.toList.getLast? = some ']' then
    match splitLast '[' signal.toList.dropLast with
    | none => .ok none
    | some (base, selector) =>
        if base = [] ∨ selector = [] ∨ ':' ∈ selector then .ok none
        else do
          match ← signedDecimalWords selector with
          | none => return none
          | some value => return some (String.ofList base, value)
  else .ok none

/-! ### Numerals -/

/-- An optional sign and digits. -/
inductive IsNumeral : List Char → ℤ → Prop
  | unsigned {digits : List Char} (hne : digits ≠ []) (hdigits : ∀ c ∈ digits, c.isDigit = true) :
      IsNumeral digits (Nat.ofDigitChars 10 digits 0)
  | plus {digits : List Char} (hne : digits ≠ []) (hdigits : ∀ c ∈ digits, c.isDigit = true) :
      IsNumeral ('+' :: digits) (Nat.ofDigitChars 10 digits 0)
  | minus {digits : List Char} (hne : digits ≠ []) (hdigits : ∀ c ∈ digits, c.isDigit = true) :
      IsNumeral ('-' :: digits) (-(Nat.ofDigitChars 10 digits 0 : ℕ))

/-- A number that an `int64_t` holds. -/
def FitsInt64 (value : ℤ) : Prop := -2 ^ 63 ≤ value ∧ value < 2 ^ 63

/-! ### The loop -/

lemma word_of_eq {n : ℤ} {m : ℕ} (heq : n = m) (h : m < 2 ^ 64) : word n = .ok m := by
  subst heq
  have hbounds : 0 ≤ (m : ℤ) ∧ (m : ℤ) < 2 ^ 64 := ⟨Int.natCast_nonneg m, by exact_mod_cast h⟩
  rw [word, if_pos hbounds, Int.toNat_natCast]

lemma signedWord_of_fits {n : ℤ} (h : FitsInt64 n) : signedWord n = .ok n := if_pos h

lemma digit_le {c : Char} (h : c.isDigit = true) : c.toNat - '0'.toNat ≤ 9 ∧ '0'.toNat ≤ c.toNat := by
  have hzero : '0'.toNat = 48 := rfl
  obtain ⟨hlow, hhigh⟩ := Lib.toNat_of_isDigit h
  omega

lemma ok_bind {α β : Type} (a : α) (f : α → Except Overflow β) : Except.ok a >>= f = f a := rfl

variable {limit : ℕ}

/-- No operation of the loop wraps. -/
lemma digitLoop_eq (hlow : 9 ≤ limit) (hhigh : limit < 2 ^ 64) {digits : List Char} {magnitude : ℕ}
    (hmagnitude : magnitude ≤ limit) :
    digitLoop limit digits magnitude = .ok (decimalMagnitude limit digits magnitude) := by
  induction digits generalizing magnitude with
  | nil => rfl
  | cons c rest ih =>
      rw [digitLoop, decimalMagnitude]
      split_ifs with hdigit
      · obtain ⟨hle, hzero⟩ := digit_le hdigit
        have hproduct : (magnitude : ℤ) * 10 = (magnitude * 10 : ℕ) := by push_cast; rfl
        rw [word_of_eq (Nat.cast_sub hzero).symm (by omega), ok_bind,
          word_of_eq (Nat.cast_sub (by omega)).symm (by omega), ok_bind]
        dsimp only
        split_ifs with hguard
        · rfl
        · have hnext : magnitude * 10 + (c.toNat - '0'.toNat) ≤ limit := by omega
          rw [word_of_eq hproduct (by omega), ok_bind,
            word_of_eq (Nat.cast_add _ _).symm (by omega), ok_bind]
          exact ih hnext
      · rfl

/-- Digits do not make a number smaller. -/
lemma le_ofDigitChars (digits : List Char) (n : ℕ) : n ≤ Nat.ofDigitChars 10 digits n := by
  induction digits generalizing n with
  | nil => rfl
  | cons c rest ih =>
      rw [Nat.ofDigitChars_cons]
      exact (by omega : n ≤ 10 * n + (c.toNat - '0'.toNat)).trans (ih _)

/-- The loop accepts the digits of a magnitude up to the limit. -/
lemma decimalMagnitude_eq_some_iff (hlow : 9 ≤ limit) {digits : List Char} {magnitude n : ℕ}
    (hmagnitude : magnitude ≤ limit) :
    decimalMagnitude limit digits magnitude = some n ↔
      (∀ c ∈ digits, c.isDigit = true) ∧ n = Nat.ofDigitChars 10 digits magnitude ∧ n ≤ limit := by
  induction digits generalizing magnitude with
  | nil =>
      rw [decimalMagnitude, Nat.ofDigitChars_nil, Option.some.injEq]
      constructor
      · rintro rfl
        exact ⟨by simp, rfl, hmagnitude⟩
      · rintro ⟨-, rfl, -⟩
        rfl
  | cons c rest ih =>
      rw [decimalMagnitude, Nat.ofDigitChars_cons, List.forall_mem_cons]
      by_cases hdigit : c.isDigit = true
      · obtain ⟨hle, -⟩ := digit_le hdigit
        rw [if_pos hdigit]
        dsimp only
        generalize c.toNat - '0'.toNat = digit at hle ⊢
        split_ifs with hguard
        · -- the number with the next digit is above the limit already
          refine iff_of_false (by simp) ?_
          rintro ⟨-, rfl, hn⟩
          have hmono := le_ofDigitChars rest (10 * magnitude + digit)
          omega
        · rw [ih (by omega), Nat.mul_comm magnitude 10]
          simp [hdigit]
      · rw [if_neg hdigit]
        exact iff_of_false (by simp) fun h => hdigit h.1.1

/-! ### Numerals in range -/

/-- The sign of a token, and what follows it. -/
def splitSign (token : List Char) : Bool × List Char :=
  match token with
  | '-' :: rest => (true, rest)
  | '+' :: rest => (false, rest)
  | rest => (false, rest)

/-- The limit of the magnitude. -/
def magnitudeLimit (negative : Bool) : ℕ := if negative then 2 ^ 63 else 2 ^ 63 - 1

lemma magnitudeLimit_cast (negative : Bool) :
    (magnitudeLimit negative : ℤ) = if negative then 2 ^ 63 else 2 ^ 63 - 1 := by
  cases negative <;> norm_num [magnitudeLimit]

lemma magnitudeLimit_bounds (negative : Bool) :
    9 ≤ magnitudeLimit negative ∧ magnitudeLimit negative < 2 ^ 64 := by
  cases negative <;> decide

/-- The sign does not wrap either. -/
lemma applySign_eq {negative : Bool} {n : ℕ} (h : n ≤ magnitudeLimit negative) :
    applySign negative (magnitudeLimit negative) n = .ok (if negative then -(n : ℤ) else n) := by
  have hcast := magnitudeLimit_cast negative
  have hle : (n : ℤ) ≤ magnitudeLimit negative := Int.ofNat_le.2 h
  generalize magnitudeLimit negative = limit at h hcast hle ⊢
  cases negative with
  | false =>
      simp only [Bool.false_eq_true, ↓reduceIte] at hcast
      have hfits : FitsInt64 n := ⟨by omega, by omega⟩
      simp only [applySign, Bool.false_eq_true, ↓reduceIte]
      rw [signedWord_of_fits hfits]
  | true =>
      simp only [↓reduceIte] at hcast
      simp only [applySign, ↓reduceIte]
      split_ifs with heq
      · rw [heq, hcast]
      · have hfits : FitsInt64 n := ⟨by omega, by omega⟩
        have hneg : FitsInt64 (-n) := ⟨by omega, by omega⟩
        rw [signedWord_of_fits hfits, ok_bind, signedWord_of_fits hneg]

/-- Both parsers, on words and on numbers, take the sign off first. -/
lemma signedDecimal_eq (token : List Char) :
    signedDecimal token =
      if (splitSign token).2 = [] then none
      else
        (decimalMagnitude (magnitudeLimit (splitSign token).1) (splitSign token).2 0).map
          fun n : ℕ => if (splitSign token).1 then -(n : ℤ) else (n : ℤ) := by
  have hbody : ∀ sign : Bool × List Char,
      (if sign.2 = [] then none
        else
          ((decimalMagnitude (magnitudeLimit sign.1) sign.2 0).bind fun n => some (n : ℤ)).map
            fun n => if sign.1 then -n else n) =
        if sign.2 = [] then none
        else
          (decimalMagnitude (magnitudeLimit sign.1) sign.2 0).map
            fun n : ℕ => if sign.1 then -(n : ℤ) else (n : ℤ) := by
    intro sign
    cases decimalMagnitude (magnitudeLimit sign.1) sign.2 0 <;> rfl
  exact hbody (splitSign token)

lemma signedDecimalWords_eq_splitSign (token : List Char) :
    signedDecimalWords token =
      if (splitSign token).2 = [] then .ok none
      else do
        match ← digitLoop (magnitudeLimit (splitSign token).1) (splitSign token).2 0 with
        | none => return none
        | some magnitude =>
            return some (← applySign (splitSign token).1 (magnitudeLimit (splitSign token).1)
              magnitude) := rfl

/-- No operation of the parsers wraps. -/
lemma signedDecimalWords_eq (token : List Char) :
    signedDecimalWords token = .ok (signedDecimal token) := by
  rw [signedDecimalWords_eq_splitSign, signedDecimal_eq]
  obtain ⟨negative, digits⟩ := splitSign token
  obtain ⟨hlow, hhigh⟩ := magnitudeLimit_bounds negative
  dsimp only
  by_cases hempty : digits = []
  · rw [if_pos hempty, if_pos hempty]
  · rw [if_neg hempty, if_neg hempty, digitLoop_eq hlow hhigh (Nat.zero_le _), ok_bind]
    cases hloop : decimalMagnitude (magnitudeLimit negative) digits 0 with
    | none => rfl
    | some n =>
        have hle := ((decimalMagnitude_eq_some_iff hlow (Nat.zero_le _)).1 hloop).2.2
        simp only [applySign_eq hle, ok_bind, Option.map_some]
        rfl

/-- A digit is not a sign. -/
lemma splitSign_digits {digits : List Char} (h : ∀ c ∈ digits, c.isDigit = true) :
    splitSign digits = (false, digits) := by
  cases digits with
  | nil => rfl
  | cons c rest =>
      have hc := h c List.mem_cons_self
      rw [splitSign]
      · rintro rest' heq
        cases heq
        simp at hc
      · rintro rest' heq
        cases heq
        simp at hc

/-- A numeral is a token with digits after its sign. -/
lemma isNumeral_iff (token : List Char) (value : ℤ) :
    IsNumeral token value ↔
      (splitSign token).2 ≠ [] ∧ (∀ c ∈ (splitSign token).2, c.isDigit = true) ∧
        value = if (splitSign token).1 then -(Nat.ofDigitChars 10 (splitSign token).2 0 : ℤ)
          else Nat.ofDigitChars 10 (splitSign token).2 0 := by
  constructor
  · rintro (⟨hne, hdigits⟩ | ⟨hne, hdigits⟩ | ⟨hne, hdigits⟩)
    · rw [splitSign_digits hdigits]
      exact ⟨hne, hdigits, rfl⟩
    · exact ⟨hne, hdigits, rfl⟩
    · exact ⟨hne, hdigits, rfl⟩
  · rintro ⟨hne, hdigits, rfl⟩
    generalize hsign : splitSign token = sign at hne hdigits ⊢
    unfold splitSign at hsign
    split at hsign
    · subst hsign
      exact .minus hne hdigits
    · subst hsign
      exact .plus hne hdigits
    · subst hsign
      exact .unsigned hne hdigits

/-- The magnitude is in range where the value is. -/
lemma fitsInt64_iff (negative : Bool) (n : ℕ) :
    FitsInt64 (if negative then -(n : ℤ) else n) ↔ n ≤ magnitudeLimit negative := by
  have hcast := magnitudeLimit_cast negative
  rw [← Int.ofNat_le]
  generalize (magnitudeLimit negative : ℤ) = limit at hcast ⊢
  cases negative with
  | false =>
      simp only [Bool.false_eq_true, ↓reduceIte, FitsInt64] at hcast ⊢
      omega
  | true =>
      simp only [↓reduceIte, FitsInt64] at hcast ⊢
      omega

/-- The parser reads the numerals in range. -/
lemma signedDecimal_eq_some_iff (token : List Char) (value : ℤ) :
    signedDecimal token = some value ↔ IsNumeral token value ∧ FitsInt64 value := by
  rw [signedDecimal_eq, isNumeral_iff]
  obtain ⟨negative, digits⟩ := splitSign token
  obtain ⟨hlow, -⟩ := magnitudeLimit_bounds negative
  dsimp only
  by_cases hempty : digits = []
  · rw [if_pos hempty]
    exact iff_of_false (by simp) fun h => h.1.1 hempty
  · rw [if_neg hempty, Option.map_eq_some_iff]
    constructor
    · rintro ⟨n, hn, rfl⟩
      obtain ⟨hdigits, rfl, hle⟩ := (decimalMagnitude_eq_some_iff hlow (Nat.zero_le _)).1 hn
      exact ⟨⟨hempty, hdigits, rfl⟩, (fitsInt64_iff negative _).2 hle⟩
    · rintro ⟨⟨-, hdigits, rfl⟩, hfits⟩
      have hle := (fitsInt64_iff negative _).1 hfits
      exact ⟨_, (decimalMagnitude_eq_some_iff hlow (Nat.zero_le _)).2 ⟨hdigits, rfl, hle⟩, rfl⟩

/-! ### Names with a selector -/

/-- The text splits at the last occurrence. -/
lemma splitLast_eq_some_iff {c : Char} {text before after : List Char} :
    splitLast c text = some (before, after) ↔ text = before ++ c :: after ∧ c ∉ after := by
  constructor
  · intro h
    have hparts := List.takeWhile_append_dropWhile (p := (· ≠ c)) (l := text.reverse)
    have hafter : ∀ x ∈ text.reverse.takeWhile (· ≠ c), x ≠ c := fun x hx => by
      simpa using List.mem_takeWhile_imp hx
    unfold splitLast at h
    split at h
    · cases h
    · next last rest heq =>
        cases h
        have hlast := List.head?_dropWhile_not (· ≠ c) text.reverse
        rw [heq] at hlast
        have hlast : last = c := by simpa using hlast
        rw [heq, hlast] at hparts
        have htext := congrArg List.reverse hparts
        rw [List.reverse_reverse, List.reverse_append, List.reverse_cons, List.append_assoc] at htext
        constructor
        · exact htext.symm
        · intro hc
          exact hafter c (List.mem_reverse.1 hc) rfl
  · rintro ⟨rfl, hc⟩
    have hall : ∀ x ∈ after.reverse, (decide (x ≠ c)) = true := fun x hx => by
      have hx' := List.mem_reverse.1 hx
      exact decide_eq_true fun h => hc (h ▸ hx')
    rw [splitLast, List.reverse_append, List.reverse_cons, List.append_assoc,
      List.dropWhile_append_of_pos hall, List.takeWhile_append_of_pos hall]
    simp

/-- A numeral has digits and perhaps a sign, and no bracket or colon. -/
lemma IsNumeral.isDigit_or_sign {token : List Char} {value : ℤ} (h : IsNumeral token value) :
    token ≠ [] ∧ ∀ c ∈ token, c.isDigit = true ∨ c = '+' ∨ c = '-' := by
  cases h with
  | unsigned hne hdigits => exact ⟨hne, fun c hc => .inl (hdigits c hc)⟩
  | plus hne hdigits =>
      refine ⟨List.cons_ne_nil _ _, fun c hc => ?_⟩
      obtain rfl | hc := List.mem_cons.1 hc
      · exact .inr (.inl rfl)
      · exact .inl (hdigits c hc)
  | minus hne hdigits =>
      refine ⟨List.cons_ne_nil _ _, fun c hc => ?_⟩
      obtain rfl | hc := List.mem_cons.1 hc
      · exact .inr (.inr rfl)
      · exact .inl (hdigits c hc)

lemma IsNumeral.notMem {token : List Char} {value : ℤ} (h : IsNumeral token value) {c : Char}
    (hdigit : c.isDigit = false) (hplus : c ≠ '+') (hminus : c ≠ '-') : c ∉ token := by
  intro hc
  obtain hc | hc | hc := h.isDigit_or_sign.2 c hc
  · simp [hc] at hdigit
  · exact hplus hc
  · exact hminus hc

lemma finalNumericSelectorWords_eq (signal : String) :
    finalNumericSelectorWords signal = .ok (finalNumericSelector signal) := by
  rw [finalNumericSelectorWords, finalNumericSelector]
  split_ifs
  · cases splitLast '[' signal.toList.dropLast with
    | none => rfl
    | some parts =>
        dsimp only
        split_ifs
        · rfl
        · rw [signedDecimalWords_eq, ok_bind]
          cases signedDecimal parts.2 <;> rfl
  · rfl

/-- The selector is a numeral between the last bracket and the end. -/
lemma finalNumericSelector_eq_some_iff (signal base : String) (value : ℤ) :
    finalNumericSelector signal = some (base, value) ↔
      base ≠ "" ∧ ∃ numeral : String, signal = base ++ "[" ++ numeral ++ "]" ∧
        IsNumeral numeral.toList value ∧ FitsInt64 value := by
  rw [finalNumericSelector]
  constructor
  · intro h
    split at h
    case isFalse => cases h
    case isTrue hend =>
      split at h
      · cases h
      · next before selector hsplit =>
          split at h
          · cases h
          · next hparts =>
              obtain ⟨value', hvalue, hpair⟩ := Option.map_eq_some_iff.1 h
              cases hpair
              obtain ⟨hnumeral, hfits⟩ := (signedDecimal_eq_some_iff _ _).1 hvalue
              obtain ⟨hlist, -⟩ := splitLast_eq_some_iff.1 hsplit
              have hbefore : before ≠ [] := fun h => hparts (.inl h)
              refine ⟨by simpa using hbefore, String.ofList selector, ?_, by simpa, hfits⟩
              have hconcat := List.dropLast_append_getLast? _ hend
              rw [hlist] at hconcat
              apply String.toList_injective
              simp [← hconcat]
  · rintro ⟨hbase, numeral, rfl, hnumeral, hfits⟩
    have hopen : '[' ∉ numeral.toList := hnumeral.notMem rfl (by decide) (by decide)
    have hcolon : ':' ∉ numeral.toList := hnumeral.notMem rfl (by decide) (by decide)
    have hlist : (base ++ "[" ++ numeral ++ "]").toList =
        (base.toList ++ '[' :: numeral.toList) ++ [']'] := by simp
    have hsplit : splitLast '[' (base.toList ++ '[' :: numeral.toList) =
        some (base.toList, numeral.toList) := splitLast_eq_some_iff.2 ⟨rfl, hopen⟩
    have hparts : ¬(base.toList = [] ∨ numeral.toList = [] ∨ ':' ∈ numeral.toList) := by
      rintro (h | h | h)
      · exact hbase (by simpa using h)
      · exact hnumeral.isDigit_or_sign.1 h
      · exact hcolon h
    rw [hlist, if_pos List.getLast?_concat, List.dropLast_concat, hsplit]
    dsimp only
    rw [if_neg hparts, (signedDecimal_eq_some_iff _ _).2 ⟨hnumeral, hfits⟩]
    simp

/-- **The parsers read the numerals in range, and no step wraps.** -/
theorem numerals_exact (token signal : String) :
    (∃ result, parseSignedDecimalWords token = .ok result ∧
      ∀ value, result = some value ↔ IsNumeral token.toList value ∧ FitsInt64 value) ∧
    ∃ result, finalNumericSelectorWords signal = .ok result ∧
      ∀ base value, result = some (base, value) ↔
        base ≠ "" ∧ ∃ numeral : String, signal = base ++ "[" ++ numeral ++ "]" ∧
          IsNumeral numeral.toList value ∧ FitsInt64 value :=
  ⟨⟨_, signedDecimalWords_eq _, signedDecimal_eq_some_iff _⟩,
    ⟨_, finalNumericSelectorWords_eq _, finalNumericSelector_eq_some_iff _⟩⟩

end XdebugFst.Trace
