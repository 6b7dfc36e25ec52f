import Mathlib
import XdebugFst.Expr.Render

/-!
# The field filter of a stream

`stream_field_filter_result` judges a field of a transfer by a rule: it matches, it does not match,
or its unknown bits leave this open. A known field is compared as a number. An unknown one is not
judged at all by the rules for exact values and for ranges; a rule with a mask looks at the bits
that the mask selects, from the low end, and stops at the first one that is unknown or different.

The results are compared with the replacements of the unknown bits: `judges`.
-/

namespace XdebugFst.Stream

open XdebugFst.Expr

/-! ### The filter -/

/-- A rule of a filter, over its literals. -/
inductive FieldRule (α : Type)
  | exact (values : List α)
  | range (first last : α)
  | mask (value mask : α)

def FieldRule.map {α β : Type} (f : α → β) : FieldRule α → FieldRule β
  | exact values => exact (values.map f)
  | range first last => range (f first) (f last)
  | mask value selected => mask (f value) (f selected)

/-- `StreamFilterResult`. -/
inductive StreamFilterResult
  | matched | noMatch | unresolved
  deriving DecidableEq, Repr

/-- `known_u64`: the number of a known field of at most 64 bits. -/
def knownU64 (value : LogicValue) : Option ℕ :=
  if !value.known || value.bits = "" then none
  else if value.bits.length > 64 then none
  else if value.bits.toList.all fun bit => bit = '0' || bit = '1' then some (toU64 value)
  else none

/-- `literal_u64`: the number of a known literal of at most 64 bits. -/
def literalU64 (text : String) : Option ℕ :=
  match parseSvLiteral text with
  | none => none
  | some value => if !value.known || value.bits.length > 64 then none else some (toU64 value)

/-- `stream_field_matches`. -/
def streamFieldMatches (value : LogicValue) (rule : FieldRule String) : Bool :=
  match knownU64 value with
  | none => false
  | some actual =>
      match rule with
      | .exact values => values.any fun candidate => literalU64 candidate = some actual
      | .range first last =>
          match literalU64 first, literalU64 last with
          | some first, some last => first ≤ actual && actual ≤ last
          | _, _ => false
      | .mask value mask =>
          match literalU64 value, literalU64 mask with
          | some expected, some mask => actual &&& mask = expected &&& mask
          | _, _ => false

/-- The bit at an offset from the low end. -/
def lsbBit (bits : List Char) (offset : ℕ) (fill : Char) : Char :=
  if offset < bits.length then bits.getD (bits.length - 1 - offset) fill else fill

/-- The loop over the bits that the mask selects. -/
def maskLoop (actual expected mask : List Char) : ℕ → ℕ → StreamFilterResult
  | _, 0 => .matched
  | offset, remaining + 1 =>
      if lsbBit mask offset '0' ≠ '1' then maskLoop actual expected mask (offset + 1) remaining
      else if lsbBit actual offset '0' ≠ '0' ∧ lsbBit actual offset '0' ≠ '1' then .unresolved
      else if lsbBit actual offset '0' ≠ lsbBit expected offset '0' then .noMatch
      else maskLoop actual expected mask (offset + 1) remaining

/-- `stream_field_filter_result` on the JSON of a value, which has bits unless they are empty. -/
def streamFieldFilterResult (value : LogicValue) (rule : FieldRule String) : StreamFilterResult :=
  if value.bits = "" then .unresolved
  else if value.known then if streamFieldMatches value rule then .matched else .noMatch
  else
    match rule with
    | .mask expected mask =>
        match parseSvLiteral expected, parseSvLiteral mask with
        | some expected, some mask =>
            if !expected.known || !mask.known then .unresolved
            else maskLoop value.bits.toList expected.bits.toList mask.bits.toList 0
              (max value.bits.length (max expected.bits.length mask.bits.length))
        | _, _ => .unresolved
    | _ => .unresolved

/-! ### Rules on numbers -/

/-- A literal that is read as a known value. -/
structure KnownLiteral where
  text : String
  value : LogicValue
  read : parseSvLiteral text = some value
  known : value.known = true

namespace KnownLiteral

def bits (l : KnownLiteral) : List Char := l.value.bits.toList

/-- The number of the literal. -/
def toNat (l : KnownLiteral) : ℕ := bitsValue l.bits

end KnownLiteral

namespace FieldRule

/-- A number satisfies a rule. -/
def Satisfied : FieldRule KnownLiteral → ℕ → Prop
  | exact values, n => ∃ l ∈ values, n = l.toNat
  | range first last, n => first.toNat ≤ n ∧ n ≤ last.toNat
  | mask value selected, n => n &&& selected.toNat = value.toNat &&& selected.toNat

/-- The literals of a rule. -/
def literals : FieldRule KnownLiteral → List KnownLiteral
  | exact values => values
  | range first last => [first, last]
  | mask value selected => [value, selected]

end FieldRule

/-- All unknown bits are replaced by 0 or 1. -/
def Replaces (bits full : List Char) : Prop :=
  List.Forall₂ (fun c d => (d = '0' ∨ d = '1') ∧ (isXZ c = true ∨ d = c)) bits full

/-- The lowest selected bit that is unknown or different is different. -/
def DiffersFirst (actual expected mask : List Char) : Prop :=
  ∃ offset, lsbBit mask offset '0' = '1' ∧
    isXZ (lsbBit actual offset '0') = false ∧
    lsbBit actual offset '0' ≠ lsbBit expected offset '0' ∧
    ∀ lower < offset, lsbBit mask lower '0' = '1' → isXZ (lsbBit actual lower '0') = false

/-- What the filter concludes of a field by a rule. -/
structure Judges (v : BitVector) (rule : FieldRule KnownLiteral) : Prop where
  /-- Known fields are judged exactly, up to 64 bits. -/
  known : v.value.known = true → v.width ≤ 64 → (∀ l ∈ rule.literals, l.bits.length ≤ 64) →
    (streamFieldFilterResult v.value (rule.map KnownLiteral.text) = .matched ↔
        ∀ full, Replaces v.bits full → rule.Satisfied (bitsValue full)) ∧
      (streamFieldFilterResult v.value (rule.map KnownLiteral.text) = .noMatch ↔
        ∀ full, Replaces v.bits full → ¬ rule.Satisfied (bitsValue full))
  /-- Without a mask, unknown fields are not judged. -/
  unmasked : v.value.known = false → (∀ value mask, rule ≠ .mask value mask) →
    streamFieldFilterResult v.value (rule.map KnownLiteral.text) = .unresolved
  /-- With a mask they match exactly if every replacement does. -/
  masked : v.value.known = false → ∀ value mask, rule = .mask value mask →
    (streamFieldFilterResult v.value (rule.map KnownLiteral.text) = .matched ↔
        ∀ full, Replaces v.bits full → rule.Satisfied (bitsValue full)) ∧
      (streamFieldFilterResult v.value (rule.map KnownLiteral.text) = .noMatch ↔
        DiffersFirst v.bits value.bits mask.bits)
  /-- A field that is judged not to match has no replacement that does. -/
  noMatch : v.value.known = false →
    streamFieldFilterResult v.value (rule.map KnownLiteral.text) = .noMatch →
    ∀ full, Replaces v.bits full → ¬ rule.Satisfied (bitsValue full)

/-! ### Bits from the low end -/

lemma lsbBit_append_zero (bits : List Char) (c fill : Char) : lsbBit (bits ++ [c]) 0 fill = c := by
  simp [lsbBit]

lemma lsbBit_append_succ (bits : List Char) (c fill : Char) (i : ℕ) :
    lsbBit (bits ++ [c]) (i + 1) fill = lsbBit bits i fill := by
  rw [lsbBit, lsbBit, List.length_append, List.length_singleton]
  by_cases hi : i < bits.length
  · rw [if_pos hi, if_pos (Nat.succ_lt_succ hi), List.getD_append _ _ _ _ (by omega)]
    congr 1
    omega
  · rw [if_neg hi, if_neg fun h => hi (Nat.lt_of_succ_lt_succ h)]

lemma lsbBit_of_le {bits : List Char} {i : ℕ} (h : bits.length ≤ i) (fill : Char) :
    lsbBit bits i fill = fill := if_neg (Nat.not_lt.2 h)

lemma lsbBit_mem_or (bits : List Char) (i : ℕ) (fill : Char) :
    lsbBit bits i fill ∈ bits ∨ lsbBit bits i fill = fill := by
  by_cases hi : i < bits.length
  · left
    rw [lsbBit, if_pos hi, List.getD_eq_getElem _ _ (by omega)]
    exact List.getElem_mem _
  · exact Or.inr (lsbBit_of_le (Nat.not_lt.1 hi) fill)

/-- A bit of the number of a bit string. -/
lemma testBit_bitsValue (bits : List Char) (i : ℕ) :
    (bitsValue bits).testBit i = decide (lsbBit bits i '0' = '1') := by
  induction bits using List.reverseRecOn generalizing i with
  | nil => rw [lsbBit_of_le (Nat.zero_le i)]; exact Nat.zero_testBit i
  | append_singleton bits c ih =>
      have hvalue : bitsValue (bits ++ [c]) = bitsValue bits * 2 ^ 1 + if c = '1' then 1 else 0 := by
        rw [bitsValue, List.foldl_append]
        rfl
      rw [hvalue, Nat.mul_comm, Nat.testBit_two_pow_mul_add _ (bit_lt c)]
      cases i with
      | zero =>
          rw [lsbBit_append_zero, if_pos Nat.one_pos]
          by_cases hc : c = '1'
          · simp [hc]
          · simp [hc]
      | succ i =>
          rw [lsbBit_append_succ, if_neg (by omega), Nat.add_sub_cancel, ih]

/-- A mask compares the bits that it selects. -/
lemma land_eq_iff (a b m : ℕ) :
    a &&& m = b &&& m ↔ ∀ i, m.testBit i = true → a.testBit i = b.testBit i := by
  constructor
  · intro h i hi
    have hbit := congrArg (fun n => n.testBit i) h
    simpa [hi] using hbit
  · intro h
    refine Nat.eq_of_testBit_eq fun i => ?_
    rw [Nat.testBit_land, Nat.testBit_land]
    cases hi : m.testBit i with
    | true => rw [h i hi]
    | false => rw [Bool.and_false, Bool.and_false]

/-! ### Replacements -/

section Replaces

variable {bits full : List Char}

lemma Replaces.lsbBit_eq (h : Replaces bits full) {i : ℕ} (hknown : isXZ (lsbBit bits i '0') = false) :
    lsbBit full i '0' = lsbBit bits i '0' := by
  obtain ⟨hlen, hget⟩ := List.forall₂_iff_get.1 h
  by_cases hi : i < bits.length
  · have hi' : i < full.length := hlen ▸ hi
    have hlast : full.length - 1 - i = bits.length - 1 - i := by rw [hlen]
    rw [lsbBit, if_pos hi, List.getD_eq_getElem _ _ (by omega)] at hknown
    rw [lsbBit, lsbBit, if_pos hi, if_pos hi', hlast, List.getD_eq_getElem _ _ (by omega),
      List.getD_eq_getElem _ _ (by omega)]
    refine (hget (bits.length - 1 - i) (by omega) (by omega)).2.resolve_left fun hxz => ?_
    rw [List.get_eq_getElem, hknown] at hxz
    cases hxz
  · rw [lsbBit_of_le (Nat.not_lt.1 hi), lsbBit_of_le (hlen ▸ Nat.not_lt.1 hi)]

/-- Without unknown bits there is nothing to replace. -/
lemma Replaces.eq_of_known (h : Replaces bits full) (hknown : ∀ c ∈ bits, isXZ c = false) :
    full = bits := by
  induction h with
  | nil => rfl
  | @cons c d bits full hbit _ ih =>
      have hc : d = c := hbit.2.resolve_left fun hxz => by
        rw [hknown c List.mem_cons_self] at hxz
        cases hxz
      rw [hc, ih fun e he => hknown e (List.mem_cons_of_mem c he)]

/-- Every unknown bit replaced by the same bit. -/
def replaceWith (d : Char) (bits : List Char) : List Char :=
  bits.map fun c => if isXZ c then d else c

lemma replaces_replaceWith {d : Char} (hd : d = '0' ∨ d = '1')
    (h : ∀ c ∈ bits, isXZ c = true ∨ c = '0' ∨ c = '1') : Replaces bits (replaceWith d bits) := by
  refine List.forall₂_map_right_iff.2 (List.forall₂_same.2 fun c hc => ?_)
  by_cases hxz : isXZ c = true
  · rw [if_pos hxz]
    exact ⟨hd, Or.inl hxz⟩
  · rw [if_neg hxz]
    exact ⟨(h c hc).resolve_left hxz, Or.inr rfl⟩

lemma lsbBit_replaceWith {d : Char} {i : ℕ} (h : isXZ (lsbBit bits i '0') = true) :
    lsbBit (replaceWith d bits) i '0' = d := by
  have hi : i < bits.length := by
    by_contra hi
    rw [lsbBit_of_le (Nat.not_lt.1 hi)] at h
    exact absurd h (by decide)
  rw [lsbBit, if_pos hi, List.getD_eq_getElem _ _ (by omega)] at h
  rw [lsbBit, replaceWith, List.length_map, if_pos hi, List.getD_eq_getElem _ _ (by simp; omega),
    List.getElem_map, if_pos h]

end Replaces

/-! ### The loop -/

section Loop

variable {actual expected mask : List Char} {offset remaining : ℕ}

/-- The bit at an offset is selected, known and as expected. -/
def Agrees (actual expected mask : List Char) (i : ℕ) : Prop :=
  lsbBit mask i '0' = '1' → isXZ (lsbBit actual i '0') = false ∧
    lsbBit actual i '0' = lsbBit expected i '0'

variable (hactual : ∀ c ∈ actual, isXZ c = true ∨ c = '0' ∨ c = '1')
include hactual

/-- The loop leaves the bits open that are unknown. -/
lemma isXZ_lsbBit_iff (i : ℕ) :
    (lsbBit actual i '0' ≠ '0' ∧ lsbBit actual i '0' ≠ '1') ↔ isXZ (lsbBit actual i '0') = true := by
  have hchar : isXZ (lsbBit actual i '0') = true ∨ lsbBit actual i '0' = '0' ∨
      lsbBit actual i '0' = '1' := by
    rcases lsbBit_mem_or actual i '0' with hmem | hfill
    · exact hactual _ hmem
    · exact Or.inr (Or.inl hfill)
  constructor
  · rintro ⟨h0, h1⟩
    exact hchar.resolve_right fun h => h.elim h0 h1
  · intro hxz
    constructor
    · intro h
      rw [h] at hxz
      exact absurd hxz (by decide)
    · intro h
      rw [h] at hxz
      exact absurd hxz (by decide)

lemma maskLoop_of_agrees (h : Agrees actual expected mask offset) :
    maskLoop actual expected mask offset (remaining + 1) =
      maskLoop actual expected mask (offset + 1) remaining := by
  rw [maskLoop]
  by_cases hmask : lsbBit mask offset '0' = '1'
  · obtain ⟨hknown, heq⟩ := h hmask
    rw [if_neg (not_not_intro hmask), if_neg, if_neg (not_not_intro heq)]
    rw [isXZ_lsbBit_iff hactual, hknown]
    exact Bool.false_ne_true
  · rw [if_pos hmask]

lemma maskLoop_of_not_agrees (h : ¬ Agrees actual expected mask offset) :
    lsbBit mask offset '0' = '1' ∧ maskLoop actual expected mask offset (remaining + 1) =
      if isXZ (lsbBit actual offset '0') then .unresolved else .noMatch := by
  obtain ⟨hmask, hdiffers⟩ := Classical.not_imp.1 h
  refine ⟨hmask, ?_⟩
  rw [maskLoop, if_neg (not_not_intro hmask)]
  simp only [isXZ_lsbBit_iff hactual]
  by_cases hxz : isXZ (lsbBit actual offset '0') = true
  · rw [if_pos hxz, if_pos hxz]
  · rw [if_neg hxz, if_neg hxz, if_pos fun heq => hdiffers ⟨Bool.eq_false_iff.2 hxz, heq⟩]

lemma maskLoop_eq_matched_iff : maskLoop actual expected mask offset remaining = .matched ↔
    ∀ i, offset ≤ i → i < offset + remaining → Agrees actual expected mask i := by
  induction remaining generalizing offset with
  | zero => exact ⟨fun _ i hle hlt => absurd hlt (Nat.not_lt.2 hle), fun _ => rfl⟩
  | succ remaining ih =>
      by_cases h : Agrees actual expected mask offset
      · rw [maskLoop_of_agrees hactual h, ih]
        constructor
        · intro hall i hle hlt
          rcases hle.eq_or_lt with rfl | hlt'
          · exact h
          · exact hall i hlt' (by omega)
        · intro hall i hle hlt
          exact hall i (by omega) (by omega)
      · rw [(maskLoop_of_not_agrees hactual h).2]
        constructor
        · intro heq
          split_ifs at heq
        · intro hall
          exact absurd (hall offset le_rfl (by omega)) h

/-- The loop stops at a different bit exactly if there is one above known bits only. -/
lemma maskLoop_eq_noMatch_iff : maskLoop actual expected mask offset remaining = .noMatch ↔
    ∃ i, offset ≤ i ∧ i < offset + remaining ∧ lsbBit mask i '0' = '1' ∧
      isXZ (lsbBit actual i '0') = false ∧ lsbBit actual i '0' ≠ lsbBit expected i '0' ∧
      ∀ lower, offset ≤ lower → lower < i → lsbBit mask lower '0' = '1' →
        isXZ (lsbBit actual lower '0') = false := by
  induction remaining generalizing offset with
  | zero =>
      refine iff_of_false (by rw [maskLoop]; exact StreamFilterResult.noConfusion) ?_
      rintro ⟨i, hle, hlt, -⟩
      omega
  | succ remaining ih =>
      by_cases h : Agrees actual expected mask offset
      · rw [maskLoop_of_agrees hactual h, ih]
        constructor
        · rintro ⟨i, hle, hlt, hmask, hknown, hne, hlower⟩
          refine ⟨i, by omega, by omega, hmask, hknown, hne, fun lower hle' hlt' hsel => ?_⟩
          rcases hle'.eq_or_lt with rfl | hgt
          · exact (h hsel).1
          · exact hlower lower hgt hlt' hsel
        · rintro ⟨i, hle, hlt, hmask, hknown, hne, hlower⟩
          have hi : i ≠ offset := by
            rintro rfl
            exact hne (h hmask).2
          exact ⟨i, by omega, by omega, hmask, hknown, hne, fun lower hle' => hlower lower (by omega)⟩
      · obtain ⟨hmask, heq⟩ := @maskLoop_of_not_agrees _ _ _ offset remaining hactual h
        rw [heq]
        cases hxz : isXZ (lsbBit actual offset '0') with
        | true =>
            refine iff_of_false (by rw [if_pos rfl]; exact StreamFilterResult.noConfusion) ?_
            rintro ⟨i, hle, -, -, hknown, -, hlower⟩
            -- the unknown bit at the offset is below the different one
            have hoffset : isXZ (lsbBit actual offset '0') = false := by
              rcases hle.eq_or_lt with rfl | hlt
              · exact hknown
              · exact hlower offset le_rfl hlt hmask
            rw [hxz] at hoffset
            cases hoffset
        | false =>
            refine iff_of_true (if_neg Bool.false_ne_true) ?_
            refine ⟨offset, le_rfl, by omega, hmask, hxz, fun hsame => h fun _ => ⟨hxz, hsame⟩, ?_⟩
            intro lower hle hlt
            omega

end Loop

/-! ### Literals and known fields -/

lemma bitUnknown_eq (c : Char) (h : (!(bitUnknown c).1 && !(bitUnknown c).2) = true) :
    c = '0' ∨ c = '1' := by
  rw [bitUnknown] at h
  split_ifs at h with h1 h2 h3
  · cases h
  · cases h
  · cases h
  · tauto

/-- What is read is the value of a number or of a bit string. -/
lemma parseSvLiteral_cases {text : String} {v : LogicValue} (h : parseSvLiteral text = some v) :
    (∃ n w, v = logicValueFromU64 n w) ∨ ∃ bits w, v = logicValueFromBits bits w := by
  rw [parseSvLiteral] at h
  dsimp only at h
  split at h
  · cases h
  · split at h
    · rw [parseSvPlain] at h
      split_ifs at h
      · exact Or.inl ⟨_, _, (Option.some.inj h).symm⟩
      · exact Or.inl ⟨_, _, (Option.some.inj h).symm⟩
      · exact Or.inr ⟨_, _, (Option.some.inj h).symm⟩
    · split at h
      · rw [parseSvRadix.eq_def] at h
        split at h
        · cases h
        · dsimp only at h
          split_ifs at h
          · exact Or.inl ⟨_, _, (Option.some.inj h).symm⟩
          all_goals exact Or.inr ⟨_, _, (Option.some.inj h).symm⟩
      · cases h

namespace KnownLiteral

variable (l : KnownLiteral)

/-- Known literals consist of zeros and ones. -/
lemma binary : ∀ c ∈ l.bits, c = '0' ∨ c = '1' := by
  have hknown := l.known
  rw [bits]
  rcases parseSvLiteral_cases l.read with ⟨n, w, hv⟩ | ⟨text, w, hv⟩
  · rw [hv]
    exact fun c hc => logicValueFromU64_chars hc
  · rw [hv] at hknown ⊢
    intro c hc
    rw [logicValueFromBits] at hknown
    exact bitUnknown_eq c (List.all_eq_true.1 hknown _ (List.mem_map_of_mem hc))

lemma literalU64_text (h : l.bits.length ≤ 64) : literalU64 l.text = some l.toNat := by
  have hlength : ¬ l.value.bits.length > 64 := by
    rwa [← String.length_toList, gt_iff_lt, not_lt]
  rw [literalU64, l.read]
  dsimp only
  rw [l.known, decide_eq_false hlength]
  refine congrArg some ?_
  rw [(KnownVector.mk l.value l.known l.binary).toU64_value]
  exact Nat.mod_eq_of_lt ((bitsValue_lt l.bits).trans_le (Nat.pow_le_pow_right two_pos h))

end KnownLiteral

section Known

variable {v : BitVector} (hknown : v.value.known = true)
include hknown

lemma knownU64_value (hwidth : v.width ≤ 64) : knownU64 v.value = some (bitsValue v.bits) := by
  have hbinary := v.binary_of_known hknown
  have hlength : ¬ v.value.bits.length > 64 := by
    rwa [← String.length_toList, v.toList_bits_value, gt_iff_lt, not_lt]
  have hall : (v.value.bits.toList.all fun bit => bit = '0' || bit = '1') = true := by
    rw [v.toList_bits_value]
    refine List.all_eq_true.2 fun c hc => ?_
    rcases hbinary c hc with rfl | rfl <;> rfl
  rw [knownU64, hknown, decide_eq_false v.bits_value_ne, if_neg hlength, hall]
  refine congrArg some ?_
  rw [(KnownVector.mk v.value hknown (by rwa [v.toList_bits_value])).toU64_value]
  show bitsValue v.value.bits.toList % 2 ^ 64 = _
  rw [v.toList_bits_value]
  exact Nat.mod_eq_of_lt ((bitsValue_lt v.bits).trans_le (Nat.pow_le_pow_right two_pos hwidth))

/-- Up to 64 bits a known field is compared as a number. -/
lemma streamFieldMatches_iff (hwidth : v.width ≤ 64) {rule : FieldRule KnownLiteral}
    (hrule : ∀ l ∈ rule.literals, l.bits.length ≤ 64) :
    streamFieldMatches v.value (rule.map KnownLiteral.text) = true ↔
      rule.Satisfied (bitsValue v.bits) := by
  rw [streamFieldMatches.eq_def, knownU64_value hknown hwidth]
  cases rule with
  | exact values =>
      have hvalues : ∀ l ∈ values, literalU64 l.text = some l.toNat := fun l hl =>
        l.literalU64_text (hrule l hl)
      simp only [FieldRule.map, List.any_map, List.any_eq_true, Function.comp_apply,
        decide_eq_true_eq]
      refine exists_congr fun l => and_congr_right fun hl => ?_
      rw [hvalues l hl, Option.some_inj, eq_comm]
  | range first last =>
      simp only [FieldRule.map]
      rw [first.literalU64_text (hrule first (by simp [FieldRule.literals])),
        last.literalU64_text (hrule last (by simp [FieldRule.literals]))]
      simp [FieldRule.Satisfied]
  | mask value mask =>
      simp only [FieldRule.map]
      rw [value.literalU64_text (hrule value (by simp [FieldRule.literals])),
        mask.literalU64_text (hrule mask (by simp [FieldRule.literals]))]
      simp [FieldRule.Satisfied]

/-- The only replacement of a known field is the field. -/
lemma forall_replaces_iff (p : List Char → Prop) :
    (∀ full, Replaces v.bits full → p full) ↔ p v.bits := by
  have hbinary := v.binary_of_known hknown
  have hxz : ∀ c ∈ v.bits, isXZ c = false := by
    intro c hc
    rcases hbinary c hc with rfl | rfl <;> rfl
  constructor
  · intro h
    exact h v.bits (List.forall₂_same.2 fun c hc => ⟨hbinary c hc, Or.inr rfl⟩)
  · intro h full hfull
    rwa [hfull.eq_of_known hxz]

end Known

/-! ### The results -/

section Results

variable (v : BitVector) (rule : FieldRule KnownLiteral)

lemma filterResult_known (hknown : v.value.known = true) :
    streamFieldFilterResult v.value (rule.map KnownLiteral.text) =
      if streamFieldMatches v.value (rule.map KnownLiteral.text) then .matched else .noMatch := by
  rw [streamFieldFilterResult.eq_def, if_neg v.bits_value_ne, if_pos hknown]

lemma filterResult_masked (hknown : v.value.known = false) (value mask : KnownLiteral) :
    streamFieldFilterResult v.value ((FieldRule.mask value mask).map KnownLiteral.text) =
      maskLoop v.bits value.bits mask.bits 0
        (max v.width (max value.bits.length mask.bits.length)) := by
  rw [streamFieldFilterResult.eq_def, if_neg v.bits_value_ne, hknown, if_neg Bool.false_ne_true]
  simp only [FieldRule.map, value.read, mask.read, value.known, mask.known,
    ← String.length_toList, v.toList_bits_value]
  rfl

/-- A rule with a mask compares the selected bits. -/
lemma satisfied_mask_iff (value mask : KnownLiteral) (full : List Char) :
    (FieldRule.mask value mask).Satisfied (bitsValue full) ↔
      ∀ i, lsbBit mask.bits i '0' = '1' →
        (lsbBit full i '0' = '1' ↔ lsbBit value.bits i '0' = '1') := by
  rw [FieldRule.Satisfied, land_eq_iff]
  refine forall_congr' fun i => ?_
  rw [KnownLiteral.toNat, KnownLiteral.toNat, testBit_bitsValue, testBit_bitsValue,
    testBit_bitsValue, decide_eq_true_eq, decide_eq_decide]

lemma KnownLiteral.lsbBit_binary (l : KnownLiteral) (i : ℕ) :
    lsbBit l.bits i '0' = '0' ∨ lsbBit l.bits i '0' = '1' := by
  rcases lsbBit_mem_or l.bits i '0' with hmem | hfill
  · exact l.binary _ hmem
  · exact Or.inl hfill

lemma lsbBit_binary_of_known {i : ℕ} (h : isXZ (lsbBit v.bits i '0') = false) :
    lsbBit v.bits i '0' = '0' ∨ lsbBit v.bits i '0' = '1' := by
  by_contra hnot
  rw [not_or, ← ne_eq, ← ne_eq, isXZ_lsbBit_iff v.isXZ_or, h] at hnot
  cases hnot

lemma eq_iff_of_binary {a b : Char} (ha : a = '0' ∨ a = '1') (hb : b = '0' ∨ b = '1') :
    (a = '1' ↔ b = '1') ↔ a = b := by
  rcases ha with rfl | rfl
  all_goals rcases hb with rfl | rfl
  all_goals decide

/-- Every selected bit agrees exactly if every replacement satisfies the rule. -/
lemma forall_agrees_iff (value mask : KnownLiteral) :
    (∀ i, Agrees v.bits value.bits mask.bits i) ↔ ∀ full, Replaces v.bits full →
      (FieldRule.mask value mask).Satisfied (bitsValue full) := by
  simp only [satisfied_mask_iff]
  constructor
  · intro hall full hfull i hmask
    obtain ⟨hxz, heq⟩ := hall i hmask
    rw [hfull.lsbBit_eq hxz, heq]
  · intro hall i hmask
    have hxz : isXZ (lsbBit v.bits i '0') = false := by
      rw [← Bool.not_eq_true]
      intro hxz
      -- the unknown bit can be replaced by the bit that is not expected
      rcases value.lsbBit_binary i with hzero | hone
      · have h := hall _ (replaces_replaceWith (Or.inr rfl) v.isXZ_or) i hmask
        rw [lsbBit_replaceWith hxz, hzero] at h
        exact absurd (h.1 rfl) (by decide)
      · have h := hall _ (replaces_replaceWith (Or.inl rfl) v.isXZ_or) i hmask
        rw [lsbBit_replaceWith hxz, hone] at h
        exact absurd (h.2 rfl) (by decide)
    have hreplaced := replaces_replaceWith (d := '0') (Or.inl rfl) v.isXZ_or
    have h := hall _ hreplaced i hmask
    rw [hreplaced.lsbBit_eq hxz,
      eq_iff_of_binary (lsbBit_binary_of_known v hxz) (value.lsbBit_binary i)] at h
    exact ⟨hxz, h⟩

/-- A bit that the mask selects is below the width of the loop. -/
lemma lt_of_selected {mask : List Char} {i : ℕ} (h : lsbBit mask i '0' = '1') : i < mask.length := by
  by_contra hi
  rw [lsbBit_of_le (Nat.not_lt.1 hi)] at h
  exact absurd h (by decide)

lemma filterResult_masked_iff (hknown : v.value.known = false) (value mask : KnownLiteral) :
    (streamFieldFilterResult v.value ((FieldRule.mask value mask).map KnownLiteral.text) =
        .matched ↔ ∀ full, Replaces v.bits full →
          (FieldRule.mask value mask).Satisfied (bitsValue full)) ∧
      (streamFieldFilterResult v.value ((FieldRule.mask value mask).map KnownLiteral.text) =
        .noMatch ↔ DiffersFirst v.bits value.bits mask.bits) := by
  have hlt : ∀ i, lsbBit mask.bits i '0' = '1' →
      i < 0 + max v.width (max value.bits.length mask.bits.length) := by
    intro i hi
    have := lt_of_selected hi
    omega
  rw [filterResult_masked v hknown, maskLoop_eq_matched_iff v.isXZ_or,
    maskLoop_eq_noMatch_iff v.isXZ_or, ← forall_agrees_iff, DiffersFirst]
  constructor
  · constructor
    · intro h i hmask
      exact h i (Nat.zero_le i) (hlt i hmask) hmask
    · intro h i _ _
      exact h i
  · refine exists_congr fun i => ?_
    constructor
    · rintro ⟨-, -, hmask, hxz, hne, hlower⟩
      exact ⟨hmask, hxz, hne, fun lower => hlower lower (Nat.zero_le lower)⟩
    · rintro ⟨hmask, hxz, hne, hlower⟩
      exact ⟨Nat.zero_le i, hlt i hmask, hmask, hxz, hne, fun lower _ => hlower lower⟩

/-- A selected bit that is known and different is different in every replacement. -/
lemma DiffersFirst.not_satisfied {value mask : KnownLiteral}
    (h : DiffersFirst v.bits value.bits mask.bits) {full : List Char} (hfull : Replaces v.bits full) :
    ¬ (FieldRule.mask value mask).Satisfied (bitsValue full) := by
  obtain ⟨i, hmask, hxz, hne, -⟩ := h
  rw [satisfied_mask_iff]
  intro hall
  have hbit := hall i hmask
  rw [hfull.lsbBit_eq hxz,
    eq_iff_of_binary (lsbBit_binary_of_known v hxz) (value.lsbBit_binary i)] at hbit
  exact hne hbit

lemma filterResult_unmasked (hknown : v.value.known = false)
    (hrule : ∀ value mask, rule ≠ .mask value mask) :
    streamFieldFilterResult v.value (rule.map KnownLiteral.text) = .unresolved := by
  rw [streamFieldFilterResult.eq_def, if_neg v.bits_value_ne, hknown, if_neg Bool.false_ne_true]
  cases rule with
  | exact values => rfl
  | range first last => rfl
  | mask value mask => exact absurd rfl (hrule value mask)

/-- The filter judges known fields exactly up to 64 bits. Unknown ones it judges by a mask only, and
then from the low end; what it does decide holds of every replacement. -/
theorem judges : Judges v rule := by
  refine ⟨fun hknown hwidth hrule => ?_, filterResult_unmasked v rule, ?_, ?_⟩
  · rw [forall_replaces_iff hknown fun full => rule.Satisfied (bitsValue full),
      forall_replaces_iff hknown fun full => ¬ rule.Satisfied (bitsValue full),
      ← streamFieldMatches_iff hknown hwidth hrule, filterResult_known v rule hknown]
    cases streamFieldMatches v.value (rule.map KnownLiteral.text) with
    | true => exact ⟨iff_of_true rfl rfl, iff_of_false (by decide) (by decide)⟩
    | false => exact ⟨iff_of_false (by decide) (by decide), iff_of_true rfl (by decide)⟩
  · rintro hknown value mask rfl
    exact filterResult_masked_iff v hknown value mask
  · intro hknown hresult full hfull
    cases rule with
    | mask value mask =>
        exact (((filterResult_masked_iff v hknown value mask).2.1 hresult)).not_satisfied v hfull
    | exact values =>
        rw [filterResult_unmasked v _ hknown fun _ _ h => by cases h] at hresult
        cases hresult
    | range first last =>
        rw [filterResult_unmasked v _ hknown fun _ _ h => by cases h] at hresult
        cases hresult

end Results

/-- The field `1x` of two bits. -/
def oneX : BitVector where
  bits := ['1', 'x']
  nonempty := List.cons_ne_nil _ _
  chars := List.all_eq_true.1 rfl

lemma parseSvLiteral_zero : parseSvLiteral "2'b00" = some { bits := "00", width := 2 } := by
  decide +kernel

def zeroLiteral : KnownLiteral where
  text := "2'b00"
  value := { bits := "00", width := 2 }
  read := parseSvLiteral_zero
  known := rfl

/-- No replacement of `1x` is zero, but the rule for exact values does not judge it. -/
theorem oneX_unresolved : ¬ ∀ (v : BitVector) (rule : FieldRule KnownLiteral),
    (streamFieldFilterResult v.value (rule.map KnownLiteral.text) = .noMatch ↔
      ∀ full, Replaces v.bits full → ¬ rule.Satisfied (bitsValue full)) := by
  intro h
  have hnone : ∀ full, Replaces oneX.bits full →
      ¬ (FieldRule.exact [zeroLiteral]).Satisfied (bitsValue full) := by
    rintro full hfull ⟨l, hl, hvalue⟩
    rw [List.mem_singleton.1 hl] at hvalue
    -- the high bit stays
    have hbit := hfull.lsbBit_eq (i := 1) rfl
    have htest := testBit_bitsValue full 1
    rw [hbit, hvalue] at htest
    revert htest
    decide +kernel
  have hresult := (h oneX (.exact [zeroLiteral])).2 hnone
  revert hresult
  decide +kernel

end XdebugFst.Stream
