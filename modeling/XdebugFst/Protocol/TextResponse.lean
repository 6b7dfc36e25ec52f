import Mathlib
import XdebugFst.Lib.Bytes
import XdebugFst.Lib.Text
import XdebugFst.Event.FieldValues

/-!
# The text of a response

A response is also printed as text. `json_to_xout_value` prints one JSON value: an object that
holds a logic value as its literal, with the leading zeros of hexadecimal digits left out and, when
there are unknown bits, the bits behind the digits. Texts of 4096 bytes and more are cut.

The digits alone do not tell unknown values apart, the bits behind them do: as long as texts are
not cut, equal texts stand for equal bits, with one exception. Decimal digits come from an
accumulator of 128 bits, so that they show the last 128 bits only. Integers are printed as signed
words, also those that are stored as unsigned ones: `xout_separates_iff`.
-/

namespace XdebugFst.Protocol

open Lib Lib.Json XdebugFst.Expr XdebugFst.Event

/-! ### Value objects -/

/-- The parts of a literal. -/
structure LogicLiteral where
  width : List Char
  radix : Char
  body : List Char

/-- `split_logic_literal`. -/
def splitLogicLiteral (text : List Char) : Option LogicLiteral :=
  match text.dropWhile (· ≠ '\'') with
  | _ :: radix :: body =>
      let width := text.takeWhile (· ≠ '\'')
      if width.all Char.isDigit ∧ radix.toLower ∈ ['h', 'b', 'd'] ∧ body ≠ [] then
        some ⟨width, radix.toLower, body⟩
      else none
  | _ => none

/-- `is_value_object`, with the literal of the object. -/
def isValueObject (value : Json) : Option LogicLiteral :=
  if value.contains "known" || value.contains "bits" || value.contains "width" then
    ((value.field? "value").bind string?).bind fun text => splitLogicLiteral text.toList
  else none

/-- `compact_hex_body`. -/
def compactHexBody (body : List Char) : List Char :=
  let digits := body.filter (· ≠ '_')
  if digits = [] then ['0']
  else if digits.all fun c => c = 'x' || c = 'X' then ['x']
  else if digits.all fun c => c = 'z' || c = 'Z' then ['z']
  else
    let stripped := digits.dropWhile (· = '0')
    if stripped = [] then ['0'] else stripped

/-- The groups of four behind the first group, each behind a separator. -/
def laterGroups : List Char → List Char
  | [] => []
  | a :: b :: c :: d :: rest => '_' :: a :: b :: c :: d :: laterGroups rest
  | rest => '_' :: rest

/-- `grouped_bits`. -/
def groupedBits (text : List Char) : List Char :=
  let bits := text.filter (· ≠ '_')
  if bits.length ≤ 4 then bits
  else
    let first := if bits.length % 4 = 0 then 4 else bits.length % 4
    bits.take first ++ laterGroups (bits.drop first)

/-- What stands in front of the bits. -/
def bitsNote : List Char := " bits=".toList

/-- What stands behind a value that decimal digits cannot show. -/
def reasonNote : List Char := " requested=dec reason=X/Z".toList

/-- `logic_value_xout`, for a value object with this literal. -/
def logicValueXout (value : Json) (literal : LogicLiteral) : Except TypeError (List Char) := do
  let out := literal.width ++ '\'' :: literal.radix ::
    (if literal.radix = 'h' then compactHexBody literal.body else literal.body)
  let known ← boolValue value "known" true
  let bits :=
    match (value.field? "bits").bind string? with
    | some bits =>
        if !known && literal.radix = 'h' then bitsNote ++ groupedBits bits.toList else []
    | none => []
  let requested ← if known then pure "" else stringValue value "requested_value_format" ""
  let reason := if !known && requested = "dec" then reasonNote else []
  let reliableWidth :=
    ((value.field? "width").bind integer?).any fun width => 0 < width.bmod (2 ^ 32)
  let unsized :=
    if literal.width = [] && !reliableWidth then " width_unknown".toList else []
  return out ++ bits ++ reason ++ unsized

/-- `is_field_map`. -/
def isFieldMap (value : Json) : Bool :=
  value.isObject && !value.fields.isEmpty && (isValueObject value).isNone &&
    value.fields.all fun field => (isValueObject field.2).isSome

/-! ### Printing -/

def kMaxValueLength : ℕ := 4096

/-- `sanitize_xout_key`: each byte of a character that is not allowed becomes an underscore. -/
def sanitizeXoutKey (key : String) : List Char :=
  let out := key.toList.flatMap fun c =>
    if c.isAlphanum || c = '_' || c = '-' || c = '.' then [c]
    else List.replicate c.utf8Size '_'
  if out = [] then "field".toList else out

/-- The bytes that `sanitize_xout_value` writes for a byte. -/
def sanitizeByte (b : UInt8) : List UInt8 :=
  if b = UInt8.ofNat '\n'.toNat then utf8 ['\\', 'n']
  else if b = UInt8.ofNat '\r'.toNat then utf8 ['\\', 'r']
  else if b = UInt8.ofNat '\t'.toNat then utf8 [' ']
  else [b]

/-- The loop of `sanitize_xout_value`, behind what is written already. -/
def sanitizeLoop (out : List UInt8) : List UInt8 → List UInt8
  | [] => out
  | b :: rest =>
      if kMaxValueLength ≤ (out ++ sanitizeByte b).length then
        out ++ sanitizeByte b ++ utf8 ['.', '.', '.']
      else sanitizeLoop (out ++ sanitizeByte b) rest

/-- `sanitize_xout_value`. -/
def sanitizeXoutValue (text : List UInt8) : List UInt8 := sanitizeLoop [] text

/-- One more cell of `compact_field_map`. -/
def appendCell (out : List Char) (field : String × Json) : Except TypeError (List Char) := do
  match isValueObject field.2 with
  | none => return out
  | some literal =>
      let cell := sanitizeXoutKey field.1 ++ '=' :: (← logicValueXout field.2 literal)
      return (if out = [] then cell else out ++ ' ' :: cell)

/-- `compact_field_map`. The fields of an object are visited in the order of their names. -/
def compactFieldMap (value : Json) : Except TypeError (List Char) :=
  (value.fields.mergeSort fun a b => a.1.toList ≤ b.1.toList).foldlM appendCell []

/-- A signed word of 64 bits in decimal. -/
def longLongText (n : ℤ) : List UInt8 := utf8 (toString (n.bmod (2 ^ 64))).toList

/-- `json_to_xout_value`. The library prints the values that have no form of their own. -/
def jsonToXoutValue (dump : Json → List UInt8) (value : Json) : Except TypeError (List UInt8) :=
  match isValueObject value with
  | some literal => (logicValueXout value literal).map fun text => sanitizeXoutValue (utf8 text)
  | none =>
      if isFieldMap value then
        (compactFieldMap value).map fun text => sanitizeXoutValue (utf8 text)
      else
        match value with
        | .null => .ok []
        | .string text => .ok (sanitizeXoutValue (utf8 text.toList))
        | .bool b => .ok (utf8 (if b then "true" else "false").toList)
        | .integer n => .ok (longLongText n)
        -- an unsigned number is an integer as well, so that the test for it is never reached
        | .unsigned n => .ok (longLongText n)
        | value => .ok (sanitizeXoutValue (dump value))

/-! ### Texts that are not cut -/

def Uncut (text : List UInt8) : Prop := text.length < kMaxValueLength

instance (text : List UInt8) : Decidable (Uncut text) := inferInstanceAs (Decidable (_ < _))

lemma sanitizeLoop_of_uncut {out text : List UInt8} (h : Uncut (sanitizeLoop out text)) :
    sanitizeLoop out text = out ++ text.flatMap sanitizeByte := by
  induction text generalizing out with
  | nil => exact (List.append_nil out).symm
  | cons b rest ih =>
      rw [sanitizeLoop] at h ⊢
      by_cases hfull : kMaxValueLength ≤ (out ++ sanitizeByte b).length
      · -- a text that was cut is long
        rw [if_pos hfull, Uncut, List.length_append] at h
        omega
      · rw [if_neg hfull] at h ⊢
        rw [ih h, List.flatMap_cons, List.append_assoc]

/-- The characters that are printed as they are. -/
def IsPlain (c : Char) : Prop := c ≠ '\n' ∧ c ≠ '\r' ∧ c ≠ '\t'

instance (c : Char) : Decidable (IsPlain c) := inferInstanceAs (Decidable (_ ∧ _))

lemma isPlain_of_isDigit {c : Char} (h : c.isDigit = true) : IsPlain c := by
  refine ⟨?_, ?_, ?_⟩ <;>
  · rintro rfl
    exact absurd h (by decide)

lemma sanitizeXoutValue_of_uncut {text : List Char} (hplain : ∀ c ∈ text, IsPlain c)
    (h : Uncut (sanitizeXoutValue (utf8 text))) : sanitizeXoutValue (utf8 text) = utf8 text := by
  have hbyte {c : Char} (hc : c.toNat < 128) (hnot : ¬ IsPlain c) {b : UInt8}
      (hb : b ∈ utf8 text) : b ≠ UInt8.ofNat c.toNat := by
    rintro rfl
    exact notMem_utf8 hc (fun hmem => hnot (hplain c hmem)) hb
  have hsame : ∀ b ∈ utf8 text, sanitizeByte b = [b] := by
    intro b hb
    rw [sanitizeByte, if_neg (hbyte (by decide) (by decide) hb),
      if_neg (hbyte (by decide) (by decide) hb), if_neg (hbyte (by decide) (by decide) hb)]
  rw [sanitizeXoutValue, sanitizeLoop_of_uncut h, List.nil_append, List.flatMap_congr hsame]
  exact List.flatMap_singleton' _

/-! ### Reading the parts back -/

lemma mem_compactHexBody {body : List Char} {c : Char} (h : c ∈ compactHexBody body) :
    c ∈ body ∨ c ∈ ['0', 'x', 'z'] := by
  rw [compactHexBody] at h
  dsimp only at h
  split_ifs at h
  · exact Or.inr (by rw [List.mem_singleton.1 h]; decide)
  · exact Or.inr (by rw [List.mem_singleton.1 h]; decide)
  · exact Or.inr (by rw [List.mem_singleton.1 h]; decide)
  · exact Or.inr (by rw [List.mem_singleton.1 h]; decide)
  · exact Or.inl (List.mem_filter.1 ((List.dropWhile_sublist _).mem h)).1

lemma fitWidth_length_add (k : ℕ) (digits : List Char) :
    fitWidth (k + digits.length) '0' digits = List.replicate k '0' ++ digits := by
  rw [fitWidth, Nat.add_sub_cancel, Nat.sub_eq_zero_of_le (Nat.le_add_left _ _), List.drop_zero]

/-- Known digits are the stripped digits behind some zeros. -/
lemma fitWidth_compactHexBody {digits : List Char} (hne : digits ≠ [])
    (hdigits : ∀ c ∈ digits, isRadixDigit 'h' c = true ∧ isXZ c = false) :
    fitWidth digits.length '0' (compactHexBody digits) = digits := by
  have hletter {c d : Char} (hc : c ∈ digits)
      (hd : ¬ (isRadixDigit 'h' d = true ∧ isXZ d = false)) : c ≠ d := by
    rintro rfl
    exact hd (hdigits c hc)
  obtain ⟨c, hc⟩ := List.exists_mem_of_ne_nil digits hne
  have hclean : digits.filter (· ≠ '_') = digits :=
    List.filter_eq_self.2 fun d hd => decide_eq_true (hletter hd (by decide))
  have hmixed {d e : Char} (hd : c ≠ d) (he : c ≠ e) :
      ¬ (digits.all fun f => f = d || f = e) = true := by
    intro hall
    have hf := List.all_eq_true.1 hall c hc
    rw [decide_eq_false hd, decide_eq_false he] at hf
    cases hf
  have hnotx := hmixed (hletter (d := 'x') hc (by decide)) (hletter (d := 'X') hc (by decide))
  have hnotz := hmixed (hletter (d := 'z') hc (by decide)) (hletter (d := 'Z') hc (by decide))
  -- what is stripped are zeros
  obtain ⟨k, hk⟩ : ∃ k, digits.takeWhile (· = '0') = List.replicate k '0' :=
    ⟨_, List.eq_replicate_of_mem fun d hd => by simpa using List.mem_takeWhile_imp hd⟩
  have hsplit : List.replicate k '0' ++ digits.dropWhile (· = '0') = digits := by
    rw [← hk, List.takeWhile_append_dropWhile]
  rw [compactHexBody]
  simp only [hclean, if_neg hne, if_neg hnotx, if_neg hnotz]
  by_cases hstripped : digits.dropWhile (· = '0') = []
  · rw [hstripped, List.append_nil] at hsplit
    obtain ⟨n, rfl⟩ : ∃ n, k = n + 1 := Nat.exists_eq_succ_of_ne_zero fun hzero => hne <| by
      rw [← hsplit, hzero, List.replicate_zero]
    rw [if_pos hstripped, ← hsplit, List.length_replicate, List.replicate_succ']
    exact fitWidth_length_add n ['0']
  · rw [if_neg hstripped]
    conv_rhs => rw [← hsplit]
    rw [← fitWidth_length_add, ← List.length_replicate (n := k) (a := '0'), ← List.length_append,
      hsplit]

lemma filter_laterGroups (bits : List Char) :
    (laterGroups bits).filter (· ≠ '_') = bits.filter (· ≠ '_') := by
  induction bits using laterGroups.induct with
  | case1 => rfl
  | case2 a b c d rest ih =>
      rw [laterGroups]
      simp only [List.filter_cons, ih]
      rfl
  | case3 rest hnil hcons =>
      rw [laterGroups]
      · rw [List.filter_cons]
        rfl
      · exact hnil
      · exact hcons

/-- The bits are what is left without the separators. -/
lemma filter_groupedBits {bits : List Char} (h : '_' ∉ bits) :
    (groupedBits bits).filter (· ≠ '_') = bits := by
  have hclean : bits.filter (· ≠ '_') = bits :=
    List.filter_eq_self.2 fun c hc => decide_eq_true fun heq => h (heq ▸ hc)
  rw [groupedBits]
  simp only [hclean]
  split_ifs
  · exact hclean
  · rw [List.filter_append, filter_laterGroups, ← List.filter_append, List.take_append_drop]
    exact hclean
  · rw [List.filter_append, filter_laterGroups, ← List.filter_append, List.take_append_drop]
    exact hclean

/-! ### The text of a value -/

section Object

variable (v : BitVector) (fmt : ValueRenderFormat)

/-- The text that is printed for a value. -/
def xoutText : ValueRenderFormat → List Char
  | .bin => Nat.toDigits 10 v.width ++ '\'' :: 'b' :: v.bits
  | .hex => Nat.toDigits 10 v.width ++ '\'' :: 'h' :: (compactHexBody v.hexText ++
      if v.value.known then [] else bitsNote ++ groupedBits v.bits)
  | .dec =>
      if v.value.known then
        Nat.toDigits 10 v.width ++ '\'' :: 'd' :: Nat.toDigits 10 (bitsValue v.bits % 2 ^ 128)
      else
        Nat.toDigits 10 v.width ++ '\'' :: 'b' :: (v.bits ++ reasonNote)

lemma contains_known_json : (logicValueJson v.value fmt).contains "known" = true := by
  rw [logicValueJson, formatNotes]
  split_ifs <;> rfl

lemma known_json : boolValue (logicValueJson v.value fmt) "known" true = .ok v.value.known := by
  rw [logicValueJson, formatNotes]
  split_ifs <;> rfl

lemma bits_json :
    ((logicValueJson v.value fmt).field? "bits").bind string? = some (String.ofList v.bits) := by
  rw [logicValueJson, formatNotes, if_pos v.bits_value_ne]
  split_ifs <;> rfl

lemma requested_json : stringValue (logicValueJson v.value fmt) "requested_value_format" "" =
    .ok (if fmt = .dec ∧ v.value.known = false then "dec" else "") := by
  rw [logicValueJson, formatNotes, if_pos v.bits_value_ne]
  split_ifs <;> rfl

lemma isValueObject_json : isValueObject (logicValueJson v.value fmt) =
    splitLogicLiteral (valueLiteral v.value fmt).toList := by
  rw [isValueObject, contains_known_json]
  rfl

lemma splitLogicLiteral_text {radix : Char} (hradix : radix ∈ ['h', 'b', 'd'])
    {body : List Char} (hne : body ≠ []) (n : ℕ) :
    splitLogicLiteral (String.ofList (Nat.toDigits 10 n ++ '\'' :: radix :: body)).toList =
      some ⟨Nat.toDigits 10 n, radix, body⟩ := by
  have htick : '\'' ∉ Nat.toDigits 10 n := fun hmem =>
    absurd (isDigit_of_mem_toDigits n _ hmem) (by decide)
  obtain ⟨htake, hdrop⟩ := takeWhile_tick htick (radix :: body)
  have hlower : radix.toLower = radix := by
    simp only [List.mem_cons, List.not_mem_nil, or_false] at hradix
    rcases hradix with rfl | rfl | rfl <;> rfl
  rw [String.toList_ofList, splitLogicLiteral, htake, hdrop]
  simp only [hlower]
  rw [if_pos ⟨List.all_eq_true.2 (isDigit_of_mem_toDigits n), hradix, hne⟩]

/-- What is printed for the object of a value. -/
lemma logicValueXout_json (n : ℕ) (radix : Char) (body : List Char) :
    logicValueXout (logicValueJson v.value fmt) ⟨Nat.toDigits 10 n, radix, body⟩ =
      .ok (Nat.toDigits 10 n ++ '\'' :: radix ::
        ((if radix = 'h' then compactHexBody body else body) ++
          (if v.value.known then [] else
            (if radix = 'h' then bitsNote ++ groupedBits v.bits else []) ++
              if fmt = .dec then reasonNote else []))) := by
  rw [logicValueXout, known_json, bits_json, requested_json]
  cases hknown : v.value.known <;> cases fmt <;> by_cases hradix : radix = 'h' <;>
    simp [hradix, Nat.toDigits_ne_nil, pure, Except.pure, bind, Except.bind]

/-- A value is always printed. -/
lemma jsonToXoutValue_json (dump : Json → List UInt8) :
    jsonToXoutValue dump (logicValueJson v.value fmt) =
      .ok (sanitizeXoutValue (utf8 (xoutText v fmt))) := by
  have hprinted {n : ℕ} {radix : Char} {body : List Char} (hradix : radix ∈ ['h', 'b', 'd'])
      (hne : body ≠ [])
      (hliteral : valueLiteral v.value fmt =
        String.ofList (Nat.toDigits 10 n ++ '\'' :: radix :: body)) :
      jsonToXoutValue dump (logicValueJson v.value fmt) = (logicValueXout
        (logicValueJson v.value fmt) ⟨Nat.toDigits 10 n, radix, body⟩).map
          fun text => sanitizeXoutValue (utf8 text) := by
    unfold jsonToXoutValue
    rw [isValueObject_json, hliteral, splitLogicLiteral_text hradix hne]
  cases fmt with
  | bin =>
      rw [hprinted (by decide) v.nonempty v.svLiteral_binary, logicValueXout_json]
      simp [xoutText, Except.map]
  | hex =>
      rw [hprinted (by decide) (List.cons_ne_nil _ _) v.svLiteral_hexadecimal, logicValueXout_json]
      simp [xoutText, BitVector.hexText, Except.map]
  | dec =>
      by_cases hknown : v.value.known = true
      · have hliteral : valueLiteral v.value .dec = svLiteral v.value 'd' :=
          if_pos ⟨hknown, v.bits_value_ne⟩
        rw [hprinted (by decide) Nat.toDigits_ne_nil (hliteral.trans (v.svLiteral_decimal hknown)),
          logicValueXout_json]
        simp [xoutText, hknown, Except.map]
      · have hliteral : valueLiteral v.value .dec = svLiteral v.value 'b' := by
          rw [valueLiteral, if_neg (fun h => hknown h.1), if_neg hknown]
        rw [hprinted (by decide) v.nonempty (hliteral.trans v.svLiteral_binary),
          logicValueXout_json]
        simp [xoutText, hknown, Except.map]

end Object

lemma isPlain_of_isRadixDigit {c : Char} (h : isRadixDigit 'h' c = true) : IsPlain c := by
  refine ⟨?_, ?_, ?_⟩ <;>
  · rintro rfl
    exact absurd h (by decide)

lemma underscore_notMem_bits (v : BitVector) : '_' ∉ v.bits := fun h =>
  absurd (v.chars _ h) (by decide)

/-- A character of grouped bits. -/
lemma mem_groupedBits {v : BitVector} {c : Char} (h : c ∈ groupedBits v.bits) :
    c ∈ v.bits ∨ c = '_' := by
  by_cases hc : c = '_'
  · exact Or.inr hc
  · rw [← filter_groupedBits (underscore_notMem_bits v)]
    exact Or.inl (List.mem_filter.2 ⟨h, decide_eq_true hc⟩)

lemma isPlain_of_mem_xoutText {v : BitVector} {fmt : ValueRenderFormat} :
    ∀ c ∈ xoutText v fmt, IsPlain c := by
  have hnumber (n : ℕ) : ∀ c ∈ Nat.toDigits 10 n, IsPlain c := fun c hc =>
    isPlain_of_isDigit (isDigit_of_mem_toDigits n c hc)
  have hbits : ∀ c ∈ v.bits, IsPlain c := by
    intro c hc
    rcases fourState_cases v.chars c hc with rfl | rfl | rfl | rfl <;> decide
  have hletters : ∀ c ∈ ['0', 'x', 'z'], IsPlain c := by simp [IsPlain]
  have hdigits : ∀ c ∈ compactHexBody v.hexText, IsPlain c := by
    intro c hc
    rcases mem_compactHexBody hc with hc | hc
    · exact isPlain_of_isRadixDigit (v.hexText_spec.1 c hc)
    · exact hletters c hc
  have hgroups : ∀ c ∈ groupedBits v.bits, IsPlain c := by
    intro c hc
    rcases mem_groupedBits hc with hc | rfl
    · exact hbits c hc
    · decide
  have hbitsNote : ∀ c ∈ bitsNote, IsPlain c := by
    unfold bitsNote
    simp [IsPlain]
  have hreason : ∀ c ∈ reasonNote, IsPlain c := by
    unfold reasonNote
    simp [IsPlain]
  cases fmt with
  | bin =>
      simp only [xoutText, List.forall_mem_append, List.forall_mem_cons]
      exact ⟨hnumber _, by decide, by decide, hbits⟩
  | hex =>
      simp only [xoutText, List.forall_mem_append, List.forall_mem_cons]
      refine ⟨hnumber _, by decide, by decide, hdigits, ?_⟩
      split_ifs
      · exact List.forall_mem_nil _
      · exact List.forall_mem_append.2 ⟨hbitsNote, hgroups⟩
  | dec =>
      rw [xoutText]
      split_ifs
      · simp only [List.forall_mem_append, List.forall_mem_cons]
        exact ⟨hnumber _, by decide, by decide, hnumber _⟩
      · simp only [List.forall_mem_append, List.forall_mem_cons]
        exact ⟨hnumber _, by decide, by decide, hbits, hreason⟩

/-! ### Texts and values -/

section Pairs

variable {v w : BitVector}

/-- The widths and what is behind them. -/
lemma width_inj {a b : List Char}
    (h : Nat.toDigits 10 v.width ++ '\'' :: a = Nat.toDigits 10 w.width ++ '\'' :: b) :
    v.width = w.width ∧ a = b := by
  have htick (n : ℕ) : '\'' ∉ Nat.toDigits 10 n := fun hmem =>
    absurd (isDigit_of_mem_toDigits n _ hmem) (by decide)
  obtain ⟨hwidth, hrest⟩ := append_separator_inj_of_notMem (htick _) (htick _) h
  refine ⟨?_, hrest⟩
  have hvalue := congrArg digitsValue hwidth
  rwa [digitsValue_toDigits, digitsValue_toDigits] at hvalue

/-- The digits of known bits, also without the leading zeros. -/
lemma bits_eq_of_compactHexBody (hv : v.value.known = true) (hw : w.value.known = true)
    (hwidth : v.width = w.width) (h : compactHexBody v.hexText = compactHexBody w.hexText) :
    v.bits = w.bits := by
  obtain ⟨hvdigits, hvbits⟩ := v.hexText_known (v.binary_of_known hv)
  obtain ⟨hwdigits, hwbits⟩ := w.hexText_known (w.binary_of_known hw)
  have hfirst : v.firstNibble = w.firstNibble := by
    rw [BitVector.firstNibble, BitVector.firstNibble, hwidth]
  have hsize : v.bits.length = w.bits.length := hwidth
  have hlength : v.hexText.length = w.hexText.length := by
    rw [BitVector.hexText, BitVector.hexText, List.length_cons, List.length_cons,
      length_hexDigits, length_hexDigits, List.length_drop, List.length_drop, hsize, hfirst]
  have hne (u : BitVector) : u.hexText ≠ [] := List.cons_ne_nil _ _
  have htext : v.hexText = w.hexText := by
    rw [← fitWidth_compactHexBody (hne v) hvdigits, h, hlength]
    exact fitWidth_compactHexBody (hne w) hwdigits
  rw [htext, hwbits, List.length_take, List.length_take, hsize, hfirst] at hvbits
  exact (List.append_cancel_left hvbits).symm

lemma bitsNote_eq : bitsNote = ' ' :: ['b', 'i', 't', 's', '='] := by
  unfold bitsNote
  simp

lemma xoutText_hex_inj (h : xoutText v .hex = xoutText w .hex) : v.bits = w.bits := by
  obtain ⟨hwidth, hrest⟩ := width_inj h
  have htext := (List.cons.inj hrest).2
  have hspace (u : BitVector) : ' ' ∉ compactHexBody u.hexText := by
    intro hmem
    rcases mem_compactHexBody hmem with hc | hc
    · exact absurd (u.hexText_spec.1 _ hc) (by decide)
    · exact absurd hc (by decide)
  cases hv : v.value.known <;> cases hw : w.value.known
  · -- the bits stand behind the first space
    rw [hv, hw] at htext
    rw [if_neg Bool.false_ne_true, if_neg Bool.false_ne_true, bitsNote_eq] at htext
    have hbits := (append_separator_inj_of_notMem (hspace v) (hspace w) htext).2
    have hgroups : groupedBits v.bits = groupedBits w.bits := List.append_cancel_left hbits
    rw [← filter_groupedBits (underscore_notMem_bits v), hgroups,
      filter_groupedBits (underscore_notMem_bits w)]
  · rw [hv, hw, if_pos rfl, List.append_nil] at htext
    rw [if_neg Bool.false_ne_true, bitsNote_eq] at htext
    exact absurd (htext ▸ List.mem_append_right _ List.mem_cons_self) (hspace w)
  · rw [hv, hw, if_pos rfl, List.append_nil] at htext
    rw [if_neg Bool.false_ne_true, bitsNote_eq] at htext
    exact absurd (htext ▸ List.mem_append_right _ List.mem_cons_self) (hspace v)
  · rw [hv, hw, if_pos rfl, if_pos rfl, List.append_nil, List.append_nil] at htext
    exact bits_eq_of_compactHexBody hv hw hwidth htext

lemma xoutText_bin_inj (h : xoutText v .bin = xoutText w .bin) : v.bits = w.bits :=
  (List.cons.inj (width_inj h).2).2

/-- The last bits of two bit strings of one length, as numbers. -/
lemma rtake_eq_rtake_iff {a b : List Char} (ha : ∀ c ∈ a, c = '0' ∨ c = '1')
    (hb : ∀ c ∈ b, c = '0' ∨ c = '1') (hlength : a.length = b.length) (n : ℕ) :
    a.rtake n = b.rtake n ↔ bitsValue a % 2 ^ n = bitsValue b % 2 ^ n := by
  have hfit {l : List Char} (hl : ∀ c ∈ l, c = '0' ∨ c = '1') :
      List.replicate (n - l.length) '0' ++ l.rtake n = lowBits n (bitsValue l) := by
    rw [← fitWidth_lowBits n (bitsValue_lt l), ← eq_lowBits hl]
    rfl
  constructor
  · intro h
    have hlow : lowBits n (bitsValue a) = lowBits n (bitsValue b) := by
      rw [← hfit ha, ← hfit hb, hlength, h]
    rw [← bitsValue_lowBits, hlow, bitsValue_lowBits]
  · intro h
    have hlow : lowBits n (bitsValue a) = lowBits n (bitsValue b) :=
      (lowBits_eq_iff n _ _).2 fun i hi => by
        have hbit := congrArg (Nat.testBit · i) h
        simpa [Nat.testBit_mod_two_pow, hi] using hbit
    rw [← hfit ha, ← hfit hb, hlength] at hlow
    exact List.append_cancel_left hlow

/-- Two different known values of one width whose last 128 bits are the same, in decimal. -/
def DecimalCollision (fmt : ValueRenderFormat) (v w : BitVector) : Prop :=
  fmt = .dec ∧ v.value.known = true ∧ w.value.known = true ∧ v.width = w.width ∧
    v.bits.rtake 128 = w.bits.rtake 128 ∧ v.bits ≠ w.bits

instance (fmt : ValueRenderFormat) (v w : BitVector) : Decidable (DecimalCollision fmt v w) :=
  inferInstanceAs (Decidable (_ ∧ _))

/-- The decimal texts of known values show the width and the last 128 bits. -/
lemma xoutText_dec_eq_iff (hv : v.value.known = true) (hw : w.value.known = true) :
    xoutText v .dec = xoutText w .dec ↔
      v.width = w.width ∧ v.bits.rtake 128 = w.bits.rtake 128 := by
  have hlast (hwidth : v.width = w.width) := rtake_eq_rtake_iff (v.binary_of_known hv)
    (w.binary_of_known hw) hwidth 128
  rw [xoutText, xoutText, if_pos hv, if_pos hw]
  constructor
  · intro h
    obtain ⟨hwidth, hrest⟩ := width_inj h
    have hvalue := congrArg digitsValue (List.cons.inj hrest).2
    rw [digitsValue_toDigits, digitsValue_toDigits] at hvalue
    exact ⟨hwidth, (hlast hwidth).2 hvalue⟩
  · rintro ⟨hwidth, h⟩
    rw [hwidth, (hlast hwidth).1 h]

/-- Decimal texts stand for one value unless they collide. -/
lemma xoutText_dec_inj (hcollision : ¬ DecimalCollision .dec v w)
    (h : xoutText v .dec = xoutText w .dec) : v.bits = w.bits := by
  by_cases hv : v.value.known = true <;> by_cases hw : w.value.known = true
  · obtain ⟨hwidth, hlast⟩ := (xoutText_dec_eq_iff hv hw).1 h
    by_contra hne
    exact hcollision ⟨rfl, hv, hw, hwidth, hlast, hne⟩
  · rw [xoutText, xoutText, if_pos hv, if_neg hw] at h
    exact absurd (List.cons.inj (width_inj h).2).1 (by decide)
  · rw [xoutText, xoutText, if_neg hv, if_pos hw] at h
    exact absurd (List.cons.inj (width_inj h).2).1 (by decide)
  · rw [xoutText, xoutText, if_neg hv, if_neg hw] at h
    exact List.append_cancel_right (List.cons.inj (width_inj h).2).2

lemma xoutText_inj_iff (fmt : ValueRenderFormat) :
    (xoutText v fmt = xoutText w fmt → v.bits = w.bits) ↔ ¬ DecimalCollision fmt v w := by
  constructor
  · rintro h ⟨rfl, hv, hw, hwidth, hlast, hne⟩
    exact hne (h ((xoutText_dec_eq_iff hv hw).2 ⟨hwidth, hlast⟩))
  · intro hcollision h
    cases fmt with
    | bin => exact xoutText_bin_inj h
    | hex => exact xoutText_hex_inj h
    | dec => exact xoutText_dec_inj hcollision h

end Pairs

/-! ### Integers -/

/-- A JSON value stores an integer of 64 bits, signed or unsigned. -/
def Stores : Json → ℤ → Prop
  | .integer m, n => n = m ∧ -2 ^ 63 ≤ m ∧ m < 2 ^ 63
  | .unsigned m, n => n = m ∧ m < 2 ^ 64
  | _, _ => False

lemma jsonToXoutValue_of_stores (dump : Json → List UInt8) {value : Json} {n : ℤ}
    (h : Stores value n) : jsonToXoutValue dump value = .ok (longLongText n) ∧
      -2 ^ 63 ≤ n ∧ n < 2 ^ 64 := by
  cases value with
  | integer m =>
      obtain ⟨rfl, hlow, hhigh⟩ := h
      exact ⟨rfl, hlow, hhigh.trans (by decide)⟩
  | unsigned m =>
      obtain ⟨rfl, hhigh⟩ := h
      exact ⟨rfl, by omega, by exact_mod_cast hhigh⟩
  | _ => exact h.elim

lemma longLongText_eq_iff {n m : ℤ} :
    longLongText n = longLongText m ↔ n.bmod (2 ^ 64) = m.bmod (2 ^ 64) := by
  constructor
  · intro h
    have htext := congrArg atoi (utf8_injective h)
    rwa [atoi_toString, atoi_toString] at htext
  · intro h
    rw [longLongText, h, longLongText]

/-- Words of 64 bits are the same for integers that are `2 ^ 64` apart. -/
lemma bmod_eq_bmod_iff {n m : ℤ} (hn : -2 ^ 63 ≤ n ∧ n < 2 ^ 64) (hm : -2 ^ 63 ≤ m ∧ m < 2 ^ 64) :
    n.bmod (2 ^ 64) = m.bmod (2 ^ 64) ↔ n = m ∨ n = m + 2 ^ 64 ∨ m = n + 2 ^ 64 := by
  rw [Int.bmod, Int.bmod]
  simp only [Nat.cast_pow, Nat.cast_ofNat]
  split_ifs <;> omega

/-- Texts that are not cut separate bit vectors unless decimal digits drop the bits that differ, and
texts separate integers unless these are `2 ^ 64` apart. -/
theorem xout_separates_iff (dump : Json → List UInt8) :
    (∀ (fmt : ValueRenderFormat) (v w : BitVector), ∃ a b,
      jsonToXoutValue dump (logicValueJson v.value fmt) = .ok a ∧
      jsonToXoutValue dump (logicValueJson w.value fmt) = .ok b ∧
      (Uncut a → Uncut b → ((a = b → v.bits = w.bits) ↔ ¬ DecimalCollision fmt v w))) ∧
    ∀ (p q : Json) (n m : ℤ), Stores p n → Stores q m → ∃ a b,
      jsonToXoutValue dump p = .ok a ∧ jsonToXoutValue dump q = .ok b ∧
      ((a = b → n = m) ↔ n ≠ m + 2 ^ 64 ∧ m ≠ n + 2 ^ 64) := by
  constructor
  · intro fmt v w
    refine ⟨_, _, jsonToXoutValue_json v fmt dump, jsonToXoutValue_json w fmt dump,
      fun hv hw => ?_⟩
    rw [sanitizeXoutValue_of_uncut isPlain_of_mem_xoutText hv,
      sanitizeXoutValue_of_uncut isPlain_of_mem_xoutText hw, utf8_injective.eq_iff]
    exact xoutText_inj_iff fmt
  · intro p q n m hp hq
    obtain ⟨hprinted, hn⟩ := jsonToXoutValue_of_stores dump hp
    obtain ⟨hprinted', hm⟩ := jsonToXoutValue_of_stores dump hq
    refine ⟨_, _, hprinted, hprinted', ?_⟩
    rw [longLongText_eq_iff, bmod_eq_bmod_iff hn hm]
    omega

/-- A number of 129 bits. -/
def wideNumber (value : ℕ) : BitVector where
  bits := lowBits 129 value
  nonempty := lowBits_ne_nil _ _
  chars := isRadixDigit_of_mem_lowBits _ _

lemma known_wideNumber (value : ℕ) : (wideNumber value).value.known = true := by
  have hbits : (wideNumber value).bits.any isXZ = false := by
    rw [List.any_eq_false]
    intro c hc
    rcases lowBits_chars hc with rfl | rfl <;> decide
  rw [BitVector.value, known_logicValueFromBits_eq (wideNumber value).isXZ_or, hbits]
  rfl

/-- `2 ^ 128` and `0` are both printed as `129'd0`, and `2 ^ 63` is printed as `-2 ^ 63` is. -/
theorem xout_not_separated :
    (¬ ∀ (dump : Json → List UInt8) (fmt : ValueRenderFormat) (v w : BitVector) (text : List UInt8),
      jsonToXoutValue dump (logicValueJson v.value fmt) = .ok text →
      jsonToXoutValue dump (logicValueJson w.value fmt) = .ok text → Uncut text →
        v.bits = w.bits) ∧
    ¬ ∀ (dump : Json → List UInt8) (p q : Json) (n m : ℤ), Stores p n → Stores q m →
      jsonToXoutValue dump p = jsonToXoutValue dump q → n = m := by
  constructor
  · intro h
    have htext : xoutText (wideNumber (2 ^ 128)) .dec = xoutText (wideNumber 0) .dec :=
      (xoutText_dec_eq_iff (known_wideNumber _) (known_wideNumber _)).2
        ⟨by decide +kernel, by decide +kernel⟩
    have huncut : Uncut (sanitizeXoutValue (utf8 (xoutText (wideNumber 0) .dec))) := by
      rw [xoutText, if_pos (known_wideNumber 0)]
      decide +kernel
    have hprinted := jsonToXoutValue_json (wideNumber (2 ^ 128)) .dec fun _ => []
    rw [htext] at hprinted
    have hbits := h (fun _ => []) .dec (wideNumber (2 ^ 128)) (wideNumber 0) _ hprinted
      (jsonToXoutValue_json _ _ _) huncut
    exact absurd hbits (by decide +kernel)
  · intro h
    have htext : longLongText (2 ^ 63) = longLongText (-2 ^ 63) :=
      longLongText_eq_iff.2 (by norm_num [Int.bmod])
    have hnumber := h (fun _ => []) (.unsigned (2 ^ 63)) (.integer (-2 ^ 63)) (2 ^ 63) (-2 ^ 63)
      ⟨by norm_num, by norm_num⟩ ⟨rfl, le_rfl, by norm_num⟩ (congrArg Except.ok htext)
    exact absurd hnumber (by norm_num)

end XdebugFst.Protocol
