import Mathlib
import XdebugFst.Lib.Json
import XdebugFst.Event.Bind
import XdebugFst.Expr.HexDigits

/-!
# The fields of an event

When an event is found, `event.find` reports the values of the signals and of the fields of its
config. A signal is rendered in the requested format, and a field is cut out of the rendered
literal, which is read again. The expression sees the bits of the same slice, but it takes them
from the sample.

`formatIndependent_iff` says when the two are the same in every format: the sample has only the
letters that literals have, a decimal literal fits into 64 bits, the bounds are descending and in
range, and the hexadecimal digits of the field show its bits.
-/

namespace XdebugFst.Event

open Lib Waveform XdebugFst.Expr

/-! ### Rendering -/

/-- `ValueRenderFormat`. -/
inductive ValueRenderFormat
  | hex | bin | dec
  deriving DecidableEq, Repr

/-- The literal that `logic_value_json` shows. -/
def valueLiteral (v : LogicValue) : ValueRenderFormat → String
  | .bin => svLiteral v 'b'
  | .hex => svLiteral v 'h'
  | .dec =>
      if v.known ∧ v.bits ≠ "" then svLiteral v 'd'
      -- decimal digits cannot show unknown bits
      else if v.known then svLiteral v 'h' else svLiteral v 'b'

/-- The fields that `logic_value_json` adds when it does not use the decimal format. -/
def formatNotes (v : LogicValue) (fmt : ValueRenderFormat) : List (String × Json) :=
  if fmt = .dec ∧ v.known = false then
    [("requested_value_format", .string "dec"), ("effective_value_format", .string "bin"),
      ("value_format_reason", .string "decimal cannot preserve per-bit X/Z")]
  else []

/-- `logic_value_json`. -/
def logicValueJson (v : LogicValue) (fmt : ValueRenderFormat) : Json :=
  let width : List (String × Json) := if 0 < v.width then [("width", .integer v.width)] else []
  let bits : List (String × Json) := if v.bits ≠ "" then [("bits", .string v.bits)] else []
  let unknown : List (String × Json) :=
    if v.known then [] else [("has_x", .bool v.hasX), ("has_z", .bool v.hasZ)]
  .object (("value", .string (valueLiteral v fmt)) :: (formatNotes v fmt ++
    ("known", .bool v.known) :: (width ++ (bits ++ unknown))))

/-- `render_value_json`. -/
def renderValueJson (bits : String) (width : ℕ) (fmt : ValueRenderFormat) : Json :=
  logicValueJson (logicValueFromBits bits width) fmt

/-- `render_typed_value_json`, with `std::to_string` of a number. -/
def renderTypedValueJson (realText : String → String) (value : WaveformValue) (width : ℕ)
    (fmt : ValueRenderFormat) : Json :=
  match value.kind with
  | .bitVector => renderValueJson value.text width fmt
  | .real => .object [("value", .string (realText value.real)), ("known", .bool true)]
  | .event => .object [("value", .string "event"), ("known", .bool true)]
  | .string => .object [("value", .string value.text), ("known", .bool true)]

/-- The loop over the bits of a field, from `left` down to `right`. -/
def cutBits (bits : List Char) (left right : ℤ) : List Char :=
  (List.range (left - right + 1).toNat).map fun k : ℕ =>
    let index : ℤ := bits.length - 1 - (left - k)
    if 0 ≤ index ∧ index < bits.length then bits.getD index.toNat '0' else '0'

section Row

variable (realText : String → String) (wf : Backend) (timeIdx : ℕ) (point : ObservationPoint)
  (config : EventConfig) (fmt : ValueRenderFormat)

/-- The value of a signal at an event. A signal without a value there is left as it was
initialised. -/
def signalJson (path : String) : Json :=
  let ref := wf.findSignal path
  let value := ((wf.sampledValueAt ref timeIdx point).map SampledValue.value).getD {}
  renderTypedValueJson realText value (((wf.signal ref).map SignalData.width).getD 0) fmt

/-- The value of a field at an event, from the literal of its signal. There is none when the
literal is not read. -/
def fieldJson (field : EventField) : Option Json :=
  let value := ((signalJson realText wf timeIdx point fmt (config.path field)).field? "value").bind
    Json.string?
  ((value.bind parseSvLiteral).map fun logic =>
    let bits := cutBits logic.bits.toList field.left field.right
    renderValueJson (String.ofList bits) bits.length fmt)

/-- The values of the fields at an event. -/
def fieldValues : List (String × Json) :=
  config.fields.entries.filterMap fun entry =>
    (fieldJson realText wf timeIdx point config fmt entry.2).map fun json => (entry.1, json)

/-- The bits that are reported for a field. -/
def reportedBits (name : String) : Option String :=
  ((fieldValues realText wf timeIdx point config fmt).lookup name).map fun json =>
    ((json.field? "bits").bind Json.string?).getD ""

end Row

lemma bits_renderValueJson (bits : String) (width : ℕ) (fmt : ValueRenderFormat) :
    (((renderValueJson bits width fmt).field? "bits").bind Json.string?).getD "" = bits := by
  have hbits : (logicValueFromBits bits width).bits = bits := rfl
  by_cases hempty : bits = ""
  · rw [renderValueJson, logicValueJson, formatNotes, hbits, if_neg (not_not.2 hempty), hempty]
    split_ifs <;> rfl
  · rw [renderValueJson, logicValueJson, formatNotes, hbits, if_pos hempty]
    split_ifs <;> rfl

lemma value_renderValueJson (bits : String) (width : ℕ) (fmt : ValueRenderFormat) :
    ((renderValueJson bits width fmt).field? "value").bind Json.string? =
      some (valueLiteral (logicValueFromBits bits width) fmt) := rfl

/-! ### Slices of the bits -/

/-- The bounds of a field are descending and in range, or out of range in both readings. -/
def BoundsAgree (n : ℕ) (left right : ℤ) : Prop :=
  (0 ≤ right ∧ right ≤ left ∧ left < n) ∨ (left < right ∧ (right < 0 ∨ n ≤ left))

instance (n : ℕ) (left right : ℤ) : Decidable (BoundsAgree n left right) :=
  inferInstanceAs (Decidable (_ ∨ _))

lemma length_cutBits (bits : List Char) (left right : ℤ) :
    (cutBits bits left right).length = (left - right + 1).toNat := by
  rw [cutBits, List.length_map, List.length_range]

/-- The loop reads the same bits as the evaluator exactly if the bounds allow it. -/
lemma cutBits_eq_sliceBits_iff {bits : List Char} (hne : bits ≠ []) (left right : ℤ) :
    cutBits bits left right = (sliceBits bits left right).1 ↔
      BoundsAgree bits.length left right := by
  have hpos := List.length_pos_iff.2 hne
  constructor
  · intro h
    have hlength := congrArg List.length h
    have hslice : (sliceBits bits left right).1.length =
        (min (max left right) (bits.length - 1) - max (min left right) 0 + 1).toNat :=
      length_sliceBits bits left right
    rw [length_cutBits, hslice] at hlength
    rw [BoundsAgree]
    omega
  · rintro (⟨hlow, hdesc, hhigh⟩ | ⟨hasc, hrange⟩)
    · have hhi : min (max left right) ((bits.length : ℤ) - 1) = left := by omega
      have hlo : max (min left right) 0 = right := by omega
      rw [cutBits, sliceBits]
      dsimp only
      rw [hhi, hlo]
    · have hempty : (sliceBits bits left right).1.length = 0 := by
        rw [length_sliceBits]
        show (min (max left right) ((bits.length : ℤ) - 1) - max (min left right) 0 + 1).toNat = 0
        omega
      have hcut : (cutBits bits left right).length = 0 := by
        rw [length_cutBits]
        omega
      rw [List.length_eq_zero_iff.1 hempty, List.length_eq_zero_iff.1 hcut]

/-- The bits in the order of their indices. -/
lemma cutBits_eq_map {bits : List Char} {left right : ℤ} (hlow : 0 ≤ right)
    (hhigh : left < bits.length) : cutBits bits left right =
      (List.range (left - right + 1).toNat).map fun k : ℕ =>
        bits.reverse.getD (left - k).toNat '0' := by
  refine List.map_congr_left fun k hk => ?_
  rw [List.mem_range] at hk
  have hindex : 0 ≤ (bits.length : ℤ) - 1 - (left - k) ∧
      (bits.length : ℤ) - 1 - (left - k) < bits.length := by omega
  have hlt : (left - (k : ℤ)).toNat < bits.reverse.length := by
    rw [List.length_reverse]
    omega
  have hpos : ((bits.length : ℤ) - 1 - (left - k)).toNat =
      bits.length - 1 - (left - (k : ℤ)).toNat := by omega
  dsimp only
  rw [if_pos hindex, List.getD_eq_getElem _ _ hlt, List.getElem_reverse, hpos,
    List.getD_eq_getElem]

/-- The four bits that share a hexadecimal digit with a bit. -/
def bitGroup (text : List Char) (j : ℕ) : List Char := (text.reverse.drop (4 * (j / 4))).take 4

/-- The digit shows the bit: with an unknown bit in its group it is unknown in the same way. -/
def KeepsBit (text : List Char) (j : ℕ) : Prop :=
  ('x' ∈ bitGroup text j → text.reverse.getD j '0' = 'x') ∧
    ('x' ∉ bitGroup text j → 'z' ∈ bitGroup text j → text.reverse.getD j '0' = 'z')

instance (text : List Char) (j : ℕ) : Decidable (KeepsBit text j) :=
  inferInstanceAs (Decidable (_ ∧ _))

lemma shownBit_eq_self_iff (group : List Char) (c : Char) :
    shownBit group c = c ↔ ('x' ∈ group → c = 'x') ∧ ('x' ∉ group → 'z' ∈ group → c = 'z') := by
  rw [shownBit]
  split_ifs with hx hz
  · simp [hx, eq_comm]
  · simp [hx, hz, eq_comm]
  · simp [hx, hz]

/-- The hexadecimal digits keep a slice exactly if they keep each of its bits. -/
lemma cutBits_hexShown_iff {text : List Char} {left right : ℤ} (hlow : 0 ≤ right)
    (hhigh : left < text.length) :
    cutBits (hexShown text.reverse).reverse left right = cutBits text left right ↔
      ∀ j : ℕ, right ≤ j → j ≤ left → KeepsBit text j := by
  have hlength : (hexShown text.reverse).reverse.length = text.length := by
    rw [List.length_reverse, length_hexShown, List.length_reverse]
  have hbit : ∀ j : ℕ, j ≤ left → ((hexShown text.reverse).getD j '0' = text.reverse.getD j '0' ↔
      KeepsBit text j) := by
    intro j hj
    have hlt : j < text.reverse.length := by
      rw [List.length_reverse]
      omega
    have hlt' : j < (hexShown text.reverse).length := by rwa [length_hexShown]
    rw [KeepsBit, ← shownBit_eq_self_iff, List.getD_eq_getElem _ _ hlt',
      List.getD_eq_getElem _ _ hlt, getElem_hexShown hlt]
    rfl
  rw [cutBits_eq_map hlow (by rwa [hlength]), cutBits_eq_map hlow hhigh, List.reverse_reverse,
    List.map_inj_left]
  constructor
  · intro h j hright hleft
    have hk := h (left - j).toNat (List.mem_range.2 (by omega))
    have hj : (left - ((left - (j : ℤ)).toNat : ℤ)).toNat = j := by omega
    rw [hj] at hk
    exact (hbit j hleft).1 hk
  · intro h k hk
    rw [List.mem_range] at hk
    exact (hbit _ (by omega)).2 (h _ (by omega) (by omega))

/-! ### Literals of a sample -/

/-- The letters of a waveform. -/
def stateLetters : List Char := ['0', '1', 'x', 'z', 'h', 'u', 'w', 'l', '-']

/-- The bits of the literal that shows a sample, when the literal is read again. -/
def literalBits (text : List Char) (fmt : ValueRenderFormat) : Option (List Char) :=
  (parseSvLiteral (valueLiteral (logicValueFromBits (String.ofList text) text.length) fmt)).map
    (·.bits.toList)

/-- What is read of a binary literal. -/
lemma parseSvLiteral_bin_text {digits : List Char} (hdigits : cleanText digits = digits) (n : ℕ) :
    parseSvLiteral (String.ofList (Nat.toDigits 10 n ++ '\'' :: 'b' :: digits)) =
      parseSvRadix n ('b' :: digits) := by
  have hclean : cleanText (Nat.toDigits 10 n ++ '\'' :: 'b' :: digits) =
      Nat.toDigits 10 n ++ '\'' :: 'b' :: digits := by
    rw [cleanText_append, cleanText_digits (isDigit_of_mem_toDigits n)]
    refine congrArg _ ?_
    show '\'' :: 'b' :: cleanText digits = _
    rw [hdigits]
  have htick : '\'' ∉ Nat.toDigits 10 n := fun hmem =>
    absurd (isDigit_of_mem_toDigits n _ hmem) (by decide)
  obtain ⟨htake, hdrop⟩ := takeWhile_tick htick ('b' :: digits)
  rw [parseSvLiteral, String.toList_ofList]
  simp only [hclean]
  rw [htake, hdrop, if_neg (by simp)]
  dsimp only
  rw [if_pos (List.all_eq_true.2 (isDigit_of_mem_toDigits n)),
    atoi_digits (isDigit_of_mem_toDigits n), digitsValue_toDigits]

lemma cleanText_stateLetters {text : List Char} (h : ∀ c ∈ text, c ∈ stateLetters) :
    cleanText text = text := by
  have hkept : ∀ d ∈ stateLetters, d.toLower = d ∧ d ≠ '_' := by
    intro d hd
    simp only [stateLetters, List.mem_cons, List.not_mem_nil, or_false] at hd
    rcases hd with rfl | rfl | rfl | rfl | rfl | rfl | rfl | rfl | rfl <;> exact ⟨rfl, by decide⟩
  rw [cleanText, (List.map_congr_left fun d hd => (hkept d (h d hd)).1).trans (List.map_id text)]
  exact List.filter_eq_self.2 fun d hd => decide_eq_true (hkept d (h d hd)).2

/-- The binary literal of a value. -/
lemma svLiteral_bin (text : List Char) {n : ℕ} (hn : 0 < n) :
    svLiteral (logicValueFromBits (String.ofList text) n) 'b' =
      String.ofList (Nat.toDigits 10 n ++ '\'' :: 'b' :: text) := by
  have hpos : (0 : ℤ) < n := Int.natCast_pos.2 hn
  have hbits : (logicValueFromBits (String.ofList text) n).bits.toList = text :=
    String.toList_ofList
  have hwidth : (if 0 < (logicValueFromBits (String.ofList text) n).width then
      (toString (logicValueFromBits (String.ofList text) n).width).toList else []) =
        Nat.toDigits 10 n := by
    rw [width_logicValueFromBits hpos, if_pos hpos, toList_toString_int,
      if_neg (not_lt.2 hpos.le), Int.natAbs_natCast]
  rw [svLiteral]
  simp only [hwidth, hbits]
  rfl

section Literals

variable {text : List Char} (hne : text ≠ [])
include hne

/-- A sample with a letter that literals do not have. -/
lemma literalBits_bin_of_bad (hletters : ∀ c ∈ text, c ∈ stateLetters) {c : Char} (hc : c ∈ text)
    (hbad : isRadixDigit 'b' c = false) : literalBits text .bin = none := by
  have hall : text.all (isRadixDigit 'b') = false := by
    rw [List.all_eq_false]
    exact ⟨c, hc, by rw [hbad]; exact Bool.false_ne_true⟩
  rw [literalBits, valueLiteral, svLiteral_bin _ (List.length_pos_iff.2 hne),
    parseSvLiteral_bin_text (cleanText_stateLetters hletters), parseSvRadix, if_neg hne,
    if_neg (by decide), hall]
  rfl

variable (hchars : ∀ c ∈ text, isRadixDigit 'b' c = true)
include hchars

/-- The sample as a bit vector. -/
lemma literalBits_bin : literalBits text .bin = some text := by
  have hread := (BitVector.mk text hne hchars).parseSvLiteral_bin
  rw [BitVector.value] at hread
  rw [literalBits, valueLiteral]
  show (parseSvLiteral (svLiteral (logicValueFromBits (String.ofList text) text.length) 'b')).map
    _ = _
  rw [show parseSvLiteral (svLiteral (logicValueFromBits (String.ofList text) text.length) 'b') =
    _ from hread]
  show some (String.ofList text).toList = some text
  rw [String.toList_ofList]

lemma literalBits_hex : literalBits text .hex = some (hexShown text.reverse).reverse := by
  obtain ⟨w, hread, hbits⟩ := (BitVector.mk text hne hchars).parseSvLiteral_hex_shown
  rw [literalBits, valueLiteral]
  show (parseSvLiteral (svLiteral (BitVector.mk text hne hchars).value 'h')).map _ = _
  rw [hread, Option.map_some, hbits]

/-- The decimal literal of a known sample of at most 64 bits, and the binary one of an unknown
sample. -/
lemma literalBits_dec (hnarrow : (∀ c ∈ text, c = '0' ∨ c = '1') → text.length ≤ 64) :
    literalBits text .dec = some text := by
  have hbits : (logicValueFromBits (String.ofList text) text.length).bits ≠ "" :=
    (BitVector.mk text hne hchars).bits_value_ne
  by_cases hknown : (logicValueFromBits (String.ofList text) text.length).known = true
  · obtain ⟨w, hread, hw⟩ := (BitVector.mk text hne hchars).parseSvLiteral_dec_of_le hknown
      (hnarrow ((BitVector.mk text hne hchars).binary_of_known hknown))
    rw [literalBits, valueLiteral, if_pos ⟨hknown, hbits⟩]
    show (parseSvLiteral (svLiteral (BitVector.mk text hne hchars).value 'd')).map _ = _
    rw [hread, Option.map_some, hw]
    exact congrArg some String.toList_ofList
  · rw [literalBits, valueLiteral, if_neg fun h => hknown h.1, if_neg hknown]
    exact literalBits_bin hne hchars

end Literals

/-- The literals of a sample are read as the bits that the expression sees: its letters are those
of literals, a decimal literal fits into 64 bits, the bounds agree, and the hexadecimal digits
keep the bits of the field. -/
structure Undistorted (text : List Char) (left right : ℤ) : Prop where
  fourState : ∀ c ∈ text, c = '0' ∨ c = '1' ∨ c = 'x' ∨ c = 'z'
  narrow : (∀ c ∈ text, c = '0' ∨ c = '1') → text.length ≤ 64
  bounds : BoundsAgree text.length left right
  digits : ∀ j : ℕ, right ≤ j → j ≤ left → KeepsBit text j

/-- The literals of a sample give the bits of the slice in all formats. -/
lemma forall_literalBits_iff {text : List Char} (hne : text ≠ [])
    (hletters : ∀ c ∈ text, c ∈ stateLetters) (left right : ℤ) :
    ((∀ i < text.length, (∀ c ∈ text, c = '0' ∨ c = '1') → i < 64) ∧
      ∀ fmt, (literalBits text fmt).map (cutBits · left right) =
        some (sliceBits text left right).1) ↔ Undistorted text left right := by
  constructor
  · rintro ⟨hdefined, h⟩
    -- a binary literal is read only if all its letters are digits
    have hchars : ∀ c ∈ text, isRadixDigit 'b' c = true := by
      intro c hc
      by_contra hbad
      rw [Bool.not_eq_true] at hbad
      have hbin := h .bin
      rw [literalBits_bin_of_bad hne hletters hc hbad] at hbin
      cases hbin
    have hbin := h .bin
    rw [literalBits_bin hne hchars, Option.map_some, Option.some_inj] at hbin
    have hhex := h .hex
    rw [literalBits_hex hne hchars, Option.map_some, Option.some_inj, ← hbin] at hhex
    have hbounds := (cutBits_eq_sliceBits_iff hne left right).1 hbin
    refine ⟨fourState_cases hchars, fun hknown => ?_, hbounds, fun j hright hleft => ?_⟩
    · have hpos := List.length_pos_iff.2 hne
      have hlast := hdefined (text.length - 1) (by omega) hknown
      omega
    · rcases hbounds with ⟨hlow, -, hhigh⟩ | ⟨hasc, -⟩
      · exact (cutBits_hexShown_iff hlow hhigh).1 hhex j hright hleft
      · omega
  · intro h
    have hchars : ∀ c ∈ text, isRadixDigit 'b' c = true := by
      intro c hc
      rcases h.fourState c hc with rfl | rfl | rfl | rfl <;> rfl
    have hslice := (cutBits_eq_sliceBits_iff hne left right).2 h.bounds
    refine ⟨fun i hi hknown => hi.trans_le (h.narrow hknown), fun fmt => ?_⟩
    cases fmt with
    | bin => rw [literalBits_bin hne hchars, Option.map_some, hslice]
    | dec => rw [literalBits_dec hne hchars h.narrow, Option.map_some, hslice]
    | hex =>
        rw [literalBits_hex hne hchars, Option.map_some, ← hslice]
        rcases h.bounds with ⟨hlow, -, hhigh⟩ | ⟨hasc, -⟩
        · rw [(cutBits_hexShown_iff hlow hhigh).2 h.digits]
        · have hempty : ∀ bits : List Char, cutBits bits left right = [] := by
            intro bits
            refine List.length_eq_zero_iff.1 ?_
            rw [length_cutBits]
            omega
          rw [hempty, hempty]

/-! ### Fields of events -/

/-- A signal of bits, whose values have the declared width. -/
structure IsBitSignal (wf : Backend) (path : String) : Prop where
  found : wf.findSignal path ≠ Backend.kInvalidSignalRef
  data : ∃ data, wf.signal (wf.findSignal path) = some data ∧ 0 < data.width ∧
    ∀ c ∈ data.changes, c.value.kind = .bitVector ∧ c.value.text.toList.length = data.width ∧
      ∀ l ∈ c.value.text.toList, l ∈ stateLetters

section Fields

variable (realText : String → String) (wf : Backend) (timeIdx : ℕ) (point : ObservationPoint)
  (config : EventConfig)

/-- The sample of a signal. -/
def sampleText (path : String) : Option (List Char) :=
  (wf.sampledValueAt (wf.findSignal path) timeIdx point).map fun sampled =>
    sampled.value.text.toList

/-- The bits of a field do not depend on the format in which they are reported, and are those that
the expression sees. -/
structure FormatIndependent (name : String) (field : EventField) : Prop where
  /-- `logic_value_from_u64` shifts a 64-bit word by each bit index of a decimal literal, which
  must be below 64. -/
  defined : ∀ text, sampleText wf timeIdx point (config.path field) = some text →
    ∀ i < text.length, (∀ c ∈ text, c = '0' ∨ c = '1') → i < 64
  same : ∀ fmt fmt', reportedBits realText wf timeIdx point config fmt name =
    reportedBits realText wf timeIdx point config fmt' name
  seen : ∀ fmt, reportedBits realText wf timeIdx point config fmt name =
    some (fieldValue wf timeIdx point config field).bits

variable {name : String} {field : EventField}

/-- A field is reported from the literal of its signal. -/
lemma reportedBits_eq (hfield : config.fields.find? name = some field) (fmt : ValueRenderFormat) :
    reportedBits realText wf timeIdx point config fmt name =
      ((((signalJson realText wf timeIdx point fmt (config.path field)).field? "value").bind
        Json.string?).bind parseSvLiteral).map fun logic =>
          String.ofList (cutBits logic.bits.toList field.left field.right) := by
  rw [reportedBits, fieldValues, OrderedMap.lookup_filterMap, hfield, Option.bind_some, fieldJson,
    Option.map_map]
  refine congrArg (Option.map · _) (funext fun logic => ?_)
  exact bits_renderValueJson _ _ _

variable (hbits : IsBitSignal wf (config.path field))
include hbits

/-- A sample of such a signal. -/
lemma IsBitSignal.sample {text : List Char}
    (h : sampleText wf timeIdx point (config.path field) = some text) :
    text ≠ [] ∧ (∀ c ∈ text, c ∈ stateLetters) ∧
      (∀ fmt, signalJson realText wf timeIdx point fmt (config.path field) =
        renderValueJson (String.ofList text) text.length fmt) ∧
      (fieldValue wf timeIdx point config field).bits =
        String.ofList (sliceBits text field.left field.right).1 := by
  obtain ⟨data, hdata, hpos, hchanges⟩ := hbits.data
  obtain ⟨sampled, hsampled, rfl⟩ := Option.map_eq_some_iff.1 h
  have hsample : wf.sample (wf.findSignal (config.path field)) timeIdx point =
      some sampled.value := by
    rw [Backend.sample, hsampled, Option.map_some]
  obtain ⟨c, hmem, hvalue⟩ := Backend.exists_of_sample hsample
  have hc : c ∈ data.changes := by rwa [Backend.changesOf, hdata] at hmem
  obtain ⟨hkind, hlength, hletters⟩ := hchanges c hc
  rw [hvalue] at hkind hlength hletters
  refine ⟨?_, hletters, fun fmt => ?_, ?_⟩
  · intro hempty
    rw [hempty] at hlength
    exact hpos.ne hlength
  · rw [signalJson, hsampled, hdata]
    dsimp only [Option.map_some, Option.getD_some]
    rw [renderTypedValueJson, hkind, String.ofList_toList, hlength]
  · rw [fieldValue, evalSignal]
    dsimp only
    rw [if_neg hbits.found, hsampled]

/-- Without a sample nothing is read of the binary literal. -/
lemma IsBitSignal.reportedBits_bin (hfield : config.fields.find? name = some field)
    (h : sampleText wf timeIdx point (config.path field) = none) :
    reportedBits realText wf timeIdx point config .bin name = none := by
  obtain ⟨data, hdata, hpos, -⟩ := hbits.data
  have hsampled := Option.map_eq_none_iff.1 h
  rw [reportedBits_eq realText wf timeIdx point config hfield, signalJson, hsampled, hdata]
  dsimp only [Option.map_none, Option.getD_none, Option.map_some, Option.getD_some]
  rw [renderTypedValueJson]
  dsimp only
  rw [value_renderValueJson, valueLiteral, Option.bind_some, svLiteral_bin [] hpos,
    parseSvLiteral_bin_text rfl]
  rfl

omit hbits in
/-- The literal of a sample, read again and cut. -/
lemma reportedBits_of_sample (hfield : config.fields.find? name = some field) {text : List Char}
    {fmt : ValueRenderFormat} (hjson : signalJson realText wf timeIdx point fmt (config.path field) =
      renderValueJson (String.ofList text) text.length fmt) :
    reportedBits realText wf timeIdx point config fmt name =
      ((literalBits text fmt).map (cutBits · field.left field.right)).map String.ofList := by
  rw [reportedBits_eq realText wf timeIdx point config hfield, hjson, value_renderValueJson,
    Option.bind_some, literalBits, Option.map_map, Option.map_map]
  rfl

/-- The bits that are reported for a field of an event are the same in all formats, and those that
the expression sees, exactly if the field has a sample that its literals do not distort. -/
theorem formatIndependent_iff (hfield : config.fields.find? name = some field) :
    FormatIndependent realText wf timeIdx point config name field ↔
      ∃ text, sampleText wf timeIdx point (config.path field) = some text ∧
        Undistorted text field.left field.right := by
  cases hsample : sampleText wf timeIdx point (config.path field) with
  | none =>
      constructor
      · intro h
        have hbin := h.seen .bin
        rw [hbits.reportedBits_bin realText wf timeIdx point config hfield hsample] at hbin
        cases hbin
      · rintro ⟨text, ⟨⟩, -⟩
  | some text =>
      obtain ⟨hne, hletters, hjson, hseen⟩ := hbits.sample realText wf timeIdx point config hsample
      have hiff : (∀ fmt, reportedBits realText wf timeIdx point config fmt name =
          some (fieldValue wf timeIdx point config field).bits) ↔
          ∀ fmt, (literalBits text fmt).map (cutBits · field.left field.right) =
            some (sliceBits text field.left field.right).1 := by
        refine forall_congr' fun fmt => ?_
        rw [reportedBits_of_sample realText wf timeIdx point config hfield (hjson fmt), hseen,
          ← Option.map_some]
        exact (Option.map_injective fun a b h => String.ofList_injective h).eq_iff
      constructor
      · intro h
        exact ⟨text, rfl, (forall_literalBits_iff hne hletters _ _).1
          ⟨h.defined text hsample, hiff.1 h.seen⟩⟩
      · rintro ⟨text', htext, hclear⟩
        obtain rfl := Option.some.inj htext
        obtain ⟨hdefined, hliteral⟩ := (forall_literalBits_iff hne hletters _ _).2 hclear
        have hall := hiff.2 hliteral
        refine ⟨?_, fun fmt fmt' => (hall fmt).trans (hall fmt').symm, hall⟩
        intro other hother
        obtain rfl := Option.some.inj (hsample.symm.trans hother)
        exact hdefined

end Fields

/-- The signal `s` of a constant waveform is a signal of bits. -/
lemma isBitSignal_constWave {text : String} (hne : 0 < text.length)
    (hletters : text.toList.all (fun c => c ∈ stateLetters) = true) :
    IsBitSignal (constWave text) "s" where
  found := Nat.one_ne_zero
  data := by
    refine ⟨constData text, rfl, hne, ?_⟩
    intro c hc
    rw [List.mem_singleton.1 hc]
    exact ⟨rfl, String.length_toList, fun l hl => of_decide_eq_true (List.all_eq_true.1 hletters l hl)⟩

/-- One unknown bit makes the hexadecimal digit of the field unknown. -/
theorem hex_not_formatIndependent :
    ¬ ∀ (realText : String → String) (wf : Backend) (timeIdx : ℕ) (point : ObservationPoint)
      (config : EventConfig) (name : String) (field : EventField),
      IsBitSignal wf (config.path field) → config.fields.find? name = some field →
        FormatIndependent realText wf timeIdx point config name field := by
  intro h
  have hseen := (h id (constWave "1x100101") 0 .raw nibbleConfig "f" ⟨"a", 7, 4⟩
    (isBitSignal_constWave (by decide) (by decide)) (by decide)).seen .hex
  revert hseen
  decide +kernel

/-- A field of known bits beside unknown ones. -/
theorem formatIndependent_known :
    IsBitSignal (constWave "1010x1z1") (nibbleConfig.path ⟨"a", 7, 4⟩) ∧
      nibbleConfig.fields.find? "f" = some ⟨"a", 7, 4⟩ ∧
      FormatIndependent id (constWave "1010x1z1") 0 .raw nibbleConfig "f" ⟨"a", 7, 4⟩ := by
  have hbits : IsBitSignal (constWave "1010x1z1") (nibbleConfig.path ⟨"a", 7, 4⟩) :=
    isBitSignal_constWave (by decide) (by decide)
  have hfield : nibbleConfig.fields.find? "f" = some ⟨"a", 7, 4⟩ := by decide
  refine ⟨hbits, hfield, (formatIndependent_iff _ _ _ _ _ hbits hfield).2 ?_⟩
  have hfour : "1010x1z1".toList.all (isRadixDigit 'b') = true := by decide
  refine ⟨"1010x1z1".toList, rfl, fourState_cases (List.all_eq_true.1 hfour), fun _ => by decide,
    by decide, ?_⟩
  intro j hright hleft
  have hlow : (4 : ℤ) ≤ j := hright
  have hhigh : (j : ℤ) ≤ 7 := hleft
  have hj : j ∈ [4, 5, 6, 7] := by
    simp only [List.mem_cons, List.not_mem_nil, or_false]
    omega
  have hkeeps : ∀ j ∈ [4, 5, 6, 7], KeepsBit "1010x1z1".toList j := by decide +kernel
  exact hkeeps j hj

end XdebugFst.Event
