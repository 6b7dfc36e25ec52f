import Mathlib
import XdebugFst.Expr.Render

/-!
# Unknown bits in hexadecimal literals

A hexadecimal digit stands for a group of four bits, counted from the last bit on. With an unknown
bit in the group the digit is `x` or `z`, and it is read as four such bits: `hexShown` is what is
read of a bit string that was written in hexadecimal digits.
-/

namespace XdebugFst.Expr

/-- What the digit of a group shows of a bit in it. -/
def shownBit (group : List Char) (c : Char) : Char :=
  if 'x' ∈ group then 'x' else if 'z' ∈ group then 'z' else c

/-- What hexadecimal digits show of a bit string, the last bit first. -/
def hexShown : List Char → List Char
  | a :: b :: c :: d :: rest => [a, b, c, d].map (shownBit [a, b, c, d]) ++ hexShown rest
  | rest => rest.map (shownBit rest)

lemma shownBit_reverse (group : List Char) : shownBit group.reverse = shownBit group := by
  funext c
  simp only [shownBit, List.mem_reverse]

/-- One group, which may be short. -/
lemma hexShown_of_le {group : List Char} (h : group.length ≤ 4) :
    hexShown group = group.map (shownBit group) := by
  match group, h with
  | [], _ => rfl
  | [_], _ => rfl
  | [_, _], _ => rfl
  | [_, _, _], _ => rfl
  | [_, _, _, _], _ => rfl

/-- Groups are read one by one. -/
lemma hexShown_append {front : List Char} (h : 4 ∣ front.length) (back : List Char) :
    hexShown (front ++ back) = hexShown front ++ hexShown back := by
  induction front using hexShown.induct with
  | case1 a b c d rest ih =>
      have hrest : 4 ∣ rest.length := by
        simp only [List.length_cons] at h
        omega
      simp only [List.cons_append, hexShown, ih hrest, List.append_assoc]
  | case2 rest hshort =>
      match rest, h with
      | [], _ => rfl
      | [_], h => exact absurd h (by simp)
      | [_, _], h => exact absurd h (by simp)
      | [_, _, _], h => exact absurd h (by simp)
      | a :: b :: c :: d :: rest, _ => exact absurd rfl (hshort a b c d rest)

lemma length_hexShown (bits : List Char) : (hexShown bits).length = bits.length := by
  induction bits using hexShown.induct with
  | case1 a b c d rest ih =>
      rw [hexShown, List.length_append, ih, List.length_map]
      simp only [List.length_cons, List.length_nil]
      omega
  | case2 rest hshort =>
      rw [hexShown]
      · exact List.length_map _
      · exact hshort

/-- Each bit is shown as its group of four allows. -/
lemma getElem_hexShown {bits : List Char} {j : ℕ} (hj : j < bits.length)
    (hj' : j < (hexShown bits).length) :
    (hexShown bits)[j] = shownBit ((bits.drop (4 * (j / 4))).take 4) bits[j] := by
  induction bits using hexShown.induct generalizing j with
  | case1 a b c d rest ih =>
      by_cases hfirst : j < 4
      · have hdiv : j / 4 = 0 := by omega
        simp only [hexShown, hdiv, Nat.mul_zero, List.drop_zero]
        rw [List.getElem_append_left (by simpa using hfirst), List.getElem_map]
        interval_cases j <;> rfl
      · obtain ⟨i, rfl⟩ : ∃ i, j = i + 4 := ⟨j - 4, by omega⟩
        have hi : i < rest.length := by
          simp only [List.length_cons] at hj
          omega
        have hdiv : 4 * ((i + 4) / 4) = 4 * (i / 4) + 4 := by omega
        simp only [hexShown, hdiv]
        rw [List.getElem_append_right (by simp)]
        simpa using ih hi (by rwa [length_hexShown])
  | case2 rest hshort =>
      have hlen : rest.length < 4 := by
        match rest with
        | [] => decide
        | [_] => simp
        | [_, _] => simp
        | [_, _, _] => simp
        | a :: b :: c :: d :: rest => exact absurd rfl (hshort a b c d rest)
      have hdiv : j / 4 = 0 := by omega
      simp only [hexShown_of_le hlen.le, List.getElem_map, hdiv, Nat.mul_zero, List.drop_zero,
        List.take_of_length_le hlen.le]

/-- A group in front of whole groups, in the order in which they are written. -/
lemma reverse_hexShown_append {group back : List Char} (hgroup : group.length ≤ 4)
    (hback : 4 ∣ back.length) : (hexShown (group ++ back).reverse).reverse =
      group.map (shownBit group) ++ (hexShown back.reverse).reverse := by
  have hfirst : hexShown group.reverse = (group.map (shownBit group)).reverse := by
    rw [hexShown_of_le (by rwa [List.length_reverse]), shownBit_reverse, List.map_reverse]
  rw [List.reverse_append, hexShown_append (by rwa [List.length_reverse]), hfirst,
    List.reverse_append, List.reverse_reverse]

/-! ### Reading the digits -/

section Nibble

variable {nib : List Char} (hchars : ∀ c ∈ nib, isRadixDigit 'b' c = true)
include hchars

lemma fourState_cases : ∀ c ∈ nib, c = '0' ∨ c = '1' ∨ c = 'x' ∨ c = 'z' := by
  intro c hc
  have h := hchars c hc
  simp only [isRadixDigit, Bool.or_eq_true, decide_eq_true_eq] at h
  tauto

/-- The digit of a group. -/
lemma nibbleToHex_cases :
    ('x' ∈ nib → nibbleToHex nib = 'x') ∧ ('x' ∉ nib → 'z' ∈ nib → nibbleToHex nib = 'z') := by
  have hx : (nib.any fun c => c = 'x' || c = 'h' || c = 'u' || c = 'w' || c = '-') = true ↔
      'x' ∈ nib := by
    rw [List.any_eq_true]
    constructor
    · rintro ⟨c, hc, hletter⟩
      rcases fourState_cases hchars c hc with rfl | rfl | rfl | rfl
      · exact absurd hletter (by decide)
      · exact absurd hletter (by decide)
      · exact hc
      · exact absurd hletter (by decide)
    · exact fun h => ⟨'x', h, by decide⟩
  have hz : 'z' ∈ nib → (nib.any fun c => c = 'z' || c = 'l') = true := fun h =>
    List.any_eq_true.2 ⟨'z', h, by decide⟩
  constructor
  · intro h
    rw [nibbleToHex, if_pos (hx.2 h)]
  · intro h h'
    rw [nibbleToHex, if_neg (fun hany => h (hx.1 hany)), if_pos (hz h')]

/-- A digit is read as the bits that it shows, in front of which there are more if the group is
short. -/
lemma digitBits_nibbleToHex (hlen : nib.length ≤ 4) :
    isRadixDigit 'h' (nibbleToHex nib) = true ∧
      (digitBits 4 (nibbleToHex nib)).drop (4 - nib.length) = nib.map (shownBit nib) := by
  obtain ⟨hxcase, hzcase⟩ := nibbleToHex_cases hchars
  have hconst : ∀ d : Char, (List.replicate 4 d).drop (4 - nib.length) = nib.map fun _ => d := by
    intro d
    rw [List.drop_replicate, List.map_const']
    congr 1
    omega
  by_cases hx : 'x' ∈ nib
  · rw [hxcase hx, show shownBit nib = fun _ => 'x' from funext fun c => if_pos hx]
    exact ⟨rfl, hconst 'x'⟩
  by_cases hz : 'z' ∈ nib
  · have hshown : shownBit nib = fun _ => 'z' := by
      funext c
      rw [shownBit, if_neg hx, if_pos hz]
    rw [hzcase hx hz, hshown]
    exact ⟨rfl, hconst 'z'⟩
  · -- all bits of the group are known
    have hknown : ∀ c ∈ nib, c = '0' ∨ c = '1' := by
      intro c hc
      rcases fourState_cases hchars c hc with h | h | rfl | rfl
      · exact Or.inl h
      · exact Or.inr h
      · exact absurd hc hx
      · exact absurd hc hz
    obtain ⟨hvalid, hxz, hread⟩ := readsNibble hknown hlen
    have hshown : nib.map (shownBit nib) = nib := by
      refine (List.map_congr_left fun c _ => ?_).trans (List.map_id nib)
      rw [shownBit, if_neg hx, if_neg hz]
      rfl
    refine ⟨hvalid, ?_⟩
    rw [digitBits, hxz, if_neg Bool.false_ne_true, hread, hshown,
      List.drop_left' List.length_replicate]

end Nibble

/-- The digits of whole groups. -/
lemma digitBits_hexDigits {bits : List Char} (hchars : ∀ c ∈ bits, isRadixDigit 'b' c = true)
    (hlen : 4 ∣ bits.length) :
    (∀ c ∈ hexDigits bits, isRadixDigit 'h' c = true) ∧
      (hexDigits bits).flatMap (digitBits 4) = (hexShown bits.reverse).reverse := by
  induction bits using hexDigits.induct with
  | case1 => exact ⟨by simp [hexDigits], rfl⟩
  | case2 a b c d rest ih =>
      have hrest : 4 ∣ rest.length := by
        simp only [List.length_cons] at hlen
        omega
      obtain ⟨hvalid, hbits⟩ := ih (fun e he => hchars e (by simp [he])) hrest
      obtain ⟨hfirst, hread⟩ := @digitBits_nibbleToHex [a, b, c, d]
        (fun e he => hchars e (List.mem_append_left rest he)) le_rfl
      rw [hexDigits]
      constructor
      · intro e he
        rcases List.mem_cons.1 he with rfl | he
        · exact hfirst
        · exact hvalid e he
      · have hshown := @reverse_hexShown_append [a, b, c, d] _ le_rfl hrest
        rw [← hread] at hshown
        rw [List.flatMap_cons, hbits]
        exact hshown.symm
  | case3 rest hnil hcons =>
      exfalso
      rcases rest with _ | ⟨a, _ | ⟨b, _ | ⟨c, _ | ⟨d, rest⟩⟩⟩⟩
      · exact hnil rfl
      · simp at hlen
      · simp at hlen
      · simp at hlen
      · exact hcons a b c d rest rfl

namespace BitVector

variable (v : BitVector)

/-- The hexadecimal digits of a value, and what they spell. -/
lemma hexText_spec : (∀ c ∈ v.hexText, isRadixDigit 'h' c = true) ∧
    radixBits 'h' v.hexText = digitBits 4 (nibbleToHex (v.bits.take v.firstNibble)) ++
      (hexShown (v.bits.drop v.firstNibble).reverse).reverse := by
  obtain ⟨hfirst, -, hdvd⟩ := v.firstNibble_le
  obtain ⟨hvalid, -⟩ := @digitBits_nibbleToHex (v.bits.take v.firstNibble)
    (fun c hc => v.chars c (List.mem_of_mem_take hc))
    ((List.length_take_le _ _).trans hfirst)
  obtain ⟨hvalids, hreads⟩ := @digitBits_hexDigits (v.bits.drop v.firstNibble)
    (fun c hc => v.chars c (List.mem_of_mem_drop hc)) (by rw [List.length_drop]; exact hdvd)
  have hall : ∀ c ∈ v.hexText, isRadixDigit 'h' c = true := by
    intro c hc
    rcases List.mem_cons.1 hc with rfl | hc
    · exact hvalid
    · exact hvalids c hc
  refine ⟨hall, ?_⟩
  rw [radixBits_eq (Or.inr (Or.inr rfl)) hall, ← hreads]
  rfl

/-- The hexadecimal text of a value is read as what its digits show. -/
lemma parseSvLiteral_hex_shown : ∃ w, parseSvLiteral (svLiteral v.value 'h') = some w ∧
    w.bits.toList = (hexShown v.bits.reverse).reverse := by
  obtain ⟨hfirst, hwidth, hdvd⟩ := v.firstNibble_le
  obtain ⟨hall, hspelled⟩ := v.hexText_spec
  set front := v.bits.take v.firstNibble with hfront
  set back := v.bits.drop v.firstNibble with hback
  have hbits : front ++ back = v.bits := List.take_append_drop _ _
  have hfrontLength : front.length = v.firstNibble := by
    rw [hfront, List.length_take]
    exact min_eq_left hwidth
  have hbackLength : 4 ∣ back.length := by
    rw [hback, List.length_drop]
    exact hdvd
  obtain ⟨-, hread⟩ := @digitBits_nibbleToHex front
    (fun c hc => v.chars c (List.mem_of_mem_take hc)) (by rw [hfrontLength]; exact hfirst)
  rw [v.svLiteral_hexadecimal, parseSvLiteral_of_digits (by simp) hall (List.cons_ne_nil _ _),
    if_neg (by decide), if_pos v.width_pos, hspelled]
  refine ⟨_, rfl, ?_⟩
  show (String.ofList (fitWidth v.width _ _)).toList = _
  -- the bits in front of the first group are cut off again
  have htotal : (digitBits 4 (nibbleToHex front) ++ (hexShown back.reverse).reverse).length =
      4 + back.length := by
    rw [List.length_append, length_digitBits, List.length_reverse, length_hexShown,
      List.length_reverse]
  have hwidthLength : v.width = front.length + back.length := by
    rw [width, ← hbits, List.length_append]
  rw [String.toList_ofList, fitWidth, htotal, hwidthLength,
    Nat.sub_eq_zero_of_le (by omega), List.replicate_zero, List.nil_append,
    show 4 + back.length - (front.length + back.length) = 4 - front.length by omega,
    List.drop_append_of_le_length (by rw [length_digitBits]; omega), hread, ← hbits,
    reverse_hexShown_append (by rw [hfrontLength]; exact hfirst) hbackLength]

end BitVector

end XdebugFst.Expr
