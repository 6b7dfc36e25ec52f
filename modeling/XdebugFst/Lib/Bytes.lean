import Mathlib
import XdebugFst.Lib.Access

/-!
# Writing bytes and reading them back

`Placed m pos bs` says that the bytes `bs` stand at `pos` in a memory. What stands somewhere
can be cut at its seams, down to single integers, strings and records, and is then read back
by the loads of `Lib.Access`.

The last part is about texts in UTF-8. Their bytes are ordered as their characters are, so a
table that is sorted as text is sorted for `strcmp`.
-/

namespace Lib

/-- A walk over consecutive positions that finds the elements of a list. -/
lemma mapM_range' {β : Type} {f : ℕ → Option β} {l : List β} {start : ℕ}
    (h : ∀ k (hk : k < l.length), f (start + k) = some (l.get ⟨k, hk⟩)) :
    (List.range' start l.length).mapM f = some l := by
  induction l generalizing start with
  | nil => rfl
  | cons x l ih =>
      have hrest := @ih (start + 1) fun k hk => by
        rw [Nat.add_right_comm, Nat.add_assoc]
        exact h (k + 1) (Nat.succ_lt_succ hk)
      rw [List.length_cons, List.range'_succ, List.mapM_cons, hrest]
      have hhead : f start = some x := h 0 (Nat.succ_pos _)
      rw [hhead]
      rfl

/-! ### Little-endian integers -/

/-- The `width` low bytes of a number, the lowest first. -/
def leBytes : ℕ → ℕ → List UInt8
  | 0, _ => []
  | width + 1, n => UInt8.ofNat n :: leBytes width (n / 256)

@[simp]
lemma length_leBytes (width n : ℕ) : (leBytes width n).length = width := by
  induction width generalizing n with
  | zero => rfl
  | succ width ih => rw [leBytes, List.length_cons, ih]

/-! ### Bytes at an address -/

/-- The bytes `bs` stand at `pos`. -/
def Placed (m : List UInt8) (pos : ℕ) (bs : List UInt8) : Prop := bs <+: m.drop pos

section Placed

variable {m : List UInt8} {pos : ℕ} {a b bs : List UInt8}

lemma placed_append (pre post : List UInt8) : Placed (pre ++ (bs ++ post)) pre.length bs := by
  rw [Placed, List.drop_left]
  exact List.prefix_append bs post

lemma Placed.left (h : Placed m pos (a ++ b)) : Placed m pos a :=
  (List.prefix_append a b).trans h

lemma Placed.right (h : Placed m pos (a ++ b)) : Placed m (pos + a.length) b := by
  obtain ⟨t, ht⟩ := h
  refine ⟨t, ?_⟩
  rw [← List.drop_drop, ← ht, List.append_assoc, List.drop_left]

lemma Placed.rightAt (h : Placed m pos (a ++ b)) {pos' : ℕ} (hpos : pos + a.length = pos') :
    Placed m pos' b := hpos ▸ h.right

lemma Placed.le (h : Placed m pos bs) (hne : bs ≠ []) : pos + bs.length ≤ m.length := by
  have hlen := h.length_le
  rw [List.length_drop] at hlen
  have hpos := List.length_pos_iff.2 hne
  omega

lemma Placed.head {c : UInt8} (h : Placed m pos (c :: bs)) : m[pos]? = some c := by
  obtain ⟨t, ht⟩ := h
  have hget := congrArg (fun l => l[0]?) ht
  simpa using hget.symm

lemma Placed.tail {c : UInt8} (h : Placed m pos (c :: bs)) : Placed m (pos + 1) bs := by
  exact @Placed.right m pos [c] bs h

lemma Placed.getElem? (h : Placed m pos bs) {k : ℕ} (hk : k < bs.length) :
    m[pos + k]? = some (bs.get ⟨k, hk⟩) := by
  obtain ⟨t, ht⟩ := h
  rw [← List.getElem?_drop, ← ht, List.getElem?_append_left hk, List.getElem?_eq_getElem hk]
  rfl

/-- Inside bytes that stand in a memory. -/
lemma Placed.trans {pos' : ℕ} (h : Placed m pos bs) (hin : Placed bs pos' a) :
    Placed m (pos + pos') a := by
  obtain ⟨t, ht⟩ := h
  obtain ⟨u, hu⟩ := hin
  rcases eq_or_ne a [] with rfl | hne
  · exact List.nil_prefix
  · have hle := Placed.le ⟨u, hu⟩ hne
    refine ⟨u ++ t, ?_⟩
    rw [← List.drop_drop, ← ht, List.drop_append_of_le_length (by omega), ← hu, List.append_assoc]

/-- A number is read back, as far as its bytes reach. -/
lemma Placed.readLE {width n : ℕ} (h : Placed m pos (leBytes width n)) :
    readLE m width pos = some (n % 256 ^ width) := by
  induction width generalizing n pos with
  | zero => rw [Lib.readLE, pow_zero, Nat.mod_one]
  | succ width ih =>
      rw [leBytes] at h
      rw [Lib.readLE, h.head, ih h.tail]
      show some ((UInt8.ofNat n).toNat + 256 * (n / 256 % 256 ^ width)) = _
      rw [UInt8.toNat_ofNat', pow_succ' 256, Nat.mod_mul]

lemma Placed.readU32 {n : ℕ} (h : Placed m pos (leBytes 4 n)) (hn : n < 2 ^ 32) :
    readU32 m pos = some n := by
  rw [Lib.readU32, h.readLE, Nat.mod_eq_of_lt (by norm_num; exact hn)]

lemma Placed.readU64 {n : ℕ} (h : Placed m pos (leBytes 8 n)) (hn : n < 2 ^ 64) :
    readU64 m pos = some n := by
  rw [Lib.readU64, h.readLE, Nat.mod_eq_of_lt (by norm_num; exact hn)]

/-- The bytes of a signed 32-bit integer. -/
def packI32 (n : Int32) : List UInt8 := leBytes 4 n.toBitVec.toNat

@[simp]
lemma length_packI32 (n : Int32) : (packI32 n).length = 4 := length_leBytes 4 _

lemma Placed.readI32 {n : Int32} (h : Placed m pos (packI32 n)) :
    Lib.readI32 m pos = some n.toInt := by
  rw [Lib.readI32, Placed.readLE h, Nat.mod_eq_of_lt (by norm_num; exact n.toBitVec.isLt)]
  exact congrArg some (BitVec.toInt_eq_toNat_bmod _).symm

/-- A number below `2 ^ 31` as a signed integer. -/
lemma Placed.readI32_nat {n : ℕ} (h : Placed m pos (leBytes 4 n)) (hn : n < 2 ^ 31) :
    Lib.readI32 m pos = some (n : ℤ) := by
  rw [Lib.readI32, h.readLE, Nat.mod_eq_of_lt (by norm_num; omega), Option.map_some,
    toInt32_of_lt hn]

/-- A record of a table of records of the same width. -/
lemma Placed.flatMap {α : Type*} {f : α → List UInt8} {width : ℕ} {l : List α}
    (hwidth : ∀ x ∈ l, (f x).length = width) (h : Placed m pos (l.flatMap f)) {k : ℕ}
    (hk : k < l.length) : Placed m (pos + k * width) (f l[k]) := by
  induction l generalizing pos k with
  | nil => exact absurd hk (Nat.not_lt_zero k)
  | cons x l ih =>
      rw [List.flatMap_cons] at h
      cases k with
      | zero =>
          rw [Nat.zero_mul, Nat.add_zero]
          exact h.left
      | succ k =>
          have hrest := h.right
          rw [hwidth x List.mem_cons_self] at hrest
          have hrec := ih (fun y hy => hwidth y (List.mem_cons_of_mem x hy)) hrest
            (Nat.lt_of_succ_lt_succ hk)
          rw [Nat.add_mul, Nat.one_mul, Nat.add_comm (k * width), ← Nat.add_assoc]
          exact hrec

lemma length_flatMap_of_forall {α : Type*} {f : α → List UInt8} {width : ℕ} {l : List α}
    (hwidth : ∀ x ∈ l, (f x).length = width) : (l.flatMap f).length = l.length * width := by
  induction l with
  | nil => rw [List.flatMap_nil, List.length_nil, List.length_nil, Nat.zero_mul]
  | cons x l ih =>
      rw [List.flatMap_cons, List.length_append, hwidth x List.mem_cons_self, List.length_cons,
        ih fun y hy => hwidth y (List.mem_cons_of_mem x hy), Nat.add_mul, Nat.one_mul,
        Nat.add_comm]

/-! ### Strings -/

lemma cString_append {s : List UInt8} (h : (0 : UInt8) ∉ s) (rest : List UInt8) :
    cString (s ++ 0 :: rest) = some s := by
  induction s with
  | nil => exact if_pos rfl
  | cons c s ih =>
      have hc : c ≠ 0 := fun heq => h (heq ▸ List.mem_cons_self)
      rw [List.cons_append, cString, if_neg hc, ih fun hmem => h (List.mem_cons_of_mem c hmem)]
      rfl

lemma memchr_append {s : List UInt8} {n : ℕ} (hn : s.length < n) (rest : List UInt8) :
    memchr n (s ++ 0 :: rest) = some true := by
  induction s generalizing n with
  | nil =>
      obtain ⟨n, rfl⟩ := Nat.exists_eq_succ_of_ne_zero hn.ne'
      exact if_pos rfl
  | cons c s ih =>
      obtain ⟨n, rfl⟩ := Nat.exists_eq_succ_of_ne_zero (Nat.ne_zero_of_lt hn)
      rw [List.cons_append, memchr]
      split_ifs
      · rfl
      · exact ih (Nat.lt_of_succ_lt_succ hn)

lemma Placed.cString {s : List UInt8} (h : Placed m pos (s ++ [0])) (hs : (0 : UInt8) ∉ s) :
    cString (m.drop pos) = some s := by
  obtain ⟨t, ht⟩ := h
  rw [← ht, List.append_assoc]
  exact cString_append hs t

lemma Placed.memchr {s : List UInt8} (h : Placed m pos (s ++ [0])) {n : ℕ} (hn : s.length < n) :
    memchr n (m.drop pos) = some true := by
  obtain ⟨t, ht⟩ := h
  rw [← ht, List.append_assoc]
  exact memchr_append hn t

end Placed

/-! ### Texts -/

/-- The bytes of a text in UTF-8. -/
def utf8 (text : List Char) : List UInt8 := text.flatMap String.utf8EncodeChar

lemma utf8_ne_nil {text : List Char} (h : text ≠ []) : utf8 text ≠ [] := by
  obtain ⟨c, text, rfl⟩ := List.exists_cons_of_ne_nil h
  rw [utf8, List.flatMap_cons]
  exact List.append_ne_nil_of_left_ne_nil String.utf8EncodeChar_ne_nil _

/-- The first bytes at which two byte strings differ are in this order. -/
def FirstDiffers (a b : List UInt8) : Prop :=
  ∃ p x y u v, a = p ++ x :: u ∧ b = p ++ y :: v ∧ x.toNat < y.toNat

lemma FirstDiffers.cons {a b : List UInt8} (h : FirstDiffers a b) (c : UInt8) :
    FirstDiffers (c :: a) (c :: b) := by
  obtain ⟨p, x, y, u, v, rfl, rfl, hxy⟩ := h
  exact ⟨c :: p, x, y, u, v, rfl, rfl, hxy⟩

lemma firstDiffers_of_head {x y : UInt8} (h : x.toNat < y.toNat) (u v : List UInt8) :
    FirstDiffers (x :: u) (y :: v) := ⟨[], x, y, u, v, rfl, rfl, h⟩

lemma FirstDiffers.append {a b : List UInt8} (h : FirstDiffers a b) (s t : List UInt8) :
    FirstDiffers (a ++ s) (b ++ t) := by
  obtain ⟨p, x, y, u, v, rfl, rfl, hxy⟩ := h
  exact ⟨p, x, y, u ++ s, v ++ t, by simp, by simp, hxy⟩

lemma compare_append (p a b : List UInt8) : compare (p ++ a) (p ++ b) = compare a b := by
  induction p with
  | nil => rfl
  | cons c p ih =>
      show List.compareLex compare (c :: (p ++ a)) (c :: (p ++ b)) = _
      have hself : compare c c = .eq := by
        show (if c < c then _ else if c = c then _ else _) = _
        rw [if_neg (UInt8.lt_irrefl c), if_pos rfl]
      rw [List.compareLex_cons_cons, hself]
      exact ih

lemma FirstDiffers.compare {a b : List UInt8} (h : FirstDiffers a b) : compare a b = .lt := by
  obtain ⟨p, x, y, u, v, rfl, rfl, hxy⟩ := h
  rw [compare_append]
  show List.compareLex Ord.compare (x :: u) (y :: v) = _
  have hhead : Ord.compare x y = .lt := if_pos (UInt8.lt_iff_toNat_lt.2 hxy)
  rw [List.compareLex_cons_cons, hhead]
  rfl

section Utf8

variable {c d : Char}

lemma toNat_lt_bound (c : Char) : c.toNat < 1114112 := by
  show c.val.toNat < 1114112
  rcases c.valid with h | h
  · have h' : c.val.toNat < 55296 := h
    omega
  · exact h.2

/-- The bytes of a character, by the size of its number. -/
lemma utf8EncodeChar_eq (c : Char) : String.utf8EncodeChar c =
    if c.toNat < 128 then [UInt8.ofNat c.toNat]
    else if c.toNat < 2048 then
      [UInt8.ofNat (192 + c.toNat / 64), UInt8.ofNat (128 + c.toNat % 64)]
    else if c.toNat < 65536 then
      [UInt8.ofNat (224 + c.toNat / 4096), UInt8.ofNat (128 + c.toNat / 64 % 64),
        UInt8.ofNat (128 + c.toNat % 64)]
    else
      [UInt8.ofNat (240 + c.toNat / 262144), UInt8.ofNat (128 + c.toNat / 4096 % 64),
        UInt8.ofNat (128 + c.toNat / 64 % 64), UInt8.ofNat (128 + c.toNat % 64)] := by
  have hlt := toNat_lt_bound c
  show (if c.toNat ≤ 127 then _ else if c.toNat ≤ 2047 then _ else if c.toNat ≤ 65535 then _
    else _) = _
  by_cases h1 : c.toNat < 128
  · rw [if_pos (by omega), if_pos h1]
    rfl
  · rw [if_neg (by omega), if_neg h1]
    by_cases h2 : c.toNat < 2048
    · rw [if_pos (by omega), if_pos h2, Nat.add_comm 192, Nat.add_comm 128]
      show [UInt8.ofNat (c.toNat / 64 % 32 + 192), _] = _
      rw [Nat.mod_eq_of_lt (show c.toNat / 64 < 32 by omega)]
      rfl
    · rw [if_neg (by omega), if_neg h2]
      by_cases h3 : c.toNat < 65536
      · rw [if_pos (by omega), if_pos h3, Nat.add_comm 224, Nat.add_comm 128, Nat.add_comm 128]
        show [UInt8.ofNat (c.toNat / 4096 % 16 + 224), _, _] = _
        rw [Nat.mod_eq_of_lt (show c.toNat / 4096 < 16 by omega)]
        rfl
      · rw [if_neg (by omega), if_neg h3, Nat.add_comm 240, Nat.add_comm 128, Nat.add_comm 128,
          Nat.add_comm 128]
        show [UInt8.ofNat (c.toNat / 262144 % 8 + 240), _, _, _] = _
        rw [Nat.mod_eq_of_lt (show c.toNat / 262144 < 8 by omega)]
        rfl

lemma toNat_ofNat_lt {m n : ℕ} (h : m < n) (hn : n < 256) :
    (UInt8.ofNat m).toNat < (UInt8.ofNat n).toNat := by
  rw [UInt8.toNat_ofNat', UInt8.toNat_ofNat', Nat.mod_eq_of_lt (by omega),
    Nat.mod_eq_of_lt (by omega)]
  exact h

/-- The bytes of a smaller character come first: a longer form has a larger first byte, and in
forms of the same length the first digit that differs decides. -/
lemma firstDiffers_utf8EncodeChar (h : c < d) :
    FirstDiffers (String.utf8EncodeChar c) (String.utf8EncodeChar d) := by
  have hcd : c.toNat < d.toNat := UInt32.lt_iff_toNat_lt.1 (Char.lt_def.1 h)
  have hd := toNat_lt_bound d
  rw [utf8EncodeChar_eq c, utf8EncodeChar_eq d]
  generalize c.toNat = m at hcd
  generalize d.toNat = n at hcd hd
  split_ifs
  -- one byte
  · exact firstDiffers_of_head (toNat_ofNat_lt hcd (by omega)) _ _
  · exact firstDiffers_of_head (toNat_ofNat_lt (by omega) (by omega)) _ _
  · exact firstDiffers_of_head (toNat_ofNat_lt (by omega) (by omega)) _ _
  · exact firstDiffers_of_head (toNat_ofNat_lt (by omega) (by omega)) _ _
  -- two bytes
  · omega
  · rcases lt_or_eq_of_le (show m / 64 ≤ n / 64 by omega) with hlt | heq
    · exact firstDiffers_of_head (toNat_ofNat_lt (by omega) (by omega)) _ _
    · rw [heq]
      refine FirstDiffers.cons ?_ _
      exact firstDiffers_of_head (toNat_ofNat_lt (by omega) (by omega)) _ _
  · exact firstDiffers_of_head (toNat_ofNat_lt (by omega) (by omega)) _ _
  · exact firstDiffers_of_head (toNat_ofNat_lt (by omega) (by omega)) _ _
  -- three bytes
  · omega
  · omega
  · rcases lt_or_eq_of_le (show m / 4096 ≤ n / 4096 by omega) with hlt | heq
    · exact firstDiffers_of_head (toNat_ofNat_lt (by omega) (by omega)) _ _
    · rw [heq]
      refine FirstDiffers.cons ?_ _
      rcases lt_or_eq_of_le (show m / 64 % 64 ≤ n / 64 % 64 by omega) with hlt | heq'
      · exact firstDiffers_of_head (toNat_ofNat_lt (by omega) (by omega)) _ _
      · rw [heq']
        refine FirstDiffers.cons ?_ _
        exact firstDiffers_of_head (toNat_ofNat_lt (by omega) (by omega)) _ _
  · exact firstDiffers_of_head (toNat_ofNat_lt (by omega) (by omega)) _ _
  -- four bytes
  · omega
  · omega
  · omega
  · rcases lt_or_eq_of_le (show m / 262144 ≤ n / 262144 by omega) with hlt | heq
    · exact firstDiffers_of_head (toNat_ofNat_lt (by omega) (by omega)) _ _
    · rw [heq]
      refine FirstDiffers.cons ?_ _
      rcases lt_or_eq_of_le (show m / 4096 % 64 ≤ n / 4096 % 64 by omega) with hlt | heq'
      · exact firstDiffers_of_head (toNat_ofNat_lt (by omega) (by omega)) _ _
      · rw [heq']
        refine FirstDiffers.cons ?_ _
        rcases lt_or_eq_of_le (show m / 64 % 64 ≤ n / 64 % 64 by omega) with hlt | heq''
        · exact firstDiffers_of_head (toNat_ofNat_lt (by omega) (by omega)) _ _
        · rw [heq'']
          refine FirstDiffers.cons ?_ _
          exact firstDiffers_of_head (toNat_ofNat_lt (by omega) (by omega)) _ _

/-- UTF-8 keeps the order of texts. -/
lemma compare_utf8 {s t : List Char} (h : s < t) : compare (utf8 s) (utf8 t) = .lt := by
  induction h with
  | nil =>
      rename_i c t
      obtain ⟨x, u, hx⟩ := List.exists_cons_of_ne_nil (@String.utf8EncodeChar_ne_nil c)
      rw [utf8, utf8, List.flatMap_cons, hx]
      rfl
  | @rel c s d t hcd =>
      exact ((firstDiffers_utf8EncodeChar hcd).append (utf8 s) (utf8 t)).compare
  | @cons c s t _ ih =>
      rw [utf8, utf8, List.flatMap_cons, List.flatMap_cons, compare_append]
      exact ih

/-- A byte below 128 stands only for the character with its number. -/
lemma notMem_utf8EncodeChar {b : UInt8} (hb : b.toNat < 128) (h : c.toNat ≠ b.toNat) :
    b ∉ String.utf8EncodeChar c := by
  have hlt := toNat_lt_bound c
  have hbyte : ∀ n, n ≠ b.toNat → n < 256 → b ≠ UInt8.ofNat n := by
    intro n hn hn' heq
    have hnat := congrArg UInt8.toNat heq
    rw [UInt8.toNat_ofNat', Nat.mod_eq_of_lt (by omega)] at hnat
    exact hn hnat.symm
  rw [utf8EncodeChar_eq]
  split_ifs
  · simp only [List.mem_singleton]
    exact hbyte _ h (by omega)
  · simp only [List.mem_cons, List.not_mem_nil, or_false, not_or]
    exact ⟨hbyte _ (by omega) (by omega), hbyte _ (by omega) (by omega)⟩
  · simp only [List.mem_cons, List.not_mem_nil, or_false, not_or]
    exact ⟨hbyte _ (by omega) (by omega), hbyte _ (by omega) (by omega),
      hbyte _ (by omega) (by omega)⟩
  · simp only [List.mem_cons, List.not_mem_nil, or_false, not_or]
    exact ⟨hbyte _ (by omega) (by omega), hbyte _ (by omega) (by omega),
      hbyte _ (by omega) (by omega), hbyte _ (by omega) (by omega)⟩

/-- A text without a character below 128 does not have its byte. -/
lemma notMem_utf8 {text : List Char} (hc : c.toNat < 128) (h : c ∉ text) :
    UInt8.ofNat c.toNat ∉ utf8 text := by
  intro hmem
  obtain ⟨d, hd, hbyte⟩ := List.mem_flatMap.1 hmem
  have hnat : (UInt8.ofNat c.toNat).toNat = c.toNat := by
    rw [UInt8.toNat_ofNat', Nat.mod_eq_of_lt (by omega)]
  refine notMem_utf8EncodeChar (by rwa [hnat]) (fun heq => ?_) hbyte
  rw [hnat] at heq
  exact h (Char.ext (UInt32.toNat_inj.1 heq) ▸ hd)

/-- A text without the zero character has no zero byte. -/
lemma zero_notMem_utf8 {text : List Char} (h : '\x00' ∉ text) : (0 : UInt8) ∉ utf8 text :=
  notMem_utf8 (show ('\x00' : Char).toNat < 128 by decide) h

/-- A text is read off its bytes. -/
lemma utf8_injective : Function.Injective utf8 := by
  intro s t h
  have hbytes : s.utf8Encode = t.utf8Encode := congrArg List.toByteArray h
  rw [← String.toByteArray_ofList, ← String.toByteArray_ofList] at hbytes
  exact String.ofList_injective (String.toByteArray_inj.1 hbytes)

end Utf8

end Lib
