import Mathlib
import XdebugFst.Lib.BlockBuffer
import XdebugFst.Lib.Sha256

/-!
# The streaming SHA-256

`core/common/sha256.cpp` computes a digest from pieces of a message: `update` copies each piece
into a block of 64 bytes and compresses the block whenever it is full, and `finish` pads the last
block. The number of bits is counted along the way.

`finish_updates` says that the digest is that of the whole message, as the standard defines it,
for every way to cut it into pieces.
-/

namespace XdebugFst.Digest

open Lib Lib.Sha256

/-! ### The code -/

/-- `rotr`. -/
def rotr (value : Word) (count : ℕ) : Word := value >>> count ||| value <<< (32 - count)

/-- `choose`. -/
def choose (x y z : Word) : Word := (x &&& y) ^^^ (~~~x &&& z)

/-- `majority`. -/
def majority (x y z : Word) : Word := (x &&& y) ^^^ (x &&& z) ^^^ (y &&& z)

/-- The table `k` of `compress`. -/
def roundConstants : List Word :=
  [0x428a2f98, 0x71374491, 0xb5c0fbcf, 0xe9b5dba5, 0x3956c25b, 0x59f111f1, 0x923f82a4, 0xab1c5ed5,
    0xd807aa98, 0x12835b01, 0x243185be, 0x550c7dc3, 0x72be5d74, 0x80deb1fe, 0x9bdc06a7, 0xc19bf174,
    0xe49b69c1, 0xefbe4786, 0x0fc19dc6, 0x240ca1cc, 0x2de92c6f, 0x4a7484aa, 0x5cb0a9dc, 0x76f988da,
    0x983e5152, 0xa831c66d, 0xb00327c8, 0xbf597fc7, 0xc6e00bf3, 0xd5a79147, 0x06ca6351, 0x14292967,
    0x27b70a85, 0x2e1b2138, 0x4d2c6dfc, 0x53380d13, 0x650a7354, 0x766a0abb, 0x81c2c92e, 0x92722c85,
    0xa2bfe8a1, 0xa81a664b, 0xc24b8b70, 0xc76c51a3, 0xd192e819, 0xd6990624, 0xf40e3585, 0x106aa070,
    0x19a4c116, 0x1e376c08, 0x2748774c, 0x34b0bcb5, 0x391c0cb3, 0x4ed8aa4a, 0x5b9cca4f, 0x682e6ff3,
    0x748f82ee, 0x78a5636f, 0x84c87814, 0x8cc70208, 0x90befffa, 0xa4506ceb, 0xbef9a3f7, 0xc67178f2]

/-- A block of the state. -/
abbrev Block : Type := Vector UInt8 64

/-- The word `i` of a block, put together by shifts. -/
def loadWord (block : Block) (i : ℕ) : Word :=
  let byte := fun j => (block.toList.getD j 0).toBitVec.zeroExtend 32
  byte (4 * i) <<< 24 ||| byte (4 * i + 1) <<< 16 ||| byte (4 * i + 2) <<< 8 ||| byte (4 * i + 3)

/-- One step of the loop that fills `w`, with the words so far. -/
def extendSchedule (w : List Word) (i : ℕ) : List Word :=
  let x := w.getD (i - 15) 0
  let y := w.getD (i - 2) 0
  let s0 := rotr x 7 ^^^ rotr x 18 ^^^ x >>> 3
  let s1 := rotr y 17 ^^^ rotr y 19 ^^^ y >>> 10
  w ++ [w.getD (i - 16) 0 + s0 + w.getD (i - 7) 0 + s1]

/-- The array `w`. -/
def schedule (block : Block) : List Word :=
  (List.range' 16 48).foldl extendSchedule ((List.range 16).map (loadWord block))

/-- The body of the loop over the rounds. -/
def roundStep (w : List Word) (v : Hash) (i : ℕ) : Hash :=
  let s1 := rotr v.e 6 ^^^ rotr v.e 11 ^^^ rotr v.e 25
  let t1 := v.h + s1 + choose v.e v.f v.g + roundConstants.getD i 0 + w.getD i 0
  let s0 := rotr v.a 2 ^^^ rotr v.a 13 ^^^ rotr v.a 22
  let t2 := s0 + majority v.a v.b v.c
  { h := v.g, g := v.f, f := v.e, e := v.d + t1, d := v.c, c := v.b, b := v.a, a := t1 + t2 }

/-- `compress`. -/
def compress (h : Hash) (block : Block) : Hash :=
  let v := (List.range 64).foldl (roundStep (schedule block)) h
  ⟨h.a + v.a, h.b + v.b, h.c + v.c, h.d + v.d, h.e + v.e, h.f + v.f, h.g + v.g, h.h + v.h⟩

/-- `Sha256`. -/
structure Sha256 where
  h : Hash :=
    ⟨0x6a09e667, 0xbb67ae85, 0x3c6ef372, 0xa54ff53a, 0x510e527f, 0x9b05688c, 0x1f83d9ab,
      0x5be0cd19⟩
  block : Block := Vector.replicate 64 0
  used : ℕ := 0
  /-- A `uint64_t`. -/
  bits : ℕ := 0
  used_lt : used < 64 := by decide

/-- `memcpy` into a block. -/
def copyInto (block : Block) (pos : ℕ) (bytes : List UInt8) : Block :=
  Vector.ofFn fun i =>
    if pos ≤ i ∧ i < pos + bytes.length then bytes.getD (i - pos) 0 else block.get i

/-- What the loop of `update` does with the bytes that it has copied, when the block is full and
when it is not. -/
def afterCopy (s : Sha256) (bytes : List UInt8) : Sha256 :=
  let block := copyInto s.block s.used bytes
  if hfull : s.used + bytes.length < 64 then
    { s with block, used := s.used + bytes.length, used_lt := hfull }
  else { s with h := compress s.h block, block, used := 0, used_lt := Nat.zero_lt_succ 63 }

/-- The loop of `update`. -/
def updateLoop (s : Sha256) (input : List UInt8) : Sha256 :=
  if input = [] then s
  else
    let copy := min input.length (64 - s.used)
    updateLoop (afterCopy s (input.take copy)) (input.drop copy)
termination_by input.length
decreasing_by
  have hpos := List.length_pos_iff.2 ‹input ≠ []›
  have hlt := s.used_lt
  rw [List.length_drop]
  omega

/-- `update`. -/
def update (s : Sha256) (input : List UInt8) : Sha256 :=
  updateLoop { s with bits := (s.bits + input.length * 8 % 2 ^ 64) % 2 ^ 64 } input

/-- The digits of `finish`. -/
def hexDigit (n : ℕ) : Char := "0123456789abcdef".toList.getD n ' '

/-- The text of a hash value. -/
def hexText (h : Hash) : String :=
  String.ofList (h.words.flatMap fun word =>
    [28, 24, 20, 16, 12, 8, 4, 0].map fun shift => hexDigit (word >>> shift &&& 15).toNat)

/-- The bytes of the number of bits. -/
def lengthBytes (bits : ℕ) : List UInt8 :=
  [7, 6, 5, 4, 3, 2, 1, 0].map fun i => UInt8.ofNat (bits >>> (i * 8))

/-- The hash value in `finish`, before it is written as a text. -/
def finishHash (s : Sha256) : Hash :=
  let block := copyInto s.block s.used [0x80]
  let used := s.used + 1
  if used > 56 then
    let h := compress s.h (copyInto block used (List.replicate (64 - used) 0))
    let block := copyInto (copyInto block used (List.replicate (64 - used) 0)) 0
      (List.replicate 56 0)
    compress h (copyInto block 56 (lengthBytes s.bits))
  else
    let block := copyInto block used (List.replicate (56 - used) 0)
    compress s.h (copyInto block 56 (lengthBytes s.bits))

/-- `finish`. -/
def finish (s : Sha256) : String := hexText (finishHash s)

/-- `sha256_text`, of the bytes of a text. -/
def sha256Text (text : List UInt8) : String := finish (update {} text)

/-! ### Compression -/

lemma rotr_eq {count : ℕ} (hcount : count < 32) (value : Word) :
    rotr value count = value.rotateRight count := by
  rw [BitVec.rotateRight, Nat.mod_eq_of_lt hcount]
  rfl

/-- A byte is not cut off when it is shifted to its place. -/
lemma toNat_zeroExtend_shiftLeft (b : BitVec 8) {n : ℕ} (hn : n ≤ 24) :
    (b.zeroExtend 32 <<< n).toNat = b.toNat <<< n := by
  have hb : b.toNat < 2 ^ 8 := b.isLt
  have hlt : b.toNat <<< n < 2 ^ 32 := by
    rw [Nat.shiftLeft_eq]
    calc b.toNat * 2 ^ n < 2 ^ 8 * 2 ^ n := Nat.mul_lt_mul_of_pos_right hb (Nat.two_pow_pos n)
      _ = 2 ^ (8 + n) := (pow_add 2 8 n).symm
      _ ≤ 2 ^ 32 := Nat.pow_le_pow_right (by decide) (by omega)
  have hext : (b.zeroExtend 32).toNat = b.toNat := by
    rw [BitVec.toNat_setWidth]
    omega
  rw [BitVec.toNat_shiftLeft, hext, Nat.mod_eq_of_lt hlt]

/-- Shifting four bytes to their places concatenates them. -/
lemma shifted_eq_append (b₀ b₁ b₂ b₃ : BitVec 8) :
    b₀.zeroExtend 32 <<< 24 ||| b₁.zeroExtend 32 <<< 16 ||| b₂.zeroExtend 32 <<< 8 |||
      b₃.zeroExtend 32 = b₀ ++ b₁ ++ b₂ ++ b₃ := by
  have hright : (b₀ ++ b₁ ++ b₂ ++ b₃).toNat =
      b₀.toNat <<< 24 ||| b₁.toNat <<< 16 ||| b₂.toNat <<< 8 ||| b₃.toNat := by
    simp only [BitVec.toNat_append, Nat.shiftLeft_or_distrib, ← Nat.shiftLeft_add]
  have hlow : (b₃.zeroExtend 32).toNat = b₃.toNat := by
    simpa using toNat_zeroExtend_shiftLeft b₃ (Nat.zero_le 24)
  refine BitVec.eq_of_toNat_eq (Eq.trans ?_ hright.symm)
  rw [BitVec.toNat_or, BitVec.toNat_or, BitVec.toNat_or,
    toNat_zeroExtend_shiftLeft _ (by decide), toNat_zeroExtend_shiftLeft _ (by decide),
    toNat_zeroExtend_shiftLeft _ (by decide), hlow]

lemma loadWord_eq (block : Block) (i : ℕ) : loadWord block i = blockWord block.toList i :=
  shifted_eq_append _ _ _ _

lemma w_of_lt (block : List UInt8) {t : ℕ} (ht : t < 16) : w block t = blockWord block t := by
  rw [w, if_pos ht]

lemma w_of_le (block : List UInt8) {t : ℕ} (ht : 16 ≤ t) :
    w block t = w block (t - 16) + smallSigma0 (w block (t - 15)) + w block (t - 7) +
      smallSigma1 (w block (t - 2)) := by
  rw [w, if_neg (not_lt.2 ht)]
  ac_rfl

lemma getD_map_range {f : ℕ → Word} {n i : ℕ} (hi : i < n) :
    ((List.range n).map f).getD i 0 = f i := by
  rw [List.getD_eq_getElem?_getD, List.getElem?_map, List.getElem?_range hi]
  rfl

/-- The loop adds the next word of the message schedule. -/
lemma extendSchedule_map (block : List UInt8) {n : ℕ} (hn : 16 ≤ n) :
    extendSchedule ((List.range n).map (w block)) n = (List.range (n + 1)).map (w block) := by
  rw [extendSchedule, List.range_succ, List.map_append, List.map_singleton]
  congr 2
  rw [getD_map_range (by omega), getD_map_range (by omega), getD_map_range (by omega),
    getD_map_range (by omega), rotr_eq (by decide), rotr_eq (by decide), rotr_eq (by decide),
    rotr_eq (by decide), w_of_le block hn]
  rfl

lemma schedule_eq (block : Block) : schedule block = (List.range 64).map (w block.toList) := by
  have hloop : ∀ n, (List.range' 16 n).foldl extendSchedule
      ((List.range 16).map (loadWord block)) = (List.range (16 + n)).map (w block.toList) := by
    intro n
    induction n with
    | zero =>
        refine List.map_congr_left fun t ht => ?_
        rw [loadWord_eq, w_of_lt _ (List.mem_range.1 ht)]
    | succ n ih =>
        rw [List.range'_concat, List.foldl_append, ih, List.foldl_cons, List.foldl_nil, Nat.one_mul,
          extendSchedule_map _ (by omega)]
        rfl
  exact hloop 48

lemma roundStep_eq (block : List UInt8) (v : Hash) {i : ℕ} (hi : i < 64) :
    roundStep ((List.range 64).map (w block)) v i = round v (k.getD i 0) (w block i) := by
  rw [roundStep, getD_map_range hi, rotr_eq (by decide), rotr_eq (by decide), rotr_eq (by decide),
    rotr_eq (by decide), rotr_eq (by decide), rotr_eq (by decide)]
  rfl

/-- `compress` is the compression of the standard. -/
lemma compress_eq (h : Hash) (block : Block) :
    compress h block = Lib.Sha256.compress h block.toList := by
  have hrounds : (List.range 64).foldl (roundStep (schedule block)) h =
      (List.range 64).foldl (fun v t => round v (k.getD t 0) (w block.toList t)) h := by
    rw [schedule_eq]
    exact List.foldl_ext _ _ _ fun v t ht => roundStep_eq _ v (List.mem_range.1 ht)
  rw [compress, hrounds, Lib.Sha256.compress]
  simp only [Hash.add, BitVec.add_comm]

/-! ### The buffer -/

lemma getElem_copyInto {block : Block} {pos : ℕ} {bytes : List UInt8} {i : ℕ} (hi : i < 64) :
    (copyInto block pos bytes)[i] =
      if pos ≤ i ∧ i < pos + bytes.length then bytes.getD (i - pos) 0 else block[i] := by
  rw [copyInto, Vector.getElem_ofFn]
  rfl

/-- The bytes of the block in front of a copy, and the copy, stand in the block. -/
lemma take_copyInto (block : Block) {pos : ℕ} {bytes : List UInt8}
    (h : pos + bytes.length ≤ 64) :
    (copyInto block pos bytes).toList.take (pos + bytes.length) =
      block.toList.take pos ++ bytes := by
  have hlen : (block.toList.take pos).length = pos := by
    rw [List.length_take, Vector.length_toList]
    omega
  refine List.ext_getElem ?_ fun i hi hi' => ?_
  · rw [List.length_take, Vector.length_toList, List.length_append, hlen]
    omega
  · rw [List.length_append, hlen] at hi'
    rw [List.getElem_take, Vector.getElem_toList, getElem_copyInto]
    by_cases hpos : i < pos
    · rw [if_neg (by omega), List.getElem_append_left (by omega), List.getElem_take,
        Vector.getElem_toList]
    · rw [if_pos (by omega), List.getElem_append_right (by omega), List.getD_eq_getElem?_getD]
      simp only [hlen]
      rw [List.getElem?_eq_getElem (by omega), Option.getD_some]

/-- A copy that fills the block. -/
lemma toList_copyInto (block : Block) {pos : ℕ} {bytes : List UInt8}
    (h : pos + bytes.length = 64) :
    (copyInto block pos bytes).toList = block.toList.take pos ++ bytes := by
  rw [← take_copyInto block h.le, List.take_of_length_le]
  rw [Vector.length_toList, h]

/-- The bytes that wait for a full block. -/
def Sha256.pending (s : Sha256) : List UInt8 := s.block.toList.take s.used

lemma Sha256.length_pending (s : Sha256) : s.pending.length = s.used := by
  have hlt := s.used_lt
  rw [pending, List.length_take, Vector.length_toList]
  omega

/-- The state after a message: its full blocks are compressed, and the rest waits. -/
structure Fed (s : Sha256) (message : List UInt8) (blocks : List (List UInt8)) : Prop where
  buffered : Buffered 64 message blocks s.pending
  hash : s.h = blocks.foldl Lib.Sha256.compress initial

lemma fed_start : Fed {} [] [] := ⟨Buffered.nil (by decide), rfl⟩

section Steps

variable {s : Sha256} {message : List UInt8} {blocks : List (List UInt8)}

/-- A block that is filled and compressed. -/
lemma Fed.compress_full (h : Fed s message blocks) {block : Block} {bytes : List UInt8}
    (hblock : block.toList = s.pending ++ bytes) :
    compress s.h block = (blocks ++ [s.pending ++ bytes]).foldl Lib.Sha256.compress initial := by
  rw [compress_eq, hblock, h.hash, List.foldl_append, List.foldl_cons, List.foldl_nil]

lemma Fed.afterCopy (h : Fed s message blocks) {bytes : List UInt8}
    (hfits : s.used + bytes.length ≤ 64) :
    ∃ blocks', Fed (Digest.afterCopy s bytes) (message ++ bytes) blocks' := by
  rw [Digest.afterCopy]
  split_ifs with hshort
  · refine ⟨blocks, ?_, h.hash⟩
    rw [Sha256.pending, take_copyInto _ hfits]
    refine h.buffered.append_short ?_
    rw [s.length_pending]
    exact hshort
  · have hfull : s.used + bytes.length = 64 := le_antisymm hfits (not_lt.1 hshort)
    refine ⟨blocks ++ [s.pending ++ bytes], ?_, h.compress_full (toList_copyInto _ hfull)⟩
    exact h.buffered.append_full (by rw [s.length_pending, hfull]) (by decide)

lemma afterCopy_bits (s : Sha256) (bytes : List UInt8) :
    (Digest.afterCopy s bytes).bits = s.bits := by
  rw [Digest.afterCopy]
  split_ifs <;> rfl

/-- The loop takes the whole piece, whatever its length is. -/
lemma Fed.updateLoop (h : Fed s message blocks) (input : List UInt8) :
    (∃ blocks', Fed (Digest.updateLoop s input) (message ++ input) blocks') ∧
      (Digest.updateLoop s input).bits = s.bits := by
  induction hlength : input.length using Nat.strong_induction_on generalizing s message blocks input
    with
  | _ n ih =>
  by_cases hinput : input = []
  · rw [Digest.updateLoop, if_pos hinput, hinput, List.append_nil]
    exact ⟨⟨blocks, h⟩, rfl⟩
  · have hlt := s.used_lt
    have hpos := List.length_pos_iff.2 hinput
    -- at least one byte is copied, so the rest of the piece is shorter
    have hfits : s.used + (input.take (min input.length (64 - s.used))).length ≤ 64 := by
      rw [List.length_take]
      omega
    obtain ⟨blocks', hcopied⟩ := h.afterCopy hfits
    obtain ⟨hfed, hbits⟩ := ih (input.drop (min input.length (64 - s.used))).length
      (by rw [List.length_drop]; omega) hcopied _ rfl
    rw [List.append_assoc, List.take_append_drop] at hfed
    rw [Digest.updateLoop, if_neg hinput]
    exact ⟨hfed, hbits.trans (afterCopy_bits s _)⟩

end Steps

/-- The state after the pieces of a message. -/
structure FedAll (s : Sha256) (message : List UInt8) : Prop where
  fed : ∃ blocks, Fed s message blocks
  bits : s.bits = message.length * 8 % 2 ^ 64

lemma FedAll.update {s : Sha256} {message : List UInt8} (h : FedAll s message)
    (input : List UInt8) : FedAll (Digest.update s input) (message ++ input) := by
  obtain ⟨blocks, hfed⟩ := h.fed
  have hstart : Fed { s with bits := (s.bits + input.length * 8 % 2 ^ 64) % 2 ^ 64 } message
      blocks := ⟨hfed.buffered, hfed.hash⟩
  obtain ⟨hloop, hbits⟩ := hstart.updateLoop input
  refine ⟨hloop, hbits.trans ?_⟩
  show (s.bits + input.length * 8 % 2 ^ 64) % 2 ^ 64 = _
  rw [h.bits, List.length_append, Nat.add_mul, ← Nat.add_mod]

lemma FedAll.updates {s : Sha256} {message : List UInt8} (h : FedAll s message)
    (chunks : List (List UInt8)) :
    FedAll (chunks.foldl Digest.update s) (message ++ chunks.flatten) := by
  induction chunks generalizing s message with
  | nil => simpa using h
  | cons chunk chunks ih =>
      rw [List.foldl_cons, List.flatten_cons, ← List.append_assoc]
      exact ih (h.update chunk)

/-! ### The end of the message -/

/-- The bytes of the length, the highest first. -/
lemma lengthBytes_eq (bits : ℕ) : lengthBytes bits = beBytes 8 bits := by
  simp only [lengthBytes, beBytes, List.map_cons, List.map_nil, Nat.shiftRight_eq_div_pow]
  rfl

lemma length_beBytes (width n : ℕ) : (beBytes width n).length = width := by
  rw [beBytes, List.length_map, List.length_range]

section Finish

variable {s : Sha256} {message : List UInt8} {blocks : List (List UInt8)}

/-- The one bit and zero bits behind the bytes of a block. -/
lemma take_marked (block : Block) {used stop : ℕ} (hused : used < stop) (hstop : stop ≤ 64) :
    (copyInto (copyInto block used [0x80]) (used + 1)
        (List.replicate (stop - (used + 1)) 0)).toList.take stop =
      block.toList.take used ++ 0x80 :: List.replicate (stop - (used + 1)) 0 := by
  have hone : ([0x80] : List UInt8).length = 1 := rfl
  have hend : used + 1 + (List.replicate (stop - (used + 1)) (0 : UInt8)).length = stop := by
    rw [List.length_replicate]
    omega
  have hmark : (copyInto block used [0x80]).toList.take (used + 1) =
      block.toList.take used ++ [0x80] := by
    have hfits : used + ([0x80] : List UInt8).length ≤ 64 := by
      rw [hone]
      omega
    rw [← take_copyInto block hfits, hone]
  have hzeros := take_copyInto (copyInto block used [0x80]) (hend.trans_le hstop)
  rw [hend, hmark, List.append_assoc, List.singleton_append] at hzeros
  exact hzeros

/-- The last block has room for the padding. -/
lemma Fed.finishHash_short (h : Fed s message blocks) (hused : s.used < 56) :
    finishHash s = (blocks ++ [s.pending ++ 0x80 :: (List.replicate (55 - s.used) 0 ++
      beBytes 8 s.bits)]).foldl Lib.Sha256.compress initial := by
  have hzeros : 56 - (s.used + 1) = 55 - s.used := by omega
  rw [finishHash, if_neg (by omega), lengthBytes_eq]
  refine h.compress_full ?_
  rw [toList_copyInto _ (by rw [length_beBytes]), take_marked _ hused (by decide), List.append_assoc,
    List.cons_append, hzeros]
  rfl

/-- Zero bytes up to the length, and the length. -/
lemma toList_lengthBlock (block : Block) (bits : ℕ) :
    (copyInto (copyInto block 0 (List.replicate 56 0)) 56 (beBytes 8 bits)).toList =
      List.replicate 56 0 ++ beBytes 8 bits := by
  have hzeros : (List.replicate 56 (0 : UInt8)).length = 56 := List.length_replicate
  have hfits : 0 + (List.replicate 56 (0 : UInt8)).length ≤ 64 := by
    rw [hzeros]
    decide
  have htake := take_copyInto block hfits
  rw [hzeros, Nat.zero_add, List.take_zero, List.nil_append] at htake
  rw [toList_copyInto _ (by rw [length_beBytes]), htake]

/-- The padding needs one more block. -/
lemma Fed.finishHash_long (h : Fed s message blocks) (hused : 56 ≤ s.used) :
    finishHash s = ((blocks ++ [s.pending ++ 0x80 :: List.replicate (63 - s.used) 0]) ++
      [List.replicate 56 0 ++ beBytes 8 s.bits]).foldl Lib.Sha256.compress initial := by
  have hlt := s.used_lt
  have hzeros : 64 - (s.used + 1) = 63 - s.used := by omega
  have hfirst := take_marked s.block hlt le_rfl
  rw [List.take_of_length_le (by rw [Vector.length_toList]), hzeros] at hfirst
  have hmarked := h.compress_full hfirst
  rw [finishHash, if_pos (by omega), lengthBytes_eq, hzeros, List.foldl_append, List.foldl_cons,
    List.foldl_nil, hmarked, compress_eq, toList_lengthBlock]

/-- `finish` compresses the blocks of the padded message. -/
lemma Fed.finishHash_eq (h : Fed s message blocks) (hbits : s.bits = 8 * message.length) :
    finishHash s = (parseBlocks 64 (pad message)).foldl Lib.Sha256.compress initial := by
  have hlt := s.used_lt
  have hrest := h.buffered.length_rest
  rw [s.length_pending] at hrest
  have hzeros := zeroBytes_eq message.length
  rw [← hrest] at hzeros
  split_ifs at hzeros with hroom
  · rw [h.finishHash_short hroom, pad, hzeros, hbits]
    rw [(h.buffered.append_full ?_ (by decide)).parseBlocks_eq]
    rw [s.length_pending, List.length_cons, List.length_append, List.length_replicate,
      length_beBytes]
    omega
  · have hsplit : 119 - s.used = 63 - s.used + 56 := by omega
    have hpad : pad message = message ++ 0x80 :: List.replicate (63 - s.used) 0 ++
        (List.replicate 56 0 ++ beBytes 8 (8 * message.length)) := by
      rw [pad, hzeros, hsplit, List.replicate_add, List.append_assoc, List.append_assoc,
        List.cons_append]
    have hfirst := h.buffered.append_full (x := 0x80 :: List.replicate (63 - s.used) 0) (by
      rw [s.length_pending, List.length_cons, List.length_replicate]
      omega) (by decide)
    have hsecond := hfirst.append_full (x := List.replicate 56 0 ++ beBytes 8 (8 * message.length))
      (by rw [List.length_nil, List.length_append, List.length_replicate, length_beBytes])
      (by decide)
    rw [h.finishHash_long (not_lt.1 hroom), hbits, hpad, hsecond.parseBlocks_eq, List.nil_append]

end Finish

/-! ### The digest -/

/-- The lowercase hexadecimal text of bytes. -/
def hexOf (bytes : List UInt8) : String :=
  String.ofList (bytes.flatMap fun byte =>
    [Nat.digitChar (byte.toNat / 16), Nat.digitChar (byte.toNat % 16)])

lemma hexDigit_eq {n : ℕ} (hn : n < 16) : hexDigit n = Nat.digitChar n := by
  interval_cases n <;> rfl

lemma toNat_shiftRight_and (word : Word) (shift : ℕ) :
    (word >>> shift &&& 15).toNat = word.toNat / 2 ^ shift % 16 := by
  rw [BitVec.toNat_and, BitVec.toNat_ushiftRight, Nat.shiftRight_eq_div_pow]
  exact Nat.and_two_pow_sub_one_eq_mod _ 4

/-- The eight digits of a word are those of its four bytes. -/
lemma hexDigits_word (word : Word) :
    ([28, 24, 20, 16, 12, 8, 4, 0].map fun shift => hexDigit (word >>> shift &&& 15).toNat) =
      (bytesOfWord word).flatMap fun byte =>
        [Nat.digitChar (byte.toNat / 16), Nat.digitChar (byte.toNat % 16)] := by
  have hdigit : ∀ shift, hexDigit (word >>> shift &&& 15).toNat =
      Nat.digitChar (word.toNat / 2 ^ shift % 16) := by
    intro shift
    rw [toNat_shiftRight_and, hexDigit_eq (Nat.mod_lt _ (by decide))]
  have hhigh : ∀ n m : ℕ, n / m % 256 / 16 = n / (m * 16) % 16 := by
    intro n m
    rw [← Nat.div_div_eq_div_mul]
    omega
  have hlow : ∀ n m : ℕ, n / m % 256 % 16 = n / m % 16 := by
    intro n m
    omega
  have hbytes : bytesOfWord word = [UInt8.ofNat (word.toNat / 2 ^ 24),
      UInt8.ofNat (word.toNat / 2 ^ 16), UInt8.ofNat (word.toNat / 2 ^ 8),
      UInt8.ofNat (word.toNat / 2 ^ 0)] := rfl
  simp only [hbytes, hdigit, List.map_cons, List.map_nil, List.flatMap_cons, List.flatMap_nil,
    UInt8.toNat_ofNat', hhigh, hlow]
  rfl

lemma hexText_eq (h : Hash) : hexText h = hexOf (h.words.flatMap bytesOfWord) := by
  rw [hexText, hexOf, List.flatMap_assoc]
  simp only [hexDigits_word]

/-- Streaming SHA-256 is SHA-256: the digest of a message does not depend on how it is cut into
pieces. -/
theorem finish_updates (message : List UInt8) (hlength : message.length < 2 ^ 61)
    (chunks : List (List UInt8)) (hchunks : chunks.flatten = message) :
    finish (chunks.foldl update {}) = hexOf (digest message) := by
  have hstart : FedAll {} [] := ⟨⟨[], fed_start⟩, rfl⟩
  have hall := hstart.updates chunks
  rw [List.nil_append, hchunks] at hall
  obtain ⟨blocks, hfed⟩ := hall.fed
  have hbits : (chunks.foldl update {}).bits = 8 * message.length := by
    rw [hall.bits, Nat.mod_eq_of_lt (by omega), Nat.mul_comm]
  rw [finish, hfed.finishHash_eq hbits, hexText_eq, digest]

/-- The message `abc`, in two pieces. -/
theorem finish_updates_abc :
    ([0x61, 0x62, 0x63] : List UInt8).length < 2 ^ 61 ∧
      [[0x61], [0x62, 0x63]].flatten = ([0x61, 0x62, 0x63] : List UInt8) ∧
      finish ([[0x61], [0x62, 0x63]].foldl update {}) = hexOf (digest [0x61, 0x62, 0x63]) :=
  ⟨by decide, rfl, finish_updates _ (by decide) _ rfl⟩

example : sha256Text [0x61, 0x62, 0x63] =
    "ba7816bf8f01cfea414140de5dae2223b00361a396177a9cb410ff61f20015ad" := by
  decide +kernel

end XdebugFst.Digest
