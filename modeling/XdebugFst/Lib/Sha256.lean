import Mathlib
import XdebugFst.Lib.BlockBuffer

/-!
# SHA-256

The hash function of FIPS 180-4, for messages of whole bytes. The names are those of the standard:
`ch`, `maj`, the four sigmas, the constants `k`, the message schedule `w`, and the hash value `H` of
eight words. A message is padded to a multiple of 64 bytes, and each block of 64 bytes is
compressed into the hash value.
-/

namespace Lib.Sha256

/-- A word of 32 bits. -/
abbrev Word : Type := BitVec 32

/-! ### Functions and constants -/

def ch (x y z : Word) : Word := (x &&& y) ^^^ (~~~x &&& z)
def maj (x y z : Word) : Word := (x &&& y) ^^^ (x &&& z) ^^^ (y &&& z)
def bigSigma0 (x : Word) : Word := x.rotateRight 2 ^^^ x.rotateRight 13 ^^^ x.rotateRight 22
def bigSigma1 (x : Word) : Word := x.rotateRight 6 ^^^ x.rotateRight 11 ^^^ x.rotateRight 25
def smallSigma0 (x : Word) : Word := x.rotateRight 7 ^^^ x.rotateRight 18 ^^^ x >>> 3
def smallSigma1 (x : Word) : Word := x.rotateRight 17 ^^^ x.rotateRight 19 ^^^ x >>> 10

/-- The constants: the first 32 bits of the fractional parts of the cube roots of the first
sixty-four primes. -/
def k : List Word :=
  [0x428a2f98, 0x71374491, 0xb5c0fbcf, 0xe9b5dba5, 0x3956c25b, 0x59f111f1, 0x923f82a4, 0xab1c5ed5,
    0xd807aa98, 0x12835b01, 0x243185be, 0x550c7dc3, 0x72be5d74, 0x80deb1fe, 0x9bdc06a7, 0xc19bf174,
    0xe49b69c1, 0xefbe4786, 0x0fc19dc6, 0x240ca1cc, 0x2de92c6f, 0x4a7484aa, 0x5cb0a9dc, 0x76f988da,
    0x983e5152, 0xa831c66d, 0xb00327c8, 0xbf597fc7, 0xc6e00bf3, 0xd5a79147, 0x06ca6351, 0x14292967,
    0x27b70a85, 0x2e1b2138, 0x4d2c6dfc, 0x53380d13, 0x650a7354, 0x766a0abb, 0x81c2c92e, 0x92722c85,
    0xa2bfe8a1, 0xa81a664b, 0xc24b8b70, 0xc76c51a3, 0xd192e819, 0xd6990624, 0xf40e3585, 0x106aa070,
    0x19a4c116, 0x1e376c08, 0x2748774c, 0x34b0bcb5, 0x391c0cb3, 0x4ed8aa4a, 0x5b9cca4f, 0x682e6ff3,
    0x748f82ee, 0x78a5636f, 0x84c87814, 0x8cc70208, 0x90befffa, 0xa4506ceb, 0xbef9a3f7, 0xc67178f2]

/-- The first sixty-four primes. -/
def firstPrimes : List ℕ :=
  [2, 3, 5, 7, 11, 13, 17, 19, 23, 29, 31, 37, 41, 43, 47, 53, 59, 61, 67, 71, 73, 79, 83, 89, 97,
    101, 103, 107, 109, 113, 127, 131, 137, 139, 149, 151, 157, 163, 167, 173, 179, 181, 191, 193,
    197, 199, 211, 223, 227, 229, 233, 239, 241, 251, 257, 263, 269, 271, 277, 281, 283, 293, 307,
    311]

/-- With some integral part each constant is the cube root of its prime, rounded down to 32 bits
behind the point. -/
example : ∀ entry ∈ firstPrimes.zip k, ∃ c < 7,
    (c * 2 ^ 32 + entry.2.toNat) ^ 3 ≤ entry.1 * 2 ^ 96 ∧
      entry.1 * 2 ^ 96 < (c * 2 ^ 32 + entry.2.toNat + 1) ^ 3 := by
  decide +kernel

/-- A hash value: eight words, which are also the working variables. -/
@[ext]
structure Hash where
  a : Word
  b : Word
  c : Word
  d : Word
  e : Word
  f : Word
  g : Word
  h : Word
  deriving DecidableEq

/-- The initial hash value: the first 32 bits of the fractional parts of the square roots of the
first eight primes. -/
def initial : Hash :=
  ⟨0x6a09e667, 0xbb67ae85, 0x3c6ef372, 0xa54ff53a, 0x510e527f, 0x9b05688c, 0x1f83d9ab, 0x5be0cd19⟩

namespace Hash

def words (hash : Hash) : List Word :=
  [hash.a, hash.b, hash.c, hash.d, hash.e, hash.f, hash.g, hash.h]

def add (x y : Hash) : Hash :=
  ⟨x.a + y.a, x.b + y.b, x.c + y.c, x.d + y.d, x.e + y.e, x.f + y.f, x.g + y.g, x.h + y.h⟩

end Hash

example : ∀ entry ∈ firstPrimes.zip initial.words, ∃ c < 5,
    (c * 2 ^ 32 + entry.2.toNat) ^ 2 ≤ entry.1 * 2 ^ 64 ∧
      entry.1 * 2 ^ 64 < (c * 2 ^ 32 + entry.2.toNat + 1) ^ 2 := by
  decide +kernel

/-! ### Padding -/

/-- There are zero bytes that bring a message of `n` bytes to 56 bytes of its last block. -/
lemma exists_zeroBytes (n : ℕ) : ∃ z, (n + 1 + z) % 64 = 56 :=
  ⟨119 - n % 64, by omega⟩

/-- The number of zero bytes behind the byte `0x80`, the least that there can be. -/
def zeroBytes (n : ℕ) : ℕ := Nat.find (exists_zeroBytes n)

/-- The message is brought to the end of its last block, or of one more. -/
lemma zeroBytes_eq (n : ℕ) :
    zeroBytes n = if n % 64 < 56 then 55 - n % 64 else 119 - n % 64 := by
  rw [zeroBytes, Nat.find_eq_iff]
  split_ifs with hroom
  · exact ⟨by omega, fun z hz => by omega⟩
  · exact ⟨by omega, fun z hz => by omega⟩

/-- The `width` low bytes of a number, the highest first. -/
def beBytes (width n : ℕ) : List UInt8 :=
  (List.range width).map fun i => UInt8.ofNat (n / 256 ^ (width - 1 - i))

/-- A message with a one bit, zero bits up to 64 bits before the end of a block, and the number of
its bits as a number of 64 bits. -/
def pad (message : List UInt8) : List UInt8 :=
  message ++ 0x80 :: (List.replicate (zeroBytes message.length) 0 ++
    beBytes 8 (8 * message.length))

/-! ### Compression -/

/-- The word of four bytes, the highest first. -/
def wordOfBytes (b₀ b₁ b₂ b₃ : UInt8) : Word :=
  b₀.toBitVec ++ b₁.toBitVec ++ b₂.toBitVec ++ b₃.toBitVec

/-- The word `t` of a block. -/
def blockWord (block : List UInt8) (t : ℕ) : Word :=
  wordOfBytes (block.getD (4 * t) 0) (block.getD (4 * t + 1) 0) (block.getD (4 * t + 2) 0)
    (block.getD (4 * t + 3) 0)

/-- The message schedule. -/
def w (block : List UInt8) (t : ℕ) : Word :=
  if t < 16 then blockWord block t
  else smallSigma1 (w block (t - 2)) + w block (t - 7) + smallSigma0 (w block (t - 15)) +
    w block (t - 16)
termination_by t

/-- One round with a constant and a word of the schedule. -/
def round (v : Hash) (kt wt : Word) : Hash :=
  let t₁ := v.h + bigSigma1 v.e + ch v.e v.f v.g + kt + wt
  let t₂ := bigSigma0 v.a + maj v.a v.b v.c
  ⟨t₁ + t₂, v.a, v.b, v.c, v.d + t₁, v.e, v.f, v.g⟩

/-- The next hash value, from a block. -/
def compress (hash : Hash) (block : List UInt8) : Hash :=
  ((List.range 64).foldl (fun v t => round v (k.getD t 0) (w block t)) hash).add hash

/-! ### The digest -/

/-- The bytes of a word, the highest first. -/
def bytesOfWord (x : Word) : List UInt8 := beBytes 4 x.toNat

/-- The message digest. -/
def digest (message : List UInt8) : List UInt8 :=
  (((parseBlocks 64 (pad message)).foldl compress initial).words).flatMap bytesOfWord

end Lib.Sha256
