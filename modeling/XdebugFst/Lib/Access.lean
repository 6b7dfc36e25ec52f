import Mathlib.Data.List.Basic
import Mathlib.Tactic.NormNum

/-!
Memory accesses that may fault, and checks that may reject.

A computation that only loads from a memory of fixed size is a value of
`Option`: `none` is a fault, an access outside the memory, a null
pointer that is followed, a loop that does not come to its end. A
computation that also validates what it loads has a second way to stop,
a rejection, and is a value of `Except Stop`. The two ways are kept
apart because a validator may reject whatever it likes but must never
fault.

Both kinds get a notion of total correctness. `Yields x Q` says that
`x` does not fault and that its result satisfies `Q`; `Checks x Q` says
that `x` does not fault and that its result satisfies `Q` unless `x`
rejects. One statement of the second form is at once the memory safety
of a validator and the meaning of its acceptance, and the rules below
let it be assembled from the statements about its parts.

The memory itself is a list of bytes. Multi-byte loads are
little-endian, and strings are terminated by a zero byte.
-/

namespace Lib

/-! ### Total correctness of loads -/

/-- `x` does not fault and its result satisfies `Q`. -/
def Yields {α : Type} (x : Option α) (Q : α → Prop) : Prop :=
  ∃ a, x = some a ∧ Q a

section Yields

variable {α β : Type} {x : Option α} {f : α → Option β} {Q : α → Prop} {R : β → Prop}

lemma Yields.pure {a : α} (h : Q a) : Yields (some a) Q := ⟨a, rfl, h⟩

lemma Yields.bind (hx : Yields x Q) (hf : ∀ a, Q a → Yields (f a) R) :
    Yields (x >>= f) R := by
  obtain ⟨a, rfl, ha⟩ := hx
  exact hf a ha

lemma Yields.mono {P : α → Prop} (hx : Yields x P) (h : ∀ a, P a → Q a) : Yields x Q := by
  obtain ⟨a, ha, hp⟩ := hx
  exact ⟨a, ha, h a hp⟩

/-- A traversal of a list does not fault when no element makes it
fault, and it has one result for each element. -/
lemma Yields.mapM {γ : Type} {g : γ → Option β} {l : List γ}
    (h : ∀ c ∈ l, Yields (g c) R) :
    Yields (l.mapM g) fun bs => bs.length = l.length ∧ ∀ b ∈ bs, R b := by
  induction l with
  | nil => exact ⟨[], rfl, by simp⟩
  | cons c l ih =>
      rw [List.mapM_cons]
      refine (h c List.mem_cons_self).bind fun b hb => ?_
      refine (ih fun c' hc' => h c' (List.mem_cons_of_mem _ hc')).bind fun bs ⟨hlen, hbs⟩ => ?_
      exact .pure ⟨by simp [hlen], List.forall_mem_cons.mpr ⟨hb, hbs⟩⟩

end Yields

/-! ### Total correctness of checks -/

/-- How a check stops before its end. -/
inductive Stop where
  | fault
  | reject
  deriving DecidableEq, Repr

/-- A load as a step of a check. -/
def load {α : Type} (x : Option α) : Except Stop α :=
  match x with
  | none => .error .fault
  | some a => .ok a

/-- Rejection unless `c` holds. -/
def require (c : Prop) [Decidable c] : Except Stop Unit :=
  if c then .ok () else .error .reject

/-- `x` does not fault, and if it does not reject either then its
result satisfies `Q`. -/
def Checks {α : Type} (x : Except Stop α) (Q : α → Prop) : Prop :=
  x ≠ .error .fault ∧ ∀ a, x = .ok a → Q a

section Checks

variable {α β : Type} {x : Except Stop α} {f : α → Except Stop β} {Q : α → Prop} {R : β → Prop}

lemma Checks.pure {a : α} (h : Q a) : Checks (.ok a) Q := by
  refine ⟨by simp, ?_⟩
  rintro b hb
  obtain rfl := Except.ok.inj hb
  exact h

lemma Checks.reject : Checks (.error .reject : Except Stop α) Q :=
  ⟨by simp, by simp⟩

lemma Checks.bind (hx : Checks x Q) (hf : ∀ a, Q a → Checks (f a) R) :
    Checks (x >>= f) R := by
  cases x with
  | ok a => exact hf a (hx.2 a rfl)
  | error e =>
      cases e with
      | fault => exact absurd rfl hx.1
      | reject => exact Checks.reject

lemma Checks.load {y : Option α} (h : Yields y Q) : Checks (Lib.load y) Q := by
  obtain ⟨a, rfl, ha⟩ := h
  exact .pure ha

/-- A load whose result is known is passed over. -/
lemma Checks.load_bind {y : Option α} {a : α} (hy : y = some a) (hf : Checks (f a) R) :
    Checks (Lib.load y >>= f) R := by
  subst hy
  exact hf

lemma Checks.require {c : Prop} [Decidable c] : Checks (Lib.require c) fun _ => c := by
  unfold Lib.require
  split
  · exact .pure ‹c›
  · exact .reject

lemma Checks.mono {P : α → Prop} (hx : Checks x P) (h : ∀ a, P a → Q a) : Checks x Q :=
  ⟨hx.1, fun a ha => h a (hx.2 a ha)⟩

end Checks

/-- `x` comes to its end, and its result satisfies `Q`. -/
def Accepts {α : Type} (x : Except Stop α) (Q : α → Prop) : Prop :=
  ∃ a, x = .ok a ∧ Q a

section Accepts

variable {α β : Type} {x : Except Stop α} {f : α → Except Stop β} {Q : α → Prop} {R : β → Prop}

lemma Accepts.pure {a : α} (h : Q a) : Accepts (.ok a) Q := ⟨a, rfl, h⟩

lemma Accepts.bind (hx : Accepts x Q) (hf : ∀ a, Q a → Accepts (f a) R) :
    Accepts (x >>= f) R := by
  obtain ⟨a, rfl, ha⟩ := hx
  exact hf a ha

lemma Accepts.load {y : Option α} {a : α} (hy : y = some a) (hf : Accepts (f a) R) :
    Accepts (Lib.load y >>= f) R := by
  subst hy
  exact hf

lemma Accepts.require {c : Prop} [Decidable c] {g : Unit → Except Stop β} (hc : c)
    (hf : Accepts (g ()) R) : Accepts (Lib.require c >>= g) R := by
  rw [Lib.require, if_pos hc]
  exact hf

end Accepts

/-! ### Counted loops -/

/-- The loop that runs `step` at `i`, `i + 1`, …, `k` times, threading
a state through. -/
def forFrom {σ : Type} (step : ℕ → σ → Except Stop σ) : ℕ → ℕ → σ → Except Stop σ
  | 0, _, s => .ok s
  | k + 1, i, s => step i s >>= forFrom step k (i + 1)

/-- The invariant rule of the counted loop. -/
lemma Checks.forFrom {σ : Type} {step : ℕ → σ → Except Stop σ} {I : ℕ → σ → Prop}
    {k i : ℕ} {s : σ} (h0 : I i s)
    (hstep : ∀ j t, i ≤ j → j < i + k → I j t → Checks (step j t) (I (j + 1))) :
    Checks (Lib.forFrom step k i s) (I (i + k)) := by
  induction k generalizing i s with
  | zero => exact .pure h0
  | succ k ih =>
      refine (hstep i s le_rfl (by omega) h0).bind fun t ht => ?_
      have := ih ht fun j u hij hjk hu => hstep j u (by omega) (by omega) hu
      rwa [Nat.add_right_comm] at this

/-- A counted loop whose steps are independent of each other
establishes what each of its steps does. -/
lemma Checks.forFrom_forall {body : ℕ → Except Stop Unit} {P : ℕ → Prop} {i k : ℕ}
    (h : ∀ j, i ≤ j → j < i + k → Checks (body j) fun _ => P j) :
    Checks (Lib.forFrom (fun j _ => body j) k i ()) fun _ => ∀ j, i ≤ j → j < i + k → P j := by
  refine Checks.forFrom (I := fun n _ => ∀ j, i ≤ j → j < n → P j) (by omega) ?_
  intro j _ hij hjk hinv
  refine (h j hij hjk).mono fun _ hj n hin hnj => ?_
  rcases Nat.lt_succ_iff_lt_or_eq.mp hnj with hlt | rfl
  · exact hinv n hin hlt
  · exact hj

/-- The invariant rule for a loop that comes to its end. -/
lemma Accepts.forFrom {σ : Type} {step : ℕ → σ → Except Stop σ} {I : ℕ → σ → Prop}
    {k i : ℕ} {s : σ} (h0 : I i s)
    (hstep : ∀ j t, i ≤ j → j < i + k → I j t → Accepts (step j t) (I (j + 1))) :
    Accepts (Lib.forFrom step k i s) (I (i + k)) := by
  induction k generalizing i s with
  | zero => exact .pure h0
  | succ k ih =>
      refine (hstep i s le_rfl (by omega) h0).bind fun t ht => ?_
      have := ih ht fun j u hij hjk hu => hstep j u (by omega) (by omega) hu
      rwa [Nat.add_right_comm] at this

/-- A loop whose steps are independent of each other. -/
lemma Accepts.forFrom_unit {body : ℕ → Except Stop Unit} {i k : ℕ}
    (h : ∀ j, i ≤ j → j < i + k → Accepts (body j) fun _ => True) :
    Accepts (Lib.forFrom (fun j _ => body j) k i ()) fun _ => True :=
  Accepts.forFrom (I := fun _ _ => True) trivial fun j _ hij hjk _ => h j hij hjk

/-! ### Bytes -/

/-- The unsigned little-endian integer of `width` bytes at `pos`. -/
def readLE (m : List UInt8) : ℕ → ℕ → Option ℕ
  | 0, _ => some 0
  | width + 1, pos => do
      let low ← m[pos]?
      let high ← readLE m width (pos + 1)
      return low.toNat + 256 * high

lemma readLE_yields {m : List UInt8} {width pos : ℕ} (h : pos + width ≤ m.length) :
    Yields (readLE m width pos) (· < 256 ^ width) := by
  induction width generalizing pos with
  | zero => exact .pure (by simp)
  | succ width ih =>
      have hpos : pos < m.length := by omega
      refine Yields.bind (Q := fun _ => True) ⟨m[pos], by simp [hpos], trivial⟩ fun low _ => ?_
      refine (ih (by omega)).bind fun high hhigh => .pure ?_
      have hlow := low.toNat_lt
      rw [pow_succ]
      omega

/-- The 32-bit two's complement reading of an unsigned value. -/
def toInt32 (n : ℕ) : ℤ := Int.bmod n (2 ^ 32)

/-- Values below `2 ^ 31` are read as themselves. -/
lemma toInt32_of_lt {n : ℕ} (h : n < 2 ^ 31) : toInt32 n = n := by
  unfold toInt32
  rw [Int.bmod_eq_of_le] <;> omega

/-- Reading a 32-bit unsigned value. -/
def readU32 (m : List UInt8) (pos : ℕ) : Option ℕ := readLE m 4 pos

/-- Reading a 32-bit signed value. -/
def readI32 (m : List UInt8) (pos : ℕ) : Option ℤ := (readLE m 4 pos).map toInt32

/-- Reading a 64-bit unsigned value. -/
def readU64 (m : List UInt8) (pos : ℕ) : Option ℕ := readLE m 8 pos

lemma readU32_yields {m : List UInt8} {pos : ℕ} (h : pos + 4 ≤ m.length) :
    Yields (readU32 m pos) fun _ => True :=
  (readLE_yields h).mono fun _ _ => trivial

lemma readI32_yields {m : List UInt8} {pos : ℕ} (h : pos + 4 ≤ m.length) :
    Yields (readI32 m pos) fun _ => True := by
  obtain ⟨n, hn, -⟩ := readLE_yields h
  exact ⟨toInt32 n, by rw [readI32, hn]; rfl, trivial⟩

lemma readU64_yields {m : List UInt8} {pos : ℕ} (h : pos + 8 ≤ m.length) :
    Yields (readU64 m pos) (· < 2 ^ 64) :=
  (readLE_yields h).mono fun _ hn => by norm_num at hn ⊢; exact hn

/-! ### Strings -/

/-- Whether a zero byte is among the first `n` bytes of the memory that
remains. Bytes after the zero are not looked at. -/
def memchr : ℕ → List UInt8 → Option Bool
  | 0, _ => some false
  | _ + 1, [] => none
  | n + 1, b :: bs => if b = 0 then some true else memchr n bs

/-- The bytes before the next zero of the memory that remains. -/
def cString : List UInt8 → Option (List UInt8)
  | [] => none
  | b :: bs => if b = 0 then some [] else (cString bs).map (b :: ·)

lemma memchr_yields {n : ℕ} {bs : List UInt8} (h : n ≤ bs.length) :
    Yields (memchr n bs) fun found => found = true → ∃ k < n, bs[k]? = some 0 := by
  induction n generalizing bs with
  | zero => exact .pure (by simp)
  | succ n ih =>
      cases bs with
      | nil => simp at h
      | cons b bs =>
          rw [memchr]
          split
          · exact .pure fun _ => ⟨0, by omega, by simp [*]⟩
          · refine (ih (by simpa using h)).mono fun found hfound ht => ?_
            obtain ⟨k, hk, hbk⟩ := hfound ht
            exact ⟨k + 1, by omega, by simpa using hbk⟩

lemma cString_yields {bs : List UInt8} {k : ℕ} (h : bs[k]? = some 0) :
    Yields (cString bs) fun s => s.length ≤ k := by
  induction bs generalizing k with
  | nil => simp at h
  | cons b bs ih =>
      rw [cString]
      split
      · exact .pure (by simp)
      · cases k with
        | zero => simp_all
        | succ k =>
            obtain ⟨s, hs, hlen⟩ := ih (by simpa using h)
            exact ⟨b :: s, by rw [hs]; rfl, by simpa using hlen⟩

/-! ### Prefix arrays -/

/-- The values `s 0, …, s n` cut the range below `m` into `n`
consecutive pieces, the piece `a` running from `s a` to `s (a + 1)`. -/
structure IsCut (s : ℕ → ℕ) (n m : ℕ) : Prop where
  first : s 0 = 0
  last : s n = m
  step : ∀ a, a < n → s a ≤ s (a + 1)

namespace IsCut

variable {s : ℕ → ℕ} {n m : ℕ}

lemma mono (h : IsCut s n m) {a b : ℕ} (hab : a ≤ b) (hb : b ≤ n) : s a ≤ s b := by
  induction b, hab using Nat.le_induction with
  | base => exact le_rfl
  | succ b hab ih => exact (ih (by omega)).trans (h.step b (by omega))

lemma le (h : IsCut s n m) {a : ℕ} (ha : a ≤ n) : s a ≤ m := h.last ▸ h.mono ha le_rfl

/-- The pieces do not overlap. -/
lemma eq_of_mem (h : IsCut s n m) {a b j : ℕ} (ha : a < n) (hb : b < n)
    (haj : s a ≤ j ∧ j < s (a + 1)) (hbj : s b ≤ j ∧ j < s (b + 1)) : a = b := by
  by_contra hne
  rcases Nat.lt_or_gt_of_ne hne with hlt | hgt
  · have := h.mono (a := a + 1) (b := b) hlt hb.le
    omega
  · have := h.mono (a := b + 1) (b := a) hgt ha.le
    omega

/-- The pieces cover everything below `m`. -/
lemma exists_mem (h : IsCut s n m) {j : ℕ} (hj : j < m) :
    ∃ a < n, s a ≤ j ∧ j < s (a + 1) := by
  have hex : ∃ a, j < s a := ⟨n, by rw [h.last]; exact hj⟩
  have hfind := Nat.find_spec hex
  have hle : Nat.find hex ≤ n := Nat.find_min' hex (by rw [h.last]; exact hj)
  obtain ⟨a, ha⟩ : ∃ a, Nat.find hex = a + 1 := by
    refine Nat.exists_eq_succ_of_ne_zero fun h0 => ?_
    rw [h0, h.first] at hfind
    omega
  refine ⟨a, by omega, ?_, ha ▸ hfind⟩
  exact not_lt.mp (Nat.find_min hex (by omega))

end IsCut

/-- The loop that moves a group number forward until its piece reaches
beyond `j`. The first argument bounds the number of moves; a walk that
needs more is a fault. -/
def walkTo (s : ℕ → Option ℕ) (n j : ℕ) : ℕ → ℕ → Option ℕ
  | fuel, a =>
      if a < n then do
        let stop ← s (a + 1)
        if stop ≤ j then
          match fuel with
          | 0 => none
          | fuel + 1 => walkTo s n j fuel (a + 1)
        else some a
      else some a

/-- The walk ends at the piece that contains `j`, from any piece that
does not lie beyond it. -/
lemma walkTo_yields {s : ℕ → ℕ} {read : ℕ → Option ℕ} {n m j : ℕ} (hs : IsCut s n m)
    (hread : ∀ a ≤ n, read a = some (s a)) (hj : j < m) {a : ℕ} (ha : a ≤ n)
    (fuel : ℕ) (hfuel : n ≤ a + fuel) (haj : s a ≤ j) :
    Yields (walkTo read n j fuel a) fun b => b < n ∧ s b ≤ j ∧ j < s (b + 1) := by
  have hlt : a < n := by
    refine lt_of_le_of_ne ha ?_
    rintro rfl
    rw [hs.last] at haj
    omega
  induction fuel generalizing a with
  | zero => omega
  | succ fuel ih =>
      unfold walkTo
      rw [if_pos hlt]
      refine Yields.bind ⟨_, hread (a + 1) hlt, rfl⟩ ?_
      rintro _ rfl
      split
      next hle =>
        have hlt' : a + 1 < n := by
          refine lt_of_le_of_ne hlt ?_
          rintro heq
          rw [heq, hs.last] at hle
          omega
        exact ih hlt (by omega) hle hlt'
      next hgt => exact .pure ⟨hlt, haj, by omega⟩

end Lib
