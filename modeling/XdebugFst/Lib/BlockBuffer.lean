import Mathlib.Tactic
import Mathlib.Data.List.Basic

/-!
# Messages in blocks

A message that comes in pieces is cut into blocks of `n` elements: those that are full, and a rest
that waits for more. `Buffered` says what the full blocks and the rest of a message are, and what
becomes of them when the message goes on, up to the end of a block at most. `parseBlocks` cuts a
message whose length is a multiple of `n`.
-/

namespace Lib

variable {α : Type}

/-- The blocks of `n` elements of a message. -/
def parseBlocks (n : ℕ) (message : List α) : List (List α) :=
  (List.range (message.length / n)).map fun k => (message.drop (k * n)).take n

variable {n : ℕ}

lemma length_flatten_of_forall {blocks : List (List α)} (h : ∀ block ∈ blocks, block.length = n) :
    blocks.flatten.length = blocks.length * n := by
  induction blocks with
  | nil => rw [List.flatten_nil, List.length_nil, List.length_nil, Nat.zero_mul]
  | cons block blocks ih =>
      rw [List.flatten_cons, List.length_append, h block List.mem_cons_self, List.length_cons,
        ih fun b hb => h b (List.mem_cons_of_mem _ hb), Nat.add_mul, Nat.one_mul, Nat.add_comm]

/-- A message that is made of blocks has these blocks. -/
lemma parseBlocks_flatten (hn : 0 < n) {blocks : List (List α)}
    (h : ∀ block ∈ blocks, block.length = n) : parseBlocks n blocks.flatten = blocks := by
  rw [parseBlocks, length_flatten_of_forall h, Nat.mul_div_cancel _ hn]
  induction blocks with
  | nil => rfl
  | cons block blocks ih =>
      have hblock := h block List.mem_cons_self
      rw [List.length_cons, List.range_succ_eq_map, List.map_cons, List.map_map, Nat.zero_mul,
        List.drop_zero, List.flatten_cons, ← hblock, List.take_left]
      congr 1
      rw [hblock]
      refine Eq.trans (List.map_congr_left fun k _ => ?_)
        (ih fun b hb => h b (List.mem_cons_of_mem _ hb))
      have hskip : (k + 1) * n = block.length + k * n := by rw [hblock]; ring
      rw [Function.comp_apply, Nat.succ_eq_add_one, hskip, ← List.drop_drop, List.drop_left]

/-- The full blocks of a message and what is left of it. -/
structure Buffered (n : ℕ) (message : List α) (blocks : List (List α)) (rest : List α) : Prop where
  eq : message = blocks.flatten ++ rest
  full : ∀ block ∈ blocks, block.length = n
  short : rest.length < n

namespace Buffered

variable {message rest x : List α} {blocks : List (List α)}

lemma nil (hn : 0 < n) : Buffered n ([] : List α) [] [] := ⟨rfl, nofun, hn⟩

lemma length_rest (h : Buffered n message blocks rest) : rest.length = message.length % n := by
  rw [h.eq, List.length_append, length_flatten_of_forall h.full, Nat.mul_add_mod',
    Nat.mod_eq_of_lt h.short]

/-- The next piece does not fill the block. -/
lemma append_short (h : Buffered n message blocks rest) (hx : rest.length + x.length < n) :
    Buffered n (message ++ x) blocks (rest ++ x) := by
  refine ⟨?_, h.full, ?_⟩
  · rw [h.eq, List.append_assoc]
  · rw [List.length_append]
    exact hx

/-- The blocks with the one that the next piece fills. -/
lemma full_append (h : Buffered n message blocks rest) (hx : rest.length + x.length = n) :
    ∀ block ∈ blocks ++ [rest ++ x], block.length = n := by
  intro block hblock
  rcases List.mem_append.1 hblock with hblock | hblock
  · exact h.full block hblock
  · rw [List.mem_singleton.1 hblock, List.length_append, hx]

lemma flatten_append (h : Buffered n message blocks rest) :
    (blocks ++ [rest ++ x]).flatten = message ++ x := by
  rw [List.flatten_append, List.flatten_singleton, h.eq, List.append_assoc]

/-- The next piece fills the block. -/
lemma append_full (h : Buffered n message blocks rest) (hx : rest.length + x.length = n)
    (hn : 0 < n) : Buffered n (message ++ x) (blocks ++ [rest ++ x]) [] :=
  ⟨by rw [List.append_nil, h.flatten_append], h.full_append hx, hn⟩

/-- A message with nothing left over. -/
lemma parseBlocks_eq (h : Buffered n message blocks []) : parseBlocks n message = blocks := by
  rw [h.eq, List.append_nil]
  exact parseBlocks_flatten (Nat.zero_lt_of_lt h.short) h.full

end Buffered

end Lib
