import Mathlib.Data.List.Infix
import Mathlib.Tactic

/-!
# Byte streams and their lines

One direction of a connection is a stream: what was written to it, and how much of that was read.
The reader gets the rest in pieces of any size, whatever the pieces were that the writer wrote.

A line ends with a separator. If all that is ever written is one line whose text does not have the
separator, a reader that has seen a separator has seen the whole line (`takeWhile_eq_of_prefix`).
-/

namespace Lib

/-- One direction of a connection. -/
structure Channel (α : Type) where
  /-- All that was written. -/
  written : List α
  /-- How much of it was read. -/
  taken : ℕ
  taken_le : taken ≤ written.length

namespace Channel

variable {α : Type} (c : Channel α)

/-- A channel that nothing was written to. -/
def empty : Channel α := ⟨[], 0, le_rfl⟩

/-- What was read. -/
def received : List α := c.written.take c.taken

/-- What was written and not read. -/
def pending : List α := c.written.drop c.taken

lemma taken_le_append (chunk : List α) : c.taken ≤ (c.written ++ chunk).length := by
  rw [List.length_append]
  exact c.taken_le.trans (Nat.le_add_right _ _)

def write (chunk : List α) : Channel α := ⟨c.written ++ chunk, c.taken, c.taken_le_append chunk⟩

/-- Read at most `count` letters. -/
def read (count : ℕ) : Channel α :=
  ⟨c.written, min (c.taken + count) c.written.length, min_le_right _ _⟩

@[simp] lemma written_write (chunk : List α) : (c.write chunk).written = c.written ++ chunk := rfl

@[simp] lemma written_read (count : ℕ) : (c.read count).written = c.written := rfl

@[simp] lemma received_empty : (empty : Channel α).received = [] := rfl

@[simp] lemma written_empty : (empty : Channel α).written = [] := rfl

@[simp] lemma received_write (chunk : List α) : (c.write chunk).received = c.received :=
  List.take_append_of_le_length c.taken_le

lemma received_append_pending : c.received ++ c.pending = c.written := List.take_append_drop _ _

/-- The reader gets the first of what it did not read. -/
lemma received_read (count : ℕ) : (c.read count).received = c.received ++ c.pending.take count := by
  have hlength : c.received.length = c.taken := by
    rw [received, List.length_take]
    exact min_eq_left c.taken_le
  have htake : c.written.take (c.taken + count) = c.received ++ c.pending.take count := by
    rw [← c.received_append_pending, ← hlength, List.take_length_add_append]
  show c.written.take (min (c.taken + count) c.written.length) = _
  rw [← List.take_eq_take_min, htake]

lemma received_isPrefix : c.received <+: c.written := List.take_prefix _ _

end Channel

/-- A part of a line that has the separator is the line. -/
lemma takeWhile_eq_of_prefix {α : Type} [DecidableEq α] {separator : α} {text bytes : List α}
    (htext : separator ∉ text) (hbegins : bytes <+: text ++ [separator])
    (hmem : separator ∈ bytes) : bytes.takeWhile (· ≠ separator) = text := by
  have hall : ∀ a ∈ text, decide (a ≠ separator) = true := by
    intro a ha
    refine decide_eq_true ?_
    rintro rfl
    exact htext ha
  have hbytes : bytes = text ++ [separator] := by
    rcases List.prefix_concat_iff.1 hbegins with h | h
    · exact h
    · exact absurd (h.subset hmem) htext
  rw [hbytes, List.takeWhile_append_of_pos hall]
  simp

end Lib
