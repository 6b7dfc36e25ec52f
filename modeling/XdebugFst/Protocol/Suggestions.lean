import XdebugFst.Lib.EditDistance
import Mathlib.Data.List.Sort
import Mathlib.Data.Prod.Lex
import Mathlib.Data.String.Basic

/-!
# Suggestions for an unknown action

`validate_public_request` answers an unknown action with the public actions closest to it. The
closeness is an edit distance that is computed with two rows of a table; an action with the same
prefix up to the first dot is moved two edits closer.

`editDistance_eq_distance` says that the rows compute the edit distance, and `actionSuggestions_spec`
that no other public action is closer than the suggested ones.
-/

namespace XdebugFst.Protocol

open Lib

/-! ### The edit distance -/

section EditDistance

variable {α : Type}

/-- The next row of the table from its column `left` on, below the rest of the previous row. -/
def nextRow [DecidableEq α] (letter : α) (left : ℕ) : List α → List ℕ → List ℕ
  | r :: rhs, diagonal :: above :: previous =>
      let substitution := diagonal + if letter = r then 0 else 1
      left :: nextRow letter (min (min (above + 1) (left + 1)) substitution) rhs (above :: previous)
  | _, _ => [left]

/-- The loop over the rows. -/
def editRows [DecidableEq α] (rhs : List α) (row : ℕ) (previous : List ℕ) : List α → List ℕ
  | [] => previous
  | letter :: lhs => editRows rhs (row + 1) (nextRow letter row rhs previous) lhs

/-- `edit_distance` -/
def editDistance [DecidableEq α] (lhs rhs : List α) : ℕ :=
  (editRows rhs 1 (List.range (rhs.length + 1)) lhs).getD rhs.length 0

/-- A row holds the distances to the prefixes of a word, from the prefix `pre` on. -/
inductive Row (xs : List α) : List α → List α → List ℕ → Prop
  | last {pre : List α} {k : ℕ} (h : IsLeast {n | Aligned n xs pre} k) : Row xs pre [] [k]
  | cons {pre rest : List α} {r : α} {k : ℕ} {row : List ℕ} (h : IsLeast {n | Aligned n xs pre} k)
      (hrest : Row xs (pre ++ [r]) rest row) : Row xs pre (r :: rest) (k :: row)

variable {xs pre rest : List α} {row : List ℕ} {k : ℕ}

lemma Row.exists_cons (h : Row xs pre rest row) :
    ∃ k row', row = k :: row' ∧ IsLeast {n | Aligned n xs pre} k := by
  cases h with
  | last h => exact ⟨_, _, rfl, h⟩
  | cons h _ => exact ⟨_, _, rfl, h⟩

lemma Row.isLeast_getD (h : Row xs pre rest row) :
    IsLeast {n | Aligned n xs (pre ++ rest)} (row.getD rest.length 0) := by
  induction h with
  | last h => simpa using h
  | cons _ _ ih => simpa using ih

/-- The inner loop makes the next row. -/
lemma row_nextRow [DecidableEq α] {letter : α} (h : Row xs pre rest row) {left : ℕ}
    (hleft : IsLeast {n | Aligned n (xs ++ [letter]) pre} left) :
    Row (xs ++ [letter]) pre rest (nextRow letter left rest row) := by
  induction h generalizing left with
  | last h => exact .last hleft
  | cons h hrest ih =>
      obtain ⟨above, row', rfl, habove⟩ := hrest.exists_cons
      exact .cons hleft (ih (isLeast_concat habove hleft h))

lemma row_editRows [DecidableEq α] {lhs : List α} {rhs : List α} (h : Row xs [] rhs row) :
    Row (xs ++ lhs) [] rhs (editRows rhs (xs.length + 1) row lhs) := by
  induction lhs generalizing xs row with
  | nil => simpa [editRows] using h
  | cons letter lhs ih =>
      have hleft := isLeast_nil_right (xs ++ [letter])
      rw [List.length_append, List.length_singleton] at hleft
      have hrest := ih (row_nextRow h hleft)
      rw [List.length_append, List.length_singleton] at hrest
      simpa [editRows] using hrest

/-- The first row. -/
lemma row_range (pre rest : List α) :
    Row [] pre rest (List.range' pre.length (rest.length + 1)) := by
  induction rest generalizing pre with
  | nil => exact .last (isLeast_nil_left pre)
  | cons r rest ih =>
      have hrest := ih (pre ++ [r])
      rw [List.length_append, List.length_singleton] at hrest
      exact .cons (isLeast_nil_left pre) hrest

/-- The rows compute the least number of edits from one word to the other. -/
theorem editDistance_eq_distance [DecidableEq α] (lhs rhs : List α) :
    editDistance lhs rhs = distance lhs rhs := by
  have hrow : Row ([] ++ lhs) [] rhs
      (editRows rhs 1 (List.range' ([] : List α).length (rhs.length + 1)) lhs) :=
    row_editRows (row_range [] rhs)
  refine (distance_eq (isLeast_edits_iff.2 ?_)).symm
  rw [editDistance, List.range_eq_range']
  simpa using hrow.isLeast_getD

end EditDistance

/-! ### The closest actions -/

/-- The bytes of a string. -/
def bytes (text : String) : List UInt8 := text.toUTF8.data.toList

/-- The action has a dot, and the name begins with its part up to the first one. -/
def sameDomain (action name : String) : Bool :=
  match (bytes action).findIdx? (· = '.'.toUInt8) with
  | some dot => (bytes name).take (dot + 1) = (bytes action).take (dot + 1)
  | none => false

/-- The score of a name. -/
def suggestionScore (action name : String) : ℕ :=
  let score := editDistance (bytes action) (bytes name)
  if sameDomain action name then (if 2 < score then score - 2 else 0) else score

/-- The names with their scores, in increasing order. -/
def rankedNames (action : String) (names : List String) : List (ℕ ×ₗ String) :=
  (names.map fun name => toLex (suggestionScore action name, name)).insertionSort (· ≤ ·)

/-- `action_suggestions`, for the names of the public actions. -/
def actionSuggestions (action : String) (names : List String) : List String :=
  ((rankedNames action names).take 3).map fun ranked => (ofLex ranked).2

/-- How far a name is from an action that is not public. -/
noncomputable def farness (action name : String) : ℕ :=
  distance (bytes action) (bytes name) - if sameDomain action name then 2 else 0

lemma suggestionScore_eq (action name : String) :
    suggestionScore action name = farness action name := by
  rw [suggestionScore, farness, editDistance_eq_distance]
  split_ifs <;> omega

/-- The suggestions are up to three public actions, from the closest on, and none of the others is
closer. Of actions that are equally far the first in the order of the names is taken. -/
theorem actionSuggestions_spec (action : String) (names : List String) :
    (actionSuggestions action names).length = min 3 names.length ∧
    (actionSuggestions action names).Pairwise (fun s t =>
      toLex (farness action s, s) ≤ toLex (farness action t, t)) ∧
    ∃ others, (actionSuggestions action names ++ others).Perm names ∧
      ∀ s ∈ actionSuggestions action names, ∀ t ∈ others,
        toLex (farness action s, s) ≤ toLex (farness action t, t) := by
  have hperm : (rankedNames action names).Perm
      (names.map fun name => toLex (suggestionScore action name, name)) :=
    List.perm_insertionSort _ _
  have hscore : ∀ ranked ∈ rankedNames action names,
      toLex (farness action (ofLex ranked).2, (ofLex ranked).2) = ranked := by
    intro ranked hranked
    obtain ⟨name, -, rfl⟩ := List.mem_map.1 (hperm.mem_iff.1 hranked)
    rw [ofLex_toLex, suggestionScore_eq]
  have hnames : ((rankedNames action names).map fun ranked => (ofLex ranked).2).Perm names := by
    have h := hperm.map fun ranked => (ofLex ranked).2
    simpa [List.map_map, Function.comp_def] using h
  have hsorted : (rankedNames action names).Pairwise (· ≤ ·) :=
    List.pairwise_insertionSort _ _
  have hsplit := List.take_append_drop 3 (rankedNames action names)
  refine ⟨?_, ?_, ((rankedNames action names).drop 3).map fun ranked => (ofLex ranked).2, ?_, ?_⟩
  · rw [actionSuggestions, List.length_map, List.length_take, hperm.length_eq, List.length_map]
  · rw [actionSuggestions, List.pairwise_map]
    refine (hsorted.sublist (List.take_sublist _ _)).imp_of_mem fun hs ht h => ?_
    rwa [hscore _ (List.mem_of_mem_take hs), hscore _ (List.mem_of_mem_take ht)]
  · rw [actionSuggestions, ← List.map_append, hsplit]
    exact hnames
  · intro s hs t ht
    obtain ⟨rs, hrs, rfl⟩ := List.mem_map.1 hs
    obtain ⟨rt, hrt, rfl⟩ := List.mem_map.1 ht
    rw [hscore _ (List.mem_of_mem_take hrs), hscore _ (List.mem_of_mem_drop hrt)]
    rw [← hsplit, List.pairwise_append] at hsorted
    exact hsorted.2.2 rs hrs rt hrt

end XdebugFst.Protocol
