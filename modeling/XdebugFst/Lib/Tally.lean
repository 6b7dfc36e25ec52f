import Mathlib
import XdebugFst.Lib.OrderedMap

/-!
# Tallies

A loop counts keys in a map: it adds one to the number of a key, which is zero as long as the key
has not been seen. In the end the number of a key is how often the loop saw it, so that the numbers
sum up to the length of the list. Counters of a fixed width do the same as long as they are not
exhausted.
-/

namespace Lib

variable {κ : Type} [LinearOrder κ]

/-- One more of a key. -/
def countKey (m : OrderedMap κ ℕ) (k : κ) : OrderedMap κ ℕ := m.insert k ((m.find? k).getD 0 + 1)

/-- How often each key is in a list. -/
def tally (keys : List κ) : OrderedMap κ ℕ := keys.foldl countKey OrderedMap.empty

@[simp] lemma tally_nil : tally ([] : List κ) = OrderedMap.empty := rfl

@[simp] lemma tally_concat (keys : List κ) (k : κ) :
    tally (keys ++ [k]) = countKey (tally keys) k := by
  simp [tally]

@[simp] lemma getD_find?_countKey (m : OrderedMap κ ℕ) (k k' : κ) :
    ((countKey m k).find? k').getD 0 = (m.find? k').getD 0 + if k' = k then 1 else 0 := by
  by_cases h : k' = k
  · subst h
    simp [countKey]
  · simp [countKey, OrderedMap.find?_insert_of_ne m h, h]

/-- The number of a key. -/
lemma getD_find?_tally (keys : List κ) (k : κ) : ((tally keys).find? k).getD 0 = keys.count k := by
  induction keys using List.reverseRecOn with
  | nil => rfl
  | append_singleton keys k' ih =>
      rw [tally_concat, getD_find?_countKey, ih, List.count_append, List.count_singleton']
      simp only [eq_comm]

lemma sum_values_countKey (m : OrderedMap κ ℕ) (k : κ) :
    (countKey m k).values.sum = m.values.sum + 1 := by
  have hafter := ((m.insert_perm k ((m.find? k).getD 0 + 1)).map Prod.snd).sum_eq
  have hbefore := ((m.perm_find?_without k).map Prod.snd).sum_eq
  rw [OrderedMap.values, countKey, hafter, OrderedMap.values, hbefore]
  cases m.find? k with
  | none =>
      simp
      omega
  | some n =>
      simp
      omega

/-- The numbers sum up to the length of the list. -/
theorem sum_values_tally (keys : List κ) : (tally keys).values.sum = keys.length := by
  induction keys using List.reverseRecOn with
  | nil => rfl
  | append_singleton keys k ih =>
      rw [tally_concat, sum_values_countKey, ih, List.length_append, List.length_singleton]

/-- Counters below a bound that the length of the list does not reach. -/
lemma foldl_wrapping_eq_tally {bound : ℕ} {keys : List κ} (h : keys.length < bound) :
    keys.foldl (fun m k => m.insert k (((m.find? k).getD 0 + 1) % bound)) OrderedMap.empty =
      tally keys := by
  induction keys using List.reverseRecOn with
  | nil => rfl
  | append_singleton keys k ih =>
      rw [List.length_append, List.length_singleton] at h
      have hcount : ((tally keys).find? k).getD 0 ≤ keys.length := by
        rw [getD_find?_tally]
        exact List.count_le_length
      rw [List.foldl_append, ih (by omega), tally_concat, countKey]
      show (tally keys).insert k ((((tally keys).find? k).getD 0 + 1) % bound) = _
      rw [Nat.mod_eq_of_lt (by omega)]

end Lib
