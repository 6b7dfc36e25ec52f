import Mathlib.Algebra.BigOperators.Group.List.Basic
import Mathlib.Algebra.Group.Prod
import XdebugFst.Lib.Interleaving
import XdebugFst.Lib.OrderedMap

/-!
# Sweeps over weighted events

Events have a time and a weight in a commutative monoid. `weightUpTo` is the weight of all events
up to a time, in any order. Two loops compute it: `sweep` advances through events that are sorted by
time while it goes through increasing query times, and `runningTotals` adds up events of different
times one by one. A map from times to weights, changed by `bump`, is a third way to keep events.
-/

namespace Lib

section Weight

variable {α M : Type} [AddCommMonoid M] (time : α → ℕ) (weight : α → M)

/-- The weight of the events whose time satisfies a condition. -/
def weightIn (p : ℕ → Bool) (l : List α) : M := ((l.filter fun e => p (time e)).map weight).sum

/-- The weight of the events up to a time. -/
def weightUpTo (l : List α) (t : ℕ) : M := weightIn time weight (fun t' => t' ≤ t) l

variable {time weight}

@[simp] lemma weightIn_nil (p : ℕ → Bool) : weightIn time weight p [] = 0 := rfl

lemma weightIn_cons (p : ℕ → Bool) (e : α) (l : List α) :
    weightIn time weight p (e :: l) =
      (if p (time e) then weight e else 0) + weightIn time weight p l := by
  by_cases h : p (time e) <;> simp [weightIn, h]

lemma weightIn_append (p : ℕ → Bool) (l l' : List α) :
    weightIn time weight p (l ++ l') = weightIn time weight p l + weightIn time weight p l' := by
  simp [weightIn]

lemma weightIn_perm (p : ℕ → Bool) {l l' : List α} (h : l.Perm l') :
    weightIn time weight p l = weightIn time weight p l' :=
  ((h.filter _).map _).sum_eq

lemma weightIn_flatMap {β : Type} (p : ℕ → Bool) (f : β → List α) (l : List β) :
    weightIn time weight p (l.flatMap f) = (l.map fun x => weightIn time weight p (f x)).sum := by
  induction l with
  | nil => rfl
  | cons x l ih => rw [List.flatMap_cons, weightIn_append, ih, List.map_cons, List.sum_cons]

@[simp] lemma weightUpTo_nil (t : ℕ) : weightUpTo time weight [] t = 0 := rfl

lemma weightUpTo_cons (e : α) (l : List α) (t : ℕ) :
    weightUpTo time weight (e :: l) t =
      (if time e ≤ t then weight e else 0) + weightUpTo time weight l t := by
  rw [weightUpTo, weightIn_cons]
  simp only [decide_eq_true_eq]
  rfl

lemma weightUpTo_eq_zero {l : List α} {t : ℕ} (h : ∀ e ∈ l, t < time e) :
    weightUpTo time weight l t = 0 := by
  rw [weightUpTo, weightIn, List.filter_eq_nil_iff.2 fun e he => by simpa using h e he]
  rfl

variable (time weight)

/-- Take the events up to a time off a list of events, and add their weights. -/
def drain (t : ℕ) : List α → M → List α × M
  | [], acc => ([], acc)
  | e :: rest, acc => if time e ≤ t then drain t rest (acc + weight e) else (e :: rest, acc)

/-- The weight behind each of the query times, with one pass over the events. -/
def sweep : List ℕ → List α → M → List M
  | [], _, _ => []
  | t :: ts, rest, acc =>
      (drain time weight t rest acc).2 ::
        sweep ts (drain time weight t rest acc).1 (drain time weight t rest acc).2

variable {time weight}

lemma drain_spec (weight : α → M) {l : List α} (h : SortedBy time l) (t : ℕ) (acc : M) :
    (drain time weight t l acc).2 = acc + weightUpTo time weight l t ∧
      SortedBy time (drain time weight t l acc).1 ∧
      ∀ t', t ≤ t' → weightUpTo time weight l t' =
        weightUpTo time weight l t + weightUpTo time weight (drain time weight t l acc).1 t' := by
  induction l generalizing acc with
  | nil => exact ⟨by simp [drain], h, by simp [drain]⟩
  | cons e l ih =>
      obtain ⟨he, hl⟩ := List.pairwise_cons.1 h
      rw [drain]
      by_cases hle : time e ≤ t
      · obtain ⟨hacc, hsorted, hrest⟩ := ih hl (acc + weight e)
        rw [if_pos hle]
        refine ⟨?_, hsorted, fun t' ht' => ?_⟩
        · rw [hacc, weightUpTo_cons, if_pos hle, add_assoc]
        · rw [weightUpTo_cons, weightUpTo_cons, if_pos hle, if_pos (hle.trans ht'), hrest t' ht',
            add_assoc]
      · have hzero : weightUpTo time weight (e :: l) t = 0 := by
          refine weightUpTo_eq_zero fun x hx => ?_
          rcases List.mem_cons.1 hx with rfl | hx
          · exact not_le.1 hle
          · exact (not_le.1 hle).trans_le (he x hx)
        rw [if_neg hle, hzero]
        exact ⟨by simp, h, fun t' _ => by simp⟩

/-- The sweep computes the weight up to each of the query times. -/
lemma sweep_eq {ts : List ℕ} (hts : ts.Pairwise (· ≤ ·)) {l : List α} (h : SortedBy time l)
    (acc : M) : sweep time weight ts l acc = ts.map fun t => acc + weightUpTo time weight l t := by
  induction ts generalizing l acc with
  | nil => rfl
  | cons t ts ih =>
      obtain ⟨ht, hts⟩ := List.pairwise_cons.1 hts
      obtain ⟨hacc, hsorted, hrest⟩ := drain_spec weight h t acc
      rw [sweep, ih hts hsorted, hacc, List.map_cons]
      congr 1
      refine List.map_congr_left fun t' ht' => ?_
      rw [hrest t' (ht t' ht'), add_assoc]

/-! ### Running totals -/

variable (weight)

/-- The totals behind each event. -/
def runningTotals : M → List α → List M
  | _, [] => []
  | acc, e :: rest => (acc + weight e) :: runningTotals (acc + weight e) rest

variable {weight}

/-- Behind an event stands the weight up to its time, when the times go up. -/
lemma runningTotals_eq {l : List α} (h : l.Pairwise fun a b => time a < time b) (acc : M) :
    runningTotals weight acc l = l.map fun e => acc + weightUpTo time weight l (time e) := by
  induction l generalizing acc with
  | nil => rfl
  | cons e l ih =>
      obtain ⟨he, hl⟩ := List.pairwise_cons.1 h
      have hself : weightUpTo time weight (e :: l) (time e) = weight e := by
        rw [weightUpTo_cons, if_pos le_rfl, weightUpTo_eq_zero he, add_zero]
      rw [runningTotals, ih hl, List.map_cons, hself]
      congr 1
      refine List.map_congr_left fun x hx => ?_
      rw [weightUpTo_cons, if_pos (he x hx).le, add_assoc]

end Weight

/-! ### Maps of weights -/

section Map

variable {M : Type} [AddCommMonoid M]

/-- Add a weight at a time. -/
def bump (m : OrderedMap ℕ M) (t : ℕ) (w : M) : OrderedMap ℕ M :=
  m.alter t fun known => some (known.getD 0 + w)

/-- The weight of the entries whose time satisfies a condition. -/
def totalIn (p : ℕ → Bool) (m : OrderedMap ℕ M) : M := weightIn Prod.fst Prod.snd p m.entries

@[simp] lemma totalIn_empty (p : ℕ → Bool) : totalIn p (.empty : OrderedMap ℕ M) = 0 := rfl

lemma totalIn_bump (p : ℕ → Bool) (m : OrderedMap ℕ M) (t : ℕ) (w : M) :
    totalIn p (bump m t w) = totalIn p m + if p t then w else 0 := by
  have hnew := m.alter_perm t fun known => some (known.getD 0 + w)
  have hold := m.perm_find?_without t
  rw [totalIn, totalIn, bump, weightIn_perm p hnew, weightIn_perm p hold]
  simp only [weightIn_append, Option.map_some, Option.toList_some]
  cases m.find? t with
  | none =>
      simp only [Option.getD_none, zero_add, Option.map_none, Option.toList_none, weightIn_nil,
        weightIn_cons, add_zero]
      exact add_comm _ _
  | some known =>
      simp only [Option.getD_some, Option.map_some, Option.toList_some, weightIn_cons,
        weightIn_nil, add_zero]
      split_ifs
      · rw [add_assoc, add_assoc, add_comm w]
      · rw [add_zero]

/-- The weight at one time is the entry of that time. -/
lemma totalIn_eq (m : OrderedMap ℕ M) (t : ℕ) :
    totalIn (fun t' => t' = t) m = (m.find? t).getD 0 := by
  have hother : weightIn Prod.fst Prod.snd (fun t' => t' = t) (m.without t) = 0 := by
    rw [weightIn, OrderedMap.without, List.filter_filter, List.filter_eq_nil_iff.2]
    · rfl
    · intro e _
      simp
  rw [totalIn, weightIn_perm _ (m.perm_find?_without t), weightIn_append, hother, add_zero]
  cases m.find? t with
  | none => rfl
  | some w => simp [weightIn_cons]

/-- Entries without weight can be left out. -/
lemma totalIn_filter (p : ℕ → Bool) (m : OrderedMap ℕ M) {q : ℕ → M → Bool}
    (hq : ∀ k w, q k w = false → w = 0) : totalIn p (m.filter q) = totalIn p m := by
  have hlist : ∀ l : List (ℕ × M),
      weightIn Prod.fst Prod.snd p (l.filter fun e => q e.1 e.2) =
        weightIn Prod.fst Prod.snd p l := by
    intro l
    induction l with
    | nil => rfl
    | cons e l ih =>
        cases he : q e.1 e.2 with
        | true => rw [List.filter_cons, if_pos he, weightIn_cons, weightIn_cons, ih]
        | false =>
            rw [List.filter_cons, if_neg (by simp [he]), weightIn_cons, ih, hq _ _ he, ite_self,
              zero_add]
  exact hlist m.entries

/-- The number of keys below the one of an entry is the place of the entry. -/
lemma countP_find?_eq_length {α : Type} {m : OrderedMap ℕ α} {e : ℕ × α}
    {front back : List (ℕ × α)} (hsplit : m.entries = front ++ e :: back) :
    (List.range e.1).countP (fun k => (m.find? k).isSome) = front.length := by
  have hsorted := m.sorted
  rw [hsplit] at hsorted
  obtain ⟨hfront, hback, hcross⟩ := List.pairwise_append.1 hsorted
  have hkeys : (front.map Prod.fst).Perm
      ((List.range e.1).filter fun k => (m.find? k).isSome) := by
    refine (List.perm_ext_iff_of_nodup ?_ (List.nodup_range.filter _)).2 fun k => ?_
    · exact (List.pairwise_map.2 hfront).imp ne_of_lt
    · rw [List.mem_map, List.mem_filter, List.mem_range, Option.isSome_iff_exists]
      constructor
      · rintro ⟨x, hx, rfl⟩
        refine ⟨hcross x hx e (by simp), x.2, (m.mem_entries_iff x.1 x.2).1 ?_⟩
        rw [hsplit]
        exact List.mem_append_left _ hx
      · rintro ⟨hlt, v, hv⟩
        have hmem := (m.mem_entries_iff k v).2 hv
        rw [hsplit] at hmem
        rcases List.mem_append.1 hmem with hmem | hmem
        · exact ⟨(k, v), hmem, rfl⟩
        · -- the keys from the entry on are not below its own
          exfalso
          rcases List.mem_cons.1 hmem with rfl | hmem
          · exact lt_irrefl _ hlt
          · exact absurd ((List.pairwise_cons.1 hback).1 _ hmem) (not_lt.2 hlt.le)
  rw [List.countP_eq_length_filter, ← hkeys.length_eq, List.length_map]

/-- The entries at the front of a map are those with few keys below theirs. -/
lemma mem_take_entries_iff {α : Type} (m : OrderedMap ℕ α) (n : ℕ) (e : ℕ × α) :
    e ∈ m.entries.take n ↔
      e ∈ m.entries ∧ (List.range e.1).countP (fun k => (m.find? k).isSome) < n := by
  constructor
  · intro h
    obtain ⟨front, back, hsplit⟩ := List.append_of_mem h
    have hentries : m.entries = front ++ e :: (back ++ m.entries.drop n) := by
      rw [← List.cons_append, ← List.append_assoc, ← hsplit, List.take_append_drop]
    refine ⟨List.take_subset n _ h, ?_⟩
    rw [countP_find?_eq_length hentries]
    have hlength := congrArg List.length hsplit
    have hle : (m.entries.take n).length ≤ n := List.length_take_le n m.entries
    simp only [List.length_append, List.length_cons] at hlength
    omega
  · rintro ⟨hmem, hlt⟩
    obtain ⟨front, back, hsplit⟩ := List.append_of_mem hmem
    rw [countP_find?_eq_length hsplit] at hlt
    obtain ⟨k, rfl⟩ : ∃ k, n = front.length + (k + 1) := ⟨n - front.length - 1, by omega⟩
    rw [hsplit, List.take_length_add_append]
    exact List.mem_append_right _ (by simp)

end Map

end Lib
