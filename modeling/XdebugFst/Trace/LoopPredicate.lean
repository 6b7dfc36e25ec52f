import Mathlib
import XdebugFst.Trace.Statements

/-!
# Predicates in loops

A statement in a loop has a range for each of its loop variables, and its predicate is decided over
all bindings of the variables to values of their ranges. `evaluate_predicate` builds the bindings
variable by variable, with a guard against too many of them, and evaluates one after the other until
one is active.

The arithmetic is that of the machine here: a span wraps at 64 bits, the guard divides by it, and the
loop over the values of a range ends only when it meets the last one. `runPredicate_decides` says
that none of this goes wrong for the ranges that can occur.
-/

namespace XdebugFst.Trace

open Lib Waveform

/-! ### Machine arithmetic -/

/-- Why a run may have no result. -/
inductive Stop
  | divisionByZero | outOfFuel
  deriving DecidableEq, Repr

/-- `static_cast<uint64_t>(last-first)+1`. -/
def wrappedSpan (first last : ℤ) : ℕ := (((last - first) % 2 ^ 64).toNat + 1) % 2 ^ 64

/-- `++value`, of an `int64_t`. -/
def nextValue (value : ℤ) : ℤ := (value + 1 + 2 ^ 63) % 2 ^ 64 - 2 ^ 63

/-- A division of `uint64_t` numbers. -/
def divideU64 (a b : ℕ) : Except Stop ℕ := if b = 0 then .error .divisionByZero else .ok (a / b)

/-- The loop over the values of a range, which ends only at the last one. -/
def valuesFrom (last : ℤ) : ℕ → ℤ → Except Stop (List ℤ)
  | 0, _ => .error .outOfFuel
  | fuel + 1, value =>
      if value = last then .ok [value]
      else do
        let rest ← valuesFrom last fuel (nextValue value)
        return value :: rest

/-! ### The function -/

/-- A binding of loop variables, by their indices. -/
abbrev LoopBinding := OrderedMap ℤ ℤ

/-- The bindings of the loop variables, unless a range is empty or there are too many. -/
def expandBindings (fuel : ℕ) :
    List (ℤ × (ℤ × ℤ)) → List LoopBinding → Except Stop (Option (List LoopBinding))
  | [], bindings => .ok (some bindings)
  | (index, (first, last)) :: rest, bindings =>
      if last < first then .ok none
      else if wrappedSpan first last > Session.kMaxLoopSelectorBindings then .ok none
      else do
        let most ← divideU64 Session.kMaxLoopSelectorBindings (wrappedSpan first last)
        if bindings.length > most then return none
        else do
          let expanded ← bindings.mapM fun existing => do
            let values ← valuesFrom last fuel first
            return values.map fun value => existing.insert index value
          expandBindings fuel rest expanded.flatten

/-- The loop over the bindings, with its two flags; also the bindings that are evaluated. -/
def evaluateBindings (once : LoopBinding → PredicateState) :
    List LoopBinding → Bool → Bool → List LoopBinding × PredicateState
  | [], unresolved, waveformUnknown =>
      ([], if unresolved then .unresolved
        else if waveformUnknown then .waveformUnknown else .inactive)
  | binding :: rest, unresolved, waveformUnknown =>
      let state := once binding
      if state = .active then ([binding], .active)
      else
        let (evaluated, result) := evaluateBindings once rest (unresolved || state = .unresolved)
          (waveformUnknown || state = .waveformUnknown)
        (binding :: evaluated, result)

/-- `evaluate_predicate`, for the outcome of every single binding; also the bindings that are
evaluated. -/
def runPredicate (ranges : OrderedMap ℤ (ℤ × ℤ)) (once : LoopBinding → PredicateState) (fuel : ℕ) :
    Except Stop (List LoopBinding × PredicateState) :=
  if ranges.entries = [] then .ok ([.empty], once .empty)
  else do
    match ← expandBindings fuel ranges.entries [.empty] with
    | none => return ([], .unresolved)
    | some bindings => return evaluateBindings once bindings false false

/-! ### What is to be decided -/

/-- A range that can occur: `int64_t` bounds that do not span all numbers. -/
structure IsLoopRange (range : ℤ × ℤ) : Prop where
  first_ge : -2 ^ 63 ≤ range.1
  first_lt : range.1 < 2 ^ 63
  last_ge : -2 ^ 63 ≤ range.2
  last_lt : range.2 < 2 ^ 63
  span_lt : range.2 - range.1 < 2 ^ 64 - 1

/-- The number of values of a range. -/
def rangeSize (range : ℤ × ℤ) : ℕ := (range.2 - range.1 + 1).toNat

/-- The binding has a value of its range for every loop variable and none for another. -/
structure Binds (entries : List (ℤ × (ℤ × ℤ))) (binding : LoopBinding) : Prop where
  inRange : ∀ e ∈ entries, ∃ value, binding.find? e.1 = some value ∧ e.2.1 ≤ value ∧ value ≤ e.2.2
  only : ∀ index value, binding.find? index = some value → index ∈ entries.map Prod.fst

/-- The verdict over the bindings with `P`. -/
structure IsVerdict (P : LoopBinding → Prop) (once : LoopBinding → PredicateState)
    (state : PredicateState) : Prop where
  active : state = .active ↔ ∃ b, P b ∧ once b = .active
  unresolved : state = .unresolved ↔
    (∀ b, P b → once b ≠ .active) ∧ ∃ b, P b ∧ once b = .unresolved
  waveformUnknown : state = .waveformUnknown ↔
    (∀ b, P b → once b ≠ .active ∧ once b ≠ .unresolved) ∧ ∃ b, P b ∧ once b = .waveformUnknown
  inactive : state = .inactive ↔ ∀ b, P b → once b = .inactive

/-- All bindings, each of them once. -/
structure Enumerates (entries : List (ℤ × (ℤ × ℤ))) (all : List LoopBinding) : Prop where
  nodup : all.Nodup
  mem_iff : ∀ b, b ∈ all ↔ Binds entries b

/-- The bindings that are evaluated: one after the other, up to the first active one. -/
def untilActive (once : LoopBinding → PredicateState) (all : List LoopBinding) : List LoopBinding :=
  all.takeWhile (once · ≠ .active) ++ (all.dropWhile (once · ≠ .active)).head?.toList

/-! ### Ranges -/

section Ranges

variable {first last : ℤ}

/-- The span of a range that can occur does not wrap. -/
lemma wrappedSpan_eq (h : IsLoopRange (first, last)) (hle : first ≤ last) :
    wrappedSpan first last = rangeSize (first, last) := by
  have hspan : last - first < 2 ^ 64 - 1 := h.span_lt
  rw [wrappedSpan, rangeSize, Int.emod_eq_of_lt (by omega) (by omega)]
  simp only
  omega

lemma rangeSize_pos (hle : first ≤ last) : 0 < rangeSize (first, last) := by
  simp only [rangeSize]
  omega

/-- The values of a range. -/
def rangeValues (first last : ℤ) : List ℤ :=
  (List.range (rangeSize (first, last))).map fun k : ℕ => first + k

lemma mem_rangeValues {value : ℤ} : value ∈ rangeValues first last ↔ first ≤ value ∧ value ≤ last := by
  simp only [rangeValues, rangeSize, List.mem_map, List.mem_range]
  constructor
  · rintro ⟨k, hk, rfl⟩
    omega
  · intro h
    exact ⟨(value - first).toNat, by omega, by omega⟩

lemma nodup_rangeValues : (rangeValues first last).Nodup := by
  refine List.Nodup.map ?_ List.nodup_range
  intro a b hab
  simpa using hab

lemma rangeValues_cons (hlt : first < last) :
    rangeValues first last = first :: rangeValues (first + 1) last := by
  have hsize : rangeSize (first, last) = rangeSize (first + 1, last) + 1 := by
    simp only [rangeSize]
    omega
  rw [rangeValues, hsize, List.range_succ_eq_map, List.map_cons, List.map_map, rangeValues]
  congr 1
  · simp
  · refine List.map_congr_left fun k _ => ?_
    simp
    ring

/-- The loop over a range visits its values, if there is fuel for them. -/
lemma valuesFrom_eq {fuel : ℕ} (hfirst : -2 ^ 63 ≤ first) (hlast : last < 2 ^ 63)
    (hle : first ≤ last) (hfuel : rangeSize (first, last) ≤ fuel) :
    valuesFrom last fuel first = .ok (rangeValues first last) := by
  induction fuel generalizing first with
  | zero => exact absurd hfuel (by have := rangeSize_pos hle; omega)
  | succ fuel ih =>
      rw [valuesFrom]
      split_ifs with heq
      · subst heq
        simp [rangeValues, rangeSize]
      · have hnext : nextValue first = first + 1 := by
          rw [nextValue, Int.emod_eq_of_lt (by omega) (by omega)]
          omega
        have hlt : first < last := lt_of_le_of_ne hle heq
        have hrest : valuesFrom last fuel (first + 1) = .ok (rangeValues (first + 1) last) := by
          refine ih (by omega) (by omega) ?_
          simp only [rangeSize] at hfuel ⊢
          omega
        rw [hnext, hrest, rangeValues_cons hlt]
        rfl

end Ranges

/-! ### All bindings -/

section Enumeration

variable {entries : List (ℤ × (ℤ × ℤ))} {all : List LoopBinding} {index first last : ℤ}

/-- The bindings with one more variable. -/
def withVariable (all : List LoopBinding) (index first last : ℤ) : List LoopBinding :=
  all.flatMap fun existing => (rangeValues first last).map fun value => existing.insert index value

lemma enumerates_nil : Enumerates [] [.empty] := by
  refine ⟨List.nodup_singleton _, fun b => ?_⟩
  rw [List.mem_singleton]
  constructor
  · rintro rfl
    exact ⟨by simp, by simp⟩
  · intro h
    refine OrderedMap.ext_find? fun k => ?_
    rw [OrderedMap.find?_empty]
    cases hfind : b.find? k with
    | none => rfl
    | some value => simpa using h.only k value hfind

lemma Enumerates.find?_eq_none (h : Enumerates entries all) (hindex : index ∉ entries.map Prod.fst)
    {b : LoopBinding} (hb : b ∈ all) : b.find? index = none := by
  cases hfind : b.find? index with
  | none => rfl
  | some value => exact absurd (((h.mem_iff b).1 hb).only index value hfind) hindex

/-- A binding of one more variable is a binding of the others with a value for it. -/
lemma binds_concat_iff (hindex : index ∉ entries.map Prod.fst) {b : LoopBinding} :
    Binds (entries ++ [(index, (first, last))]) b ↔
      ∃ b', Binds entries b' ∧ ∃ value, (first ≤ value ∧ value ≤ last) ∧
        b = b'.insert index value := by
  constructor
  · intro h
    obtain ⟨value, hvalue, hrange⟩ := h.inRange (index, (first, last)) (by simp)
    refine ⟨b.erase index, ⟨fun e he => ?_, fun k v hk => ?_⟩, value, hrange, ?_⟩
    · obtain ⟨v, hv, hrange⟩ := h.inRange e (by simp [he])
      have hne : e.1 ≠ index := fun heq => hindex (heq ▸ List.mem_map_of_mem he)
      exact ⟨v, by rwa [OrderedMap.find?_erase_of_ne _ hne], hrange⟩
    · rw [OrderedMap.find?_erase_eq_some_iff] at hk
      simpa [hk.1] using h.only k v hk.2
    · refine OrderedMap.ext_find? fun k => ?_
      by_cases hk : k = index
      · subst hk
        rw [OrderedMap.find?_insert_self, hvalue]
      · rw [OrderedMap.find?_insert_of_ne _ hk, OrderedMap.find?_erase_of_ne _ hk]
  · rintro ⟨b', h, value, hrange, rfl⟩
    refine ⟨fun e he => ?_, fun k v hk => ?_⟩
    · rcases List.mem_append.1 he with he | he
      · obtain ⟨v, hv, hrange⟩ := h.inRange e he
        have hne : e.1 ≠ index := fun heq => hindex (heq ▸ List.mem_map_of_mem he)
        exact ⟨v, by rwa [OrderedMap.find?_insert_of_ne _ hne], hrange⟩
      · rw [List.mem_singleton.1 he]
        exact ⟨value, OrderedMap.find?_insert_self .., hrange⟩
    · rw [OrderedMap.find?_insert_eq_some_iff] at hk
      rw [List.map_append, List.mem_append]
      rcases hk with ⟨rfl, -⟩ | ⟨-, hk⟩
      · exact Or.inr (by simp)
      · exact Or.inl (h.only k v hk)

/-- The bindings with one more variable are enumerated. -/
lemma Enumerates.withVariable (h : Enumerates entries all) (hindex : index ∉ entries.map Prod.fst) :
    Enumerates (entries ++ [(index, (first, last))]) (withVariable all index first last) := by
  have hnone : ∀ b ∈ all, b.find? index = none := fun b hb => h.find?_eq_none hindex hb
  refine ⟨?_, fun b => ?_⟩
  · refine List.nodup_flatMap.2 ⟨fun b _ => ?_, ?_⟩
    · refine List.Nodup.map ?_ nodup_rangeValues
      intro v v' hv
      simpa using congrArg (OrderedMap.find? · index) hv
    · -- the value of the variable can be taken out again
      refine List.Nodup.pairwise_of_forall_ne h.nodup fun b hb b' hb' hne => ?_
      rintro c hc hc'
      obtain ⟨v, -, rfl⟩ := List.mem_map.1 hc
      obtain ⟨v', -, heq⟩ := List.mem_map.1 hc'
      refine hne (OrderedMap.ext_find? fun k => ?_)
      by_cases hk : k = index
      · rw [hk, hnone b hb, hnone b' hb']
      · have := congrArg (OrderedMap.find? · k) heq
        simpa [OrderedMap.find?_insert_of_ne _ hk] using this.symm
  · rw [binds_concat_iff hindex, Trace.withVariable, List.mem_flatMap]
    constructor
    · rintro ⟨b', hb', hb⟩
      obtain ⟨value, hvalue, rfl⟩ := List.mem_map.1 hb
      exact ⟨b', (h.mem_iff b').1 hb', value, mem_rangeValues.1 hvalue, rfl⟩
    · rintro ⟨b', hb', value, hvalue, rfl⟩
      exact ⟨b', (h.mem_iff b').2 hb', List.mem_map.2 ⟨value, mem_rangeValues.2 hvalue, rfl⟩⟩

lemma length_withVariable (all : List LoopBinding) (index first last : ℤ) :
    (withVariable all index first last).length = all.length * rangeSize (first, last) := by
  simp [withVariable, rangeValues, List.length_flatMap]

/-- The number of bindings. -/
def spaceSize (entries : List (ℤ × (ℤ × ℤ))) : ℕ := (entries.map fun e => rangeSize e.2).prod

/-- No range is empty and there are not too many bindings. -/
def Fits (entries : List (ℤ × (ℤ × ℤ))) : Prop :=
  (∀ e ∈ entries, e.2.1 ≤ e.2.2) ∧ spaceSize entries ≤ Session.kMaxLoopSelectorBindings

end Enumeration

/-! ### The loop over the variables -/

section Expansion

variable {entries rest : List (ℤ × (ℤ × ℤ))} {all : List LoopBinding} {index first last : ℤ}
  {fuel : ℕ}

/-- One more variable, if its range is not empty and its values do not make too many bindings. -/
lemma expandBindings_cons (h : IsLoopRange (first, last))
    (hfuel : Session.kMaxLoopSelectorBindings ≤ fuel) (hpos : 0 < all.length) :
    expandBindings fuel ((index, (first, last)) :: rest) all =
      if first ≤ last ∧ all.length * rangeSize (first, last) ≤ Session.kMaxLoopSelectorBindings then
        expandBindings fuel rest (withVariable all index first last)
      else .ok none := by
  rw [expandBindings]
  by_cases hempty : last < first
  · rw [if_pos hempty, if_neg (by omega)]
  · have hle : first ≤ last := not_lt.1 hempty
    have hsize := rangeSize_pos hle
    rw [if_neg hempty, wrappedSpan_eq h hle]
    by_cases hspan : rangeSize (first, last) > Session.kMaxLoopSelectorBindings
    · have hmany := Nat.le_mul_of_pos_left (rangeSize (first, last)) hpos
      rw [if_pos hspan, if_neg (by omega)]
    · rw [if_neg hspan, divideU64, if_neg hsize.ne']
      have hguard : all.length > Session.kMaxLoopSelectorBindings / rangeSize (first, last) ↔
          Session.kMaxLoopSelectorBindings < all.length * rangeSize (first, last) :=
        Nat.div_lt_iff_lt_mul hsize
      show (if _ then _ else _) = _
      by_cases hmany : Session.kMaxLoopSelectorBindings < all.length * rangeSize (first, last)
      · rw [if_pos (hguard.2 hmany), if_neg (by omega)]
        rfl
      · have hvalues : valuesFrom last fuel first = .ok (rangeValues first last) :=
          valuesFrom_eq h.first_ge h.last_lt hle (by omega)
        have hexpanded : (all.mapM fun existing => do
              let values ← (.ok (rangeValues first last) : Except Stop (List ℤ))
              return values.map fun value => existing.insert index value) =
            .ok (all.map fun existing =>
              (rangeValues first last).map fun value => existing.insert index value) :=
          List.mapM_pure
        rw [if_neg (hguard.not.2 hmany), if_pos ⟨hle, not_lt.1 hmany⟩, hvalues, hexpanded,
          withVariable, List.flatMap_def]
        rfl

lemma spaceSize_append (entries entries' : List (ℤ × (ℤ × ℤ))) :
    spaceSize (entries ++ entries') = spaceSize entries * spaceSize entries' := by
  simp [spaceSize]

lemma spaceSize_pos (h : ∀ e ∈ entries, e.2.1 ≤ e.2.2) : 0 < spaceSize entries := by
  refine Nat.pos_of_ne_zero fun hzero => ?_
  obtain ⟨e, he, hsize⟩ := List.mem_map.1 (List.prod_eq_zero_iff.1 hzero)
  exact absurd hsize (rangeSize_pos (h e he)).ne'

/-- All bindings are found if they fit, and none otherwise. -/
lemma expandBindings_eq (hall : Enumerates entries all) (hlength : all.length = spaceSize entries)
    (hentries : ∀ e ∈ entries, e.2.1 ≤ e.2.2) (hfuel : Session.kMaxLoopSelectorBindings ≤ fuel)
    (hrest : ∀ e ∈ rest, IsLoopRange e.2) (hkeys : ((entries ++ rest).map Prod.fst).Nodup)
    (hsize : spaceSize entries ≤ Session.kMaxLoopSelectorBindings) :
    (Fits (entries ++ rest) ∧ ∃ all', expandBindings fuel rest all = .ok (some all') ∧
        Enumerates (entries ++ rest) all') ∨
      (¬ Fits (entries ++ rest) ∧ expandBindings fuel rest all = .ok none) := by
  induction rest generalizing entries all with
  | nil =>
      rw [List.append_nil]
      exact Or.inl ⟨⟨hentries, hsize⟩, all, rfl, hall⟩
  | cons e rest ih =>
      obtain ⟨index, first, last⟩ := e
      have hpos : 0 < all.length := hlength ▸ spaceSize_pos hentries
      have hindex : index ∉ entries.map Prod.fst := by
        rw [List.map_append, List.map_cons] at hkeys
        exact fun hmem => (List.nodup_append'.1 hkeys).2.2 hmem List.mem_cons_self
      have happend : entries ++ (index, (first, last)) :: rest =
          entries ++ [(index, (first, last))] ++ rest := by simp
      have hnew : spaceSize (entries ++ [(index, (first, last))]) =
          all.length * rangeSize (first, last) := by
        simp [hlength, spaceSize]
      rw [expandBindings_cons (hrest _ List.mem_cons_self) hfuel hpos]
      split_ifs with hfits
      · rw [happend] at hkeys ⊢
        refine ih (hall.withVariable hindex) ?_ ?_ (fun e he => hrest e (List.mem_cons_of_mem _ he))
          hkeys (hnew ▸ hfits.2)
        · rw [length_withVariable, hnew]
        · intro e he
          rcases List.mem_append.1 he with he | he
          · exact hentries e he
          · rw [List.mem_singleton.1 he]
            exact hfits.1
      · refine Or.inr ⟨fun hall => hfits ⟨hall.1 (index, (first, last)) (by simp), ?_⟩, rfl⟩
        -- more variables make no fewer bindings
        have hle := hall.2
        have hrest : 0 < spaceSize rest := spaceSize_pos fun e he => hall.1 e (by simp [he])
        rw [happend, spaceSize_append, hnew] at hle
        exact (Nat.le_mul_of_pos_right _ hrest).trans hle

end Expansion

/-! ### The loop over the bindings -/

section Evaluation

variable {once : LoopBinding → PredicateState}

/-- The bindings up to the first active one are evaluated. -/
lemma evaluateBindings_fst (all : List LoopBinding) (unresolved waveformUnknown : Bool) :
    (evaluateBindings once all unresolved waveformUnknown).1 = untilActive once all := by
  induction all generalizing unresolved waveformUnknown with
  | nil => rfl
  | cons b rest ih =>
      rw [evaluateBindings, untilActive]
      by_cases hactive : once b = .active
      · simp [hactive]
      · simpa [hactive, untilActive] using ih _ _

/-- The verdict of the loop, with what its flags say of the bindings before. -/
lemma evaluateBindings_snd (all : List LoopBinding) (unresolved waveformUnknown : Bool) :
    (evaluateBindings once all unresolved waveformUnknown).2 =
      if ∃ b ∈ all, once b = .active then .active
      else if unresolved ∨ ∃ b ∈ all, once b = .unresolved then .unresolved
      else if waveformUnknown ∨ ∃ b ∈ all, once b = .waveformUnknown then .waveformUnknown
      else .inactive := by
  induction all generalizing unresolved waveformUnknown with
  | nil => simp [evaluateBindings]
  | cons b rest ih =>
      rw [evaluateBindings]
      by_cases hactive : once b = .active
      · simp [hactive]
      · simp [hactive, ih, or_assoc]

/-- The loop gives the verdict over the bindings. -/
lemma isVerdict_evaluateBindings {P : LoopBinding → Prop} {all : List LoopBinding}
    (h : ∀ b, b ∈ all ↔ P b) : IsVerdict P once (evaluateBindings once all false false).2 := by
  have hex : ∀ state, (∃ b ∈ all, once b = state) ↔ ∃ b, P b ∧ once b = state := by
    simp [h]
  rw [evaluateBindings_snd]
  simp only [Bool.false_eq_true, false_or]
  split_ifs with hactive hunresolved hunknown
  · rw [hex] at hactive
    constructor <;> grind
  · rw [hex] at hactive hunresolved
    constructor <;> grind
  · rw [hex] at hactive hunresolved hunknown
    constructor <;> grind
  · rw [hex] at hactive hunresolved hunknown
    have hinactive : ∀ b, P b → once b = .inactive := by
      intro b hb
      cases hstate : once b with
      | active => exact absurd ⟨b, hb, hstate⟩ hactive
      | unresolved => exact absurd ⟨b, hb, hstate⟩ hunresolved
      | waveformUnknown => exact absurd ⟨b, hb, hstate⟩ hunknown
      | inactive => rfl
    constructor <;> grind

end Evaluation

/-! ### The predicate -/

lemma keys_nodup (ranges : OrderedMap ℤ (ℤ × ℤ)) : (ranges.entries.map Prod.fst).Nodup :=
  List.pairwise_map.2 (ranges.sorted.imp fun h => h.ne)

/-- A run without ranges is one over the single binding of no variable. -/
lemma runPredicate_eq (ranges : OrderedMap ℤ (ℤ × ℤ)) (once : LoopBinding → PredicateState)
    (fuel : ℕ) :
    runPredicate ranges once fuel =
      (expandBindings fuel ranges.entries [.empty]).map fun bindings =>
        bindings.elim ([], .unresolved) fun bindings => evaluateBindings once bindings false false := by
  rw [runPredicate]
  split_ifs with hnil
  · rw [hnil]
    simp only [expandBindings, Except.map, Option.elim_some, evaluateBindings]
    cases once .empty <;> simp
  · cases expandBindings fuel ranges.entries [.empty] with
    | error stop => rfl
    | ok bindings => cases bindings <;> rfl

/-- Every run comes to its end, and decides the predicate over the whole space of bindings if it is
not too large. -/
theorem runPredicate_decides (ranges : OrderedMap ℤ (ℤ × ℤ))
    (hranges : ∀ range ∈ ranges.values, IsLoopRange range) (once : LoopBinding → PredicateState)
    (fuel : ℕ) (hfuel : Session.kMaxLoopSelectorBindings ≤ fuel) :
    ∃ evaluated state, runPredicate ranges once fuel = .ok (evaluated, state) ∧
      (¬ Fits ranges.entries → evaluated = [] ∧ state = .unresolved) ∧
      (Fits ranges.entries → ∃ all, Enumerates ranges.entries all ∧
        evaluated = untilActive once all ∧ IsVerdict (Binds ranges.entries) once state) := by
  have hrest : ∀ e ∈ ranges.entries, IsLoopRange e.2 := fun e he =>
    hranges e.2 (List.mem_map_of_mem he)
  have hexpand := expandBindings_eq enumerates_nil (by simp [spaceSize]) (by simp) hfuel hrest
    (by simpa using keys_nodup ranges) (by simp [spaceSize, Session.kMaxLoopSelectorBindings])
  rw [List.nil_append] at hexpand
  rw [runPredicate_eq]
  rcases hexpand with ⟨hfits, all, hall, henum⟩ | ⟨hfits, hnone⟩
  · rw [hall]
    refine ⟨_, _, rfl, fun hnot => absurd hfits hnot, fun _ => ⟨all, henum, ?_, ?_⟩⟩
    · exact evaluateBindings_fst all false false
    · exact isVerdict_evaluateBindings henum.mem_iff
  · rw [hnone]
    exact ⟨_, _, rfl, fun _ => ⟨rfl, rfl⟩, fun h => absurd h hfits⟩

/-! ### The predicate of a statement -/

section Statement

variable {rest : List (ℤ × (ℤ × ℤ))} {index first last : ℤ} {fuel : ℕ}

/-- A variable behind all others is bound at the end. -/
lemma entries_insert {b : LoopBinding} (h : ∀ x ∈ b.entries, x.1 < index) (value : ℤ) :
    (b.insert index value).entries = b.entries ++ [(index, value)] := by
  show OrderedMap.alterEntries index (fun _ => some value) b.entries = _
  generalize b.entries = l at h
  induction l with
  | nil => rfl
  | cons e l ih =>
      have hlt := h e List.mem_cons_self
      rw [OrderedMap.alterEntries, if_neg (by omega), if_neg (by omega),
        ih fun x hx => h x (List.mem_cons_of_mem e hx), List.cons_append]

lemma loopBindings_cons {bindings : List (List (ℤ × ℤ))} (hpos : 0 < bindings.length) :
    Session.loopBindings ((index, (first, last)) :: rest) bindings =
      if first ≤ last ∧
          bindings.length * rangeSize (first, last) ≤ Session.kMaxLoopSelectorBindings then
        Session.loopBindings rest (bindings.flatMap fun existing =>
          (rangeValues first last).map fun value => existing ++ [(index, value)])
      else none := by
  rw [Session.loopBindings]
  by_cases hempty : last < first
  · rw [if_pos hempty, if_neg (by omega)]
  · have hsize : (last - first).toNat + 1 = rangeSize (first, last) := by
      simp only [rangeSize]
      omega
    have hguard : bindings.length > Session.kMaxLoopSelectorBindings / rangeSize (first, last) ↔
        Session.kMaxLoopSelectorBindings < bindings.length * rangeSize (first, last) :=
      Nat.div_lt_iff_lt_mul (rangeSize_pos (not_lt.1 hempty))
    have hle := Nat.le_mul_of_pos_left (rangeSize (first, last)) hpos
    simp only [hempty, if_false, hsize, hguard]
    by_cases hmany : Session.kMaxLoopSelectorBindings < bindings.length * rangeSize (first, last)
    · rw [if_pos (Or.inr hmany), if_neg (by omega)]
    · rw [if_neg (by omega), if_pos (by omega)]
      simp only [rangeValues, List.map_map, Function.comp_def]

lemma entries_withVariable {all : List LoopBinding} (h : ∀ b ∈ all, ∀ x ∈ b.entries, x.1 < index) :
    (withVariable all index first last).map OrderedMap.entries =
      (all.map OrderedMap.entries).flatMap fun existing =>
        (rangeValues first last).map fun value => existing ++ [(index, value)] := by
  rw [withVariable, List.map_flatMap, List.flatMap_map]
  refine List.flatMap_congr fun b hb => ?_
  rw [List.map_map]
  exact List.map_congr_left fun value _ => entries_insert (h b hb) value

/-- The bindings of the machine are those of the statement. -/
lemma exists_expandBindings {all : List LoopBinding} (hpos : 0 < all.length)
    (hfuel : Session.kMaxLoopSelectorBindings ≤ fuel) (hrest : ∀ e ∈ rest, IsLoopRange e.2)
    (hsorted : rest.Pairwise fun a b => a.1 < b.1)
    (hbehind : ∀ b ∈ all, ∀ x ∈ b.entries, ∀ e ∈ rest, x.1 < e.1) :
    ∃ found, expandBindings fuel rest all = .ok found ∧
      Session.loopBindings rest (all.map OrderedMap.entries) =
        found.map (List.map OrderedMap.entries) := by
  induction rest generalizing all with
  | nil => exact ⟨some all, rfl, rfl⟩
  | cons e rest ih =>
      obtain ⟨index, first, last⟩ := e
      rw [List.pairwise_cons] at hsorted
      have hindex : ∀ b ∈ all, ∀ x ∈ b.entries, x.1 < index := fun b hb x hx =>
        hbehind b hb x hx _ List.mem_cons_self
      rw [expandBindings_cons (hrest _ List.mem_cons_self) hfuel hpos,
        loopBindings_cons (by simpa using hpos), List.length_map]
      split_ifs with hfits
      · rw [← entries_withVariable hindex]
        refine ih ?_ (fun e he => hrest e (List.mem_cons_of_mem _ he)) hsorted.2 ?_
        · rw [length_withVariable]
          exact Nat.mul_pos hpos (rangeSize_pos hfits.1)
        · intro b hb x hx e he
          obtain ⟨b', hb', hb⟩ := List.mem_flatMap.1 hb
          obtain ⟨value, -, rfl⟩ := List.mem_map.1 hb
          rw [entries_insert (hindex b' hb'), List.mem_append, List.mem_singleton] at hx
          rcases hx with hx | rfl
          · exact hbehind b' hb' x hx e (List.mem_cons_of_mem _ he)
          · exact hsorted.1 e he
      · exact ⟨none, rfl, rfl⟩

/-- The predicate of a statement is decided by the run for its ranges. -/
lemma runPredicate_statement (session : Session) (statement : StatementGroup) (activeTime : ℕ)
    (hranges : ∀ range ∈ statement.targetLoopRanges.values, IsLoopRange range)
    (hfuel : Session.kMaxLoopSelectorBindings ≤ fuel) :
    (runPredicate statement.targetLoopRanges
        (fun b => session.evaluatePredicateOnce statement b.entries activeTime) fuel).map Prod.snd =
      .ok (session.evaluatePredicate statement activeTime) := by
  have hpos : 0 < [(OrderedMap.empty : LoopBinding)].length := Nat.one_pos
  obtain ⟨found, hexpand, hfound⟩ := exists_expandBindings hpos hfuel
    (fun e he => hranges e.2 (List.mem_map_of_mem he)) statement.targetLoopRanges.sorted (by simp)
  rw [Session.evaluatePredicate]
  split_ifs with hnil
  · rw [runPredicate, if_pos hnil]
    rfl
  · rw [runPredicate_eq, hexpand]
    have hnone : [OrderedMap.empty].map OrderedMap.entries = [([] : List (ℤ × ℤ))] := rfl
    rw [hnone] at hfound
    rw [hfound]
    cases found with
    | none => rfl
    | some bindings =>
        show Except.ok (evaluateBindings _ bindings false false).2 = _
        rw [evaluateBindings_snd]
        simp [Session.combineStates, Function.comp_def]

end Statement

lemma loopTimes_sorted : List.Pairwise (· < ·) [0] := List.pairwise_singleton _ _

lemma loopTimes_lt : ∀ t ∈ [0], t < 2 ^ 64 := List.forall_mem_singleton.2 (Nat.two_pow_pos 64)

lemma loopTable_changes : ∀ s ∈ ([] : List (String × List (ℕ × String))),
    s.2.Pairwise (fun a b : ℕ × String => a.1 ≤ b.1) ∧ ∀ c ∈ s.2, c.1 < [0].length := nofun

/-- A design with the loop variables `i` and `j`, and a waveform without signals. -/
def loopSession : Session where
  waveform := Backend.ofTable [0] [] loopTimes_sorted loopTimes_lt loopTable_changes
  design := .ofSignals [{ name := some "i", width := 4 }, { name := some "j", width := 4 }]
  sourceContext _ _ := []
  formatTime time := toString time ++ "ns"

/-- A statement that is executed when both loop variables are odd, in a loop over 2 to 5 and one
over 0 to 1. -/
def loopStatement : StatementGroup where
  predicate := "i[0] && j[0]"
  targetLoopRanges := (OrderedMap.empty.insert 0 (2, 5)).insert 1 (0, 1)

/-- The statement is found to be active, for the values 3 and 1 among others. -/
theorem loopStatement_active : loopSession.evaluatePredicate loopStatement 0 = .active := by
  have hranges : ∀ range ∈ loopStatement.targetLoopRanges.values, IsLoopRange range := by
    intro range hrange
    rcases List.mem_pair.1 hrange with rfl | rfl <;> constructor <;> norm_num
  have honce : loopSession.evaluatePredicateOnce loopStatement
      ((OrderedMap.empty.insert 0 3).insert 1 1 : LoopBinding).entries 0 = .active := by
    decide +kernel
  obtain ⟨evaluated, state, hrun, -, hfits⟩ := runPredicate_decides loopStatement.targetLoopRanges
    hranges (fun b => loopSession.evaluatePredicateOnce loopStatement b.entries 0)
    Session.kMaxLoopSelectorBindings le_rfl
  obtain ⟨all, -, -, hverdict⟩ := hfits ⟨by decide, by decide⟩
  have hactive : state = .active := by
    refine hverdict.active.2 ⟨(OrderedMap.empty.insert 0 3).insert 1 1, ⟨?_, ?_⟩, honce⟩
    · intro e he
      rcases List.mem_pair.1 he with rfl | rfl
      · exact ⟨3, rfl, by norm_num⟩
      · exact ⟨1, rfl, by norm_num⟩
    · intro index value hfind
      rw [OrderedMap.find?_insert_eq_some_iff] at hfind
      rcases hfind with ⟨rfl, -⟩ | ⟨-, hfind⟩
      · decide
      · rw [OrderedMap.find?_insert_eq_some_iff] at hfind
        rcases hfind with ⟨rfl, -⟩ | ⟨-, hfind⟩
        · decide
        · cases hfind
  have hstatement := runPredicate_statement loopSession loopStatement 0 hranges le_rfl
  rw [hrun, hactive] at hstatement
  exact (Except.ok.inj hstatement).symm

end XdebugFst.Trace
