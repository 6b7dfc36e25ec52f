import Mathlib
import XdebugFst.Lib.Prune
import XdebugFst.Lists.FirstChange

/-!
# The change history of a signal

Four actions on a signal work on the rows of `collect_changes`: the settled value at the start of a
range, and then the settled values at the changes in the range, without those that are equal to the
row before. `signal.stability` and `signal.xz_verify` read their answer off the rows.

The rows should be the history of the settled value. Two reals are compared with `==`, so that a NaN
differs from itself: a signal that settles to NaN twice in a row gets a row for each time, also two
rows at one time. `reportsHistory_iff` says that this is all that can go wrong.
-/

namespace XdebugFst.Signal

open Lib Lib.History Waveform XdebugFst.Lists

/-! ### The signal -/

/-- A signal with the kind of its values, `SignalInfo`. -/
structure TypedSignal (table : TimeTable) extends WaveSignal table where
  encoding : ValueKind
  bits : encoding = .bitVector → ∀ c ∈ changes, c.value.kind = .bitVector

/-- `min_time`. -/
def minTime (table : TimeTable) : ℕ := table.times.headD 0

/-- `max_time`. -/
def maxTime (table : TimeTable) : ℕ := table.times.getLastD 0

/-- `ChangeRow`. -/
structure ChangeRow where
  time : ℕ
  value : WaveformValue
  deriving DecidableEq, Repr, Inhabited

/-- `value_equal`. -/
def valueEqual : WaveformValue → WaveformValue → Bool := waveformValuesEqual

section Collect

variable {table : TimeTable} (signal : WaveSignal table) (first last : ℕ)

/-- The body of the loop of `collect_changes`. -/
def collectStep (rows : List ChangeRow) (ti : ℕ) : List ChangeRow :=
  let time := table.timeAt ti
  if time ≤ first || time > last then rows
  else
    match sampleRaw signal.changes ti with
    | none => rows
    | some value =>
        if rows.getLast?.any fun row => valueEqual row.value value then rows
        else rows ++ [⟨time, value⟩]

/-- `collect_changes`. -/
def collectChanges : List ChangeRow :=
  if first > maxTime table || last < minTime table then []
  else
    let initial := (sampleRaw signal.changes (table.timeIdxOf first)).map fun value =>
      (⟨first, value⟩ : ChangeRow)
    signal.timeIndicesOf.foldl (collectStep signal first last) initial.toList

end Collect

/-! ### `signal.stability` -/

/-- The loop behind the first row: the rows that are listed, and whether all are equal to it. -/
def stabilityLoop (front : ChangeRow) : List ChangeRow → List ChangeRow × Bool
  | [] => ([], true)
  | row :: rest =>
      if !valueEqual row.value front.value then ([row], false)
      else
        let (listed, stable) := stabilityLoop front rest
        (row :: listed, stable)

structure StabilityReport where
  stable : Bool
  changes : List ChangeRow
  changeRowCount : ℕ
  actualTransitionCount : ℕ
  includesInitialValue : Bool

/-- `SignalStabilityHandler::run`, from the rows on. -/
def stabilityOf (rows : List ChangeRow) : StabilityReport :=
  let (listed, stable) :=
    match rows with
    | [] => ([], true)
    | front :: rest =>
        let (listed, stable) := stabilityLoop front rest
        (front :: listed, stable)
  { stable
    changes := listed
    changeRowCount := listed.length
    actualTransitionCount := if stable then 0 else 1
    includesInitialValue := 0 < listed.length }

/-! ### `signal.xz_verify` -/

/-- `contains_bit`. -/
def containsBit (bits : String) (expected : Char) : Bool :=
  (bits.toList.map Char.toLower).contains expected

/-- `all_bits`. -/
def allBits (bits : String) (expected : Char) : Bool :=
  bits ≠ "" && (bits.toList.map Char.toLower).all (· = expected)

/-- `match_mode`; anything but `exact` asks for one such bit. -/
inductive MatchMode
  | exact | contains
  deriving DecidableEq, Repr

/-- A value is in the expected state. -/
def matchesState (mode : MatchMode) (expected : Char) (value : WaveformValue) : Bool :=
  match mode with
  | .exact => allBits value.text expected
  | .contains => containsBit value.text expected

structure XzReport where
  alwaysMatched : Bool
  checkedValueCount : ℕ
  initialValue : WaveformValue
  firstMismatch : Option ChangeRow

/-- The errors of the action that depend on the signal. -/
inductive XzError
  /-- `INVALID_SIGNAL_TYPE`. -/
  | notBitVector
  /-- `VALUE_NOT_AVAILABLE`. -/
  | noValue
  deriving DecidableEq, Repr

/-- The loop over the rows: the number of rows that are checked, and the first mismatch. -/
def xzLoop (mode : MatchMode) (expected : Char) : List ChangeRow → ℕ × Option ChangeRow
  | [] => (0, none)
  | row :: rest =>
      if !matchesState mode expected row.value then (1, some row)
      else
        let (checked, mismatch) := xzLoop mode expected rest
        (checked + 1, mismatch)

section Actions

variable {table : TimeTable} (signal : TypedSignal table) (first last : ℕ)

/-- The stability of a signal in a range. -/
def signalStability : StabilityReport :=
  stabilityOf (collectChanges signal.toWaveSignal first last)

/-- `SignalXzVerifyHandler::run`. -/
def signalXzVerify (mode : MatchMode) (expected : Char) : Except XzError XzReport :=
  if signal.encoding ≠ .bitVector then .error .notBitVector
  else
    match collectChanges signal.toWaveSignal first last with
    | [] => .error .noValue
    | front :: rest =>
        let (checked, mismatch) := xzLoop mode expected (front :: rest)
        .ok
          { alwaysMatched := mismatch.isNone
            checkedValueCount := checked
            initialValue := front.value
            firstMismatch := mismatch }

end Actions

/-! ### Values -/

/-- What counts of a real: the two zeros are one number, and all NaNs are. -/
def realKey (real : String) : String :=
  if isNan real then "nan" else if isZero real then "0" else real

/-- What counts of a value. -/
def valueKey (value : WaveformValue) : ValueKind × String :=
  (value.kind, if value.kind = .real then realKey value.real else value.text)

/-- The two values are the same. -/
def SameValue (a b : WaveformValue) : Prop := valueKey a = valueKey b

/-- A NaN. -/
def IsNan (value : WaveformValue) : Prop := value.kind = .real ∧ isNan value.real = true

/-! ### What the rows should be -/

section Statements

variable {table : TimeTable} (signal : TypedSignal table) (first last : ℕ)

/-- The rows are the history of the settled value in a range. -/
structure CanonicalHistory (rows : List ChangeRow) : Prop where
  increasing : rows.Pairwise fun a b => a.time < b.time
  inRange : ∀ row ∈ rows, first ≤ row.time ∧ row.time ≤ last
  differ : rows.IsChain fun a b => ¬ SameValue a.value b.value
  holds : ∀ t, first ≤ t → t ≤ last → ∀ value, signal.rawAt t = some value →
    ∃ row, lastWhere (fun row : ChangeRow => row.time ≤ t) rows = some row ∧
      SameValue row.value value

/-- The signal has a settled value in the range. -/
def HasValue (value : WaveformValue) : Prop :=
  ∃ t, (first ≤ t ∧ t ≤ last) ∧ signal.rawAt t = some value

/-- The rows are the history, and the two actions say of the settled values what they should. -/
structure ReportsHistory : Prop where
  history : CanonicalHistory signal first last (collectChanges signal.toWaveSignal first last)
  stable : (signalStability signal first last).stable = true ↔
    ∀ a b, HasValue signal first last a → HasValue signal first last b → SameValue a b
  verified : signal.encoding = .bitVector → (∃ value, HasValue signal first last value) →
    ∀ mode expected, ∃ report, signalXzVerify signal first last mode expected = .ok report ∧
      (report.alwaysMatched = true ↔
        ∀ value, HasValue signal first last value → matchesState mode expected value = true)

/-- The settled value at the time of a change, if the change is in the range behind its start. -/
def visitAt (signal : WaveSignal table) (ti : ℕ) : Option ChangeRow :=
  if table.timeAt ti ≤ first ∨ last < table.timeAt ti then none
  else (signal.rawAt (table.timeAt ti)).map fun value => ⟨table.timeAt ti, value⟩

/-- The rows that the loop visits: the settled value at the start of the range, and those at the
changes behind it, as far as there is one. -/
def visits (signal : WaveSignal table) : List ChangeRow :=
  ((signal.rawAt first).map fun value => (⟨first, value⟩ : ChangeRow)).toList ++
    signal.timeIndicesOf.filterMap (visitAt first last signal)

/-- The signal does not settle to NaN twice in a row. A change counts as often as it has deltas. -/
def NoRepeatedNan : Prop :=
  (visits first last signal.toWaveSignal).IsChain fun a b => ¬ (IsNan a.value ∧ IsNan b.value)

end Statements

/-! ### Equal values -/

section Values

variable {a b : WaveformValue}

/-- The comparison of numbers is equality, but for NaNs. -/
lemma realKey_eq_iff (x y : String) :
    realKey x = realKey y ↔ realsEqual x y = true ∨ isNan x = true ∧ isNan y = true := by
  simp only [realKey, realsEqual, isNan, isZero, Bool.or_eq_true, decide_eq_true_eq,
    Bool.and_eq_true, Bool.not_eq_true', Bool.or_eq_false_iff, decide_eq_false_iff_not]
  grind

lemma valueEqual_of_isNan (h : IsNan a ∨ IsNan b) : valueEqual a b = false := by
  rw [valueEqual, waveformValuesEqual]
  split_ifs with hkind hreal
  · rfl
  · rcases h with h | h <;> simp [realsEqual, h.2]
  · rcases h with h | h
    · exact absurd h.1 hreal
    · exact absurd (not_not.1 hkind ▸ h.1) hreal

/-- The test of the code is equality of values, but for NaNs. -/
lemma sameValue_iff (a b : WaveformValue) :
    SameValue a b ↔ valueEqual a b = true ∨ IsNan a ∧ IsNan b := by
  rw [SameValue, valueKey, valueKey, Prod.mk.injEq, valueEqual, waveformValuesEqual, IsNan, IsNan]
  by_cases hkind : a.kind = b.kind
  · rw [hkind, if_neg (not_not.2 rfl)]
    by_cases hreal : b.kind = .real
    · simp only [hreal, if_true, true_and, realKey_eq_iff]
    · simp [hreal]
  · rw [if_pos hkind]
    simp only [hkind, false_and, Bool.false_eq_true, false_or, false_iff]
    rintro ⟨ha, hb⟩
    exact hkind (ha.1.trans hb.1.symm)

end Values

/-! ### Visited rows -/

/-- The test that drops a row. -/
def sameRow (a b : ChangeRow) : Bool := valueEqual a.value b.value

section Visits

variable {table : TimeTable} {signal : WaveSignal table} {first last : ℕ}

lemma visitAt_eq_some {ti : ℕ} {row : ChangeRow} :
    visitAt first last signal ti = some row ↔
      (first < row.time ∧ row.time ≤ last) ∧ row.time = table.timeAt ti ∧
        signal.rawAt row.time = some row.value := by
  obtain ⟨time, value⟩ := row
  rw [visitAt]
  constructor
  · intro h
    split_ifs at h with hout
    obtain ⟨value', hvalue, hrow⟩ := Option.map_eq_some_iff.1 h
    cases hrow
    push Not at hout
    exact ⟨hout, rfl, hvalue⟩
  · rintro ⟨⟨hlo, hhi⟩, htime, hvalue⟩
    dsimp only at htime hvalue hlo hhi
    subst htime
    rw [if_neg (by omega), hvalue]
    rfl

/-- A turn of the loop visits one row or none. -/
lemma collectStep_eq {ti : ℕ} (hti : ti ∈ signal.timeIndicesOf) (rows : List ChangeRow) :
    collectStep signal first last rows ti =
      (visitAt first last signal ti).elim rows (pruneStep sameRow rows) := by
  rw [collectStep, visitAt, WaveSignal.rawAt_timeAt hti]
  by_cases hout : table.timeAt ti ≤ first ∨ last < table.timeAt ti
  · rw [if_pos hout, if_pos (by simpa using hout)]
    rfl
  · rw [if_neg hout, if_neg (by simpa using hout)]
    cases sampleRaw signal.changes ti <;> rfl

lemma foldl_collectStep {tis : List ℕ} (htis : ∀ ti ∈ tis, ti ∈ signal.timeIndicesOf)
    (rows : List ChangeRow) :
    tis.foldl (collectStep signal first last) rows =
      (tis.filterMap (visitAt first last signal)).foldl (pruneStep sameRow) rows := by
  induction tis generalizing rows with
  | nil => rfl
  | cons ti tis ih =>
      have htail := ih fun tj hj => htis tj (List.mem_cons_of_mem ti hj)
      rw [List.foldl_cons, htail, List.filterMap_cons, collectStep_eq (htis ti List.mem_cons_self)]
      cases visitAt first last signal ti <;> rfl

/-- The rows are the visited ones without repetitions. -/
lemma collectChanges_eq (hfirst : first ≤ maxTime table) (hlast : minTime table ≤ last) :
    collectChanges signal first last = prune sameRow (visits first last signal) := by
  rw [collectChanges, if_neg (by simp only [Bool.or_eq_true, decide_eq_true_eq]; omega), visits]
  dsimp only
  rw [foldl_collectStep fun _ h => h, prune, List.foldl_append, WaveSignal.rawAt]
  cases sampleRaw signal.changes (table.timeIdxOf first) with
  | none => rfl
  | some value => rfl

lemma collectChanges_eq_nil (h : ¬ (first ≤ maxTime table ∧ minTime table ≤ last)) :
    collectChanges signal first last = [] := by
  rw [collectChanges, if_pos (by simp only [Bool.or_eq_true, decide_eq_true_eq]; omega)]

lemma mem_visits {row : ChangeRow} :
    row ∈ visits first last signal ↔ signal.rawAt row.time = some row.value ∧
      (row.time = first ∨
        (first < row.time ∧ row.time ≤ last) ∧ signal.ChangesAt row.time) := by
  obtain ⟨time, value⟩ := row
  rw [visits, List.mem_append, Option.mem_toList, Option.map_eq_some_iff, List.mem_filterMap]
  constructor
  · rintro (⟨value', hvalue, hrow⟩ | ⟨ti, hti, hrow⟩)
    · cases hrow
      exact ⟨hvalue, Or.inl rfl⟩
    · obtain ⟨hrange, htime, hvalue⟩ := visitAt_eq_some.1 hrow
      exact ⟨hvalue, Or.inr ⟨hrange, ti, hti, htime.symm⟩⟩
  · rintro ⟨hvalue, rfl | ⟨hrange, ti, hti, htime⟩⟩
    · exact Or.inl ⟨value, hvalue, rfl⟩
    · exact Or.inr ⟨ti, hti, visitAt_eq_some.2 ⟨hrange, htime.symm, hvalue⟩⟩

lemma pairwise_visits : (visits first last signal).Pairwise fun a b => a.time ≤ b.time := by
  rw [visits, List.pairwise_append]
  refine ⟨?_, ?_, ?_⟩
  · cases signal.rawAt first with
    | none => exact List.Pairwise.nil
    | some value => exact List.pairwise_singleton _ _
  · rw [List.pairwise_filterMap]
    refine (WaveSignal.pairwise_timeIndicesOf signal).imp_of_mem fun _ hj hle a ha b hb => ?_
    rw [(visitAt_eq_some.1 ha).2.1, (visitAt_eq_some.1 hb).2.1]
    exact TimeTable.timeAt_le hle (WaveSignal.timeIndicesOf_lt hj)
  · intro a ha b hb
    obtain ⟨value, -, rfl⟩ := Option.map_eq_some_iff.1 (Option.mem_toList.1 ha)
    obtain ⟨ti, -, hb⟩ := List.mem_filterMap.1 hb
    exact (visitAt_eq_some.1 hb).1.1.le

/-- A settled value in the range is that of a last visited row. -/
lemma exists_visit {t : ℕ} (hlo : first ≤ t) (hhi : t ≤ last) {value : WaveformValue}
    (hvalue : signal.rawAt t = some value) :
    ∃ row ∈ visits first last signal, row.time ≤ t ∧ row.value = value ∧
      ∀ row' ∈ visits first last signal, row'.time ≤ t → row'.time ≤ row.time := by
  rcases WaveSignal.rawAt_of_changes signal hlo with
    ⟨hnone, hsame⟩ | ⟨ti, hti, ⟨hlt, hle⟩, hmax, hsame⟩
  · refine ⟨⟨first, value⟩, mem_visits.2 ⟨hsame ▸ hvalue, Or.inl rfl⟩, hlo, rfl, ?_⟩
    rintro row' hrow' ht
    rcases (mem_visits.1 hrow').2 with htime | ⟨-, tj, hj, htime⟩
    · exact htime.le
    · rw [← htime] at ht ⊢
      exact hnone tj hj ht
  · refine ⟨⟨table.timeAt ti, value⟩, mem_visits.2 ⟨hsame ▸ hvalue, Or.inr ⟨⟨hlt, hle.trans hhi⟩,
      ti, hti, rfl⟩⟩, hle, rfl, ?_⟩
    rintro row' hrow' ht
    rcases (mem_visits.1 hrow').2 with htime | ⟨-, tj, hj, htime⟩
    · exact (htime.trans_lt hlt).le
    · rw [← htime] at ht ⊢
      exact hmax tj hj ht

/-- Rows in the order of their times are divided by a time. -/
lemma exists_split {rows : List ChangeRow} (h : rows.Pairwise fun a b => a.time ≤ b.time) (t : ℕ) :
    ∃ before after, rows = before ++ after ∧ (∀ row ∈ before, row.time ≤ t) ∧
      ∀ row ∈ after, t < row.time := by
  induction rows with
  | nil => exact ⟨[], [], rfl, by simp, by simp⟩
  | cons row rows ih =>
      rw [List.pairwise_cons] at h
      by_cases hle : row.time ≤ t
      · obtain ⟨before, after, rfl, hbefore, hafter⟩ := ih h.2
        exact ⟨row :: before, after, rfl, by simpa using ⟨hle, hbefore⟩, hafter⟩
      · refine ⟨[], row :: rows, rfl, by simp, fun row' hrow' => ?_⟩
        rcases List.mem_cons.1 hrow' with rfl | hrow'
        · omega
        · have := h.1 row' hrow'
          omega

lemma lastWhere_append {before after : List ChangeRow} {t : ℕ}
    (hbefore : ∀ row ∈ before, row.time ≤ t) (hafter : ∀ row ∈ after, t < row.time) :
    lastWhere (fun row : ChangeRow => row.time ≤ t) (before ++ after) = before.getLast? := by
  rw [lastWhere, List.filter_append, List.filter_eq_self.2 (by simpa using hbefore),
    List.filter_eq_nil_iff.2 (by simpa using hafter), List.append_nil]

/-- The last visited row up to a time has a representative that is kept. -/
lemma lastWhere_prune {rows : List ChangeRow} (h : rows.Pairwise fun a b => a.time ≤ b.time)
    {t : ℕ} {row : ChangeRow}
    (hrow : lastWhere (fun row : ChangeRow => row.time ≤ t) rows = some row) :
    ∃ kept, lastWhere (fun row : ChangeRow => row.time ≤ t) (prune sameRow rows) = some kept ∧
      (kept = row ∨ sameRow kept row = true) := by
  obtain ⟨before, after, rfl, hbefore, hafter⟩ := exists_split h t
  obtain ⟨added, hprune, hsub⟩ : ∃ added, prune sameRow (before ++ after) =
      prune sameRow before ++ added ∧ added.Sublist after := exists_prune_append before after
  rw [lastWhere_append hbefore hafter] at hrow
  rw [hprune, lastWhere_append (fun a ha => hbefore a ((prune_sublist before).subset ha))
    fun a ha => hafter a (hsub.subset ha)]
  exact getLast?_prune hrow

end Visits

/-! ### The history -/

section History

variable {table : TimeTable} {signal : TypedSignal table} {first last : ℕ}

lemma isChain_differ_iff (rows : List ChangeRow) :
    ((prune sameRow rows).IsChain fun a b => ¬ SameValue a.value b.value) ↔
      rows.IsChain fun a b => ¬ (IsNan a.value ∧ IsNan b.value) := by
  have hE : ∀ a b : ChangeRow, SameValue a.value b.value ↔
      sameRow a b = true ∨ IsNan a.value ∧ IsNan b.value := fun a b => sameValue_iff _ _
  have hodd : ∀ a b : ChangeRow, IsNan a.value ∨ IsNan b.value → sameRow a b = false :=
    fun _ _ h => valueEqual_of_isNan h
  exact @isChain_prune_iff _ sameRow (fun a b => SameValue a.value b.value)
    (fun a => IsNan a.value) hE hodd rows

/-- Rows in the order of their times of which neighbours differ have different times, when the time
determines the value. -/
lemma pairwise_time_lt {rows : List ChangeRow} (hsorted : rows.Pairwise fun a b => a.time ≤ b.time)
    (hraw : ∀ row ∈ rows, signal.rawAt row.time = some row.value)
    (hdiffer : rows.IsChain fun a b => ¬ SameValue a.value b.value) :
    rows.Pairwise fun a b => a.time < b.time := by
  have hchain : (rows.map ChangeRow.time).IsChain (· < ·) := by
    rw [List.isChain_map, List.isChain_iff_getElem]
    intro i hi
    have hle := List.pairwise_iff_getElem.1 hsorted i (i + 1) (by omega) hi (Nat.lt_succ_self i)
    refine lt_of_le_of_ne hle fun heq => List.isChain_iff_getElem.1 hdiffer i hi ?_
    have hvalue := hraw _ (List.getElem_mem (Nat.lt_of_succ_lt hi))
    rw [heq, hraw _ (List.getElem_mem hi)] at hvalue
    rw [Option.some.inj hvalue, SameValue]
  exact List.pairwise_map.1 (List.isChain_iff_pairwise.1 hchain)

/-- Each settled value in the range is held by the last row up to its time. -/
lemma exists_kept {t : ℕ} (hlo : first ≤ t) (hhi : t ≤ last) {value : WaveformValue}
    (hvalue : signal.rawAt t = some value) :
    ∃ row, lastWhere (fun row : ChangeRow => row.time ≤ t)
        (prune sameRow (visits first last signal.toWaveSignal)) = some row ∧
      SameValue row.value value := by
  obtain ⟨row, hrow, ht, rfl, hmax⟩ := exists_visit hlo hhi hvalue
  -- the last visited row up to `t` has the same time, hence the same value
  obtain ⟨last', hlast⟩ : ∃ last', lastWhere (fun row : ChangeRow => row.time ≤ t)
      (visits first last signal.toWaveSignal) = some last' := by
    cases hlast : lastWhere (fun row : ChangeRow => row.time ≤ t)
        (visits first last signal.toWaveSignal) with
    | some last' => exact ⟨last', rfl⟩
    | none =>
        rw [lastWhere, List.getLast?_eq_none_iff, List.filter_eq_nil_iff] at hlast
        exact absurd ht (by simpa using hlast row hrow)
  obtain ⟨hmem, hlast't⟩ := List.mem_filter.1 (List.mem_of_getLast? hlast)
  have htime : last'.time = row.time :=
    le_antisymm (hmax last' hmem (by simpa using hlast't))
      (le_of_lastWhere pairwise_visits hlast hrow ht)
  have hlastValue := (mem_visits.1 hmem).1
  rw [htime, (mem_visits.1 hrow).1] at hlastValue
  have hsame : row.value = last'.value := Option.some.inj hlastValue
  obtain ⟨kept, hkept, hor⟩ := lastWhere_prune pairwise_visits hlast
  refine ⟨kept, hkept, ?_⟩
  rw [hsame]
  rcases hor with rfl | hor
  · rfl
  · exact (sameValue_iff _ _).2 (Or.inl hor)

/-- The visited rows without repetitions are the history, unless two NaNs follow each other. -/
lemma canonicalHistory_of_noRepeatedNan (h : NoRepeatedNan signal first last)
    (hle : first ≤ last) :
    CanonicalHistory signal first last
      (prune sameRow (visits first last signal.toWaveSignal)) where
  differ := (isChain_differ_iff _).2 h
  inRange row hrow := by
    rcases (mem_visits.1 ((prune_sublist _).subset hrow)).2 with htime | ⟨hrange, -⟩
    · exact ⟨htime.ge, htime.le.trans hle⟩
    · exact ⟨hrange.1.le, hrange.2⟩
  increasing :=
    pairwise_time_lt (pairwise_visits.sublist (prune_sublist _))
      (fun _ hrow => (mem_visits.1 ((prune_sublist _).subset hrow)).1) ((isChain_differ_iff _).2 h)
  holds _ hlo hhi _ hvalue := exists_kept hlo hhi hvalue

lemma CanonicalHistory.exists_row {rows : List ChangeRow}
    (h : CanonicalHistory signal first last rows) {value : WaveformValue}
    (hvalue : HasValue signal first last value) : ∃ row ∈ rows, SameValue row.value value := by
  obtain ⟨t, ⟨hlo, hhi⟩, hraw⟩ := hvalue
  obtain ⟨row, hrow, hsame⟩ := h.holds t hlo hhi value hraw
  exact ⟨row, (List.mem_filter.1 (List.mem_of_getLast? hrow)).1, hsame⟩

lemma hasValue_of_mem_prune (hle : first ≤ last) {row : ChangeRow}
    (hrow : row ∈ prune sameRow (visits first last signal.toWaveSignal)) :
    HasValue signal first last row.value := by
  obtain ⟨hraw, htime⟩ := mem_visits.1 ((prune_sublist _).subset hrow)
  refine ⟨row.time, ?_, hraw⟩
  rcases htime with htime | ⟨hrange, -⟩
  · exact ⟨htime.ge, htime.le.trans hle⟩
  · exact ⟨hrange.1.le, hrange.2⟩

end History

/-! ### The actions -/

section Answers

variable {table : TimeTable} {signal : TypedSignal table} {first last : ℕ} {rows : List ChangeRow}

lemma stabilityLoop_snd (front : ChangeRow) (rest : List ChangeRow) :
    (stabilityLoop front rest).2 = rest.all fun row => valueEqual row.value front.value := by
  induction rest with
  | nil => rfl
  | cons row rest ih =>
      rw [stabilityLoop, List.all_cons, ← ih]
      cases valueEqual row.value front.value <;> rfl

/-- The rows of a history are stable if and only if the settled value is. -/
lemma stable_iff (h : CanonicalHistory signal first last rows)
    (hrows : ∀ row ∈ rows, HasValue signal first last row.value) :
    (stabilityOf rows).stable = true ↔
      ∀ a b, HasValue signal first last a → HasValue signal first last b → SameValue a b := by
  match rows, h, hrows with
  | [], h, _ =>
      refine iff_of_true rfl fun a b ha _ => ?_
      obtain ⟨row, hrow, -⟩ := h.exists_row ha
      simp at hrow
  | [front], h, _ =>
      refine iff_of_true rfl fun a b ha hb => ?_
      obtain ⟨row, hrow, hsame⟩ := h.exists_row ha
      obtain ⟨row', hrow', hsame'⟩ := h.exists_row hb
      rw [List.mem_singleton.1 hrow] at hsame
      rw [List.mem_singleton.1 hrow'] at hsame'
      exact hsame.symm.trans hsame'
  | front :: next :: rest, h, hrows =>
      have hdiffer : ¬ SameValue front.value next.value :=
        (List.isChain_cons_cons.1 h.differ).1
      have hne : valueEqual next.value front.value = false := by
        refine Bool.eq_false_iff.2 fun hequal => hdiffer ?_
        exact ((sameValue_iff _ _).2 (Or.inl hequal)).symm
      refine iff_of_false ?_ fun hall => hdiffer (hall _ _ (hrows front (by simp))
        (hrows next (by simp)))
      simp [stabilityOf, stabilityLoop_snd, hne]

lemma xzLoop_snd (mode : MatchMode) (expected : Char) (rows : List ChangeRow) :
    (xzLoop mode expected rows).2 = rows.find? fun row => !matchesState mode expected row.value := by
  induction rows with
  | nil => rfl
  | cons row rest ih =>
      rw [xzLoop, List.find?_cons]
      cases matchesState mode expected row.value with
      | false => rfl
      | true => exact ih

/-- The same value of a bit vector is in the same states. -/
lemma matchesState_congr {mode : MatchMode} {expected : Char} {a b : WaveformValue}
    (h : SameValue a b) (ha : a.kind = .bitVector) :
    matchesState mode expected a = matchesState mode expected b := by
  have hkind : a.kind = b.kind := congrArg Prod.fst h
  have htext := congrArg Prod.snd h
  simp only [valueKey, ← hkind, ha, reduceCtorEq, if_false] at htext
  cases mode <;> simp only [matchesState, htext]

lemma kind_of_hasValue (hbits : signal.encoding = .bitVector) {value : WaveformValue}
    (h : HasValue signal first last value) : value.kind = .bitVector := by
  obtain ⟨t, -, hraw⟩ := h
  obtain ⟨c, hc, rfl⟩ := exists_of_sampleRaw hraw
  exact signal.bits hbits c hc

/-- All rows of a history are in a state if and only if all settled values are. -/
lemma matches_iff (h : CanonicalHistory signal first last rows)
    (hrows : ∀ row ∈ rows, HasValue signal first last row.value)
    (hbits : signal.encoding = .bitVector) (mode : MatchMode) (expected : Char) :
    (xzLoop mode expected rows).2.isNone = true ↔
      ∀ value, HasValue signal first last value → matchesState mode expected value = true := by
  rw [xzLoop_snd, Option.isNone_iff_eq_none, List.find?_eq_none]
  constructor
  · intro hall value hvalue
    obtain ⟨row, hrow, hsame⟩ := h.exists_row hvalue
    rw [← matchesState_congr hsame (kind_of_hasValue hbits (hrows row hrow))]
    simpa using hall row hrow
  · intro hall row hrow
    simpa using hall row.value (hrows row hrow)

end Answers

/-! ### The range -/

/-- The rows are the history of the signal and the actions say what they should, if and only if the
signal does not settle to NaN twice in a row. -/
theorem reportsHistory_iff {table : TimeTable} (signal : TypedSignal table) (first last : ℕ)
    (hle : first ≤ last) (hmin : minTime table ≤ first) (hmax : first ≤ maxTime table) :
    ReportsHistory signal first last ↔ NoRepeatedNan signal first last := by
  have heq : collectChanges signal.toWaveSignal first last =
      prune sameRow (visits first last signal.toWaveSignal) :=
    collectChanges_eq hmax (hmin.trans hle)
  constructor
  · intro h
    have hdiffer := h.history.differ
    rw [heq] at hdiffer
    exact (isChain_differ_iff _).1 hdiffer
  · intro h
    have hhistory := canonicalHistory_of_noRepeatedNan h hle
    have hrows : ∀ row ∈ prune sameRow (visits first last signal.toWaveSignal),
        HasValue signal first last row.value := fun row => hasValue_of_mem_prune hle
    refine ⟨heq ▸ hhistory, ?_, fun hbits hvalue mode expected => ?_⟩
    · rw [signalStability, heq]
      exact stable_iff hhistory hrows
    · obtain ⟨value, hvalue⟩ := hvalue
      obtain ⟨row, hrow, -⟩ := hhistory.exists_row hvalue
      rw [signalXzVerify, heq, if_neg (not_not.2 hbits)]
      have hmatches := matches_iff hhistory hrows hbits mode expected
      generalize prune sameRow (visits first last signal.toWaveSignal) = rows at hrow hmatches
      cases rows with
      | nil => simp at hrow
      | cons front rest => exact ⟨_, rfl, hmatches⟩

/-! ### Two deltas with NaN -/

lemma realTimes_sorted : [0, 10].Pairwise (· < ·) := by simp

lemma realTimes_lt : ∀ t ∈ [0, 10], t < 2 ^ 64 := by simp

/-- The times 0 and 10. -/
def realTable : TimeTable := ⟨[0, 10], realTimes_sorted, realTimes_lt⟩

/-- The number 1, and at time 10 twice NaN. -/
def realChanges : List Change :=
  [⟨0, { kind := .real, real := "1" }⟩, ⟨1, { kind := .real, real := "nan" }⟩,
    ⟨1, { kind := .real, real := "nan" }⟩]

lemma realChanges_sorted : realChanges.Pairwise fun a b => a.timeIdx ≤ b.timeIdx := by
  simp [realChanges]

lemma realChanges_inTable : ∀ c ∈ realChanges, c.timeIdx < realTable.times.length := by
  simp [realChanges, realTable]

lemma realChanges_bits :
    ValueKind.real = .bitVector → ∀ c ∈ realChanges, c.value.kind = .bitVector := by simp

/-- The signal with these changes. -/
def realSignal : TypedSignal realTable where
  width := 64
  changes := realChanges
  sorted := realChanges_sorted
  inTable := realChanges_inTable
  encoding := .real
  bits := realChanges_bits

/-- There are two rows at time 10. -/
theorem realSignal_not_reportsHistory :
    minTime realTable ≤ 0 ∧ 0 ≤ maxTime realTable ∧ ¬ ReportsHistory realSignal 0 10 := by
  refine ⟨by decide, by decide, fun h => ?_⟩
  have hincreasing := h.history.increasing
  revert hincreasing
  decide +kernel

/-- Before time 10 the rows are the history. -/
theorem realSignal_reportsHistory : ReportsHistory realSignal 0 9 := by
  refine (reportsHistory_iff realSignal 0 9 (by decide) (by decide) (by decide)).2 ?_
  have hvisits : visits 0 9 realSignal.toWaveSignal = [⟨0, { kind := .real, real := "1" }⟩] := by
    decide +kernel
  rw [NoRepeatedNan, hvisits]
  exact List.IsChain.singleton _

end XdebugFst.Signal
