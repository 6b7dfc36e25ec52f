import Mathlib
import XdebugFst.Lists.Samples

/-!
# The first change of a list of signals

`list.first_change` compares the settled values of the signals of a list with those at the start of
a range. Each signal adds its first difference as a candidate, and the response keeps the
candidates of the earliest time.

The loop over a signal only looks at the times of its changes. This is enough, since the value
stays the same between them, but for a real signal that starts with NaN: NaN is not equal to
itself, so that such a signal differs from its start at every time, and it is reported at its
next change.
-/

namespace XdebugFst.Lists

open Lib Waveform

/-! ### The action -/

/-- A NaN as `std::ostream` writes it. -/
def isNan (real : String) : Bool := real = "nan" || real = "-nan"

/-- The two zeros. -/
def isZero (real : String) : Bool := real = "0" || real = "-0"

/-- `==` of two numbers that are given by their seventeen digits. -/
def realsEqual (lhs rhs : String) : Bool :=
  !isNan lhs && !isNan rhs && (lhs = rhs || isZero lhs && isZero rhs)

/-- `waveform_values_equal`. -/
def waveformValuesEqual (lhs rhs : WaveformValue) : Bool :=
  if lhs.kind ≠ rhs.kind then false
  else if lhs.kind = .real then realsEqual lhs.real rhs.real
  else lhs.text = rhs.text

/-- `Candidate`, which is also a row of the response. -/
structure Candidate where
  signal : String
  time : ℕ
  before : WaveformValue
  after : WaveformValue
  width : ℕ
  deriving DecidableEq, Repr, Inhabited

structure FirstChange where
  diffFound : Bool
  diffTime : Option ℕ
  changedSignals : List Candidate
  deriving DecidableEq, Repr

section Action

variable {table : TimeTable} (first last : ℕ)

/-- The comparison at one change of a signal. -/
def differenceAt (signal : WaveSignal table) (baseline : WaveformValue) (ti : ℕ) :
    Option (ℕ × WaveformValue) :=
  let time := table.timeAt ti
  if time ≤ first || time > last then none
  else
    match sampleRaw signal.changes ti with
    | none => none
    | some after => if waveformValuesEqual baseline after then none else some (time, after)

/-- The loop over the changes of one signal, up to its `break`. -/
def firstDifference (signal : WaveSignal table) (baseline : WaveformValue) :
    Option (ℕ × WaveformValue) :=
  signal.timeIndicesOf.findSome? (differenceAt first last signal baseline)

/-- What a signal adds to the candidates. -/
def candidateOf (entry : String × WaveSignal table) : Option Candidate :=
  match sampleRaw entry.2.changes (table.timeIdxOf first) with
  | none => none
  | some baseline =>
      (firstDifference first last entry.2 baseline).map fun (time, after) =>
        { signal := entry.1, time, before := baseline, after, width := entry.2.width }

/-- The variables of the loop over the signals. -/
structure FirstChangeState where
  candidates : List Candidate := []
  firstTime : ℕ
  foundAny : Bool := false

/-- The loop over the signals. -/
def firstChangeStep (s : FirstChangeState) (entry : String × WaveSignal table) :
    FirstChangeState :=
  match candidateOf first last entry with
  | none => s
  | some candidate =>
      { candidates := s.candidates ++ [candidate]
        firstTime := min s.firstTime candidate.time
        foundAny := true }

/-- `ListFirstChangeHandler::run` on the signals of the list. -/
def firstChange (signals : List (String × WaveSignal table)) : FirstChange :=
  let s := signals.foldl (firstChangeStep first last) { firstTime := last }
  { diffFound := s.foundAny
    diffTime := if s.foundAny then some s.firstTime else none
    changedSignals := s.candidates.filter fun candidate => candidate.time = s.firstTime }

/-- The signals of a list, or the error for the first one that is not in the waveform. -/
def resolveSignals (find : String → Option (WaveSignal table)) :
    List String → Except String (List (String × WaveSignal table))
  | [] => .ok []
  | name :: names => do
      match find name with
      | none => .error ("signal not found in waveform: " ++ name)
      | some signal => return (name, signal) :: (← resolveSignals find names)

/-- `ListFirstChangeHandler::run` on the names of the list. -/
def listFirstChange (find : String → Option (WaveSignal table)) (names : List String) :
    Except String FirstChange := do
  return firstChange first last (← resolveSignals find names)

end Action

/-! ### Differences -/

section Differences

variable {table : TimeTable} (first last : ℕ) (signal : WaveSignal table)

/-- The settled value at `t` differs from the one at the start of the range, by the comparison
`same`. -/
def DiffersBy (same : WaveformValue → WaveformValue → Prop) (t : ℕ) : Prop :=
  (first < t ∧ t ≤ last) ∧ ∃ baseline value, signal.rawAt first = some baseline ∧
    signal.rawAt t = some value ∧ ¬ same baseline value

/-- The difference that the action finds: where the value at the start is a NaN, the signal has to
change. -/
def Differs (t : ℕ) : Prop :=
  DiffersBy first last signal (waveformValuesEqual · ·) t ∧
    ((∃ baseline, signal.rawAt first = some baseline ∧
      waveformValuesEqual baseline baseline = false) → signal.ChangesAt t)

/-- A value that is equal to itself. -/
lemma waveformValuesEqual_self {value : WaveformValue}
    (h : value.kind = .real → isNan value.real = false) : waveformValuesEqual value value := by
  rw [waveformValuesEqual]
  split_ifs with hkind hreal
  · exact absurd rfl hkind
  · simp [realsEqual, h hreal]
  · simp

/-- For a signal that does not start with a NaN, the difference is that of the values. -/
theorem differs_iff {t : ℕ} (h : ∀ baseline, signal.rawAt first = some baseline →
      baseline.kind = .real → isNan baseline.real = false) :
    Differs first last signal t ↔ DiffersBy first last signal (waveformValuesEqual · ·) t := by
  refine and_iff_left_of_imp fun _ => ?_
  rintro ⟨baseline, hbaseline, hself⟩
  rw [waveformValuesEqual_self (h baseline hbaseline)] at hself
  cases hself

variable {first last signal}

/-- A difference at some time is one at a change up to that time. -/
lemma Differs.exists_change {t : ℕ} (h : Differs first last signal t) :
    ∃ ti ∈ signal.timeIndicesOf, table.timeAt ti ≤ t ∧
      Differs first last signal (table.timeAt ti) := by
  obtain ⟨⟨⟨hfirst, hlast⟩, baseline, value, hbaseline, hvalue, hdiffers⟩, hnan⟩ := h
  rcases WaveSignal.rawAt_of_changes signal hfirst.le with
    ⟨-, hsame⟩ | ⟨ti, hti, ⟨hfirst', hle⟩, -, hsame⟩
  · -- the value of the start: it is not equal to itself
    obtain rfl : baseline = value := by
      rw [hvalue, hbaseline] at hsame
      exact (Option.some.inj hsame).symm
    obtain ⟨ti, hti, rfl⟩ := hnan ⟨baseline, hbaseline, by simpa using hdiffers⟩
    exact ⟨ti, hti, le_rfl, ⟨⟨hfirst, hlast⟩, baseline, baseline, hbaseline, hvalue, hdiffers⟩,
      fun _ => ⟨ti, hti, rfl⟩⟩
  · exact ⟨ti, hti, hle, ⟨⟨hfirst', hle.trans hlast⟩, baseline, value, hbaseline,
      hsame ▸ hvalue, hdiffers⟩, fun _ => ⟨ti, hti, rfl⟩⟩

/-- What the loop sees at one change. -/
lemma differs_timeAt_iff {ti : ℕ} {baseline : WaveformValue} (hti : ti ∈ signal.timeIndicesOf)
    (hbaseline : signal.rawAt first = some baseline) :
    Differs first last signal (table.timeAt ti) ↔
      (first < table.timeAt ti ∧ table.timeAt ti ≤ last) ∧
        ∃ after, sampleRaw signal.changes ti = some after ∧
          waveformValuesEqual baseline after = false := by
  rw [Differs, and_iff_left fun _ => ⟨ti, hti, rfl⟩, DiffersBy, WaveSignal.rawAt_timeAt hti]
  refine and_congr_right fun _ => ?_
  constructor
  · rintro ⟨baseline', after, hbaseline', hafter, hdiffers⟩
    obtain rfl := Option.some.inj (hbaseline.symm.trans hbaseline')
    exact ⟨after, hafter, by simpa using hdiffers⟩
  · rintro ⟨after, hafter, hdiffers⟩
    exact ⟨baseline, after, hbaseline, hafter, by simpa using hdiffers⟩

/-- The signal differs at `t` and at no earlier time. -/
def FirstDiffers (differs : WaveSignal table → ℕ → Prop) (signal : WaveSignal table) (t : ℕ) :
    Prop :=
  differs signal t ∧ ∀ t', differs signal t' → t ≤ t'

lemma differenceAt_eq_some {ti : ℕ} {baseline : WaveformValue} {found : ℕ × WaveformValue} :
    differenceAt first last signal baseline ti = some found ↔
      (first < table.timeAt ti ∧ table.timeAt ti ≤ last) ∧
        (sampleRaw signal.changes ti = some found.2 ∧
          waveformValuesEqual baseline found.2 = false) ∧ found.1 = table.timeAt ti := by
  obtain ⟨time, value⟩ := found
  rw [differenceAt]
  dsimp only
  split_ifs with hrange
  · simp only [Bool.or_eq_true, decide_eq_true_eq] at hrange
    exact iff_of_false nofun fun h => by omega
  · simp only [Bool.or_eq_true, decide_eq_true_eq] at hrange
    rw [and_iff_right (by omega)]
    cases sampleRaw signal.changes ti with
    | none => exact iff_of_false nofun fun h => nomatch h.1.1
    | some after =>
        cases hequal : waveformValuesEqual baseline after with
        | true =>
            refine iff_of_false (by simp [hequal]) ?_
            rintro ⟨⟨hafter, hdiffers⟩, -⟩
            rw [← Option.some.inj hafter, hequal] at hdiffers
            cases hdiffers
        | false =>
            simp only [hequal, Bool.false_eq_true, if_false, Option.some.injEq, Prod.mk.injEq]
            constructor
            · rintro ⟨rfl, rfl⟩
              exact ⟨⟨rfl, hequal⟩, rfl⟩
            · rintro ⟨⟨rfl, -⟩, rfl⟩
              exact ⟨rfl, rfl⟩

/-- A signal whose loop finds nothing does not differ. -/
lemma firstDifference_eq_none {baseline : WaveformValue}
    (hbaseline : signal.rawAt first = some baseline)
    (h : firstDifference first last signal baseline = none) (t : ℕ) :
    ¬ Differs first last signal t := by
  intro hdiffers
  obtain ⟨ti, hti, -, hdiffers⟩ := hdiffers.exists_change
  obtain ⟨hrange, after, hafter, hne⟩ := (differs_timeAt_iff hti hbaseline).1 hdiffers
  have hsome : differenceAt first last signal baseline ti = some (table.timeAt ti, after) :=
    differenceAt_eq_some.2 ⟨hrange, ⟨hafter, hne⟩, rfl⟩
  rw [List.findSome?_eq_none_iff.1 h ti hti] at hsome
  cases hsome

/-- What the loop finds is the first difference. -/
lemma firstDifference_eq_some {baseline : WaveformValue} {found : ℕ × WaveformValue}
    (hbaseline : signal.rawAt first = some baseline)
    (h : firstDifference first last signal baseline = some found) :
    FirstDiffers (Differs first last) signal found.1 ∧ found.1 ≤ last ∧
      signal.rawAt found.1 = some found.2 := by
  obtain ⟨pre, ti, post, hlist, hti, hpre⟩ := List.findSome?_eq_some_iff.1 h
  obtain ⟨hrange, ⟨hafter, hne⟩, htime⟩ := differenceAt_eq_some.1 hti
  have hmem : ti ∈ signal.timeIndicesOf := by
    rw [hlist]
    exact List.mem_append_right _ List.mem_cons_self
  rw [htime]
  refine ⟨⟨(differs_timeAt_iff hmem hbaseline).2 ⟨hrange, _, hafter, hne⟩, fun t hdiffers => ?_⟩,
    hrange.2, (WaveSignal.rawAt_timeAt hmem).trans hafter⟩
  -- a difference at a change in front of `ti` would have been found
  obtain ⟨tj, hj, hle, hdiffers⟩ := hdiffers.exists_change
  obtain ⟨hrange', after', hafter', hne'⟩ := (differs_timeAt_iff hj hbaseline).1 hdiffers
  refine le_trans (TimeTable.timeAt_le ?_ (WaveSignal.timeIndicesOf_lt hj)) hle
  have hsorted := WaveSignal.pairwise_timeIndicesOf signal
  rw [hlist] at hsorted hj
  rcases List.mem_append.1 hj with hfront | hback
  · have hsome : differenceAt first last signal baseline tj = some (table.timeAt tj, after') :=
      differenceAt_eq_some.2 ⟨hrange', ⟨hafter', hne'⟩, rfl⟩
    rw [hpre tj hfront] at hsome
    cases hsome
  · rcases List.mem_cons.1 hback with rfl | hback
    · exact le_rfl
    · exact (List.pairwise_cons.1 (List.pairwise_append.1 hsorted).2.1).1 tj hback

end Differences

/-! ### The whole list -/

section Main

variable {table : TimeTable} {first last : ℕ}

/-- The row of a signal that first differs at `t`. -/
def rowAt (first t : ℕ) (entry : String × WaveSignal table) : Candidate where
  signal := entry.1
  time := t
  before := (entry.2.rawAt first).getD default
  after := (entry.2.rawAt t).getD default
  width := entry.2.width

lemma candidateOf_eq_some {entry : String × WaveSignal table} {c : Candidate}
    (h : candidateOf first last entry = some c) :
    FirstDiffers (Differs first last) entry.2 c.time ∧ c.time ≤ last ∧
      c = rowAt first c.time entry := by
  rw [candidateOf] at h
  split at h
  · cases h
  · rename_i baseline hbaseline
    obtain ⟨found, hfound, rfl⟩ := Option.map_eq_some_iff.1 h
    obtain ⟨hfirst, hle, hvalue⟩ := firstDifference_eq_some hbaseline hfound
    refine ⟨hfirst, hle, ?_⟩
    have hbaseline' : entry.2.rawAt first = some baseline := hbaseline
    rw [rowAt, hbaseline', hvalue]
    rfl

lemma candidateOf_eq_none {entry : String × WaveSignal table}
    (h : candidateOf first last entry = none) (t : ℕ) : ¬ Differs first last entry.2 t := by
  rw [candidateOf] at h
  split at h
  · rename_i hnone
    rintro ⟨⟨-, baseline, -, hbaseline, -⟩, -⟩
    have hnone' : entry.2.rawAt first = none := hnone
    rw [hnone'] at hbaseline
    cases hbaseline
  · rename_i baseline hbaseline
    exact firstDifference_eq_none hbaseline (Option.map_eq_none_iff.1 h) t

/-- What the loop over the signals has collected. -/
lemma foldl_firstChangeStep (signals : List (String × WaveSignal table)) (s : FirstChangeState) :
    signals.foldl (firstChangeStep first last) s =
      { candidates := s.candidates ++ signals.filterMap (candidateOf first last)
        firstTime := (signals.filterMap (candidateOf first last)).foldl
          (fun t candidate => min t candidate.time) s.firstTime
        foundAny := s.foundAny || !(signals.filterMap (candidateOf first last)).isEmpty } := by
  induction signals generalizing s with
  | nil => simp
  | cons entry signals ih =>
      rw [List.foldl_cons, ih, firstChangeStep, List.filterMap_cons]
      cases candidateOf first last entry with
      | none => rfl
      | some candidate => simp

/-- The smallest time of the candidates. -/
lemma foldl_min_spec (candidates : List Candidate) (t : ℕ) :
    (∀ c ∈ candidates, candidates.foldl (fun t c => min t c.time) t ≤ c.time) ∧
      candidates.foldl (fun t c => min t c.time) t ≤ t ∧
      (candidates.foldl (fun t c => min t c.time) t = t ∨
        ∃ c ∈ candidates, candidates.foldl (fun t c => min t c.time) t = c.time) := by
  induction candidates generalizing t with
  | nil => exact ⟨nofun, le_rfl, Or.inl rfl⟩
  | cons c candidates ih =>
      obtain ⟨hall, hle, hattained⟩ := ih (min t c.time)
      rw [List.foldl_cons]
      refine ⟨fun c' hc' => ?_, hle.trans (min_le_left _ _), ?_⟩
      · rcases List.mem_cons.1 hc' with rfl | hc'
        · exact hle.trans (min_le_right _ _)
        · exact hall c' hc'
      · rcases hattained with heq | ⟨c', hc', heq⟩
        · rw [heq]
          rcases min_choice t c.time with hmin | hmin
          · exact Or.inl hmin
          · exact Or.inr ⟨c, List.mem_cons_self, hmin⟩
        · exact Or.inr ⟨c', List.mem_cons_of_mem _ hc', heq⟩

open scoped Classical in
/-- The response names the earliest difference of the signals. -/
structure EarliestDifference (differs : WaveSignal table → ℕ → Prop) (first : ℕ)
    (signals : List (String × WaveSignal table)) (result : FirstChange) : Prop where
  found : result.diffFound = true ↔ ∃ entry ∈ signals, ∃ t, differs entry.2 t
  absent : result.diffFound = false → result.diffTime = none ∧ result.changedSignals = []
  present : result.diffFound = true → ∃ d, result.diffTime = some d ∧
    (∃ entry ∈ signals, differs entry.2 d) ∧
    (∀ entry ∈ signals, ∀ t, differs entry.2 t → d ≤ t) ∧
    result.changedSignals =
      (signals.filter fun entry => FirstDiffers differs entry.2 d).map (rowAt first d)

variable (first last) in
/-- The candidates of a time are the rows of the signals that first differ then. -/
lemma filter_candidates (signals : List (String × WaveSignal table)) (d : ℕ) :
    open scoped Classical in
    (signals.filterMap (candidateOf first last)).filter (fun c => c.time = d) =
      (signals.filter fun entry => FirstDiffers (Differs first last) entry.2 d).map
        (rowAt first d) := by
  induction signals with
  | nil => rfl
  | cons entry signals ih =>
      rw [List.filterMap_cons, List.filter_cons]
      cases hc : candidateOf first last entry with
      | none =>
          have hnot : ¬ FirstDiffers (Differs first last) entry.2 d :=
            fun h => candidateOf_eq_none hc d h.1
          rw [if_neg (by simpa using hnot)]
          exact ih
      | some c =>
          obtain ⟨hfirst, -, hrow⟩ := candidateOf_eq_some hc
          dsimp only
          rw [List.filter_cons]
          by_cases htime : c.time = d
          · rw [htime] at hfirst hrow
            rw [if_pos (by simpa using htime), if_pos (by simpa using hfirst), List.map_cons, ih,
              ← hrow]
          · have hnot : ¬ FirstDiffers (Differs first last) entry.2 d := fun h =>
              htime (le_antisymm (hfirst.2 d h.1) (h.2 c.time hfirst.1))
            rw [if_neg (by simpa using htime), if_neg (by simpa using hnot)]
            exact ih

variable (first last) in
/-- Some signal differs exactly if there is a candidate. -/
lemma filterMap_candidateOf_eq_nil (signals : List (String × WaveSignal table)) :
    signals.filterMap (candidateOf first last) = [] ↔
      ¬ ∃ entry ∈ signals, ∃ t, Differs first last entry.2 t := by
  rw [List.filterMap_eq_nil_iff]
  constructor
  · rintro hnone ⟨entry, hentry, t, hdiffers⟩
    exact candidateOf_eq_none (hnone entry hentry) t hdiffers
  · intro hnot entry hentry
    cases hc : candidateOf first last entry with
    | none => rfl
    | some c => exact absurd ⟨entry, hentry, c.time, (candidateOf_eq_some hc).1.1⟩ hnot

/-- The response in terms of the candidates. -/
lemma firstChange_eq (signals : List (String × WaveSignal table)) :
    let candidates := signals.filterMap (candidateOf first last)
    let d := candidates.foldl (fun t candidate => min t candidate.time) last
    firstChange first last signals =
      { diffFound := !candidates.isEmpty
        diffTime := if !candidates.isEmpty then some d else none
        changedSignals := candidates.filter fun candidate => candidate.time = d } := by
  intro candidates d
  rw [firstChange, foldl_firstChangeStep]
  rfl

/-- The candidates of the earliest time are the earliest differences. -/
lemma earliestDifference_candidates (signals : List (String × WaveSignal table)) :
    let candidates := signals.filterMap (candidateOf first last)
    let d := candidates.foldl (fun t candidate => min t candidate.time) last
    EarliestDifference (Differs first last) first signals
      { diffFound := !candidates.isEmpty
        diffTime := if !candidates.isEmpty then some d else none
        changedSignals := candidates.filter fun candidate => candidate.time = d } := by
  dsimp only
  have hnil := filterMap_candidateOf_eq_nil first last signals
  have hspec := foldl_min_spec (signals.filterMap (candidateOf first last)) last
  have hrows := filter_candidates first last signals
  generalize hd : (signals.filterMap (candidateOf first last)).foldl
    (fun t candidate => min t candidate.time) last = d at hspec ⊢
  cases hcandidates : signals.filterMap (candidateOf first last) with
  | nil =>
      refine ⟨?_, fun _ => ⟨rfl, rfl⟩, nofun⟩
      exact iff_of_false nofun (hnil.1 hcandidates)
  | cons c rest =>
      have hfound : ∃ entry ∈ signals, ∃ t, Differs first last entry.2 t := by
        by_contra hnone
        rw [hnil.2 hnone] at hcandidates
        cases hcandidates
      refine ⟨iff_of_true rfl hfound, nofun, fun _ => ⟨d, rfl, ?_, ?_, ?_⟩⟩
      · -- the smallest time is that of a candidate
        obtain ⟨c', hc', htime⟩ : ∃ c' ∈ signals.filterMap (candidateOf first last),
            d = c'.time := by
          rcases hspec.2.2 with hlast | hattained
          · have hc : c ∈ signals.filterMap (candidateOf first last) := by
              rw [hcandidates]
              exact List.mem_cons_self
            obtain ⟨entry, -, hentry⟩ := List.mem_filterMap.1 hc
            refine ⟨c, hc, le_antisymm (hspec.1 c hc) ?_⟩
            rw [hlast]
            exact (candidateOf_eq_some hentry).2.1
          · exact hattained
        obtain ⟨entry, hentry, hcandidate⟩ := List.mem_filterMap.1 hc'
        exact ⟨entry, hentry, htime ▸ (candidateOf_eq_some hcandidate).1.1⟩
      · intro entry hentry t hdiffers
        cases hc' : candidateOf first last entry with
        | none => exact absurd hdiffers (candidateOf_eq_none hc' t)
        | some c' =>
            exact (hspec.1 c' (List.mem_filterMap.2 ⟨entry, hentry, hc'⟩)).trans
              ((candidateOf_eq_some hc').1.2 t hdiffers)
      · rw [← hcandidates]
        exact hrows d

/-- `list.first_change` finds the earliest settled difference of its signals, where a signal that
starts with a NaN differs at its changes. -/
theorem earliestDifference_firstChange (table : TimeTable) (first last : ℕ)
    (signals : List (String × WaveSignal table)) :
    EarliestDifference (Differs first last) first signals (firstChange first last signals) := by
  rw [firstChange_eq]
  exact earliestDifference_candidates signals

/-! ### The names of a list -/

section Names

variable {table : TimeTable} {find : String → Option (WaveSignal table)}

/-- The signals that are found are those of the names, in the order of the list. -/
lemma resolveSignals_eq_ok {names : List String} {signals : List (String × WaveSignal table)}
    (h : resolveSignals find names = .ok signals) :
    signals.map Prod.fst = names ∧ ∀ entry ∈ signals, find entry.1 = some entry.2 := by
  induction names generalizing signals with
  | nil =>
      obtain rfl := Except.ok.inj h
      exact ⟨rfl, nofun⟩
  | cons name names ih =>
      rw [resolveSignals] at h
      cases hfind : find name with
      | none =>
          rw [hfind] at h
          cases h
      | some signal =>
          rw [hfind] at h
          cases hrest : resolveSignals find names with
          | error message =>
              rw [hrest] at h
              cases h
          | ok rest =>
              rw [hrest] at h
              obtain rfl := Except.ok.inj h
              obtain ⟨hnames, hfound⟩ := ih hrest
              exact ⟨congrArg (name :: ·) hnames, List.forall_mem_cons.2 ⟨hfind, hfound⟩⟩

/-- The error names the first signal that is not in the waveform. -/
lemma resolveSignals_eq_error {names : List String} {message : String}
    (h : resolveSignals find names = .error message) :
    ∃ name ∈ names, find name = none ∧ message = "signal not found in waveform: " ++ name := by
  induction names with
  | nil => cases h
  | cons name names ih =>
      rw [resolveSignals] at h
      cases hfind : find name with
      | none =>
          rw [hfind] at h
          exact ⟨name, List.mem_cons_self, hfind, (Except.error.inj h).symm⟩
      | some signal =>
          rw [hfind] at h
          cases hrest : resolveSignals find names with
          | error message' =>
              rw [hrest] at h
              obtain rfl := Except.error.inj h
              obtain ⟨missing, hmem, hmissing⟩ := ih hrest
              exact ⟨missing, List.mem_cons_of_mem name hmem, hmissing⟩
          | ok rest =>
              rw [hrest] at h
              cases h

/-- On the names of a list the action either fails at a missing signal, or finds the earliest
difference of the signals. -/
theorem listFirstChange_cases (first last : ℕ) (names : List String) :
    (∃ name ∈ names, find name = none ∧ listFirstChange first last find names =
      .error ("signal not found in waveform: " ++ name)) ∨
    ∃ signals result, signals.map Prod.fst = names ∧
      (∀ entry ∈ signals, find entry.1 = some entry.2) ∧
      listFirstChange first last find names = .ok result ∧
      EarliestDifference (Differs first last) first signals result := by
  rw [listFirstChange]
  cases hresolve : resolveSignals find names with
  | error message =>
      obtain ⟨name, hmem, hname, rfl⟩ := resolveSignals_eq_error hresolve
      exact Or.inl ⟨name, hmem, hname, rfl⟩
  | ok signals =>
      obtain ⟨hnames, hfound⟩ := resolveSignals_eq_ok hresolve
      refine Or.inr ⟨signals, _, hnames, hfound, rfl, ?_⟩
      rw [firstChange_eq]
      exact earliestDifference_candidates signals

end Names

/-! ### A signal that is not a number -/

lemma nanTimes_sorted : [0, 5].Pairwise (· < ·) := by decide

lemma nanTimes_lt : ∀ t ∈ [0, 5], t < 2 ^ 64 := by decide

/-- A real signal that starts with a NaN and is set to it again. -/
def nanTable : TimeTable := ⟨[0, 5], nanTimes_sorted, nanTimes_lt⟩

lemma nanChanges_sorted : ([⟨0, { kind := .real, real := "nan" }⟩,
    ⟨1, { kind := .real, real := "nan" }⟩] : List Change).Pairwise
      fun a b => a.timeIdx ≤ b.timeIdx := by
  decide

lemma nanChanges_inTable : ∀ c ∈ ([⟨0, { kind := .real, real := "nan" }⟩,
    ⟨1, { kind := .real, real := "nan" }⟩] : List Change), c.timeIdx < nanTable.times.length := by
  decide

def nanSignal : WaveSignal nanTable where
  width := 64
  changes := [⟨0, { kind := .real, real := "nan" }⟩, ⟨1, { kind := .real, real := "nan" }⟩]
  sorted := nanChanges_sorted
  inTable := nanChanges_inTable

lemma nanSignal_rawAt {t : ℕ} (ht : t ≤ 5) :
    nanSignal.rawAt t = some { kind := .real, real := "nan" } := by
  interval_cases t <;> decide +kernel

/-- The signal is reported at the time 5. It differs from its start already at the time 1, when the
values are compared as the action does, and nowhere when a NaN counts as the value that it is. -/
theorem nanSignal_not_earliest :
    ¬ EarliestDifference (fun signal => DiffersBy 0 5 signal (waveformValuesEqual · ·)) 0
        [("top.r", nanSignal)] (firstChange 0 5 [("top.r", nanSignal)]) ∧
      ¬ EarliestDifference (fun signal => DiffersBy 0 5 signal (· = ·)) 0
        [("top.r", nanSignal)] (firstChange 0 5 [("top.r", nanSignal)]) := by
  have hresult : (firstChange 0 5 [("top.r", nanSignal)]).diffFound = true ∧
      (firstChange 0 5 [("top.r", nanSignal)]).diffTime = some 5 := by
    decide +kernel
  constructor
  · intro h
    obtain ⟨d, hd, -, hmin, -⟩ := h.present hresult.1
    rw [hresult.2] at hd
    obtain rfl := Option.some.inj hd
    have hearly : DiffersBy 0 5 nanSignal (waveformValuesEqual · ·) 1 :=
      ⟨by decide, _, _, nanSignal_rawAt (by decide), nanSignal_rawAt (by decide), by decide⟩
    exact absurd (hmin _ List.mem_cons_self 1 hearly) (by decide)
  · intro h
    obtain ⟨entry, hentry, t, ⟨-, hle⟩, baseline, value, hbaseline, hvalue, hne⟩ :=
      h.found.1 hresult.1
    rw [List.mem_singleton.1 hentry] at hbaseline hvalue
    rw [nanSignal_rawAt (Nat.zero_le 5)] at hbaseline
    rw [nanSignal_rawAt hle] at hvalue
    exact hne ((Option.some.inj hbaseline).symm.trans (Option.some.inj hvalue))

end Main

end XdebugFst.Lists
