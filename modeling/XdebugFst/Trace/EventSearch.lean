import Mathlib
import XdebugFst.Lib.Extremes
import XdebugFst.Trace.EventTime
import XdebugFst.Waveform.Before

/-!
# The search for the times of clock events

`latest_statement_event_time` goes through the changes of each event signal from the end, and
`next_statement_event_time` from the start. Both look for an edge between the value before a change
and the value at it, and take the extreme over the signals.

An edge should be one between settled values. The value at a change is sampled by the number of the
deltas there, which is kept in 16 bits, so that what is seen may be another delta, or nothing.
`statementEventTimes_iff` says when that makes a difference.
-/

namespace XdebugFst.Trace

open Lib Lib.History Waveform

/-! ### Edges of a list of changes -/

section Edges

variable (role : String) (cs : List Change) (idx : ℕ)

/-- An edge between the settled values before a time and at it. -/
def HasSettledEdge : Prop :=
  ∃ before ∈ lastWhere (fun c => c.timeIdx < idx) cs,
    ∃ current ∈ lastWhere (fun c => c.timeIdx ≤ idx) cs,
      eventEdgeMatches role before.text current.text = true

/-- An edge between the settled value before a time and the delta at it that counts as the last
one. -/
def HasCountedEdge : Prop :=
  ∃ before ∈ lastWhere (fun c => c.timeIdx < idx) cs, ∃ current ∈ countedLast (deltasAt cs idx),
    eventEdgeMatches role before.text current.text = true

end Edges

/-- What the searches ask about a waveform. The changes of a signal may have any number of deltas at
one time. -/
structure EventWaveform where
  timeTable : List ℕ
  times_sorted : timeTable.Pairwise (· < ·)
  findSignal : String → ℕ
  /-- The signal is loaded, or `load_signals` loads it. -/
  isReadable : ℕ → Bool
  changes : ℕ → List Change
  changes_sorted : ∀ ref, (changes ref).Pairwise fun a b => a.timeIdx ≤ b.timeIdx
  changes_lt : ∀ ref, ∀ c ∈ changes ref, c.timeIdx < timeTable.length

namespace EventWaveform

variable (wf : EventWaveform)

/-! ### The searches -/

/-- `time_at`. -/
def timeAt (idx : ℕ) : ℕ := wf.timeTable.getD idx 0

/-- `time_idx_of`. -/
def timeIdxOf (t : ℕ) : ℕ := (wf.timeTable.takeWhile (· ≤ t)).length - 1

/-- `time_indices_of`. -/
def timeIndicesOf (ref : ℕ) : List ℕ := (wf.changes ref).map Change.timeIdx

/-- Both samples succeed and match the role. -/
def edgeAt (ref : ℕ) (role : String) (idx : ℕ) : Bool :=
  match sampleText (wf.changes ref) idx .before, sampleText (wf.changes ref) idx .raw with
  | some before, some current => eventEdgeMatches role before current
  | _, _ => false

/-- The record is a clock event of a signal that can be read. -/
def IsReadableEvent (names : ℤ → String) (record : DriverRecord) : Prop :=
  Session.isEventRecord record ∧
    wf.findSignal (names record.srcSignal) ≠ Backend.kInvalidSignalRef ∧
    wf.isReadable (wf.findSignal (names record.srcSignal))

instance (names : ℤ → String) (record : DriverRecord) :
    Decidable (wf.IsReadableEvent names record) :=
  inferInstanceAs (Decidable (_ ∧ _))

/-- The last event of one record up to the horizon. -/
def lastRecordEvent (names : ℤ → String) (horizon : ℕ) (record : DriverRecord) : Option ℕ :=
  let ref := wf.findSignal (names record.srcSignal)
  if wf.IsReadableEvent names record then
    ((wf.timeIndicesOf ref).reverse.find? fun idx =>
      idx ≤ wf.timeIdxOf horizon ∧ wf.timeAt idx ≤ horizon ∧
        wf.edgeAt ref record.dependencyRole idx).map wf.timeAt
  else none

/-- `latest_statement_event_time`, with the names of the signals. -/
def latestStatementEventTime (names : ℤ → String) (statement : StatementGroup) (horizon : ℕ) :
    Option ℕ :=
  (statement.records.filterMap (wf.lastRecordEvent names horizon)).max?

/-- The first event of one record after a time and up to the horizon. -/
def nextRecordEvent (names : ℤ → String) (after horizon : ℕ) (record : DriverRecord) : Option ℕ :=
  let ref := wf.findSignal (names record.srcSignal)
  if wf.IsReadableEvent names record then
    (((wf.timeIndicesOf ref).takeWhile fun idx =>
        idx ≤ wf.timeIdxOf horizon ∧ wf.timeAt idx ≤ horizon).find?
      fun idx => after < wf.timeAt idx ∧
        wf.edgeAt ref record.dependencyRole idx).map wf.timeAt
  else none

/-- `next_statement_event_time`, with the mapped names of the signals. -/
def nextStatementEventTime (names : ℤ → String) (statement : StatementGroup)
    (after horizon : ℕ) : Option ℕ :=
  (statement.records.filterMap (wf.nextRecordEvent names after horizon)).min?

/-! ### The times of events -/

/-- The times at which some event signal has an edge of the kind of its record. -/
def eventTimes (hasEdge : String → List Change → ℕ → Prop) (names : ℤ → String)
    (statement : StatementGroup) : Set ℕ :=
  {t | ∃ record ∈ statement.records, wf.IsReadableEvent names record ∧
    ∃ idx < wf.timeTable.length, wf.timeAt idx = t ∧
      hasEdge record.dependencyRole (wf.changes (wf.findSignal (names record.srcSignal))) idx}

/-- The times of edges between settled values. -/
def settledTimes (names : ℤ → String) (statement : StatementGroup) : Set ℕ :=
  wf.eventTimes HasSettledEdge names statement

/-- The times of edges to the deltas that count as the last ones. -/
def countedTimes (names : ℤ → String) (statement : StatementGroup) : Set ℕ :=
  wf.eventTimes HasCountedEdge names statement

end EventWaveform

/-! ### Sampled edges -/

section SampledEdges

variable {role : String} {cs : List Change} {idx : ℕ}

/-- At a change the samples see the delta that counts as the last one. -/
lemma sampled_iff_hasCountedEdge (hsorted : cs.Pairwise fun a b => a.timeIdx ≤ b.timeIdx)
    (hmem : idx ∈ cs.map Change.timeIdx) :
    (match sampleText cs idx .before, sampleText cs idx .raw with
      | some before, some current => eventEdgeMatches role before current
      | _, _ => false) = true ↔ HasCountedEdge role cs idx := by
  obtain ⟨pre, post, hgroup⟩ := isLastGroup_deltasAt hsorted hmem
  have hpre : pre.getLast? = lastWhere (fun c => c.timeIdx < idx) cs :=
    (hgroup.lastWhere_lt.trans (if_pos rfl)).symm
  have hraw : sampleText cs idx .raw = (countedLast (deltasAt cs idx)).map Change.text :=
    sampleText_of_group hgroup fun hp => ObservationPoint.noConfusion hp.1
  rw [sampleText_before hgroup, hraw, hpre]
  unfold HasCountedEdge
  by_cases hdvd : 2 ^ 16 ∣ (deltasAt cs idx).length
  · have hnone : countedLast (deltasAt cs idx) = none := if_pos (Nat.mod_eq_zero_of_dvd hdvd)
    rw [if_pos hdvd, hnone]
    simp
  · rw [if_neg hdvd]
    cases lastWhere (fun c => c.timeIdx < idx) cs with
    | none => simp
    | some before => cases countedLast (deltasAt cs idx) <;> simp [Change.text]

/-- Where nothing changes nothing is counted. -/
lemma HasCountedEdge.mem (h : HasCountedEdge role cs idx) : idx ∈ cs.map Change.timeIdx := by
  obtain ⟨before, -, current, hcurrent, -⟩ := h
  by_contra hmem
  have hnil : deltasAt cs idx = [] := List.filter_eq_nil_iff.2 fun c hc heq =>
    hmem (List.mem_map.2 ⟨c, hc, of_decide_eq_true heq⟩)
  rw [hnil] at hcurrent
  cases hcurrent

/-- A value has no edge to itself. -/
lemma eventEdgeMatches_self (role text : String) : eventEdgeMatches role text text = false := by
  unfold eventEdgeMatches
  split
  · next b a hb ha =>
      obtain rfl : b = a := by simpa [hb] using ha
      have hzero : Expr.isUnknownBit '0' = false := rfl
      have hone : Expr.isUnknownBit '1' = false := rfl
      generalize b.toLower = c
      by_cases h₀ : c = '0'
      · simp [h₀, hzero]
      · by_cases h₁ : c = '1'
        · simp [h₁, hone]
        · simp [h₀, h₁]
  · rfl

/-- Where nothing changes there is no edge. -/
lemma HasSettledEdge.mem (h : HasSettledEdge role cs idx) : idx ∈ cs.map Change.timeIdx := by
  obtain ⟨before, hbefore, current, hcurrent, hedge⟩ := h
  by_contra hmem
  have hsame : lastWhere (fun c => c.timeIdx ≤ idx) cs = lastWhere (fun c => c.timeIdx < idx) cs := by
    refine congrArg List.getLast? (List.filter_congr fun c hc => ?_)
    have hne : c.timeIdx ≠ idx := fun heq => hmem (List.mem_map.2 ⟨c, hc, heq⟩)
    exact decide_eq_decide.2 (by omega)
  rw [hsame] at hcurrent
  obtain rfl := Option.mem_unique hbefore hcurrent
  rw [eventEdgeMatches_self] at hedge
  cases hedge

/-- With fewer than `2 ^ 16` deltas at each time the last delta counts as the last one. -/
lemma hasCountedEdge_iff (h : IsHistory cs) :
    HasCountedEdge role cs idx ↔ HasSettledEdge role cs idx := by
  by_cases hmem : idx ∈ cs.map Change.timeIdx
  · obtain ⟨pre, post, hgroup⟩ := isLastGroup_deltasAt h.sorted hmem
    have hlength : (deltasAt cs idx).length < 2 ^ 16 := by
      rw [deltasAt, ← List.countP_eq_length_filter]
      exact h.deltas_lt idx
    rw [HasCountedEdge, HasSettledEdge, countedLast_eq_getLast? hlength, hgroup.lastWhere_le]
  · exact iff_of_false (fun hedge => hmem hedge.mem) fun hedge => hmem hedge.mem

end SampledEdges

namespace EventWaveform

variable {wf : EventWaveform} {names : ℤ → String} {statement : StatementGroup}

/-! ### What the searches find -/

lemma timeAt_strictMonoOn : StrictMonoOn wf.timeAt {idx | idx < wf.timeTable.length} := by
  intro i hi j hj hij
  have h := List.pairwise_iff_getElem.1 wf.times_sorted i j hi hj hij
  have hi' : i < wf.timeTable.length := hi
  have hj' : j < wf.timeTable.length := hj
  simpa [timeAt, hi', hj'] using h

lemma timeIndicesOf_sorted (ref : ℕ) : (wf.timeIndicesOf ref).Pairwise (· ≤ ·) :=
  List.pairwise_map.2 (wf.changes_sorted ref)

lemma timeIndicesOf_lt {ref idx : ℕ} (h : idx ∈ wf.timeIndicesOf ref) :
    idx < wf.timeTable.length := by
  obtain ⟨c, hc, rfl⟩ := List.mem_map.1 h
  exact wf.changes_lt ref c hc

lemma le_timeIdxOf {idx t : ℕ} (hidx : idx < wf.timeTable.length) (h : wf.timeAt idx ≤ t) :
    idx ≤ wf.timeIdxOf t := by
  rw [timeAt, List.getD_eq_getElem?_getD, List.getElem?_eq_getElem hidx] at h
  have hlt := (Backend.lt_length_takeWhile wf.times_sorted hidx).2 h
  unfold timeIdxOf
  omega

/-- The times of the edges that the search sees in one record. -/
def recordTimes (wf : EventWaveform) (names : ℤ → String) (record : DriverRecord) : Set ℕ :=
  {t | wf.IsReadableEvent names record ∧ ∃ idx < wf.timeTable.length, wf.timeAt idx = t ∧
    HasCountedEdge record.dependencyRole (wf.changes (wf.findSignal (names record.srcSignal))) idx}

/-- The search looks at the indices of the changes only. -/
lemma recordTimes_eq (names : ℤ → String) (record : DriverRecord)
    (hread : wf.IsReadableEvent names record) :
    wf.recordTimes names record = wf.timeAt ''
      {idx | idx ∈ wf.timeIndicesOf (wf.findSignal (names record.srcSignal)) ∧
        wf.edgeAt (wf.findSignal (names record.srcSignal)) record.dependencyRole idx = true} := by
  ext t
  constructor
  · rintro ⟨-, idx, hlt, rfl, hedge⟩
    exact ⟨idx, ⟨hedge.mem, (sampled_iff_hasCountedEdge (wf.changes_sorted _) hedge.mem).2 hedge⟩, rfl⟩
  · rintro ⟨idx, ⟨hmem, hedge⟩, rfl⟩
    exact ⟨hread, idx, timeIndicesOf_lt hmem, rfl,
      (sampled_iff_hasCountedEdge (wf.changes_sorted _) hmem).1 hedge⟩

lemma findsGreatest_lastRecordEvent (names : ℤ → String) (horizon : ℕ) (record : DriverRecord) :
    FindsGreatest {t | t ∈ wf.recordTimes names record ∧ t ≤ horizon}
      (wf.lastRecordEvent names horizon record) := by
  rw [lastRecordEvent]
  split_ifs with hread
  · rw [recordTimes_eq names record hread]
    set indices := wf.timeIndicesOf (wf.findSignal (names record.srcSignal))
    have hsorted : indices.Pairwise (· ≤ ·) := timeIndicesOf_sorted _
    have hlt : ∀ idx ∈ indices, idx < wf.timeTable.length := fun idx => timeIndicesOf_lt
    have hfind := (findsGreatest_find?_reverse hsorted
      fun idx => idx ≤ wf.timeIdxOf horizon ∧ wf.timeAt idx ≤ horizon ∧
        wf.edgeAt (wf.findSignal (names record.srcSignal)) record.dependencyRole idx).image
      (f := wf.timeAt) fun i hi j hj hij => (timeAt_strictMonoOn.monotoneOn
        (hlt i hi.1) (hlt j hj.1) hij)
    convert hfind using 1
    ext t
    constructor
    · rintro ⟨⟨idx, ⟨hmem, hedge⟩, rfl⟩, hle⟩
      exact ⟨idx, ⟨hmem, by simpa using ⟨le_timeIdxOf (hlt idx hmem) hle, hle, hedge⟩⟩,
        rfl⟩
    · rintro ⟨idx, ⟨hmem, hedge⟩, rfl⟩
      simp only [decide_eq_true_eq] at hedge
      exact ⟨⟨idx, ⟨hmem, hedge.2.2⟩, rfl⟩, hedge.2.1⟩
  · refine Set.eq_empty_iff_forall_notMem.2 ?_
    rintro t ⟨⟨hread', -⟩, -⟩
    exact hread hread'

lemma findsLeast_nextRecordEvent (names : ℤ → String) (after horizon : ℕ) (record : DriverRecord) :
    FindsLeast {t | t ∈ wf.recordTimes names record ∧ after < t ∧ t ≤ horizon}
      (wf.nextRecordEvent names after horizon record) := by
  rw [nextRecordEvent]
  split_ifs with hread
  · rw [recordTimes_eq names record hread]
    set indices := wf.timeIndicesOf (wf.findSignal (names record.srcSignal))
    have hsorted : indices.Pairwise (· ≤ ·) := timeIndicesOf_sorted _
    have hlt : ∀ idx ∈ indices, idx < wf.timeTable.length := fun idx => timeIndicesOf_lt
    -- the loop leaves at the first change behind the horizon
    have htake : ∀ idx, idx ∈ indices.takeWhile (fun idx =>
          decide (idx ≤ wf.timeIdxOf horizon ∧ wf.timeAt idx ≤ horizon)) ↔
        idx ∈ indices ∧ wf.timeAt idx ≤ horizon := by
      intro idx
      rw [mem_takeWhile_iff hsorted]
      · rw [decide_eq_true_eq]
        exact ⟨fun h => ⟨h.1, h.2.2⟩, fun h => ⟨h.1, le_timeIdxOf (hlt idx h.1) h.2, h.2⟩⟩
      · intro i hi j hj hij hle
        rw [decide_eq_true_eq] at hle ⊢
        exact ⟨hij.trans hle.1,
          (timeAt_strictMonoOn.monotoneOn (hlt i hi) (hlt j hj) hij).trans hle.2⟩
    have hfind := (findsLeast_find? (hsorted.sublist (List.takeWhile_sublist _))
      fun idx => after < wf.timeAt idx ∧
        wf.edgeAt (wf.findSignal (names record.srcSignal)) record.dependencyRole idx).image
      (f := wf.timeAt) fun i hi j hj hij => (timeAt_strictMonoOn.monotoneOn
        (hlt i ((htake i).1 hi.1).1) (hlt j ((htake j).1 hj.1).1) hij)
    convert hfind using 1
    ext t
    constructor
    · rintro ⟨⟨idx, ⟨hmem, hedge⟩, rfl⟩, hafter, hle⟩
      exact ⟨idx, ⟨(htake idx).2 ⟨hmem, hle⟩, by simpa using ⟨hafter, hedge⟩⟩, rfl⟩
    · rintro ⟨idx, ⟨hmem, hedge⟩, rfl⟩
      simp only [decide_eq_true_eq] at hedge
      obtain ⟨hmem, hle⟩ := (htake idx).1 hmem
      exact ⟨⟨idx, ⟨hmem, hedge.2⟩, rfl⟩, hedge.1, hle⟩
  · refine Set.eq_empty_iff_forall_notMem.2 ?_
    rintro t ⟨⟨hread', -⟩, -⟩
    exact hread hread'

lemma countedTimes_eq (names : ℤ → String) (statement : StatementGroup) :
    wf.countedTimes names statement =
      {t | ∃ record ∈ statement.records, t ∈ wf.recordTimes names record} := rfl

/-- The last edge that the search sees up to the horizon. -/
lemma findsGreatest_latestStatementEventTime (names : ℤ → String) (statement : StatementGroup)
    (horizon : ℕ) :
    FindsGreatest {t | t ∈ wf.countedTimes names statement ∧ t ≤ horizon}
      (wf.latestStatementEventTime names statement horizon) := by
  have hset : {t | t ∈ wf.countedTimes names statement ∧ t ≤ horizon} =
      {t | ∃ record ∈ statement.records, t ∈ {t | t ∈ wf.recordTimes names record ∧
        t ≤ horizon}} := by
    ext t
    exact ⟨fun ⟨⟨r, hr, ht⟩, hle⟩ => ⟨r, hr, ht, hle⟩, fun ⟨r, hr, ht, hle⟩ => ⟨⟨r, hr, ht⟩, hle⟩⟩
  rw [hset]
  exact findsGreatest_filterMap fun record _ => findsGreatest_lastRecordEvent names horizon record

/-- The first edge that the search sees after a time and up to the horizon. -/
lemma findsLeast_nextStatementEventTime (names : ℤ → String) (statement : StatementGroup)
    (after horizon : ℕ) :
    FindsLeast {t | t ∈ wf.countedTimes names statement ∧ after < t ∧ t ≤ horizon}
      (wf.nextStatementEventTime names statement after horizon) := by
  have hset : {t | t ∈ wf.countedTimes names statement ∧ after < t ∧ t ≤ horizon} =
      {t | ∃ record ∈ statement.records, t ∈ {t | t ∈ wf.recordTimes names record ∧
        after < t ∧ t ≤ horizon}} := by
    ext t
    exact ⟨fun ⟨⟨r, hr, ht⟩, hle⟩ => ⟨r, hr, ht, hle⟩, fun ⟨r, hr, ht, hle⟩ => ⟨⟨r, hr, ht⟩, hle⟩⟩
  rw [hset]
  exact findsLeast_filterMap fun record _ => findsLeast_nextRecordEvent names after horizon record

/-- A bounded set of times has a last one. -/
lemma exists_isGreatest (horizon : ℕ) {s : Set ℕ} (hle : ∀ t ∈ s, t ≤ horizon) (h : s.Nonempty) :
    ∃ t, IsGreatest s t :=
  ⟨sSup s, Nat.sSup_mem h ⟨horizon, hle⟩, fun _ ht => le_csSup ⟨horizon, hle⟩ ht⟩

/-- **When the searches are right.** The time found is that of the last or the first edge between
settled values exactly if the last or the first time with any edge, settled or counted, has one of
each. -/
theorem statementEventTimes_iff (wf : EventWaveform) (names : ℤ → String)
    (statement : StatementGroup) (after horizon : ℕ) :
    (FindsGreatest {t | t ∈ wf.settledTimes names statement ∧ t ≤ horizon}
        (wf.latestStatementEventTime names statement horizon) ↔
      ∀ t, IsGreatest {t | (t ∈ wf.settledTimes names statement ∨
          t ∈ wf.countedTimes names statement) ∧ t ≤ horizon} t →
        t ∈ wf.settledTimes names statement ∧ t ∈ wf.countedTimes names statement) ∧
    (FindsLeast {t | t ∈ wf.settledTimes names statement ∧ after < t ∧ t ≤ horizon}
        (wf.nextStatementEventTime names statement after horizon) ↔
      ∀ t, IsLeast {t | (t ∈ wf.settledTimes names statement ∨
          t ∈ wf.countedTimes names statement) ∧ after < t ∧ t ≤ horizon} t →
        t ∈ wf.settledTimes names statement ∧ t ∈ wf.countedTimes names statement) := by
  constructor
  · have hunion : {t | (t ∈ wf.settledTimes names statement ∨
          t ∈ wf.countedTimes names statement) ∧ t ≤ horizon} =
        {t | t ∈ wf.settledTimes names statement ∧ t ≤ horizon} ∪
          {t | t ∈ wf.countedTimes names statement ∧ t ≤ horizon} := by
      ext t
      exact or_and_right
    rw [(findsGreatest_latestStatementEventTime names statement horizon).iff_of_findsGreatest
      (exists_isGreatest horizon fun t ht => ht.elim (·.2) (·.2)), hunion]
    refine forall₂_congr fun t ht => ?_
    have hle : t ≤ horizon := ht.1.elim (·.2) (·.2)
    simp [hle]
  · have hunion : {t | (t ∈ wf.settledTimes names statement ∨
          t ∈ wf.countedTimes names statement) ∧ after < t ∧ t ≤ horizon} =
        {t | t ∈ wf.settledTimes names statement ∧ after < t ∧ t ≤ horizon} ∪
          {t | t ∈ wf.countedTimes names statement ∧ after < t ∧ t ≤ horizon} := by
      ext t
      exact or_and_right
    rw [(findsLeast_nextStatementEventTime names statement after horizon).iff_of_findsLeast
      fun h => ⟨_, Nat.sInf_mem h, fun _ ht => Nat.sInf_le ht⟩, hunion]
    refine forall₂_congr fun t ht => ?_
    have hin : after < t ∧ t ≤ horizon := ht.1.elim (·.2) (·.2)
    simp [hin]

/-- With fewer than `2 ^ 16` deltas at each time nothing is counted away. -/
lemma countedTimes_eq_settledTimes (h : ∀ ref, IsHistory (wf.changes ref)) :
    wf.countedTimes names statement = wf.settledTimes names statement := by
  ext t
  simp only [countedTimes, settledTimes, eventTimes, hasCountedEdge_iff (h _)]

/-- Without edges that count the searches find nothing. -/
lemma latestStatementEventTime_eq_none
    (h : ∀ role ref idx, ¬ HasCountedEdge role (wf.changes ref) idx) (horizon : ℕ) :
    wf.latestStatementEventTime names statement horizon = none := by
  have hfinds := wf.findsGreatest_latestStatementEventTime names statement horizon
  cases hresult : wf.latestStatementEventTime names statement horizon with
  | none => rfl
  | some t =>
      rw [hresult] at hfinds
      obtain ⟨record, -, -, idx, -, -, hedge⟩ := hfinds.1.1
      exact absurd hedge (h _ _ _)

end EventWaveform

/-! ### The searches of a session -/

namespace Session

variable (session : Session)

/-- What the searches of a session ask about its waveform. -/
def eventWaveform : EventWaveform where
  timeTable := session.waveform.timeTable
  times_sorted := session.waveform.times_sorted
  findSignal := session.waveform.findSignal
  isReadable ref := session.waveform.loadCount [ref] = 1
  changes := session.waveform.changesOf
  changes_sorted ref := Backend.changesOf_sorted ref
  changes_lt _ _ hc := Backend.changesOf_lt hc

lemma edgeAt_eq (ref : ℕ) (role : String) (idx : ℕ) :
    session.edgeAt ref role idx = session.eventWaveform.edgeAt ref role idx := by
  have hsample : ∀ point, sampleText (session.eventWaveform.changes ref) idx point =
      (session.waveform.sampledValueAt ref idx point).map fun sample => sample.value.text :=
    fun point => rfl
  rw [Session.edgeAt, EventWaveform.edgeAt, hsample, hsample]
  cases session.waveform.sampledValueAt ref idx .before with
  | none => rfl
  | some before => cases session.waveform.sampledValueAt ref idx .raw <;> rfl

lemma isReadableEvent_iff (names : ℤ → String) (record : DriverRecord) :
    session.eventWaveform.IsReadableEvent names record ↔
      isEventRecord record ∧
        session.canLoad (session.waveform.findSignal (names record.srcSignal)) := by
  simp [EventWaveform.IsReadableEvent, canLoad, eventWaveform]

lemma latestStatementEventTime_eq (statement : StatementGroup) (horizon : ℕ) :
    session.latestStatementEventTime statement horizon =
      session.eventWaveform.latestStatementEventTime session.design.signalName statement
        horizon := by
  refine congrArg List.max? (List.filterMap_congr fun record _ => ?_)
  rw [lastRecordEvent, EventWaveform.lastRecordEvent]
  simp only [isReadableEvent_iff, edgeAt_eq]
  rfl

lemma nextStatementEventTime_eq (statement : StatementGroup) (requestedRoot : String)
    (after horizon : ℕ) :
    session.nextStatementEventTime statement requestedRoot after horizon =
      session.eventWaveform.nextStatementEventTime
        (fun signal =>
          session.duplicateTopWaveformName (session.design.signalName signal) requestedRoot)
        statement after horizon := by
  refine congrArg List.min? (List.filterMap_congr fun record _ => ?_)
  rw [nextRecordEvent, EventWaveform.nextRecordEvent]
  simp only [isReadableEvent_iff, edgeAt_eq]
  rfl

section FewDeltas

variable (hfew : ∀ ref, IsHistory (session.waveform.changesOf ref))
include hfew

/-- In a session whose waveform has fewer than `2 ^ 16` deltas at each time, both searches find the
edges between settled values. -/
lemma findsGreatest_latestStatementEventTime (statement : StatementGroup) (horizon : ℕ) :
    FindsGreatest {t | t ∈ session.eventWaveform.settledTimes session.design.signalName statement ∧
      t ≤ horizon} (session.latestStatementEventTime statement horizon) := by
  rw [latestStatementEventTime_eq, ← EventWaveform.countedTimes_eq_settledTimes hfew]
  exact EventWaveform.findsGreatest_latestStatementEventTime _ _ _

lemma findsLeast_nextStatementEventTime (statement : StatementGroup) (requestedRoot : String)
    (after horizon : ℕ) :
    FindsLeast {t | t ∈ session.eventWaveform.settledTimes
        (fun signal =>
          session.duplicateTopWaveformName (session.design.signalName signal) requestedRoot)
        statement ∧ after < t ∧ t ≤ horizon}
      (session.nextStatementEventTime statement requestedRoot after horizon) := by
  rw [nextStatementEventTime_eq, ← EventWaveform.countedTimes_eq_settledTimes hfew]
  exact EventWaveform.findsLeast_nextStatementEventTime _ _ _ _

end FewDeltas

end Session

/-! ### A glitch of a clock -/

/-- The clock has `2 ^ 16` deltas at one time, between `x` and `0`, and the last one is `1`. -/
def glitchDeltas : List Change :=
  (List.range (2 ^ 16 - 1)).map (fun i =>
    { timeIdx := 1, value := { text := if i % 2 = 0 then "x" else "0" } }) ++
  [{ timeIdx := 1, value := { text := "1" } }]

/-- Before the glitch the clock is `0`. -/
def glitchClock : List Change := { timeIdx := 0, value := { text := "0" } } :: glitchDeltas

lemma glitchDeltas_timeIdx {c : Change} (h : c ∈ glitchDeltas) : c.timeIdx = 1 := by
  rcases List.mem_append.1 h with hin | hin
  · obtain ⟨i, -, rfl⟩ := List.mem_map.1 hin
    rfl
  · rw [List.mem_singleton.1 hin]

lemma glitchDeltas_length : glitchDeltas.length = 2 ^ 16 := by
  rw [glitchDeltas, List.length_append, List.length_map, List.length_range, List.length_singleton]
  rfl

lemma glitchClock_sorted (ref : ℕ) :
    (if ref = 1 then glitchClock else []).Pairwise fun a b => a.timeIdx ≤ b.timeIdx := by
  split_ifs
  · refine List.pairwise_cons.2 ⟨fun c _ => Nat.zero_le _, ?_⟩
    exact List.pairwise_of_forall_mem_list fun a ha b hb =>
      (glitchDeltas_timeIdx ha).trans_le (glitchDeltas_timeIdx hb).ge
  · exact List.Pairwise.nil

lemma glitchClock_lt (ref : ℕ) : ∀ c ∈ if ref = 1 then glitchClock else [], c.timeIdx < 2 := by
  intro c hc
  split_ifs at hc
  · rcases List.mem_cons.1 hc with rfl | hin
    · exact Nat.zero_lt_two
    · rw [glitchDeltas_timeIdx hin]
      exact Nat.one_lt_two
  · cases hc

lemma glitchTimes_sorted : [0, 10].Pairwise (· < ·) := by decide

/-- A waveform with that clock. -/
def glitchWaveform : EventWaveform where
  timeTable := [0, 10]
  times_sorted := glitchTimes_sorted
  findSignal name := if name = "clk" then 1 else 0
  isReadable _ := true
  changes ref := if ref = 1 then glitchClock else []
  changes_sorted := glitchClock_sorted
  changes_lt := glitchClock_lt

/-- A statement at the positive edges of the clock. -/
def glitchStatement : StatementGroup where
  records := [{ srcSignal := 0, dependencyRole := "event_posedge" }]

lemma deltasAt_glitchClock : deltasAt glitchClock 1 = glitchDeltas := by
  rw [deltasAt, glitchClock, List.filter_cons_of_neg (by simp)]
  exact List.filter_eq_self.2 fun c hc => decide_eq_true (glitchDeltas_timeIdx hc)

/-- The value settles from `0` to `1`. -/
lemma glitchClock_hasSettledEdge : HasSettledEdge "event_posedge" glitchClock 1 := by
  have hbefore : lastWhere (fun c => c.timeIdx < 1) glitchClock =
      some { timeIdx := 0, value := { text := "0" } } := by
    rw [lastWhere, glitchClock, List.filter_cons_of_pos (by simp), List.filter_eq_nil_iff.2]
    · rfl
    · intro c hc
      simp [glitchDeltas_timeIdx hc]
  have hcurrent : lastWhere (fun c => c.timeIdx ≤ 1) glitchClock =
      some { timeIdx := 1, value := { text := "1" } } := by
    rw [lastWhere, List.filter_eq_self.2, glitchClock, glitchDeltas, ← List.cons_append,
      List.getLast?_concat]
    intro c hc
    have hlt := glitchClock_lt 1 c hc
    simpa using Nat.le_of_lt_succ hlt
  exact ⟨_, hbefore, _, hcurrent, by decide⟩

/-- The deltas are counted to nothing. -/
lemma glitchClock_not_hasCountedEdge (role : String) (idx : ℕ) :
    ¬ HasCountedEdge role glitchClock idx := by
  intro hedge
  have hmem := hedge.mem
  obtain ⟨before, hbefore, current, hcurrent, -⟩ := hedge
  rw [glitchClock, List.map_cons, List.mem_cons] at hmem
  rcases hmem with rfl | hin
  · have hin := List.mem_filter.1 (List.mem_of_getLast? hbefore)
    simp at hin
  · obtain ⟨c, hc, rfl⟩ := List.mem_map.1 hin
    rw [glitchDeltas_timeIdx hc, deltasAt_glitchClock, countedLast, glitchDeltas_length] at hcurrent
    cases hcurrent

/-- The settled edge is at the time `10`, and no edge counts. -/
lemma exists_glitch : ∃ wf : EventWaveform,
    10 ∈ wf.settledTimes (fun _ => "clk") glitchStatement ∧
      ∀ role ref idx, ¬ HasCountedEdge role (wf.changes ref) idx := by
  have hread : glitchWaveform.IsReadableEvent (fun _ => "clk")
      { srcSignal := 0, dependencyRole := "event_posedge" } := by
    refine ⟨by decide, ?_, rfl⟩
    decide
  refine ⟨glitchWaveform, ⟨_, List.mem_singleton_self _, hread, 1, Nat.one_lt_two, rfl,
    glitchClock_hasSettledEdge⟩, ?_⟩
  intro role ref idx
  change ¬ HasCountedEdge role (if ref = 1 then glitchClock else []) idx
  split_ifs
  · exact glitchClock_not_hasCountedEdge role idx
  · exact fun hedge => by cases hedge.mem

/-- The edge at the time of the glitch is missed. -/
theorem glitchClock_missed :
    ¬ ∀ (wf : EventWaveform) (names : ℤ → String) (statement : StatementGroup)
      (after horizon : ℕ),
      FindsGreatest {t | t ∈ wf.settledTimes names statement ∧ t ≤ horizon}
          (wf.latestStatementEventTime names statement horizon) ∧
        FindsLeast {t | t ∈ wf.settledTimes names statement ∧ after < t ∧ t ≤ horizon}
          (wf.nextStatementEventTime names statement after horizon) := by
  intro h
  obtain ⟨wf, hsettled, hnone⟩ := exists_glitch
  have hfinds := (h wf (fun _ => "clk") glitchStatement 0 10).1
  rw [EventWaveform.latestStatementEventTime_eq_none hnone, FindsGreatest] at hfinds
  exact (Set.eq_empty_iff_forall_notMem.1 hfinds) 10 ⟨hsettled, le_rfl⟩

end XdebugFst.Trace
