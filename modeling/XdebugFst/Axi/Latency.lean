import Mathlib
import XdebugFst.Lib.Ranks
import XdebugFst.Lib.Tally
import XdebugFst.Axi.Analysis

/-!
# Latencies

`axi.analysis` with `latency` goes once through the transactions, sorts the latencies of the
complete ones and reports their least and greatest, their mean and three percentiles, and the
slowest transaction. `axi.latency_outlier` sorts the transactions themselves, the slowest ones
first.

`analysisLatency_exact` says that a percentile is the least latency that so many percent of the
transactions do not exceed. `latencyOutlier_exact` says which transactions are outliers, and that
the slowest transaction of the first action is the first outlier of the second.
-/

namespace XdebugFst.Axi

open Lib

/-! ### The statistics -/

/-- `latency`. -/
def latency (txn : AxiTransaction) : ℕ :=
  if txn.startTime ≤ txn.endTime then txn.endTime - txn.startTime else 0

/-- `axi_write_phase_order`. -/
def axiWritePhaseOrder (txn : AxiTransaction) : String :=
  match txn.isWrite, txn.dataEvents with
  | true, first :: _ =>
    if first.time < txn.startTime then "w_before_aw"
    else if first.time = txn.startTime then "same_cycle"
    else "aw_before_w"
  | _, _ => "unknown"

/-- What `stats` reports, before the times are rendered. -/
structure LatencyStats where
  samples : ℕ
  min : ℕ
  max : ℕ
  avg : ℕ
  p50 : ℕ
  p95 : ℕ
  p99 : ℕ
  deriving DecidableEq, Repr

/-- `pct`. -/
def percentile (values : List ℕ) (numerator : ℕ) : ℕ :=
  if values.isEmpty then 0
  else values.getD (min (values.length - 1) ((values.length * numerator + 99) / 100 - 1)) 0

/-- `stats`. -/
def latencyStats (unsorted : List ℕ) : LatencyStats :=
  let values := unsorted.insertionSort (· ≤ ·)
  { samples := values.length
    min := values.head?.getD 0
    max := values.getLast?.getD 0
    avg := if values.isEmpty then 0 else values.sum % 2 ^ 64 / values.length
    p50 := percentile values 50
    p95 := percentile values 95
    p99 := percentile values 99 }

/-- The variables of the loop over the transactions. -/
structure LatencyState where
  readLat : List ℕ := []
  writeLat : List ℕ := []
  writePhaseCounts : OrderedMap String ℕ :=
    [("aw_before_w", 0), ("same_cycle", 0), ("w_before_aw", 0), ("unknown", 0)].foldl
      (fun m item => m.insert item.1 item.2) .empty
  incompleteRead : ℕ := 0
  incompleteWrite : ℕ := 0
  /-- `slowest` and `slowest_latency`. -/
  slowest : Option (AxiTransaction × ℕ) := none

/-- The slower one of the slowest so far and the next. -/
def slower (slowest : Option (AxiTransaction × ℕ)) (txn : AxiTransaction) :
    Option (AxiTransaction × ℕ) :=
  match slowest with
  | none => some (txn, latency txn)
  | some (known, time) =>
    if time < latency txn then some (txn, latency txn) else some (known, time)

/-- The body of the loop. -/
def latencyStep (direction : String) (st : LatencyState) (txn : AxiTransaction) : LatencyState :=
  if !selectsDirection direction txn then st
  else if !txn.complete then
    if txn.isWrite then { st with incompleteWrite := st.incompleteWrite + 1 }
    else { st with incompleteRead := st.incompleteRead + 1 }
  else
    let st := if txn.isWrite then { st with
        writeLat := st.writeLat ++ [latency txn]
        writePhaseCounts := countKey st.writePhaseCounts (axiWritePhaseOrder txn) }
      else { st with readLat := st.readLat ++ [latency txn] }
    { st with slowest := slower st.slowest txn }

/-- What `axi.analysis` reports for `latency`. -/
structure LatencyReport where
  incompleteReadCount : ℕ
  incompleteWriteCount : ℕ
  read : LatencyStats
  write : LatencyStats
  total : LatencyStats
  writePhaseOrderCounts : OrderedMap String ℕ
  slowest : Option AxiTransaction

/-- `axi.analysis` with `latency`, for the transactions of the scan. -/
def analysisLatency (direction : String) (transactions : List AxiTransaction) : LatencyReport :=
  let st := transactions.foldl (latencyStep direction) {}
  { incompleteReadCount := st.incompleteRead
    incompleteWriteCount := st.incompleteWrite
    read := latencyStats st.readLat
    write := latencyStats st.writeLat
    total := latencyStats (st.readLat ++ st.writeLat)
    writePhaseOrderCounts := st.writePhaseCounts
    slowest := st.slowest.map Prod.fst }

/-! ### Outliers -/

/-- `method`, with what an `unsigned int` holds of `top_n`. -/
inductive OutlierMethod
  | topN (n : ℕ)
  | threshold (ticks : ℕ)
  deriving DecidableEq, Repr

/-- The order of the sort: the slower one first, then the earlier one. -/
def RankLe (left right : AxiTransaction × ℕ) : Prop :=
  right.2 < left.2 ∨ left.2 = right.2 ∧ left.1.startTime ≤ right.1.startTime

instance : DecidableRel RankLe := fun _ _ => inferInstanceAs (Decidable (_ ∨ _))

/-- The transactions with a latency, the slowest ones first. -/
def rankedLatencies (direction : String) (transactions : List AxiTransaction) :
    List (AxiTransaction × ℕ) :=
  ((transactions.filter fun txn => txn.complete && selectsDirection direction txn).map fun txn =>
    (txn, if txn.startTime < txn.endTime then txn.endTime - txn.startTime else 0)).insertionSort
      RankLe

/-- The loop over the ranked transactions, with `selected` and `outliers`. -/
def outlierLoop (method : OutlierMethod) (lineLimit : ℕ) :
    List (AxiTransaction × ℕ) → ℕ → List AxiTransaction → ℕ × List AxiTransaction
  | [], selected, outliers => (selected, outliers)
  | item :: rest, selected, outliers =>
    let kept := if outliers.length < lineLimit then outliers ++ [item.1] else outliers
    match method with
    | .threshold ticks =>
      if item.2 ≤ ticks then outlierLoop method lineLimit rest selected outliers
      else outlierLoop method lineLimit rest (selected + 1) kept
    | .topN n =>
      if n ≤ selected then (selected, outliers)
      else outlierLoop method lineLimit rest (selected + 1) kept

/-- What `axi.latency_outlier` reports. -/
structure OutlierReport where
  candidateCount : ℕ
  totalCount : ℕ
  outliers : List AxiTransaction
  responseTruncated : Bool

/-- `axi.latency_outlier`, for the transactions of the scan. -/
def latencyOutlier (direction : String) (method : OutlierMethod) (lineLimit : ℕ)
    (transactions : List AxiTransaction) : OutlierReport :=
  let latencies := rankedLatencies direction transactions
  let (selected, outliers) := outlierLoop method lineLimit latencies 0 []
  { candidateCount := latencies.length
    totalCount := selected
    outliers := outliers
    responseTruncated := outliers.length < selected }

/-! ### The loop over the transactions -/

/-- The complete transactions of the direction that is asked for. -/
def candidates (direction : String) (transactions : List AxiTransaction) : List AxiTransaction :=
  transactions.filter fun txn => txn.complete && selectsDirection direction txn

lemma candidates_cons (direction : String) (txn : AxiTransaction)
    (transactions : List AxiTransaction) : candidates direction (txn :: transactions) =
      candidates direction [txn] ++ candidates direction transactions := by
  rw [candidates, candidates, candidates, ← List.filter_append]
  rfl

lemma latencyStep_lists (direction : String) (txn : AxiTransaction) (st : LatencyState) :
    (latencyStep direction st txn).readLat = st.readLat ++
      ((candidates direction [txn]).filter fun t => !t.isWrite).map latency ∧
    (latencyStep direction st txn).writeLat = st.writeLat ++
      ((candidates direction [txn]).filter fun t => t.isWrite).map latency ∧
    (latencyStep direction st txn).slowest =
      (candidates direction [txn]).foldl slower st.slowest := by
  cases hselects : selectsDirection direction txn <;> cases hcomplete : txn.complete <;>
    cases hwrite : txn.isWrite <;>
      simp [latencyStep, candidates, hselects, hcomplete, hwrite]

lemma foldl_latencyStep_lists (direction : String) (transactions : List AxiTransaction)
    (st : LatencyState) :
    (transactions.foldl (latencyStep direction) st).readLat = st.readLat ++
      ((candidates direction transactions).filter fun t => !t.isWrite).map latency ∧
    (transactions.foldl (latencyStep direction) st).writeLat = st.writeLat ++
      ((candidates direction transactions).filter fun t => t.isWrite).map latency ∧
    (transactions.foldl (latencyStep direction) st).slowest =
      (candidates direction transactions).foldl slower st.slowest := by
  induction transactions generalizing st with
  | nil => simp [candidates]
  | cons txn transactions ih =>
    obtain ⟨hread, hwrite, hslowest⟩ := latencyStep_lists direction txn st
    obtain ⟨hread', hwrite', hslowest'⟩ := ih (latencyStep direction st txn)
    rw [List.foldl_cons, hread', hwrite', hslowest', hread, hwrite, hslowest,
      candidates_cons direction txn transactions]
    simp

lemma countSelected_cons (direction : String) (isWrite complete : Bool) (txn : AxiTransaction)
    (transactions : List AxiTransaction) :
    countSelected direction isWrite complete (txn :: transactions) =
      countSelected direction isWrite complete [txn] +
        countSelected direction isWrite complete transactions := by
  rw [countSelected, countSelected, countSelected, ← List.countP_append]
  rfl

lemma latencyStep_incomplete (direction : String) (txn : AxiTransaction) (st : LatencyState) :
    (latencyStep direction st txn).incompleteRead =
      st.incompleteRead + countSelected direction false false [txn] ∧
    (latencyStep direction st txn).incompleteWrite =
      st.incompleteWrite + countSelected direction true false [txn] := by
  cases hselects : selectsDirection direction txn <;> cases hcomplete : txn.complete <;>
    cases hwrite : txn.isWrite <;>
      simp [latencyStep, countSelected, hselects, hcomplete, hwrite]

/-- How many transactions are incomplete. -/
lemma foldl_latencyStep_incomplete (direction : String) (transactions : List AxiTransaction)
    (st : LatencyState) :
    (transactions.foldl (latencyStep direction) st).incompleteRead =
      st.incompleteRead + countSelected direction false false transactions ∧
    (transactions.foldl (latencyStep direction) st).incompleteWrite =
      st.incompleteWrite + countSelected direction true false transactions := by
  induction transactions generalizing st with
  | nil => simp [countSelected]
  | cons txn transactions ih =>
    obtain ⟨hread, hwrite⟩ := latencyStep_incomplete direction txn st
    obtain ⟨hread', hwrite'⟩ := ih (latencyStep direction st txn)
    rw [List.foldl_cons, hread', hwrite', hread, hwrite,
      countSelected_cons direction false false txn transactions,
      countSelected_cons direction true false txn transactions]
    exact ⟨Nat.add_assoc _ _ _, Nat.add_assoc _ _ _⟩

lemma slower_map (found : Option AxiTransaction) (txn : AxiTransaction) :
    slower (found.map fun t => (t, latency t)) txn =
      (greater latency found txn).map fun t => (t, latency t) := by
  cases found with
  | none => rfl
  | some t =>
    simp only [slower, greater, Option.map_some]
    split_ifs <;> rfl

lemma foldl_slower (transactions : List AxiTransaction) (found : Option AxiTransaction) :
    transactions.foldl slower (found.map fun t => (t, latency t)) =
      (transactions.foldl (greater latency) found).map fun t => (t, latency t) := by
  induction transactions generalizing found with
  | nil => rfl
  | cons txn transactions ih => rw [List.foldl_cons, List.foldl_cons, slower_map, ih]

/-- What a report says about the latencies of some transactions. -/
structure LatencyStats.Describes (s : LatencyStats) (latencies : List ℕ) : Prop where
  samples : s.samples = latencies.length
  avg : s.avg = latencies.sum % 2 ^ 64 / latencies.length
  min : latencies ≠ [] → IsLeast {v | v ∈ latencies} s.min
  max : latencies ≠ [] → IsGreatest {v | v ∈ latencies} s.max
  percentile : latencies ≠ [] → ∀ q ∈ [(50, s.p50), (95, s.p95), (99, s.p99)],
    IsLeast {v | q.1 * latencies.length ≤ 100 * latencies.countP (· ≤ v)} q.2

lemma describes_of_perm {s : LatencyStats} {l l' : List ℕ} (h : l.Perm l') (hl : s.Describes l) :
    s.Describes l' := by
  have hempty : l' ≠ [] → l ≠ [] := fun hne hnil => hne (by rw [hnil] at h; exact h.symm.eq_nil)
  refine ⟨by rw [hl.samples, h.length_eq], by rw [hl.avg, h.sum_eq, h.length_eq], fun hne => ?_,
    fun hne => ?_, fun hne q hq => ?_⟩
  · simpa only [h.mem_iff] using hl.min (hempty hne)
  · simpa only [h.mem_iff] using hl.max (hempty hne)
  · simpa only [h.length_eq, h.countP_eq] using hl.percentile (hempty hne) q hq

lemma isLeast_percentile {l : List ℕ} (h : l.Pairwise (· ≤ ·)) (hne : l ≠ []) {p : ℕ} (hp : 0 < p)
    (hp' : p ≤ 100) :
    IsLeast {v | p * l.length ≤ 100 * l.countP (· ≤ v)} (percentile l p) := by
  rw [percentile, if_neg (by simpa using hne)]
  exact isLeast_getD_nearestRank h hne hp hp'

lemma describes_latencyStats (l : List ℕ) : (latencyStats l).Describes l := by
  have hsorted : (l.insertionSort (· ≤ ·)).Pairwise (· ≤ ·) := List.pairwise_insertionSort _ _
  refine describes_of_perm (List.perm_insertionSort (· ≤ ·) l) ?_
  rw [latencyStats]
  generalize l.insertionSort (· ≤ ·) = m at hsorted
  refine ⟨rfl, ?_, fun hne => ?_, fun hne => ?_, fun hne q hq => ?_⟩
  · cases m <;> simp
  · obtain ⟨v, m, rfl⟩ := List.exists_cons_of_ne_nil hne
    refine ⟨by simp, fun w hw => ?_⟩
    rcases List.mem_cons.1 hw with rfl | hw
    · exact le_rfl
    · exact (List.pairwise_cons.1 hsorted).1 w hw
  · obtain ⟨m, v, rfl⟩ := (List.eq_nil_or_concat' m).resolve_left hne
    refine ⟨by simp, fun w hw => ?_⟩
    simp only [List.getLast?_concat, Option.getD_some]
    rcases List.mem_append.1 hw with hw | hw
    · exact (List.pairwise_append.1 hsorted).2.2 w hw v (by simp)
    · exact (List.mem_singleton.1 hw).le
  · simp only [List.mem_cons, List.not_mem_nil, or_false] at hq
    rcases hq with rfl | rfl | rfl
    all_goals exact isLeast_percentile hsorted hne (by norm_num) (by norm_num)

lemma find?_latencyStep (direction : String) (txn : AxiTransaction) (st : LatencyState)
    (order : String) : ((latencyStep direction st txn).writePhaseCounts.find? order).getD 0 =
      (st.writePhaseCounts.find? order).getD 0 + (candidates direction [txn]).countP
        fun t => t.isWrite && axiWritePhaseOrder t = order := by
  cases hselects : selectsDirection direction txn <;> cases hcomplete : txn.complete <;>
    cases hwrite : txn.isWrite <;>
      simp [latencyStep, candidates, hselects, hcomplete, hwrite, List.countP_cons, eq_comm]

/-- How often a phase order is counted. -/
lemma find?_writePhaseCounts (direction : String) (transactions : List AxiTransaction)
    (st : LatencyState) (order : String) :
    ((transactions.foldl (latencyStep direction) st).writePhaseCounts.find? order).getD 0 =
      (st.writePhaseCounts.find? order).getD 0 + (candidates direction transactions).countP
        fun txn => txn.isWrite && axiWritePhaseOrder txn = order := by
  induction transactions generalizing st with
  | nil => simp [candidates]
  | cons txn transactions ih =>
    rw [List.foldl_cons, ih, find?_latencyStep, candidates_cons direction txn transactions,
      List.countP_append, add_assoc]

lemma getD_find?_insert_zero (m : OrderedMap String ℕ) (k k' : String) :
    ((m.insert k 0).find? k').getD 0 = if k' = k then 0 else (m.find? k').getD 0 := by
  by_cases h : k' = k
  · subst h
    simp
  · simp [OrderedMap.find?_insert_of_ne m h, h]

/-- All counters are zero at first. -/
lemma find?_initial (order : String) :
    ((({} : LatencyState).writePhaseCounts).find? order).getD 0 = 0 := by
  show (((((OrderedMap.empty.insert "aw_before_w" 0).insert "same_cycle" 0).insert "w_before_aw"
    0).insert "unknown" 0).find? order).getD 0 = 0
  simp only [getD_find?_insert_zero, OrderedMap.find?_empty, Option.getD_none, ite_self]

lemma slowest_eq_foldl (direction : String) (transactions : List AxiTransaction) :
    (analysisLatency direction transactions).slowest =
      (candidates direction transactions).foldl (greater latency) none := by
  have hfold := foldl_slower (candidates direction transactions) none
  rw [Option.map_none] at hfold
  show ((transactions.foldl (latencyStep direction) {}).slowest).map Prod.fst = _
  rw [(foldl_latencyStep_lists direction transactions {}).2.2]
  show ((candidates direction transactions).foldl slower none).map Prod.fst = _
  rw [hfold, Option.map_map]
  exact Option.map_id'

/-- The slowest transaction is the first one with the greatest latency. -/
lemma exists_slowest {direction : String} {transactions others : List AxiTransaction}
    {first : AxiTransaction} (h : candidates direction transactions = first :: others) :
    ∃ txn, (analysisLatency direction transactions).slowest = some txn ∧
      FirstGreatest latency (first :: others) txn := by
  rw [slowest_eq_foldl, h]
  exact exists_foldl_greater first others

lemma length_candidates (direction : String) (isWrite : Bool) (transactions : List AxiTransaction) :
    ((candidates direction transactions).filter fun txn => txn.isWrite = isWrite).length =
      countSelected direction isWrite true transactions := by
  rw [candidates, List.filter_filter, countSelected, List.countP_eq_length_filter]
  congr 1
  refine List.filter_congr fun txn _ => ?_
  cases selectsDirection direction txn <;> cases txn.complete <;> simp

/-- The report describes the latencies of the complete transactions, with percentiles that are the
least latencies that so many percent of them do not exceed; its counts are those of the summary,
every complete write has one phase order, and the slowest transaction is the first one with the
greatest latency. -/
theorem analysisLatency_exact (direction : String) (transactions : List AxiTransaction) :
    (analysisLatency direction transactions).read.Describes
      (((candidates direction transactions).filter fun txn => !txn.isWrite).map latency) ∧
    (analysisLatency direction transactions).write.Describes
      (((candidates direction transactions).filter fun txn => txn.isWrite).map latency) ∧
    (analysisLatency direction transactions).total.Describes
      ((candidates direction transactions).map latency) ∧
    (analysisLatency direction transactions).read.samples =
      countSelected direction false true transactions ∧
    (analysisLatency direction transactions).write.samples =
      countSelected direction true true transactions ∧
    (analysisLatency direction transactions).incompleteReadCount =
      countSelected direction false false transactions ∧
    (analysisLatency direction transactions).incompleteWriteCount =
      countSelected direction true false transactions ∧
    (∀ order, ((analysisLatency direction transactions).writePhaseOrderCounts.find? order).getD 0 =
      (candidates direction transactions).countP fun txn =>
        txn.isWrite && axiWritePhaseOrder txn = order) ∧
    match (analysisLatency direction transactions).slowest with
    | none => candidates direction transactions = []
    | some txn => FirstGreatest latency (candidates direction transactions) txn := by
  obtain ⟨hread, hwrite, -⟩ := foldl_latencyStep_lists direction transactions {}
  have hreads : (analysisLatency direction transactions).read.Describes
      (((candidates direction transactions).filter fun txn => !txn.isWrite).map latency) := by
    rw [analysisLatency, hread]
    exact describes_latencyStats _
  have hwrites : (analysisLatency direction transactions).write.Describes
      (((candidates direction transactions).filter fun txn => txn.isWrite).map latency) := by
    rw [analysisLatency, hwrite]
    exact describes_latencyStats _
  refine ⟨hreads, hwrites, ?_, ?_, ?_, ?_, ?_, fun order => ?_, ?_⟩
  · rw [analysisLatency, hread, hwrite]
    refine describes_of_perm ?_ (describes_latencyStats _)
    rw [List.nil_append, List.nil_append, ← List.map_append]
    refine List.Perm.map _ (List.perm_append_comm.trans ?_)
    exact List.filter_append_perm (fun txn : AxiTransaction => txn.isWrite) _
  · rw [hreads.samples, List.length_map, ← length_candidates]
    simp
  · rw [hwrites.samples, List.length_map, ← length_candidates]
    simp
  · rw [analysisLatency, (foldl_latencyStep_incomplete direction transactions {}).1, zero_add]
  · rw [analysisLatency, (foldl_latencyStep_incomplete direction transactions {}).2, zero_add]
  · rw [analysisLatency, find?_writePhaseCounts, find?_initial, zero_add]
  · cases hcandidates : candidates direction transactions with
    | nil =>
      rw [slowest_eq_foldl, hcandidates]
      rfl
    | cons first others =>
      obtain ⟨txn, hslowest, hgreatest⟩ := exists_slowest hcandidates
      rw [hslowest]
      exact hgreatest

/-! ### The loop over the ranking -/

/-- The ranked transactions that a method selects when so many are selected already. -/
def OutlierMethod.taken (method : OutlierMethod) (selected : ℕ)
    (items : List (AxiTransaction × ℕ)) : List (AxiTransaction × ℕ) :=
  match method with
  | .topN n => items.take (n - selected)
  | .threshold ticks => items.filter fun item => ticks < item.2

/-- How many of the candidates a method selects. -/
def OutlierMethod.count (method : OutlierMethod) (candidates : List AxiTransaction) : ℕ :=
  match method with
  | .topN n => min n candidates.length
  | .threshold ticks => candidates.countP fun txn => ticks < latency txn

/-- The loop keeps outliers while there is room for them. -/
lemma keep_append (lineLimit : ℕ) (txn : AxiTransaction) (outliers rest : List AxiTransaction) :
    (if outliers.length < lineLimit then outliers ++ [txn] else outliers) ++
        rest.take (lineLimit -
          (if outliers.length < lineLimit then outliers ++ [txn] else outliers).length) =
      outliers ++ (txn :: rest).take (lineLimit - outliers.length) := by
  by_cases hroom : outliers.length < lineLimit
  · obtain ⟨room, hlimit⟩ : ∃ room, lineLimit - outliers.length = room + 1 :=
      ⟨lineLimit - outliers.length - 1, by omega⟩
    have hrest : lineLimit - (outliers ++ [txn]).length = room := by
      rw [List.length_append, List.length_singleton]
      omega
    rw [if_pos hroom, hrest, hlimit, List.take_succ_cons, List.append_assoc,
      List.singleton_append]
  · have hlimit : lineLimit - outliers.length = 0 := by omega
    rw [if_neg hroom, hlimit, List.take_zero, List.take_zero]

lemma outlierLoop_eq (method : OutlierMethod) (lineLimit : ℕ)
    (items : List (AxiTransaction × ℕ)) (selected : ℕ) (outliers : List AxiTransaction) :
    outlierLoop method lineLimit items selected outliers =
      (selected + (method.taken selected items).length,
        outliers ++
          ((method.taken selected items).map Prod.fst).take (lineLimit - outliers.length)) := by
  induction items generalizing selected outliers with
  | nil => cases method <;> simp [outlierLoop, OutlierMethod.taken]
  | cons item rest ih =>
    cases method with
    | topN n =>
      by_cases hfull : n ≤ selected
      · have hnone : n - selected = 0 := by omega
        simp [outlierLoop, OutlierMethod.taken, hfull, hnone]
      · have hroom : n - selected = n - (selected + 1) + 1 := by omega
        have htaken : (OutlierMethod.topN n).taken selected (item :: rest) =
            item :: (OutlierMethod.topN n).taken (selected + 1) rest := by
          rw [OutlierMethod.taken, OutlierMethod.taken, hroom, List.take_succ_cons]
        simp only [outlierLoop, if_neg hfull]
        rw [ih, htaken, List.map_cons, ← keep_append, List.length_cons, Nat.add_right_comm,
          Nat.add_assoc]
    | threshold ticks =>
      by_cases hfast : item.2 ≤ ticks
      · have htaken : (OutlierMethod.threshold ticks).taken selected (item :: rest) =
            (OutlierMethod.threshold ticks).taken selected rest := by
          rw [OutlierMethod.taken, OutlierMethod.taken,
            List.filter_cons_of_neg (by simpa using hfast)]
        simp only [outlierLoop, if_pos hfast]
        rw [ih, htaken]
      · have htaken : (OutlierMethod.threshold ticks).taken selected (item :: rest) =
            item :: (OutlierMethod.threshold ticks).taken (selected + 1) rest := by
          rw [OutlierMethod.taken, OutlierMethod.taken,
            List.filter_cons_of_pos (by simpa using hfast)]
        simp only [outlierLoop, if_neg hfast]
        rw [ih, htaken, List.map_cons, ← keep_append, List.length_cons, Nat.add_right_comm,
          Nat.add_assoc]

/-! ### The ranking -/

instance : Std.Total RankLe := ⟨fun a b => by unfold RankLe; omega⟩

instance : IsTrans (AxiTransaction × ℕ) RankLe := ⟨fun a b c => by unfold RankLe; omega⟩

lemma rankedLatencies_eq (direction : String) (transactions : List AxiTransaction) :
    rankedLatencies direction transactions =
      ((candidates direction transactions).map fun txn => (txn, latency txn)).insertionSort
        RankLe := by
  have hlatency : ∀ txn : AxiTransaction,
      (if txn.startTime < txn.endTime then txn.endTime - txn.startTime else 0) = latency txn := by
    intro txn
    rw [latency]
    split_ifs <;> omega
  simp only [rankedLatencies, candidates, hlatency]

lemma rankedLatencies_perm (direction : String) (transactions : List AxiTransaction) :
    (rankedLatencies direction transactions).Perm
      ((candidates direction transactions).map fun txn => (txn, latency txn)) := by
  rw [rankedLatencies_eq]
  exact List.perm_insertionSort _ _

lemma pairwise_rankedLatencies (direction : String) (transactions : List AxiTransaction) :
    (rankedLatencies direction transactions).Pairwise RankLe :=
  List.pairwise_insertionSort RankLe _

lemma snd_of_mem_rankedLatencies {direction : String} {transactions : List AxiTransaction}
    {item : AxiTransaction × ℕ} (h : item ∈ rankedLatencies direction transactions) :
    item.2 = latency item.1 := by
  obtain ⟨txn, -, rfl⟩ := List.mem_map.1 ((rankedLatencies_perm _ _).mem_iff.1 h)
  rfl

/-- What a method selects is an initial part of the ranking. -/
lemma taken_isPrefix (method : OutlierMethod) (direction : String)
    (transactions : List AxiTransaction) :
    method.taken 0 (rankedLatencies direction transactions) <+:
      rankedLatencies direction transactions := by
  cases method with
  | topN n => exact List.take_prefix _ _
  | threshold ticks =>
    refine filter_isPrefix ((pairwise_rankedLatencies direction transactions).imp
      fun {a b} hrank hslow => ?_)
    simp only [decide_eq_true_eq] at hslow ⊢
    rcases hrank with hslower | ⟨hequal, -⟩ <;> omega

lemma length_taken (method : OutlierMethod) (direction : String)
    (transactions : List AxiTransaction) :
    (method.taken 0 (rankedLatencies direction transactions)).length =
      method.count (candidates direction transactions) := by
  have hperm := rankedLatencies_perm direction transactions
  cases method with
  | topN n =>
    rw [OutlierMethod.taken, OutlierMethod.count, List.length_take, Nat.sub_zero,
      hperm.length_eq, List.length_map]
  | threshold ticks =>
    rw [OutlierMethod.taken, OutlierMethod.count, ← List.countP_eq_length_filter,
      hperm.countP_eq, List.countP_map]
    rfl

/-- What a report says about the complete transactions. -/
structure OutlierReport.Ranks (report : OutlierReport) (method : OutlierMethod) (lineLimit : ℕ)
    (candidates : List AxiTransaction) : Prop where
  candidateCount : report.candidateCount = candidates.length
  totalCount : report.totalCount = method.count candidates
  truncated : report.responseTruncated = decide (lineLimit < report.totalCount)
  length_outliers : report.outliers.length = min lineLimit report.totalCount
  first : ∃ rest, (report.outliers ++ rest).Perm candidates ∧
    (report.outliers ++ rest).Pairwise fun a b =>
      latency b < latency a ∨ latency a = latency b ∧ a.startTime ≤ b.startTime

lemma latencyOutlier_eq (direction : String) (method : OutlierMethod) (lineLimit : ℕ)
    (transactions : List AxiTransaction) :
    latencyOutlier direction method lineLimit transactions =
      { candidateCount := (rankedLatencies direction transactions).length
        totalCount := (method.taken 0 (rankedLatencies direction transactions)).length
        outliers :=
          ((method.taken 0 (rankedLatencies direction transactions)).map Prod.fst).take lineLimit
        responseTruncated :=
          lineLimit < (method.taken 0 (rankedLatencies direction transactions)).length } := by
  simp only [latencyOutlier, outlierLoop_eq, Nat.zero_add, List.nil_append, List.length_nil,
    Nat.sub_zero, List.length_take, List.length_map, min_lt_iff, lt_irrefl, or_false]

lemma outliers_isPrefix (direction : String) (method : OutlierMethod) (lineLimit : ℕ)
    (transactions : List AxiTransaction) :
    (latencyOutlier direction method lineLimit transactions).outliers <+:
      (rankedLatencies direction transactions).map Prod.fst := by
  have htaken := (taken_isPrefix method direction transactions).map Prod.fst
  rw [latencyOutlier_eq]
  refine List.IsPrefix.trans ?_ htaken
  exact List.take_prefix _ _

lemma ranks_latencyOutlier (direction : String) (method : OutlierMethod) (lineLimit : ℕ)
    (transactions : List AxiTransaction) :
    (latencyOutlier direction method lineLimit transactions).Ranks method lineLimit
      (candidates direction transactions) := by
  have hperm := rankedLatencies_perm direction transactions
  obtain ⟨rest, hrest⟩ := outliers_isPrefix direction method lineLimit transactions
  refine ⟨?_, ?_, ?_, ?_, rest, ?_, ?_⟩
  · rw [latencyOutlier_eq, hperm.length_eq, List.length_map]
  · rw [latencyOutlier_eq, length_taken]
  · rw [latencyOutlier_eq]
  · simp only [latencyOutlier_eq, List.length_take, List.length_map]
  · rw [hrest]
    refine (hperm.map Prod.fst).trans ?_
    rw [List.map_map]
    exact List.Perm.of_eq (List.map_id _)
  · rw [hrest, List.pairwise_map]
    refine (pairwise_rankedLatencies direction transactions).imp_of_mem
      fun {a b} ha hb hrank => ?_
    rwa [RankLe, snd_of_mem_rankedLatencies ha, snd_of_mem_rankedLatencies hb] at hrank

/-! ### Both actions -/

lemma pairwise_sortTransactions (transactions : List AxiTransaction) :
    (sortTransactions transactions).Pairwise fun a b => a.startTime ≤ b.startTime := by
  have : Std.Total fun a b : AxiTransaction => a.startTime ≤ b.startTime :=
    ⟨fun a b => le_total _ _⟩
  have : IsTrans AxiTransaction fun a b => a.startTime ≤ b.startTime := ⟨fun a b c => le_trans⟩
  have hsorted := List.pairwise_insertionSort
    (fun a b : AxiTransaction => a.startTime ≤ b.startTime) transactions
  rw [← List.zipIdx_map_fst 0 (List.insertionSort _ _), List.pairwise_map] at hsorted
  rw [sortTransactions, List.pairwise_map]
  exact hsorted

/-- Among transactions in the order of their starts, the first one of the ranking is the first one
with the greatest latency. -/
lemma exists_rankedLatencies_cons {direction : String} {transactions : List AxiTransaction}
    (h : transactions.Pairwise fun a b => a.startTime ≤ b.startTime) {first : AxiTransaction}
    {others : List AxiTransaction} (hcandidates : candidates direction transactions =
      first :: others) :
    ∃ txn rest, rankedLatencies direction transactions = (txn, latency txn) :: rest ∧
      FirstGreatest latency (first :: others) txn := by
  have hsorted : (first :: others).Pairwise fun a b => a.startTime ≤ b.startTime := by
    rw [← hcandidates]
    exact h.filter _
  have hranks : ((first :: others).map fun txn => (txn, latency txn)).Pairwise
      fun a b => RankLe a b ↔ b.2 ≤ a.2 := by
    rw [List.pairwise_map]
    refine hsorted.imp fun {a b} hstart => ?_
    simp only [RankLe]
    omega
  obtain ⟨item, rest, hsort, hgreatest⟩ : ∃ item rest,
      ((first :: others).map fun txn => (txn, latency txn)).insertionSort RankLe = item :: rest ∧
        FirstGreatest Prod.snd ((first :: others).map fun txn => (txn, latency txn)) item :=
    exists_insertionSort_cons hranks
  obtain ⟨txn, rfl, hfirst⟩ := hgreatest.of_map
  exact ⟨txn, rest, by rw [rankedLatencies_eq, hcandidates, hsort], hfirst⟩

/-- The outliers are the first ones of the complete transactions in the order of the ranking, as
many as the method selects and the response has room for; and the first outlier is the slowest
transaction of `axi.analysis`. -/
theorem latencyOutlier_exact (direction : String) (method : OutlierMethod) (lineLimit : ℕ)
    (transactions : List AxiTransaction) :
    (latencyOutlier direction method lineLimit (sortTransactions transactions)).Ranks method
      lineLimit (candidates direction (sortTransactions transactions)) ∧
    ((latencyOutlier direction method lineLimit (sortTransactions transactions)).outliers ≠ [] →
      (latencyOutlier direction method lineLimit (sortTransactions transactions)).outliers.head? =
        (analysisLatency direction (sortTransactions transactions)).slowest) := by
  refine ⟨ranks_latencyOutlier _ _ _ _, fun hne => ?_⟩
  obtain ⟨first, others, hcandidates⟩ : ∃ first others,
      candidates direction (sortTransactions transactions) = first :: others := by
    refine List.exists_cons_of_ne_nil fun hnil => hne ?_
    obtain ⟨rest, hperm, -⟩ := (ranks_latencyOutlier direction method lineLimit
      (sortTransactions transactions)).first
    rw [hnil] at hperm
    exact (List.append_eq_nil_iff.1 hperm.eq_nil).1
  obtain ⟨txn, rest, hranked, htxn⟩ :=
    exists_rankedLatencies_cons (pairwise_sortTransactions transactions) hcandidates
  obtain ⟨slowest, hslowest, hgreatest⟩ := exists_slowest hcandidates
  rw [hslowest, hgreatest.unique htxn]
  have hbegins := outliers_isPrefix direction method lineLimit (sortTransactions transactions)
  rw [hranked, List.map_cons] at hbegins
  obtain ⟨outlier, outliers, houtliers⟩ := List.exists_cons_of_ne_nil hne
  rw [houtliers] at hbegins ⊢
  rw [(List.cons_prefix_cons.1 hbegins).1, List.head?_cons]

end XdebugFst.Axi
