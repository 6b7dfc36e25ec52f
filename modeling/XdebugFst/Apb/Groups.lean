import XdebugFst.Apb.Unknown
import XdebugFst.Lib.MaximalRuns

/-!
# APB transfers and the transactions that are listed

An access that is accepted at several selected edges in a row, with the same direction, error
response, address and data, is listed once. The groups of such edges are the maximal runs of the
transfers at the selected edges, so back-to-back transfers that differ, and equal ones with an
edge between them at which nothing is accepted, are listed separately.

`scanTransactions_groups` says that the scan lists exactly one transaction for every group, in the
order of time.
-/

namespace XdebugFst.Apb

open Lib Waveform Clock

section Groups

variable (wf : Backend) (config : ApbConfig) (refs : Refs)

/-- The groups of selected edges in a row at which the same transfer is accepted. -/
def transferGroups : List (Run ApbTransfer) :=
  runs (transferAt wf config refs) (selectedEdges wf config refs).length

/-- The transaction of a group has the time of its first edge. -/
def groupTransaction (g : Run ApbTransfer) : ApbTransaction :=
  transaction refs (edgeTime wf (selectedEdges wf config refs) g.first) g.value

/-- The scan lists the transactions of the groups. -/
lemma scanEdges_groups : (scanEdges wf config refs (selectedEdges wf config refs)).transactions =
    (transferGroups wf config refs).map (groupTransaction wf config refs) := by
  rw [scanEdges_transactions, listed, transferGroups, runs, List.map_filterMap]
  refine List.filterMap_congr fun i _ => ?_
  rw [Option.map_map]
  rfl

/-- A later edge has a later time. -/
lemma edgeTime_lt {i j : ℕ} (hij : i < j) (hj : j < (selectedEdges wf config refs).length) :
    edgeTime wf (selectedEdges wf config refs) i < edgeTime wf (selectedEdges wf config refs) j := by
  have hpairwise : (selectedEdges wf config refs).Pairwise (· < ·) :=
    (pairwise_distinctIndices wf refs.clock).filter _
  have hlt : (selectedEdges wf config refs)[j] < wf.timeTable.length :=
    Backend.timeIndicesOf_lt
      (mem_distinctIndices.1 (List.mem_filter.1 (List.getElem_mem hj)).1)
  have hedges := List.pairwise_iff_getElem.1 hpairwise i j (hij.trans hj) hj hij
  rw [edgeTime, edgeTime, List.getElem?_eq_getElem (hij.trans hj), List.getElem?_eq_getElem hj]
  exact Backend.timeAt_lt_of_lt hedges hlt

end Groups

/-- The scan lists, in the order of time, one transaction for every maximal group of selected
edges in a row at which the same transfer is accepted, and every edge at which a transfer is
accepted is in exactly one group. -/
theorem scanTransactions_groups (wf : Backend) (config : ApbConfig) (scan : ApbScan)
    (hscan : scanTransactions wf config = .ok scan) :
    ∃ refs, loadRefs wf config = .ok refs ∧ ∃ groups : List (Run ApbTransfer),
      (∀ g, g ∈ groups ↔
        g.IsMaximal (transferAt wf config refs) (selectedEdges wf config refs).length) ∧
      groups.Pairwise (fun g h => g.last < h.first) ∧
      scan.transactions = groups.map (groupTransaction wf config refs) ∧
      (scan.transactions.map ApbTransaction.time).Pairwise (· < ·) ∧
      ∀ i ti transfer, (selectedEdges wf config refs)[i]? = some ti →
        IsTransfer wf config refs ti transfer →
        ∃! g, g ∈ groups ∧ g.Has i ∧ g.value = transfer := by
  obtain ⟨refs, hrefs, hresult⟩ := exists_of_bind_eq_ok hscan
  obtain rfl := Except.ok.inj hresult
  refine ⟨refs, hrefs, transferGroups wf config refs, fun g => mem_runs_iff, pairwise_runs _ _,
    scanEdges_groups wf config refs, ?_, ?_⟩
  · -- the first edge of a group is behind the last one of the group before it
    rw [scanEdges_groups, List.map_map, List.pairwise_map]
    refine List.Pairwise.imp_of_mem (fun {g h} hg hh hlt => ?_) (pairwise_runs _ _)
    have hg' := mem_runs_iff.1 hg
    have hh' := mem_runs_iff.1 hh
    exact edgeTime_lt wf config refs (hg'.le.trans_lt hlt) (hh'.le.trans_lt hh'.lt)
  · intro i ti transfer hti htransfer
    have hi : i < (selectedEdges wf config refs).length := (List.getElem?_eq_some_iff.1 hti).1
    have hsome : transferAt wf config refs i = some transfer :=
      transferAt_eq_some.2 ⟨ti, hti, htransfer⟩
    obtain ⟨g, hg, hhas, hvalue⟩ := exists_mem_runs hi hsome
    refine ⟨g, ⟨hg, hhas, hvalue⟩, ?_⟩
    rintro h ⟨hh, hhas', -⟩
    exact (mem_runs_iff.1 hh).eq (mem_runs_iff.1 hg) hhas' hhas

/-! ### Accesses in a row -/

def heldTimes : List ℕ := [0, 5, 10, 15, 20, 25, 30, 35, 40, 45]

/-- An access that is held at the edges 5 and 15, nothing at 25, the same access at 35 and one to
another address at 45. -/
def heldTable : List (String × List (ℕ × String)) :=
  [("clk", [(0, "0"), (1, "1"), (2, "0"), (3, "1"), (4, "0"), (5, "1"), (6, "0"), (7, "1"), (8, "0"),
      (9, "1")]),
    ("rst_n", [(0, "1")]), ("psel", [(0, "1")]), ("penable", [(0, "1"), (4, "0"), (6, "1")]),
    ("pwrite", [(0, "1")]), ("paddr", [(0, "1"), (8, "0")]), ("pwdata", [(0, "1")]),
    ("prdata", [(0, "0")])]

lemma heldTimes_sorted : heldTimes.Pairwise (· < ·) := by decide

lemma heldTimes_lt : ∀ t ∈ heldTimes, t < 2 ^ 64 := by decide

lemma heldTable_changes : ∀ s ∈ heldTable,
    s.2.Pairwise (fun a b => a.1 ≤ b.1) ∧ ∀ c ∈ s.2, c.1 < heldTimes.length := by decide

def heldWave : Backend :=
  Backend.ofTable heldTimes heldTable heldTimes_sorted heldTimes_lt heldTable_changes

/-- The four transfers are in three groups. -/
theorem heldWave_groups : ∃ scan, scanTransactions heldWave accessConfig = .ok scan ∧
    scan.transactions.map ApbTransaction.time = [5, 35, 45] ∧
    ∃ groups : List (Run ApbTransfer), groups.length = 3 ∧
      (∀ g, g ∈ groups ↔ g.IsMaximal (transferAt heldWave accessConfig accessRefs)
        (selectedEdges heldWave accessConfig accessRefs).length) ∧
      scan.transactions = groups.map (groupTransaction heldWave accessConfig accessRefs) := by
  have hscan : scanTransactions heldWave accessConfig = .ok (scanEdges heldWave accessConfig
      accessRefs (selectedEdges heldWave accessConfig accessRefs)) := rfl
  have htimes : (scanEdges heldWave accessConfig accessRefs
      (selectedEdges heldWave accessConfig accessRefs)).transactions.map ApbTransaction.time =
        [5, 35, 45] := by
    decide +kernel
  obtain ⟨refs, hrefs, groups, hgroups, -, hlisted, -, -⟩ :=
    scanTransactions_groups heldWave accessConfig _ hscan
  obtain rfl : accessRefs = refs := Except.ok.inj hrefs
  refine ⟨_, hscan, htimes, groups, ?_, hgroups, hlisted⟩
  rw [hlisted] at htimes
  simpa using congrArg List.length htimes

end XdebugFst.Apb
