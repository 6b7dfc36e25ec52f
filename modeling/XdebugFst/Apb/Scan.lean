import Mathlib
import XdebugFst.Clock.Edges
import XdebugFst.Lib.Repeats
import XdebugFst.Waveform.Fill

/-!
# Scanning a waveform for APB transfers

`scan_transactions` of `apb_actions.cpp`. At every selected clock edge the control signals are
sampled. Outside reset, an edge at which PSEL, PENABLE and PREADY are high completes a transfer;
an edge at which one of the signals it depends on is unknown is counted as unresolved, and the
scan is then not complete. A transfer that is the same as the one accepted at the edge before is
the tail of the same access and is not listed again.

`scanEdges_transactions` says what is listed: the transfers of the edges, without those that
repeat the one before.
-/

namespace XdebugFst.Apb

open Lib Waveform Clock Window Axi

/-! ### Configuration -/

/-- `ApbConfig`. -/
structure ApbConfig where
  name : String := ""
  clock : String
  edge : EdgeSelect := .negedge
  /-- `sample_point` is `after`. -/
  sampleAfter : Bool := false
  reset : String
  resetPolarity : ResetPolarity
  paddr : String
  psel : String
  penable : String
  pwrite : String
  pwdata : String
  prdata : String
  pready : String := ""
  pslverr : String := ""

/-- `config_point`. -/
def configPoint (config : ApbConfig) : ObservationPoint :=
  if config.edge = .negedge then .raw else if config.sampleAfter then .after else .before

/-- An error response of the scan. -/
structure ScanError where
  code : String
  message : String
  deriving DecidableEq, Repr

/-- `load_ref`: the reference of a signal and its width. -/
def loadRef (wf : Backend) (path role : String) : Except ScanError (ℕ × ℕ) :=
  let ref := wf.findSignal path
  if ref = 0 then
    .error ⟨"CONFIG_SIGNAL_NOT_FOUND", "APB " ++ role ++ " signal not found: " ++ path⟩
  else if wf.loadCount [ref] ≠ 1 then
    .error ⟨"VALUE_NOT_AVAILABLE", "failed to load APB " ++ role ++ ": " ++ path⟩
  else
    match (wf.signal ref).map SignalData.width with
    | none => .error ⟨"VALUE_NOT_AVAILABLE", "APB " ++ role ++ " metadata unavailable: " ++ path⟩
    | some width => .ok (ref, width)

/-- A signal that the configuration need not have. -/
def loadOptionalRef (wf : Backend) (path role : String) : Except ScanError (ℕ × ℕ) :=
  if path = "" then .ok (0, 0) else loadRef wf path role

/-- `Refs`. -/
structure Refs where
  clock : ℕ
  reset : ℕ
  paddr : ℕ
  psel : ℕ
  penable : ℕ
  pwrite : ℕ
  pwdata : ℕ
  prdata : ℕ
  pready : ℕ
  pslverr : ℕ
  addrWidth : ℕ
  writeWidth : ℕ
  readWidth : ℕ

/-- The references of a configuration. -/
def loadRefs (wf : Backend) (config : ApbConfig) : Except ScanError Refs := do
  let clock ← loadRef wf config.clock "clock"
  let reset ← loadRef wf config.reset "reset"
  let paddr ← loadRef wf config.paddr "paddr"
  let psel ← loadRef wf config.psel "psel"
  let penable ← loadRef wf config.penable "penable"
  let pwrite ← loadRef wf config.pwrite "pwrite"
  let pwdata ← loadRef wf config.pwdata "pwdata"
  let prdata ← loadRef wf config.prdata "prdata"
  let pready ← loadOptionalRef wf config.pready "pready"
  let pslverr ← loadOptionalRef wf config.pslverr "pslverr"
  return {
    clock := clock.1, reset := reset.1, paddr := paddr.1, psel := psel.1, penable := penable.1
    pwrite := pwrite.1, pwdata := pwdata.1, prdata := prdata.1, pready := pready.1
    pslverr := pslverr.1
    addrWidth := paddr.2, writeWidth := pwdata.2, readWidth := prdata.2 }

/-! ### One edge -/

/-- `Tri`. -/
inductive Tri
  | false | true | unknown
  deriving DecidableEq, Repr

/-- `truth`. -/
def truth (value : WaveformValue) : Tri :=
  if value.kind ≠ .bitVector ∨ value.text = "" then .unknown
  else if value.text.toList.any isXz then .unknown
  else if value.text.toList.any (· = '1') then .true
  else .false

/-- What a transfer is compared by. -/
structure ApbTransfer where
  isWrite : Bool
  hasError : Bool
  addr : String
  data : String
  deriving DecidableEq, Repr

/-- What the samples at one edge say. -/
inductive EdgeOutcome
  | idle
  | unresolved
  | accepted (transfer : ApbTransfer)
  deriving DecidableEq, Repr

namespace EdgeOutcome

def transfer? : EdgeOutcome → Option ApbTransfer
  | accepted transfer => some transfer
  | _ => none

end EdgeOutcome

section Edge

variable (wf : Backend) (config : ApbConfig) (refs : Refs) (ti : ℕ)

/-- `reset_asserted`. An unknown reset counts as asserted. -/
def resetAsserted (reset : WaveformValue) : Bool :=
  match config.resetPolarity with
  | .activeLow => truth reset ≠ .true
  | .activeHigh => truth reset ≠ .false

/-- The end of an access: the address and the data are read, and the error response. -/
def acceptedOutcome (pwrite : WaveformValue) : EdgeOutcome :=
  match wf.sample refs.paddr ti (configPoint config), wf.sample refs.pwdata ti (configPoint config),
      wf.sample refs.prdata ti (configPoint config) with
  | some paddr, some pwdata, some prdata =>
      if truth pwrite = .unknown then .unresolved
      else
        let isWrite : Bool := truth pwrite = .true
        let data := if isWrite then pwdata.text else prdata.text
        if refs.pslverr = 0 then .accepted ⟨isWrite, false, paddr.text, data⟩
        else
          match wf.sample refs.pslverr ti (configPoint config) with
          | none => .unresolved
          | some pslverr =>
              -- an unknown PSLVERR counts as an error
              .accepted ⟨isWrite, truth pslverr ≠ .false, paddr.text, data⟩
  | _, _, _ => .unresolved

/-- The wait states: without PREADY an access ends at its first edge. -/
def readyOutcome (pwrite : WaveformValue) : EdgeOutcome :=
  if refs.pready = 0 then acceptedOutcome wf config refs ti pwrite
  else
    match wf.sample refs.pready ti (configPoint config) with
    | none => .unresolved
    | some pready =>
        match truth pready with
        | .unknown => .unresolved
        | .false => .idle
        | .true => acceptedOutcome wf config refs ti pwrite

/-- The body of the loop at a selected edge. -/
def edgeOutcome : EdgeOutcome :=
  match wf.sample refs.reset ti (configPoint config), wf.sample refs.psel ti (configPoint config),
      wf.sample refs.penable ti (configPoint config),
      wf.sample refs.pwrite ti (configPoint config) with
  | some reset, some psel, some penable, some pwrite =>
      if resetAsserted config reset then .idle
      else if truth psel = .unknown ∨ truth penable = .unknown then .unresolved
      else if truth psel ≠ .true ∨ truth penable ≠ .true then .idle
      else readyOutcome wf config refs ti pwrite
  | _, _, _, _ => .unresolved

/-- The selected edges of the clock. -/
def selectedEdges : List ℕ :=
  (distinctIndices wf refs.clock).filter fun ti =>
    (edgeAt wf refs.clock ti).any fun e => selectedEdge config.edge e.1 e.2

end Edge

/-! ### The scan -/

/-- `ApbTransaction`. -/
structure ApbTransaction extends ApbTransfer where
  time : ℕ
  addrWidth : ℕ
  dataWidth : ℕ
  deriving DecidableEq, Repr

/-- `ApbScan`, with the other variables of the loop. -/
structure ApbScan where
  transactions : List ApbTransaction := []
  complete : Bool := true
  unresolved : ℕ := 0
  selectedEdgeOrdinal : ℕ := 0
  lastAcceptEdgeOrdinal : Option ℕ := none

/-- The transaction of a transfer at a time. -/
def transaction (refs : Refs) (time : ℕ) (transfer : ApbTransfer) : ApbTransaction :=
  { transfer with
    time
    addrWidth := refs.addrWidth
    dataWidth := if transfer.isWrite then refs.writeWidth else refs.readWidth }

/-- The loop at one selected edge. -/
def scanStep (refs : Refs) (st : ApbScan) (time : ℕ) (outcome : EdgeOutcome) : ApbScan :=
  let st' := { st with selectedEdgeOrdinal := st.selectedEdgeOrdinal + 1 }
  match outcome with
  | .idle => st'
  | .unresolved => { st' with complete := false, unresolved := st.unresolved + 1 }
  | .accepted transfer =>
      let duplicateAccessTail : Bool :=
        st.lastAcceptEdgeOrdinal.any (fun last => last + 1 = st.selectedEdgeOrdinal) &&
          st.transactions.getLast?.any fun last => last.toApbTransfer = transfer
      let st' := { st' with lastAcceptEdgeOrdinal := some st.selectedEdgeOrdinal }
      if duplicateAccessTail then st'
      else { st' with transactions := st.transactions ++ [transaction refs time transfer] }

/-- The loop over the selected edges. -/
def scanEdges (wf : Backend) (config : ApbConfig) (refs : Refs) (edges : List ℕ) : ApbScan :=
  edges.foldl (fun st ti => scanStep refs st (wf.timeAt ti) (edgeOutcome wf config refs ti)) {}

/-- `scan_transactions`. -/
def scanTransactions (wf : Backend) (config : ApbConfig) : Except ScanError ApbScan := do
  let refs ← loadRefs wf config
  return scanEdges wf config refs (selectedEdges wf config refs)

/-! ### What is listed -/

section Listed

variable (refs : Refs) (time : ℕ → ℕ) (outcome : ℕ → EdgeOutcome)

/-- The loop over the first edges, given by what happens at each. -/
def scanFirst (k : ℕ) : ApbScan :=
  (List.range k).foldl (fun st i => scanStep refs st (time i) (outcome i)) {}

lemma scanFirst_succ (k : ℕ) :
    scanFirst refs time outcome (k + 1) =
      scanStep refs (scanFirst refs time outcome k) (time k) (outcome k) := by
  rw [scanFirst, List.range_succ, List.foldl_append]
  rfl

/-- The transfers of the edges. -/
def transfers (i : ℕ) : Option ApbTransfer := (outcome i).transfer?

/-- The transactions of the transfers that do not repeat the one before. -/
def listed (k : ℕ) : List ApbTransaction :=
  (List.range k).filterMap fun i =>
    (firstAt (transfers outcome) i).map (transaction refs (time i))

/-- The variables of the loop after `k` edges. -/
structure ScanInv (k : ℕ) (st : ApbScan) : Prop where
  ordinal : st.selectedEdgeOrdinal = k
  transactions : st.transactions = listed refs time outcome k
  bound : ∀ last, st.lastAcceptEdgeOrdinal = some last → last < k
  accepted : ∀ transfer, (st.lastAcceptEdgeOrdinal.any (fun last => last + 1 = k) &&
      st.transactions.getLast?.any fun last => last.toApbTransfer = transfer) = true ↔
    0 < k ∧ transfers outcome (k - 1) = some transfer
  complete : st.complete = true ↔ ∀ i < k, outcome i ≠ .unresolved

variable {refs time outcome}

lemma listed_succ (k : ℕ) :
    listed refs time outcome (k + 1) = listed refs time outcome k ++
      ((firstAt (transfers outcome) k).map (transaction refs (time k))).toList := by
  rw [listed, List.range_succ, List.filterMap_append]
  rfl

/-- An edge without a transfer. -/
lemma ScanInv.quiet {k : ℕ} {st : ApbScan} (h : ScanInv refs time outcome k st)
    (hnone : transfers outcome k = none) {complete : Bool} {unresolved : ℕ}
    (hcomplete : complete = true ↔ st.complete = true ∧ outcome k ≠ .unresolved) :
    ScanInv refs time outcome (k + 1)
      { st with
        selectedEdgeOrdinal := st.selectedEdgeOrdinal + 1, complete := complete
        unresolved := unresolved } := by
  have hbound : ∀ last, st.lastAcceptEdgeOrdinal = some last → last < k := h.bound
  refine ⟨?_, ?_, ?_, ?_, ?_⟩
  · rw [h.ordinal]
  · show st.transactions = _
    rw [h.transactions, listed_succ, firstAt_of_eq_none hnone]
    exact (List.append_nil _).symm
  · intro last hlast
    exact (hbound last hlast).trans (Nat.lt_succ_self k)
  · intro transfer
    have hany : st.lastAcceptEdgeOrdinal.any (fun last => last + 1 = k + 1) = false := by
      cases hlast : st.lastAcceptEdgeOrdinal with
      | none => rfl
      | some last =>
          have := hbound last hlast
          simp
          omega
    rw [hany, Nat.add_sub_cancel, hnone]
    simp
  · show complete = true ↔ _
    rw [hcomplete, h.complete, Nat.forall_lt_succ_right]

/-- The loop keeps its invariant. -/
lemma ScanInv.step {k : ℕ} {st : ApbScan} (h : ScanInv refs time outcome k st) :
    ScanInv refs time outcome (k + 1) (scanStep refs st (time k) (outcome k)) := by
  cases hk : outcome k with
  | idle =>
      refine h.quiet (by rw [transfers, hk]; rfl) ?_
      simp [hk]
  | unresolved =>
      refine h.quiet (by rw [transfers, hk]; rfl) ?_
      simp [hk]
  | accepted transfer =>
      have htransfer : transfers outcome k = some transfer := by
        rw [transfers, hk]
        rfl
      have hcomplete : st.complete = true ↔ ∀ i < k + 1, outcome i ≠ .unresolved := by
        rw [h.complete, Nat.forall_lt_succ_right, hk]
        simp
      simp only [scanStep, h.ordinal]
      split
      · -- the transfer repeats the one before
        rename_i hrepeat
        have hfirst := (firstAt_eq_none htransfer).2 ((h.accepted transfer).1 hrepeat)
        have hlast := (Bool.and_eq_true_iff.1 hrepeat).2
        refine ⟨rfl, ?_, ?_, ?_, hcomplete⟩
        · show st.transactions = _
          rw [h.transactions, listed_succ, hfirst]
          exact (List.append_nil _).symm
        · rintro last ⟨rfl⟩
          exact Nat.lt_succ_self _
        · intro other
          rw [Nat.add_sub_cancel, htransfer]
          cases hback : st.transactions.getLast? with
          | none =>
              rw [hback] at hlast
              cases hlast
          | some back =>
              rw [hback] at hlast
              have hsame : back.toApbTransfer = transfer := of_decide_eq_true hlast
              simp [hsame]
      · rename_i hnew
        have hfirst : firstAt (transfers outcome) k = some transfer := by
          cases hfirst : firstAt (transfers outcome) k with
          | none => exact absurd ((h.accepted transfer).2 ((firstAt_eq_none htransfer).1 hfirst)) hnew
          | some other =>
              rw [← htransfer]
              exact (firstAt_eq_some hfirst).symm
        refine ⟨rfl, ?_, ?_, ?_, hcomplete⟩
        · show st.transactions ++ _ = _
          rw [h.transactions, listed_succ, hfirst]
          rfl
        · rintro last ⟨rfl⟩
          exact Nat.lt_succ_self _
        · intro other
          rw [Nat.add_sub_cancel, htransfer]
          simp [transaction]

lemma scanInv_scanFirst (k : ℕ) :
    ScanInv refs time outcome k (scanFirst refs time outcome k) := by
  induction k with
  | zero =>
      refine ⟨rfl, rfl, ?_, ?_, ?_⟩
      · rintro last ⟨⟩
      · intro transfer
        simp [scanFirst]
      · simp [scanFirst]
  | succ k ih =>
      rw [scanFirst_succ]
      exact ih.step

end Listed

section Edges

variable (wf : Backend) (config : ApbConfig) (refs : Refs) (edges : List ℕ)

/-- What happens at the edge with an ordinal. -/
def outcomeAt (i : ℕ) : EdgeOutcome := ((edges[i]?).map (edgeOutcome wf config refs)).getD .idle

/-- The time of the edge with an ordinal. -/
def edgeTime (i : ℕ) : ℕ := ((edges[i]?).map wf.timeAt).getD 0

lemma scanEdges_eq : scanEdges wf config refs edges =
    scanFirst refs (edgeTime wf edges) (outcomeAt wf config refs edges) edges.length := by
  have hrange : edges = (List.range edges.length).map fun i => edges.getD i 0 := by
    refine List.ext_getElem (by simp) fun i hi _ => ?_
    simp [List.getD_eq_getElem?_getD, List.getElem?_eq_getElem hi]
  rw [scanEdges, scanFirst]
  conv_lhs => rw [hrange]
  rw [List.foldl_map]
  refine List.foldl_ext _ _ _ fun st i hi => ?_
  rw [List.mem_range] at hi
  rw [edgeTime, outcomeAt, List.getD_eq_getElem?_getD, List.getElem?_eq_getElem hi]
  rfl

/-- The scan lists the transfers of the edges without those that repeat the one before. -/
theorem scanEdges_transactions : (scanEdges wf config refs edges).transactions =
    listed refs (edgeTime wf edges) (outcomeAt wf config refs edges) edges.length := by
  rw [scanEdges_eq]
  exact (scanInv_scanFirst _).transactions

/-- The scan is complete if no edge is unresolved. -/
theorem scanEdges_complete : (scanEdges wf config refs edges).complete = true ↔
    ∀ i < edges.length, outcomeAt wf config refs edges i ≠ .unresolved := by
  rw [scanEdges_eq]
  exact (scanInv_scanFirst _).complete

end Edges

end XdebugFst.Apb
