import Mathlib
import XdebugFst.Lib.Throws
import XdebugFst.Apb.Scan

/-!
# Complete APB scans and unknown bits

A scan that is complete should say the same about every waveform that fills in unknown bits of
the control signals. An unknown PSEL, PENABLE, PREADY or PWRITE makes the scan incomplete, so
these cannot break it. An unknown reset counts as asserted and an unknown PSLVERR as an error,
and the scan stays complete.

`scanTransactions_eq_iff` says when the two scans of a complete waveform agree: the filled-in
waveform gives the same error response at every transfer, and a transfer that it has at an edge
with an unknown reset is not seen, because it repeats the one before and is not repeated after.
-/

namespace XdebugFst.Apb

open Lib Waveform Clock Window Axi

/-! ### Waveforms with the controls filled in -/

/-- A signal that the scan samples as a control or as the reset, and not the clock. -/
def IsControl (wf : Backend) (refs : Refs) (ref : ℕ) : Prop :=
  wf.nativeRef ref ≠ wf.nativeRef refs.clock ∧
    ∃ control ∈ [refs.reset, refs.psel, refs.penable, refs.pwrite, refs.pready, refs.pslverr],
      control ≠ 0 ∧ wf.nativeRef ref = wf.nativeRef control

/-- The second waveform has unknown bits of the controls replaced. -/
def FillsControls (wf : Backend) (config : ApbConfig) (wf' : Backend) : Prop :=
  ∀ refs, loadRefs wf config = .ok refs → Fills (IsControl wf refs) wf wf'

/-- The transfer at the edge with an ordinal. -/
def transferAt (wf : Backend) (config : ApbConfig) (refs : Refs) (i : ℕ) : Option ApbTransfer :=
  transfers (outcomeAt wf config refs (selectedEdges wf config refs)) i

/-- The reset is unknown at the edge with an ordinal. -/
def resetUnknownAt (wf : Backend) (config : ApbConfig) (refs : Refs) (i : ℕ) : Prop :=
  ∃ ti reset, (selectedEdges wf config refs)[i]? = some ti ∧
    wf.sample refs.reset ti (configPoint config) = some reset ∧ truth reset = .unknown

/-- The second waveform changes nothing that the scan lists. -/
structure SameTransfers (wf wf' : Backend) (config : ApbConfig) (refs : Refs) : Prop where
  /-- A transfer has the same error response, and the same address and data. -/
  kept : ∀ i transfer, transferAt wf config refs i = some transfer →
    transferAt wf' config refs i = some transfer
  /-- A transfer at an edge with an unknown reset repeats the one before and is not repeated. -/
  repeated : ∀ i transfer, resetUnknownAt wf config refs i →
    transferAt wf' config refs i = some transfer →
    (0 < i ∧ transferAt wf' config refs (i - 1) = some transfer) ∧
      transferAt wf config refs (i + 1) ≠ some transfer

/-! ### Transfers -/

section Transfers

variable {wf : Backend} {config : ApbConfig} {refs : Refs} {ti : ℕ}

/-- The samples of an edge at which a transfer completes. -/
structure IsTransfer (wf : Backend) (config : ApbConfig) (refs : Refs) (ti : ℕ)
    (transfer : ApbTransfer) : Prop where
  reset : ∃ reset, wf.sample refs.reset ti (configPoint config) = some reset ∧
    resetAsserted config reset = false
  psel : ∃ psel, wf.sample refs.psel ti (configPoint config) = some psel ∧ truth psel = .true
  penable : ∃ penable, wf.sample refs.penable ti (configPoint config) = some penable ∧
    truth penable = .true
  pready : refs.pready ≠ 0 →
    ∃ pready, wf.sample refs.pready ti (configPoint config) = some pready ∧ truth pready = .true
  pwrite : ∃ pwrite, wf.sample refs.pwrite ti (configPoint config) = some pwrite ∧
    truth pwrite ≠ .unknown ∧ (transfer.isWrite = true ↔ truth pwrite = .true)
  paddr : ∃ paddr, wf.sample refs.paddr ti (configPoint config) = some paddr ∧
    transfer.addr = paddr.text
  data : ∃ pwdata prdata, wf.sample refs.pwdata ti (configPoint config) = some pwdata ∧
    wf.sample refs.prdata ti (configPoint config) = some prdata ∧
    transfer.data = if transfer.isWrite then pwdata.text else prdata.text
  pslverr : if refs.pslverr = 0 then transfer.hasError = false
    else ∃ pslverr, wf.sample refs.pslverr ti (configPoint config) = some pslverr ∧
      (transfer.hasError = true ↔ truth pslverr ≠ .false)

lemma acceptedOutcome_eq_accepted {pwrite : WaveformValue} {transfer : ApbTransfer} :
    acceptedOutcome wf config refs ti pwrite = .accepted transfer ↔
      (truth pwrite ≠ .unknown ∧ (transfer.isWrite = true ↔ truth pwrite = .true)) ∧
      (∃ paddr, wf.sample refs.paddr ti (configPoint config) = some paddr ∧
        transfer.addr = paddr.text) ∧
      (∃ pwdata prdata, wf.sample refs.pwdata ti (configPoint config) = some pwdata ∧
        wf.sample refs.prdata ti (configPoint config) = some prdata ∧
        transfer.data = if transfer.isWrite then pwdata.text else prdata.text) ∧
      if refs.pslverr = 0 then transfer.hasError = false
      else ∃ pslverr, wf.sample refs.pslverr ti (configPoint config) = some pslverr ∧
        (transfer.hasError = true ↔ truth pslverr ≠ .false) := by
  obtain ⟨isWrite, hasError, addr, data⟩ := transfer
  rw [acceptedOutcome]
  cases wf.sample refs.paddr ti (configPoint config) with
  | none => simp
  | some paddr =>
    cases wf.sample refs.pwdata ti (configPoint config) with
    | none => simp
    | some pwdata =>
      cases wf.sample refs.prdata ti (configPoint config) with
      | none => simp
      | some prdata =>
        simp only [Option.some.injEq, exists_eq_left', ne_eq]
        by_cases hunknown : truth pwrite = .unknown
        · simp [hunknown]
        · by_cases hnone : refs.pslverr = 0
          · simp only [hunknown, hnone, if_true, if_false, EdgeOutcome.accepted.injEq,
              ApbTransfer.mk.injEq, not_false_eq_true, true_and]
            constructor
            · rintro ⟨rfl, rfl, rfl, rfl⟩
              simp
            · rintro ⟨hwrite, rfl, ⟨_, _, rfl, rfl, hdata⟩, rfl⟩
              simp [hdata, ← hwrite]
          · cases wf.sample refs.pslverr ti (configPoint config) with
            | none => simp [hunknown, hnone]
            | some pslverr =>
                simp only [hunknown, hnone, if_false, EdgeOutcome.accepted.injEq,
                  ApbTransfer.mk.injEq, not_false_eq_true, true_and, Option.some.injEq,
                  exists_eq_left']
                constructor
                · rintro ⟨rfl, rfl, rfl, rfl⟩
                  simp
                · rintro ⟨hwrite, rfl, ⟨_, _, rfl, rfl, hdata⟩, herror⟩
                  simp [hdata, ← hwrite, ← herror]

lemma readyOutcome_eq_accepted {pwrite : WaveformValue} {transfer : ApbTransfer} :
    readyOutcome wf config refs ti pwrite = .accepted transfer ↔
      (refs.pready ≠ 0 → ∃ pready, wf.sample refs.pready ti (configPoint config) = some pready ∧
        truth pready = .true) ∧
      acceptedOutcome wf config refs ti pwrite = .accepted transfer := by
  rw [readyOutcome]
  by_cases hnone : refs.pready = 0
  · simp [hnone]
  · rw [if_neg hnone]
    cases wf.sample refs.pready ti (configPoint config) with
    | none => simp [hnone]
    | some pready =>
        cases htruth : truth pready <;> simp [hnone, htruth]

/-- Outside of a wait state PREADY does not make an edge idle. -/
lemma exists_of_readyOutcome_eq_idle {pwrite : WaveformValue}
    (h : readyOutcome wf config refs ti pwrite = .idle) :
    ∃ pready, refs.pready ≠ 0 ∧ wf.sample refs.pready ti (configPoint config) = some pready ∧
      truth pready = .false := by
  have haccepted : acceptedOutcome wf config refs ti pwrite ≠ .idle := by
    rw [acceptedOutcome]
    split
    · split_ifs
      · simp
      · simp
      · split <;> simp
    · simp
  rw [readyOutcome] at h
  split at h
  · exact absurd h haccepted
  · rename_i hpready
    split at h
    · cases h
    · rename_i pready hsample
      split at h
      · cases h
      · rename_i hfalse
        exact ⟨pready, hpready, hsample, hfalse⟩
      · exact absurd h haccepted

/-- An edge completes a transfer exactly if its samples say so. -/
lemma edgeOutcome_eq_accepted {transfer : ApbTransfer} :
    edgeOutcome wf config refs ti = .accepted transfer ↔ IsTransfer wf config refs ti transfer := by
  constructor
  · intro h
    rw [edgeOutcome] at h
    split at h
    · rename_i reset psel penable pwrite hreset hpsel hpenable hpwrite
      split_ifs at h with hasserted hunknown hidle
      obtain ⟨hnotPsel, hnotPenable⟩ := not_or.1 hidle
      obtain ⟨hready, haccepted⟩ := readyOutcome_eq_accepted.1 h
      obtain ⟨hwrite, haddr, hdata, herror⟩ := acceptedOutcome_eq_accepted.1 haccepted
      exact ⟨⟨reset, hreset, Bool.eq_false_of_not_eq_true hasserted⟩,
        ⟨psel, hpsel, of_not_not hnotPsel⟩, ⟨penable, hpenable, of_not_not hnotPenable⟩, hready,
        ⟨pwrite, hpwrite, hwrite⟩, haddr, hdata, herror⟩
    · cases h
  · rintro ⟨⟨reset, hreset, hasserted⟩, ⟨psel, hpsel, hpselTrue⟩, ⟨penable, hpenable, hpenableTrue⟩,
      hready, ⟨pwrite, hpwrite, hwrite⟩, haddr, hdata, herror⟩
    rw [edgeOutcome, hreset, hpsel, hpenable, hpwrite]
    simp only [hasserted, hpselTrue, hpenableTrue]
    exact readyOutcome_eq_accepted.2 ⟨hready, acceptedOutcome_eq_accepted.2
      ⟨hwrite, haddr, hdata, herror⟩⟩

end Transfers

/-! ### One edge of both waveforms -/

section Edge

variable {filled : ℕ → Prop} {wf wf' : Backend} {config : ApbConfig} {refs : Refs} {ti : ℕ}
  {transfer : ApbTransfer}

lemma known_of_truth {value : WaveformValue} (h : truth value ≠ .unknown) :
    value.text.toList.any isXz = false := by
  rw [truth] at h
  split_ifs at h with hkind hxz
  · exact absurd rfl h
  · exact absurd rfl h
  · exact Bool.eq_false_of_not_eq_true hxz
  · exact Bool.eq_false_of_not_eq_true hxz

/-- A sample that is known is the same on both waveforms. -/
lemma sample_of_known (h : Fills filled wf wf') {ref : ℕ} {point : ObservationPoint}
    {value : WaveformValue} (hvalue : wf.sample ref ti point = some value)
    (hknown : truth value ≠ .unknown) : wf'.sample ref ti point = some value := by
  have hrel := h.rel_sample ref ti point
  rw [hvalue] at hrel
  generalize wf'.sample ref ti point = sample' at hrel
  cases hrel with
  | some hfill => rw [hfill.eq_of_known fun _ => known_of_truth hknown]

/-- A sample that is there is there on both waveforms. -/
lemma exists_sample (h : Fills filled wf wf') {ref : ℕ} {point : ObservationPoint}
    {value : WaveformValue} (hvalue : wf.sample ref ti point = some value) :
    ∃ value', wf'.sample ref ti point = some value' := by
  have hrel := h.rel_sample ref ti point
  rw [hvalue] at hrel
  generalize wf'.sample ref ti point = sample' at hrel
  cases hrel with
  | some hfill => exact ⟨_, rfl⟩

/-- A reset that is not asserted is known. -/
lemma truth_ne_unknown_of_resetAsserted {reset : WaveformValue}
    (h : resetAsserted config reset = false) : truth reset ≠ .unknown := by
  intro hunknown
  rw [resetAsserted, hunknown] at h
  cases hpolarity : config.resetPolarity <;> simp [hpolarity] at h

/-- A transfer of the first waveform is a transfer of the second. -/
lemma exists_isTransfer (h : Fills filled wf wf') (htransfer : IsTransfer wf config refs ti transfer) :
    ∃ transfer', IsTransfer wf' config refs ti transfer' := by
  obtain ⟨⟨reset, hreset, hasserted⟩, ⟨psel, hpsel, hpselTrue⟩, ⟨penable, hpenable, hpenableTrue⟩,
    hready, ⟨pwrite, hpwrite, hknown, hwrite⟩, ⟨paddr, hpaddr, -⟩,
    ⟨pwdata, prdata, hpwdata, hprdata, -⟩, herror⟩ := htransfer
  obtain ⟨paddr', hpaddr'⟩ := exists_sample h hpaddr
  obtain ⟨pwdata', hpwdata'⟩ := exists_sample h hpwdata
  obtain ⟨prdata', hprdata'⟩ := exists_sample h hprdata
  have hsome : ∃ hasError : Bool, if refs.pslverr = 0 then hasError = false
      else ∃ pslverr, wf'.sample refs.pslverr ti (configPoint config) = some pslverr ∧
        (hasError = true ↔ truth pslverr ≠ .false) := by
    split_ifs at herror ⊢ with hnone
    · exact ⟨false, rfl⟩
    · obtain ⟨pslverr, hpslverr, -⟩ := herror
      obtain ⟨pslverr', hpslverr'⟩ := exists_sample h hpslverr
      exact ⟨decide (truth pslverr' ≠ .false), pslverr', hpslverr', decide_eq_true_iff⟩
  obtain ⟨hasError, hasErrorEq⟩ := hsome
  refine ⟨⟨transfer.isWrite, hasError, paddr'.text,
      if transfer.isWrite then pwdata'.text else prdata'.text⟩,
    ⟨reset, sample_of_known h hreset (truth_ne_unknown_of_resetAsserted hasserted), hasserted⟩,
    ⟨psel, sample_of_known h hpsel (by simp [hpselTrue]), hpselTrue⟩,
    ⟨penable, sample_of_known h hpenable (by simp [hpenableTrue]), hpenableTrue⟩, ?_,
    ⟨pwrite, sample_of_known h hpwrite hknown, hknown, hwrite⟩, ⟨paddr', hpaddr', rfl⟩,
    ⟨pwdata', prdata', hpwdata', hprdata', rfl⟩, hasErrorEq⟩
  intro hpready
  obtain ⟨pready, hsample, htrue⟩ := hready hpready
  exact ⟨pready, sample_of_known h hsample (by simp [htrue]), htrue⟩

/-- A transfer that only the second waveform has is at an edge with an unknown reset. -/
lemma resetUnknown_of_isTransfer (h : Fills filled wf wf')
    (hidle : edgeOutcome wf config refs ti = .idle)
    (htransfer : IsTransfer wf' config refs ti transfer) :
    ∃ reset, wf.sample refs.reset ti (configPoint config) = some reset ∧
      truth reset = .unknown := by
  rw [edgeOutcome] at hidle
  split at hidle
  · rename_i reset psel penable pwrite hreset hpsel hpenable hpwrite
    refine ⟨reset, hreset, ?_⟩
    by_contra hknown
    -- a sample of the second waveform is the known one of the first
    have hsame : ∀ {ref : ℕ} {value : WaveformValue} {p : WaveformValue → Prop},
        wf.sample ref ti (configPoint config) = some value → truth value ≠ .unknown →
        (∃ value', wf'.sample ref ti (configPoint config) = some value' ∧ p value') → p value := by
      rintro ref value p hvalue hvalueKnown ⟨value', hvalue', hp⟩
      rw [sample_of_known h hvalue hvalueKnown] at hvalue'
      exact Option.some.inj hvalue' ▸ hp
    have hasserted := hsame hreset hknown htransfer.reset
    rw [if_neg (by simp [hasserted])] at hidle
    split_ifs at hidle with hunknown hquiet
    · obtain ⟨hpselKnown, hpenableKnown⟩ := not_or.1 hunknown
      have hpselTrue := hsame hpsel hpselKnown htransfer.psel
      have hpenableTrue := hsame hpenable hpenableKnown htransfer.penable
      rcases hquiet with hquiet | hquiet
      · exact hquiet hpselTrue
      · exact hquiet hpenableTrue
    · obtain ⟨pready, hpready, hsample, hfalse⟩ := exists_of_readyOutcome_eq_idle hidle
      have htrue := hsame hsample (by simp [hfalse]) (htransfer.pready hpready)
      rw [hfalse] at htrue
      cases htrue
  · cases hidle

end Edge

/-! ### Both scans -/

section Scans

variable {wf wf' : Backend} {config : ApbConfig} {refs : Refs}

lemma loadRef_fills {filled : ℕ → Prop} (h : Fills filled wf wf') (path role : String) :
    loadRef wf' path role = loadRef wf path role := by
  rw [loadRef, loadRef, h.findSignal, Backend.loadCount, Backend.loadCount, h.nativeRef, h.width]

lemma loadRefs_fills {filled : ℕ → Prop} (h : Fills filled wf wf') :
    loadRefs wf' config = loadRefs wf config := by
  simp only [loadRefs, loadOptionalRef, loadRef_fills h]

/-- The clock is not filled in, so both waveforms have the same edges. -/
lemma selectedEdges_fills (h : Fills (IsControl wf refs) wf wf') :
    selectedEdges wf' config refs = selectedEdges wf config refs := by
  have hclock : ¬ IsControl wf refs refs.clock := fun hcontrol => hcontrol.1 rfl
  have hedge : ∀ ti, edgeAt wf' refs.clock ti = edgeAt wf refs.clock ti := by
    intro ti
    rw [edgeAt, edgeAt, h.sampledValueAt hclock, h.sampledValueAt hclock]
  have hindices : distinctIndices wf' refs.clock = distinctIndices wf refs.clock := by
    rw [distinctIndices, distinctIndices, Backend.timeIndicesOf, Backend.timeIndicesOf,
      h.others refs.clock hclock]
  rw [selectedEdges, selectedEdges, hindices]
  simp only [hedge]

lemma transferAt_eq_some {i : ℕ} {transfer : ApbTransfer} :
    transferAt wf config refs i = some transfer ↔
      ∃ ti, (selectedEdges wf config refs)[i]? = some ti ∧
        IsTransfer wf config refs ti transfer := by
  rw [transferAt, transfers, outcomeAt]
  cases (selectedEdges wf config refs)[i]? with
  | none => simp [EdgeOutcome.transfer?]
  | some ti =>
      simp only [Option.map_some, Option.getD_some, Option.some.injEq, exists_eq_left',
        ← edgeOutcome_eq_accepted]
      cases edgeOutcome wf config refs ti <;> simp [EdgeOutcome.transfer?]

/-- A transfer of the first waveform is one of the second. -/
lemma transferAt_isSome (h : Fills (IsControl wf refs) wf wf') (i : ℕ)
    (hsome : (transferAt wf config refs i).isSome) : (transferAt wf' config refs i).isSome := by
  obtain ⟨transfer, htransfer⟩ := Option.isSome_iff_exists.1 hsome
  obtain ⟨ti, hti, htransfer⟩ := transferAt_eq_some.1 htransfer
  obtain ⟨transfer', htransfer'⟩ := exists_isTransfer h htransfer
  rw [← selectedEdges_fills h] at hti
  exact Option.isSome_iff_exists.2 ⟨transfer', transferAt_eq_some.2 ⟨ti, hti, htransfer'⟩⟩

/-- Where only the second waveform of a complete scan has a transfer, the reset is unknown. -/
lemma resetUnknownAt_of_transferAt (h : Fills (IsControl wf refs) wf wf')
    (hcomplete : (scanEdges wf config refs (selectedEdges wf config refs)).complete = true) {i : ℕ}
    {transfer : ApbTransfer} (hnone : transferAt wf config refs i = none)
    (htransfer : transferAt wf' config refs i = some transfer) :
    resetUnknownAt wf config refs i := by
  obtain ⟨ti, hti, htransfer⟩ := transferAt_eq_some.1 htransfer
  rw [selectedEdges_fills h] at hti
  have hresolved := (scanEdges_complete wf config refs _).1 hcomplete i
    (List.getElem?_eq_some_iff.1 hti).1
  rw [transferAt, transfers] at hnone
  rw [outcomeAt, hti, Option.map_some, Option.getD_some] at hresolved hnone
  have hidle : edgeOutcome wf config refs ti = .idle := by
    cases houtcome : edgeOutcome wf config refs ti with
    | idle => rfl
    | unresolved => exact absurd houtcome hresolved
    | accepted transfer =>
        rw [houtcome] at hnone
        cases hnone
  obtain ⟨reset, hreset, hunknown⟩ := resetUnknown_of_isTransfer h hidle htransfer
  exact ⟨ti, reset, hti, hreset, hunknown⟩

/-- Where the first waveform has a transfer its reset is known. -/
lemma transferAt_of_resetUnknownAt {i : ℕ} (h : resetUnknownAt wf config refs i) :
    transferAt wf config refs i = none := by
  obtain ⟨ti, reset, hti, hreset, hunknown⟩ := h
  by_contra hsome
  obtain ⟨transfer, htransfer⟩ := Option.ne_none_iff_exists'.1 hsome
  obtain ⟨ti', hti', htransfer⟩ := transferAt_eq_some.1 htransfer
  obtain rfl : ti = ti' := Option.some.inj (hti.symm.trans hti')
  obtain ⟨reset', hreset', hasserted⟩ := htransfer.reset
  obtain rfl : reset = reset' := Option.some.inj (hreset.symm.trans hreset')
  exact truth_ne_unknown_of_resetAsserted hasserted hunknown

/-- The edges have different times. -/
lemma nodup_edgeTime (wf : Backend) (config : ApbConfig) (refs : Refs) :
    ((List.range (selectedEdges wf config refs).length).map
      (edgeTime wf (selectedEdges wf config refs))).Nodup := by
  have hpairwise : (selectedEdges wf config refs).Pairwise (· < ·) :=
    (pairwise_distinctIndices wf refs.clock).filter _
  have hlt : ∀ ti ∈ selectedEdges wf config refs, ti < wf.timeTable.length := by
    intro ti hti
    exact Backend.timeIndicesOf_lt (mem_distinctIndices.1 (List.mem_filter.1 hti).1)
  have hmap : (List.range (selectedEdges wf config refs).length).map
      (edgeTime wf (selectedEdges wf config refs)) =
        (selectedEdges wf config refs).map wf.timeAt := by
    refine List.ext_getElem (by simp) fun i hi hi' => ?_
    rw [List.length_map] at hi'
    simp [edgeTime, List.getElem?_eq_getElem hi']
  rw [hmap]
  exact nodup_map_timeAt hlt hpairwise

/-- The two lists agree exactly if the transfers that they are made of do. -/
lemma transactions_eq_iff (h : Fills (IsControl wf refs) wf wf') :
    (scanEdges wf' config refs (selectedEdges wf' config refs)).transactions =
        (scanEdges wf config refs (selectedEdges wf config refs)).transactions ↔
      ∀ i, firstAt (transferAt wf config refs) i = firstAt (transferAt wf' config refs) i := by
  have htime : edgeTime wf' (selectedEdges wf' config refs) =
      edgeTime wf (selectedEdges wf config refs) := by
    funext i
    rw [edgeTime, edgeTime, selectedEdges_fills h]
    cases (selectedEdges wf config refs)[i]? with
    | none => rfl
    | some ti => exact h.timeAt ti
  have hbeyond : ∀ {wf : Backend} {i : ℕ}, (selectedEdges wf config refs).length ≤ i →
      transferAt wf config refs i = none := by
    intro wf i hi
    rw [transferAt, transfers, outcomeAt, List.getElem?_eq_none hi]
    rfl
  have htransfers : transfers (outcomeAt wf' config refs (selectedEdges wf config refs)) =
      transferAt wf' config refs := by
    funext i
    rw [transferAt, selectedEdges_fills h]
  have hown : transfers (outcomeAt wf config refs (selectedEdges wf config refs)) =
      transferAt wf config refs := rfl
  rw [scanEdges_transactions, scanEdges_transactions, htime, listed, listed,
    selectedEdges_fills h, htransfers, hown]
  constructor
  · intro hlisted i
    by_cases hi : i < (selectedEdges wf config refs).length
    · -- the times of the edges differ, so that a listed transfer has its place
      have hpairs := congrArg (List.map fun t : ApbTransaction => (t.time, t.toApbTransfer)) hlisted
      rw [List.map_filterMap, List.map_filterMap] at hpairs
      simp only [Option.map_map, Function.comp_def, transaction] at hpairs
      exact (filterMap_key_inj (nodup_edgeTime wf config refs) hpairs i (List.mem_range.2 hi)).symm
    · rw [firstAt_of_eq_none (hbeyond (not_lt.1 hi)), firstAt_of_eq_none (hbeyond ?_)]
      rw [selectedEdges_fills h]
      exact not_lt.1 hi
  · intro hfirst
    refine List.filterMap_congr fun i _ => ?_
    rw [hfirst i]

/-- On a complete waveform, the scan of a waveform with unknown control bits filled in lists the
same transactions exactly if the error responses of the transfers are the same, and the transfers
at edges with an unknown reset repeat the ones before. -/
theorem scanTransactions_eq_iff (wf wf' : Backend) (config : ApbConfig) (scan : ApbScan)
    (hfills : FillsControls wf config wf') (hscan : scanTransactions wf config = .ok scan)
    (hcomplete : scan.complete = true) :
    (∃ scan', scanTransactions wf' config = .ok scan' ∧ scan'.transactions = scan.transactions) ↔
      ∀ refs, loadRefs wf config = .ok refs → SameTransfers wf wf' config refs := by
  obtain ⟨refs, hrefs, hresult⟩ := exists_of_bind_eq_ok hscan
  obtain rfl := Except.ok.inj hresult
  have h := hfills refs hrefs
  have hscan' : scanTransactions wf' config =
      .ok (scanEdges wf' config refs (selectedEdges wf' config refs)) := by
    rw [scanTransactions, loadRefs_fills h, hrefs]
    rfl
  have hagree := @transactions_eq_iff wf wf' config refs h
  rw [firstAt_agree_iff (transferAt_isSome h)] at hagree
  have hsame : SameTransfers wf wf' config refs ↔
      (∃ scan', scanTransactions wf' config = .ok scan' ∧ scan'.transactions =
        (scanEdges wf config refs (selectedEdges wf config refs)).transactions) := by
    rw [hscan']
    constructor
    · intro hsame
      refine ⟨_, rfl, hagree.2 ⟨hsame.kept, ?_⟩⟩
      intro i transfer hnone htransfer
      exact hsame.repeated i transfer (resetUnknownAt_of_transferAt h hcomplete hnone htransfer)
        htransfer
    · rintro ⟨scan', hok, htransactions⟩
      obtain rfl := Except.ok.inj hok
      obtain ⟨hkept, hother⟩ := hagree.1 htransactions
      refine ⟨hkept, ?_⟩
      intro i transfer hunknown htransfer
      exact hother i transfer (transferAt_of_resetUnknownAt hunknown) htransfer
  rw [← hsame]
  constructor
  · intro hsame refs' hrefs'
    obtain rfl : refs = refs' := Except.ok.inj (hrefs.symm.trans hrefs')
    exact hsame
  · intro hall
    exact hall refs hrefs

end Scans

/-! ### A transfer during an unknown reset -/

/-- An access at time 5, with given values of the reset, PSEL and PWRITE. -/
def accessTable (reset psel pwrite : String) : List (String × List (ℕ × String)) :=
  [("clk", [(0, "0"), (1, "1")]), ("rst_n", [(0, reset)]), ("psel", [(0, psel)]),
    ("penable", [(0, "1")]), ("pwrite", [(0, pwrite)]), ("paddr", [(0, "1")]),
    ("pwdata", [(0, "1")]), ("prdata", [(0, "0")])]

lemma accessTimes_sorted : [0, 5].Pairwise (· < ·) := by decide

lemma accessTimes_lt : ∀ t ∈ [0, 5], t < 2 ^ 64 := by decide

lemma accessTable_changes (reset psel pwrite : String) : ∀ s ∈ accessTable reset psel pwrite,
    s.2.Pairwise (fun a b => a.1 ≤ b.1) ∧ ∀ c ∈ s.2, c.1 < [0, 5].length := by
  simp only [accessTable, List.forall_mem_cons, List.not_mem_nil, false_implies, implies_true,
    and_true]
  refine ⟨?_, ?_, ?_, ?_, ?_, ?_, ?_, ?_⟩ <;> simp

def accessWave (reset psel pwrite : String) : Backend :=
  Backend.ofTable [0, 5] (accessTable reset psel pwrite) accessTimes_sorted accessTimes_lt
    (accessTable_changes reset psel pwrite)

def accessConfig : ApbConfig where
  clock := "clk"
  edge := .posedge
  reset := "rst_n"
  resetPolarity := .activeLow
  paddr := "paddr"
  psel := "psel"
  penable := "penable"
  pwrite := "pwrite"
  pwdata := "pwdata"
  prdata := "prdata"

def accessRefs : Refs where
  clock := 1
  reset := 2
  paddr := 6
  psel := 3
  penable := 4
  pwrite := 5
  pwdata := 7
  prdata := 8
  pready := 0
  pslverr := 0
  addrWidth := 1
  writeWidth := 1
  readWidth := 1

lemma loadRefs_accessWave (reset psel pwrite : String) :
    loadRefs (accessWave reset psel pwrite) accessConfig = .ok accessRefs := by
  rfl

/-- Beyond the eight signals there are no data. -/
lemma signal_accessWave_of_le (reset psel pwrite : String) {ref : ℕ} (h : 9 ≤ ref) :
    (accessWave reset psel pwrite).signal ref = none := by
  refine dif_neg ?_
  rintro ⟨-, hlt⟩
  have hlength : (accessTable reset psel pwrite).length = 8 := rfl
  omega

/-- The waves with other values of the reset, PSEL and PWRITE. -/
lemma fillsControls_accessWave {reset reset' psel psel' pwrite pwrite' : String}
    (hreset : FillsText reset reset') (hpsel : FillsText psel psel')
    (hpwrite : FillsText pwrite pwrite') :
    FillsControls (accessWave reset psel pwrite) accessConfig
      (accessWave reset' psel' pwrite') := by
  intro refs hrefs
  obtain rfl := Except.ok.inj ((loadRefs_accessWave reset psel pwrite).symm.trans hrefs)
  have hone : ∀ {text text' : String}, FillsText text text' →
      List.Forall₂ FillsChange [⟨0, { text }⟩] [⟨0, { text := text' }⟩] := by
    intro text text' htext
    exact .cons ⟨rfl, rfl, rfl, htext⟩ .nil
  have hcontrol : ∀ {ref : ℕ}, ref ∈ [2, 3, 5] →
      IsControl (accessWave reset psel pwrite) accessRefs ref := by
    intro ref hmem
    fin_cases hmem
    · exact ⟨show 2 ≠ 1 by decide, 2, by decide, by decide, rfl⟩
    · exact ⟨show 3 ≠ 1 by decide, 3, by decide, by decide, rfl⟩
    · exact ⟨show 5 ≠ 1 by decide, 5, by decide, by decide, rfl⟩
  refine ⟨rfl, rfl, rfl, ?_, ?_, ?_⟩
  · intro ref
    rcases lt_or_ge ref 9 with hlt | hge
    · interval_cases ref <;> rfl
    · rw [signal_accessWave_of_le _ _ _ hge, signal_accessWave_of_le _ _ _ hge]
  · rintro ref ⟨-, control, hmem, hne, hsame⟩
    obtain rfl : ref = control := hsame
    fin_cases hmem
    · exact hone hreset
    · exact hone hpsel
    · exact hone (FillsText.refl "1")
    · exact hone hpwrite
    · exact absurd rfl hne
    · exact absurd rfl hne
  · intro ref hother
    rcases lt_or_ge ref 9 with hlt | hge
    · interval_cases ref
      · rfl
      · rfl
      · exact absurd (hcontrol (by decide)) hother
      · exact absurd (hcontrol (by decide)) hother
      · rfl
      · exact absurd (hcontrol (by decide)) hother
      · rfl
      · rfl
      · rfl
    · rw [Backend.changesOf, Backend.changesOf, signal_accessWave_of_le _ _ _ hge,
        signal_accessWave_of_le _ _ _ hge]

/-- With an unknown reset the scan is complete and empty, and with the reset released it lists
the access. -/
theorem unknownReset_not_same : ¬ ∀ (wf wf' : Backend) (config : ApbConfig) (scan : ApbScan),
    FillsControls wf config wf' → scanTransactions wf config = .ok scan → scan.complete = true →
    ∃ scan', scanTransactions wf' config = .ok scan' ∧
      scan'.transactions = scan.transactions := by
  intro hall
  have hfills : FillsControls (accessWave "x" "1" "1") accessConfig (accessWave "1" "1" "1") :=
    fillsControls_accessWave (.cons (Or.inr ⟨rfl, Or.inr rfl⟩) .nil) (FillsText.refl _)
      (FillsText.refl _)
  obtain ⟨scan', hscan', hsame⟩ := hall _ _ accessConfig _ hfills rfl (by decide +kernel)
  obtain rfl := Except.ok.inj hscan'
  have hempty : (scanEdges (accessWave "x" "1" "1") accessConfig accessRefs
      (selectedEdges (accessWave "x" "1" "1") accessConfig accessRefs)).transactions = [] := by
    decide +kernel
  have hlisted : (scanEdges (accessWave "1" "1" "1") accessConfig accessRefs
      (selectedEdges (accessWave "1" "1" "1") accessConfig accessRefs)).transactions ≠ [] := by
    decide +kernel
  exact hlisted (hsame.trans hempty)

/-- An unknown PWRITE does not matter while nothing is selected. -/
theorem unknownWrite_same :
    FillsControls (accessWave "1" "0" "x") accessConfig (accessWave "1" "0" "1") ∧
    ∃ scan, scanTransactions (accessWave "1" "0" "x") accessConfig = .ok scan ∧
      scan.complete = true ∧ ((∃ scan', scanTransactions (accessWave "1" "0" "1") accessConfig = .ok scan' ∧
        scan'.transactions = scan.transactions) ↔
      ∀ refs, loadRefs (accessWave "1" "0" "x") accessConfig = .ok refs →
        SameTransfers (accessWave "1" "0" "x") (accessWave "1" "0" "1") accessConfig refs) := by
  have hfills : FillsControls (accessWave "1" "0" "x") accessConfig (accessWave "1" "0" "1") :=
    fillsControls_accessWave (FillsText.refl _) (FillsText.refl _)
      (.cons (Or.inr ⟨rfl, Or.inr rfl⟩) .nil)
  have hcomplete : (scanEdges (accessWave "1" "0" "x") accessConfig accessRefs
      (selectedEdges (accessWave "1" "0" "x") accessConfig accessRefs)).complete = true := by
    decide +kernel
  exact ⟨hfills, _, rfl, hcomplete, scanTransactions_eq_iff _ _ _ _ hfills rfl hcomplete⟩

end XdebugFst.Apb
