import XdebugFst.Axi.Pairing
import XdebugFst.Axi.Scan

/-!
# When AXI transactions are causal

A transaction is causal when nothing of it happens after its end.  For a read this is
built into the merge by time.  For a write it is not: the responses of an id are given to
its writes by rank, whatever their times are, so that a response that comes before its
write, or a stray one at the start of the window, completes a write that starts later.

`NoEarlyResponse` is the condition on the handshakes under which this does not happen: a
response comes only when the writes of its id up to its rank have been issued.
-/

namespace XdebugFst.Axi

open Lib Waveform

/-- Nothing of the transaction happens after its end, a read's beats not before its start,
and the exported latency is the time from start to end. -/
structure Causal (txn : AxiTransaction) : Prop where
  start_le : txn.startTime ≤ txn.endTime
  data_le : ∀ e ∈ txn.dataEvents, e.time ≤ txn.endTime
  read_ge : txn.isWrite = false → ∀ e ∈ txn.dataEvents, txn.startTime ≤ e.time
  latency : (exportLatency txn : ℤ) = txn.endTime - txn.startTime

lemma exportLatency_eq {txn : AxiTransaction} (h : txn.startTime ≤ txn.endTime)
    (hlt : txn.endTime < 2 ^ 64) : (exportLatency txn : ℤ) = txn.endTime - txn.startTime := by
  have heq : exportLatency txn = txn.endTime - txn.startTime := by
    unfold exportLatency
    rw [Nat.add_comm, Nat.add_sub_assoc h, Nat.add_mod_left,
      Nat.mod_eq_of_lt ((Nat.sub_le _ _).trans_lt hlt)]
  rw [heq]
  omega

/-- The writes of an id, as AW handshakes with the WLAST handshakes that end their bursts. -/
def issuedWrites (ev : Events) (id : String) : List (AxiHandshakeEvent × AxiHandshakeEvent) :=
  (ev.aw.zip (ev.w.filter AxiHandshakeEvent.last)).filter fun write => write.1.id = id

/-- A response does not come before its write: when it is the one of rank `k` of its id, and
more than `k` writes of that id are issued at all, then more than `k` of them are issued no
later than the response. -/
def NoEarlyResponse (ev : Events) : Prop :=
  ∀ p < ev.b.length,
    let response := ev.b.getD p default
    let rank := (ev.b.take p).countP fun e => e.id = response.id
    rank < (issuedWrites ev response.id).length →
      rank < (issuedWrites ev response.id).countP fun write =>
        write.1.time ≤ response.time ∧ write.2.time ≤ response.time

instance (ev : Events) : Decidable (NoEarlyResponse ev) :=
  inferInstanceAs (Decidable (∀ _ < _, _ → _))

/-! ### Bursts and their last beats -/

lemma burstBeats_sublist (w : List AxiHandshakeEvent) (j : ℕ) : (burstBeats w j).Sublist w := by
  have hsub : (burstPositions w j).Sublist (List.range w.length) := List.filter_sublist
  have hall : (List.range w.length).map (fun p => w.getD p default) = w := by
    refine List.ext_getElem (by simp) fun p h₁ h₂ => ?_
    simp [h₂]
  have h := hsub.map fun p => w.getD p default
  rwa [hall] at h

/-- A complete burst ends with its WLAST beat. -/
lemma getLast?_burstBeats {w : List AxiHandshakeEvent} {j : ℕ} (h : j < burstCount w) :
    (burstBeats w j).getLast? = (w.filter AxiHandshakeEvent.last)[j]? := by
  induction w using List.reverseRecOn with
  | nil => simp [burstCount] at h
  | append_singleton w e ih =>
      have hlen : (w.filter AxiHandshakeEvent.last).length = burstCount w := by
        rw [burstCount, List.countP_eq_length_filter]
      rw [burstBeats_snoc, List.filter_append]
      rcases lt_or_ge j (burstCount w) with hj | hj
      · rw [if_neg (by omega), List.append_nil, ih hj, List.getElem?_append_left (by omega)]
      · -- then the new beat ends the burst
        have hcount : burstCount (w ++ [e]) = burstCount w + if e.last then 1 else 0 := by
          simp [burstCount, List.countP_singleton]
        cases he : e.last with
        | false => simp [he] at hcount; omega
        | true =>
            simp only [he, if_true] at hcount
            obtain rfl : j = burstCount w := by omega
            rw [if_pos rfl, List.getLast?_append, List.getElem?_append_right (by omega), hlen]
            simp [he]

/-- The beats of a burst are not later than its WLAST beat. -/
lemma burstBeats_time_le {w : List AxiHandshakeEvent} (hw : w.Pairwise fun a b => a.time ≤ b.time)
    {j : ℕ} {last : AxiHandshakeEvent} (hlast : (burstBeats w j).getLast? = some last)
    {e : AxiHandshakeEvent} (he : e ∈ burstBeats w j) : e.time ≤ last.time := by
  obtain ⟨init, hinit⟩ := List.getLast?_eq_some_iff.1 hlast
  have hs := hw.sublist (burstBeats_sublist w j)
  rw [hinit] at he hs
  rcases List.mem_append.1 he with he | he
  · exact (List.pairwise_append.1 hs).2.2 e he last (by simp)
  · rw [List.mem_singleton.1 he]

/-- The WLAST beat of a burst. -/
def lastBeat (ev : Events) (i : ℕ) : AxiHandshakeEvent :=
  (ev.w.filter AxiHandshakeEvent.last).getD i default

lemma issuedWrites_eq (ev : Events) (id : String) :
    issuedWrites ev id = (dataCompleteAws ev id).map fun i => (awAt ev.aw i, lastBeat ev i) := by
  have hlen : (ev.w.filter AxiHandshakeEvent.last).length = burstCount ev.w := by
    rw [burstCount, List.countP_eq_length_filter]
  have hzip : ev.aw.zip (ev.w.filter AxiHandshakeEvent.last) =
      (List.range (min ev.aw.length (burstCount ev.w))).map fun i =>
        (awAt ev.aw i, lastBeat ev i) := by
    refine List.ext_getElem (by simp [hlen]) fun i h₁ h₂ => ?_
    have hi : i < min ev.aw.length (burstCount ev.w) := by simpa using h₂
    have hl : i < (ev.w.filter AxiHandshakeEvent.last).length := by omega
    have ha : i < ev.aw.length := by omega
    simp [awAt, lastBeat, ha, hl]
  rw [issuedWrites, hzip, List.filter_map, dataCompleteAws]
  rfl

/-- Of a list on which a condition holds for an initial part, the elements that satisfy it. -/
lemma lt_countP_iff {α : Type} {p : α → Bool} {l : List α}
    (h : l.Pairwise fun a b => p b = true → p a = true) (k : ℕ) :
    k < l.countP p ↔ ∃ a, l[k]? = some a ∧ p a = true := by
  induction l generalizing k with
  | nil => simp
  | cons a l ih =>
      obtain ⟨ha, hl⟩ := List.pairwise_cons.1 h
      cases hpa : p a with
      | false =>
          have hnone : ∀ b ∈ l, p b = false := by
            intro b hb
            by_contra hpb
            have := ha b hb (by simpa using hpb)
            simp [hpa] at this
          have hzero : (a :: l).countP p = 0 := by
            rw [List.countP_eq_zero]
            intro b hb
            rcases List.mem_cons.1 hb with rfl | hb
            · simp [hpa]
            · simp [hnone b hb]
          rw [hzero]
          refine ⟨fun hk => absurd hk (Nat.not_lt_zero k), ?_⟩
          rintro ⟨b, hb, hpb⟩
          rcases List.mem_cons.1 (List.mem_of_getElem? hb) with rfl | hb
          · simp [hpa] at hpb
          · simp [hnone b hb] at hpb
      | true =>
          rw [List.countP_cons_of_pos hpa]
          cases k with
          | zero => simp [hpa]
          | succ k =>
              rw [Nat.succ_lt_succ_iff, ih hl k]
              simp

/-- A write is issued no later than a time. -/
def IssuedBy (ev : Events) (t i : ℕ) : Prop :=
  (awAt ev.aw i).time ≤ t ∧ ∀ e ∈ burstBeats ev.w i, e.time ≤ t

/-- The handshakes of a channel are in the order of their times. -/
structure InOrder (ev : Events) : Prop where
  aw : ev.aw.Pairwise fun a b => a.time ≤ b.time
  w : ev.w.Pairwise fun a b => a.time ≤ b.time

lemma mem_dataCompleteAws {ev : Events} {id : String} {i : ℕ} (h : i ∈ dataCompleteAws ev id) :
    i < ev.aw.length ∧ i < burstCount ev.w := by
  have := (List.mem_filter.1 h).1
  rw [List.mem_range] at this
  omega

lemma issuedBy_iff {ev : Events} (h : InOrder ev) {t i : ℕ} (hi : i < burstCount ev.w) :
    IssuedBy ev t i ↔ (awAt ev.aw i).time ≤ t ∧ (lastBeat ev i).time ≤ t := by
  have hlen : i < (ev.w.filter AxiHandshakeEvent.last).length := by
    rwa [← List.countP_eq_length_filter]
  have hlast : (burstBeats ev.w i).getLast? = some (lastBeat ev i) := by
    rw [getLast?_burstBeats hi, lastBeat, List.getD_eq_getElem _ _ hlen,
      List.getElem?_eq_getElem hlen]
  refine and_congr_right fun _ => ⟨fun hall => ?_, fun hle e he => ?_⟩
  · exact hall _ (List.mem_of_getLast? hlast)
  · exact (burstBeats_time_le h.w hlast he).trans hle

/-- The writes that are issued by a time are the first ones. -/
lemma pairwise_issued {ev : Events} (h : InOrder ev) (id : String) (t : ℕ) :
    (dataCompleteAws ev id).Pairwise fun i j =>
      decide ((awAt ev.aw j).time ≤ t ∧ (lastBeat ev j).time ≤ t) = true →
        decide ((awAt ev.aw i).time ≤ t ∧ (lastBeat ev i).time ≤ t) = true := by
  have hlt : (dataCompleteAws ev id).Pairwise (· < ·) :=
    List.pairwise_lt_range.sublist List.filter_sublist
  refine hlt.imp_of_mem fun {i j} hi hj hij hissued => ?_
  obtain ⟨hia, hib⟩ := mem_dataCompleteAws hi
  obtain ⟨hja, hjb⟩ := mem_dataCompleteAws hj
  rw [burstCount, List.countP_eq_length_filter] at hib hjb
  have haw := List.pairwise_iff_getElem.1 h.aw i j hia hja hij
  have hw := List.pairwise_iff_getElem.1 (h.w.filter AxiHandshakeEvent.last) i j hib hjb hij
  simp only [awAt, lastBeat, List.getD_eq_getElem _ _ hia, List.getD_eq_getElem _ _ hja,
    List.getD_eq_getElem _ _ hib, List.getD_eq_getElem _ _ hjb, decide_eq_true_eq] at hissued ⊢
  omega

/-- The condition in terms of the writes that the responses complete. -/
lemma noEarlyResponse_iff {ev : Events} (h : InOrder ev) :
    NoEarlyResponse ev ↔ ∀ p < ev.b.length, ∀ i, responseTo ev p = some i →
      IssuedBy ev (ev.b.getD p default).time i := by
  refine forall₂_congr fun p _ => ?_
  set response := ev.b.getD p default with hresponse
  have hrank : (ev.b.take p).countP (fun e => e.id = response.id) = responseRank ev p := rfl
  have hmono := pairwise_issued h response.id response.time
  simp only [hrank, issuedWrites_eq, List.length_map, List.countP_map]
  have hcount := lt_countP_iff hmono (responseRank ev p)
  simp only [Function.comp_def]
  rw [hcount, responseTo, ← hresponse]
  constructor
  · intro hall i hi
    have hlt : responseRank ev p < (dataCompleteAws ev response.id).length :=
      (List.getElem?_eq_some_iff.1 hi).1
    obtain ⟨j, hj, hissued⟩ := hall hlt
    obtain rfl : i = j := Option.some.inj (hi.symm.trans hj)
    exact (issuedBy_iff h (mem_dataCompleteAws (List.mem_of_getElem? hi)).2).2 (by simpa using hissued)
  · intro hall hlt
    refine ⟨_, List.getElem?_eq_getElem hlt, ?_⟩
    have hissued := hall _ (List.getElem?_eq_getElem hlt)
    have hb := (@mem_dataCompleteAws ev response.id _ (List.getElem_mem hlt)).2
    simpa using (issuedBy_iff h hb).1 hissued

/-! ### Causality of the assembled transactions -/

/-- All times fit into 64 bits. -/
def TimesFit (ev : Events) : Prop :=
  (∀ p, (ev.b.getD p default).time < 2 ^ 64) ∧ ∀ j, (ev.r.getD j default).time < 2 ^ 64

/-- A write with a response is causal when it is issued by the time of the response. -/
lemma causal_write_iff {ev : Events} (hfit : TimesFit ev) (i p index : ℕ) :
    Causal { (writeOrigin ev i (some p)).render ev with index := index } ↔
      IssuedBy ev (ev.b.getD p default).time i := by
  constructor
  · intro h
    exact ⟨h.start_le, h.data_le⟩
  · rintro ⟨haw, hw⟩
    refine ⟨haw, hw, fun hread => ?_, exportLatency_eq haw (hfit.1 p)⟩
    simp [writeOrigin, Origin.render, completeWrite, incompleteWrite, addressPhase] at hread

/-- A complete read is causal. -/
lemma causal_read {ev : Events} (hfit : TimesFit ev) {ar : ℕ} {rs : List ℕ} (hne : rs ≠ [])
    (hsorted : rs.Pairwise fun i j =>
      (ev.r.getD i default).time ≤ (ev.r.getD j default).time)
    (hstart : ∀ j ∈ rs, (ev.ar.getD ar default).time ≤ (ev.r.getD j default).time) (index : ℕ) :
    Causal { (Origin.read ar rs true).render ev with index := index } := by
  obtain ⟨init, last, rfl⟩ : ∃ init last, rs = init ++ [last] :=
    ⟨rs.dropLast, rs.getLast hne, (List.dropLast_append_getLast hne).symm⟩
  have hend : ({ (Origin.read ar (init ++ [last]) true).render ev with index := index } :
      AxiTransaction).endTime = (ev.r.getD last default).time := by
    simp [Origin.render, completeRead]
  have hdata : ({ (Origin.read ar (init ++ [last]) true).render ev with index := index } :
      AxiTransaction).dataEvents = (init ++ [last]).map fun j => ev.r.getD j default := by
    simp [Origin.render, completeRead, incompleteRead, addressPhase, Function.comp_def]
  have hstart' : ({ (Origin.read ar (init ++ [last]) true).render ev with index := index } :
      AxiTransaction).startTime = (ev.ar.getD ar default).time := by
    simp [Origin.render, completeRead, incompleteRead, addressPhase]
  have hle : (ev.ar.getD ar default).time ≤ (ev.r.getD last default).time :=
    hstart last (by simp)
  refine ⟨?_, ?_, ?_, ?_⟩
  · rw [hstart', hend]
    exact hle
  · rw [hdata, hend]
    intro e he
    obtain ⟨j, hj, rfl⟩ := List.mem_map.1 he
    rcases List.mem_append.1 hj with hj | hj
    · exact (List.pairwise_append.1 hsorted).2.2 j hj last (by simp)
    · rw [List.mem_singleton.1 hj]
  · rw [hdata, hstart']
    intro _ e he
    obtain ⟨j, hj, rfl⟩ := List.mem_map.1 he
    exact hstart j hj
  · exact exportLatency_eq (by rw [hstart', hend]; exact hle) (by rw [hend]; exact hfit.2 last)

lemma mem_sortTransactions {transactions : List AxiTransaction} {txn : AxiTransaction}
    (h : txn ∈ sortTransactions transactions) :
    ∃ txn' ∈ transactions, ∃ i, txn = { txn' with index := i } := by
  obtain ⟨⟨txn', i⟩, hmem, rfl⟩ := List.mem_map.1 h
  have hsorted := List.mem_of_getElem? (List.mk_mem_zipIdx_iff_getElem?.1 hmem)
  exact ⟨txn', (List.perm_insertionSort _ _).mem_iff.1 hsorted, i, rfl⟩

lemma sortTransactions_mem {transactions : List AxiTransaction} {txn : AxiTransaction}
    (h : txn ∈ transactions) : ∃ i, { txn with index := i } ∈ sortTransactions transactions := by
  have hsorted := (List.perm_insertionSort
    (fun a b : AxiTransaction => a.startTime ≤ b.startTime) _).mem_iff.2 h
  obtain ⟨i, hi, rfl⟩ := List.getElem_of_mem hsorted
  exact ⟨i, List.mem_map.2 ⟨(_, i), List.mk_mem_zipIdx_iff_getElem?.2 (by simp), rfl⟩⟩

/-- The complete transactions of an assembly are causal exactly when no response is early. -/
lemma forall_causal_iff (std : StdSort) {ev : Events} (h : InOrder ev) (hfit : TimesFit ev) :
    (∀ txn ∈ sortTransactions (assembleAxiTransactions std ev.aw ev.w ev.b ev.ar ev.r),
      txn.complete = true → Causal txn) ↔ NoEarlyResponse ev := by
  obtain ⟨os, hcons, hwrites, hreads⟩ := exists_origins std ev
  rw [noEarlyResponse_iff h]
  constructor
  · intro hall p hp i hi
    obtain ⟨index, hmem⟩ := render_mem_renderAll ev (hcons.responses p hp i hi)
    rw [← hcons.rendered] at hmem
    obtain ⟨index', hmem'⟩ := sortTransactions_mem hmem
    exact (causal_write_iff hfit i p index').1 (hall _ hmem' rfl)
  · intro hall txn htxn hcomplete
    obtain ⟨txn', htxn', index, rfl⟩ := mem_sortTransactions htxn
    rw [hcons.rendered] at htxn'
    obtain ⟨o, ho, index', rfl⟩ := mem_renderAll htxn'
    cases o with
    | write i ws b =>
        cases b with
        | none => simp [Origin.render, incompleteWrite, addressPhase] at hcomplete
        | some p =>
            obtain ⟨hp, hi⟩ := hwrites i ws p ho
            obtain rfl := hcons.wdata i ws _ ho
            exact (causal_write_iff hfit i p index).2 (hall p hp i hi)
    | orphan p => simp [Origin.render, orphanResponse] at hcomplete
    | read ar rs complete =>
        cases complete with
        | false => simp [Origin.render, incompleteRead, addressPhase] at hcomplete
        | true =>
            obtain ⟨-, -, hsorted, hstart, hne⟩ := hreads ar rs true ho
            exact causal_read hfit (hne rfl) hsorted hstart index

/-! ### The handshakes of a waveform -/

/-- The channel transfers at an edge: VALID and READY are known and high. -/
def transfers (wf : Backend) (loaded : Loaded) (config : AxiSignalMap) (refValid refReady ti : ℕ) :
    Bool :=
  let valid := readSignalAt wf loaded refValid ti (axiPoint config)
  let ready := readSignalAt wf loaded refReady ti (axiPoint config)
  knownBinary valid && knownBinary ready && knownHigh valid && knownHigh ready

/-- The transfers of a channel. -/
def channelTransfers (wf : Backend) (loaded : Loaded) (config : AxiSignalMap) (channel : Channel)
    (valid ready : String) (edges : List ℕ) : List AxiHandshakeEvent :=
  (edges.filter (transfers wf loaded config (wf.findSignal valid) (wf.findSignal ready))).map
    fun ti => { channel := channel, time := wf.timeAt ti, timeIdx := ti }

/-- The handshakes in a window of a waveform: the transfers of the five channels at the
active edges, with their payloads. -/
def handshakes (wf : Backend) (sm : AxiSignalMap) (loaded : Loaded) (first last : ℕ) : Events :=
  let loaded := controlLoaded wf sm loaded
  let edges := activeEdges wf sm loaded first last
  let aw := augmentAwEvents wf sm loaded
    (channelTransfers wf loaded sm .aw sm.awvalid sm.awready edges)
  let w := augmentWEvents wf sm aw.2 (channelTransfers wf loaded sm .w sm.wvalid sm.wready edges)
  let b := augmentBEvents wf sm w.2 (channelTransfers wf loaded sm .b sm.bvalid sm.bready edges)
  let ar := augmentArEvents wf sm b.2
    (channelTransfers wf loaded sm .ar sm.arvalid sm.arready edges)
  let r := augmentREvents wf sm ar.2 (channelTransfers wf loaded sm .r sm.rvalid sm.rready edges)
  { aw := aw.1, w := w.1, b := b.1, ar := ar.1, r := r.1 }

/-- The event without the start of its valid interval. -/
def AxiHandshakeEvent.erase (e : AxiHandshakeEvent) : AxiHandshakeEvent :=
  { e with validBeginTime := 0 }

/-- An edge adds its transfer, if there is one. -/
lemma channelStep_events (wf : Backend) (loaded : Loaded) (config : AxiSignalMap)
    (channel : Channel) (valid ready : String) (st : ChannelState) (ti : ℕ) :
    (channelStep wf loaded config channel (wf.findSignal valid) (wf.findSignal ready) st
      ti).events.map AxiHandshakeEvent.erase =
      st.events.map AxiHandshakeEvent.erase ++
        channelTransfers wf loaded config channel valid ready [ti] := by
  simp only [channelStep, channelTransfers]
  by_cases hknown : knownBinary (readSignalAt wf loaded (wf.findSignal valid) ti
      (axiPoint config)) = true ∧ knownBinary (readSignalAt wf loaded (wf.findSignal ready) ti
      (axiPoint config)) = true
  · rw [if_neg (by simp [hknown.1, hknown.2])]
    by_cases hhigh : knownHigh (readSignalAt wf loaded (wf.findSignal valid) ti
        (axiPoint config)) = true ∧ knownHigh (readSignalAt wf loaded (wf.findSignal ready) ti
        (axiPoint config)) = true
    · rw [if_pos (by simp [hhigh.1, hhigh.2])]
      simp [transfers, hknown.1, hknown.2, hhigh.1, hhigh.2, AxiHandshakeEvent.erase]
    · rw [if_neg (by simpa using hhigh)]
      have hnone : transfers wf loaded config (wf.findSignal valid) (wf.findSignal ready) ti =
          false := by
        simp only [transfers, hknown.1, hknown.2, Bool.true_and]
        simpa using hhigh
      simp [hnone]
  · -- an unknown bit of either signal is not a transfer
    rw [not_and_or, Bool.not_eq_true, Bool.not_eq_true] at hknown
    rw [if_pos (by simpa using hknown)]
    have hnone : transfers wf loaded config (wf.findSignal valid) (wf.findSignal ready) ti =
        false := by
      rcases hknown with h | h <;> simp [transfers, h]
    simp [hnone]

/-- The loop over the active edges finds the transfers of the channel. -/
lemma scanChannelHandshakes_events (wf : Backend) (loaded : Loaded) (config : AxiSignalMap)
    (channel : Channel) (valid ready : String) (edges : List ℕ) (complete : Bool) :
    (scanChannelHandshakes wf loaded config channel (wf.findSignal valid) (wf.findSignal ready)
      edges complete).events.map AxiHandshakeEvent.erase =
      channelTransfers wf loaded config channel valid ready edges := by
  have happ : ∀ (l l' : List ℕ), channelTransfers wf loaded config channel valid ready (l ++ l') =
      channelTransfers wf loaded config channel valid ready l ++
        channelTransfers wf loaded config channel valid ready l' := by
    intro l l'
    simp [channelTransfers]
  unfold scanChannelHandshakes
  induction edges using List.reverseRecOn with
  | nil => rfl
  | append_singleton edges ti ih =>
      rw [List.foldl_append, List.foldl_cons, List.foldl_nil, channelStep_events, ih, happ]

lemma augmentAddressEvents_erase (wf : Backend) (config : AxiSignalMap)
    (id addr len size burst : String) (loaded : Loaded) (events : List AxiHandshakeEvent) :
    augmentAddressEvents wf config id addr len size burst loaded
        (events.map AxiHandshakeEvent.erase) =
      ((augmentAddressEvents wf config id addr len size burst loaded events).1.map
          AxiHandshakeEvent.erase,
        (augmentAddressEvents wf config id addr len size burst loaded events).2) := by
  unfold augmentAddressEvents
  dsimp only
  split_ifs
  · rfl
  · simp [AxiHandshakeEvent.erase, Function.comp_def]

lemma augmentWEvents_erase (wf : Backend) (sm : AxiSignalMap) (loaded : Loaded)
    (events : List AxiHandshakeEvent) :
    augmentWEvents wf sm loaded (events.map AxiHandshakeEvent.erase) =
      ((augmentWEvents wf sm loaded events).1.map AxiHandshakeEvent.erase,
        (augmentWEvents wf sm loaded events).2) := by
  unfold augmentWEvents
  dsimp only
  by_cases h : wf.findSignal sm.wdata = 0
  · rw [if_pos h, if_pos h]
  · rw [if_neg h, if_neg h]
    simp [AxiHandshakeEvent.erase, Function.comp_def]

lemma augmentBEvents_erase (wf : Backend) (sm : AxiSignalMap) (loaded : Loaded)
    (events : List AxiHandshakeEvent) :
    augmentBEvents wf sm loaded (events.map AxiHandshakeEvent.erase) =
      ((augmentBEvents wf sm loaded events).1.map AxiHandshakeEvent.erase,
        (augmentBEvents wf sm loaded events).2) := by
  unfold augmentBEvents
  dsimp only
  split_ifs
  · rfl
  · simp [AxiHandshakeEvent.erase, Function.comp_def]

lemma augmentREvents_erase (wf : Backend) (sm : AxiSignalMap) (loaded : Loaded)
    (events : List AxiHandshakeEvent) :
    augmentREvents wf sm loaded (events.map AxiHandshakeEvent.erase) =
      ((augmentREvents wf sm loaded events).1.map AxiHandshakeEvent.erase,
        (augmentREvents wf sm loaded events).2) := by
  unfold augmentREvents
  dsimp only
  by_cases h : wf.findSignal sm.rid = 0
  · rw [if_pos h, if_pos h]
  · rw [if_neg h, if_neg h]
    simp [AxiHandshakeEvent.erase, Function.comp_def]

/-- The events without the starts of their valid intervals. -/
def Events.erase (ev : Events) : Events :=
  { aw := ev.aw.map AxiHandshakeEvent.erase
    w := ev.w.map AxiHandshakeEvent.erase
    b := ev.b.map AxiHandshakeEvent.erase
    ar := ev.ar.map AxiHandshakeEvent.erase
    r := ev.r.map AxiHandshakeEvent.erase }

/-- The lists of `scan_axi` as one value. -/
def scanned (wf : Backend) (sm : AxiSignalMap) (loaded : Loaded) (first last : ℕ) : Events :=
  let lists := (scanEvents wf sm loaded first last).1
  { aw := lists.1, w := lists.2.1, b := lists.2.2.1, ar := lists.2.2.2.1, r := lists.2.2.2.2 }

/-- The scan finds the handshakes of the waveform. -/
lemma scanned_erase (wf : Backend) (sm : AxiSignalMap) (loaded : Loaded) (first last : ℕ) :
    (scanned wf sm loaded first last).erase = handshakes wf sm loaded first last := by
  set l := controlLoaded wf sm loaded with hl
  set edges := activeEdges wf sm l first last with hedges
  set aw := scanChannelHandshakes wf l sm .aw (wf.findSignal sm.awvalid)
    (wf.findSignal sm.awready) edges (resetComplete wf sm l first last) with haw
  set w := scanChannelHandshakes wf l sm .w (wf.findSignal sm.wvalid)
    (wf.findSignal sm.wready) edges aw.scanComplete with hw
  set b := scanChannelHandshakes wf l sm .b (wf.findSignal sm.bvalid)
    (wf.findSignal sm.bready) edges w.scanComplete with hb
  set ar := scanChannelHandshakes wf l sm .ar (wf.findSignal sm.arvalid)
    (wf.findSignal sm.arready) edges b.scanComplete with har
  set r := scanChannelHandshakes wf l sm .r (wf.findSignal sm.rvalid)
    (wf.findSignal sm.rready) edges ar.scanComplete with hr
  have haw' : _ = aw.events.map AxiHandshakeEvent.erase :=
    (scanChannelHandshakes_events wf l sm .aw sm.awvalid sm.awready edges _).symm
  have hw' : _ = w.events.map AxiHandshakeEvent.erase :=
    (scanChannelHandshakes_events wf l sm .w sm.wvalid sm.wready edges _).symm
  have hb' : _ = b.events.map AxiHandshakeEvent.erase :=
    (scanChannelHandshakes_events wf l sm .b sm.bvalid sm.bready edges _).symm
  have har' : _ = ar.events.map AxiHandshakeEvent.erase :=
    (scanChannelHandshakes_events wf l sm .ar sm.arvalid sm.arready edges _).symm
  have hr' : _ = r.events.map AxiHandshakeEvent.erase :=
    (scanChannelHandshakes_events wf l sm .r sm.rvalid sm.rready edges _).symm
  simp only [scanned, scanEvents, handshakes, Events.erase, ← hl, ← hedges, ← haw, ← hw, ← hb,
    ← har, ← hr, haw', hw', hb', har', hr', augmentAwEvents, augmentArEvents,
    augmentAddressEvents_erase, augmentWEvents_erase, augmentBEvents_erase, augmentREvents_erase]

/-! ### The order of the handshakes -/

/-- The selected edges are indices of the clock in increasing order. -/
lemma selectEdges_spec (wf : Backend) (loaded : Loaded) (config : AxiSignalMap)
    (ref first last : ℕ) (previous : Option ℕ) (l : List ℕ) (hl : l.Pairwise (· ≤ ·))
    (hprev : ∀ q ∈ previous, ∀ ti ∈ l, q ≤ ti) :
    (selectEdges wf loaded config ref first last previous l).Pairwise (· < ·) ∧
      ∀ ti ∈ selectEdges wf loaded config ref first last previous l,
        ti ∈ l ∧ ∀ q ∈ previous, q < ti := by
  induction l generalizing previous with
  | nil => simp [selectEdges]
  | cons ti l ih =>
      obtain ⟨hti, hl'⟩ := List.pairwise_cons.1 hl
      have hnext : ∀ q ∈ some ti, ∀ x ∈ l, q ≤ x := fun q hq x hx => by
        cases hq
        exact hti x hx
      have hprev' : ∀ q ∈ previous, ∀ x ∈ l, q ≤ x := fun q hq x hx =>
        hprev q hq x (List.mem_cons_of_mem _ hx)
      obtain ⟨hsorted, hmem⟩ := ih (some ti) hl' hnext
      -- an edge behind `ti` lies behind everything before it
      have hbehind : ∀ x ∈ selectEdges wf loaded config ref first last (some ti) l,
          x ∈ ti :: l ∧ ∀ q ∈ previous, q < x := fun x hx =>
        ⟨List.mem_cons_of_mem _ (hmem x hx).1, fun q hq =>
          (hprev q hq ti List.mem_cons_self).trans_lt ((hmem x hx).2 ti rfl)⟩
      rw [selectEdges]
      dsimp only
      split_ifs with h₁
      · obtain ⟨hs, hm⟩ := ih previous hl' hprev'
        exact ⟨hs, fun x hx => ⟨List.mem_cons_of_mem _ (hm x hx).1, (hm x hx).2⟩⟩
      · exact ⟨hsorted, hbehind⟩
      · refine ⟨List.pairwise_cons.2 ⟨fun x hx => (hmem x hx).2 ti rfl, hsorted⟩, fun x hx => ?_⟩
        rcases List.mem_cons.1 hx with rfl | hx
        · refine ⟨List.mem_cons_self, fun q hq => lt_of_le_of_ne (hprev q hq x List.mem_cons_self) ?_⟩
          rintro rfl
          exact h₁ hq
        · exact hbehind x hx
      · exact ⟨hsorted, hbehind⟩

lemma activeEdges_spec (wf : Backend) (sm : AxiSignalMap) (loaded : Loaded) (first last : ℕ) :
    (activeEdges wf sm loaded first last).Pairwise (· < ·) ∧
      ∀ ti ∈ activeEdges wf sm loaded first last, ti < wf.timeTable.length := by
  have hselected : (selectedClockEdges wf loaded sm first last).Pairwise (· < ·) ∧
      ∀ ti ∈ selectedClockEdges wf loaded sm first last, ti < wf.timeTable.length := by
    unfold selectedClockEdges
    dsimp only
    split_ifs
    · simp
    · obtain ⟨hs, hm⟩ := selectEdges_spec wf loaded sm (wf.findSignal sm.aclk) first last none _
        (Backend.timeIndicesOf_sorted _) (by simp)
      exact ⟨hs, fun ti hti => Backend.timeIndicesOf_lt (hm ti hti).1⟩
  exact ⟨hselected.1.filter _, fun ti hti => hselected.2 ti (List.mem_filter.1 hti).1⟩

/-- The events are in the order of their times, which are times of the waveform. -/
structure WaveTimes (wf : Backend) (events : List AxiHandshakeEvent) : Prop where
  sorted : events.Pairwise fun a b => a.time < b.time
  times : ∀ e ∈ events, ∃ ti, e.time = wf.timeAt ti

lemma WaveTimes.map {wf : Backend} {events : List AxiHandshakeEvent} (h : WaveTimes wf events)
    {f : AxiHandshakeEvent → AxiHandshakeEvent} (hf : ∀ e, (f e).time = e.time) :
    WaveTimes wf (events.map f) := by
  refine ⟨List.pairwise_map.2 (h.sorted.imp fun {a b} hab => by rwa [hf, hf]), fun e he => ?_⟩
  obtain ⟨e', he', rfl⟩ := List.mem_map.1 he
  rw [hf]
  exact h.times e' he'

lemma WaveTimes.getD_lt {wf : Backend} {events : List AxiHandshakeEvent} (h : WaveTimes wf events)
    (p : ℕ) : (events.getD p default).time < 2 ^ 64 := by
  rcases lt_or_ge p events.length with hp | hp
  · rw [List.getD_eq_getElem _ _ hp]
    obtain ⟨ti, hti⟩ := h.times _ (List.getElem_mem hp)
    rw [hti]
    exact Backend.timeAt_lt_two_pow ti
  · rw [List.getD_eq_default _ _ hp]
    exact Nat.two_pow_pos 64

lemma channelTransfers_waveTimes (wf : Backend) (loaded : Loaded) (sm : AxiSignalMap)
    (channel : Channel) (valid ready : String) {edges : List ℕ} (hs : edges.Pairwise (· < ·))
    (hlt : ∀ ti ∈ edges, ti < wf.timeTable.length) :
    WaveTimes wf (channelTransfers wf loaded sm channel valid ready edges) := by
  refine ⟨List.pairwise_map.2 ?_, fun e he => ?_⟩
  · refine (hs.filter _).imp_of_mem fun {i j} _ hj hij => ?_
    exact Backend.timeAt_lt_of_lt hij (hlt j (List.mem_filter.1 hj).1)
  · obtain ⟨ti, -, rfl⟩ := List.mem_map.1 he
    exact ⟨ti, rfl⟩

lemma WaveTimes.augmentAddressEvents {wf : Backend} {events : List AxiHandshakeEvent}
    (h : WaveTimes wf events) (config : AxiSignalMap) (id addr len size burst : String)
    (loaded : Loaded) :
    WaveTimes wf (augmentAddressEvents wf config id addr len size burst loaded events).1 := by
  unfold Axi.augmentAddressEvents
  dsimp only
  split_ifs
  · exact h
  · exact h.map fun _ => rfl

lemma WaveTimes.augmentWEvents {wf : Backend} {events : List AxiHandshakeEvent}
    (h : WaveTimes wf events) (sm : AxiSignalMap) (loaded : Loaded) :
    WaveTimes wf (augmentWEvents wf sm loaded events).1 := by
  unfold Axi.augmentWEvents
  dsimp only
  by_cases hd : wf.findSignal sm.wdata = 0
  · rw [if_pos hd]
    exact h
  · rw [if_neg hd]
    exact h.map fun _ => rfl

lemma WaveTimes.augmentBEvents {wf : Backend} {events : List AxiHandshakeEvent}
    (h : WaveTimes wf events) (sm : AxiSignalMap) (loaded : Loaded) :
    WaveTimes wf (augmentBEvents wf sm loaded events).1 := by
  unfold Axi.augmentBEvents
  dsimp only
  split_ifs
  · exact h
  · exact h.map fun _ => rfl

lemma WaveTimes.augmentREvents {wf : Backend} {events : List AxiHandshakeEvent}
    (h : WaveTimes wf events) (sm : AxiSignalMap) (loaded : Loaded) :
    WaveTimes wf (augmentREvents wf sm loaded events).1 := by
  unfold Axi.augmentREvents
  dsimp only
  by_cases hd : wf.findSignal sm.rid = 0
  · rw [if_pos hd]
    exact h
  · rw [if_neg hd]
    exact h.map fun _ => rfl

@[simp] lemma AxiHandshakeEvent.erase_time (e : AxiHandshakeEvent) : e.erase.time = e.time := rfl

@[simp] lemma AxiHandshakeEvent.erase_id (e : AxiHandshakeEvent) : e.erase.id = e.id := rfl

lemma getD_map_erase (l : List AxiHandshakeEvent) (p : ℕ) :
    (l.map AxiHandshakeEvent.erase).getD p default = (l.getD p default).erase := by
  simp only [List.getD_eq_getElem?_getD, List.getElem?_map]
  cases l[p]? <;> rfl

lemma issuedWrites_erase (ev : Events) (id : String) :
    issuedWrites ev.erase id =
      (issuedWrites ev id).map (Prod.map AxiHandshakeEvent.erase AxiHandshakeEvent.erase) := by
  have hlast : (ev.w.map AxiHandshakeEvent.erase).filter AxiHandshakeEvent.last =
      (ev.w.filter AxiHandshakeEvent.last).map AxiHandshakeEvent.erase := by
    rw [List.filter_map]
    rfl
  simp only [issuedWrites, Events.erase, hlast, List.zip_map, List.filter_map]
  rfl

/-- The condition does not look at the starts of the valid intervals. -/
lemma noEarlyResponse_erase (ev : Events) : NoEarlyResponse ev.erase ↔ NoEarlyResponse ev := by
  have hlen : ev.erase.b.length = ev.b.length := by simp [Events.erase]
  have hb : ∀ p, ev.erase.b.getD p default = (ev.b.getD p default).erase :=
    fun p => getD_map_erase ev.b p
  have htake : ∀ p, ev.erase.b.take p = (ev.b.take p).map AxiHandshakeEvent.erase :=
    fun p => List.map_take.symm
  simp only [NoEarlyResponse, hlen, hb, htake, issuedWrites_erase, List.countP_map,
    List.length_map, Function.comp_def, AxiHandshakeEvent.erase_id, AxiHandshakeEvent.erase_time,
    Prod.map_fst, Prod.map_snd]
  rfl

/-- The handshakes of a waveform are in order. -/
lemma handshakes_waveTimes (wf : Backend) (sm : AxiSignalMap) (loaded : Loaded)
    (first last : ℕ) :
    WaveTimes wf (handshakes wf sm loaded first last).aw ∧
      WaveTimes wf (handshakes wf sm loaded first last).w ∧
      WaveTimes wf (handshakes wf sm loaded first last).b ∧
      WaveTimes wf (handshakes wf sm loaded first last).r := by
  obtain ⟨hs, hlt⟩ := activeEdges_spec wf sm (controlLoaded wf sm loaded) first last
  have h := fun channel valid ready => channelTransfers_waveTimes wf (controlLoaded wf sm loaded)
    sm channel valid ready hs hlt
  exact ⟨(h _ _ _).augmentAddressEvents _ _ _ _ _ _ _, (h _ _ _).augmentWEvents _ _,
    (h _ _ _).augmentBEvents _ _, (h _ _ _).augmentREvents _ _⟩

lemma WaveTimes.of_erase {wf : Backend} {events : List AxiHandshakeEvent}
    (h : WaveTimes wf (events.map AxiHandshakeEvent.erase)) : WaveTimes wf events := by
  refine ⟨(List.pairwise_map (f := AxiHandshakeEvent.erase)).1 h.sorted, fun e he => ?_⟩
  simpa using h.times e.erase (List.mem_map_of_mem he)

/-- The complete transactions of a scan are causal exactly when the waveform has no early
response. -/
theorem scanAxi_causal_iff (std : StdSort) (wf : Backend) (sm : AxiSignalMap) (hardLimit : ℕ)
    (loaded : Loaded) (tBegin tEnd : ℕ) {result : AxiScanResult}
    (h : scanAxi std wf sm hardLimit loaded tBegin tEnd = .ok result) :
    (∀ txn ∈ result.transactions, txn.complete = true → Causal txn) ↔
      NoEarlyResponse (handshakes wf sm loaded tBegin tEnd) := by
  set ev := scanned wf sm loaded tBegin tEnd with hev
  have htxns : result.transactions =
      sortTransactions (assembleAxiTransactions std ev.aw ev.w ev.b ev.ar ev.r) := by
    unfold scanAxi at h
    split_ifs at h
    split at h
    · cases h
    · split at h
      · cases h
      · cases h
        rfl
  obtain ⟨haw, hw, hb, hr⟩ := handshakes_waveTimes wf sm loaded tBegin tEnd
  rw [← scanned_erase, ← hev] at haw hw hb hr ⊢
  have horder : InOrder ev :=
    ⟨haw.of_erase.sorted.imp le_of_lt, hw.of_erase.sorted.imp le_of_lt⟩
  rw [htxns, noEarlyResponse_erase]
  exact forall_causal_iff std horder ⟨hb.of_erase.getD_lt, hr.of_erase.getD_lt⟩

/-! ### A response before its write -/

/-- A clock with falling edges at 5 and 15, a response at the first of them, and an address
with its data at the second. -/
def earlyWave : Backend :=
  .ofTable [0, 5, 10, 15]
    [("clk", [(0, "1"), (1, "0"), (2, "1"), (3, "0")]), ("one", [(0, "1")]),
      ("zero", [(0, "0")]), ("late", [(0, "0"), (2, "1")]), ("early", [(0, "1"), (2, "0")])]
    (by decide) (by decide) (by decide)

/-- A configuration over the signals of `earlyWave`. -/
def earlyConfig : AxiSignalMap where
  name := "axi0"
  aclk := "clk"
  aresetn := "one"
  resetPolarity := .activeLow
  awid := "zero"
  awaddr := "zero"
  awlen := "zero"
  awsize := "zero"
  awburst := "zero"
  awvalid := "late"
  awready := "one"
  wdata := "zero"
  wstrb := "one"
  wlast := "one"
  wvalid := "late"
  wready := "one"
  bid := "zero"
  bresp := "zero"
  bvalid := "early"
  bready := "one"
  arid := "zero"
  araddr := "zero"
  arlen := "zero"
  arsize := "zero"
  arburst := "zero"
  arvalid := "zero"
  arready := "zero"
  rid := "zero"
  rdata := "zero"
  rresp := "zero"
  rlast := "zero"
  rvalid := "zero"
  rready := "zero"

/-- A sort by insertion. -/
def insertionSort : StdSort where
  sort l := l.insertionSort fun a b => a.time ≤ b.time
  perm l := List.perm_insertionSort _ _
  sorted l := by
    have : Std.Total fun a b : REvent => a.time ≤ b.time := ⟨fun a b => le_total _ _⟩
    have : IsTrans REvent fun a b => a.time ≤ b.time := ⟨fun a b c => le_trans⟩
    exact List.pairwise_insertionSort _ _

/-- A result has a complete transaction that ends before it starts, with this latency. -/
def hasWrapped (latency : ℕ) : Except AxiScanError AxiScanResult → Bool
  | .ok result => result.transactions.any fun txn =>
      txn.complete && txn.endTime < txn.startTime && exportLatency txn = latency
  | .error _ => false

lemma earlyWave_hasWrapped :
    hasWrapped (2 ^ 64 - 10) (scanAxi insertionSort earlyWave earlyConfig 0 [] 0 15) = true := by
  decide +kernel

/-- The response at 5 completes the write that starts at 15, and the exported latency
wraps. -/
theorem earlyWave_not_causal :
    ∃ result, scanAxi insertionSort earlyWave earlyConfig 0 [] 0 15 = .ok result ∧
      ∃ txn ∈ result.transactions, txn.complete = true ∧ ¬ Causal txn ∧
        exportLatency txn = 2 ^ 64 - 10 := by
  have h := earlyWave_hasWrapped
  cases hscan : scanAxi insertionSort earlyWave earlyConfig 0 [] 0 15 with
  | error e => simp [hscan, hasWrapped] at h
  | ok result =>
      simp only [hscan, hasWrapped, List.any_eq_true, Bool.and_eq_true, decide_eq_true_eq] at h
      obtain ⟨txn, hmem, ⟨hcomplete, hlt⟩, hlatency⟩ := h
      exact ⟨result, rfl, txn, hmem, hcomplete, fun hc => absurd hc.start_le (by omega), hlatency⟩

/-- The equivalence at that waveform, where both sides fail. -/
theorem earlyWave_causal_iff :
    ∃ result, scanAxi insertionSort earlyWave earlyConfig 0 [] 0 15 = .ok result ∧
      ((∀ txn ∈ result.transactions, txn.complete = true → Causal txn) ↔
        NoEarlyResponse (handshakes earlyWave earlyConfig [] 0 15)) := by
  have h := earlyWave_hasWrapped
  cases hscan : scanAxi insertionSort earlyWave earlyConfig 0 [] 0 15 with
  | error e => simp [hscan, hasWrapped] at h
  | ok result => exact ⟨result, rfl, scanAxi_causal_iff _ _ _ _ _ _ _ hscan⟩

end XdebugFst.Axi
