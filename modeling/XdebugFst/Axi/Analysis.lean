import Mathlib
import XdebugFst.Axi.Cursor

/-!
# What axi.analysis reports

The summary of `axi.analysis` counts the handshakes of the five channels, the complete and the
incomplete transactions, and has counters for the handshakes that belong to no transaction. Those
last counters are the constant zero. The assembly however drops W beats behind the last AW
request and R beats without an open read, and turns a B response without a write into a
transaction of its own, so the summary adds up exactly when none of this happens.
-/

namespace XdebugFst.Axi

open Lib Waveform

/-! ### The summary -/

/-- `channel_handshakes`. -/
structure ChannelHandshakes where
  aw : ℕ
  w : ℕ
  b : ℕ
  ar : ℕ
  r : ℕ
  deriving DecidableEq, Repr

/-- The counters of `common_summary`. -/
structure AnalysisSummary where
  completedReadCount : ℕ
  completedWriteCount : ℕ
  incompleteReadCount : ℕ
  incompleteWriteCount : ℕ
  bufferedWBeatCount : ℕ
  bufferedWBurstCount : ℕ
  orphanWBeatCount : ℕ
  orphanBCount : ℕ
  orphanRBeatCount : ℕ
  responseDependencyViolationCount : ℕ
  channelHandshakes : ChannelHandshakes
  deriving DecidableEq, Repr

/-- The transactions that the direction of a request leaves out are skipped. -/
def selectsDirection (direction : String) (txn : AxiTransaction) : Bool :=
  direction = "all" || decide (direction = "write") = txn.isWrite

/-- The transactions of one kind that a request counts. -/
def countSelected (direction : String) (isWrite complete : Bool)
    (transactions : List AxiTransaction) : ℕ :=
  transactions.countP fun txn =>
    selectsDirection direction txn && txn.isWrite = isWrite && txn.complete = complete

/-- `common_summary`. -/
def commonSummary (direction : String) (result : AxiScanResult) : AnalysisSummary where
  completedReadCount := countSelected direction false true result.transactions
  completedWriteCount := countSelected direction true true result.transactions
  incompleteReadCount := countSelected direction false false result.transactions
  incompleteWriteCount := countSelected direction true false result.transactions
  bufferedWBeatCount := 0
  bufferedWBurstCount := 0
  orphanWBeatCount := 0
  orphanBCount := 0
  orphanRBeatCount := 0
  responseDependencyViolationCount := 0
  channelHandshakes :=
    { aw := result.awEvents.length
      w := result.wEvents.length
      b := result.bEvents.length
      ar := result.arEvents.length
      r := result.rEvents.length }

/-! ### The accounts -/

/-- The data beats of the transactions of one direction. -/
def dataBeatCount (isWrite : Bool) (transactions : List AxiTransaction) : ℕ :=
  (transactions.map fun txn => if txn.isWrite = isWrite then txn.dataBeats.length else 0).sum

/-- The writes with a response. -/
def completeWriteCount (transactions : List AxiTransaction) : ℕ :=
  transactions.countP fun txn => txn.isWrite && txn.complete

/-- The handshakes of the summary are those of the transactions and those that it reports to be
left over. -/
structure AccountsForHandshakes (result : AxiScanResult) (summary : AnalysisSummary) : Prop where
  w : summary.channelHandshakes.w = dataBeatCount true result.transactions +
    (summary.orphanWBeatCount + summary.bufferedWBeatCount)
  r : summary.channelHandshakes.r = dataBeatCount false result.transactions +
    summary.orphanRBeatCount
  b : summary.channelHandshakes.b = completeWriteCount result.transactions + summary.orphanBCount

/-- The AR requests of an id among merged events. -/
def arCount (ev : Events) (id : String) (merged : List REvent) : ℕ :=
  merged.countP fun re => re.kind = .ar && (ev.ar.getD re.idx default).id = id

/-- The last R beats of an id among merged events. -/
def rlastCount (ev : Events) (id : String) (merged : List REvent) : ℕ :=
  merged.countP fun re => re.kind = .r && (ev.r.getD re.idx default).id = id &&
    (ev.r.getD re.idx default).last

/-- Every R beat of a merge finds an open read: more reads of its id were requested before it
than were ended. -/
def ReadsOpen (ev : Events) (merged : List REvent) : Prop :=
  ∀ before re after, merged = before ++ re :: after → re.kind = .r →
    rlastCount ev (ev.r.getD re.idx default).id before <
      arCount ev (ev.r.getD re.idx default).id before

/-- No handshake is left over: every W beat belongs to a burst that has an AW request, every B
response has a write whose burst is complete, and every R beat finds an open read. -/
structure NoneLeftOver (std : StdSort) (ev : Events) : Prop where
  w : ∀ p < ev.w.length, burstNumber ev.w p < ev.aw.length
  b : ∀ p < ev.b.length,
    responseRank ev p < (dataCompleteAws ev (ev.b.getD p default).id).length
  r : ReadsOpen ev (std.sort (revents ev.ar ev.r))

/-- The handshakes that a scan has found. -/
def AxiScanResult.events (result : AxiScanResult) : Events where
  aw := result.awEvents
  w := result.wEvents
  b := result.bEvents
  ar := result.arEvents
  r := result.rEvents

/-! ### Sums over transactions -/

section Sums

variable {β : Type}

/-- A quantity that does not look at the index of a transaction. -/
def Indexless (f : AxiTransaction → β) : Prop := ∀ txn i, f { txn with index := i } = f txn

lemma map_renderAll {f : AxiTransaction → β} (hf : Indexless f) (ev : Events)
    (os : List Origin) : (renderAll ev os).map f = os.map fun o => f (o.render ev) := by
  rw [renderAll, List.map_map]
  conv_rhs => rw [← List.zipIdx_map_fst 0 os, List.map_map]
  refine List.map_congr_left fun o _ => ?_
  exact hf _ _

lemma map_sortTransactions_perm {f : AxiTransaction → β} (hf : Indexless f)
    (transactions : List AxiTransaction) :
    ((sortTransactions transactions).map f).Perm (transactions.map f) := by
  have hmap : (sortTransactions transactions).map f =
      (transactions.insertionSort fun a b => a.startTime ≤ b.startTime).map f := by
    rw [sortTransactions, List.map_map]
    conv_rhs => rw [← List.zipIdx_map_fst 0 (List.insertionSort _ _), List.map_map]
    refine List.map_congr_left fun o _ => ?_
    exact hf _ _
  rw [hmap]
  exact (List.perm_insertionSort _ _).map f

lemma dataBeatCount_indexless (isWrite : Bool) : Indexless fun txn : AxiTransaction =>
    if txn.isWrite = isWrite then txn.dataBeats.length else 0 := fun _ _ => rfl

lemma dataBeatCount_sortTransactions (isWrite : Bool) (transactions : List AxiTransaction) :
    dataBeatCount isWrite (sortTransactions transactions) =
      dataBeatCount isWrite transactions :=
  (map_sortTransactions_perm (dataBeatCount_indexless isWrite) transactions).sum_eq

lemma completeWriteCount_eq_count (transactions : List AxiTransaction) :
    completeWriteCount transactions =
      (transactions.map fun txn => txn.isWrite && txn.complete).count true := by
  rw [completeWriteCount, List.count, List.countP_map]
  refine List.countP_congr fun txn _ => ?_
  simp

lemma completeWriteCount_sortTransactions (transactions : List AxiTransaction) :
    completeWriteCount (sortTransactions transactions) = completeWriteCount transactions := by
  rw [completeWriteCount_eq_count, completeWriteCount_eq_count]
  exact (map_sortTransactions_perm (fun _ _ => rfl) transactions).count_eq true

end Sums

/-! ### Writes -/

/-- A list of different numbers below `n` has `n` elements exactly when it has them all. -/
lemma length_eq_iff_forall_mem {l : List ℕ} {n : ℕ} (hnodup : l.Nodup) (hlt : ∀ p ∈ l, p < n) :
    n = l.length ↔ ∀ p < n, p ∈ l := by
  have hsub : l.toFinset ⊆ Finset.range n := by
    intro p hp
    exact Finset.mem_range.2 (hlt p (List.mem_toFinset.1 hp))
  rw [← List.toFinset_card_of_nodup hnodup]
  constructor
  · intro heq p hp
    have hall := Finset.eq_of_subset_of_card_le hsub (by rw [Finset.card_range]; exact heq.le)
    exact List.mem_toFinset.1 (hall ▸ Finset.mem_range.2 hp)
  · intro hall
    have heq : l.toFinset = Finset.range n := by
      refine hsub.antisymm fun p hp => ?_
      exact List.mem_toFinset.2 (hall p (Finset.mem_range.1 hp))
    rw [heq, Finset.card_range]

lemma dataBeatCount_writes (ev : Events) (os : List Origin) :
    dataBeatCount true (renderAll ev os) = (os.flatMap Origin.ws).length := by
  rw [dataBeatCount, map_renderAll (dataBeatCount_indexless true), List.length_flatMap]
  congr 1
  refine List.map_congr_left fun o _ => ?_
  rw [Origin.render_isWrite]
  cases o with
  | write aw ws b => cases b <;> simp [Origin.isWrite, Origin.ws, Origin.render, completeWrite,
      incompleteWrite, addressPhase]
  | orphan p => rfl
  | read ar rs complete => rfl

/-- The W handshakes are the data beats of the writes exactly when every beat belongs to a burst
that has an AW request. -/
lemma length_w_eq_iff {ev : Events} {transactions : List AxiTransaction} {os : List Origin}
    (h : Conserves ev transactions os) :
    ev.w.length = dataBeatCount true transactions ↔
      ∀ p < ev.w.length, burstNumber ev.w p < ev.aw.length := by
  have hmem : ∀ p, p ∈ os.flatMap Origin.ws ↔
      p < ev.w.length ∧ burstNumber ev.w p < ev.aw.length := by
    intro p
    rw [flatMap_ws_eq h.wdata, List.mem_flatMap]
    constructor
    · rintro ⟨i, hi, hp⟩
      have hlt := List.mem_range.1 (h.aws.mem_iff.1 hi)
      obtain ⟨hp, hburst⟩ := List.mem_filter.1 hp
      rw [decide_eq_true_eq] at hburst
      exact ⟨List.mem_range.1 hp, hburst ▸ hlt⟩
    · rintro ⟨hp, hlt⟩
      refine ⟨burstNumber ev.w p, h.aws.mem_iff.2 (List.mem_range.2 hlt), ?_⟩
      exact List.mem_filter.2 ⟨List.mem_range.2 hp, by simp⟩
  rw [h.rendered, dataBeatCount_writes,
    length_eq_iff_forall_mem h.ws_nodup fun p hp => ((hmem p).1 hp).1]
  refine forall_congr' fun p => forall_congr' fun hp => ?_
  rw [hmem]
  exact and_iff_right hp

/-- The origin of a write with a response. -/
def Origin.isAnswered : Origin → Bool
  | write _ _ (some _) => true
  | _ => false

lemma completeWriteCount_renderAll (ev : Events) (os : List Origin) :
    completeWriteCount (renderAll ev os) = os.countP Origin.isAnswered := by
  rw [completeWriteCount_eq_count, map_renderAll (fun _ _ => rfl), List.count, List.countP_map]
  refine List.countP_congr fun o _ => ?_
  cases o with
  | write aw ws b => cases b <;> simp [Origin.render, Origin.isAnswered, completeWrite,
      incompleteWrite, addressPhase]
  | orphan p => simp [Origin.render, Origin.isAnswered, orphanResponse]
  | read ar rs complete => cases complete <;> simp [Origin.render, Origin.isAnswered,
      completeRead, incompleteRead, addressPhase]

/-- Each response is that of a write or left over. -/
lemma length_filterMap_b (os : List Origin) :
    (os.filterMap Origin.b?).length = os.countP Origin.isAnswered + os.countP Origin.isOrphan := by
  induction os with
  | nil => rfl
  | cons o os ih =>
      rw [List.filterMap_cons, List.countP_cons, List.countP_cons]
      cases o with
      | write aw ws b =>
          cases b <;> simp [Origin.b?, Origin.isAnswered, Origin.isOrphan, ih]
          omega
      | orphan p =>
          simp [Origin.b?, Origin.isAnswered, Origin.isOrphan, ih]
          omega
      | read ar rs complete => simp [Origin.b?, Origin.isAnswered, Origin.isOrphan, ih]

/-- Elements that a function sends to different values are different. -/
lemma eq_of_nodup_filterMap {α β : Type} {f : α → Option β} {l : List α}
    (hnodup : (l.filterMap f).Nodup) {a b : α} {c : β} (ha : a ∈ l) (hb : b ∈ l)
    (hfa : f a = some c) (hfb : f b = some c) : a = b := by
  induction l with
  | nil => cases ha
  | cons x l ih =>
      have hmem : ∀ y ∈ l, f y = some c → c ∈ l.filterMap f := fun y hy hfy =>
        List.mem_filterMap.2 ⟨y, hy, hfy⟩
      rw [List.filterMap_cons] at hnodup
      rcases List.mem_cons.1 ha with rfl | ha'
      · rcases List.mem_cons.1 hb with rfl | hb'
        · rfl
        · rw [hfa, List.nodup_cons] at hnodup
          exact absurd (hmem b hb' hfb) hnodup.1
      · rcases List.mem_cons.1 hb with rfl | hb'
        · rw [hfb, List.nodup_cons] at hnodup
          exact absurd (hmem a ha' hfa) hnodup.1
        · refine ih ?_ ha' hb'
          cases hfx : f x with
          | none => rwa [hfx] at hnodup
          | some y =>
              rw [hfx, List.nodup_cons] at hnodup
              exact hnodup.2

/-- The B handshakes are the complete writes exactly when every response has a write. -/
lemma length_b_eq_iff {ev : Events} {transactions : List AxiTransaction} {os : List Origin}
    (h : Conserves ev transactions os) :
    ev.b.length = completeWriteCount transactions ↔ ∀ p < ev.b.length,
      responseRank ev p < (dataCompleteAws ev (ev.b.getD p default).id).length := by
  have hsplit := length_filterMap_b os
  rw [h.bs.length_eq, List.length_range] at hsplit
  rw [h.rendered, completeWriteCount_renderAll]
  have hzero : ev.b.length = os.countP Origin.isAnswered ↔ os.countP Origin.isOrphan = 0 := by
    omega
  rw [hzero, List.countP_eq_zero]
  constructor
  · intro hnone p hp
    by_contra hge
    have horphan := h.orphans p hp (List.getElem?_eq_none (not_lt.1 hge))
    exact hnone _ horphan rfl
  · intro hall o ho horphan
    cases o with
    | orphan p =>
        have hp : p < ev.b.length := List.mem_range.1
          (h.bs.mem_iff.1 (List.mem_filterMap.2 ⟨_, ho, rfl⟩))
        have hwrite := h.responses p hp _ (List.getElem?_eq_getElem (hall p hp))
        have hsame := eq_of_nodup_filterMap (h.bs.nodup_iff.2 List.nodup_range) ho hwrite rfl rfl
        cases hsame
    | _ => cases horphan

/-! ### Reads -/

section Reads

variable {ev : Events} {st : ReadState} {re : REvent}

/-- The beats that the loop over the merged events has given to reads. -/
def takenBeats (st : ReadState) : ℕ :=
  dataBeatCount false st.transactions +
    ((Queues.flat st.pendingRById).map fun read => read.beats.length).sum

/-- The R beat at this place of the merge finds no open read. -/
def IsStray (ev : Events) (st : ReadState) (re : REvent) : Prop :=
  re.kind = .r ∧ Queues.get st.pendingRById (ev.r.getD re.idx default).id = []

instance (ev : Events) (st : ReadState) (re : REvent) : Decidable (IsStray ev st re) := by
  unfold IsStray
  infer_instance

lemma dataBeatCount_emit (isWrite : Bool) (transactions : List AxiTransaction)
    (txn : AxiTransaction) : dataBeatCount isWrite (emit transactions txn) =
      dataBeatCount isWrite transactions +
        if txn.isWrite = isWrite then txn.dataBeats.length else 0 := by
  simp [dataBeatCount, emit]

/-- One event of the merge gives at most one beat to a read. -/
lemma takenBeats_readStep (ev : Events) (st : ReadState) (re : REvent) :
    takenBeats (readStep ev.ar ev.r st re) + (if IsStray ev st re then 1 else 0) =
      takenBeats st + if re.kind = .r then 1 else 0 := by
  cases hkind : re.kind with
  | ar =>
      have hperm := (Queues.flat_push_perm st.pendingRById (ev.ar.getD re.idx default).id
        { arIdx := re.idx }).map fun read => read.beats.length
      have hstray : ¬ IsStray ev st re := fun h => by simp [IsStray, hkind] at h
      rw [if_neg hstray, if_neg (by decide)]
      rw [readStep_ar hkind, takenBeats, takenBeats, hperm.sum_eq, List.map_cons, List.sum_cons]
      simp
  | r =>
      cases hget : Queues.get st.pendingRById (ev.r.getD re.idx default).id with
      | nil =>
          have hstray : IsStray ev st re := ⟨hkind, hget⟩
          rw [if_pos hstray, readStep_dropped hkind hget, if_pos rfl]
      | cons read rest =>
          have hstray : ¬ IsStray ev st re := fun h => by
            rw [h.2] at hget
            cases hget
          have hperm := (Queues.flat_pop_perm st.pendingRById hget).map
            fun read => read.beats.length
          rw [if_neg hstray, if_pos rfl]
          cases hlast : (ev.r.getD re.idx default).last with
          | true =>
              -- the last beat moves the read to the transactions
              rw [readStep_last hkind hget hlast]
              simp only [takenBeats, dataBeatCount_emit]
              rw [hperm.sum_eq, List.map_cons, List.sum_cons]
              simp [completeRead, incompleteRead, addressPhase, PendingRead.addBeat]
              omega
          | false =>
              have hmodify := (Queues.flat_modifyFront_perm st.pendingRById
                (PendingRead.addBeat ⟨re.idx, ev.r.getD re.idx default⟩) hget).map
                fun read => read.beats.length
              rw [readStep_more hkind hget hlast]
              simp only [takenBeats]
              rw [hperm.sum_eq, hmodify.sum_eq, List.map_cons, List.map_cons, List.sum_cons,
                List.sum_cons]
              simp [PendingRead.addBeat]
              omega

/-- No R beat of a merge is stray. -/
def NoStray (ev : Events) : ReadState → List REvent → Prop
  | _, [] => True
  | st, re :: rest => ¬ IsStray ev st re ∧ NoStray ev (readStep ev.ar ev.r st re) rest

/-- A merge gives all its R beats to reads exactly when none of them is stray. -/
lemma takenBeats_foldl (ev : Events) (st : ReadState) (merged : List REvent) :
    takenBeats (merged.foldl (readStep ev.ar ev.r) st) ≤
        takenBeats st + merged.countP (fun re => re.kind = .r) ∧
      (takenBeats (merged.foldl (readStep ev.ar ev.r) st) =
        takenBeats st + merged.countP (fun re => re.kind = .r) ↔ NoStray ev st merged) := by
  induction merged generalizing st with
  | nil => simp [NoStray]
  | cons re rest ih =>
      obtain ⟨hle, hiff⟩ := ih (readStep ev.ar ev.r st re)
      have hstep := takenBeats_readStep ev st re
      rw [List.foldl_cons, List.countP_cons, NoStray]
      simp only [decide_eq_true_eq]
      by_cases hstray : IsStray ev st re
      · rw [if_pos hstray] at hstep
        refine ⟨by omega, ?_⟩
        constructor
        · intro heq
          omega
        · rintro ⟨hno, -⟩
          exact absurd hstray hno
      · rw [if_neg hstray] at hstep
        refine ⟨by omega, ?_⟩
        rw [and_iff_right hstray, ← hiff]
        omega

/-- While nothing is stray, the queue of an id has the reads that were requested and not
ended. -/
def QueueLengths (ev : Events) (before : List REvent) (st : ReadState) : Prop :=
  ∀ id, (Queues.get st.pendingRById id).length + rlastCount ev id before = arCount ev id before

lemma arCount_snoc (ev : Events) (id : String) (before : List REvent) (re : REvent) :
    arCount ev id (before ++ [re]) = arCount ev id before +
      if re.kind = .ar ∧ (ev.ar.getD re.idx default).id = id then 1 else 0 := by
  simp only [arCount, List.countP_append, List.countP_singleton, Bool.and_eq_true,
    decide_eq_true_eq]

lemma rlastCount_snoc (ev : Events) (id : String) (before : List REvent) (re : REvent) :
    rlastCount ev id (before ++ [re]) = rlastCount ev id before +
      if re.kind = .r ∧ (ev.r.getD re.idx default).id = id ∧
        (ev.r.getD re.idx default).last = true then 1 else 0 := by
  simp only [rlastCount, List.countP_append, List.countP_singleton, Bool.and_eq_true,
    decide_eq_true_eq, and_assoc]

lemma QueueLengths.readStep {before : List REvent} (h : QueueLengths ev before st)
    (hstray : ¬ IsStray ev st re) :
    QueueLengths ev (before ++ [re]) (readStep ev.ar ev.r st re) := by
  intro id
  have hid := h id
  rw [arCount_snoc, rlastCount_snoc, length_get_readStep]
  by_cases hopens : re.kind = .ar ∧ (ev.ar.getD re.idx default).id = id
  · have hbeat : ¬ re.kind = .r := fun hkind => REKind.noConfusion (hopens.1.symm.trans hkind)
    rw [if_pos hopens, if_pos hopens, if_neg fun h => hbeat h.1]
    omega
  · rw [if_neg hopens, if_neg hopens]
    split_ifs with hcloses
    · -- the beat is not stray, so that its read is in the queue
      obtain ⟨hkind, rfl, -⟩ := hcloses
      have hpos := List.length_pos_of_ne_nil fun hempty => hstray ⟨hkind, hempty⟩
      omega
    · omega

/-- A beat is stray exactly when as many reads of its id were ended as were requested. -/
lemma QueueLengths.not_isStray_iff {before : List REvent} (h : QueueLengths ev before st) :
    ¬ IsStray ev st re ↔ (re.kind = .r → rlastCount ev (ev.r.getD re.idx default).id before <
      arCount ev (ev.r.getD re.idx default).id before) := by
  have hid := h (ev.r.getD re.idx default).id
  rw [IsStray, not_and]
  refine forall_congr' fun _ => ?_
  rw [← List.length_eq_zero_iff]
  omega

/-- No beat is stray exactly when every beat finds an open read. -/
lemma noStray_iff {before merged : List REvent} (h : QueueLengths ev before st) :
    NoStray ev st merged ↔ ∀ l re after, merged = l ++ re :: after → re.kind = .r →
      rlastCount ev (ev.r.getD re.idx default).id (before ++ l) <
        arCount ev (ev.r.getD re.idx default).id (before ++ l) := by
  induction merged generalizing before st with
  | nil => simp [NoStray]
  | cons re rest ih =>
      rw [NoStray]
      constructor
      · rintro ⟨hstray, hrest⟩ l re' after heq hkind
        cases l with
        | nil =>
            cases heq
            rw [List.append_nil]
            exact h.not_isStray_iff.1 hstray hkind
        | cons x l =>
            cases heq
            have hlater := (ih (h.readStep hstray)).1 hrest l re' after rfl hkind
            rwa [List.append_assoc] at hlater
      · intro hall
        have hstray : ¬ IsStray ev st re := by
          rw [h.not_isStray_iff]
          intro hkind
          have hfirst := hall [] re rest rfl hkind
          rwa [List.append_nil] at hfirst
        refine ⟨hstray, (ih (h.readStep hstray)).2 ?_⟩
        intro l re' after heq hkind
        have hlater := hall (re :: l) re' after (by rw [heq]; rfl) hkind
        rwa [List.append_assoc]

end Reads

/-- The flush of the open reads. -/
lemma dataBeatCount_flush (arEvents : List AxiHandshakeEvent) (reads : List PendingRead)
    (transactions : List AxiTransaction) :
    dataBeatCount false (reads.foldl
        (fun transactions read => emit transactions (incompleteRead arEvents read)) transactions) =
      dataBeatCount false transactions + (reads.map fun read => read.beats.length).sum := by
  induction reads generalizing transactions with
  | nil => rfl
  | cons read reads ih =>
      rw [List.foldl_cons, ih, dataBeatCount_emit, List.map_cons, List.sum_cons]
      simp [incompleteRead, addressPhase]
      omega

/-- The writes have no read beats. -/
lemma dataBeatCount_assembleWrites (ev : Events) :
    dataBeatCount false (assembleWrites ev.aw ev.w ev.b) = 0 := by
  rw [assembleWrites_eq, dataBeatCount, map_renderAll (dataBeatCount_indexless false),
    List.sum_eq_zero]
  intro n hn
  obtain ⟨o, ho, rfl⟩ := List.mem_map.1 hn
  rw [Origin.render_isWrite]
  cases o with
  | read ar rs complete => exact absurd ho (writeOrigins_not_read ev)
  | _ => rfl

/-- The R handshakes are the data beats of the reads exactly when every beat finds an open
read. -/
lemma length_r_eq_iff (std : StdSort) (ev : Events) :
    ev.r.length = dataBeatCount false (assembleAxiTransactions std ev.aw ev.w ev.b ev.ar ev.r) ↔
      ReadsOpen ev (std.sort (revents ev.ar ev.r)) := by
  have hcount : (std.sort (revents ev.ar ev.r)).countP (fun re => re.kind = .r) =
      ev.r.length := by
    rw [(std.perm _).countP_eq, revents, List.countP_append, List.countP_map, List.countP_map]
    simp [Function.comp_def]
  have htotal : dataBeatCount false (assembleAxiTransactions std ev.aw ev.w ev.b ev.ar ev.r) =
      takenBeats ((std.sort (revents ev.ar ev.r)).foldl (readStep ev.ar ev.r)
        { transactions := assembleWrites ev.aw ev.w ev.b }) := by
    rw [assembleAxiTransactions, assembleReads, dataBeatCount_flush, takenBeats]
  have hstart : takenBeats { transactions := assembleWrites ev.aw ev.w ev.b } = 0 := by
    rw [takenBeats, dataBeatCount_assembleWrites]
    rfl
  have hlengths : QueueLengths ev [] { transactions := assembleWrites ev.aw ev.w ev.b } :=
    fun id => rfl
  obtain ⟨-, hiff⟩ := takenBeats_foldl ev { transactions := assembleWrites ev.aw ev.w ev.b }
    (std.sort (revents ev.ar ev.r))
  rw [hstart, hcount, Nat.zero_add, ← htotal] at hiff
  rw [eq_comm, hiff, noStray_iff hlengths]
  rfl

/-! ### Scans -/

lemma scanAxi_transactions {std : StdSort} {wf : Backend} {sm : AxiSignalMap} {hardLimit : ℕ}
    {loaded : Loaded} {tBegin tEnd : ℕ} {result : AxiScanResult}
    (h : scanAxi std wf sm hardLimit loaded tBegin tEnd = .ok result) :
    result.transactions = sortTransactions (assembleAxiTransactions std result.awEvents
      result.wEvents result.bEvents result.arEvents result.rEvents) := by
  unfold scanAxi at h
  split at h
  · cases h
  · split at h
    · cases h
    · split at h
      · cases h
      · obtain rfl := Except.ok.inj h
        rfl

/-- The summary of a scan accounts for every handshake exactly when the assembly has none left
over. -/
theorem commonSummary_accounts_iff {std : StdSort} {wf : Backend} {sm : AxiSignalMap}
    {hardLimit : ℕ} {loaded : Loaded} {tBegin tEnd : ℕ} {result : AxiScanResult}
    (h : scanAxi std wf sm hardLimit loaded tBegin tEnd = .ok result) (direction : String) :
    AccountsForHandshakes result (commonSummary direction result) ↔
      NoneLeftOver std result.events := by
  obtain ⟨os, hcons, -⟩ := exists_origins std result.events
  have hw := length_w_eq_iff hcons
  have hb := length_b_eq_iff hcons
  have hr := length_r_eq_iff std result.events
  have htransactions : result.transactions = sortTransactions (assembleAxiTransactions std
      result.events.aw result.events.w result.events.b result.events.ar result.events.r) :=
    scanAxi_transactions h
  rw [← dataBeatCount_sortTransactions, ← htransactions] at hw hr
  rw [← completeWriteCount_sortTransactions, ← htransactions] at hb
  constructor
  · rintro ⟨haw, har, hab⟩
    exact ⟨hw.1 haw, hb.1 hab, hr.1 har⟩
  · rintro ⟨how, hob, hor⟩
    exact ⟨hw.2 how, hr.2 hor, hb.2 hob⟩

/-- A bus on which an address, a beat and a response are accepted at each edge. -/
theorem busyWave_accounts_iff : ∃ result, scanAxi insertionSort busyWave busyConfig 0 [] 0 25 =
    .ok result ∧ (AccountsForHandshakes result (commonSummary "all" result) ↔
      NoneLeftOver insertionSort result.events) := by
  have hok : (scanAxi insertionSort busyWave busyConfig 0 [] 0 25).toBool = true := by
    decide +kernel
  cases hscan : scanAxi insertionSort busyWave busyConfig 0 [] 0 25 with
  | error error =>
      rw [hscan] at hok
      cases hok
  | ok result => exact ⟨result, rfl, commonSummary_accounts_iff hscan "all"⟩

/-- A bus on which beats are accepted and no address is. -/
def strayConfig : AxiSignalMap :=
  { busyConfig with awvalid := "zero", bvalid := "zero" }

/-- The handshakes and beats of a result. -/
def wAccounts : Except AxiScanError AxiScanResult → ℕ × ℕ
  | .ok result => ((commonSummary "all" result).channelHandshakes.w,
      dataBeatCount true result.transactions)
  | .error _ => (0, 0)

/-- Three W beats are accepted, no transaction has one, and none is reported as left over. -/
theorem strayConfig_not_accounts : ¬ ∀ std wf sm hardLimit loaded tBegin tEnd result,
    scanAxi std wf sm hardLimit loaded tBegin tEnd = .ok result → ∀ direction,
      AccountsForHandshakes result (commonSummary direction result) := by
  intro hall
  have hcounts : wAccounts (scanAxi insertionSort busyWave strayConfig 0 [] 0 25) = (3, 0) := by
    decide +kernel
  cases hscan : scanAxi insertionSort busyWave strayConfig 0 [] 0 25 with
  | error error =>
      rw [hscan] at hcounts
      cases hcounts
  | ok result =>
      rw [hscan] at hcounts
      obtain ⟨hhandshakes, hbeats⟩ := Prod.mk.inj hcounts
      have hw := (hall _ _ _ _ _ _ _ result hscan "all").w
      rw [hhandshakes, hbeats] at hw
      cases hw

end XdebugFst.Axi
