import Mathlib.Data.List.Sort
import XdebugFst.Lib.Interleaving
import XdebugFst.Axi.Pairing

/-!
# Reads and the order of ties

The AR and R events are merged by `std::sort` with a comparison of the times only, so an
AR and an R event of the same time can come in either order.  For different ids the two
orders lead to the same state.  For the same id they do so exactly if a read of that id
is open already: otherwise the beat is given to the new read in one order, and dropped in
the other.

Whether a read is open is a matter of the two event lists: one is, if in some interval up
to the tie the id has more requests than last beats.
-/

namespace XdebugFst.Axi

open Lib

/-- The read transactions, without their indices. -/
def readsOf (transactions : List AxiTransaction) : Set AxiTransaction :=
  {txn | ∃ t ∈ transactions, t.isWrite = false ∧ txn = { t with index := 0 }}

/-- All orders that `std::sort` may produce lead to the same reads. -/
def TieIndependent (ev : Events) : Prop :=
  ∀ std₁ std₂ : StdSort,
    readsOf (assembleAxiTransactions std₁ ev.aw ev.w ev.b ev.ar ev.r) =
      readsOf (assembleAxiTransactions std₂ ev.aw ev.w ev.b ev.ar ev.r)

/-- The requests of an id in a half-open interval of time. -/
def requests (ev : Events) (id : String) (s t : ℕ) : ℕ :=
  ev.ar.countP fun e => e.id = id ∧ s ≤ e.time ∧ e.time < t

/-- The last beats of an id in a half-open interval of time. -/
def lastBeats (ev : Events) (id : String) (s t : ℕ) : ℕ :=
  ev.r.countP fun e => (e.id = id ∧ e.last) ∧ s ≤ e.time ∧ e.time < t

/-- A read of the id is open before `t`: some interval up to `t` has more requests of the
id than last beats. -/
def OpenBefore (ev : Events) (id : String) (t : ℕ) : Prop :=
  ∃ s, lastBeats ev id s t < requests ev id s t

/-- Where a request and a beat of one id have the same time, an earlier read of that id is
open. -/
def TiesHaveOpenRead (ev : Events) : Prop :=
  ∀ a ∈ ev.ar, ∀ r ∈ ev.r, a.time = r.time → a.id = r.id → OpenBefore ev a.id a.time

/-! ### The number of open reads -/

/-- The event is a request of the id. -/
def REvent.opens (ev : Events) (id : String) (re : REvent) : Bool :=
  re.kind = .ar ∧ (ev.ar.getD re.idx default).id = id

/-- The event is a last beat of the id. -/
def REvent.closes (ev : Events) (id : String) (re : REvent) : Bool :=
  re.kind = .r ∧ (ev.r.getD re.idx default).id = id ∧ (ev.r.getD re.idx default).last

lemma REvent.not_closes (ev : Events) (id : String) (re : REvent) (h : re.opens ev id) :
    ¬ re.closes ev id := by
  simp only [REvent.opens, decide_eq_true_eq] at h
  simp [REvent.closes, h.1]

/-- The state behind some events of the merge. -/
def readRun (ev : Events) (transactions : List AxiTransaction) (done : List REvent) : ReadState :=
  done.foldl (readStep ev.ar ev.r) { transactions := transactions }

lemma readRun_snoc (ev : Events) (transactions : List AxiTransaction) (done : List REvent)
    (re : REvent) : readRun ev transactions (done ++ [re]) =
      readStep ev.ar ev.r (readRun ev transactions done) re := by
  simp [readRun]

/-- The open reads of an id, counted. -/
lemma length_get_readRun (ev : Events) (transactions : List AxiTransaction) (id : String)
    (done : List REvent) :
    (Queues.get (readRun ev transactions done).pendingRById id).length =
      depth (REvent.opens ev id) (REvent.closes ev id) done := by
  induction done using List.reverseRecOn with
  | nil => rfl
  | append_singleton done re ih =>
      rw [readRun_snoc, length_get_readStep, ih, depth_snoc, depthStep]
      simp only [REvent.opens, REvent.closes, decide_eq_true_eq]

/-! ### Two events of the same time -/

/-- A request and a beat can change places, unless the beat finds its id without an open
read. -/
lemma readStep_swap (ev : Events) (st : ReadState) {x y : REvent} (hx : x.kind = .ar)
    (hy : y.kind = .r)
    (h : (ev.r.getD y.idx default).id ≠ (ev.ar.getD x.idx default).id ∨
      Queues.get st.pendingRById (ev.r.getD y.idx default).id ≠ []) :
    readStep ev.ar ev.r (readStep ev.ar ev.r st x) y =
      readStep ev.ar ev.r (readStep ev.ar ev.r st y) x := by
  cases hq : Queues.get st.pendingRById (ev.r.getD y.idx default).id with
  | nil =>
      -- the beat is dropped in both orders, as the request has another id
      have hne := h.resolve_right fun hne => hne hq
      have hq' : Queues.get (readStep ev.ar ev.r st x).pendingRById
          (ev.r.getD y.idx default).id = [] := by
        rw [readStep_ar hx, Queues.get_push_of_ne _ hne, hq]
      rw [readStep_dropped hy hq', readStep_dropped hy hq]
  | cons read rest =>
      -- the beat goes to the oldest read, which the request does not change
      have hq' : Queues.get (readStep ev.ar ev.r st x).pendingRById
          (ev.r.getD y.idx default).id = read :: (rest ++
            if (ev.r.getD y.idx default).id = (ev.ar.getD x.idx default).id then
              [{ arIdx := x.idx }]
            else []) := by
        rw [readStep_ar hx, Queues.get_push, hq, List.cons_append]
      cases hlast : (ev.r.getD y.idx default).last with
      | true =>
          rw [readStep_last hy hq' hlast, readStep_last hy hq hlast, readStep_ar hx,
            readStep_ar hx]
          simp only [Queues.pop_push _ _ h]
      | false =>
          rw [readStep_more hy hq' hlast, readStep_more hy hq hlast, readStep_ar hx,
            readStep_ar hx]
          simp only [Queues.modifyFront_push _ _ _ h]

/-! ### The events of an interval -/

/-- Each channel has at most one event at a time, and lists them in order. -/
structure StrictTimes (ev : Events) : Prop where
  ar : ev.ar.Pairwise fun a b => a.time < b.time
  r : ev.r.Pairwise fun a b => a.time < b.time

lemma mem_revents_iff (ev : Events) (re : REvent) :
    re ∈ revents ev.ar ev.r ↔
      (∃ i, ∃ h : i < ev.ar.length, re = ⟨ev.ar[i].time, .ar, i⟩) ∨
        ∃ j, ∃ h : j < ev.r.length, re = ⟨ev.r[j].time, .r, j⟩ := by
  have hside : ∀ (events : List AxiHandshakeEvent) (kind : REKind),
      re ∈ events.zipIdx.map (fun e => (⟨e.1.time, kind, e.2⟩ : REvent)) ↔
        ∃ i, ∃ h : i < events.length, re = ⟨events[i].time, kind, i⟩ := by
    intro events kind
    constructor
    · intro h
      obtain ⟨⟨e, i⟩, hmem, rfl⟩ := List.mem_map.1 h
      obtain ⟨hi, he⟩ := List.mem_zipIdx' hmem
      exact ⟨i, hi, by rw [← he]⟩
    · rintro ⟨i, hi, rfl⟩
      exact List.mem_map.2 ⟨(events[i], i), List.mk_mem_zipIdx_iff_getElem?.2 (by simp [hi]), rfl⟩
  rw [revents, List.mem_append, hside, hside]

lemma nodup_revents (ev : Events) : (revents ev.ar ev.r).Nodup := by
  have hside : ∀ (events : List AxiHandshakeEvent) (kind : REKind),
      (events.zipIdx.map fun e => (⟨e.1.time, kind, e.2⟩ : REvent)).Nodup := by
    intro events kind
    have hidx : ((events.zipIdx.map fun e => (⟨e.1.time, kind, e.2⟩ : REvent)).map
        REvent.idx).Nodup := by
      have hsnd : (events.zipIdx.map fun e => (⟨e.1.time, kind, e.2⟩ : REvent)).map REvent.idx =
          events.zipIdx.map Prod.snd := by simp [Function.comp_def]
      rw [hsnd, List.zipIdx_map_snd]
      exact List.nodup_range'
    exact hidx.of_map
  refine List.nodup_append.2 ⟨hside _ _, hside _ _, ?_⟩
  rintro x hx y hy rfl
  obtain ⟨e, -, rfl⟩ := List.mem_map.1 hx
  obtain ⟨e', -, h⟩ := List.mem_map.1 hy
  simp at h

/-- An event is determined by its channel and its time. -/
lemma StrictTimes.eq_of_time {ev : Events} (h : StrictTimes ev) {x y : REvent}
    (hx : x ∈ revents ev.ar ev.r) (hy : y ∈ revents ev.ar ev.r) (hkind : x.kind = y.kind)
    (htime : x.time = y.time) : x = y := by
  have hside : ∀ {events : List AxiHandshakeEvent} {i j : ℕ} (hi : i < events.length)
      (hj : j < events.length), events.Pairwise (fun a b => a.time < b.time) →
        events[i].time = events[j].time → i = j := by
    intro events i j hi hj hlt heq
    by_contra hne
    rcases Nat.lt_or_gt_of_ne hne with hij | hij
    · have := List.pairwise_iff_getElem.1 hlt i j hi hj hij
      omega
    · have := List.pairwise_iff_getElem.1 hlt j i hj hi hij
      omega
  rw [mem_revents_iff] at hx hy
  rcases hx with ⟨i, hi, rfl⟩ | ⟨i, hi, rfl⟩ <;> rcases hy with ⟨j, hj, rfl⟩ | ⟨j, hj, rfl⟩
  · obtain rfl := hside hi hj h.ar htime
    rfl
  · cases hkind
  · cases hkind
  · obtain rfl := hside hi hj h.r htime
    rfl

lemma countP_revents (ev : Events) (p : REvent → Bool) :
    (revents ev.ar ev.r).countP p =
      (ev.ar.zipIdx.countP fun e => p ⟨e.1.time, .ar, e.2⟩) +
        ev.r.zipIdx.countP fun e => p ⟨e.1.time, .r, e.2⟩ := by
  simp [revents, List.countP_append, List.countP_map, Function.comp_def]

lemma countP_zipIdx (events : List AxiHandshakeEvent) {p : AxiHandshakeEvent × ℕ → Bool}
    {q : AxiHandshakeEvent → Bool}
    (h : ∀ e i, e = events.getD i default → p (e, i) = q e) :
    events.zipIdx.countP p = events.countP q := by
  have hcongr : events.zipIdx.countP p = events.zipIdx.countP (q ∘ Prod.fst) := by
    refine List.countP_congr fun e he => ?_
    obtain ⟨hi, heq⟩ := List.mem_zipIdx' he
    rw [h e.1 e.2 (by rw [List.getD_eq_getElem _ _ hi]; exact heq), Function.comp_apply]
  rw [hcongr, ← List.countP_map, List.zipIdx_map_fst]

/-- The requests of an interval, as events of the merge. -/
lemma requests_eq (ev : Events) (id : String) (s t : ℕ) :
    requests ev id s t =
      (revents ev.ar ev.r).countP fun re => re.opens ev id ∧ s ≤ re.time ∧ re.time < t := by
  rw [countP_revents, countP_zipIdx ev.ar (q := fun e => e.id = id ∧ s ≤ e.time ∧ e.time < t)]
  · simp [REvent.opens, requests]
  · rintro e i rfl
    simp [REvent.opens]

lemma lastBeats_eq (ev : Events) (id : String) (s t : ℕ) :
    lastBeats ev id s t =
      (revents ev.ar ev.r).countP fun re => re.closes ev id ∧ s ≤ re.time ∧ re.time < t := by
  rw [countP_revents, Nat.add_comm,
    countP_zipIdx ev.r (q := fun e => (e.id = id ∧ e.last) ∧ s ≤ e.time ∧ e.time < t)]
  · simp [REvent.closes, lastBeats]
  · rintro e i rfl
    simp [REvent.closes]

/-- A part of an order that holds the events of an interval. -/
lemma countP_segment {ev : Events} {l₁ l₂ l₃ : List REvent} {s t : ℕ}
    (hperm : (l₁ ++ (l₂ ++ l₃)).Perm (revents ev.ar ev.r)) (h₁ : ∀ x ∈ l₁, x.time < s)
    (h₂ : ∀ x ∈ l₂, s ≤ x.time ∧ x.time < t) (h₃ : ∀ x ∈ l₃, t ≤ x.time) (p : REvent → Bool) :
    (revents ev.ar ev.r).countP (fun re => p re ∧ s ≤ re.time ∧ re.time < t) = l₂.countP p := by
  have hbefore : l₁.countP (fun re => p re ∧ s ≤ re.time ∧ re.time < t) = 0 :=
    List.countP_eq_zero.2 fun x hx => by have := h₁ x hx; simp; omega
  have hbehind : l₃.countP (fun re => p re ∧ s ≤ re.time ∧ re.time < t) = 0 :=
    List.countP_eq_zero.2 fun x hx => by have := h₃ x hx; simp; omega
  have hinside : l₂.countP (fun re => p re ∧ s ≤ re.time ∧ re.time < t) = l₂.countP p :=
    List.countP_congr fun x hx => by simp [h₂ x hx]
  rw [← hperm.countP_eq, List.countP_append, List.countP_append, hbefore, hbehind, hinside,
    Nat.zero_add, Nat.add_zero]

/-! ### Ties with an open read -/

lemma get_readRun_ne_nil {ev : Events} (transactions : List AxiTransaction)
    {done rest : List REvent} {id : String} {t : ℕ}
    (hperm : (done ++ rest).Perm (revents ev.ar ev.r)) (hsorted : SortedBy REvent.time done)
    (hdone : ∀ x ∈ done, x.time < t) (hrest : ∀ x ∈ rest, t ≤ x.time)
    (hopen : OpenBefore ev id t) :
    Queues.get (readRun ev transactions done).pendingRById id ≠ [] := by
  obtain ⟨s, hs⟩ := hopen
  obtain ⟨l₁, l₂, rfl, h₁, h₂⟩ := hsorted.exists_split s
  rw [List.append_assoc] at hperm
  have hin : ∀ x ∈ l₂, s ≤ x.time ∧ x.time < t := fun x hx =>
    ⟨h₂ x hx, hdone x (List.mem_append_right _ hx)⟩
  rw [requests_eq, lastBeats_eq, countP_segment hperm h₁ hin hrest,
    countP_segment hperm h₁ hin hrest] at hs
  have hle : l₂.countP (REvent.opens ev id) ≤ l₂.countP (REvent.closes ev id) +
      depth (REvent.opens ev id) (REvent.closes ev id) (l₁ ++ l₂) := countP_opens_le l₁ l₂
  rw [← length_get_readRun ev transactions] at hle
  intro hnil
  rw [hnil, List.length_nil] at hle
  omega

/-- A request and a beat of the same time can change places. -/
lemma readRun_swap {ev : Events} (hstrict : StrictTimes ev) (hopen : TiesHaveOpenRead ev)
    (transactions : List AxiTransaction) {done rest : List REvent} {a b : REvent}
    (hperm : (done ++ a :: b :: rest).Perm (revents ev.ar ev.r))
    (hsorted : SortedBy REvent.time (done ++ a :: b :: rest)) (htime : a.time = b.time) :
    readRun ev transactions (done ++ [a, b]) = readRun ev transactions (done ++ [b, a]) := by
  have hnodup : (done ++ a :: b :: rest).Nodup := hperm.nodup_iff.2 (nodup_revents ev)
  have hmem : ∀ x, x ∈ done ++ a :: b :: rest → x ∈ revents ev.ar ev.r := fun x =>
    hperm.mem_iff.1
  obtain ⟨hdoneSorted, hend, hcross⟩ := List.pairwise_append.1 hsorted
  obtain ⟨-, hendNodup, hdisj⟩ := List.nodup_append.1 hnodup
  have hne : a ≠ b := fun h => (List.nodup_cons.1 hendNodup).1 (by simp [h])
  have hkinds : a.kind ≠ b.kind := fun h =>
    hne (hstrict.eq_of_time (hmem a (by simp)) (hmem b (by simp)) h htime)
  -- nothing else has the time of the tie
  have hdone : ∀ x ∈ done, x.time < a.time := by
    intro x hx
    refine lt_of_le_of_ne (hcross x hx a (by simp)) fun heq => ?_
    have hx' := hmem x (List.mem_append_left _ hx)
    have hkind : x.kind = a.kind ∨ x.kind = b.kind := by
      cases hk : x.kind <;> cases ha : a.kind <;> cases hb : b.kind <;> simp_all
    rcases hkind with hk | hk
    · exact hdisj x hx a (by simp) (hstrict.eq_of_time hx' (hmem a (by simp)) hk heq)
    · exact hdisj x hx b (by simp)
        (hstrict.eq_of_time hx' (hmem b (by simp)) hk (heq.trans htime))
  have hrest : ∀ x ∈ a :: b :: rest, a.time ≤ x.time := by
    intro x hx
    rcases List.mem_cons.1 hx with rfl | hx
    · exact le_rfl
    · exact (List.pairwise_cons.1 hend).1 x hx
  have htie : ∀ {i j : ℕ}, i < ev.ar.length → j < ev.r.length →
      (ev.ar.getD i default).time = a.time → (ev.r.getD j default).time = a.time →
        (ev.r.getD j default).id ≠ (ev.ar.getD i default).id ∨
          Queues.get (readRun ev transactions done).pendingRById (ev.r.getD j default).id ≠ [] := by
    intro i j hi hj hti htj
    by_cases hid : (ev.r.getD j default).id = (ev.ar.getD i default).id
    · refine .inr (get_readRun_ne_nil transactions hperm hdoneSorted hdone hrest ?_)
      have hmemi : ev.ar.getD i default ∈ ev.ar := by simp [hi]
      have hmemj : ev.r.getD j default ∈ ev.r := by simp [hj]
      have h := hopen _ hmemi _ hmemj (hti.trans htj.symm) hid.symm
      rwa [hti, ← hid] at h
    · exact .inl hid
  have hpair : ∀ x y : REvent, done ++ [x, y] = (done ++ [x]) ++ [y] := by simp
  rw [hpair, hpair, readRun_snoc, readRun_snoc, readRun_snoc, readRun_snoc]
  rcases (mem_revents_iff ev a).1 (hmem a (by simp)) with ⟨i, hi, rfl⟩ | ⟨i, hi, rfl⟩ <;>
    rcases (mem_revents_iff ev b).1 (hmem b (by simp)) with ⟨j, hj, rfl⟩ | ⟨j, hj, rfl⟩
  · exact absurd rfl hkinds
  · exact readStep_swap ev _ rfl rfl (htie hi hj (by simp [hi]) (by simpa [hj] using htime.symm))
  · exact (readStep_swap ev _ rfl rfl
      (htie hj hi (by simpa [hj] using htime.symm) (by simp [hi]))).symm
  · exact absurd rfl hkinds

/-- With an open read at every tie all orders lead to the same transactions. -/
lemma assembleReads_eq {ev : Events} (hstrict : StrictTimes ev) (hopen : TiesHaveOpenRead ev)
    (std₁ std₂ : StdSort) (transactions : List AxiTransaction) :
    assembleReads std₁ ev.ar ev.r transactions = assembleReads std₂ ev.ar ev.r transactions := by
  have hrun : (std₁.sort (revents ev.ar ev.r)).foldl (readStep ev.ar ev.r)
        { transactions := transactions } =
      (std₂.sort (revents ev.ar ev.r)).foldl (readStep ev.ar ev.r)
        { transactions := transactions } :=
    foldl_eq_of_sorted_perm REvent.time
      (fun done a b rest hperm hsorted htime =>
        readRun_swap hstrict hopen transactions hperm hsorted htime)
      _ _ [] (std₁.perm _) ((std₁.perm _).trans (std₂.perm _).symm) (std₁.sorted _) (std₂.sorted _)
  simp only [assembleReads, hrun]

/-! ### Ties without an open read -/

/-- The order that takes the requests first. -/
def REvent.rank (re : REvent) : ℕ := 2 * re.time + if re.kind = .ar then 0 else 1

lemma REvent.time_le_of_rank_le {x y : REvent} (h : x.rank ≤ y.rank) : x.time ≤ y.time := by
  unfold REvent.rank at h
  split_ifs at h <;> omega

/-- A sort that takes the requests first. -/
def requestsFirst : StdSort where
  sort l := l.insertionSort fun a b => a.rank ≤ b.rank
  perm l := List.perm_insertionSort _ _
  sorted l := by
    have : Std.Total fun a b : REvent => a.rank ≤ b.rank := ⟨fun a b => le_total _ _⟩
    have : IsTrans REvent fun a b => a.rank ≤ b.rank := ⟨fun a b c => le_trans⟩
    exact (List.pairwise_insertionSort _ _).imp REvent.time_le_of_rank_le

lemma pairwise_rank_requestsFirst (l : List REvent) :
    (requestsFirst.sort l).Pairwise fun a b => a.rank ≤ b.rank := by
  have : Std.Total fun a b : REvent => a.rank ≤ b.rank := ⟨fun a b => le_total _ _⟩
  have : IsTrans REvent fun a b => a.rank ≤ b.rank := ⟨fun a b c => le_trans⟩
  exact List.pairwise_insertionSort _ _

lemma StrictTimes.eq_of_rank {ev : Events} (h : StrictTimes ev) {x y : REvent}
    (hx : x ∈ revents ev.ar ev.r) (hy : y ∈ revents ev.ar ev.r) (hrank : x.rank = y.rank) :
    x = y := by
  obtain ⟨tx, kx, ix⟩ := x
  obtain ⟨ty, ky, iy⟩ := y
  cases kx <;> cases ky <;> simp only [REvent.rank, if_true, reduceCtorEq, if_false] at hrank
  · exact h.eq_of_time hx hy rfl (by simp only; omega)
  · omega
  · omega
  · exact h.eq_of_time hx hy rfl (by simp only; omega)

/-- Sort one list in a way of its own, and the others with requests first. -/
def sortAs (input output : List REvent) (hperm : output.Perm input)
    (hsorted : output.Pairwise fun a b => a.time ≤ b.time) : StdSort where
  sort l := if l = input then output else requestsFirst.sort l
  perm l := by
    split_ifs with h
    · exact h ▸ hperm
    · exact requestsFirst.perm l
  sorted l := by
    split_ifs with h
    · exact hsorted
    · exact requestsFirst.sorted l

/-- The requests-first order around a tie. -/
structure TieOrder (ev : Events) (a b : REvent) where
  before : List REvent
  behind : List REvent
  sorted : requestsFirst.sort (revents ev.ar ev.r) = before ++ a :: b :: behind
  before_lt : ∀ x ∈ before, x.time < a.time

lemma exists_tieOrder {ev : Events} (h : StrictTimes ev) {a b : REvent}
    (ha : a ∈ revents ev.ar ev.r) (hb : b ∈ revents ev.ar ev.r) (hak : a.kind = .ar)
    (hbk : b.kind = .r) (htime : a.time = b.time) : Nonempty (TieOrder ev a b) := by
  have hperm := requestsFirst.perm (revents ev.ar ev.r)
  have hpair := pairwise_rank_requestsFirst (revents ev.ar ev.r)
  have hrank : b.rank = a.rank + 1 := by simp [REvent.rank, hak, hbk, htime]
  have heven : a.rank = 2 * a.time := by simp [REvent.rank, hak]
  obtain ⟨before, post, hsplit⟩ := List.append_of_mem (hperm.mem_iff.2 ha)
  rw [hsplit] at hperm hpair
  have hmem : ∀ x ∈ before ++ a :: post, x ∈ revents ev.ar ev.r := fun x => hperm.mem_iff.1
  have hnodup := hperm.nodup_iff.2 (nodup_revents ev)
  obtain ⟨-, hpost, hcross⟩ := List.pairwise_append.1 hpair
  obtain ⟨-, hpostNodup, hdisj⟩ := List.nodup_append.1 hnodup
  obtain ⟨hfirst, hpost⟩ := List.pairwise_cons.1 hpost
  have hbefore : ∀ x ∈ before, x.time < a.time := by
    intro x hx
    have hle := hcross x hx a (by simp)
    have hne : x.rank ≠ a.rank := fun heq =>
      hdisj x hx a (by simp) (h.eq_of_rank (hmem x (List.mem_append_left _ hx)) ha heq)
    have : 2 * x.time ≤ x.rank := Nat.le_add_right _ _
    omega
  have hbpost : b ∈ post := by
    have hb' : b ∈ before ++ a :: post := hperm.mem_iff.2 hb
    rcases List.mem_append.1 hb' with hb' | hb'
    · have := hbefore b hb'
      omega
    · rcases List.mem_cons.1 hb' with rfl | hb'
      · rw [hak] at hbk
        cases hbk
      · exact hb'
  cases post with
  | nil => simp at hbpost
  | cons x behind =>
      -- nothing stands between the two
      have hx : x = b := by
        rcases List.mem_cons.1 hbpost with rfl | hbpost
        · rfl
        · have h₁ := hfirst x (by simp)
          have h₂ := (List.pairwise_cons.1 hpost).1 b hbpost
          have hxmem := hmem x (by simp)
          have hxa : x.rank ≠ a.rank := fun heq =>
            (List.nodup_cons.1 hpostNodup).1 (by simp [← h.eq_of_rank hxmem ha heq])
          exact h.eq_of_rank hxmem hb (by omega)
      subst hx
      exact ⟨before, behind, hsplit, hbefore⟩

/-- With requests first, the reads that are open before the tie were opened behind the
last moment without an open one, and that is a moment between two times. -/
lemma TieOrder.get_eq_nil {ev : Events} (h : StrictTimes ev) {a b : REvent}
    (order : TieOrder ev a b) (transactions : List AxiTransaction) {id : String}
    (hopen : ¬ OpenBefore ev id a.time) :
    Queues.get (readRun ev transactions order.before).pendingRById id = [] := by
  have hperm := requestsFirst.perm (revents ev.ar ev.r)
  have hpair := pairwise_rank_requestsFirst (revents ev.ar ev.r)
  rw [order.sorted] at hperm hpair
  obtain ⟨l₁, l₂, hsplit, hhead, hcount⟩ :=
    exists_depth_eq (REvent.not_closes ev id) order.before
  rw [← length_get_readRun ev transactions] at hcount
  -- an open read makes the count behind that moment positive
  by_contra hne
  have hpos : 0 < (Queues.get (readRun ev transactions order.before).pendingRById id).length :=
    List.length_pos_of_ne_nil hne
  have hlt := order.before_lt
  rw [hsplit] at hperm hpair hlt
  cases l₂ with
  | nil =>
      simp only [List.countP_nil, Nat.zero_add] at hcount
      omega
  | cons x l₂ =>
      -- `x` is the request behind the last moment without an open read: the interval from its
      -- time on has more requests than last beats, against `hopen`
      have hx : x.kind = .ar := by
        have hopens := hhead x (by simp)
        simp only [REvent.opens, decide_eq_true_eq] at hopens
        exact hopens.1
      have hxrank : x.rank = 2 * x.time := by simp [REvent.rank, hx]
      have hnodup := hperm.nodup_iff.2 (nodup_revents ev)
      simp only [List.append_assoc, List.cons_append] at hperm hpair hnodup
      have hmem : ∀ y ∈ l₁ ++ x :: (l₂ ++ a :: b :: order.behind), y ∈ revents ev.ar ev.r :=
        fun y => hperm.mem_iff.1
      refine hopen ⟨x.time, ?_⟩
      -- `x` is the only request of its time, and requests are first
      have h₁ : ∀ y ∈ l₁, y.time < x.time := by
        intro y hy
        have hle := (List.pairwise_append.1 hpair).2.2 y hy x (by simp)
        have hyx : y.rank ≠ x.rank := fun heq =>
          (List.nodup_append.1 hnodup).2.2 y hy x (by simp)
            (h.eq_of_rank (hmem y (by simp [hy])) (hmem x (by simp)) heq)
        have : 2 * y.time ≤ y.rank := Nat.le_add_right _ _
        omega
      have h₂ : ∀ y ∈ x :: l₂, x.time ≤ y.time ∧ y.time < a.time := by
        intro y hy
        refine ⟨?_, hlt y (List.mem_append_right _ hy)⟩
        rcases List.mem_cons.1 hy with rfl | hy
        · exact le_rfl
        · exact REvent.time_le_of_rank_le
            ((List.pairwise_cons.1 (List.pairwise_append.1 hpair).2.1).1 y (by simp [hy]))
      have h₃ : ∀ y ∈ a :: b :: order.behind, a.time ≤ y.time := by
        have hend := (List.pairwise_append.1 (List.pairwise_cons.1
          (List.pairwise_append.1 hpair).2.1).2).2.1
        intro y hy
        rcases List.mem_cons.1 hy with rfl | hy
        · exact le_rfl
        · exact REvent.time_le_of_rank_le ((List.pairwise_cons.1 hend).1 y hy)
      rw [requests_eq, lastBeats_eq, countP_segment hperm h₁ h₂ h₃, countP_segment hperm h₁ h₂ h₃]
      omega

/-! ### The beats of the reads -/

/-- The beat has been given to a read. -/
def Attached (st : ReadState) (beat : AxiHandshakeEvent) : Prop :=
  (∃ txn ∈ st.transactions, txn.isWrite = false ∧ beat ∈ txn.dataEvents) ∨
    ∃ read ∈ Queues.flat st.pendingRById, beat ∈ read.beats.map RBeat.event

lemma mem_emit_iff (transactions : List AxiTransaction) (txn t : AxiTransaction) :
    t ∈ emit transactions txn ↔
      t ∈ transactions ∨ t = { txn with index := transactions.length } := by
  simp [emit]

lemma mem_addBeat_iff (read : PendingRead) (beat : RBeat) (e : AxiHandshakeEvent) :
    e ∈ (read.addBeat beat).beats.map RBeat.event ↔
      e ∈ read.beats.map RBeat.event ∨ e = beat.event := by
  simp [PendingRead.addBeat]

/-- A step attaches its own beat, if a read of its id is open, and no other. -/
lemma attached_readStep_iff (ev : Events) (st : ReadState) (re : REvent)
    (beat : AxiHandshakeEvent) :
    Attached (readStep ev.ar ev.r st re) beat ↔ Attached st beat ∨ re.kind = .r ∧
      beat = ev.r.getD re.idx default ∧ Queues.get st.pendingRById beat.id ≠ [] := by
  cases hkind : re.kind with
  | ar =>
      have hperm := Queues.flat_push_perm st.pendingRById (ev.ar.getD re.idx default).id
        { arIdx := re.idx }
      rw [readStep_ar hkind]
      simp only [Attached, hperm.mem_iff, List.mem_cons, exists_eq_or_imp, List.map_nil,
        List.not_mem_nil, false_or, reduceCtorEq, false_and, or_false]
  | r =>
      simp only [true_and]
      cases hq : Queues.get st.pendingRById (ev.r.getD re.idx default).id with
      | nil =>
          rw [readStep_dropped hkind hq]
          refine ⟨.inl, ?_⟩
          rintro (h | ⟨rfl, hne⟩)
          · exact h
          · exact absurd hq hne
      | cons read rest =>
          have hsplit := Queues.flat_pop_perm st.pendingRById hq
          have hnew : (beat = ev.r.getD re.idx default ∧ Queues.get st.pendingRById beat.id ≠ []) ↔
              beat = ev.r.getD re.idx default := by
            refine ⟨And.left, ?_⟩
            rintro rfl
            exact ⟨rfl, by rw [hq]; simp⟩
          rw [hnew]
          cases hlast : (ev.r.getD re.idx default).last with
          | true =>
              have hdata : (completeRead ev.ar (read.addBeat ⟨re.idx, ev.r.getD re.idx default⟩)
                  (ev.r.getD re.idx default)).dataEvents =
                    (read.addBeat ⟨re.idx, ev.r.getD re.idx default⟩).beats.map RBeat.event := rfl
              have hread : (completeRead ev.ar (read.addBeat ⟨re.idx, ev.r.getD re.idx default⟩)
                  (ev.r.getD re.idx default)).isWrite = false := rfl
              rw [readStep_last hkind hq hlast]
              simp only [Attached, mem_emit_iff, hsplit.mem_iff, List.mem_cons,
                or_and_right, exists_or, exists_eq_left, hdata, hread, mem_addBeat_iff, true_and,
                or_assoc, or_left_comm, or_comm]
          | false =>
              have hperm := Queues.flat_modifyFront_perm st.pendingRById
                (PendingRead.addBeat ⟨re.idx, ev.r.getD re.idx default⟩) hq
              rw [readStep_more hkind hq hlast]
              simp only [Attached, hperm.mem_iff, hsplit.mem_iff, List.mem_cons, or_and_right,
                exists_or, exists_eq_left, mem_addBeat_iff, or_assoc, or_left_comm, or_comm]

/-- The beats of the reads that are assembled. -/
lemma attached_iff_mem_readsOf (ev : Events) (st : ReadState) (beat : AxiHandshakeEvent) :
    Attached st beat ↔ ∃ txn ∈ readsOf ((Queues.flat st.pendingRById).foldl
      (fun transactions read => emit transactions (incompleteRead ev.ar read)) st.transactions),
        beat ∈ txn.dataEvents := by
  have hreads : ∀ (pending : List PendingRead) (transactions : List AxiTransaction),
      ((∃ txn ∈ transactions, txn.isWrite = false ∧ beat ∈ txn.dataEvents) ∨
          ∃ read ∈ pending, beat ∈ read.beats.map RBeat.event) ↔
        ∃ txn ∈ readsOf (pending.foldl
          (fun transactions read => emit transactions (incompleteRead ev.ar read)) transactions),
            beat ∈ txn.dataEvents := by
    intro pending
    induction pending with
    | nil =>
        intro transactions
        simp only [List.foldl_nil, List.not_mem_nil, false_and, exists_false, or_false]
        constructor
        · rintro ⟨txn, hmem, hread, hbeat⟩
          exact ⟨_, ⟨txn, hmem, hread, rfl⟩, hbeat⟩
        · rintro ⟨_, ⟨txn, hmem, hread, rfl⟩, hbeat⟩
          exact ⟨txn, hmem, hread, hbeat⟩
    | cons read pending ih =>
        intro transactions
        have hdata : (incompleteRead ev.ar read).dataEvents = read.beats.map RBeat.event := rfl
        have hread : (incompleteRead ev.ar read).isWrite = false := rfl
        rw [List.foldl_cons, ← ih]
        simp only [mem_emit_iff, List.mem_cons, or_and_right, exists_or, exists_eq_left, hdata,
          hread, true_and, or_assoc]
  exact hreads _ _

lemma not_attached_writes (ev : Events) (beat : AxiHandshakeEvent) :
    ¬ Attached { transactions := assembleWrites ev.aw ev.w ev.b } beat := by
  rintro (⟨txn, hmem, hread, -⟩ | ⟨read, hmem, -⟩)
  · rw [assembleWrites_eq] at hmem
    obtain ⟨o, ho, i, rfl⟩ := mem_renderAll hmem
    rw [show (o.render ev).isWrite = o.isWrite from Origin.render_isWrite ev o] at hread
    cases o with
    | write aw ws b => cases hread
    | orphan p => cases hread
    | read ar rs complete => exact writeOrigins_not_read ev ho
  · simp at hmem

/-- A beat that is attached behind a run was attached before it, or is one of the run. -/
lemma attached_foldl {ev : Events} {st : ReadState} {beat : AxiHandshakeEvent} (l : List REvent)
    (h : Attached (l.foldl (readStep ev.ar ev.r) st) beat) :
    Attached st beat ∨ ∃ re ∈ l, re.kind = .r ∧ beat = ev.r.getD re.idx default := by
  induction l generalizing st with
  | nil => exact .inl h
  | cons re l ih =>
      rcases ih h with h | ⟨re', hmem, hre'⟩
      · rcases (attached_readStep_iff ev st re beat).1 h with h | ⟨hkind, hbeat, -⟩
        · exact .inl h
        · exact .inr ⟨re, List.mem_cons_self, hkind, hbeat⟩
      · exact .inr ⟨re', List.mem_cons_of_mem _ hmem, hre'⟩

lemma Attached.foldl {ev : Events} {st : ReadState} {beat : AxiHandshakeEvent}
    (h : Attached st beat) (l : List REvent) : Attached (l.foldl (readStep ev.ar ev.r) st) beat := by
  induction l generalizing st with
  | nil => exact h
  | cons re l ih => exact ih ((attached_readStep_iff ev st re beat).2 (.inl h))

/-- The reads that an order of the events leads to. -/
lemma mem_readsOf_sortAs {ev : Events} {output : List REvent}
    (hperm : output.Perm (revents ev.ar ev.r))
    (hsorted : output.Pairwise fun a b => a.time ≤ b.time) (beat : AxiHandshakeEvent) :
    Attached (readRun ev (assembleWrites ev.aw ev.w ev.b) output) beat ↔
      ∃ txn ∈ readsOf (assembleAxiTransactions (sortAs _ output hperm hsorted)
        ev.aw ev.w ev.b ev.ar ev.r), beat ∈ txn.dataEvents := by
  have hsort : (sortAs _ output hperm hsorted).sort (revents ev.ar ev.r) = output := if_pos rfl
  rw [attached_iff_mem_readsOf ev, assembleAxiTransactions, assembleReads, hsort, readRun]

namespace TieOrder

variable {ev : Events} {a b : REvent} (order : TieOrder ev a b)

lemma perm : (order.before ++ a :: b :: order.behind).Perm (revents ev.ar ev.r) := by
  rw [← order.sorted]
  exact requestsFirst.perm _

lemma pairwise_time :
    (order.before ++ a :: b :: order.behind).Pairwise fun x y => x.time ≤ y.time := by
  rw [← order.sorted]
  exact requestsFirst.sorted _

/-- The order with the beat first. -/
lemma swapped_perm : (order.before ++ b :: a :: order.behind).Perm (revents ev.ar ev.r) :=
  ((List.Perm.swap _ _ _).append_left order.before).trans order.perm

lemma swapped_pairwise_time (htime : a.time = b.time) :
    (order.before ++ b :: a :: order.behind).Pairwise fun x y => x.time ≤ y.time := by
  have hend : SortedBy REvent.time ([a] ++ b :: order.behind) :=
    (List.pairwise_append.1 order.pairwise_time).2.1
  have hmoved := hend.move_first (by simpa using htime)
  exact SortedBy.replace_end order.pairwise_time hmoved fun x hx =>
    (List.Perm.swap _ _ _).mem_iff.1 hx

variable {order} {transactions : List AxiTransaction} {beat : AxiHandshakeEvent}

/-- With the request first the beat is attached. -/
lemma attached (hak : a.kind = .ar) (hbk : b.kind = .r)
    (hid : (ev.ar.getD a.idx default).id = beat.id) (hbeat : beat = ev.r.getD b.idx default) :
    Attached (readRun ev transactions (order.before ++ a :: b :: order.behind)) beat := by
  rw [readRun, List.foldl_append, List.foldl_cons, List.foldl_cons]
  refine Attached.foldl ((attached_readStep_iff ev _ _ _).2 (.inr ⟨hbk, hbeat, ?_⟩)) _
  rw [readStep_ar hak, hid, Queues.get_push_self]
  simp

/-- With the beat first it is dropped. -/
lemma not_attached (h : StrictTimes ev) (hbk : b.kind = .r)
    (hbeat : beat = ev.r.getD b.idx default)
    (hempty : Queues.get (readRun ev transactions order.before).pendingRById beat.id = [])
    (hinit : ¬ Attached { transactions := transactions } beat) :
    ¬ Attached (readRun ev transactions (order.before ++ b :: a :: order.behind)) beat := by
  have hskip : readRun ev transactions (order.before ++ b :: a :: order.behind) =
      readRun ev transactions (order.before ++ a :: order.behind) := by
    rw [hbeat] at hempty
    have hdrop : readStep ev.ar ev.r (readRun ev transactions order.before) b =
        readRun ev transactions order.before := readStep_dropped hbk hempty
    unfold readRun at hdrop ⊢
    rw [List.foldl_append, List.foldl_cons, hdrop, List.foldl_append]
  rw [hskip]
  intro hatt
  rcases attached_foldl _ hatt with hatt | ⟨re, hmem, hkind, hre⟩
  · exact hinit hatt
  · -- another beat with the same contents would have the same time
    have hall : ∀ x ∈ order.before ++ b :: a :: order.behind, x ∈ revents ev.ar ev.r := fun x =>
      order.swapped_perm.mem_iff.1
    have hremem : re ∈ revents ev.ar ev.r := hall re (by
      simp only [List.mem_append, List.mem_cons] at hmem ⊢
      tauto)
    have hbmem : b ∈ revents ev.ar ev.r := hall b (by simp)
    have htime : re.time = b.time := by
      have h₁ := revents_timed ev re hremem
      have h₂ := revents_timed ev b hbmem
      simp only [REvent.Timed, hkind] at h₁
      simp only [REvent.Timed, hbk] at h₂
      rw [h₁, h₂, ← hre, ← hbeat]
    obtain rfl : re = b := h.eq_of_time hremem hbmem (hkind.trans hbk.symm) htime
    have hnodup := order.swapped_perm.nodup_iff.2 (nodup_revents ev)
    exact (List.nodup_cons.1 (List.nodup_middle.1 hnodup)).1 hmem

end TieOrder

/-- At a tie without an open read the two orders lead to different reads. -/
lemma not_tieIndependent {ev : Events} (hstrict : StrictTimes ev) {a r : AxiHandshakeEvent}
    (ha : a ∈ ev.ar) (hr : r ∈ ev.r) (htime : a.time = r.time) (hid : a.id = r.id)
    (hopen : ¬ OpenBefore ev a.id a.time) : ¬ TieIndependent ev := by
  obtain ⟨i, hi, rfl⟩ := List.getElem_of_mem ha
  obtain ⟨j, hj, rfl⟩ := List.getElem_of_mem hr
  have hgeti : ev.ar.getD i default = ev.ar[i] := List.getD_eq_getElem _ _ hi
  have hgetj : ev.r.getD j default = ev.r[j] := List.getD_eq_getElem _ _ hj
  obtain ⟨order⟩ := exists_tieOrder hstrict
    ((mem_revents_iff ev _).2 (.inl ⟨i, hi, rfl⟩)) ((mem_revents_iff ev _).2 (.inr ⟨j, hj, rfl⟩))
    rfl rfl htime
  have hempty := order.get_eq_nil hstrict (assembleWrites ev.aw ev.w ev.b) hopen
  rw [hid] at hempty
  have hattached : Attached (readRun ev (assembleWrites ev.aw ev.w ev.b)
      (order.before ++ _ :: _ :: order.behind)) ev.r[j] :=
    TieOrder.attached rfl rfl (by rw [hgeti, hid]) hgetj.symm
  have hdropped := TieOrder.not_attached hstrict rfl hgetj.symm hempty
    (not_attached_writes ev ev.r[j])
  rw [mem_readsOf_sortAs order.perm order.pairwise_time] at hattached
  rw [mem_readsOf_sortAs order.swapped_perm (order.swapped_pairwise_time htime)] at hdropped
  intro htie
  rw [htie _ (sortAs _ _ order.swapped_perm (order.swapped_pairwise_time htime))] at hattached
  exact hdropped hattached

/-- All orders of the events lead to the same reads exactly if every tie of an id finds an
open read. -/
theorem tieIndependent_iff (ev : Events) (har : ev.ar.Pairwise fun a b => a.time < b.time)
    (hr : ev.r.Pairwise fun a b => a.time < b.time) :
    TieIndependent ev ↔ TiesHaveOpenRead ev := by
  have hstrict : StrictTimes ev := ⟨har, hr⟩
  constructor
  · intro h a ha r hr htime hid
    by_contra hopen
    exact not_tieIndependent hstrict ha hr htime hid hopen h
  · intro h std₁ std₂
    rw [assembleAxiTransactions, assembleAxiTransactions, assembleReads_eq hstrict h std₁ std₂]

/-- A second request at the time of the last beat of the first. -/
def openTie : Events where
  aw := []
  w := []
  b := []
  ar := [{ channel := .ar, time := 5, id := "0" }, { channel := .ar, time := 10, id := "0" }]
  r := [{ channel := .r, time := 10, id := "0", data := "5", last := true }]

/-- The first read is open, so that the tie does not matter. -/
theorem openTie_tieIndependent : TieIndependent openTie := by
  refine (tieIndependent_iff openTie (by decide) (by decide)).2 ?_
  intro a ha r hr htime hid
  have ha' : a.id = "0" ∧ a.time = 10 := by
    simp only [openTie, List.mem_cons, List.not_mem_nil, or_false] at ha hr
    rcases ha with rfl | rfl <;> subst hr <;> simp_all
  rw [ha'.1, ha'.2]
  exact ⟨5, by decide⟩

/-- A request and the only beat of its id at one time. -/
def lonelyTie : Events where
  aw := []
  w := []
  b := []
  ar := [{ channel := .ar, time := 10, id := "0" }]
  r := [{ channel := .r, time := 10, id := "0", data := "5", last := true }]

/-- The beat is attached with the request first, and dropped with the beat first. -/
theorem lonelyTie_not_tieIndependent :
    lonelyTie.ar.Pairwise (fun a b => a.time < b.time) ∧
      lonelyTie.r.Pairwise (fun a b => a.time < b.time) ∧ ¬ TieIndependent lonelyTie := by
  refine ⟨by decide, by decide, ?_⟩
  refine not_tieIndependent ⟨by decide, by decide⟩ List.mem_cons_self List.mem_cons_self rfl rfl ?_
  rintro ⟨s, hs⟩
  simp [lastBeats, requests, lonelyTie] at hs

end XdebugFst.Axi
