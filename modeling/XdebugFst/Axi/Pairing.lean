import Mathlib.Data.List.GetD
import XdebugFst.Axi.Assemble

/-!
# Where the parts of an AXI transaction come from

A transaction is a copy of the handshakes it was built from.  An `Origin` names them by
their positions in the five vectors, and `renderAll` builds the transactions back from
their origins.  The assembly is then a statement about origins: `Conserves` says that
every address and every response occurs once, which W beats belong to which address, and
which response completes which write.

The writes follow from two facts about the data structures.  The W beats that the
splitter puts into burst `j` are those with `j` WLAST beats before them, and the queues
by id serve the responses of an id in order.
-/

namespace XdebugFst.Axi

open Lib

/-- The handshakes of the five channels. -/
structure Events where
  aw : List AxiHandshakeEvent
  w : List AxiHandshakeEvent
  b : List AxiHandshakeEvent
  ar : List AxiHandshakeEvent
  r : List AxiHandshakeEvent

/-- The handshakes a transaction is built from. -/
inductive Origin
  | write (aw : ℕ) (ws : List ℕ) (b : Option ℕ)
  | orphan (b : ℕ)
  | read (ar : ℕ) (rs : List ℕ) (complete : Bool)

namespace Origin

def aw? : Origin → Option ℕ
  | write aw _ _ => some aw
  | _ => none

def b? : Origin → Option ℕ
  | write _ _ b => b
  | orphan b => some b
  | read _ _ _ => none

def ar? : Origin → Option ℕ
  | read ar _ _ => some ar
  | _ => none

def ws : Origin → List ℕ
  | write _ ws _ => ws
  | _ => []

def rs : Origin → List ℕ
  | read _ rs _ => rs
  | _ => []

def isOrphan : Origin → Bool
  | orphan _ => true
  | _ => false

def isWrite : Origin → Bool
  | read _ _ _ => false
  | _ => true

/-- The transaction with this origin, without its index. -/
def render (ev : Events) : Origin → AxiTransaction
  | write aw ws b =>
      let write := { awIdx := aw, dataEvents := ws.map fun j => ev.w.getD j default }
      match b with
      | none => incompleteWrite ev.aw write
      | some p => completeWrite ev.aw write (ev.b.getD p default)
  | orphan p => orphanResponse (ev.b.getD p default)
  | read ar rs complete =>
      let read := { arIdx := ar, beats := rs.map fun j => ⟨j, ev.r.getD j default⟩ }
      if complete then completeRead ev.ar read (ev.r.getD (rs.getLastD 0) default)
      else incompleteRead ev.ar read

@[simp] lemma render_isWrite (ev : Events) (o : Origin) : (o.render ev).isWrite = o.isWrite := by
  cases o with
  | write aw ws b => cases b <;> rfl
  | orphan p => rfl
  | read ar rs complete => cases complete <;> rfl

end Origin

/-- The transactions with these origins, numbered by their place. -/
def renderAll (ev : Events) (os : List Origin) : List AxiTransaction :=
  os.zipIdx.map fun o => { o.1.render ev with index := o.2 }

@[simp] lemma length_renderAll (ev : Events) (os : List Origin) :
    (renderAll ev os).length = os.length := by
  simp [renderAll]

lemma emit_renderAll (ev : Events) (os : List Origin) (o : Origin) :
    emit (renderAll ev os) (o.render ev) = renderAll ev (os ++ [o]) := by
  simp [emit, renderAll, List.zipIdx_append]

lemma foldl_emit_renderAll {α : Type} (ev : Events) (f : α → AxiTransaction) (g : α → Origin)
    (l : List α) (os : List Origin) (h : ∀ x ∈ l, f x = (g x).render ev) :
    l.foldl (fun transactions x => emit transactions (f x)) (renderAll ev os) =
      renderAll ev (os ++ l.map g) := by
  induction l generalizing os with
  | nil => simp
  | cons x l ih =>
      rw [List.foldl_cons, h x (by simp), emit_renderAll,
        ih _ fun y hy => h y (List.mem_cons_of_mem _ hy)]
      simp

lemma mem_renderAll {ev : Events} {os : List Origin} {txn : AxiTransaction}
    (h : txn ∈ renderAll ev os) : ∃ o ∈ os, ∃ i, txn = { o.render ev with index := i } := by
  obtain ⟨⟨o, i⟩, hmem, rfl⟩ := List.mem_map.1 h
  exact ⟨o, (List.mem_zipIdx' hmem).2 ▸ List.getElem_mem _, i, rfl⟩

lemma render_mem_renderAll (ev : Events) {os : List Origin} {o : Origin} (h : o ∈ os) :
    ∃ i, { o.render ev with index := i } ∈ renderAll ev os := by
  obtain ⟨i, hi, rfl⟩ := List.getElem_of_mem h
  exact ⟨i, List.mem_map.2 ⟨(os[i], i), List.mk_mem_zipIdx_iff_getElem?.2 (by simp [hi]), rfl⟩⟩

/-! ### The W bursts -/

/-- The number of WLAST beats before a beat: the burst it belongs to. -/
def burstNumber (wEvents : List AxiHandshakeEvent) (p : ℕ) : ℕ :=
  (wEvents.take p).countP AxiHandshakeEvent.last

/-- The number of bursts that WLAST ends. -/
def burstCount (wEvents : List AxiHandshakeEvent) : ℕ :=
  wEvents.countP AxiHandshakeEvent.last

/-- The positions of the beats of a burst.  The beats behind the last WLAST are the burst
of number `burstCount`. -/
def burstPositions (wEvents : List AxiHandshakeEvent) (j : ℕ) : List ℕ :=
  (List.range wEvents.length).filter fun p => burstNumber wEvents p = j

lemma burstNumber_snoc (w : List AxiHandshakeEvent) (e : AxiHandshakeEvent) {p : ℕ}
    (h : p ≤ w.length) : burstNumber (w ++ [e]) p = burstNumber w p := by
  rw [burstNumber, List.take_append_of_le_length h, burstNumber]

lemma burstPositions_snoc (w : List AxiHandshakeEvent) (e : AxiHandshakeEvent) (j : ℕ) :
    burstPositions (w ++ [e]) j =
      burstPositions w j ++ if burstCount w = j then [w.length] else [] := by
  have hlast : burstNumber (w ++ [e]) w.length = burstCount w := by
    rw [burstNumber_snoc w e le_rfl, burstNumber, List.take_length, burstCount]
  simp only [burstPositions, List.length_append, List.length_singleton, List.range_succ,
    List.filter_append, List.filter_singleton, hlast]
  congr 1
  · refine List.filter_congr fun p hp => ?_
    rw [burstNumber_snoc w e (List.mem_range.1 hp).le]
  · by_cases h : burstCount w = j <;> simp [h]

/-- The beats at the positions of a burst. -/
def burstBeats (wEvents : List AxiHandshakeEvent) (j : ℕ) : List AxiHandshakeEvent :=
  (burstPositions wEvents j).map fun p => wEvents.getD p default

lemma burstBeats_snoc (w : List AxiHandshakeEvent) (e : AxiHandshakeEvent) (j : ℕ) :
    burstBeats (w ++ [e]) j = burstBeats w j ++ if burstCount w = j then [e] else [] := by
  have hold : (burstPositions w j).map (fun p => (w ++ [e]).getD p default) =
      burstBeats w j := by
    refine List.map_congr_left fun p hp => ?_
    have hp' : p < w.length := by simpa using (List.mem_filter.1 hp).1
    rw [List.getD_append _ _ _ _ hp']
  rw [burstBeats, burstPositions_snoc, List.map_append, hold]
  congr 1
  by_cases h : burstCount w = j
  · simp only [h, if_true, List.map_cons, List.map_nil]
    rw [List.getD_append_right _ _ _ _ le_rfl]
    simp
  · simp [h]

lemma burstBeats_eq_nil {w : List AxiHandshakeEvent} {j : ℕ} (h : burstCount w < j) :
    burstBeats w j = [] := by
  induction w using List.reverseRecOn generalizing j with
  | nil => rfl
  | append_singleton w e ih =>
      have hle : burstCount w ≤ burstCount (w ++ [e]) := by simp [burstCount]
      rw [burstBeats_snoc, ih (by omega), if_neg (by omega), List.append_nil]

/-- What the splitter computes. -/
lemma splitBursts_spec (w : List AxiHandshakeEvent) :
    (splitBursts w).1 = (List.range (burstCount w)).map (burstBeats w) ∧
      (splitBursts w).2 = burstBeats w (burstCount w) := by
  induction w using List.reverseRecOn with
  | nil => simp [splitBursts, burstCount, burstBeats, burstPositions]
  | append_singleton w e ih =>
      have hold : (List.range (burstCount w)).map (burstBeats (w ++ [e])) =
          (List.range (burstCount w)).map (burstBeats w) := by
        refine List.map_congr_left fun j hj => ?_
        rw [burstBeats_snoc, if_neg (by have := List.mem_range.1 hj; omega), List.append_nil]
      have hcur : burstBeats (w ++ [e]) (burstCount w) = burstBeats w (burstCount w) ++ [e] := by
        rw [burstBeats_snoc, if_pos rfl]
      have hstep : splitBursts (w ++ [e]) = burstStep (splitBursts w) e := by
        simp [splitBursts]
      rw [hstep, burstStep, ih.1, ih.2]
      cases he : e.last with
      | false =>
          have hcount : burstCount (w ++ [e]) = burstCount w := by simp [burstCount, he]
          simp [hcount, hold, hcur]
      | true =>
          have hcount : burstCount (w ++ [e]) = burstCount w + 1 := by simp [burstCount, he]
          have hnext : burstBeats (w ++ [e]) (burstCount w + 1) = [] := by
            rw [burstBeats_snoc, burstBeats_eq_nil (by omega), if_neg (by omega)]
            rfl
          simp [hcount, hold, hcur, hnext, List.range_succ]

lemma length_splitBursts (w : List AxiHandshakeEvent) :
    (splitBursts w).1.length = burstCount w := by
  rw [(splitBursts_spec w).1]
  simp

/-! ### The writes -/

/-- The write of an AW request. -/
def writeOrigin (ev : Events) (i : ℕ) (b : Option ℕ) : Origin :=
  .write i (burstPositions ev.w i) b

/-- The write has the data of its own burst. -/
def HasBurst (ev : Events) (write : PendingWrite) : Prop :=
  write.dataEvents = burstBeats ev.w write.awIdx

lemma HasBurst.incompleteWrite {ev : Events} {write : PendingWrite} (h : HasBurst ev write) :
    incompleteWrite ev.aw write = (writeOrigin ev write.awIdx none).render ev := by
  rcases write with ⟨i, data⟩
  obtain rfl : data = burstBeats ev.w i := h
  rfl

lemma HasBurst.completeWrite {ev : Events} {write : PendingWrite} (h : HasBurst ev write)
    (p : ℕ) : completeWrite ev.aw write (ev.b.getD p default) =
      (writeOrigin ev write.awIdx (some p)).render ev := by
  rcases write with ⟨i, data⟩
  obtain rfl : data = burstBeats ev.w i := h
  rfl

lemma dataDoneWrites_eq (ev : Events) :
    dataDoneWrites ev.aw ev.w =
      (List.range (min ev.aw.length (burstCount ev.w))).map fun i => ⟨i, burstBeats ev.w i⟩ := by
  unfold dataDoneWrites pairedBursts
  rw [length_splitBursts]
  refine List.map_congr_left fun i hi => ?_
  have hi' : i < burstCount ev.w := by have := List.mem_range.1 hi; omega
  rw [(splitBursts_spec ev.w).1, List.getD_eq_getElem _ _ (by simpa using hi')]
  simp

lemma hasBurst_of_mem_dataDone {ev : Events} {write : PendingWrite}
    (h : write ∈ Queues.flat (dataDoneById ev.aw ev.w)) : HasBurst ev write := by
  have hmem := (Queues.flat_foldl_push (fun write => (awAt ev.aw write.awIdx).id)
    (dataDoneWrites ev.aw ev.w) .empty).mem_iff.1 h
  rw [Queues.flat_empty, List.append_nil, dataDoneWrites_eq] at hmem
  obtain ⟨i, -, rfl⟩ := List.mem_map.1 hmem
  rfl

lemma pendingW_eq (ev : Events) :
    pendingW ev.aw ev.w =
      (List.range' (min ev.aw.length (burstCount ev.w))
        (ev.aw.length - min ev.aw.length (burstCount ev.w))).map
          fun i => ⟨i, burstBeats ev.w i⟩ := by
  simp only [pendingW, pairedBursts, length_splitBursts]
  refine List.map_congr_left fun i hi => ?_
  rw [List.mem_range'_1] at hi
  -- an AW without a burst exists only when the bursts run out first
  have hmin : min ev.aw.length (burstCount ev.w) = burstCount ev.w := by omega
  rw [hmin] at hi ⊢
  split_ifs with h
  · rw [(splitBursts_spec ev.w).2, h]
  · rw [burstBeats_eq_nil (by omega)]

/-- The writes of an id whose burst is complete. -/
def dataCompleteAws (ev : Events) (id : String) : List ℕ :=
  (List.range (min ev.aw.length (burstCount ev.w))).filter fun i => (awAt ev.aw i).id = id

lemma get_dataDoneById (ev : Events) (id : String) :
    Queues.get (dataDoneById ev.aw ev.w) id =
      (dataCompleteAws ev id).map fun i => ⟨i, burstBeats ev.w i⟩ := by
  have h := Queues.get_foldl_push (fun write => (awAt ev.aw write.awIdx).id)
    (dataDoneWrites ev.aw ev.w) .empty id
  rw [Queues.get_empty, List.nil_append, dataDoneWrites_eq, List.filter_map] at h
  rw [dataDoneById, dataDoneWrites_eq, h]
  rfl

/-- The writes that responses complete, for the results of serving the responses from
position `c` on. -/
def matchedOrigins (ev : Events) (c : ℕ) (results : List (Option PendingWrite)) : List Origin :=
  (results.zipIdx c).filterMap fun r =>
    r.1.map fun write => writeOrigin ev write.awIdx (some r.2)

/-- A response whose id has no write waiting changes nothing. -/
lemma responseStep_of_nil {ev : Events} {m : Queues String PendingWrite} {b : AxiHandshakeEvent}
    (hq : Queues.get m b.id = []) (used : List Bool) (os : List Origin) (c : ℕ) :
    responseStep ev.aw ⟨m, used, renderAll ev os⟩ (b, c) = ⟨m, used, renderAll ev os⟩ := by
  simp [responseStep, hq]

/-- A response completes the first write that waits for its id. -/
lemma responseStep_of_cons {ev : Events} {m : Queues String PendingWrite} {write : PendingWrite}
    {rest : List PendingWrite} {b : AxiHandshakeEvent} {c : ℕ} (hwrite : HasBurst ev write)
    (hbc : ev.b.getD c default = b) (hq : Queues.get m b.id = write :: rest) (used : List Bool)
    (os : List Origin) :
    responseStep ev.aw ⟨m, used, renderAll ev os⟩ (b, c) =
      ⟨Queues.pop m b.id, used.set c true,
        renderAll ev (os ++ [writeOrigin ev write.awIdx (some c)])⟩ := by
  rw [← emit_renderAll, ← hwrite.completeWrite c, hbc]
  simp [responseStep, hq]

lemma getD_set_of_ne {used : List Bool} {c q : ℕ} (h : c ≠ q) :
    (used.set c true).getD q false = used.getD q false := by
  simp only [List.getD_eq_getElem?_getD]
  rw [List.getElem?_set_ne h]

/-- The loop over the responses serves the queues by id. -/
lemma foldl_responseStep (ev : Events) (bs : List AxiHandshakeEvent) {c : ℕ}
    (m : Queues String PendingWrite) (used : List Bool) (os : List Origin)
    (hb : ev.b.drop c = bs) (hused : used.length = ev.b.length)
    (hfree : ∀ q, c ≤ q → used.getD q false = false)
    (hm : ∀ write ∈ Queues.flat m, HasBurst ev write) :
    ∃ used', (bs.zipIdx c).foldl (responseStep ev.aw) ⟨m, used, renderAll ev os⟩ =
        ⟨(Queues.serve m (bs.map AxiHandshakeEvent.id)).2, used',
          renderAll ev (os ++
            matchedOrigins ev c (Queues.serve m (bs.map AxiHandshakeEvent.id)).1)⟩ ∧
      used'.length = ev.b.length ∧ (∀ q < c, used'.getD q false = used.getD q false) ∧
      ∀ q r, (Queues.serve m (bs.map AxiHandshakeEvent.id)).1[q]? = some r →
        used'.getD (c + q) false = r.isSome := by
  induction bs generalizing c m used os with
  | nil => exact ⟨used, by simp [Queues.serve, matchedOrigins], hused, by simp [Queues.serve]⟩
  | cons b bs ih =>
      have hlt : c < ev.b.length := by
        by_contra h
        rw [List.drop_eq_nil_of_le (by omega)] at hb
        cases hb
      rw [List.drop_eq_getElem_cons hlt] at hb
      obtain ⟨hbc, hbs⟩ := List.cons.inj hb
      rw [← List.getD_eq_getElem _ default hlt] at hbc
      rw [List.zipIdx_cons, List.foldl_cons, List.map_cons]
      cases hq : Queues.get m b.id with
      | nil =>
          -- the response is used by no write
          obtain ⟨used', heq, hlen, hlow, hhigh⟩ :=
            ih m used os hbs hused (fun q hcq => hfree q (by omega)) hm
          refine ⟨used', ?_, hlen, fun q hqc => hlow q (by omega), ?_⟩
          · rw [responseStep_of_nil hq, heq]
            simp [Queues.serve, hq, Queues.pop_of_get_eq_nil hq, matchedOrigins]
          · intro q r hr
            cases q with
            | zero =>
                obtain rfl : none = r := by simpa [Queues.serve, hq] using hr
                rw [Nat.add_zero, hlow c (by omega), hfree c le_rfl]
                rfl
            | succ q =>
                rw [← Nat.add_assoc, Nat.add_right_comm]
                exact hhigh q r (by
                  simpa [Queues.serve, Queues.pop_of_get_eq_nil hq] using hr)
      | cons write rest =>
          have hwrite : HasBurst ev write :=
            hm write ((Queues.mem_flat_iff m write).2 ⟨b.id, by rw [hq]; simp⟩)
          obtain ⟨used', heq, hlen, hlow, hhigh⟩ :=
            ih (Queues.pop m b.id) (used.set c true)
              (os ++ [writeOrigin ev write.awIdx (some c)]) hbs (by simpa using hused)
              (fun q hcq => by rw [getD_set_of_ne (by omega)]; exact hfree q (by omega))
              (fun write' hmem => hm write'
                ((Queues.flat_pop_perm m hq).mem_iff.2 (List.mem_cons_of_mem _ hmem)))
          refine ⟨used', ?_, hlen, fun q hqc => ?_, ?_⟩
          · rw [responseStep_of_cons hwrite hbc hq, heq]
            simp [Queues.serve, hq, matchedOrigins]
          · rw [hlow q (by omega), getD_set_of_ne (by omega)]
          · intro q r hr
            cases q with
            | zero =>
                obtain rfl : some write = r := by simpa [Queues.serve, hq] using hr
                rw [Nat.add_zero, hlow c (by omega)]
                simp [hused, hlt]
            | succ q =>
                rw [← Nat.add_assoc, Nat.add_right_comm]
                exact hhigh q r (by simpa [Queues.serve] using hr)

/-- The number of earlier responses with the id of a response. -/
def responseRank (ev : Events) (p : ℕ) : ℕ :=
  (ev.b.take p).countP fun e => e.id = (ev.b.getD p default).id

/-- The write that a response completes: of the writes of its id whose burst is complete
the one at the rank of the response. -/
def responseTo (ev : Events) (p : ℕ) : Option ℕ :=
  (dataCompleteAws ev (ev.b.getD p default).id)[responseRank ev p]?

/-- The results of serving the responses. -/
def served (ev : Events) : List (Option PendingWrite) × Queues String PendingWrite :=
  Queues.serve (dataDoneById ev.aw ev.w) (ev.b.map AxiHandshakeEvent.id)

lemma served_eq (ev : Events) :
    (served ev).1 = (List.range ev.b.length).map fun p =>
      (responseTo ev p).map fun i => ⟨i, burstBeats ev.w i⟩ := by
  refine List.ext_getElem? fun p => ?_
  rcases lt_or_ge p ev.b.length with hp | hp
  · have hk : (ev.b.map AxiHandshakeEvent.id)[p]? = some (ev.b.getD p default).id := by
      simp [hp]
    have hcount : ((ev.b.map AxiHandshakeEvent.id).take p).count (ev.b.getD p default).id =
        responseRank ev p := by
      rw [← List.map_take, List.count, List.countP_map, responseRank]
      refine List.countP_congr fun e _ => ?_
      simp
    rw [served, Queues.serve_getElem? _ _ hk, hcount, get_dataDoneById, List.getElem?_map]
    simp [hp, responseTo]
  · rw [List.getElem?_eq_none, List.getElem?_eq_none]
    · simpa using hp
    · rw [served, Queues.length_serve]
      simpa using hp

/-- The origins of the write transactions. -/
def writeOrigins (ev : Events) : List Origin :=
  (List.range ev.b.length).filterMap
      (fun p => (responseTo ev p).map fun i => writeOrigin ev i (some p)) ++
    (Queues.flat (served ev).2).map (fun write => writeOrigin ev write.awIdx none) ++
    (pendingW ev.aw ev.w).map (fun write => writeOrigin ev write.awIdx none) ++
    ((List.range ev.b.length).filter fun p => (responseTo ev p).isNone).map Origin.orphan

lemma matchedOrigins_served (ev : Events) :
    matchedOrigins ev 0 (served ev).1 = (List.range ev.b.length).filterMap fun p =>
      (responseTo ev p).map fun i => writeOrigin ev i (some p) := by
  have hzip : (served ev).1.zipIdx = (List.range ev.b.length).map fun p =>
      ((responseTo ev p).map fun i => ⟨i, burstBeats ev.w i⟩, p) := by
    rw [served_eq, List.zipIdx_map]
    refine List.ext_getElem (by simp) fun p h₁ h₂ => ?_
    simp
  rw [matchedOrigins, hzip, List.filterMap_map]
  refine List.filterMap_congr fun p _ => ?_
  simp [Function.comp_def]

lemma hasBurst_of_mem_pendingW {ev : Events} {write : PendingWrite}
    (h : write ∈ pendingW ev.aw ev.w) : HasBurst ev write := by
  rw [pendingW_eq] at h
  obtain ⟨i, -, rfl⟩ := List.mem_map.1 h
  rfl

/-- The responses that are not used are those that complete nothing. -/
lemma orphans_eq {ev : Events} {used : List Bool}
    (hused : ∀ p r, (served ev).1[p]? = some r → used.getD p false = r.isSome) :
    ((ev.b.zipIdx).filter fun r => !used.getD r.2 false).map (fun r => Origin.orphan r.2) =
      ((List.range ev.b.length).filter fun p => (responseTo ev p).isNone).map Origin.orphan := by
  have hsnd : List.range ev.b.length = ev.b.zipIdx.map Prod.snd := by
    rw [List.zipIdx_map_snd, List.range_eq_range']
  rw [hsnd, List.filter_map, List.map_map]
  refine congrArg (List.map _) (List.filter_congr fun r hr => ?_)
  have hp : r.2 < ev.b.length := (List.mem_zipIdx' hr).1
  have hget : (served ev).1[r.2]? = some ((responseTo ev r.2).map fun i =>
      ⟨i, burstBeats ev.w i⟩) := by
    rw [served_eq]
    simp [hp]
  have hu := hused r.2 _ hget
  rw [Option.isSome_map] at hu
  rw [hu]
  cases h : responseTo ev r.2 <;> simp [h]

/-- A response that is not used is a transaction of its own. -/
lemma orphanResponse_eq_render {ev : Events} {r : AxiHandshakeEvent × ℕ} (h : r ∈ ev.b.zipIdx) :
    orphanResponse r.1 = (Origin.orphan r.2).render ev := by
  obtain ⟨e, p⟩ := r
  have hmem := List.mem_zipIdx' h
  have hb : ev.b.getD p default = e := by
    rw [List.getD_eq_getElem _ _ hmem.1]
    exact hmem.2.symm
  simp only [Origin.render, hb]

/-- The last loop looks only at the responses that are not used. -/
lemma foldl_unused (used : List Bool) (bs : List (AxiHandshakeEvent × ℕ))
    (transactions : List AxiTransaction) :
    bs.foldl (fun transactions response => if used.getD response.2 false then transactions
        else emit transactions (orphanResponse response.1)) transactions =
      (bs.filter fun r => !used.getD r.2 false).foldl
        (fun transactions response => emit transactions (orphanResponse response.1))
          transactions := by
  rw [List.foldl_filter]
  congr 1
  funext transactions r
  cases used.getD r.2 false <;> rfl

/-- The writes are those of `writeOrigins`. -/
lemma assembleWrites_eq (ev : Events) :
    assembleWrites ev.aw ev.w ev.b = renderAll ev (writeOrigins ev) := by
  obtain ⟨used, heq, -, -, hused⟩ := foldl_responseStep ev ev.b (c := 0)
    (dataDoneById ev.aw ev.w) (List.replicate ev.b.length false) [] (by simp) (by simp)
    (fun q _ => by
      rcases lt_or_ge q ev.b.length with h | h
      · rw [List.getD_eq_getElem _ _ (by simpa using h)]
        simp
      · rw [List.getD_eq_default _ _ (by simpa using h)])
    (fun write => hasBurst_of_mem_dataDone)
  have hused : ∀ p r, (served ev).1[p]? = some r → used.getD p false = r.isSome := by
    intro p r hget
    rw [← hused p r hget, Nat.zero_add]
  have hrest : ∀ write ∈ Queues.flat (served ev).2, HasBurst ev write := fun write hmem =>
    hasBurst_of_mem_dataDone
      ((Queues.flat_serve_perm _ _).mem_iff.2 (List.mem_append_right _ hmem))
  have horphan : ∀ r ∈ (ev.b.zipIdx).filter fun r => !used.getD r.2 false,
      orphanResponse r.1 = (Origin.orphan r.2).render ev := fun r hr =>
    orphanResponse_eq_render (List.mem_filter.1 hr).1
  have heq' : ev.b.zipIdx.foldl (responseStep ev.aw)
      ⟨dataDoneById ev.aw ev.w, List.replicate ev.b.length false, []⟩ =
      ⟨(served ev).2, used, renderAll ev (matchedOrigins ev 0 (served ev).1)⟩ := heq
  rw [assembleWrites]
  simp only [heq', foldl_unused]
  rw [matchedOrigins_served,
    foldl_emit_renderAll ev _ (fun write => writeOrigin ev write.awIdx none) _ _
      fun write h => (hrest write h).incompleteWrite,
    foldl_emit_renderAll ev _ (fun write => writeOrigin ev write.awIdx none) _ _
      fun write h => (hasBurst_of_mem_pendingW h).incompleteWrite,
    foldl_emit_renderAll ev _ (fun r => Origin.orphan r.2) _ _ horphan, orphans_eq hused]
  rfl

lemma writeOrigins_aws (ev : Events) :
    ((writeOrigins ev).filterMap Origin.aw?).Perm (List.range ev.aw.length) := by
  have hsplit := (Queues.flat_serve_perm (dataDoneById ev.aw ev.w)
    (ev.b.map AxiHandshakeEvent.id)).map PendingWrite.awIdx
  have hall : ((Queues.flat (dataDoneById ev.aw ev.w)).map PendingWrite.awIdx).Perm
      (List.range (min ev.aw.length (burstCount ev.w))) := by
    have h := (Queues.flat_foldl_push (fun write => (awAt ev.aw write.awIdx).id)
      (dataDoneWrites ev.aw ev.w) .empty).map PendingWrite.awIdx
    refine h.trans (List.Perm.of_eq ?_)
    simp [dataDoneWrites_eq, Function.comp_def]
  have hmatched : ((served ev).1.filterMap id).map PendingWrite.awIdx =
      (List.range ev.b.length).filterMap (responseTo ev) := by
    rw [served_eq, List.filterMap_map, List.map_filterMap]
    refine List.filterMap_congr fun p _ => ?_
    simp [Function.comp_def]
  have hpending : (pendingW ev.aw ev.w).map PendingWrite.awIdx =
      List.range' (min ev.aw.length (burstCount ev.w))
        (ev.aw.length - min ev.aw.length (burstCount ev.w)) := by
    simp [pendingW_eq, Function.comp_def]
  have hrange : List.range (min ev.aw.length (burstCount ev.w)) ++
      List.range' (min ev.aw.length (burstCount ev.w))
        (ev.aw.length - min ev.aw.length (burstCount ev.w)) = List.range ev.aw.length := by
    have h : List.range' 0 (min ev.aw.length (burstCount ev.w)) ++
        List.range' (0 + 1 * min ev.aw.length (burstCount ev.w))
          (ev.aw.length - min ev.aw.length (burstCount ev.w)) =
        List.range' 0 (min ev.aw.length (burstCount ev.w) +
          (ev.aw.length - min ev.aw.length (burstCount ev.w))) := List.range'_append
    rw [Nat.one_mul, Nat.zero_add, Nat.add_sub_cancel' (by omega)] at h
    rw [List.range_eq_range', List.range_eq_range']
    exact h
  have heq : (writeOrigins ev).filterMap Origin.aw? =
      (List.range ev.b.length).filterMap (responseTo ev) ++
        (Queues.flat (served ev).2).map PendingWrite.awIdx ++
        (pendingW ev.aw ev.w).map PendingWrite.awIdx := by
    simp [writeOrigins, writeOrigin, List.filterMap_append, List.filterMap_filterMap,
      List.filterMap_map, Function.comp_def, Origin.aw?, Option.bind_map]
  rw [heq, ← hmatched, hpending, ← hrange, ← List.map_append]
  exact (hsplit.symm.trans hall).append_right _

lemma writeOrigins_bs (ev : Events) :
    ((writeOrigins ev).filterMap Origin.b?).Perm (List.range ev.b.length) := by
  have hmatched : ((List.range ev.b.length).filterMap fun p =>
      (responseTo ev p).bind fun _ => some p) =
        (List.range ev.b.length).filter fun p => (responseTo ev p).isSome := by
    rw [← List.filterMap_eq_filter]
    refine List.filterMap_congr fun p _ => ?_
    cases h : responseTo ev p <;> simp [Option.guard, h]
  have heq : (writeOrigins ev).filterMap Origin.b? =
      ((List.range ev.b.length).filter fun p => (responseTo ev p).isSome) ++
        (List.range ev.b.length).filter fun p => (responseTo ev p).isNone := by
    rw [← hmatched]
    simp [writeOrigins, writeOrigin, List.filterMap_append, List.filterMap_filterMap,
      List.filterMap_map, Function.comp_def, Origin.b?, Option.bind_map]
  rw [heq]
  have hnone : (fun p => (responseTo ev p).isNone) = fun p => !(responseTo ev p).isSome := by
    funext p
    cases responseTo ev p <;> rfl
  rw [hnone]
  exact List.filter_append_perm _ _

/-! ### The reads -/

/-- The AR index of an AR event of the merge. -/
def REvent.ar? (re : REvent) : Option ℕ := if re.kind = .ar then some re.idx else none

/-- The R index of an R event of the merge. -/
def REvent.r? (re : REvent) : Option ℕ := if re.kind = .r then some re.idx else none

/-- The time of an event of the merge is that of the handshake it stands for. -/
def REvent.Timed (ev : Events) (re : REvent) : Prop :=
  match re.kind with
  | .ar => re.time = (ev.ar.getD re.idx default).time
  | .r => re.time = (ev.r.getD re.idx default).time

/-- The reads, as AR indices with R indices, after the events of `done`. -/
structure ReadCovers (ev : Events) (done : List REvent) (l : List (ℕ × List ℕ)) : Prop where
  ars : (l.map Prod.fst).Perm (done.filterMap REvent.ar?)
  rs_nodup : (l.flatMap Prod.snd).Nodup
  rs_sublist : ∀ x ∈ l, x.2.Sublist (done.filterMap REvent.r?)
  causal : ∀ x ∈ l, ∀ j ∈ x.2,
    (ev.ar.getD x.1 default).time ≤ (ev.r.getD j default).time

namespace ReadCovers

variable {ev : Events} {done : List REvent} {l l' : List (ℕ × List ℕ)} {re : REvent}

lemma perm (h : ReadCovers ev done l) (hl : l.Perm l') : ReadCovers ev done l' where
  ars := (hl.symm.map _).trans h.ars
  rs_nodup := (hl.symm.flatMap_right _).nodup_iff.2 h.rs_nodup
  rs_sublist x hx := h.rs_sublist x (hl.mem_iff.2 hx)
  causal x hx := h.causal x (hl.mem_iff.2 hx)

/-- An AR event opens a read. -/
lemma cons_new (h : ReadCovers ev done l) (hre : re.kind = .ar) :
    ReadCovers ev (done ++ [re]) ((re.idx, []) :: l) := by
  have har : (done ++ [re]).filterMap REvent.ar? = done.filterMap REvent.ar? ++ [re.idx] := by
    simp [List.filterMap_append, REvent.ar?, hre]
  have hr : (done ++ [re]).filterMap REvent.r? = done.filterMap REvent.r? := by
    simp [List.filterMap_append, REvent.r?, hre]
  refine ⟨?_, by simpa using h.rs_nodup, ?_, ?_⟩
  · rw [har, List.map_cons]
    exact (h.ars.cons _).trans (List.perm_append_singleton _ _).symm
  · intro x hx
    rw [hr]
    rcases List.mem_cons.1 hx with rfl | hx
    · exact List.nil_sublist _
    · exact h.rs_sublist x hx
  · intro x hx j hj
    rcases List.mem_cons.1 hx with rfl | hx
    · simp at hj
    · exact h.causal x hx j hj

/-- An R event that no read takes. -/
lemma skip (h : ReadCovers ev done l) (hre : re.kind = .r) :
    ReadCovers ev (done ++ [re]) l where
  ars := by
    have har : (done ++ [re]).filterMap REvent.ar? = done.filterMap REvent.ar? := by
      simp [List.filterMap_append, REvent.ar?, hre]
    rw [har]
    exact h.ars
  rs_nodup := h.rs_nodup
  rs_sublist x hx := by
    rw [List.filterMap_append]
    exact (h.rs_sublist x hx).trans (List.sublist_append_left _ _)
  causal := h.causal

/-- An R event goes to a read. -/
lemma cons_extend {a : ℕ} {rs : List ℕ} (h : ReadCovers ev done ((a, rs) :: l))
    (hre : re.kind = .r) (hnew : re.idx ∉ done.filterMap REvent.r?)
    (hsorted : ∀ re' ∈ done, re'.time ≤ re.time)
    (htimed : ∀ re' ∈ done ++ [re], re'.Timed ev) :
    ReadCovers ev (done ++ [re]) ((a, rs ++ [re.idx]) :: l) := by
  have hs := h.skip hre
  have hr : (done ++ [re]).filterMap REvent.r? = done.filterMap REvent.r? ++ [re.idx] := by
    simp [List.filterMap_append, REvent.r?, hre]
  refine ⟨hs.ars, ?_, ?_, ?_⟩
  · have hnd : (rs ++ l.flatMap Prod.snd).Nodup := h.rs_nodup
    have hout : re.idx ∉ rs ++ l.flatMap Prod.snd := by
      intro hmem
      rcases List.mem_append.1 hmem with hmem | hmem
      · exact hnew ((h.rs_sublist _ List.mem_cons_self).subset hmem)
      · obtain ⟨x, hx, hmem⟩ := List.mem_flatMap.1 hmem
        exact hnew ((h.rs_sublist x (List.mem_cons_of_mem _ hx)).subset hmem)
    rw [List.flatMap_cons, List.append_assoc, List.singleton_append]
    exact List.perm_middle.nodup_iff.2 (List.nodup_cons.2 ⟨hout, hnd⟩)
  · intro x hx
    rcases List.mem_cons.1 hx with rfl | hx
    · rw [hr]
      exact (h.rs_sublist _ List.mem_cons_self).append (List.Sublist.refl _)
    · exact hs.rs_sublist x (List.mem_cons_of_mem _ hx)
  · intro x hx j hj
    rcases List.mem_cons.1 hx with rfl | hx
    · rcases List.mem_append.1 hj with hj | hj
      · exact h.causal _ List.mem_cons_self j hj
      · obtain rfl := List.mem_singleton.1 hj
        -- the AR of an open read has already been merged
        have hmem : a ∈ done.filterMap REvent.ar? :=
          h.ars.mem_iff.1 (List.mem_map_of_mem (f := Prod.fst) List.mem_cons_self)
        obtain ⟨re', hre', ha⟩ := List.mem_filterMap.1 hmem
        have hkind : re'.kind = .ar := by
          by_contra hk
          simp [REvent.ar?, hk] at ha
        obtain rfl : re'.idx = a := by simpa [REvent.ar?, hkind] using ha
        have h₁ := htimed re' (List.mem_append_left _ hre')
        have h₂ := htimed re (by simp)
        simp only [REvent.Timed, hkind] at h₁
        simp only [REvent.Timed, hre] at h₂
        rw [← h₁, ← h₂]
        exact hsorted re' hre'
    · exact h.causal x (List.mem_cons_of_mem _ hx) j hj

end ReadCovers

/-- The positions of an open read. -/
def PendingRead.parts (read : PendingRead) : ℕ × List ℕ :=
  (read.arIdx, read.beats.map RBeat.idx)

/-- The beats of the read are R events at their indices. -/
def PendingRead.Sound (ev : Events) (read : PendingRead) : Prop :=
  ∀ beat ∈ read.beats, beat.event = ev.r.getD beat.idx default

lemma PendingRead.Sound.eq {ev : Events} {read : PendingRead} (h : read.Sound ev) :
    read = { arIdx := read.parts.1, beats := read.parts.2.map fun j => ⟨j, ev.r.getD j default⟩ } := by
  rcases read with ⟨a, beats⟩
  simp only [PendingRead.parts, List.map_map]
  congr 1
  refine (List.map_congr_left (g := id) fun beat hbeat => ?_).trans (List.map_id _) |>.symm
  rw [Function.comp_apply, ← h beat hbeat]
  rfl

lemma PendingRead.Sound.addBeat {ev : Events} {read : PendingRead} (h : read.Sound ev) (j : ℕ) :
    (read.addBeat ⟨j, ev.r.getD j default⟩).Sound ev := by
  intro beat hbeat
  rcases List.mem_append.1 hbeat with hbeat | hbeat
  · exact h beat hbeat
  · obtain rfl := List.mem_singleton.1 hbeat
    rfl

lemma PendingRead.parts_addBeat (read : PendingRead) (beat : RBeat) :
    (read.addBeat beat).parts = (read.parts.1, read.parts.2 ++ [beat.idx]) := by
  simp [PendingRead.parts, PendingRead.addBeat]

/-- The origin of a read from its positions. -/
def readOrigin (complete : Bool) (x : ℕ × List ℕ) : Origin := .read x.1 x.2 complete

lemma PendingRead.Sound.incompleteRead {ev : Events} {read : PendingRead} (h : read.Sound ev) :
    incompleteRead ev.ar read = (readOrigin false read.parts).render ev := by
  simp only [readOrigin, Origin.render, Bool.false_eq_true, if_false]
  rw [← h.eq]

lemma PendingRead.Sound.completeRead {ev : Events} {read : PendingRead} (h : read.Sound ev)
    (j : ℕ) :
    completeRead ev.ar (read.addBeat ⟨j, ev.r.getD j default⟩) (ev.r.getD j default) =
      (readOrigin true (read.addBeat ⟨j, ev.r.getD j default⟩).parts).render ev := by
  have hlast : (read.addBeat ⟨j, ev.r.getD j default⟩).parts.2.getLastD 0 = j := by
    simp [PendingRead.parts_addBeat]
  simp only [readOrigin, Origin.render, if_true]
  rw [hlast, ← (h.addBeat j).eq]

/-- The invariant of the loop over the merged events: `fin` are the reads that have been
completed. -/
structure ReadInv (ev : Events) (os : List Origin) (done : List REvent) (st : ReadState)
    (fin : List (ℕ × List ℕ)) : Prop where
  rendered : st.transactions = renderAll ev (os ++ fin.map (readOrigin true))
  sound : ∀ read ∈ Queues.flat st.pendingRById, read.Sound ev
  covers : ReadCovers ev done (fin ++ (Queues.flat st.pendingRById).map PendingRead.parts)
  ended : ∀ x ∈ fin, x.2 ≠ []

/-- One event of the merge keeps the invariant. -/
lemma ReadInv.readStep {ev : Events} {os : List Origin} {done : List REvent} {st : ReadState}
    {fin : List (ℕ × List ℕ)} (re : REvent) (h : ReadInv ev os done st fin)
    (hnew : re.r? = some re.idx → re.idx ∉ done.filterMap REvent.r?)
    (hsorted : ∀ re' ∈ done, re'.time ≤ re.time)
    (htimed : ∀ re' ∈ done ++ [re], re'.Timed ev) :
    ∃ fin', ReadInv ev os (done ++ [re]) (readStep ev.ar ev.r st re) fin' := by
  cases hkind : re.kind with
  | ar =>
      have hperm := Queues.flat_push_perm st.pendingRById (ev.ar.getD re.idx default).id
        { arIdx := re.idx }
      rw [readStep_ar hkind]
      refine ⟨fin, h.rendered, ?_, ?_, h.ended⟩
      · intro read hread
        rcases List.mem_cons.1 (hperm.mem_iff.1 hread) with rfl | hread
        · simp [PendingRead.Sound]
        · exact h.sound read hread
      · refine (h.covers.cons_new hkind).perm ?_
        exact List.perm_middle.symm.trans ((hperm.symm.map PendingRead.parts).append_left fin)
  | r =>
      set event := ev.r.getD re.idx default with hevent
      cases hq : Queues.get st.pendingRById event.id with
      | nil =>
          rw [readStep_dropped hkind hq]
          exact ⟨fin, h.rendered, h.sound, h.covers.skip hkind, h.ended⟩
      | cons read rest =>
          have hsplit := Queues.flat_pop_perm st.pendingRById hq
          have hread : read.Sound ev := h.sound read (hsplit.mem_iff.2 List.mem_cons_self)
          have hrest : ∀ read' ∈ Queues.flat (Queues.pop st.pendingRById event.id),
              read'.Sound ev := fun read' hmem =>
            h.sound read' (hsplit.mem_iff.2 (List.mem_cons_of_mem _ hmem))
          -- the front of the queue gets the beat
          have hext : ReadCovers ev (done ++ [re])
              ((read.addBeat ⟨re.idx, event⟩).parts ::
                (fin ++ (Queues.flat (Queues.pop st.pendingRById event.id)).map
                  PendingRead.parts)) := by
            rw [PendingRead.parts_addBeat]
            refine ReadCovers.cons_extend (h.covers.perm ?_) hkind
              (hnew (by simp [REvent.r?, hkind])) hsorted htimed
            exact ((hsplit.map PendingRead.parts).append_left fin).trans List.perm_middle
          cases hlast : event.last with
          | true =>
              rw [readStep_last hkind hq hlast]
              refine ⟨fin ++ [(read.addBeat ⟨re.idx, event⟩).parts], ?_, hrest, ?_, ?_⟩
              · rw [h.rendered, hevent, hread.completeRead, emit_renderAll]
                simp
              · refine hext.perm ?_
                simp only [List.append_assoc, List.singleton_append]
                exact List.perm_middle.symm
              · intro x hx
                rcases List.mem_append.1 hx with hx | hx
                · exact h.ended x hx
                · obtain rfl := List.mem_singleton.1 hx
                  simp [PendingRead.parts_addBeat]
          | false =>
              have hperm := Queues.flat_modifyFront_perm st.pendingRById
                (PendingRead.addBeat ⟨re.idx, event⟩) hq
              rw [readStep_more hkind hq hlast]
              refine ⟨fin, h.rendered, ?_, ?_, h.ended⟩
              · intro read' hmem
                rcases List.mem_cons.1 (hperm.mem_iff.1 hmem) with rfl | hmem
                · exact hread.addBeat _
                · exact hrest read' hmem
              · refine hext.perm (List.perm_middle.symm.trans ?_)
                exact (hperm.symm.map PendingRead.parts).append_left fin

/-- The invariant after all events of a merge. -/
lemma readInv_foldl (ev : Events) (os : List Origin) (done todo : List REvent) (st : ReadState)
    (fin : List (ℕ × List ℕ)) (h : ReadInv ev os done st fin)
    (hnodup : ((done ++ todo).filterMap REvent.r?).Nodup)
    (hsorted : (done ++ todo).Pairwise fun a b => a.time ≤ b.time)
    (htimed : ∀ re ∈ done ++ todo, re.Timed ev) :
    ∃ fin', ReadInv ev os (done ++ todo) (todo.foldl (readStep ev.ar ev.r) st) fin' := by
  induction todo generalizing done st fin with
  | nil => exact ⟨fin, by simpa using h⟩
  | cons re todo ih =>
      have hassoc : done ++ re :: todo = (done ++ [re]) ++ todo := by simp
      rw [hassoc] at hnodup hsorted htimed ⊢
      have hnd : ((done ++ [re]).filterMap REvent.r?).Nodup := by
        rw [List.filterMap_append] at hnodup
        exact (List.nodup_append.1 hnodup).1
      obtain ⟨fin', h'⟩ := h.readStep re
        (fun hr => by
          rw [List.filterMap_append, List.filterMap_cons, hr] at hnd
          intro hmem
          exact (List.disjoint_of_nodup_append hnd) hmem (by simp))
        (fun re' hre' => (List.pairwise_append.1 (List.pairwise_append.1 hsorted).1).2.2 re' hre' re
          (by simp))
        (fun re' hre' => htimed re' (List.mem_append_left _ hre'))
      exact ih _ _ _ h' hnodup hsorted htimed

/-! ### The merge -/

lemma revents_ars (ev : Events) :
    (revents ev.ar ev.r).filterMap REvent.ar? = List.range ev.ar.length := by
  rw [revents, List.filterMap_append, List.filterMap_map, List.filterMap_map]
  have h₁ : ev.ar.zipIdx.filterMap (REvent.ar? ∘ fun e => ⟨e.1.time, .ar, e.2⟩) =
      List.range ev.ar.length := by
    rw [List.range_eq_range', ← List.zipIdx_map_snd 0 ev.ar, ← List.filterMap_eq_map]
    rfl
  have h₂ : ev.r.zipIdx.filterMap (REvent.ar? ∘ fun e => ⟨e.1.time, .r, e.2⟩) = [] := by
    simp [REvent.ar?]
  rw [h₁, h₂, List.append_nil]

lemma revents_rs (ev : Events) :
    (revents ev.ar ev.r).filterMap REvent.r? = List.range ev.r.length := by
  rw [revents, List.filterMap_append, List.filterMap_map, List.filterMap_map]
  have h₁ : ev.r.zipIdx.filterMap (REvent.r? ∘ fun e => ⟨e.1.time, .r, e.2⟩) =
      List.range ev.r.length := by
    rw [List.range_eq_range', ← List.zipIdx_map_snd 0 ev.r, ← List.filterMap_eq_map]
    rfl
  have h₂ : ev.ar.zipIdx.filterMap (REvent.r? ∘ fun e => ⟨e.1.time, .ar, e.2⟩) = [] := by
    simp [REvent.r?]
  rw [h₁, h₂, List.nil_append]

lemma revents_timed (ev : Events) : ∀ re ∈ revents ev.ar ev.r, re.Timed ev := by
  intro re hre
  rcases List.mem_append.1 hre with hre | hre
  all_goals
    obtain ⟨⟨e, i⟩, hmem, rfl⟩ := List.mem_map.1 hre
    obtain ⟨hi, he⟩ := List.mem_zipIdx' hmem
    simp [REvent.Timed, hi, he]

/-- What the reads have in common, whatever the sort does with equal times. -/
lemma assembleReads_spec (std : StdSort) (ev : Events) (os : List Origin) :
    ∃ fin rest : List (ℕ × List ℕ),
      assembleReads std ev.ar ev.r (renderAll ev os) =
        renderAll ev (os ++ (fin.map (readOrigin true) ++ rest.map (readOrigin false))) ∧
      ReadCovers ev (std.sort (revents ev.ar ev.r)) (fin ++ rest) ∧ ∀ x ∈ fin, x.2 ≠ [] := by
  have hperm := std.perm (revents ev.ar ev.r)
  have hinit : ReadInv ev os [] { transactions := renderAll ev os } [] :=
    ⟨by simp, by simp, ⟨by simp, by simp, by simp, by simp⟩, by simp⟩
  obtain ⟨fin, hinv⟩ := readInv_foldl ev os [] (std.sort (revents ev.ar ev.r)) _ [] hinit
    (by
      rw [List.nil_append, (hperm.filterMap _).nodup_iff, revents_rs]
      exact List.nodup_range)
    (std.sorted _)
    (fun re hre => revents_timed ev re (hperm.mem_iff.1 hre))
  rw [List.nil_append] at hinv
  refine ⟨fin, _, ?_, hinv.covers, hinv.ended⟩
  rw [assembleReads]
  simp only [hinv.rendered]
  rw [foldl_emit_renderAll ev _ (fun read => readOrigin false read.parts) _ _
    fun read hread => (hinv.sound read hread).incompleteRead]
  simp [Function.comp_def]

/-! ### Conservation -/

/-- The transactions conserve the events and pair them first-in first-out. -/
structure Conserves (ev : Events) (transactions : List AxiTransaction) (os : List Origin) :
    Prop where
  rendered : transactions = renderAll ev os
  /-- Every AW event is the address of exactly one write. -/
  aws : (os.filterMap Origin.aw?).Perm (List.range ev.aw.length)
  /-- Every AR event is the address of exactly one read. -/
  ars : (os.filterMap Origin.ar?).Perm (List.range ev.ar.length)
  /-- Every B event completes exactly one write or is exactly one orphan. -/
  bs : (os.filterMap Origin.b?).Perm (List.range ev.b.length)
  writes : transactions.countP AxiTransaction.isWrite =
    ev.aw.length + os.countP Origin.isOrphan
  /-- The data of the AW with index `i` is the burst of number `i`. -/
  wdata : ∀ i ws b, Origin.write i ws b ∈ os → ws = burstPositions ev.w i
  /-- No W beat occurs twice. -/
  ws_nodup : (os.flatMap Origin.ws).Nodup
  /-- The response of rank `k` of its id completes the `k`-th of the writes of that id whose
  burst is complete. -/
  responses : ∀ p < ev.b.length, ∀ i,
    (dataCompleteAws ev (ev.b.getD p default).id)[responseRank ev p]? = some i →
      Origin.write i (burstPositions ev.w i) (some p) ∈ os
  /-- A response for which there is no such write is an orphan. -/
  orphans : ∀ p < ev.b.length,
    (dataCompleteAws ev (ev.b.getD p default).id)[responseRank ev p]? = none →
      Origin.orphan p ∈ os
  /-- No R beat occurs twice. -/
  rs_nodup : (os.flatMap Origin.rs).Nodup
  rs_lt : ∀ j ∈ os.flatMap Origin.rs, j < ev.r.length

lemma countP_isWrite (os : List Origin) :
    os.countP Origin.isWrite = (os.filterMap Origin.aw?).length + os.countP Origin.isOrphan := by
  induction os with
  | nil => rfl
  | cons o os ih =>
      rw [List.countP_cons, List.countP_cons, ih, List.filterMap_cons]
      cases o <;> simp [Origin.isWrite, Origin.isOrphan, Origin.aw?] <;> omega

lemma countP_renderAll (ev : Events) (os : List Origin) :
    (renderAll ev os).countP AxiTransaction.isWrite = os.countP Origin.isWrite := by
  have h : os.countP Origin.isWrite = (os.zipIdx.map Prod.fst).countP Origin.isWrite := by
    rw [List.zipIdx_map_fst]
  rw [renderAll, h, List.countP_map, List.countP_map]
  refine List.countP_congr fun o _ => ?_
  simp

lemma flatMap_ws_eq {ev : Events} {os : List Origin}
    (h : ∀ i ws b, Origin.write i ws b ∈ os → ws = burstPositions ev.w i) :
    os.flatMap Origin.ws = (os.filterMap Origin.aw?).flatMap (burstPositions ev.w) := by
  induction os with
  | nil => rfl
  | cons o os ih =>
      have ih' := ih fun i ws b hmem => h i ws b (List.mem_cons_of_mem _ hmem)
      rw [List.flatMap_cons, List.filterMap_cons, ih']
      cases o with
      | write i ws b =>
          obtain rfl := h i ws b List.mem_cons_self
          rfl
      | orphan p => rfl
      | read ar rs complete => rfl

lemma nodup_flatMap_burstPositions (w : List AxiHandshakeEvent) {is : List ℕ} (h : is.Nodup) :
    (is.flatMap (burstPositions w)).Nodup := by
  rw [List.nodup_flatMap]
  refine ⟨fun i _ => List.Nodup.filter _ List.nodup_range, h.imp fun {i j} hij => ?_⟩
  intro p hi hj
  have hi' := (List.mem_filter.1 hi).2
  have hj' := (List.mem_filter.1 hj).2
  simp only [decide_eq_true_eq] at hi' hj'
  exact hij (hi'.symm.trans hj')

lemma writeOrigins_wdata (ev : Events) {i : ℕ} {ws : List ℕ} {b : Option ℕ}
    (h : Origin.write i ws b ∈ writeOrigins ev) : ws = burstPositions ev.w i := by
  simp only [writeOrigins, writeOrigin, List.mem_append, List.mem_filterMap, List.mem_map,
    Option.map_eq_some_iff, Origin.write.injEq, reduceCtorEq, and_false, exists_false,
    or_false] at h
  rcases h with (⟨p, -, i', -, rfl, rfl, -⟩ | ⟨write, -, rfl, rfl, -⟩) | ⟨write, -, rfl, rfl, -⟩ <;>
    rfl

/-- A write with a response is the one that the response completes. -/
lemma writeOrigins_response (ev : Events) {i p : ℕ} {ws : List ℕ}
    (h : Origin.write i ws (some p) ∈ writeOrigins ev) :
    p < ev.b.length ∧ responseTo ev p = some i := by
  simp only [writeOrigins, writeOrigin, List.mem_append, List.mem_filterMap, List.mem_map,
    Option.map_eq_some_iff, Origin.write.injEq, reduceCtorEq, and_false, exists_false,
    or_false, List.mem_range] at h
  obtain ⟨q, hq, i', hi', rfl, -, hpq⟩ := h
  cases hpq
  exact ⟨hq, hi'⟩

lemma writeOrigins_not_read (ev : Events) {ar : ℕ} {rs : List ℕ} {complete : Bool} :
    Origin.read ar rs complete ∉ writeOrigins ev := by
  simp [writeOrigins, writeOrigin]

lemma writeOrigins_ars (ev : Events) : (writeOrigins ev).filterMap Origin.ar? = [] := by
  rw [List.filterMap_eq_nil_iff]
  intro o ho
  cases o with
  | read ar rs c => exact absurd ho (writeOrigins_not_read ev)
  | _ => rfl

lemma writeOrigins_rs (ev : Events) : (writeOrigins ev).flatMap Origin.rs = [] := by
  rw [List.flatMap_eq_nil_iff]
  intro o ho
  cases o with
  | read ar rs c => exact absurd ho (writeOrigins_not_read ev)
  | _ => rfl

/-- The origins of all transactions, from those of the reads. -/
lemma conserves_of_reads (ev : Events) {done : List REvent} {fin rest : List (ℕ × List ℕ)}
    (hdone : done.Perm (revents ev.ar ev.r)) (h : ReadCovers ev done (fin ++ rest)) :
    Conserves ev
      (renderAll ev
        (writeOrigins ev ++ (fin.map (readOrigin true) ++ rest.map (readOrigin false))))
      (writeOrigins ev ++ (fin.map (readOrigin true) ++ rest.map (readOrigin false))) := by
  set reads := fin.map (readOrigin true) ++ rest.map (readOrigin false) with hreads
  -- reads have no events of the write channels, and writes none of the read channels
  have hmem : ∀ o ∈ reads, ∃ x c, o = readOrigin c x := by
    intro o ho
    rcases List.mem_append.1 ho with ho | ho <;>
      obtain ⟨x, -, rfl⟩ := List.mem_map.1 ho <;> exact ⟨x, _, rfl⟩
  have hnone : ∀ {f : Origin → Option ℕ}, (∀ x c, f (readOrigin c x) = none) →
      reads.filterMap f = [] := by
    intro f hf
    rw [List.filterMap_eq_nil_iff]
    intro o ho
    obtain ⟨x, c, rfl⟩ := hmem o ho
    exact hf x c
  have hfst : reads.filterMap Origin.ar? = (fin ++ rest).map Prod.fst := by
    simp [hreads, readOrigin, Origin.ar?, List.filterMap_map, Function.comp_def]
  have hsnd : reads.flatMap Origin.rs = (fin ++ rest).flatMap Prod.snd := by
    simp [hreads, readOrigin, Origin.rs, List.flatMap_map]
  have haws : ((writeOrigins ev ++ reads).filterMap Origin.aw?).Perm
      (List.range ev.aw.length) := by
    rw [List.filterMap_append, hnone fun _ _ => rfl, List.append_nil]
    exact writeOrigins_aws ev
  have hwdata : ∀ i ws b, Origin.write i ws b ∈ writeOrigins ev ++ reads →
      ws = burstPositions ev.w i := by
    intro i ws b ho
    rcases List.mem_append.1 ho with ho | ho
    · exact writeOrigins_wdata ev ho
    · obtain ⟨x, c, hx⟩ := hmem _ ho
      cases hx
  refine ⟨rfl, haws, ?_, ?_, ?_, hwdata, ?_, ?_, ?_, ?_, ?_⟩
  · rw [List.filterMap_append, writeOrigins_ars, List.nil_append, hfst, ← revents_ars]
    exact h.ars.trans (hdone.filterMap _)
  · rw [List.filterMap_append, hnone fun _ _ => rfl, List.append_nil]
    exact writeOrigins_bs ev
  · rw [countP_renderAll, countP_isWrite, haws.length_eq, List.length_range]
  · -- the bursts of different numbers have no beat in common
    rw [flatMap_ws_eq hwdata]
    exact nodup_flatMap_burstPositions ev.w (haws.nodup_iff.2 List.nodup_range)
  · intro p hp i hi
    refine List.mem_append_left _ ?_
    simp only [writeOrigins, List.mem_append, List.mem_filterMap, List.mem_range]
    exact Or.inl (Or.inl (Or.inl ⟨p, hp, by rw [responseTo, hi]; rfl⟩))
  · intro p hp hi
    refine List.mem_append_left _ (List.mem_append_right _ (List.mem_map_of_mem ?_))
    rw [List.mem_filter, List.mem_range, responseTo, hi]
    exact ⟨hp, rfl⟩
  · rw [List.flatMap_append, writeOrigins_rs, List.nil_append, hsnd]
    exact h.rs_nodup
  · intro j hj
    rw [List.flatMap_append, writeOrigins_rs, List.nil_append, hsnd] at hj
    obtain ⟨x, hx, hj⟩ := List.mem_flatMap.1 hj
    have := (hdone.filterMap REvent.r?).mem_iff.1 ((h.rs_sublist x hx).subset hj)
    rw [revents_rs] at this
    simpa using this

/-- The R beats in the order of a merge are in the order of their times. -/
lemma pairwise_time_of_sorted (ev : Events) {done : List REvent}
    (hsorted : done.Pairwise fun a b => a.time ≤ b.time) (htimed : ∀ re ∈ done, re.Timed ev) :
    (done.filterMap REvent.r?).Pairwise fun i j =>
      (ev.r.getD i default).time ≤ (ev.r.getD j default).time := by
  have htime : ∀ re i, re ∈ done → re.r? = some i → re.time = (ev.r.getD i default).time := by
    intro re i hre hi
    have hkind : re.kind = .r := by
      by_contra hk
      simp [REvent.r?, hk] at hi
    have := htimed re hre
    simp only [REvent.Timed, hkind] at this
    obtain rfl : re.idx = i := by simpa [REvent.r?, hkind] using hi
    exact this
  rw [List.pairwise_filterMap]
  refine hsorted.imp_of_mem fun {a b} ha hb hab i hi j hj => ?_
  rw [← htime a i ha hi, ← htime b j hb hj]
  exact hab

/-- Beats in the order of their times are in the order of the vector when no two times
agree. -/
lemma pairwise_lt_of_pairwise_time {r : List AxiHandshakeEvent} {js : List ℕ}
    (hr : r.Pairwise fun a b => a.time < b.time) (hlt : ∀ j ∈ js, j < r.length)
    (hnd : js.Nodup)
    (hjs : js.Pairwise fun i j => (r.getD i default).time ≤ (r.getD j default).time) :
    js.Pairwise (· < ·) := by
  refine (hjs.and hnd).imp_of_mem fun {i j} hi hj hij => ?_
  by_contra hle
  have hji : j < i := lt_of_le_of_ne (not_lt.1 hle) (Ne.symm hij.2)
  have htime := List.pairwise_iff_getElem.1 hr j i (hlt j hj) (hlt i hi) hji
  have hle' := hij.1
  rw [List.getD_eq_getElem _ _ (hlt i hi), List.getD_eq_getElem _ _ (hlt j hj)] at hle'
  omega

/-- The origins of the transactions, with what the merge says about the reads. -/
lemma exists_origins (std : StdSort) (ev : Events) :
    ∃ os, Conserves ev (assembleAxiTransactions std ev.aw ev.w ev.b ev.ar ev.r) os ∧
      (∀ i ws p, Origin.write i ws (some p) ∈ os →
        p < ev.b.length ∧ responseTo ev p = some i) ∧
      ∀ ar rs complete, Origin.read ar rs complete ∈ os →
        rs.Nodup ∧ (∀ j ∈ rs, j < ev.r.length) ∧
        rs.Pairwise (fun i j => (ev.r.getD i default).time ≤ (ev.r.getD j default).time) ∧
        (∀ j ∈ rs, (ev.ar.getD ar default).time ≤ (ev.r.getD j default).time) ∧
        (complete = true → rs ≠ []) := by
  have hperm := std.perm (revents ev.ar ev.r)
  obtain ⟨fin, rest, heq, hcov, hended⟩ := assembleReads_spec std ev (writeOrigins ev)
  have hcons := conserves_of_reads ev hperm hcov
  rw [← heq, ← assembleWrites_eq] at hcons
  refine ⟨_, hcons, ?_⟩
  have htime := pairwise_time_of_sorted ev (std.sorted (revents ev.ar ev.r))
    fun re hre => revents_timed ev re (hperm.mem_iff.1 hre)
  have hnd : ((std.sort (revents ev.ar ev.r)).filterMap REvent.r?).Nodup := by
    rw [(hperm.filterMap _).nodup_iff, revents_rs]
    exact List.nodup_range
  refine ⟨fun i ws p hmem => ?_, ?_⟩
  · rcases List.mem_append.1 hmem with hmem | hmem
    · exact writeOrigins_response ev hmem
    · rcases List.mem_append.1 hmem with hmem | hmem <;>
        obtain ⟨x, -, hro⟩ := List.mem_map.1 hmem <;> cases hro
  intro ar rs complete hmem
  have hx : (ar, rs) ∈ fin ++ rest ∧ (complete = true → rs ≠ []) := by
    rcases List.mem_append.1 hmem with hmem | hmem
    · exact absurd hmem (writeOrigins_not_read ev)
    · rcases List.mem_append.1 hmem with hmem | hmem
      · obtain ⟨x, hx, hro⟩ := List.mem_map.1 hmem
        cases hro
        exact ⟨List.mem_append_left _ hx, fun _ => hended x hx⟩
      · obtain ⟨x, hx, hro⟩ := List.mem_map.1 hmem
        cases hro
        exact ⟨List.mem_append_right _ hx, fun h => absurd h (by simp)⟩
  have hsub := hcov.rs_sublist _ hx.1
  refine ⟨hsub.nodup hnd, fun j hj => ?_, htime.sublist hsub, hcov.causal _ hx.1, hx.2⟩
  exact hcons.rs_lt j (List.mem_flatMap.2 ⟨_, hmem, hj⟩)

/-- The assembly conserves the events and pairs them first-in first-out.  The beats of a
read are in the order of their times, and in the order of the R events when no two of
these have the same time. -/
theorem assembleAxiTransactions_conserves (std : StdSort) (ev : Events) :
    ∃ os, Conserves ev (assembleAxiTransactions std ev.aw ev.w ev.b ev.ar ev.r) os ∧
      ∀ ar rs complete, Origin.read ar rs complete ∈ os →
        rs.Pairwise (fun i j => (ev.r.getD i default).time ≤ (ev.r.getD j default).time) ∧
        (ev.r.Pairwise (fun a b => a.time < b.time) → rs.Pairwise (· < ·)) := by
  obtain ⟨os, hcons, -, hreads⟩ := exists_origins std ev
  refine ⟨os, hcons, fun ar rs complete hmem => ?_⟩
  obtain ⟨hnd, hlt, htime, -, -⟩ := hreads ar rs complete hmem
  exact ⟨htime, fun hr => pairwise_lt_of_pairwise_time hr hlt hnd htime⟩

/-! ### Beats of equal time -/

/-- One read with sixteen beats at one time. -/
def sharedTimeEvents : Events where
  aw := []
  w := []
  b := []
  ar := [{ channel := .ar, time := 0, id := "0" }]
  r := (List.range 16).map fun i => { channel := .r, time := 5, timeIdx := i, id := "0" }

/-- The order in which libstdc++ leaves these events. From seventeen elements on it partitions
around a pivot, here the beat 7, before it sorts by insertion. -/
def sharedTimeOrder : List REvent :=
  ⟨0, .ar, 0⟩ :: [7, 15, 14, 13, 12, 11, 10, 9, 8, 6, 5, 4, 3, 2, 1, 0].map fun i => ⟨5, .r, i⟩

lemma sharedTimeOrder_perm :
    sharedTimeOrder.Perm (revents sharedTimeEvents.ar sharedTimeEvents.r) := by
  decide +kernel

lemma sharedTimeOrder_sorted : sharedTimeOrder.Pairwise fun a b => a.time ≤ b.time := by
  decide

/-- A sort that leaves them in this order. -/
def introSort : StdSort where
  sort l :=
    if l = revents sharedTimeEvents.ar sharedTimeEvents.r then sharedTimeOrder
    else l.insertionSort fun a b => a.time ≤ b.time
  perm l := by
    split_ifs with h
    · exact h ▸ sharedTimeOrder_perm
    · exact List.perm_insertionSort _ _
  sorted l := by
    have : Std.Total fun a b : REvent => a.time ≤ b.time := ⟨fun a b => le_total _ _⟩
    have : IsTrans REvent fun a b => a.time ≤ b.time := ⟨fun a b c => le_trans⟩
    split_ifs
    · exact sharedTimeOrder_sorted
    · exact List.pairwise_insertionSort _ _

lemma dataEvents_sublist {ev : Events} (rs : List ℕ) (hlt : ∀ j ∈ rs, j < ev.r.length)
    (hrs : rs.Pairwise (· < ·)) : (rs.map fun j => ev.r.getD j default).Sublist ev.r := by
  have hsub : rs.Sublist (List.range ev.r.length) := by
    refine List.sublist_of_subperm_of_pairwise ?_ hrs List.pairwise_lt_range
    exact List.Nodup.subperm (hrs.imp ne_of_lt) fun j hj => List.mem_range.2 (hlt j hj)
  have hall : (List.range ev.r.length).map (fun j => ev.r.getD j default) = ev.r := by
    refine List.ext_getElem (by simp) fun j h₁ h₂ => ?_
    simp [h₂]
  have h := hsub.map fun j => ev.r.getD j default
  rwa [hall] at h

/-- With events of equal time the beats of a read can be out of order. -/
theorem sharedTimeEvents_not_in_order :
    sharedTimeEvents.ar.Pairwise (fun a b => a.time ≤ b.time) ∧
    sharedTimeEvents.r.Pairwise (fun a b => a.time ≤ b.time) ∧
    ¬ ∃ os, Conserves sharedTimeEvents
        (assembleAxiTransactions introSort sharedTimeEvents.aw sharedTimeEvents.w
          sharedTimeEvents.b sharedTimeEvents.ar sharedTimeEvents.r) os ∧
      ∀ ar rs complete, Origin.read ar rs complete ∈ os → rs.Pairwise (· < ·) := by
  refine ⟨by decide, by decide, ?_⟩
  rintro ⟨os, hcons, hreads⟩
  have hbad : ∃ txn ∈ assembleAxiTransactions introSort sharedTimeEvents.aw
      sharedTimeEvents.w sharedTimeEvents.b sharedTimeEvents.ar sharedTimeEvents.r,
      txn.isWrite = false ∧ ¬ txn.dataEvents.Sublist sharedTimeEvents.r := by
    decide +kernel
  obtain ⟨txn, hmem, hread, hnot⟩ := hbad
  rw [hcons.rendered] at hmem
  obtain ⟨o, ho, i, rfl⟩ := mem_renderAll hmem
  cases o with
  | write aw ws b =>
      have : (Origin.write aw ws b).isWrite = false := by simpa using hread
      simp [Origin.isWrite] at this
  | orphan p =>
      have : (Origin.orphan p).isWrite = false := by simpa using hread
      simp [Origin.isWrite] at this
  | read ar rs complete =>
      refine hnot ?_
      have hsub := dataEvents_sublist rs
        (fun j hj => hcons.rs_lt j (List.mem_flatMap.2 ⟨_, ho, hj⟩)) (hreads ar rs complete ho)
      cases complete <;>
        simpa [Origin.render, completeRead, incompleteRead, addressPhase, Function.comp_def]
          using hsub

end XdebugFst.Axi
