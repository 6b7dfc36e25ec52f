import XdebugFst.Lib.Queues

/-!
# Assembling AXI transactions

`assemble_axi_transactions` turns the handshakes of the five channels into transactions.
AXI4 has no WID: the W beats are cut into bursts at WLAST, and the bursts are bound to
the AW requests in acceptance order.  A B response completes the oldest write of its id
whose burst is complete.  The AR and R handshakes are merged by time, and an R beat goes
to the oldest open read of its id.

The merge uses `std::sort`, which says nothing about the order of events with equal
times: the sort is a parameter here, restricted to what the standard promises.
-/

namespace XdebugFst.Axi

open Lib

/-- The channel of a handshake. -/
inductive Channel
  | aw | w | b | ar | r
  deriving DecidableEq, Repr, Inhabited

/-- `AxiHandshakeEvent`: an accepted transfer of one channel. -/
structure AxiHandshakeEvent where
  channel : Channel := .aw
  time : ℕ := 0
  timeIdx : ℕ := 0
  validBeginTime : ℕ := 0
  id : String := ""
  addr : String := ""
  len : String := ""
  size : String := ""
  burst : String := ""
  data : String := ""
  strb : String := ""
  resp : String := ""
  last : Bool := false
  deriving DecidableEq, Repr, Inhabited

/-- `AxiTransaction`: what is known about one read or write. -/
structure AxiTransaction where
  index : ℕ := 0
  isWrite : Bool := false
  id : String := ""
  address : String := ""
  length : String := ""
  size : String := ""
  burst : String := ""
  /-- The time of the AW or AR handshake. -/
  startTime : ℕ := 0
  startTimeIdx : ℕ := 0
  addressValidBeginTime : ℕ := 0
  /-- The time of the B or RLAST handshake. -/
  endTime : ℕ := 0
  endTimeIdx : ℕ := 0
  complete : Bool := true
  dataBeats : List String := []
  dataEvents : List AxiHandshakeEvent := []
  resp : String := ""
  deriving DecidableEq, Repr

/-- Append a transaction, numbered by its place in the vector. -/
def emit (transactions : List AxiTransaction) (txn : AxiTransaction) : List AxiTransaction :=
  transactions ++ [{ txn with index := transactions.length }]

/-- A transaction that has its address and some data but no response. -/
def addressPhase (isWrite : Bool) (address : AxiHandshakeEvent)
    (dataEvents : List AxiHandshakeEvent) : AxiTransaction :=
  { isWrite := isWrite
    id := address.id
    address := address.addr
    length := address.len
    size := address.size
    burst := address.burst
    startTime := address.time
    startTimeIdx := address.timeIdx
    addressValidBeginTime := address.validBeginTime
    complete := false
    dataBeats := dataEvents.map AxiHandshakeEvent.data
    dataEvents := dataEvents }

/-! ### Writes -/

/-- `PendingWrite`: an AW request with the data bound to it.  The vector of the data
strings is the `data` of its events. -/
structure PendingWrite where
  awIdx : ℕ
  dataEvents : List AxiHandshakeEvent := []
  deriving DecidableEq, Repr

/-- The W loop for one beat: `w_bursts` and `current_w_burst`. -/
def burstStep (st : List (List AxiHandshakeEvent) × List AxiHandshakeEvent)
    (event : AxiHandshakeEvent) : List (List AxiHandshakeEvent) × List AxiHandshakeEvent :=
  let current := st.2 ++ [event]
  if event.last then (st.1 ++ [current], []) else (st.1, current)

/-- The bursts that WLAST ends, and the beats after the last of them. -/
def splitBursts (wEvents : List AxiHandshakeEvent) :
    List (List AxiHandshakeEvent) × List AxiHandshakeEvent :=
  wEvents.foldl burstStep ([], [])

/-- `paired_bursts`. -/
def pairedBursts (awEvents wEvents : List AxiHandshakeEvent) : ℕ :=
  min awEvents.length (splitBursts wEvents).1.length

/-- The AW request at an index.  Every index that the code uses is in range. -/
def awAt (awEvents : List AxiHandshakeEvent) (i : ℕ) : AxiHandshakeEvent :=
  awEvents.getD i default

/-- The writes whose burst is complete, in the order of their AW requests. -/
def dataDoneWrites (awEvents wEvents : List AxiHandshakeEvent) : List PendingWrite :=
  (List.range (pairedBursts awEvents wEvents)).map fun index =>
    { awIdx := index, dataEvents := (splitBursts wEvents).1.getD index [] }

/-- `data_done_by_id`: the writes whose burst is complete, by id. -/
def dataDoneById (awEvents wEvents : List AxiHandshakeEvent) : Queues String PendingWrite :=
  (dataDoneWrites awEvents wEvents).foldl
    (fun queues write => Queues.push queues (awAt awEvents write.awIdx).id write) .empty

/-- `pending_w`: the other writes; the first of them gets the unfinished burst. -/
def pendingW (awEvents wEvents : List AxiHandshakeEvent) : List PendingWrite :=
  let paired := pairedBursts awEvents wEvents
  (List.range' paired (awEvents.length - paired)).map fun index =>
    { awIdx := index
      dataEvents := if index = paired then (splitBursts wEvents).2 else [] }

/-- A write without response. -/
def incompleteWrite (awEvents : List AxiHandshakeEvent) (write : PendingWrite) :
    AxiTransaction :=
  addressPhase true (awAt awEvents write.awIdx) write.dataEvents

/-- A write with its response. -/
def completeWrite (awEvents : List AxiHandshakeEvent) (write : PendingWrite)
    (response : AxiHandshakeEvent) : AxiTransaction :=
  { incompleteWrite awEvents write with
    id := response.id
    endTime := response.time
    endTimeIdx := response.timeIdx
    complete := true
    resp := response.resp }

/-- A response without a write. -/
def orphanResponse (response : AxiHandshakeEvent) : AxiTransaction :=
  { isWrite := true
    id := response.id
    startTime := response.time
    startTimeIdx := response.timeIdx
    endTime := response.time
    endTimeIdx := response.timeIdx
    complete := false }

/-- The variables of the loop over the B events. -/
structure ResponseState where
  dataDoneById : Queues String PendingWrite
  bUsed : List Bool
  transactions : List AxiTransaction

/-- The loop over the B events: a response takes the oldest write of its id. -/
def responseStep (awEvents : List AxiHandshakeEvent) (st : ResponseState)
    (response : AxiHandshakeEvent × ℕ) : ResponseState :=
  match Queues.get st.dataDoneById response.1.id with
  | [] => st
  | write :: _ =>
      { dataDoneById := Queues.pop st.dataDoneById response.1.id
        bUsed := st.bUsed.set response.2 true
        transactions := emit st.transactions (completeWrite awEvents write response.1) }

/-- The write transactions: those with a response, those whose burst is complete, the
other ones, and the responses left over. -/
def assembleWrites (awEvents wEvents bEvents : List AxiHandshakeEvent) :
    List AxiTransaction :=
  let st := bEvents.zipIdx.foldl (responseStep awEvents)
    { dataDoneById := dataDoneById awEvents wEvents
      bUsed := List.replicate bEvents.length false
      transactions := [] }
  let transactions := (Queues.flat st.dataDoneById).foldl
    (fun transactions write => emit transactions (incompleteWrite awEvents write)) st.transactions
  let transactions := (pendingW awEvents wEvents).foldl
    (fun transactions write => emit transactions (incompleteWrite awEvents write)) transactions
  bEvents.zipIdx.foldl
    (fun transactions response =>
      if st.bUsed.getD response.2 false then transactions
      else emit transactions (orphanResponse response.1)) transactions

/-! ### Reads -/

/-- `REKind`. -/
inductive REKind
  | ar | r
  deriving DecidableEq, Repr

/-- `REvent`: an AR or R event with its index in the vector of its channel. -/
structure REvent where
  time : ℕ
  kind : REKind
  idx : ℕ
  deriving DecidableEq, Repr

/-- `std::sort` by time: some permutation that is sorted by time. -/
structure StdSort where
  sort : List REvent → List REvent
  perm : ∀ l, (sort l).Perm l
  sorted : ∀ l, (sort l).Pairwise fun a b => a.time ≤ b.time

/-- The AR events followed by the R events. -/
def revents (arEvents rEvents : List AxiHandshakeEvent) : List REvent :=
  arEvents.zipIdx.map (fun ev => { time := ev.1.time, kind := .ar, idx := ev.2 }) ++
    rEvents.zipIdx.map fun ev => { time := ev.1.time, kind := .r, idx := ev.2 }

/-- An R event with its index in the vector. -/
structure RBeat where
  idx : ℕ
  event : AxiHandshakeEvent
  deriving DecidableEq, Repr

/-- `PendingRead`: an AR request with the R beats it has got. -/
structure PendingRead where
  arIdx : ℕ
  beats : List RBeat := []
  deriving DecidableEq, Repr

/-- The variables of the loop over the merged events. -/
structure ReadState where
  pendingRById : Queues String PendingRead := .empty
  transactions : List AxiTransaction

/-- A read without RLAST. -/
def incompleteRead (arEvents : List AxiHandshakeEvent) (read : PendingRead) : AxiTransaction :=
  addressPhase false (arEvents.getD read.arIdx default) (read.beats.map RBeat.event)

/-- A read with its last beat. -/
def completeRead (arEvents : List AxiHandshakeEvent) (read : PendingRead)
    (last : AxiHandshakeEvent) : AxiTransaction :=
  { incompleteRead arEvents read with
    endTime := last.time
    endTimeIdx := last.timeIdx
    complete := true
    resp := last.resp }

/-- Give a beat to a read. -/
def PendingRead.addBeat (beat : RBeat) (read : PendingRead) : PendingRead :=
  { read with beats := read.beats ++ [beat] }

/-- The loop over the merged events. -/
def readStep (arEvents rEvents : List AxiHandshakeEvent) (st : ReadState) (re : REvent) :
    ReadState :=
  match re.kind with
  | .ar =>
      let id := (arEvents.getD re.idx default).id
      { st with pendingRById := Queues.push st.pendingRById id { arIdx := re.idx } }
  | .r =>
      let event := rEvents.getD re.idx default
      match Queues.get st.pendingRById event.id with
      | [] => st
      | read :: _ =>
          let read := read.addBeat { idx := re.idx, event := event }
          if event.last then
            { pendingRById := Queues.pop st.pendingRById event.id
              transactions := emit st.transactions (completeRead arEvents read event) }
          else
            { st with
              pendingRById := Queues.modifyFront st.pendingRById event.id
                (PendingRead.addBeat { idx := re.idx, event := event }) }

section ReadStep

variable {arEvents rEvents : List AxiHandshakeEvent} {st : ReadState} {re : REvent}
  {read : PendingRead} {rest : List PendingRead}

lemma readStep_ar (hkind : re.kind = .ar) : readStep arEvents rEvents st re =
    { st with
      pendingRById := Queues.push st.pendingRById (arEvents.getD re.idx default).id
        { arIdx := re.idx } } := by
  simp only [readStep, hkind]

/-- A beat whose id has no open read is dropped. -/
lemma readStep_dropped (hkind : re.kind = .r)
    (hq : Queues.get st.pendingRById (rEvents.getD re.idx default).id = []) :
    readStep arEvents rEvents st re = st := by
  simp only [readStep, hkind, hq]

lemma readStep_last (hkind : re.kind = .r)
    (hq : Queues.get st.pendingRById (rEvents.getD re.idx default).id = read :: rest)
    (hlast : (rEvents.getD re.idx default).last = true) :
    readStep arEvents rEvents st re =
      { pendingRById := Queues.pop st.pendingRById (rEvents.getD re.idx default).id
        transactions := emit st.transactions
          (completeRead arEvents (read.addBeat ⟨re.idx, rEvents.getD re.idx default⟩)
            (rEvents.getD re.idx default)) } := by
  simp only [readStep, hkind, hq, hlast, if_true]

lemma readStep_more (hkind : re.kind = .r)
    (hq : Queues.get st.pendingRById (rEvents.getD re.idx default).id = read :: rest)
    (hlast : (rEvents.getD re.idx default).last = false) :
    readStep arEvents rEvents st re =
      { st with
        pendingRById := Queues.modifyFront st.pendingRById (rEvents.getD re.idx default).id
          (PendingRead.addBeat ⟨re.idx, rEvents.getD re.idx default⟩) } := by
  simp only [readStep, hkind, hq, hlast, Bool.false_eq_true, if_false]

/-- A request opens a read of its id, and the last beat of a read closes it. -/
lemma length_get_readStep (arEvents rEvents : List AxiHandshakeEvent) (st : ReadState)
    (re : REvent) (id : String) :
    (Queues.get (readStep arEvents rEvents st re).pendingRById id).length =
      if re.kind = .ar ∧ (arEvents.getD re.idx default).id = id then
        (Queues.get st.pendingRById id).length + 1
      else if re.kind = .r ∧ (rEvents.getD re.idx default).id = id ∧
          (rEvents.getD re.idx default).last = true then
        (Queues.get st.pendingRById id).length - 1
      else (Queues.get st.pendingRById id).length := by
  cases hkind : re.kind with
  | ar =>
      rw [readStep_ar hkind, Queues.get_push]
      by_cases hid : id = (arEvents.getD re.idx default).id
      · rw [if_pos hid, if_pos ⟨rfl, hid.symm⟩, List.length_append, List.length_singleton]
      · rw [if_neg hid, if_neg fun h => hid h.2.symm, List.append_nil]
        simp
  | r =>
      rw [if_neg fun h => REKind.noConfusion h.1]
      by_cases hid : (rEvents.getD re.idx default).id = id
      · -- a beat of the id: only the last one of an open read closes it
        subst hid
        cases hq : Queues.get st.pendingRById (rEvents.getD re.idx default).id with
        | nil => rw [readStep_dropped hkind hq, hq, List.length_nil, ite_self]
        | cons read rest =>
            cases hlast : (rEvents.getD re.idx default).last with
            | true =>
                rw [readStep_last hkind hq hlast, Queues.get_pop_self, hq, if_pos ⟨rfl, rfl, rfl⟩]
                rfl
            | false =>
                rw [readStep_more hkind hq hlast, Queues.get_modifyFront_self, hq,
                  if_neg (by simp)]
                rfl
      · -- a beat of another id leaves the queue of this one
        rw [if_neg fun h => hid h.2.1]
        cases hq : Queues.get st.pendingRById (rEvents.getD re.idx default).id with
        | nil => rw [readStep_dropped hkind hq]
        | cons read rest =>
            cases hlast : (rEvents.getD re.idx default).last with
            | true => rw [readStep_last hkind hq hlast, Queues.get_pop_of_ne _ (Ne.symm hid)]
            | false =>
                rw [readStep_more hkind hq hlast, Queues.get_modifyFront_of_ne _ (Ne.symm hid)]

end ReadStep

/-- Append the read transactions: the complete ones in the order of their last beats,
then the others by id. -/
def assembleReads (std : StdSort) (arEvents rEvents : List AxiHandshakeEvent)
    (transactions : List AxiTransaction) : List AxiTransaction :=
  let st := (std.sort (revents arEvents rEvents)).foldl (readStep arEvents rEvents)
    { transactions := transactions }
  (Queues.flat st.pendingRById).foldl
    (fun transactions read => emit transactions (incompleteRead arEvents read)) st.transactions

/-- `assemble_axi_transactions`. -/
def assembleAxiTransactions (std : StdSort)
    (awEvents wEvents bEvents arEvents rEvents : List AxiHandshakeEvent) :
    List AxiTransaction :=
  assembleReads std arEvents rEvents (assembleWrites awEvents wEvents bEvents)

end XdebugFst.Axi
