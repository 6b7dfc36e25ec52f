import XdebugFst.Lib.Queues
import XdebugFst.Trace.Drivers

/-!
# The query index and the scans it replaces

The constructor of `DesignQueryIndex` goes over the signals once and fills four tables. Each table
holds, under each key, what a scan over all signals for that key would collect: a step of the
constructor appends to the entry of a key exactly what the scan takes from that signal.

Only ports are asked for their connections, a port being a signal whose direction is input, output
or inout. A connection that is recorded at another signal is not in the index.
-/

namespace XdebugFst.Trace

open Lib

/-! ### The scans -/

section Scans

variable (design : Design)

/-- The indices of the table. -/
def signalIndices : List ℤ := (List.range design.signals.length).map fun k : ℕ => (k : ℤ)

/-- A signal is a port. -/
def isPort (index : ℤ) : Bool :=
  0 < design.signalDirection index ∧ design.signalDirection index < 4

/-- The ports of a direction that have a connection to a signal. -/
def scanPortsConnectedTo (signal direction : ℤ) : List ℤ :=
  (signalIndices design).filter fun index =>
    isPort design index ∧ design.signalDirection index = direction ∧ 0 ≤ signal ∧
      ∃ connection ∈ design.portConnections index, connection.other index = signal

/-- The ports of a direction whose name lies in a scope. -/
def scanPortsInScope (scope : String) (direction : ℤ) : List ℤ :=
  (signalIndices design).filter fun index =>
    isPort design index ∧ design.signalDirection index = direction ∧
      signalScope (design.signalName index) = scope

/-- The selector of a name, when the name is an element of the base. -/
def selectorOf (base name : String) : Option ℤ :=
  (indexedSelector name).bind fun s => if s.1 = base then some s.2 else none

/-- The largest selector of a base among all names. -/
def scanLastSelector (base : String) : Option ℤ :=
  ((signalIndices design).filterMap fun index => selectorOf base (design.signalName index)).max?

/-- The connections recorded at the ports. -/
def portRecords : List PortConnection :=
  ((signalIndices design).filter (isPort design)).flatMap design.portConnections

/-- The connections recorded anywhere. -/
def allRecords : List PortConnection := (signalIndices design).flatMap design.portConnections

end Scans

/-- A connection between two signals of the design. -/
def PortConnection.Valid (connection : PortConnection) : Prop :=
  0 ≤ connection.portSignal ∧ 0 ≤ connection.connectedSignal

instance (connection : PortConnection) : Decidable connection.Valid :=
  inferInstanceAs (Decidable (_ ∧ _))

/-- The signals that a connection links to a signal, in either direction. -/
def PortConnection.endsAt (i : ℤ) (connection : PortConnection) : List ℤ :=
  if connection.Valid then
    (if connection.portSignal = i then [connection.connectedSignal] else []) ++
      if connection.connectedSignal = i then [connection.portSignal] else []
  else []

/-- Some connection links two signals, in either direction. -/
def Linked (connections : List PortConnection) (i j : ℤ) : Prop :=
  ∃ connection ∈ connections, connection.Valid ∧
    (connection.portSignal = i ∧ connection.connectedSignal = j ∨
      connection.connectedSignal = i ∧ connection.portSignal = j)

lemma mem_flatMap_endsAt {connections : List PortConnection} {i j : ℤ} :
    j ∈ connections.flatMap (PortConnection.endsAt i) ↔ Linked connections i j := by
  simp only [List.mem_flatMap, Linked]
  refine exists_congr fun connection => and_congr_right fun _ => ?_
  unfold PortConnection.endsAt
  by_cases hvalid : connection.Valid
  · rw [if_pos hvalid, List.mem_append, and_iff_right hvalid]
    refine or_congr ?_ ?_
    · by_cases h : connection.portSignal = i <;> simp [h, eq_comm]
    · by_cases h : connection.connectedSignal = i <;> simp [h, eq_comm]
  · simp [hvalid]

/-! ### A connection -/

namespace DesignQueryIndex

lemma get_push {κ : Type} [LinearOrder κ] (m : OrderedMap κ (List ℤ)) (k k' : κ) (x : ℤ) :
    Queues.get (push m k x) k' = Queues.get m k' ++ if k' = k then [x] else [] :=
  Queues.get_push m k k' x

section Connection

variable (direction index : ℤ) (q : DesignQueryIndex) (once : List ℤ) (connection : PortConnection)

/-- What one connection does to the tables. -/
lemma addConnection_eq : addConnection direction index (q, once) connection =
    ({ q with
        connectedPorts :=
          if 0 ≤ connection.other index ∧ connection.other index ∉ once then
            push q.connectedPorts (toLex (connection.other index, direction)) index
          else q.connectedPorts
        connectedSignals :=
          if connection.Valid then
            push (push q.connectedSignals connection.portSignal connection.connectedSignal)
              connection.connectedSignal connection.portSignal
          else q.connectedSignals },
      if 0 ≤ connection.other index ∧ connection.other index ∉ once then
        once ++ [connection.other index]
      else once) := by
  unfold addConnection
  by_cases hfresh : 0 ≤ connection.other index ∧ connection.other index ∉ once <;>
    by_cases hvalid : connection.Valid
  · simp only [if_pos hfresh, if_pos hvalid, if_pos (show _ ∧ _ from hvalid)]
  · simp only [if_pos hfresh, if_neg hvalid, if_neg (show ¬ (_ ∧ _) from hvalid)]
  · simp only [if_neg hfresh, if_pos hvalid, if_pos (show _ ∧ _ from hvalid)]
  · simp only [if_neg hfresh, if_neg hvalid, if_neg (show ¬ (_ ∧ _) from hvalid)]

lemma mem_addConnection_once (x : ℤ) :
    x ∈ (addConnection direction index (q, once) connection).2 ↔
      x ∈ once ∨ 0 ≤ x ∧ connection.other index = x := by
  rw [addConnection_eq]
  simp only
  split_ifs with h
  · simp only [List.mem_append, List.mem_singleton]
    constructor
    · rintro (hx | rfl)
      · exact .inl hx
      · exact .inr ⟨h.1, rfl⟩
    · rintro (hx | ⟨-, rfl⟩)
      · exact .inl hx
      · exact .inr rfl
  · refine ⟨.inl, ?_⟩
    rintro (hx | ⟨hpos, rfl⟩)
    · exact hx
    · by_contra hx
      exact h ⟨hpos, hx⟩

lemma get_addConnection_ports (signal d : ℤ) :
    Queues.get (addConnection direction index (q, once) connection).1.connectedPorts
        (toLex (signal, d)) =
      Queues.get q.connectedPorts (toLex (signal, d)) ++
        if d = direction ∧ 0 ≤ signal ∧ signal ∉ once ∧ connection.other index = signal then [index]
        else [] := by
  rw [addConnection_eq]
  by_cases hfresh : 0 ≤ connection.other index ∧ connection.other index ∉ once
  · simp only [if_pos hfresh, get_push]
    congr 1
    by_cases h : signal = connection.other index
    · subst h
      simp [hfresh]
    · simp [h, Ne.symm h]
  · simp only [if_neg hfresh]
    rw [if_neg, List.append_nil]
    rintro ⟨-, hpos, hnew, rfl⟩
    exact hfresh ⟨hpos, hnew⟩

lemma get_addConnection_signals (i : ℤ) :
    Queues.get (addConnection direction index (q, once) connection).1.connectedSignals i =
      Queues.get q.connectedSignals i ++ connection.endsAt i := by
  rw [addConnection_eq, PortConnection.endsAt]
  by_cases hvalid : connection.Valid
  · simp only [if_pos hvalid, get_push, List.append_assoc]
    simp only [eq_comm]
  · simp only [if_neg hvalid, List.append_nil]

end Connection

/-! ### The connections of a port -/

section Port

variable (direction index : ℤ) (connections : List PortConnection)

lemma foldl_addConnection_frame (q : DesignQueryIndex) (once : List ℤ) :
    (connections.foldl (addConnection direction index) (q, once)).1.scopePorts = q.scopePorts ∧
      (connections.foldl (addConnection direction index) (q, once)).1.lastSelectors =
        q.lastSelectors := by
  induction connections generalizing q once with
  | nil => exact ⟨rfl, rfl⟩
  | cons connection rest ih =>
      rw [List.foldl_cons, addConnection_eq]
      exact ih _ _

/-- A port is entered once for each signal that it is connected to. -/
lemma get_foldl_addConnection_ports (q : DesignQueryIndex) (once : List ℤ) (signal d : ℤ) :
    Queues.get (connections.foldl (addConnection direction index) (q, once)).1.connectedPorts
        (toLex (signal, d)) =
      Queues.get q.connectedPorts (toLex (signal, d)) ++
        if d = direction ∧ 0 ≤ signal ∧ signal ∉ once ∧
          ∃ connection ∈ connections, connection.other index = signal then [index]
        else [] := by
  induction connections generalizing q once with
  | nil => simp
  | cons connection rest ih =>
      rcases hadd : addConnection direction index (q, once) connection with ⟨q', once'⟩
      have hports := get_addConnection_ports direction index q once connection signal d
      have honce := mem_addConnection_once direction index q once connection signal
      rw [hadd] at hports honce
      rw [List.foldl_cons, hadd, ih, hports, List.append_assoc]
      congr 1
      simp only [honce, List.mem_cons, exists_eq_or_imp]
      by_cases hd : d = direction ∧ 0 ≤ signal ∧ signal ∉ once
      · -- the first connection to the signal enters the port, the others find it in `once`
        by_cases hother : connection.other index = signal <;> simp [hd, hother]
      · have hnot : ∀ p : Prop, ¬ (d = direction ∧ 0 ≤ signal ∧ signal ∉ once ∧ p) :=
          fun p h => hd ⟨h.1, h.2.1, h.2.2.1⟩
        rw [if_neg (hnot _), if_neg (hnot _), if_neg, List.append_nil]
        exact fun h => hd ⟨h.1, h.2.1, fun hmem => h.2.2.1 (.inl hmem)⟩

lemma get_foldl_addConnection_signals (q : DesignQueryIndex) (once : List ℤ) (i : ℤ) :
    Queues.get (connections.foldl (addConnection direction index) (q, once)).1.connectedSignals i =
      Queues.get q.connectedSignals i ++ connections.flatMap (PortConnection.endsAt i) := by
  induction connections generalizing q once with
  | nil => simp
  | cons connection rest ih =>
      rcases hadd : addConnection direction index (q, once) connection with ⟨q', once'⟩
      have hsignals := get_addConnection_signals direction index q once connection i
      rw [hadd] at hsignals
      rw [List.foldl_cons, hadd, ih, hsignals, List.flatMap_cons, List.append_assoc]

end Port

/-! ### A signal -/

section Signal

variable (design : Design) (q : DesignQueryIndex) (index : ℤ)

/-- What one signal does to the tables. -/
lemma addSignal_eq : addSignal design q index =
    if isPort design index then
      ((design.portConnections index).foldl (addConnection (design.signalDirection index) index)
        ({ q with
            scopePorts := push q.scopePorts
              (toLex (signalScope (design.signalName index), design.signalDirection index)) index
            lastSelectors := addSelector q.lastSelectors (design.signalName index) }, [])).1
    else { q with lastSelectors := addSelector q.lastSelectors (design.signalName index) } := by
  unfold addSignal
  by_cases hport : isPort design index
  · have hdirection : 0 < design.signalDirection index ∧ design.signalDirection index < 4 := by
      simpa [isPort] using hport
    simp only [if_pos hport, if_pos hdirection]
  · have hdirection : ¬ (0 < design.signalDirection index ∧ design.signalDirection index < 4) := by
      simpa [isPort] using hport
    simp only [if_neg hport, if_neg hdirection]

lemma addSignal_lastSelectors : (addSignal design q index).lastSelectors =
    addSelector q.lastSelectors (design.signalName index) := by
  rw [addSignal_eq]
  split_ifs
  · rw [(foldl_addConnection_frame _ _ _ _ _).2]
  · rfl

lemma get_addSignal_scope (scope : String) (direction : ℤ) :
    Queues.get (addSignal design q index).scopePorts (toLex (scope, direction)) =
      Queues.get q.scopePorts (toLex (scope, direction)) ++
        if isPort design index ∧ design.signalDirection index = direction ∧
          signalScope (design.signalName index) = scope then [index]
        else [] := by
  rw [addSignal_eq]
  by_cases hport : isPort design index
  · rw [if_pos hport, (foldl_addConnection_frame _ _ _ _ _).1, get_push]
    congr 1
    simp only [EmbeddingLike.apply_eq_iff_eq, Prod.mk.injEq, hport, true_and]
    simp only [eq_comm, and_comm]
  · simp [hport]

lemma get_addSignal_ports (signal direction : ℤ) :
    Queues.get (addSignal design q index).connectedPorts (toLex (signal, direction)) =
      Queues.get q.connectedPorts (toLex (signal, direction)) ++
        if isPort design index ∧ design.signalDirection index = direction ∧ 0 ≤ signal ∧
          ∃ connection ∈ design.portConnections index, connection.other index = signal then [index]
        else [] := by
  rw [addSignal_eq]
  by_cases hport : isPort design index
  · rw [if_pos hport, get_foldl_addConnection_ports]
    congr 1
    simp [hport, eq_comm]
  · simp [hport]

lemma get_addSignal_signals (i : ℤ) :
    Queues.get (addSignal design q index).connectedSignals i =
      Queues.get q.connectedSignals i ++
        if isPort design index then
          (design.portConnections index).flatMap (PortConnection.endsAt i)
        else [] := by
  rw [addSignal_eq]
  by_cases hport : isPort design index
  · rw [if_pos hport, if_pos hport, get_foldl_addConnection_signals]
  · rw [if_neg hport, if_neg hport, List.append_nil]

end Signal

/-! ### The table of signals -/

/-- A list that every step appends to. -/
lemma view_foldl {σ α β : Type} {step : σ → α → σ} (view : σ → List β) {f : α → List β}
    (hstep : ∀ st x, view (step st x) = view st ++ f x) (l : List α) (st : σ) :
    view (l.foldl step st) = view st ++ l.flatMap f := by
  induction l generalizing st with
  | nil => simp
  | cons x l ih => rw [List.foldl_cons, ih, hstep, List.flatMap_cons, List.append_assoc]

lemma flatMap_ite_singleton {α : Type} (p : α → Prop) [DecidablePred p] (l : List α) :
    (l.flatMap fun x => if p x then [x] else []) = l.filter p := by
  induction l with
  | nil => rfl
  | cons x l ih => by_cases hx : p x <;> simp [hx, ih]

lemma flatMap_ite {α β : Type} (p : α → Bool) (f : α → List β) (l : List α) :
    (l.flatMap fun x => if p x then f x else []) = (l.filter p).flatMap f := by
  induction l with
  | nil => rfl
  | cons x l ih => by_cases hx : p x <;> simp [hx, ih]

/-- The index before the first signal. -/
def atStart : DesignQueryIndex where
  connectedPorts := .empty
  connectedSignals := .empty
  scopePorts := .empty
  lastSelectors := .empty

/-- The index before the neighbours are sorted. -/
def unsorted (design : Design) : DesignQueryIndex :=
  (signalIndices design).foldl (addSignal design) atStart

lemma build_eq (design : Design) : build design =
    { unsorted design with
      connectedSignals := (unsorted design).connectedSignals.entries.foldl
        (fun m e => m.insert e.1 (sortUnique e.2)) .empty } := rfl

variable (design : Design)

lemma build_portsConnectedTo (signal direction : ℤ) :
    (build design).portsConnectedTo signal direction =
      scanPortsConnectedTo design signal direction := by
  have h := view_foldl (fun q => Queues.get q.connectedPorts (toLex (signal, direction)))
    (fun q index => get_addSignal_ports design q index signal direction) (signalIndices design) atStart
  rw [flatMap_ite_singleton] at h
  exact h

lemma build_portsInScope (scope : String) (direction : ℤ) :
    (build design).portsInScope scope direction = scanPortsInScope design scope direction := by
  have h := view_foldl (fun q => Queues.get q.scopePorts (toLex (scope, direction)))
    (fun q index => get_addSignal_scope design q index scope direction) (signalIndices design) atStart
  rw [flatMap_ite_singleton] at h
  exact h

/-! ### The last selector -/

lemma find?_addSelector (m : OrderedMap String ℤ) (name base : String) :
    (addSelector m name).find? base =
      match selectorOf base name with
      | none => m.find? base
      | some selector => some (((m.find? base).map fun last => max last selector).getD selector) := by
  unfold addSelector selectorOf
  cases hselector : indexedSelector name with
  | none => rfl
  | some s =>
      obtain ⟨base', selector⟩ := s
      simp only [Option.bind_some]
      by_cases hbase : base' = base
      · subst hbase
        rw [OrderedMap.find?_alter_self, if_pos rfl]
        cases m.find? base' with
        | none => rfl
        | some last =>
            simp only [Option.map_some, Option.getD_some, Option.some.injEq]
            split_ifs with h
            · rw [max_eq_right (le_of_lt h)]
            · rw [max_eq_left (not_lt.1 h)]
      · rw [OrderedMap.find?_alter_of_ne _ (Ne.symm hbase), if_neg hbase]

lemma find?_foldl_addSelector (names : List String) (m : OrderedMap String ℤ) (base : String) :
    (names.foldl addSelector m).find? base =
      ((m.find? base).toList ++ names.filterMap (selectorOf base)).max? := by
  induction names generalizing m with
  | nil =>
      rw [List.foldl_nil, List.filterMap_nil, List.append_nil]
      cases m.find? base <;> rfl
  | cons name names ih =>
      rw [List.foldl_cons, ih, find?_addSelector, List.filterMap_cons]
      cases selectorOf base name with
      | none => rfl
      | some selector => cases m.find? base <;> rfl

lemma build_lastMaterializedSelector (base : String) :
    (build design).lastMaterializedSelector base = scanLastSelector design base := by
  have hfold : ∀ (l : List ℤ) (q : DesignQueryIndex), (l.foldl (addSignal design) q).lastSelectors =
      (l.map design.signalName).foldl addSelector q.lastSelectors := by
    intro l
    induction l with
    | nil => exact fun _ => rfl
    | cons index l ih =>
        intro q
        rw [List.foldl_cons, ih, addSignal_lastSelectors, List.map_cons, List.foldl_cons]
  have hselectors : (build design).lastSelectors =
      ((signalIndices design).map design.signalName).foldl addSelector .empty := hfold _ atStart
  rw [lastMaterializedSelector, hselectors, find?_foldl_addSelector, scanLastSelector,
    List.filterMap_map]
  rfl

/-! ### The neighbours -/

lemma setInsert_sorted {α : Type} [LinearOrder α] {s : List α} (h : s.Pairwise (· < ·)) (x : α) :
    (setInsert s x).Pairwise (· < ·) := by
  unfold setInsert
  split_ifs with hx
  · exact h
  · have hsorted : (s.orderedInsert (· ≤ ·) x).Pairwise (· ≤ ·) :=
      (h.imp le_of_lt).orderedInsert x s
    have hnodup : (s.orderedInsert (· ≤ ·) x).Nodup :=
      (List.perm_orderedInsert _ x s).nodup_iff.2 (List.nodup_cons.2 ⟨hx, h.imp ne_of_lt⟩)
    exact (hsorted.and hnodup).imp fun hab => lt_of_le_of_ne hab.1 hab.2

/-- Sorting and removing duplicates. -/
lemma sortUnique_spec {α : Type} [LinearOrder α] (l : List α) :
    (sortUnique l).Pairwise (· < ·) ∧ ∀ x, x ∈ sortUnique l ↔ x ∈ l := by
  have hfold : ∀ l s : List α, s.Pairwise (· < ·) → (l.foldl setInsert s).Pairwise (· < ·) ∧
      ∀ x, x ∈ l.foldl setInsert s ↔ x ∈ s ∨ x ∈ l := by
    intro l
    induction l with
    | nil => exact fun s hs => ⟨hs, by simp⟩
    | cons a l ih =>
        intro s hs
        obtain ⟨hsorted, hmem⟩ := ih _ (setInsert_sorted hs a)
        refine ⟨hsorted, fun x => ?_⟩
        rw [List.foldl_cons, hmem, mem_setInsert, List.mem_cons]
        tauto
  obtain ⟨hsorted, hmem⟩ := hfold l [] List.Pairwise.nil
  exact ⟨hsorted, fun x => by rw [sortUnique, hmem]; simp⟩

lemma find?_foldl_insert (l : List (ℤ × List ℤ)) (hl : l.Pairwise fun a b => a.1 < b.1)
    (m : OrderedMap ℤ (List ℤ)) (k : ℤ) :
    (l.foldl (fun m e => m.insert e.1 (sortUnique e.2)) m).find? k =
      (((l.find? fun e => e.1 = k).map fun e => sortUnique e.2).or (m.find? k)) := by
  induction l generalizing m with
  | nil => rfl
  | cons e l ih =>
      obtain ⟨hhead, hl⟩ := List.pairwise_cons.1 hl
      rw [List.foldl_cons, ih hl]
      by_cases hk : e.1 = k
      · have hnone : (l.find? fun e => e.1 = k) = none :=
          List.find?_eq_none.2 fun e' he' => by simpa using (hk ▸ hhead e' he').ne'
        rw [hnone, List.find?_cons_of_pos (by simpa using hk), ← hk, OrderedMap.find?_insert_self]
        rfl
      · rw [List.find?_cons_of_neg (by simpa using hk), OrderedMap.find?_insert_of_ne _ (Ne.symm hk)]

lemma build_connectedSignalsOf (i : ℤ) :
    (build design).connectedSignalsOf i =
      sortUnique ((portRecords design).flatMap (PortConnection.endsAt i)) := by
  have hget : Queues.get (unsorted design).connectedSignals i =
      (portRecords design).flatMap (PortConnection.endsAt i) := by
    have h := view_foldl (fun q => Queues.get q.connectedSignals i)
      (fun q index => get_addSignal_signals design q index i) (signalIndices design) atStart
    rw [flatMap_ite] at h
    rw [portRecords, List.flatMap_assoc]
    exact h
  rw [← hget, connectedSignalsOf, build_eq]
  simp only
  rw [find?_foldl_insert _ (unsorted design).connectedSignals.sorted, OrderedMap.find?_empty,
    Option.or_none, Queues.get, OrderedMap.find?]
  cases (unsorted design).connectedSignals.entries.find? fun e => e.1 = i <;> rfl

/-- The index holds what the scans over all signals would collect. -/
theorem build_eq_scan (design : Design) :
    (∀ i, ((build design).connectedSignalsOf i).Pairwise (· < ·) ∧
      ∀ j, j ∈ (build design).connectedSignalsOf i ↔ Linked (portRecords design) i j) ∧
    (∀ signal direction, (build design).portsConnectedTo signal direction =
      scanPortsConnectedTo design signal direction) ∧
    (∀ scope direction, (build design).portsInScope scope direction =
      scanPortsInScope design scope direction) ∧
    ∀ base, (build design).lastMaterializedSelector base = scanLastSelector design base := by
  refine ⟨fun i => ?_, build_portsConnectedTo design, build_portsInScope design,
    build_lastMaterializedSelector design⟩
  rw [build_connectedSignalsOf]
  obtain ⟨hsorted, hmem⟩ := sortUnique_spec ((portRecords design).flatMap (PortConnection.endsAt i))
  exact ⟨hsorted, fun j => (hmem j).trans mem_flatMap_endsAt⟩

/-- A connection that is recorded at a signal without a direction. -/
def wireDesign : Design :=
  .ofSignals [{ name := some "top.w", ports := [{ portSignal := 0, connectedSignal := 1 }] },
    { name := some "top.u.p" }]

/-- The index has no neighbours for connections that are recorded elsewhere than at a port. -/
theorem wireDesign_not_indexed : ¬ ∀ (design : Design) (i j : ℤ),
    j ∈ (build design).connectedSignalsOf i ↔ Linked (allRecords design) i j := by
  intro h
  have hlinked : Linked (allRecords wireDesign) 0 1 :=
    ⟨{ portSignal := 0, connectedSignal := 1 }, by decide, by decide, .inl ⟨rfl, rfl⟩⟩
  have hmem := (h wireDesign 0 1).2 hlinked
  have hnone : portRecords wireDesign = [] := by decide
  rw [build_connectedSignalsOf, hnone] at hmem
  simp [sortUnique] at hmem

end DesignQueryIndex

end XdebugFst.Trace
