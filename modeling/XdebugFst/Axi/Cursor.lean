import Mathlib
import XdebugFst.Lib.Trace
import XdebugFst.Axi.Causality

/-!
# The transaction cursor

`axi.transaction.cursor` keeps a position for each configuration and direction, and loading a
configuration erases its positions. The list that a position points into is not kept: every
request scans the waveform anew and collects the transactions.

Going back is the one move that does not compare the position with the length of the list. The
handler would read a time range, and a shorter range could leave the position behind the list:
`shrinkingRequests_not_cursorSafe`. The requests that are admitted have no time range. They scan
the whole waveform, and their list only changes with the configuration, because loading it loads
every signal that the scan reads. So no position leaves its list: `cursorSafe_of_admitted`.
-/

namespace XdebugFst.Axi

open Lib Waveform

/-- The `direction` of a request. -/
inductive Direction
  | all | read | write
  deriving DecidableEq, Repr

def Direction.text : Direction → String
  | all => "all"
  | read => "read"
  | write => "write"

/-- The `op` of a request. `pre` is another word for `prev`. The handler takes every other text,
such as `first` or `show`, for `prev` as well; no admitted request has one. -/
inductive CursorOp
  | begin | last | next | prev | pre | other
  deriving DecidableEq, Repr

/-- The code and the message of an error. -/
structure HandlerError where
  code : String
  message : String
  deriving DecidableEq, Repr

def AxiScanError.toHandlerError : AxiScanError → HandlerError
  | .memoryLimit hard key =>
      ⟨"ANALYSIS_MEMORY_LIMIT_EXCEEDED", (AxiScanError.memoryLimit hard key).message⟩
  | .signalNotFound role name =>
      ⟨"CONFIG_SIGNAL_NOT_FOUND", (AxiScanError.signalNotFound role name).message⟩

/-! ### Configurations -/

/-- The JSON source of a configuration. A name in it is not read. -/
structure ConfigSource where
  signals : AxiSignalMap
  samplePoint : String := ""

/-- `parse_axi_signal_map` -/
def parseAxiSignalMap (name : String) (source : ConfigSource) : Except HandlerError AxiSignalMap :=
  if source.signals.edge = .negedge && source.samplePoint ≠ "" then
    .error ⟨"INVALID_FIELD", "negedge AXI config must omit sample_point"⟩
  else .ok { source.signals with name := name, sampleAfter := source.samplePoint = "after" }

/-- `axi_signal_fields` -/
def axiSignalFields (m : AxiSignalMap) : List (String × String) :=
  [("clock", m.aclk), ("reset", m.aresetn), ("awvalid", m.awvalid), ("awready", m.awready),
    ("awaddr", m.awaddr), ("awid", m.awid), ("awlen", m.awlen), ("awsize", m.awsize),
    ("awburst", m.awburst), ("wvalid", m.wvalid), ("wready", m.wready), ("wdata", m.wdata),
    ("wstrb", m.wstrb), ("wlast", m.wlast), ("bvalid", m.bvalid), ("bready", m.bready),
    ("bid", m.bid), ("bresp", m.bresp), ("arvalid", m.arvalid), ("arready", m.arready),
    ("araddr", m.araddr), ("arid", m.arid), ("arlen", m.arlen), ("arsize", m.arsize),
    ("arburst", m.arburst), ("rvalid", m.rvalid), ("rready", m.rready), ("rdata", m.rdata),
    ("rid", m.rid), ("rresp", m.rresp), ("rlast", m.rlast)]

/-- The fields that must resolve to one bit. -/
def controlFields : List String :=
  ["clock", "reset", "awvalid", "awready", "wvalid", "wready", "wlast", "bvalid", "bready",
    "arvalid", "arready", "rvalid", "rready", "rlast"]

/-- One round of the loop over the fields, with the signals that are loaded after it. -/
def loadField (wf : Backend) (loaded : Loaded) (field : String × String) :
    Except HandlerError Unit × Loaded :=
  let ref := wf.findSignal field.2
  if ref = 0 then
    (.error ⟨"CONFIG_SIGNAL_NOT_FOUND",
      "AXI " ++ field.1 ++ " signal not found: " ++ field.2⟩, loaded)
  else if !loaded.contains (wf.nativeRef ref) && wf.loadCount [ref] ≠ 1 then
    (.error ⟨"VALUE_NOT_AVAILABLE", "failed to load AXI signal"⟩, loaded)
  else
    let loaded := if loaded.contains (wf.nativeRef ref) then loaded else loadSignals wf loaded [ref]
    match (wf.signal ref).map SignalData.width with
    | none => (.error ⟨"VALUE_NOT_AVAILABLE", "AXI signal metadata unavailable"⟩, loaded)
    | some width =>
        if controlFields.contains field.1 && width ≠ 1 then
          (.error ⟨"INVALID_FIELD", "AXI control signal must resolve to one bit"⟩, loaded)
        else (.ok (), loaded)

/-- The loop over the fields; it stops at the first error. -/
def loadFields (wf : Backend) :
    Loaded → List (String × String) → Except HandlerError Unit × Loaded
  | loaded, [] => (.ok (), loaded)
  | loaded, field :: rest =>
      match loadField wf loaded field with
      | (.error error, loaded) => (.error error, loaded)
      | (.ok (), loaded) => loadFields wf loaded rest

/-- `axi_configs`, `axi_cursors` and the signals that the waveform has loaded. -/
structure AxiState where
  configs : OrderedMap String AxiSignalMap := .empty
  cursors : OrderedMap String ℕ := .empty
  loaded : Loaded := []

/-- The key of a position. -/
def cursorKey (name : String) (direction : Direction) : String := name ++ ":" ++ direction.text

/-- `AxiConfigLoadHandler::run` on a source that was read. -/
def loadConfig (wf : Backend) (name : String) (source : ConfigSource) (st : AxiState) :
    Except HandlerError AxiSignalMap × AxiState :=
  match parseAxiSignalMap name source with
  | .error error => (.error error, st)
  | .ok config =>
      match loadFields wf st.loaded (axiSignalFields config) with
      | (.error error, loaded) => (.error error, { st with loaded })
      | (.ok (), loaded) =>
          if (wf.timeIndicesOf (wf.findSignal config.aclk)).isEmpty then
            (.error ⟨"VALUE_NOT_AVAILABLE", "AXI clock has no edges"⟩, { st with loaded })
          else (.ok config, {
            configs := st.configs.insert config.name config
            cursors := ((st.cursors.erase (cursorKey config.name .all)).erase
              (cursorKey config.name .read)).erase (cursorKey config.name .write)
            loaded })

/-! ### Cursors -/

/-- A request to `axi.transaction.cursor`: the ends of its time range as they are parsed, if it
has them, and the error of its render options, if there is one. -/
structure CursorRequest where
  name : String
  direction : Direction := .all
  op : CursorOp
  first : Option (Except HandlerError ℕ) := none
  last : Option (Except HandlerError ℕ) := none
  renderError : Option HandlerError := none

/-- The part of the response that is about the cursor. -/
structure CursorResponse where
  found : Bool
  /-- The position counted from one, `null` when nothing is found. -/
  index : Option ℕ
  atBegin : Bool
  atEnd : Bool
  scanComplete : Bool
  totalCount : ℕ
  /-- `*matches[position]`; the inner `none` is a read outside the vector. -/
  transaction : Option (Option AxiTransaction)
  deriving DecidableEq

/-- The transactions that a cursor moves over. -/
def matching (direction : Direction) (transactions : List AxiTransaction) : List AxiTransaction :=
  transactions.filter fun txn => txn.complete && match direction with
    | .all => true
    | .write => txn.isWrite
    | .read => !txn.isWrite

/-- `axi_cursors()[key]`, which is zero at first. -/
def position (st : AxiState) (name : String) (direction : Direction) : ℕ :=
  (st.cursors.find? (cursorKey name direction)).getD 0

/-- The new position, and whether there is a transaction for it. -/
def move (op : CursorOp) (size position : ℕ) : ℕ × Bool :=
  if size = 0 then (position, false)
  else
    match op with
    | .begin => (0, true)
    | .last => (size - 1, true)
    | .next => if position + 1 < size then (position + 1, true) else (position, false)
    | .prev | .pre | .other => if 0 < position then (position - 1, true) else (position, false)

/-- The response at a position of a scan. -/
def cursorResponse (scan : AxiScanResult) (direction : Direction) (moved : ℕ × Bool) :
    CursorResponse where
  found := moved.2
  index := if moved.2 then some (moved.1 + 1) else none
  atBegin := moved.2 && moved.1 = 0
  atEnd := moved.2 && moved.1 + 1 = (matching direction scan.transactions).length
  scanComplete := scan.complete
  totalCount := (matching direction scan.transactions).length
  transaction := if moved.2 then some (matching direction scan.transactions)[moved.1]? else none

/-- `parse_time_range` -/
def parseTimeRange (wf : Backend) (first last : Option (Except HandlerError ℕ)) :
    Except HandlerError (ℕ × ℕ) :=
  match first.getD (.ok wf.minTime) with
  | .error error => .error error
  | .ok tBegin =>
      match last.getD (.ok wf.maxTime) with
      | .error error => .error error
      | .ok tEnd =>
          if tEnd < tBegin then .error ⟨"TIME_RANGE_INVALID", "end is before begin"⟩
          else .ok (tBegin, tEnd)

-- every scan reads the limit from `XDEBUG_ANALYSIS_CACHE_HARD_MAX_BYTES`
variable (std : StdSort) (wf : Backend) (hardLimit : ℕ)

/-- The scan of a request: the configuration and the time range are looked up before it. -/
def scanRequest (st : AxiState) (req : CursorRequest) : Except HandlerError AxiScanResult :=
  match st.configs.find? req.name with
  | none => .error ⟨"CONFIG_NOT_FOUND", "axi config not found: " ++ req.name⟩
  | some config =>
      match parseTimeRange wf req.first req.last with
      | .error error => .error error
      | .ok range =>
          match scanAxi std wf config hardLimit st.loaded range.1 range.2 with
          | .error error => .error error.toHandlerError
          | .ok scan => .ok scan

/-- `AxiTransactionCursorHandler::run`. The scan loads no signal that loading the configuration
has not loaded. -/
def runCursor (req : CursorRequest) (st : AxiState) :
    Except HandlerError CursorResponse × AxiState :=
  match scanRequest std wf hardLimit st req with
  | .error error => (.error error, st)
  | .ok scan =>
      match req.renderError with
      | some error => (.error error, st)
      | none =>
          let moved := move req.op (matching req.direction scan.transactions).length
            (position st req.name req.direction)
          (.ok (cursorResponse scan req.direction moved),
            { st with cursors := st.cursors.insert (cursorKey req.name req.direction) moved.1 })

/-- A request about configurations or cursors, or any other one, which may load signals. -/
inductive Request
  | load (name : String) (source : ConfigSource)
  | cursor (req : CursorRequest)
  | other (refs : List ℕ)

/-- The state after a request. -/
def step (st : AxiState) : Request → AxiState
  | .load name source => (loadConfig wf name source st).2
  | .cursor req => (runCursor std wf hardLimit req st).2
  | .other refs => { st with loaded := loadSignals wf st.loaded refs }

/-- The arguments of an admitted request are its name, direction, op and render options. -/
def CursorRequest.Admitted (req : CursorRequest) : Prop := req.first = none ∧ req.last = none

def Request.Admitted : Request → Prop
  | .cursor req => req.Admitted
  | _ => True

/-- A request that finds something stores a position inside its own list, and answers with the
transaction at it. -/
def CursorSafe (st : AxiState) (req : CursorRequest) : Prop :=
  ∀ response, (runCursor std wf hardLimit req st).1 = .ok response → response.found = true →
    ∃ scan p txn, scanRequest std wf hardLimit st req = .ok scan ∧
      position (step std wf hardLimit st (.cursor req)) req.name req.direction = p ∧
      p < (matching req.direction scan.transactions).length ∧
      (matching req.direction scan.transactions)[p]? = some txn ∧
      response.transaction = some (some txn) ∧ response.index = some (p + 1)

/-! ### Moves -/

/-- Going back from a position: the moves that do not look at the length of the list. -/
def CursorOp.goesBack : CursorOp → Bool
  | .prev | .pre | .other => true
  | _ => false

/-- Where a move can end. -/
lemma move_lt_iff {op : CursorOp} {size position : ℕ} :
    ((move op size position).2 = true → (move op size position).1 < size) ↔
      (op.goesBack = true → size ≠ 0 → position ≤ size) := by
  by_cases hsize : size = 0
  · simp [move, hsize]
  · have hpos : 0 < size := Nat.pos_of_ne_zero hsize
    cases op with
    | begin => simp [move, hsize, hpos, CursorOp.goesBack]
    | last => simp [move, hsize, hpos, CursorOp.goesBack]
    | next =>
        by_cases hnext : position + 1 < size
        · simp [move, hsize, hnext, CursorOp.goesBack]
        · simp [move, hsize, hnext, CursorOp.goesBack]
    | prev | pre | other =>
        by_cases hback : 0 < position
        · simp [move, hsize, hback, CursorOp.goesBack]
          omega
        · simp [move, hsize, hback, CursorOp.goesBack]
          omega

lemma move_inside {op : CursorOp} {size p : ℕ} (h : p = 0 ∨ p < size) :
    (move op size p).1 = 0 ∨ (move op size p).1 < size := by
  cases hfound : (move op size p).2 with
  | true => exact Or.inr (move_lt_iff.2 (fun _ hsize => by omega) hfound)
  | false =>
      have hsame : (move op size p).1 = p := by
        unfold move at hfound ⊢
        cases op <;> dsimp only at hfound ⊢ <;> split_ifs at hfound ⊢ <;> rfl
      rwa [hsame]

/-! ### A scan of loaded signals -/

/-- Every signal of the configuration is loaded. -/
def AllLoaded (wf : Backend) (sm : AxiSignalMap) (loaded : Loaded) : Prop :=
  ∀ field ∈ axiSignalFields sm, loaded.contains (wf.nativeRef (wf.findSignal field.2)) = true

section Loaded

variable {wf : Backend} {sm : AxiSignalMap} {l l' : Loaded}

lemma contains_loadSignals {n : ℕ} (h : l.contains n = true) (refs : List ℕ) :
    (loadSignals wf l refs).contains n = true := by
  unfold loadSignals
  dsimp only
  split_ifs
  · exact h
  · rw [List.contains_iff_mem] at h ⊢
    exact List.mem_append_left _ h

lemma AllLoaded.loadSignals (h : AllLoaded wf sm l) (refs : List ℕ) :
    AllLoaded wf sm (loadSignals wf l refs) :=
  fun field hfield => contains_loadSignals (h field hfield) refs

/-- A loaded signal is read in the same way whatever else is loaded. -/
lemma AllLoaded.read (h : AllLoaded wf sm l) (h' : AllLoaded wf sm l') {path : String}
    (hpath : path ∈ (axiSignalFields sm).map Prod.snd) :
    readSignalAt wf l (wf.findSignal path) = readSignalAt wf l' (wf.findSignal path) := by
  obtain ⟨field, hfield, rfl⟩ := List.mem_map.1 hpath
  funext ti point
  rw [readSignalAt, readSignalAt, h field hfield, h' field hfield]

lemma selectedClockEdges_congr (h : AllLoaded wf sm l) (h' : AllLoaded wf sm l')
    (first last : ℕ) :
    selectedClockEdges wf l sm first last = selectedClockEdges wf l' sm first last := by
  have hread := @AllLoaded.read _ _ _ _ h h' sm.aclk (by simp [axiSignalFields])
  have hedge : isSelectedEdge wf l sm (wf.findSignal sm.aclk) =
      isSelectedEdge wf l' sm (wf.findSignal sm.aclk) := by
    funext ti
    simp only [isSelectedEdge, hread]
  have hloop : ∀ previous tis,
      selectEdges wf l sm (wf.findSignal sm.aclk) first last previous tis =
        selectEdges wf l' sm (wf.findSignal sm.aclk) first last previous tis := by
    intro previous tis
    induction tis generalizing previous with
    | nil => rfl
    | cons ti rest ih => simp only [selectEdges, hedge, ih]
  rw [selectedClockEdges, selectedClockEdges, hloop]

lemma resetAt_congr (h : AllLoaded wf sm l) (h' : AllLoaded wf sm l') :
    resetAt wf l sm = resetAt wf l' sm := by
  have hread := @AllLoaded.read _ _ _ _ h h' sm.aresetn (by simp [axiSignalFields])
  funext ti
  rw [resetAt, resetAt, hread]

lemma scanChannelHandshakes_congr (h : AllLoaded wf sm l) (h' : AllLoaded wf sm l')
    {valid ready : String} (hvalid : valid ∈ (axiSignalFields sm).map Prod.snd)
    (hready : ready ∈ (axiSignalFields sm).map Prod.snd) (channel : Channel) (edges : List ℕ)
    (complete : Bool) :
    scanChannelHandshakes wf l sm channel (wf.findSignal valid) (wf.findSignal ready) edges
        complete =
      scanChannelHandshakes wf l' sm channel (wf.findSignal valid) (wf.findSignal ready) edges
        complete := by
  have hstep : channelStep wf l sm channel (wf.findSignal valid) (wf.findSignal ready) =
      channelStep wf l' sm channel (wf.findSignal valid) (wf.findSignal ready) := by
    funext st ti
    simp only [channelStep, h.read h' hvalid, h.read h' hready]
  rw [scanChannelHandshakes, hstep, scanChannelHandshakes]

/-- What the augmentation of a channel reads does not depend on what else is loaded, and it
keeps what is loaded. -/
def Augments (wf : Backend) (sm : AxiSignalMap)
    (augment : Loaded → List AxiHandshakeEvent → List AxiHandshakeEvent × Loaded) : Prop :=
  ∀ l l' events, AllLoaded wf sm l → AllLoaded wf sm l' →
    (augment l events).1 = (augment l' events).1 ∧ AllLoaded wf sm (augment l events).2

lemma augments_address {id addr len size burst : String}
    (hfields : ∀ path ∈ [id, addr, len, size, burst], path ∈ (axiSignalFields sm).map Prod.snd) :
    Augments wf sm (augmentAddressEvents wf sm id addr len size burst) := by
  intro l l' events h h'
  have hread : ∀ path ∈ [id, addr, len, size, burst], ∀ refs,
      readSignalAt wf (loadSignals wf l refs) (wf.findSignal path) =
        readSignalAt wf (loadSignals wf l' refs) (wf.findSignal path) :=
    fun path hpath refs => (h.loadSignals refs).read (h'.loadSignals refs) (hfields path hpath)
  unfold augmentAddressEvents
  by_cases hid : wf.findSignal id = 0
  · simp only [hid, if_true]
    exact ⟨trivial, h⟩
  · simp only [if_neg hid]
    refine ⟨?_, h.loadSignals _⟩
    rw [hread id (by simp), hread addr (by simp), hread len (by simp), hread size (by simp),
      hread burst (by simp)]

lemma augments_w : Augments wf sm (augmentWEvents wf sm) := by
  intro l l' events h h'
  have hread : ∀ path ∈ [sm.wdata, sm.wlast, sm.wstrb], ∀ refs,
      readSignalAt wf (loadSignals wf l refs) (wf.findSignal path) =
        readSignalAt wf (loadSignals wf l' refs) (wf.findSignal path) := by
    intro path hpath refs
    refine (h.loadSignals refs).read (h'.loadSignals refs) ?_
    revert path
    simp [axiSignalFields]
  unfold augmentWEvents
  by_cases hdata : wf.findSignal sm.wdata = 0
  · simp only [hdata, if_true]
    exact ⟨trivial, h⟩
  · simp only [if_neg hdata]
    refine ⟨?_, h.loadSignals _⟩
    rw [hread sm.wdata (by simp), hread sm.wlast (by simp), hread sm.wstrb (by simp)]

lemma augments_b : Augments wf sm (augmentBEvents wf sm) := by
  intro l l' events h h'
  have hread : ∀ path ∈ [sm.bid, sm.bresp], ∀ refs,
      readSignalAt wf (loadSignals wf l refs) (wf.findSignal path) =
        readSignalAt wf (loadSignals wf l' refs) (wf.findSignal path) := by
    intro path hpath refs
    refine (h.loadSignals refs).read (h'.loadSignals refs) ?_
    revert path
    simp [axiSignalFields]
  unfold augmentBEvents
  by_cases hid : wf.findSignal sm.bid = 0
  · simp only [hid, if_true]
    exact ⟨trivial, h⟩
  · simp only [if_neg hid]
    refine ⟨?_, h.loadSignals _⟩
    rw [hread sm.bid (by simp), hread sm.bresp (by simp)]

lemma augments_r : Augments wf sm (augmentREvents wf sm) := by
  intro l l' events h h'
  have hread : ∀ path ∈ [sm.rid, sm.rdata, sm.rlast, sm.rresp], ∀ refs,
      readSignalAt wf (loadSignals wf l refs) (wf.findSignal path) =
        readSignalAt wf (loadSignals wf l' refs) (wf.findSignal path) := by
    intro path hpath refs
    refine (h.loadSignals refs).read (h'.loadSignals refs) ?_
    revert path
    simp [axiSignalFields]
  unfold augmentREvents
  by_cases hid : wf.findSignal sm.rid = 0
  · simp only [hid, if_true]
    exact ⟨trivial, h⟩
  · simp only [if_neg hid]
    refine ⟨?_, h.loadSignals _⟩
    rw [hread sm.rid (by simp), hread sm.rdata (by simp), hread sm.rlast (by simp),
      hread sm.rresp (by simp)]

/-- The augmentation of the five channels, one after the other. -/
lemma augment_congr (h : AllLoaded wf sm l) (h' : AllLoaded wf sm l')
    {f : Loaded → List AxiHandshakeEvent → List AxiHandshakeEvent × Loaded}
    (hf : Augments wf sm f) (events : List AxiHandshakeEvent) :
    (f l events).1 = (f l' events).1 ∧ AllLoaded wf sm (f l events).2 ∧
      AllLoaded wf sm (f l' events).2 :=
  ⟨(hf l l' events h h').1, (hf l l' events h h').2, (hf l' l events h' h).2⟩

lemma scanEvents_congr (h : AllLoaded wf sm l) (h' : AllLoaded wf sm l') (first last : ℕ) :
    scanEvents wf sm l first last = scanEvents wf sm l' first last := by
  have hl : AllLoaded wf sm (controlLoaded wf sm l) := (h.loadSignals _).loadSignals _
  have hl' : AllLoaded wf sm (controlLoaded wf sm l') := (h'.loadSignals _).loadSignals _
  have hedges : activeEdges wf sm (controlLoaded wf sm l) first last =
      activeEdges wf sm (controlLoaded wf sm l') first last := by
    rw [activeEdges, activeEdges, selectedClockEdges_congr hl hl', resetAt_congr hl hl']
  have hcomplete : resetComplete wf sm (controlLoaded wf sm l) first last =
      resetComplete wf sm (controlLoaded wf sm l') first last := by
    rw [resetComplete, resetComplete, selectedClockEdges_congr hl hl', resetAt_congr hl hl']
  have hscan : ∀ valid ready channel edges complete,
      valid ∈ (axiSignalFields sm).map Prod.snd → ready ∈ (axiSignalFields sm).map Prod.snd →
      scanChannelHandshakes wf (controlLoaded wf sm l) sm channel (wf.findSignal valid)
          (wf.findSignal ready) edges complete =
        scanChannelHandshakes wf (controlLoaded wf sm l') sm channel (wf.findSignal valid)
          (wf.findSignal ready) edges complete :=
    fun _ _ channel edges complete hvalid hready =>
      scanChannelHandshakes_congr hl hl' hvalid hready channel edges complete
  unfold scanEvents
  dsimp only
  rw [hedges, hcomplete,
    hscan sm.awvalid sm.awready _ _ _ (by simp [axiSignalFields]) (by simp [axiSignalFields]),
    hscan sm.wvalid sm.wready _ _ _ (by simp [axiSignalFields]) (by simp [axiSignalFields]),
    hscan sm.bvalid sm.bready _ _ _ (by simp [axiSignalFields]) (by simp [axiSignalFields]),
    hscan sm.arvalid sm.arready _ _ _ (by simp [axiSignalFields]) (by simp [axiSignalFields]),
    hscan sm.rvalid sm.rready _ _ _ (by simp [axiSignalFields]) (by simp [axiSignalFields])]
  generalize scanChannelHandshakes wf (controlLoaded wf sm l') sm .aw _ _ _ _ = aw
  generalize scanChannelHandshakes wf (controlLoaded wf sm l') sm .w _ _ _ _ = w
  generalize scanChannelHandshakes wf (controlLoaded wf sm l') sm .b _ _ _ _ = b
  generalize scanChannelHandshakes wf (controlLoaded wf sm l') sm .ar _ _ _ _ = ar
  generalize scanChannelHandshakes wf (controlLoaded wf sm l') sm .r _ _ _ _ = r
  obtain ⟨haw, hl, hl'⟩ := augment_congr hl hl' (f := augmentAwEvents wf sm)
    (augments_address (by simp [axiSignalFields])) aw.events
  rw [haw]
  obtain ⟨hw, hl, hl'⟩ := augment_congr hl hl' augments_w w.events
  rw [hw]
  obtain ⟨hb, hl, hl'⟩ := augment_congr hl hl' augments_b b.events
  rw [hb]
  obtain ⟨har, hl, hl'⟩ := augment_congr hl hl' (f := augmentArEvents wf sm)
    (augments_address (by simp [axiSignalFields])) ar.events
  rw [har, (augment_congr hl hl' augments_r r.events).1]

/-- What a scan finds is decided by the configuration and the time range. -/
lemma scanAxi_congr {std : StdSort} {hardLimit : ℕ} (h : AllLoaded wf sm l)
    (h' : AllLoaded wf sm l') (first last : ℕ) :
    scanAxi std wf sm hardLimit l first last = scanAxi std wf sm hardLimit l' first last := by
  rw [scanAxi, scanEvents_congr h h', scanAxi]

/-! ### Loading the signals of a configuration -/

lemma loadField_mono {field : String × String} {n : ℕ} (h : l.contains n = true) :
    (loadField wf l field).2.contains n = true := by
  unfold loadField
  dsimp only
  split_ifs
  · exact h
  · exact h
  · split
    · exact h
    · split_ifs <;> exact h
  · split
    · exact contains_loadSignals h _
    · split_ifs <;> exact contains_loadSignals h _

lemma loadFields_mono {fields : List (String × String)} {n : ℕ} (h : l.contains n = true) :
    (loadFields wf l fields).2.contains n = true := by
  induction fields generalizing l with
  | nil => exact h
  | cons field rest ih =>
      have hmono := @loadField_mono wf l field n h
      rw [loadFields]
      cases hfield : loadField wf l field with
      | mk result loaded =>
          rw [hfield] at hmono
          cases result with
          | error error => exact hmono
          | ok _ => exact ih hmono

/-- A field without an error is loaded. -/
lemma contains_of_loadField {field : String × String} (h : (loadField wf l field).1 = .ok ()) :
    (loadField wf l field).2.contains (wf.nativeRef (wf.findSignal field.2)) = true := by
  unfold loadField at h ⊢
  dsimp only at h ⊢
  by_cases href : wf.findSignal field.2 = 0
  · rw [if_pos href] at h
    cases h
  by_cases hin : l.contains (wf.nativeRef (wf.findSignal field.2)) = true
  · have hmono := @loadField_mono wf l field _ hin
    unfold loadField at hmono
    exact hmono
  · rw [Bool.not_eq_true] at hin
    rw [if_neg href, hin] at h ⊢
    by_cases hload : wf.loadCount [wf.findSignal field.2] ≠ 1
    · rw [if_pos (by simp [hload])] at h
      cases h
    · have hnative : wf.nativeRef (wf.findSignal field.2) ≠ 0 := by
        intro hzero
        exact hload (by simp [Backend.loadCount, hzero])
      have hmem : (loadSignals wf l [wf.findSignal field.2]).contains
          (wf.nativeRef (wf.findSignal field.2)) = true := by
        simp [loadSignals, hnative.symm]
      rw [if_neg (by simp [hload]), if_neg Bool.false_ne_true]
      split
      · exact hmem
      · split_ifs <;> exact hmem

lemma contains_of_loadFields {fields : List (String × String)}
    (h : (loadFields wf l fields).1 = .ok ()) {field : String × String} (hfield : field ∈ fields) :
    (loadFields wf l fields).2.contains (wf.nativeRef (wf.findSignal field.2)) = true := by
  induction fields generalizing l with
  | nil => cases hfield
  | cons other rest ih =>
      rw [loadFields] at h ⊢
      have hload := @contains_of_loadField wf l other
      cases hother : loadField wf l other with
      | mk result loaded =>
          rw [hother] at h hload
          cases result with
          | error error => cases h
          | ok _ =>
              rcases List.mem_cons.1 hfield with rfl | hrest
              · exact loadFields_mono (hload rfl)
              · exact ih h hrest

end Loaded

/-! ### Positions -/

lemma cursorKey_inj {name name' : String} {direction direction' : Direction}
    (h : cursorKey name direction = cursorKey name' direction') :
    name = name' ∧ direction = direction' := by
  have hlist := congrArg String.toList h
  simp only [cursorKey, String.toList_append] at hlist
  have hdirection : direction = direction' := by
    have hlast := congrArg List.getLast? hlist
    cases direction <;> cases direction' <;> first | rfl | simp [Direction.text] at hlast
  subst hdirection
  refine ⟨?_, rfl⟩
  rw [List.append_left_inj, List.append_left_inj] at hlist
  exact String.toList_inj.1 hlist

section Runs

variable {std wf hardLimit} {st : AxiState} {name : String} {direction : Direction}

lemma position_insert_self (p : ℕ) : position
    { st with cursors := st.cursors.insert (cursorKey name direction) p } name direction = p := by
  rw [position, OrderedMap.find?_insert_self]
  rfl

lemma position_insert_of_ne {name' : String} {direction' : Direction}
    (h : ¬ (name' = name ∧ direction' = direction)) (p : ℕ) : position
      { st with cursors := st.cursors.insert (cursorKey name direction) p } name' direction' =
      position st name' direction' := by
  rw [position, OrderedMap.find?_insert_of_ne _ fun hkey => h (cursorKey_inj hkey)]
  rfl

/-- Loading a configuration leaves it no position. -/
lemma find?_erase_positions (cursors : OrderedMap String ℕ) :
    (((cursors.erase (cursorKey name .all)).erase (cursorKey name .read)).erase
      (cursorKey name .write)).find? (cursorKey name direction) = none := by
  have hne : ∀ d, d ≠ direction → cursorKey name direction ≠ cursorKey name d :=
    fun d hd hkey => hd (cursorKey_inj hkey).2.symm
  cases direction with
  | all =>
      rw [OrderedMap.find?_erase_of_ne _ (hne .write (by decide)),
        OrderedMap.find?_erase_of_ne _ (hne .read (by decide)), OrderedMap.find?_erase_self]
  | read =>
      rw [OrderedMap.find?_erase_of_ne _ (hne .write (by decide)), OrderedMap.find?_erase_self]
  | write => rw [OrderedMap.find?_erase_self]

lemma find?_erase_positions_of_ne {name' : String} (h : name' ≠ name)
    (cursors : OrderedMap String ℕ) :
    (((cursors.erase (cursorKey name .all)).erase (cursorKey name .read)).erase
      (cursorKey name .write)).find? (cursorKey name' direction) =
      cursors.find? (cursorKey name' direction) := by
  have hne : ∀ d, cursorKey name' direction ≠ cursorKey name d :=
    fun d hkey => h (cursorKey_inj hkey).1
  rw [OrderedMap.find?_erase_of_ne _ (hne .write), OrderedMap.find?_erase_of_ne _ (hne .read),
    OrderedMap.find?_erase_of_ne _ (hne .all)]

/-- What loading a configuration does. -/
lemma loadConfig_cases (wf : Backend) (name : String) (source : ConfigSource) (st : AxiState) :
    (∀ n, st.loaded.contains n = true → (loadConfig wf name source st).2.loaded.contains n = true) ∧
    (((loadConfig wf name source st).2.configs = st.configs ∧
        (loadConfig wf name source st).2.cursors = st.cursors) ∨
      ∃ config, (loadConfig wf name source st).2.configs = st.configs.insert name config ∧
        AllLoaded wf config (loadConfig wf name source st).2.loaded ∧
        (∀ direction, position (loadConfig wf name source st).2 name direction = 0) ∧
        ∀ name' direction, name' ≠ name →
          position (loadConfig wf name source st).2 name' direction =
            position st name' direction) := by
  rw [loadConfig]
  cases hparse : parseAxiSignalMap name source with
  | error error => exact ⟨fun _ h => h, Or.inl ⟨rfl, rfl⟩⟩
  | ok config =>
      have hname : config.name = name := by
        rw [parseAxiSignalMap] at hparse
        split_ifs at hparse
        cases hparse
        rfl
      have hmono : ∀ n, st.loaded.contains n = true →
          (loadFields wf st.loaded (axiSignalFields config)).2.contains n = true :=
        fun n hn => loadFields_mono hn
      have hall : (loadFields wf st.loaded (axiSignalFields config)).1 = .ok () →
          AllLoaded wf config (loadFields wf st.loaded (axiSignalFields config)).2 :=
        fun hok field hfield => contains_of_loadFields hok hfield
      dsimp only
      cases hfields : loadFields wf st.loaded (axiSignalFields config) with
      | mk result loaded =>
          rw [hfields] at hmono hall
          cases result with
          | error error => exact ⟨hmono, Or.inl ⟨rfl, rfl⟩⟩
          | ok _ =>
              dsimp only
              split_ifs
              · exact ⟨hmono, Or.inl ⟨rfl, rfl⟩⟩
              · refine ⟨hmono, Or.inr ⟨config, by rw [hname], hall rfl, fun direction => ?_,
                  fun name' direction hne => ?_⟩⟩
                · rw [hname, position]
                  dsimp only
                  rw [find?_erase_positions]
                  rfl
                · rw [hname, position]
                  dsimp only
                  rw [find?_erase_positions_of_ne hne]
                  rfl

/-- What a cursor request does. -/
lemma runCursor_cases (std : StdSort) (wf : Backend) (hardLimit : ℕ) (req : CursorRequest)
    (st : AxiState) :
    (∃ error, runCursor std wf hardLimit req st = (.error error, st)) ∨ ∃ scan,
      scanRequest std wf hardLimit st req = .ok scan ∧
      runCursor std wf hardLimit req st =
        (.ok (cursorResponse scan req.direction (move req.op
          (matching req.direction scan.transactions).length
            (position st req.name req.direction))),
        { st with cursors := st.cursors.insert (cursorKey req.name req.direction) (move req.op
          (matching req.direction scan.transactions).length
            (position st req.name req.direction)).1 }) := by
  rw [runCursor]
  cases hscan : scanRequest std wf hardLimit st req with
  | error error => exact Or.inl ⟨error, rfl⟩
  | ok scan =>
      cases hrender : req.renderError with
      | some error => exact Or.inl ⟨error, rfl⟩
      | none => exact Or.inr ⟨scan, rfl, rfl⟩

/-- The signals of every configuration are loaded, and every position is the first one or points
into the list of its configuration over the whole waveform. -/
structure Inside (std : StdSort) (wf : Backend) (hardLimit : ℕ) (st : AxiState) : Prop where
  loaded : ∀ name config, st.configs.find? name = some config → AllLoaded wf config st.loaded
  positions : ∀ req scan, req.Admitted → scanRequest std wf hardLimit st req = .ok scan →
    position st req.name req.direction = 0 ∨
      position st req.name req.direction < (matching req.direction scan.transactions).length

/-- The list of a configuration only changes with the configuration. -/
lemma scanRequest_congr {st' : AxiState} {req : CursorRequest}
    (hfind : st'.configs.find? req.name = st.configs.find? req.name)
    (h : ∀ config, st.configs.find? req.name = some config → AllLoaded wf config st.loaded)
    (hloaded : ∀ n, st.loaded.contains n = true → st'.loaded.contains n = true) :
    scanRequest std wf hardLimit st' req = scanRequest std wf hardLimit st req := by
  rw [scanRequest, hfind, scanRequest]
  cases hconfig : st.configs.find? req.name with
  | none => rfl
  | some config =>
      have hall := h config hconfig
      dsimp only
      cases parseTimeRange wf req.first req.last with
      | error error => rfl
      | ok range =>
          dsimp only
          rw [scanAxi_congr (fun field hfield => hloaded _ (hall field hfield)) hall]

/-- A request that keeps the configurations and the positions keeps them inside. -/
lemma Inside.of_same {st' : AxiState} (h : Inside std wf hardLimit st)
    (hconfigs : st'.configs = st.configs) (hcursors : st'.cursors = st.cursors)
    (hloaded : ∀ n, st.loaded.contains n = true → st'.loaded.contains n = true) :
    Inside std wf hardLimit st' := by
  refine ⟨fun name config hfind field hfield => ?_, fun req scan hadmitted hscan => ?_⟩
  · rw [hconfigs] at hfind
    exact hloaded _ (h.loaded name config hfind field hfield)
  · rw [scanRequest_congr (by rw [hconfigs]) (h.loaded req.name) hloaded] at hscan
    rw [position, hcursors]
    exact h.positions req scan hadmitted hscan

lemma Inside.load (h : Inside std wf hardLimit st) (name : String) (source : ConfigSource) :
    Inside std wf hardLimit (loadConfig wf name source st).2 := by
  obtain ⟨hmono, ⟨hconfigs, hcursors⟩ | ⟨config, hconfigs, hall, hzero, hother⟩⟩ :=
    loadConfig_cases wf name source st
  · exact h.of_same hconfigs hcursors hmono
  refine ⟨fun name' config' hfind => ?_, fun req scan hadmitted hscan => ?_⟩
  · rw [hconfigs] at hfind
    by_cases hname : name' = name
    · rw [hname, OrderedMap.find?_insert_self, Option.some_inj] at hfind
      exact hfind ▸ hall
    · rw [OrderedMap.find?_insert_of_ne _ hname] at hfind
      exact fun field hfield => hmono _ (h.loaded name' config' hfind field hfield)
  · by_cases hname : req.name = name
    · rw [hname]
      exact Or.inl (hzero req.direction)
    · have hfind := OrderedMap.find?_insert_of_ne st.configs hname config
      rw [← hconfigs] at hfind
      rw [scanRequest_congr hfind (h.loaded req.name) hmono] at hscan
      rw [hother req.name req.direction hname]
      exact h.positions req scan hadmitted hscan

/-- Two admitted requests on one configuration find the same. -/
lemma scanRequest_admitted {req req' : CursorRequest} (h : req.Admitted) (h' : req'.Admitted)
    (hname : req'.name = req.name) :
    scanRequest std wf hardLimit st req' = scanRequest std wf hardLimit st req := by
  rw [scanRequest, scanRequest, hname, h.1, h.2, h'.1, h'.2]

lemma Inside.cursor (h : Inside std wf hardLimit st) {req : CursorRequest} (hreq : req.Admitted) :
    Inside std wf hardLimit (runCursor std wf hardLimit req st).2 := by
  rcases runCursor_cases std wf hardLimit req st with ⟨error, herror⟩ | ⟨scan, hscan, hrun⟩
  · rwa [herror]
  rw [hrun]
  refine ⟨h.loaded, fun req' scan' hadmitted hscan' => ?_⟩
  replace hscan' : scanRequest std wf hardLimit st req' = .ok scan' := hscan'
  by_cases hkey : req'.name = req.name ∧ req'.direction = req.direction
  · obtain ⟨hname, hdirection⟩ := hkey
    rw [scanRequest_admitted hreq hadmitted hname, hscan] at hscan'
    cases hscan'
    rw [hname, hdirection, position_insert_self]
    exact move_inside (h.positions req scan hreq hscan)
  · rw [position_insert_of_ne hkey]
    exact h.positions req' scan' hadmitted hscan'

lemma Inside.step (h : Inside std wf hardLimit st) {request : Request} (hreq : request.Admitted) :
    Inside std wf hardLimit (step std wf hardLimit st request) := by
  cases request with
  | load name source => exact h.load name source
  | cursor req => exact h.cursor hreq
  | other refs => exact h.of_same rfl rfl fun n hn => contains_loadSignals hn refs

lemma Inside.run (h : Inside std wf hardLimit st) {requests : List Request}
    (hreqs : ∀ request ∈ requests, request.Admitted) :
    Inside std wf hardLimit (requests.foldl (Axi.step std wf hardLimit) st) := by
  induction requests generalizing st with
  | nil => exact h
  | cons request requests ih =>
      exact ih (h.step (hreqs request List.mem_cons_self)) fun r hr =>
        hreqs r (List.mem_cons_of_mem request hr)

lemma inside_empty (loaded : Loaded) : Inside std wf hardLimit { loaded } :=
  ⟨fun _ _ hfind => (Option.some_ne_none _ hfind.symm).elim, fun _ _ _ _ => Or.inl rfl⟩

/-- Inside its list, a position stays there. -/
lemma Inside.cursorSafe (h : Inside std wf hardLimit st) {req : CursorRequest}
    (hreq : req.Admitted) : CursorSafe std wf hardLimit st req := by
  intro response hresponse hfound
  rcases runCursor_cases std wf hardLimit req st with ⟨error, herror⟩ | ⟨scan, hscan, hrun⟩
  · rw [herror] at hresponse
    cases hresponse
  rw [hrun] at hresponse
  cases hresponse
  set moved := move req.op (matching req.direction scan.transactions).length
    (position st req.name req.direction) with hmoved
  replace hfound : moved.2 = true := hfound
  have hlt : moved.1 < (matching req.direction scan.transactions).length := by
    refine move_lt_iff.2 (fun _ hsize => ?_) hfound
    have := h.positions req scan hreq hscan
    omega
  refine ⟨scan, moved.1, (matching req.direction scan.transactions)[moved.1], hscan, ?_, hlt,
    List.getElem?_eq_getElem hlt, ?_, ?_⟩
  · rw [Axi.step, hrun]
    exact position_insert_self moved.1
  · simp [cursorResponse, hfound, hlt]
  · simp [cursorResponse, hfound]

end Runs

/-! ### Every sequence of requests -/

/-- A clock with falling edges at 5, 15 and 25. -/
def busyWave : Backend :=
  .ofTable [0, 5, 10, 15, 20, 25]
    [("clk", [(0, "1"), (1, "0"), (2, "1"), (3, "0"), (4, "1"), (5, "0")]), ("one", [(0, "1")]),
      ("zero", [(0, "0")])]
    (by decide) (by decide) (by decide)

/-- A bus that accepts an address, a beat and a response at each edge. -/
def busyConfig : AxiSignalMap :=
  { earlyConfig with awvalid := "one", wvalid := "one", bvalid := "one" }

/-- In every run of admitted requests, whatever else loads signals, the cursor is safe. -/
theorem cursorSafe_of_admitted (loaded : Loaded) {requests : List Request} {req : CursorRequest}
    (hrequests : ∀ request ∈ requests, request.Admitted) (hreq : req.Admitted) :
    CursorSafe std wf hardLimit (requests.foldl (step std wf hardLimit) { loaded }) req :=
  ((inside_empty loaded).run hrequests).cursorSafe hreq

/-- To the last transaction, and one back. -/
def backRequests : List Request :=
  [.load "axi0" { signals := busyConfig }, .other [1], .cursor { name := "axi0", op := .last }]

theorem cursorSafe_backRequests : ∃ response, (runCursor insertionSort busyWave 0
      { name := "axi0", op := .prev } (backRequests.foldl (step insertionSort busyWave 0)
        { loaded := [] })).1 = .ok response ∧
    response.found = true ∧ response.index = some 2 ∧
      ∃ txn, response.transaction = some (some txn) := by
  have hadmitted : ∀ request ∈ backRequests, request.Admitted := by
    simp [backRequests, Request.Admitted, CursorRequest.Admitted]
  refine ⟨_, rfl, by decide +kernel, by decide +kernel, ?_⟩
  have hreq : CursorRequest.Admitted { name := "axi0", op := .prev } := ⟨rfl, rfl⟩
  obtain ⟨-, -, txn, -, -, -, -, htxn, -⟩ := cursorSafe_of_admitted insertionSort busyWave 0 []
    hadmitted hreq _ rfl (by decide +kernel)
  exact ⟨txn, htxn⟩

/-! ### A list that gets shorter -/

/-- To the last of three transactions. -/
def longRequests : List Request :=
  [.load "axi0" { signals := busyConfig }, .cursor { name := "axi0", op := .last }]

/-- One back, among the transactions of a shorter range. -/
def shortRequest : CursorRequest := { name := "axi0", op := .prev, last := some (.ok 5) }

/-- What the handler would do with a time range. -/
theorem shrinkingRequests_not_cursorSafe :
    ¬ ∀ (requests : List Request) (req : CursorRequest), CursorSafe insertionSort busyWave 0
      (requests.foldl (step insertionSort busyWave 0) {}) req := by
  intro hsafe
  have hfound : (match (runCursor insertionSort busyWave 0 shortRequest
      (longRequests.foldl (step insertionSort busyWave 0) {})).1 with
        | .ok response => decide (response.found = true ∧ response.transaction = some none)
        | .error _ => false) = true := by
    decide +kernel
  cases hrun : (runCursor insertionSort busyWave 0 shortRequest
      (longRequests.foldl (step insertionSort busyWave 0) {})).1 with
  | error error =>
      rw [hrun] at hfound
      cases hfound
  | ok response =>
      rw [hrun] at hfound
      obtain ⟨hfound, hnone⟩ := of_decide_eq_true hfound
      obtain ⟨-, -, txn, -, -, -, -, hsome, -⟩ :=
        hsafe longRequests shortRequest response hrun hfound
      rw [hnone] at hsome
      cases hsome

end XdebugFst.Axi
