import XdebugFst.Waveform.Backend
import XdebugFst.Axi.Assemble

/-!
# Scanning a waveform for AXI transactions

`scan_axi` samples the five channels at the active clock edges outside reset, collects a
handshake wherever VALID and READY are both high, reads the payload of each handshake, and
assembles the transactions.

A signal can be read only after it has been loaded, and `load_signals` loads nothing at all
when one of its references is invalid.  The set of loaded signals is therefore passed
along.
-/

namespace XdebugFst.Axi

open Lib Waveform

/-- The clock edges at which the channels are sampled. -/
inductive ClockEdge
  | posedge | negedge | dual
  deriving DecidableEq, Repr

/-- The polarity of the reset signal. -/
inductive ResetPolarity
  | activeLow | activeHigh
  deriving DecidableEq, Repr

/-- `AxiSignalMap`: a loaded AXI configuration. -/
structure AxiSignalMap where
  name : String
  aclk : String
  aresetn : String
  resetPolarity : ResetPolarity
  edge : ClockEdge := .negedge
  /-- `sample_point` is `after`. -/
  sampleAfter : Bool := false
  awid : String
  awaddr : String
  awlen : String
  awsize : String
  awburst : String
  awvalid : String
  awready : String
  wdata : String
  wstrb : String
  wlast : String
  wvalid : String
  wready : String
  bid : String
  bresp : String
  bvalid : String
  bready : String
  arid : String
  araddr : String
  arlen : String
  arsize : String
  arburst : String
  arvalid : String
  arready : String
  rid : String
  rdata : String
  rresp : String
  rlast : String
  rvalid : String
  rready : String

/-! ### Reading signals -/

/-- The native signals that are loaded. -/
abbrev Loaded := List ℕ

/-- `load_signals`. -/
def loadSignals (wf : Backend) (loaded : Loaded) (refs : List ℕ) : Loaded :=
  let nativeRefs := refs.map wf.nativeRef
  if nativeRefs.contains 0 then loaded else loaded ++ nativeRefs

/-- `read_signal_at` with an observation point. -/
def readSignalAt (wf : Backend) (loaded : Loaded) (ref ti : ℕ) (point : ObservationPoint) :
    String :=
  if ref = 0 || !loaded.contains (wf.nativeRef ref) then "x"
  else
    match wf.sampledValueAt ref ti point with
    | some sampled => if sampled.value.kind = .bitVector then sampled.value.text else "x"
    | none => "x"

/-- `axi_point`. -/
def axiPoint (config : AxiSignalMap) : ObservationPoint :=
  if config.edge = .negedge then .raw else if config.sampleAfter then .after else .before

/-- `known_high`: no unknown bit and some one. -/
def knownHigh (bits : String) : Bool :=
  !bits.toList.any (fun bit => bit = 'x' || bit = 'X' || bit = 'z' || bit = 'Z') &&
    bits.toList.any (· = '1')

/-- `known_binary`. -/
def knownBinary (bits : String) : Bool :=
  !bits.toList.isEmpty && bits.toList.all fun bit => bit = '0' || bit = '1'

/-- `is_rising_edge`. -/
def isRisingEdge (prev cur : String) : Bool :=
  prev.toList.getLast? = some '0' && cur.toList.getLast? = some '1'

/-- `is_falling_edge`. -/
def isFallingEdge (prev cur : String) : Bool :=
  prev.toList.getLast? = some '1' && cur.toList.getLast? = some '0'

/-- A change of the clock is a selected edge. -/
def isSelectedEdge (wf : Backend) (loaded : Loaded) (config : AxiSignalMap) (ref ti : ℕ) : Bool :=
  let before := readSignalAt wf loaded ref ti .before
  let raw := readSignalAt wf loaded ref ti .raw
  let rising := isRisingEdge before raw
  let falling := isFallingEdge before raw
  match config.edge with
  | .dual => rising || falling
  | .posedge => rising
  | .negedge => falling

/-- The loop of `selected_clock_edges`; an index equal to the previous one is skipped. -/
def selectEdges (wf : Backend) (loaded : Loaded) (config : AxiSignalMap) (ref first last : ℕ) :
    Option ℕ → List ℕ → List ℕ
  | _, [] => []
  | previous, ti :: rest =>
      if previous = some ti then selectEdges wf loaded config ref first last previous rest
      else
        let time := wf.timeAt ti
        if time < first || time > last then
          selectEdges wf loaded config ref first last (some ti) rest
        else if isSelectedEdge wf loaded config ref ti then
          ti :: selectEdges wf loaded config ref first last (some ti) rest
        else selectEdges wf loaded config ref first last (some ti) rest

/-- `selected_clock_edges`.  The clock has been found and loaded. -/
def selectedClockEdges (wf : Backend) (loaded : Loaded) (config : AxiSignalMap)
    (first last : ℕ) : List ℕ :=
  let ref := wf.findSignal config.aclk
  if ref = 0 then []
  else selectEdges wf loaded config ref first last none (wf.timeIndicesOf ref)

/-! ### Handshakes -/

/-- The variables of the loop over the active edges. -/
structure ChannelState where
  validActive : Bool := false
  validBeginTime : ℕ := 0
  events : List AxiHandshakeEvent := []
  scanComplete : Bool

/-- `scan_channel_handshakes` at one active edge. -/
def channelStep (wf : Backend) (loaded : Loaded) (config : AxiSignalMap) (channel : Channel)
    (refValid refReady : ℕ) (st : ChannelState) (ti : ℕ) : ChannelState :=
  let time := wf.timeAt ti
  let valid := readSignalAt wf loaded refValid ti (axiPoint config)
  let ready := readSignalAt wf loaded refReady ti (axiPoint config)
  if !knownBinary valid || !knownBinary ready then { st with scanComplete := false }
  else
    let validBeginTime := if knownHigh valid && !st.validActive then time else st.validBeginTime
    if knownHigh valid && knownHigh ready then
      { validActive := false
        validBeginTime := validBeginTime
        events := st.events ++
          [{ channel := channel, time := time, timeIdx := ti, validBeginTime := validBeginTime }]
        scanComplete := st.scanComplete }
    else
      { st with validActive := knownHigh valid, validBeginTime := validBeginTime }

/-- `scan_channel_handshakes`. -/
def scanChannelHandshakes (wf : Backend) (loaded : Loaded) (config : AxiSignalMap)
    (channel : Channel) (refValid refReady : ℕ) (activeEdges : List ℕ) (scanComplete : Bool) :
    ChannelState :=
  activeEdges.foldl (channelStep wf loaded config channel refValid refReady)
    { scanComplete := scanComplete }

/-- The last character of a text is a one. -/
def isLast (bits : String) : Bool := bits.toList.getLast? = some '1'

/-- `augment_aw_events` and `augment_ar_events`, which differ in the signals they read. -/
def augmentAddressEvents (wf : Backend) (config : AxiSignalMap) (id addr len size burst : String)
    (loaded : Loaded) (events : List AxiHandshakeEvent) : List AxiHandshakeEvent × Loaded :=
  let refId := wf.findSignal id
  let refAddr := wf.findSignal addr
  let refLen := wf.findSignal len
  let refSize := wf.findSignal size
  let refBurst := wf.findSignal burst
  if refId = 0 then (events, loaded)
  else
    let loaded := loadSignals wf loaded [refId, refAddr, refLen, refSize, refBurst]
    let read := fun ref ti => readSignalAt wf loaded ref ti (axiPoint config)
    (events.map fun ev =>
      { ev with
        id := read refId ev.timeIdx
        addr := read refAddr ev.timeIdx
        len := read refLen ev.timeIdx
        size := read refSize ev.timeIdx
        burst := read refBurst ev.timeIdx }, loaded)

/-- `augment_aw_events`. -/
def augmentAwEvents (wf : Backend) (sm : AxiSignalMap) :=
  augmentAddressEvents wf sm sm.awid sm.awaddr sm.awlen sm.awsize sm.awburst

/-- `augment_ar_events`. -/
def augmentArEvents (wf : Backend) (sm : AxiSignalMap) :=
  augmentAddressEvents wf sm sm.arid sm.araddr sm.arlen sm.arsize sm.arburst

/-- `augment_w_events`. -/
def augmentWEvents (wf : Backend) (sm : AxiSignalMap) (loaded : Loaded)
    (events : List AxiHandshakeEvent) : List AxiHandshakeEvent × Loaded :=
  let refData := wf.findSignal sm.wdata
  let refLast := wf.findSignal sm.wlast
  let refStrb := wf.findSignal sm.wstrb
  if refData = 0 then (events, loaded)
  else
    let loaded := loadSignals wf loaded [refData, refLast, refStrb]
    let read := fun ref ti => readSignalAt wf loaded ref ti (axiPoint sm)
    (events.map fun ev =>
      { ev with
        data := read refData ev.timeIdx
        strb := read refStrb ev.timeIdx
        last := if refLast ≠ 0 then isLast (read refLast ev.timeIdx) else ev.last }, loaded)

/-- `augment_b_events`. -/
def augmentBEvents (wf : Backend) (sm : AxiSignalMap) (loaded : Loaded)
    (events : List AxiHandshakeEvent) : List AxiHandshakeEvent × Loaded :=
  let refId := wf.findSignal sm.bid
  let refResp := wf.findSignal sm.bresp
  if refId = 0 then (events, loaded)
  else
    let loaded := loadSignals wf loaded [refId, refResp]
    let read := fun ref ti => readSignalAt wf loaded ref ti (axiPoint sm)
    (events.map fun ev =>
      { ev with id := read refId ev.timeIdx, resp := read refResp ev.timeIdx }, loaded)

/-- `augment_r_events`. -/
def augmentREvents (wf : Backend) (sm : AxiSignalMap) (loaded : Loaded)
    (events : List AxiHandshakeEvent) : List AxiHandshakeEvent × Loaded :=
  let refId := wf.findSignal sm.rid
  let refData := wf.findSignal sm.rdata
  let refLast := wf.findSignal sm.rlast
  let refResp := wf.findSignal sm.rresp
  if refId = 0 then (events, loaded)
  else
    let loaded := loadSignals wf loaded [refId, refData, refLast, refResp]
    let read := fun ref ti => readSignalAt wf loaded ref ti (axiPoint sm)
    (events.map fun ev =>
      { ev with
        id := read refId ev.timeIdx
        data := read refData ev.timeIdx
        resp := read refResp ev.timeIdx
        last := if refLast ≠ 0 then isLast (read refLast ev.timeIdx) else ev.last }, loaded)

/-! ### The scan -/

/-- `AxiScanResult`, without the signal references that it keeps for other actions. -/
structure AxiScanResult where
  awEvents : List AxiHandshakeEvent
  wEvents : List AxiHandshakeEvent
  bEvents : List AxiHandshakeEvent
  arEvents : List AxiHandshakeEvent
  rEvents : List AxiHandshakeEvent
  transactions : List AxiTransaction
  complete : Bool

/-- What `scan_axi` reports instead of a result. -/
inductive AxiScanError
  /-- `ANALYSIS_MEMORY_LIMIT_EXCEEDED`, with the limit and the key of the analysis. -/
  | memoryLimit (hardMaxBytes : ℕ) (keySummary : ℕ)
  /-- `CONFIG_SIGNAL_NOT_FOUND`, with the role and the name of the signal. -/
  | signalNotFound (role name : String)
  deriving DecidableEq, Repr

/-- The message of an error. -/
def AxiScanError.message : AxiScanError → String
  | memoryLimit _ _ => "analysis cache build exceeds the configured hard memory limit"
  | signalNotFound role name => "AXI " ++ role ++ " signal not found: " ++ name

/-- The 64-bit FNV-1a hash of the key of an analysis. -/
def keyHash (material : String) : ℕ :=
  material.toUTF8.toList.foldl
    (fun hash byte => ((hash ^^^ byte.toNat) * 1099511628211) % 2 ^ 64) 1469598103934665603

/-- The error of the last signal in a list of roles and names that is not found. -/
def lastMissing (wf : Backend) (signals : List (String × String)) : Option AxiScanError :=
  ((signals.filter fun s => wf.findSignal s.2 = 0).getLast?).map fun s =>
    .signalNotFound s.1 s.2

/-- The control signals of the five channels. -/
def controlSignals (sm : AxiSignalMap) : List (String × String) :=
  [("awvalid", sm.awvalid), ("awready", sm.awready), ("wvalid", sm.wvalid),
    ("wready", sm.wready), ("bvalid", sm.bvalid), ("bready", sm.bready),
    ("arvalid", sm.arvalid), ("arready", sm.arready), ("rvalid", sm.rvalid),
    ("rready", sm.rready)]

/-- The value of the reset signal at an edge. -/
def resetAt (wf : Backend) (loaded : Loaded) (sm : AxiSignalMap) (ti : ℕ) : String :=
  readSignalAt wf loaded (wf.findSignal sm.aresetn) ti (axiPoint sm)

/-- The reset is known and not asserted. -/
def outOfReset (sm : AxiSignalMap) (reset : String) : Bool :=
  knownBinary reset && match sm.resetPolarity with
    | .activeLow => knownHigh reset
    | .activeHigh => !knownHigh reset

/-- The signals loaded before the channels are scanned. -/
def controlLoaded (wf : Backend) (sm : AxiSignalMap) (loaded : Loaded) : Loaded :=
  loadSignals wf (loadSignals wf loaded ((controlSignals sm).map fun s => wf.findSignal s.2))
    [wf.findSignal sm.aclk, wf.findSignal sm.aresetn]

/-- The clock edges outside reset. -/
def activeEdges (wf : Backend) (sm : AxiSignalMap) (loaded : Loaded) (first last : ℕ) : List ℕ :=
  (selectedClockEdges wf loaded sm first last).filter fun ti =>
    outOfReset sm (resetAt wf loaded sm ti)

/-- Some edge has an unknown reset. -/
def resetComplete (wf : Backend) (sm : AxiSignalMap) (loaded : Loaded) (first last : ℕ) : Bool :=
  (selectedClockEdges wf loaded sm first last).all fun ti =>
    knownBinary (resetAt wf loaded sm ti)

/-- The five lists of handshakes with their payloads, and whether every sample was known. -/
def scanEvents (wf : Backend) (sm : AxiSignalMap) (loaded : Loaded) (first last : ℕ) :
    (List AxiHandshakeEvent × List AxiHandshakeEvent × List AxiHandshakeEvent ×
      List AxiHandshakeEvent × List AxiHandshakeEvent) × Bool :=
  let loaded := controlLoaded wf sm loaded
  let edges := activeEdges wf sm loaded first last
  let scan := fun channel valid ready complete =>
    scanChannelHandshakes wf loaded sm channel (wf.findSignal valid) (wf.findSignal ready) edges
      complete
  let aw := scan .aw sm.awvalid sm.awready (resetComplete wf sm loaded first last)
  let w := scan .w sm.wvalid sm.wready aw.scanComplete
  let b := scan .b sm.bvalid sm.bready w.scanComplete
  let ar := scan .ar sm.arvalid sm.arready b.scanComplete
  let r := scan .r sm.rvalid sm.rready ar.scanComplete
  let (awEvents, loaded) := augmentAwEvents wf sm loaded aw.events
  let (wEvents, loaded) := augmentWEvents wf sm loaded w.events
  let (bEvents, loaded) := augmentBEvents wf sm loaded b.events
  let (arEvents, loaded) := augmentArEvents wf sm loaded ar.events
  let (rEvents, _) := augmentREvents wf sm loaded r.events
  ((awEvents, wEvents, bEvents, arEvents, rEvents), r.scanComplete)

/-- `std::stable_sort` by start time, then renumbering. -/
def sortTransactions (transactions : List AxiTransaction) : List AxiTransaction :=
  (transactions.insertionSort fun a b => a.startTime ≤ b.startTime).zipIdx.map fun txn =>
    { txn.1 with index := txn.2 }

/-- `scan_axi`.  `hardLimit` is the value of `XDEBUG_ANALYSIS_CACHE_HARD_MAX_BYTES`, 0 when it
is not set or not a number. -/
def scanAxi (std : StdSort) (wf : Backend) (sm : AxiSignalMap) (hardLimit : ℕ) (loaded : Loaded)
    (tBegin tEnd : ℕ) : Except AxiScanError AxiScanResult :=
  if 0 < hardLimit ∧ hardLimit < 1024 then
    .error (.memoryLimit hardLimit
      (keyHash (sm.name ++ "\n" ++ sm.aclk ++ "\n" ++ sm.awaddr ++ "\n" ++ sm.araddr)))
  else
    match lastMissing wf (controlSignals sm) with
    | some error => .error error
    | none =>
        match lastMissing wf [("clock", sm.aclk), ("reset", sm.aresetn)] with
        | some error => .error error
        | none =>
            let ((aw, w, b, ar, r), complete) := scanEvents wf sm loaded tBegin tEnd
            .ok
              { awEvents := aw
                wEvents := w
                bEvents := b
                arEvents := ar
                rEvents := r
                transactions := sortTransactions (assembleAxiTransactions std aw w b ar r)
                complete := complete }

/-- The latency that `axi.export` writes for a transaction: a difference of `uint64_t`. -/
def exportLatency (txn : AxiTransaction) : ℕ :=
  (txn.endTime + 2 ^ 64 - txn.startTime) % 2 ^ 64

end XdebugFst.Axi
