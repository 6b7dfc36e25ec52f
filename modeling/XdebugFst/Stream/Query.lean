import XdebugFst.Stream.FieldFilter
import XdebugFst.Stream.Partition
import XdebugFst.Stream.Stalls

/-!
# The answer to a stream query

After the scan, `StreamQueryHandler::run` selects rows and counts them. A channel selects transfers
and packets. A filter selects transfers when the stream has no packets, and packets when it has. A
window query returns the first rows of what is left, at most `line_limit` of them, and says how many
there are.

The counts are those of the rows that satisfy the channel and the filter with four exceptions, and
`honestCounts_iff` says that there is no other: without a filter a channel is not counted, a filter
does not select the transfers of a stream with packets, the preview of a packet never says that it
leaves out beats, and `line_limit` is read as an `int`.
-/

namespace XdebugFst.Stream

open Lib Waveform XdebugFst.Expr

/-! ### The request -/

/-- A failed query: an error response, or an exception of the JSON library, which the dispatcher
answers. -/
inductive QueryError
  | response (error : ActionError)
  | thrown
  deriving DecidableEq, Repr

/-- `filter.position`. -/
inductive FilterPosition
  | sop | eop
  deriving DecidableEq, Repr

/-- `args.filter`. -/
structure StreamFilter where
  position : Option FilterPosition := none
  fields : OrderedMap String (FieldRule String)

/-- The arguments of `stream.query`. -/
structure QueryArgs extends StreamQuery where
  filter : Option StreamFilter := none
  channel : Option String := none
  /-- The JSON library holds an integer in 64 bits. -/
  lineLimit : UInt64 := 1000
  packetIndex : Option ℕ := none

/-- `max_rows`: an `int`, which is compared as a `size_t`. -/
def maxRows (lineLimit : UInt64) : ℕ := (toInt32 lineLimit.toNat % 2 ^ 64).toNat

/-- `packet_enabled`. -/
def packetEnabled (cfg : StreamConfig) : Bool := cfg.sop ≠ "" && cfg.eop ≠ ""

/-! ### The scan -/

/-- What the scan leaves for the selection. -/
structure QueryScan where
  samples : List (StreamSample FieldJson)
  fieldsComplete : Bool

/-- `StreamQueryHandler::run` up to the scan. -/
def scanQuery (wf : Backend) (cfg : StreamConfig) (query : StreamQuery) :
    Except ActionError QueryScan :=
  match compileStreamExpressions wf cfg with
  | .error message => .error ⟨"CONFIG_SIGNAL_NOT_FOUND", message⟩
  | .ok compiled => do
      let window ← queryWindow wf query
      checkQuery cfg query
      let samples := scanStreamSamples wf cfg compiled window.1 window.2
      return ⟨samples.1, samples.2⟩

namespace QueryScan

variable (scan : QueryScan) (cfg : StreamConfig)

/-- The counts of the samples. -/
def result : StreamResult := streamResult scan.samples scan.fieldsComplete

/-- The packets, if the stream has any. -/
def assembly : PacketResult FieldJson :=
  if packetEnabled cfg then assemblePackets cfg.allowInterleaving scan.result.transfers
  else
    { packets := []
      completePackets := 0
      partialPackets := 0
      packetStableMismatchCount := 0
      samples := scan.result.transfers }

/-- The transfers, with the indices of their packets. -/
def transfers : List (StreamSample FieldJson) := (scan.assembly cfg).samples

/-- The packets. -/
def packets : List (Packet FieldJson) := (scan.assembly cfg).packets

/-- The stalls. -/
def stalls : List StallWindow := stallWindows cfg scan.samples

end QueryScan

/-- The counts of a query are those of its scan. -/
lemma queryStream_eq_map (wf : Backend) (cfg : StreamConfig) (query : StreamQuery) :
    queryStream wf cfg query = (scanQuery wf cfg query).map QueryScan.result := by
  rw [queryStream, scanQuery]
  cases compileStreamExpressions wf cfg with
  | error message => rfl
  | ok compiled =>
      cases queryWindow wf query with
      | error error => rfl
      | ok window =>
          cases checkQuery cfg query with
          | error error => rfl
          | ok _ => rfl

/-! ### The selection -/

/-- The channel of a transfer or packet is the requested one. -/
def channelHolds (channel : Option String) (channelId : Option LogicValue) : Bool :=
  match channel with
  | none => true
  | some text =>
      match literalU64 text, channelId with
      | some requested, some value => knownU64 value = some requested
      | _, _ => false

/-- `channel_matches`. It throws when there is no channel to compare with a requested number. -/
def channelMatches (channel : Option String) (channelId : Option LogicValue) :
    Except QueryError Bool :=
  match channel, channelId with
  | some text, none => if (literalU64 text).isSome then .error .thrown else .ok false
  | _, _ => .ok (channelHolds channel channelId)

/-- `selected_transfers`. -/
def selectTransfers (channel : Option String) :
    List (StreamSample FieldJson) → Except QueryError (List (StreamSample FieldJson))
  | [] => .ok []
  | transfer :: rest => do
      let isSelected ← channelMatches channel transfer.channelId
      let selected ← selectTransfers channel rest
      return if isSelected then transfer :: selected else selected

/-- The value of a field. -/
def FieldJson.field? (key : String) : FieldJson → Option LogicValue
  | .object fields => fields.lookup key
  | .value _ => none

/-- The value that a JSON shows. -/
def FieldJson.logic? : FieldJson → Option LogicValue
  | .value v => some v
  | .object _ => none

/-- The criterion of one field. -/
def judgeField (value? : String → Option LogicValue) (criterion : String × FieldRule String) :
    StreamFilterResult :=
  match value? criterion.1 with
  | none => .unresolved
  | some value => streamFieldFilterResult value criterion.2

/-- The loop over the criteria of a filter. -/
def judgeFields (value? : String → Option LogicValue) :
    Bool → List (String × FieldRule String) → StreamFilterResult
  | unresolved, [] => if unresolved then .unresolved else .matched
  | unresolved, criterion :: rest =>
      match judgeField value? criterion with
      | .noMatch => .noMatch
      | .unresolved => judgeFields value? true rest
      | .matched => judgeFields value? unresolved rest

/-- The filter on a transfer. -/
def StreamFilter.judgeTransfer (filter : StreamFilter) (transfer : StreamSample FieldJson) :
    StreamFilterResult :=
  judgeFields transfer.fields.field? false filter.fields.entries

/-- The boundary at which the filter looks at a packet is the last beat. -/
def StreamFilter.atEop (filter : StreamFilter) : Bool := filter.position = some .eop

/-- The boundary is not in the window. -/
def StreamFilter.boundaryMissing (filter : StreamFilter) (packet : Packet FieldJson) : Bool :=
  filter.atEop && packet.partialEnd || !filter.atEop && packet.partialBegin

/-- `fields`: the fields at the boundary, with the stable ones of the packet over them. -/
def StreamFilter.boundaryField? (filter : StreamFilter) (packet : Packet FieldJson)
    (key : String) : Option LogicValue :=
  match packet.packetStableFields.find? key with
  | some stable => stable.logic?
  | none => (if filter.atEop then packet.lastFields else packet.firstFields).field? key

/-- The filter on a packet. -/
def StreamFilter.judgePacket (filter : StreamFilter) (packet : Packet FieldJson) :
    StreamFilterResult :=
  if filter.boundaryMissing packet then .unresolved
  else judgeFields (filter.boundaryField? packet) false filter.fields.entries

/-- The rows that match, and the number of those that are not resolved. -/
def applyFilter {α : Type} (judge : α → StreamFilterResult) (rows : List α) : List α × ℕ :=
  (rows.filter fun row => judge row = .matched, rows.countP fun row => judge row = .unresolved)

/-- `filtered_transfers`. -/
def filterTransfers (cfg : StreamConfig) (args : QueryArgs)
    (selected : List (StreamSample FieldJson)) : List (StreamSample FieldJson) × ℕ :=
  match args.filter with
  | some filter =>
      if packetEnabled cfg then (selected, 0) else applyFilter filter.judgeTransfer selected
  | none => (selected, 0)

/-- `candidate_packets`. -/
def candidatePackets (args : QueryArgs) (packets : List (Packet FieldJson)) :
    List (Packet FieldJson) :=
  packets.filter fun packet => args.channel.isNone ||
    packet.channelId.isSome && channelHolds args.channel packet.channelId

/-- `filtered_packets`. -/
def filterPackets (cfg : StreamConfig) (args : QueryArgs) (candidates : List (Packet FieldJson)) :
    List (Packet FieldJson) × ℕ :=
  match args.filter with
  | some filter =>
      if packetEnabled cfg then applyFilter filter.judgePacket candidates else (candidates, 0)
  | none => (candidates, 0)

/-! ### The response -/

/-- `row_json`. -/
structure TransferRow where
  cycle : ℕ
  time : ℕ
  vld : Bool
  rdy : Bool
  bp : Bool
  sop : Bool
  eop : Bool
  transfer : Bool
  stall : Bool
  beatIndex : ℕ
  fields : FieldJson
  channelId : Option LogicValue
  packetIndex : Option ℤ
  packetStableFields : OrderedMap String FieldJson
  deriving DecidableEq

/-- `row_json`. The packet of a row is shown when it has one. -/
def rowJson (sample : StreamSample FieldJson) : TransferRow where
  cycle := sample.cycle
  time := sample.time
  vld := sample.vld
  rdy := sample.rdy
  bp := sample.bp
  sop := sample.sop
  eop := sample.eop
  transfer := sample.transfer
  stall := sample.stall
  beatIndex := sample.beatIndex
  fields := sample.fields
  channelId := sample.channelId
  packetIndex := if 0 ≤ sample.packetIndex then some sample.packetIndex else none
  packetStableFields := if 0 ≤ sample.packetIndex then sample.packetStableFields else .empty

/-- The rows in `data`. -/
inductive QueryData
  | summary
  | row (row : Option TransferRow)
  | rows (rows : List TransferRow)
  | stall (stall : Option StallWindow)
  | stalls (stalls : List StallWindow)
  | packet (packet : Option (Packet FieldJson))
  | packets (packets : List (Packet FieldJson))

/-- The packets of a packet window. -/
def QueryData.windowPackets : QueryData → List (Packet FieldJson)
  | .packets l => l
  | _ => []

lemma windowPackets_packets (packets : List (Packet FieldJson)) :
    (QueryData.packets packets).windowPackets = packets := rfl

/-- The counts of a query and its rows. -/
structure Answer where
  totalCount : ℕ
  returnedCount : ℕ
  truncated : Bool := false
  hint : Option String := none
  data : QueryData

/-- The hint of the windows without a filter. -/
def exportHint : String := "use stream.export for large result"

/-- The branches for windows: the first rows, of so many. -/
def windowAnswer {α : Type} (args : QueryArgs) (totalCount : ℕ) (rows : List α)
    (data : List α → QueryData) (hint : String) : Answer :=
  let returnedCount := min (maxRows args.lineLimit) rows.length
  { totalCount
    returnedCount
    truncated := returnedCount < totalCount
    hint := if returnedCount < totalCount then some hint else none
    data := data (rows.take returnedCount) }

/-- The branches for a first or last row. -/
def endAnswer {α : Type} (totalCount : ℕ) (row : Option α) (data : Option α → QueryData) : Answer where
  totalCount := totalCount
  returnedCount := if row.isSome then 1 else 0
  data := data row

/-- The branches of the query kinds. -/
def answer (cfg : StreamConfig) (args : QueryArgs) (transferCount : ℕ)
    (filteredTransfers : List (StreamSample FieldJson)) (filteredPackets : List (Packet FieldJson))
    (stalls : List StallWindow) : Except QueryError Answer :=
  -- without a filter the total counts the transfers of all channels
  let transferTotal := if args.filter.isSome then filteredTransfers.length else transferCount
  let allRows := filteredTransfers.map rowJson
  if args.query = "summary" then
    .ok
      { totalCount := if packetEnabled cfg then filteredPackets.length else transferTotal
        returnedCount := 0
        data := .summary }
  else if args.query = "first_transfer" then .ok (endAnswer transferTotal allRows.head? .row)
  else if args.query = "last_transfer" then .ok (endAnswer transferTotal allRows.getLast? .row)
  else if args.query = "transfer_window" then
    .ok (windowAnswer args transferTotal allRows .rows
      (if args.filter.isSome then "narrow filter/time_range or increase line_limit"
        else exportHint))
  else if args.query = "first_stall" then .ok (endAnswer stalls.length stalls.head? .stall)
  else if args.query = "last_stall" then .ok (endAnswer stalls.length stalls.getLast? .stall)
  else if args.query = "stall_window" then
    .ok (windowAnswer args stalls.length stalls .stalls exportHint)
  else if args.query = "first_packet" then
    .ok (endAnswer filteredPackets.length filteredPackets.head? .packet)
  else if args.query = "last_packet" then
    .ok (endAnswer filteredPackets.length filteredPackets.getLast? .packet)
  else if args.query = "packet_at" then
    match args.packetIndex with
    | none => .error .thrown
    | some index =>
        let packet := filteredPackets[index]?
        .ok (endAnswer (if packet.isSome then 1 else 0) packet .packet)
  else .ok (windowAnswer args filteredPackets.length filteredPackets .packets exportHint)

/-- What `stream.query` returns. -/
structure StreamResponse where
  scan : StreamResult
  stallWindowCount : ℕ
  completePacketCount : ℕ
  partialPacketCount : ℕ
  packetStableMismatchCount : ℕ
  unresolvedFilterCount : ℕ
  answer : Answer

/-- `StreamQueryHandler::run` after the scan. -/
def answerQuery (cfg : StreamConfig) (args : QueryArgs) (scan : QueryScan) :
    Except QueryError StreamResponse := do
  let selected ← selectTransfers args.channel (scan.transfers cfg)
  let filteredTransfers := filterTransfers cfg args selected
  let filteredPackets := filterPackets cfg args (candidatePackets args (scan.packets cfg))
  let answer ← answer cfg args (scan.transfers cfg).length filteredTransfers.1 filteredPackets.1
    (scan.stalls cfg)
  return {
    scan := scan.result
    stallWindowCount := (scan.stalls cfg).length
    completePacketCount := (scan.assembly cfg).completePackets
    partialPacketCount := (scan.assembly cfg).partialPackets
    packetStableMismatchCount := (scan.assembly cfg).packetStableMismatchCount
    unresolvedFilterCount := filteredTransfers.2 + filteredPackets.2
    answer }

/-- `StreamQueryHandler::run`. -/
def runStreamQuery (wf : Backend) (cfg : StreamConfig) (args : QueryArgs) :
    Except QueryError StreamResponse :=
  match scanQuery wf cfg args.toStreamQuery with
  | .error error => .error (.response error)
  | .ok scan => answerQuery cfg args scan

/-! ### The rows of a request -/

/-- How a filter may be read for a single transfer of a stream with packets. -/
inductive RowReading
  /-- The transfer has to satisfy the criteria. -/
  | ownFields
  /-- The packet of the transfer has to satisfy them at its boundary. -/
  | itsPacket
  deriving DecidableEq, Repr

/-- All criteria of the filter match. -/
def StreamFilter.holds (filter : StreamFilter) (value? : String → Option LogicValue) : Bool :=
  filter.fields.entries.all fun criterion => judgeField value? criterion = .matched

/-- The filter holds at the boundary of a packet. -/
def StreamFilter.holdsOfPacket (filter : StreamFilter) (packet : Packet FieldJson) : Bool :=
  !filter.boundaryMissing packet && filter.holds (filter.boundaryField? packet)

/-- A packet satisfies the channel and the filter. -/
def packetSatisfies (args : QueryArgs) (packet : Packet FieldJson) : Bool :=
  channelHolds args.channel packet.channelId &&
    args.filter.all fun filter => filter.holdsOfPacket packet

section Rows

variable (reading : RowReading) (cfg : StreamConfig) (args : QueryArgs) (scan : QueryScan)

/-- A transfer at a position satisfies the filter. -/
def filterHolds (row : StreamSample FieldJson × ℕ) : Bool :=
  args.filter.all fun filter =>
    if packetEnabled cfg ∧ reading = .itsPacket then
      (scan.packets cfg).any fun packet =>
        filter.holdsOfPacket packet && packet.beats.any fun beat => beat.pos = row.2
    else filter.holds row.1.fields.field?

/-- The number of rows that satisfy the channel and the filter. A stall has neither a channel nor
fields that could exclude it. -/
def rowCount : ℕ :=
  if args.query = "transfer_window" then
    (scan.transfers cfg).zipIdx.countP fun row =>
      channelHolds args.channel row.1.channelId && filterHolds reading cfg args scan row
  else if args.query = "stall_window" then (scan.stalls cfg).length
  else (scan.packets cfg).countP (packetSatisfies args)

/-- The counts of a window are those of its rows. -/
structure HonestCounts (answer : Answer) : Prop where
  total : answer.totalCount = rowCount reading cfg args scan
  returned : answer.returnedCount = min args.lineLimit.toNat answer.totalCount
  truncated : answer.truncated = true ↔ answer.returnedCount < answer.totalCount
  previews : ∀ packet ∈ answer.data.windowPackets,
    packet.previewTruncated = true ↔ packet.previewReturned < packet.previewTotal

/-- When the counts are honest. -/
structure CountsAllRows : Prop where
  /-- The limit fits into an `int`, or there are fewer rows than any of the two. -/
  limit : maxRows args.lineLimit = args.lineLimit.toNat ∨
    rowCount reading cfg args scan ≤ min (maxRows args.lineLimit) args.lineLimit.toNat
  /-- Without a filter, the channel excludes no transfer. -/
  channel : args.query = "transfer_window" → args.filter = none →
    ∀ transfer ∈ scan.transfers cfg, channelHolds args.channel transfer.channelId = true
  /-- In a stream with packets, the filter excludes no transfer of the channel. -/
  filter : args.query = "transfer_window" → packetEnabled cfg = true →
    ∀ row ∈ (scan.transfers cfg).zipIdx, channelHolds args.channel row.1.channelId = true →
      filterHolds reading cfg args scan row = true
  /-- The returned packets have no beats that the preview leaves out. -/
  preview : args.query = "packet_window" →
    ∀ packet ∈ ((scan.packets cfg).filter (packetSatisfies args)).take (maxRows args.lineLimit),
      packet.beats.length ≤ 10

end Rows

/-! ### What the selection computes -/

lemma judgeFields_eq_matched {value? : String → Option LogicValue} {unresolved : Bool}
    {criteria : List (String × FieldRule String)} :
    judgeFields value? unresolved criteria = .matched ↔
      unresolved = false ∧ ∀ criterion ∈ criteria, judgeField value? criterion = .matched := by
  induction criteria generalizing unresolved with
  | nil => cases unresolved <;> simp [judgeFields]
  | cons criterion rest ih =>
      rw [judgeFields]
      cases hjudge : judgeField value? criterion with
      | matched => simp [ih, hjudge]
      | noMatch => simp [hjudge]
      | unresolved => simp [ih, hjudge]

lemma judgeTransfer_eq_matched {filter : StreamFilter} {transfer : StreamSample FieldJson} :
    filter.judgeTransfer transfer = .matched ↔ filter.holds transfer.fields.field? = true := by
  rw [StreamFilter.judgeTransfer, judgeFields_eq_matched, StreamFilter.holds]
  simp

lemma judgePacket_eq_matched {filter : StreamFilter} {packet : Packet FieldJson} :
    filter.judgePacket packet = .matched ↔ filter.holdsOfPacket packet = true := by
  rw [StreamFilter.judgePacket, StreamFilter.holdsOfPacket, StreamFilter.holds]
  cases filter.boundaryMissing packet with
  | true => simp
  | false => simp [judgeFields_eq_matched]

lemma channelMatches_eq_ok {channel : Option String} {channelId : Option LogicValue}
    {isSelected : Bool} (h : channelMatches channel channelId = .ok isSelected) :
    isSelected = channelHolds channel channelId := by
  cases channel with
  | none => exact (Except.ok.inj h).symm
  | some text =>
      cases channelId with
      | some value => exact (Except.ok.inj h).symm
      | none =>
          cases hliteral : literalU64 text with
          | none =>
              simp only [channelMatches, hliteral] at h
              simp only [channelHolds, hliteral]
              exact (Except.ok.inj h).symm
          | some requested =>
              simp only [channelMatches, hliteral] at h
              cases h

/-- When nothing is thrown, the transfers of the channel are selected. -/
lemma selectTransfers_eq_ok {channel : Option String} {transfers selected : List (StreamSample FieldJson)}
    (h : selectTransfers channel transfers = .ok selected) :
    selected = transfers.filter fun transfer => channelHolds channel transfer.channelId := by
  induction transfers generalizing selected with
  | nil => exact (Except.ok.inj h).symm
  | cons transfer rest ih =>
      obtain ⟨isSelected, hmatches, h⟩ := exists_of_bind_eq_ok h
      obtain ⟨selectedRest, hrest, h⟩ := exists_of_bind_eq_ok h
      rw [← Except.ok.inj h, ih hrest, List.filter_cons, channelMatches_eq_ok hmatches]

/-- The packets of the channel that the filter keeps. -/
lemma filterPackets_candidatePackets {cfg : StreamConfig} (args : QueryArgs)
    (packets : List (Packet FieldJson)) (hpackets : packetEnabled cfg = true) :
    (filterPackets cfg args (candidatePackets args packets)).1 =
      packets.filter (packetSatisfies args) := by
  have hcandidates : candidatePackets args packets =
      packets.filter fun packet => channelHolds args.channel packet.channelId := by
    refine List.filter_congr fun packet _ => ?_
    cases hchannel : args.channel with
    | none => rfl
    | some text =>
        cases packet.channelId with
        | none => cases hliteral : literalU64 text <;> simp [channelHolds, hliteral]
        | some value => simp
  rw [filterPackets, hcandidates]
  cases hfilter : args.filter with
  | none =>
      refine List.filter_congr fun packet _ => ?_
      rw [packetSatisfies, hfilter, Option.all_none, Bool.and_true]
  | some filter =>
      simp only [hpackets, if_true, applyFilter, List.filter_filter]
      refine List.filter_congr fun packet _ => ?_
      rw [packetSatisfies, hfilter, Option.all_some, Bool.and_comm, Bool.eq_iff_iff]
      simp only [Bool.and_eq_true, decide_eq_true_eq, judgePacket_eq_matched]

/-! ### The preview of a packet -/

lemma length_filter_zipIdx {α : Type} (l : List α) (p : ℕ → Bool) :
    (l.zipIdx.filter fun b => p b.2).length = (List.range l.length).countP p := by
  rw [← List.countP_eq_length_filter, List.range_eq_range', ← List.zipIdx_map_snd 0 l,
    List.countP_map]
  rfl

lemma countP_range_lt (k n : ℕ) : (List.range n).countP (fun i => i < k) = min k n := by
  induction n with
  | zero => simp
  | succ n ih =>
      rw [List.range_succ, List.countP_append, ih, List.countP_singleton]
      by_cases hlt : n < k
      · rw [if_pos (decide_eq_true hlt)]
        omega
      · rw [if_neg (by simpa using hlt)]
        omega

lemma countP_range_le (k n : ℕ) : (List.range n).countP (fun i => k ≤ i) = n - k := by
  induction n with
  | zero => simp
  | succ n ih =>
      rw [List.range_succ, List.countP_append, ih, List.countP_singleton]
      by_cases hle : k ≤ n
      · rw [if_pos (decide_eq_true hle)]
        omega
      · rw [if_neg (by simpa using hle)]
        omega

/-- The preview shows the first and the last five beats. -/
lemma previewReturned_packetJson (state : PacketState FieldJson) (front back : Beat FieldJson) :
    (packetJson state front back).previewReturned = min state.beats.length 10 := by
  set size := state.beats.length with hsize
  have hhead : (state.beats.zipIdx.filter fun b => b.2 < 5).length = min 5 size := by
    rw [length_filter_zipIdx _ fun i => i < 5, countP_range_lt]
  have htail : (state.beats.zipIdx.filter fun b =>
      5 < size && max 5 (if size > 10 then size - 5 else 5) ≤ b.2).length =
        if 5 < size then size - max 5 (if size > 10 then size - 5 else 5) else 0 := by
    by_cases hlt : 5 < size
    · simp only [hlt, decide_true, Bool.true_and, if_true]
      rw [length_filter_zipIdx _ fun i => max 5 (if size > 10 then size - 5 else 5) ≤ i,
        countP_range_le]
    · simp [hlt]
  show (List.map beatRow _).length + (List.map beatRow _).length = _
  rw [List.length_map, List.length_map, hhead, htail]
  split_ifs <;> omega

/-- The preview of a packet is honest exactly if it shows all beats. -/
lemma preview_iff {cfg : StreamConfig} {scan : QueryScan} {packet : Packet FieldJson}
    (h : packet ∈ scan.packets cfg) :
    (packet.previewTruncated = true ↔ packet.previewReturned < packet.previewTotal) ↔
      packet.beats.length ≤ 10 := by
  rw [QueryScan.packets, QueryScan.assembly] at h
  split_ifs at h with hpackets
  · have hloop := loopInv_take cfg.allowInterleaving scan.result.transfers le_rfl
    rw [← beatsOf_length, List.take_length, beatsOf_length] at hloop
    obtain ⟨hinv, hopen⟩ := hloop.1.closeRemaining
    obtain ⟨front, back, -, -, hjson⟩ := (hinv.isPartition hopen rfl).rendered packet h
    have htruncated : packet.previewTruncated = false := by rw [hjson]; rfl
    have htotal : packet.previewTotal = packet.beats.length := by rw [hjson]; rfl
    have hreturned : packet.previewReturned = min packet.beats.length 10 := by
      rw [hjson]
      exact previewReturned_packetJson _ _ _
    rw [htruncated, htotal, hreturned]
    simp
  · cases h

lemma previews_iff {cfg : StreamConfig} {scan : QueryScan} {packets : List (Packet FieldJson)}
    (h : ∀ packet ∈ packets, packet ∈ scan.packets cfg) :
    (∀ packet ∈ packets,
      (packet.previewTruncated = true ↔ packet.previewReturned < packet.previewTotal)) ↔
        ∀ packet ∈ packets, packet.beats.length ≤ 10 :=
  forall₂_congr fun packet hpacket => preview_iff (h packet hpacket)

/-! ### The counts -/

section Counts

variable {reading : RowReading} {cfg : StreamConfig} {args : QueryArgs} {scan : QueryScan}

/-- The number of the transfers that the channel selects. -/
lemma length_selected (channel : Option String) (transfers : List (StreamSample FieldJson)) :
    (transfers.filter fun transfer => channelHolds channel transfer.channelId).length =
      (transfers.zipIdx.filter fun row => channelHolds channel row.1.channelId).length := by
  rw [← List.countP_eq_length_filter, ← List.countP_eq_length_filter]
  conv_lhs => rw [← List.zipIdx_map_fst 0 transfers]
  rw [List.countP_map]
  rfl

lemma rowCount_transfers (hquery : args.query = "transfer_window") :
    rowCount reading cfg args scan =
      ((scan.transfers cfg).zipIdx.filter fun row =>
        channelHolds args.channel row.1.channelId).countP (filterHolds reading cfg args scan) := by
  rw [rowCount, if_pos hquery, List.countP_filter]
  exact List.countP_congr fun row _ => by rw [Bool.and_comm]

/-- Without a filter all transfers of the channel are rows. -/
lemma rowCount_of_no_filter (hquery : args.query = "transfer_window") (hfilter : args.filter = none) :
    rowCount reading cfg args scan = ((scan.transfers cfg).filter fun transfer =>
      channelHolds args.channel transfer.channelId).length := by
  rw [rowCount_transfers hquery, length_selected, List.countP_eq_length]
  intro row _
  rw [filterHolds, hfilter, Option.all_none]

/-- Without packets the rows are the transfers that the filter keeps. -/
lemma rowCount_of_no_packets (hquery : args.query = "transfer_window") {filter : StreamFilter}
    (hfilter : args.filter = some filter) (hpackets : packetEnabled cfg = false) :
    rowCount reading cfg args scan = (applyFilter filter.judgeTransfer
      ((scan.transfers cfg).filter fun transfer =>
        channelHolds args.channel transfer.channelId)).1.length := by
  rw [rowCount, if_pos hquery, applyFilter, List.filter_filter, ← List.countP_eq_length_filter]
  conv_rhs => rw [← List.zipIdx_map_fst 0 (scan.transfers cfg)]
  rw [List.countP_map]
  refine List.countP_congr fun row _ => ?_
  rw [filterHolds, hfilter, Option.all_some, if_neg (by simp [hpackets])]
  simp [judgeTransfer_eq_matched, and_comm]

/-- `total_count` of a transfer window. -/
def transferTotal (cfg : StreamConfig) (args : QueryArgs) (transfers : List (StreamSample FieldJson)) :
    ℕ :=
  if args.filter.isSome then
    (filterTransfers cfg args (transfers.filter fun transfer =>
      channelHolds args.channel transfer.channelId)).1.length
  else transfers.length

/-- The total is the number of rows exactly if neither the channel nor the filter should have
excluded more. -/
lemma transferTotal_eq_iff (hquery : args.query = "transfer_window") :
    transferTotal cfg args (scan.transfers cfg) = rowCount reading cfg args scan ↔
      (args.filter = none → ∀ transfer ∈ scan.transfers cfg,
        channelHolds args.channel transfer.channelId = true) ∧
      (packetEnabled cfg = true → ∀ row ∈ (scan.transfers cfg).zipIdx,
        channelHolds args.channel row.1.channelId = true →
          filterHolds reading cfg args scan row = true) := by
  rw [transferTotal]
  cases hfilter : args.filter with
  | none =>
      -- the total ignores the channel
      have hall : ∀ row, filterHolds reading cfg args scan row = true := by
        intro row
        rw [filterHolds, hfilter, Option.all_none]
      rw [rowCount_of_no_filter hquery hfilter, if_neg (by simp), eq_comm,
        List.length_filter_eq_length_iff]
      simp [hall]
  | some filter =>
      rw [Option.isSome_some, if_pos rfl, filterTransfers, hfilter]
      cases hpackets : packetEnabled cfg with
      | false => simp [rowCount_of_no_packets hquery hfilter hpackets]
      | true =>
          -- with packets on, the rows of the transfers are left unfiltered
          simp only [if_true]
          rw [length_selected, rowCount_transfers hquery, eq_comm, List.countP_eq_length]
          simp

/-- When the total is right, so is the number of the transfers that are left. -/
lemma length_filterTransfers (hquery : args.query = "transfer_window")
    (htotal : transferTotal cfg args (scan.transfers cfg) = rowCount reading cfg args scan) :
    (filterTransfers cfg args ((scan.transfers cfg).filter fun transfer =>
      channelHolds args.channel transfer.channelId)).1.length = rowCount reading cfg args scan := by
  cases hfilter : args.filter with
  | none => rw [filterTransfers, hfilter, rowCount_of_no_filter hquery hfilter]
  | some filter =>
      rw [transferTotal, hfilter, Option.isSome_some, if_pos rfl] at htotal
      exact htotal

/-- The counts of a window whose rows are those of the request. -/
lemma honestCounts_windowAnswer {α : Type} {total : ℕ} {rows : List α}
    {data : List α → QueryData} {hint : String}
    (hrows : total = rowCount reading cfg args scan →
      rows.length = rowCount reading cfg args scan) :
    HonestCounts reading cfg args scan (windowAnswer args total rows data hint) ↔
      total = rowCount reading cfg args scan ∧
      (maxRows args.lineLimit = args.lineLimit.toNat ∨
        rowCount reading cfg args scan ≤ min (maxRows args.lineLimit) args.lineLimit.toNat) ∧
      ∀ packet ∈ (data (rows.take (maxRows args.lineLimit))).windowPackets,
        (packet.previewTruncated = true ↔ packet.previewReturned < packet.previewTotal) := by
  rw [List.take_eq_take_min]
  have hlimit : total = rowCount reading cfg args scan →
      (min (maxRows args.lineLimit) rows.length = min args.lineLimit.toNat total ↔
        (maxRows args.lineLimit = args.lineLimit.toNat ∨
          rowCount reading cfg args scan ≤ min (maxRows args.lineLimit) args.lineLimit.toNat)) := by
    intro htotal
    rw [hrows htotal, htotal]
    omega
  constructor
  · intro h
    exact ⟨h.total, (hlimit h.total).1 h.returned, h.previews⟩
  · rintro ⟨htotal, hle, hpreviews⟩
    exact ⟨htotal, (hlimit htotal).2 hle, decide_eq_true_iff, hpreviews⟩

lemma honestCounts_transfers (hquery : args.query = "transfer_window") (hint : String) :
    HonestCounts reading cfg args scan
        (windowAnswer args (transferTotal cfg args (scan.transfers cfg))
          ((filterTransfers cfg args ((scan.transfers cfg).filter fun transfer =>
            channelHolds args.channel transfer.channelId)).1.map rowJson) .rows hint) ↔
      CountsAllRows reading cfg args scan := by
  have hother : args.query ≠ "packet_window" := by simp [hquery]
  rw [honestCounts_windowAnswer fun h => by
    rw [List.length_map]
    exact length_filterTransfers hquery h, transferTotal_eq_iff hquery]
  simp only [QueryData.windowPackets, List.not_mem_nil, false_implies, implies_true, and_true]
  constructor
  · rintro ⟨⟨hchannel, hfilter⟩, hlimit⟩
    exact ⟨hlimit, fun _ => hchannel, fun _ => hfilter, fun h => absurd h hother⟩
  · intro hall
    exact ⟨⟨hall.channel hquery, hall.filter hquery⟩, hall.limit⟩

lemma honestCounts_packets (hquery : args.query = "packet_window") (hint : String) :
    HonestCounts reading cfg args scan
        (windowAnswer args ((scan.packets cfg).filter (packetSatisfies args)).length
          ((scan.packets cfg).filter (packetSatisfies args)) .packets hint) ↔
      CountsAllRows reading cfg args scan := by
  have hother : args.query ≠ "transfer_window" := by simp [hquery]
  have hcount : ((scan.packets cfg).filter (packetSatisfies args)).length =
      rowCount reading cfg args scan := by
    rw [rowCount, if_neg hother, if_neg (by simp [hquery]), List.countP_eq_length_filter]
  rw [honestCounts_windowAnswer fun _ => hcount]
  rw [windowPackets_packets, previews_iff fun packet hpacket =>
    (List.mem_filter.1 (List.mem_of_mem_take hpacket)).1]
  constructor
  · rintro ⟨-, hlimit, hbeats⟩
    exact ⟨hlimit, fun h => absurd h hother, fun h => absurd h hother, fun _ => hbeats⟩
  · intro hall
    exact ⟨hcount, hall.limit, hall.preview hquery⟩

lemma honestCounts_stalls (hquery : args.query = "stall_window") (hint : String) :
    HonestCounts reading cfg args scan
        (windowAnswer args (scan.stalls cfg).length (scan.stalls cfg) .stalls hint) ↔
      CountsAllRows reading cfg args scan := by
  have hother : args.query ≠ "transfer_window" ∧ args.query ≠ "packet_window" := by simp [hquery]
  have hcount : (scan.stalls cfg).length = rowCount reading cfg args scan := by
    rw [rowCount, if_neg hother.1, if_pos hquery]
  rw [honestCounts_windowAnswer fun _ => hcount]
  simp only [QueryData.windowPackets, List.not_mem_nil, false_implies, implies_true, and_true]
  constructor
  · rintro ⟨-, hlimit⟩
    exact ⟨hlimit, fun h => absurd h hother.1, fun h => absurd h hother.1,
      fun h => absurd h hother.2⟩
  · intro hall
    exact ⟨hcount, hall.limit⟩

end Counts

/-- A packet window is only scanned for a stream with packets. -/
lemma packetEnabled_of_scanQuery {wf : Backend} {cfg : StreamConfig} {query : StreamQuery}
    {scan : QueryScan} (h : scanQuery wf cfg query = .ok scan)
    (hquery : query.query = "packet_window") :
    packetEnabled cfg = true := by
  have hresult : queryStream wf cfg query = .ok scan.result := by
    rw [queryStream_eq_map, h]
    rfl
  obtain ⟨_, _, -, -, hcheck, -⟩ := queryStream_eq_ok.1 hresult
  rw [checkQuery] at hcheck
  split_ifs at hcheck with hmissing
  have hpacket : isPacketQuery query.query = true := by
    rw [hquery]
    rfl
  rw [and_iff_left hpacket, not_or] at hmissing
  simp [packetEnabled, hmissing]

/-- The counts of a window query are those of its rows exactly if none of the four exceptions
applies. -/
theorem honestCounts_iff (reading : RowReading) {wf : Backend} {cfg : StreamConfig}
    {args : QueryArgs} {scan : QueryScan} {response : StreamResponse}
    (hquery : args.query ∈ ["transfer_window", "packet_window", "stall_window"])
    (hscan : scanQuery wf cfg args.toStreamQuery = .ok scan)
    (h : runStreamQuery wf cfg args = .ok response) :
    HonestCounts reading cfg args scan response.answer ↔ CountsAllRows reading cfg args scan := by
  rw [runStreamQuery, hscan] at h
  obtain ⟨selected, hselected, h⟩ := exists_of_bind_eq_ok h
  obtain ⟨ans, hanswer, h⟩ := exists_of_bind_eq_ok h
  have hresponse : response.answer = ans := by rw [← Except.ok.inj h]
  rw [hresponse]
  rw [selectTransfers_eq_ok hselected] at hanswer
  simp only [List.mem_cons, List.not_mem_nil, or_false] at hquery
  rcases hquery with hquery | hquery | hquery
  · simp only [answer, hquery, String.reduceEq, if_false, if_true] at hanswer
    rw [← Except.ok.inj hanswer]
    exact honestCounts_transfers hquery _
  · have hpackets := packetEnabled_of_scanQuery hscan hquery
    simp only [answer, hquery, String.reduceEq, if_false] at hanswer
    rw [← Except.ok.inj hanswer, filterPackets_candidatePackets args _ hpackets]
    exact honestCounts_packets hquery _
  · simp only [answer, hquery, String.reduceEq, if_false, if_true] at hanswer
    rw [← Except.ok.inj hanswer]
    exact honestCounts_stalls hquery _

/-! ### A channel without a filter -/

lemma pairTimes_sorted : [0, 5, 10, 15].Pairwise (· < ·) := by decide

lemma pairTimes_lt : ∀ t ∈ [0, 5, 10, 15], t < 2 ^ 64 := by decide

def pairTable : List (String × List (ℕ × String)) :=
  [("clk", [(0, "0"), (1, "1"), (2, "0"), (3, "1")]), ("vld", [(0, "1")]),
    ("ch", [(0, "0"), (2, "1")])]

lemma pairTable_changes : ∀ s ∈ pairTable,
    s.2.Pairwise (fun a b => a.1 ≤ b.1) ∧ ∀ c ∈ s.2, c.1 < [0, 5, 10, 15].length := by
  decide

/-- A transfer of channel 0 at time 5 and one of channel 1 at time 15. -/
def pairWave : Backend :=
  Backend.ofTable [0, 5, 10, 15] pairTable pairTimes_sorted pairTimes_lt pairTable_changes

def pairConfig : StreamConfig where
  clock := "clk"
  valid := "vld"
  channelId := "ch"

def pairStream : CompiledStreamExpressions where
  clock := .signal "clk"
  valid := .signal "vld"
  ready := none
  backpressure := none
  sop := none
  eop := none
  data := none
  channelId := some (.signal "ch")
  clockDependencies := [1]

lemma compileStreamExpressions_pair :
    compileStreamExpressions pairWave pairConfig = .ok pairStream := by
  have hclock := @compileStreamExpression_signal pairWave "clk" "clock" (by decide)
    (by decide +kernel) (show (1 : ℕ) ≠ 0 by decide)
  have hvalid := @compileStreamExpression_signal pairWave "vld" "vld" (by decide)
    (by decide +kernel) (show (2 : ℕ) ≠ 0 by decide)
  have hchannel := @compileStreamExpression_signal pairWave "ch" "channel_id" (by decide)
    (by decide +kernel) (show (3 : ℕ) ≠ 0 by decide)
  rw [compileStreamExpressions, pairConfig, hclock, hvalid, hchannel]
  rfl

/-- The transfers of channel 1. -/
def pairArgs : QueryArgs where
  query := "transfer_window"
  channel := some "1"

def pairScan : QueryScan where
  samples := (scanStreamSamples pairWave pairConfig pairStream 0 3).1
  fieldsComplete := (scanStreamSamples pairWave pairConfig pairStream 0 3).2

lemma scanQuery_pair : scanQuery pairWave pairConfig pairArgs.toStreamQuery = .ok pairScan := by
  rw [scanQuery, compileStreamExpressions_pair]
  rfl

/-- The counts of a result. -/
def countsOf : Except QueryError StreamResponse → Option (ℕ × ℕ × Bool)
  | .ok response =>
      some (response.answer.totalCount, response.answer.returnedCount, response.answer.truncated)
  | .error _ => none

lemma pair_counts : countsOf (answerQuery pairConfig pairArgs pairScan) = some (2, 1, true) ∧
    (pairScan.transfers pairConfig).countP
      (fun transfer => channelHolds pairArgs.channel transfer.channelId) = 1 := by
  decide +kernel

lemma runStreamQuery_pair : ∃ response, runStreamQuery pairWave pairConfig pairArgs = .ok response ∧
    response.answer.totalCount = 2 := by
  have hrun : runStreamQuery pairWave pairConfig pairArgs =
      answerQuery pairConfig pairArgs pairScan := by rw [runStreamQuery, scanQuery_pair]
  have hcounts := pair_counts.1
  cases hanswer : answerQuery pairConfig pairArgs pairScan with
  | error error =>
      rw [hanswer] at hcounts
      cases hcounts
  | ok response =>
      rw [hanswer] at hcounts
      exact ⟨response, hrun.trans hanswer, congrArg Prod.fst (Option.some.inj hcounts)⟩

theorem pair_honestCounts_iff : ∃ response,
    runStreamQuery pairWave pairConfig pairArgs = .ok response ∧
      (HonestCounts .ownFields pairConfig pairArgs pairScan response.answer ↔
        CountsAllRows .ownFields pairConfig pairArgs pairScan) := by
  obtain ⟨response, hrun, -⟩ := runStreamQuery_pair
  exact ⟨response, hrun,
    honestCounts_iff .ownFields (List.mem_cons_self ..) scanQuery_pair hrun⟩

/-- Of the two transfers one is of the channel, and two are counted. -/
theorem pair_not_honestCounts : ∃ response,
    runStreamQuery pairWave pairConfig pairArgs = .ok response ∧
      ∀ reading, ¬ HonestCounts reading pairConfig pairArgs pairScan response.answer := by
  obtain ⟨response, hrun, htotal⟩ := runStreamQuery_pair
  refine ⟨response, hrun, fun reading hhonest => ?_⟩
  have hone : rowCount reading pairConfig pairArgs pairScan = 1 := by
    rw [rowCount_of_no_filter rfl rfl, ← List.countP_eq_length_filter]
    exact pair_counts.2
  have htwo := hhonest.total
  rw [htotal, hone] at htwo
  cases htwo

end XdebugFst.Stream
