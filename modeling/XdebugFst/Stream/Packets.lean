import XdebugFst.Core.LogicValue
import XdebugFst.Lib.OrderedMap

/-!
# Packet assembly of `stream.query`

The transfers of a stream are grouped into packets, one open packet per channel key at
a time.  A transfer with `sop` closes the open packet of its key and starts a new one, a
transfer with `eop` closes the packet it is added to, and the end of the window closes
what is still open.  Packets are numbered when they are opened and sorted by that number
at the end.

The handler holds the beats of a packet as pointers into the list of samples and writes
`packet_index` and `beat_index` through them when the packet is closed.  A pointer is
here the position in the list of transfers together with the transfer it points to.
-/

namespace XdebugFst.Stream

open Lib

variable {J : Type}

/-- `StreamSample`: the stream at one clock edge.  `J` is the type of the JSON values
that the packet loop copies and compares but does not look into. -/
structure StreamSample (J : Type) where
  cycle : ℕ
  timeIdx : ℕ
  time : ℕ
  vld : Bool := false
  rdy : Bool := false
  bp : Bool := false
  sop : Bool := false
  eop : Bool := false
  transfer : Bool := false
  stall : Bool := false
  controlKnown : Bool := true
  dataKnown : Bool := true
  readyBpConflict : Bool := false
  fields : J
  packetStableFields : OrderedMap String J := .empty
  /-- The JSON of a value with a nonempty bit string, or `null`. -/
  channelId : Option LogicValue := none
  /-- `-1` until the sample is put into a packet. -/
  packetIndex : ℤ := -1
  beatIndex : ℕ := 0

/-- The key under which the packet of a transfer is open. -/
def packetKey (allowInterleaving : Bool) (transfer : StreamSample J) : String :=
  if allowInterleaving then (transfer.channelId.map LogicValue.bits).getD "" else ""

/-- A pointer to a transfer. -/
structure Beat (J : Type) where
  pos : ℕ
  sample : StreamSample J

/-- A stable field whose value changed inside a packet. -/
structure StableMismatch (J : Type) where
  field : String
  cycle : ℕ
  time : ℕ
  expected : J
  /-- `null` when the transfer has no such field. -/
  actual : Option J

/-- `PacketState`: an open packet. -/
structure PacketState (J : Type) where
  packetIndex : ℕ := 0
  partialBegin : Bool := false
  beats : List (Beat J) := []
  channelId : Option LogicValue := none
  stableFields : OrderedMap String J := .empty
  stableMismatches : List (StableMismatch J) := []

/-- One row of `beat_fields_preview`. -/
structure BeatRow (J : Type) where
  cycle : ℕ
  time : ℕ
  beatIndex : ℕ
  fields : J

/-- The JSON of a closed packet.  `beats` is not part of it: the response shows the
beats only through the preview, the first and the last fields. -/
structure Packet (J : Type) where
  packetIndex : ℕ
  startCycle : ℕ
  endCycle : ℕ
  startTime : ℕ
  endTime : ℕ
  beatCount : ℕ
  partialBegin : Bool
  partialEnd : Bool
  packetStableFields : OrderedMap String J
  packetStableMismatches : List (StableMismatch J)
  previewHead : List (BeatRow J)
  previewTail : List (BeatRow J)
  previewTotal : ℕ
  previewReturned : ℕ
  /-- `response_truncated` of the preview. -/
  previewTruncated : Bool
  firstFields : J
  lastFields : J
  channelId : Option LogicValue
  beats : List (Beat J)

/-- The local variables of the packet loop. -/
structure Assembly (J : Type) where
  activePackets : OrderedMap String (PacketState J) := .empty
  completedPacketJson : List (ℕ × Packet J) := []
  nextPacketIndex : ℕ := 0
  completePackets : ℕ := 0
  partialPackets : ℕ := 0
  packetStableMismatchCount : ℕ := 0
  /-- The transfers, with the indices written so far. -/
  samples : List (StreamSample J)

/-- `static_cast<int>` of a `size_t`. -/
def toInt32 (n : ℕ) : ℤ := (n : ℤ).bmod (2 ^ 32)

/-- The sample with the indices of its packet. -/
def StreamSample.stamp (packetIndex beatIndex : ℕ) (sample : StreamSample J) : StreamSample J :=
  { sample with packetIndex := toInt32 packetIndex, beatIndex := beatIndex }

/-- Write the packet index and the position in the packet into a beat. -/
def markBeat (packetIndex : ℕ) (samples : List (StreamSample J)) (b : Beat J × ℕ) :
    List (StreamSample J) :=
  samples.modify b.1.pos (StreamSample.stamp packetIndex b.2)

/-- The loop over the beats of a packet that is closed. -/
def markBeats (packetIndex : ℕ) (beats : List (Beat J)) (samples : List (StreamSample J)) :
    List (StreamSample J) :=
  beats.zipIdx.foldl (markBeat packetIndex) samples

/-- The row of a beat in the preview. -/
def beatRow (b : Beat J × ℕ) : BeatRow J :=
  { cycle := b.1.sample.cycle, time := b.1.sample.time, beatIndex := b.2,
    fields := b.1.sample.fields }

/-- The packet JSON of a packet state whose beats start with `front` and end with `back`. -/
def packetJson (state : PacketState J) (front back : Beat J) : Packet J :=
  let size := state.beats.length
  let head := (state.beats.zipIdx.filter fun b => b.2 < 5).map beatRow
  let tail := (state.beats.zipIdx.filter fun b =>
    5 < size && max 5 (if size > 10 then size - 5 else 5) ≤ b.2).map beatRow
  { packetIndex := state.packetIndex
    startCycle := front.sample.cycle
    endCycle := back.sample.cycle
    startTime := front.sample.time
    endTime := back.sample.time
    beatCount := size
    partialBegin := state.partialBegin
    partialEnd := !back.sample.eop
    packetStableFields := state.stableFields
    packetStableMismatches := state.stableMismatches
    previewHead := head
    previewTail := tail
    previewTotal := size
    previewReturned := head.length + tail.length
    previewTruncated := false
    firstFields := front.sample.fields
    lastFields := back.sample.fields
    channelId := state.channelId
    beats := state.beats }

/-- `append_packet`: close the open packet of a key. -/
def appendPacket (st : Assembly J) (key : String) : Assembly J :=
  match st.activePackets.find? key with
  | none => st
  | some state =>
      match state.beats.head?, state.beats.getLast? with
      | some front, some back =>
          let packet := packetJson state front back
          let isPartial := packet.partialBegin || packet.partialEnd
          { activePackets := st.activePackets.erase key
            completedPacketJson := st.completedPacketJson ++ [(state.packetIndex, packet)]
            nextPacketIndex := st.nextPacketIndex
            completePackets := if isPartial then st.completePackets else st.completePackets + 1
            partialPackets := if isPartial then st.partialPackets + 1 else st.partialPackets
            packetStableMismatchCount :=
              st.packetStableMismatchCount + state.stableMismatches.length
            samples := markBeats state.packetIndex state.beats st.samples }
      | _, _ => st

/-- The stable fields of an open packet that a further transfer changes. -/
def changedStableFields [DecidableEq J] (stable : OrderedMap String J)
    (transfer : StreamSample J) : List (StableMismatch J) :=
  (stable.entries.filter fun item =>
      transfer.packetStableFields.find? item.1 ≠ some item.2).map fun item =>
    { field := item.1, cycle := transfer.cycle, time := transfer.time, expected := item.2,
      actual := transfer.packetStableFields.find? item.1 }

/-- The packet state that a transfer opens. -/
def newPacket (packetIndex : ℕ) (transfer : StreamSample J) : PacketState J :=
  { packetIndex := packetIndex
    partialBegin := !transfer.sop
    channelId := transfer.channelId
    stableFields := transfer.packetStableFields }

/-- Open a packet for a key that has none. -/
def openPacket (st : Assembly J) (key : String) (transfer : StreamSample J) : Assembly J :=
  { st with
    nextPacketIndex := st.nextPacketIndex + 1
    activePackets := st.activePackets.insert key (newPacket st.nextPacketIndex transfer) }

/-- Add a transfer to a packet state.  The first beat has nothing to differ from. -/
def PacketState.push [DecidableEq J] (state : PacketState J) (beat : Beat J) : PacketState J :=
  { state with
    stableMismatches := state.stableMismatches ++
      if state.beats.isEmpty then [] else changedStableFields state.stableFields beat.sample
    beats := state.beats ++ [beat] }

/-- Add a transfer to the open packet of its key. -/
def addBeat [DecidableEq J] (st : Assembly J) (key : String) (beat : Beat J) : Assembly J :=
  match st.activePackets.find? key with
  | none => st
  | some state => { st with activePackets := st.activePackets.insert key (state.push beat) }

/-- The body of the packet loop for one transfer. -/
def packetStep [DecidableEq J] (allowInterleaving : Bool) (st : Assembly J) (beat : Beat J) :
    Assembly J :=
  let key := packetKey allowInterleaving beat.sample
  let st := if beat.sample.sop && (st.activePackets.find? key).isSome then appendPacket st key
    else st
  let st := if (st.activePackets.find? key).isNone then openPacket st key beat.sample else st
  let st := addBeat st key beat
  if beat.sample.eop then appendPacket st key else st

/-- The beats that the loop visits: a pointer to each transfer, in order. -/
def beatsOf (transfers : List (StreamSample J)) : List (Beat J) :=
  transfers.zipIdx.map fun t => { pos := t.2, sample := t.1 }

/-- Close every packet that is still open, in the order of the keys. -/
def closeRemaining (st : Assembly J) : Assembly J :=
  st.activePackets.keys.foldl appendPacket st

/-- What the packet loop leaves for the rest of the handler. -/
structure PacketResult (J : Type) where
  packets : List (Packet J)
  completePackets : ℕ
  partialPackets : ℕ
  packetStableMismatchCount : ℕ
  samples : List (StreamSample J)

/-- The packet loop of `StreamQueryHandler::run` for a stream with packet boundaries.  The
packet numbers are distinct, so that `std::sort` has only one possible result. -/
def assemblePackets [DecidableEq J] (allowInterleaving : Bool)
    (transfers : List (StreamSample J)) : PacketResult J :=
  let st := (beatsOf transfers).foldl (packetStep allowInterleaving) { samples := transfers }
  let st := closeRemaining st
  { packets := (st.completedPacketJson.insertionSort fun a b => a.1 ≤ b.1).map Prod.snd
    completePackets := st.completePackets
    partialPackets := st.partialPackets
    packetStableMismatchCount := st.packetStableMismatchCount
    samples := st.samples }

end XdebugFst.Stream
