import Mathlib
import XdebugFst.Lib.Bytes
import XdebugFst.DesignDb.Binary

/-!
# The converter

`tools/convert_xdd_so_to_binary.py` walks once over the signals of a loaded design and packs
them into the sections of the compact database. The texts go into a string pool on the way, so
that the records hold offsets; the pool and the exception it raises when it is full are the
state and the error of `Pool`.

The numbers of the design come through `ctypes.c_int` and are 32-bit integers here. The texts
are what `_text` decodes.
-/

namespace XdebugFst.DesignDb

open Lib

/-! ### The design -/

structure SourceDriver where
  related : Int32
  kind : String
  role : String
  predicate : String
  file : String
  line : Int32

structure SourceLoad where
  related : Int32
  kind : String
  file : String
  line : Int32

structure SourcePort where
  related : Int32
  kind : String

/-- A signal with its drivers, loads and port connections in the order of the design. -/
structure SourceSignal where
  name : String
  type : String
  file : String
  width : Int32
  line : Int32
  direction : Int32
  drivers : List SourceDriver
  loads : List SourceLoad
  ports : List SourcePort

/-! ### The string pool -/

/-- `Strings`: the bytes of the pool, and the offsets of the texts in it. -/
structure Strings where
  data : List UInt8 := [0]
  offsets : List (String × ℕ) := [("", 0)]

/-- A computation that interns texts. -/
abbrev Pool := StateT Strings (Except String)

/-- `intern`. -/
def intern (value : String) : Pool ℕ := fun strings =>
  match strings.offsets.lookup value with
  | some found => .ok (found, strings)
  | none =>
      let encoded := utf8 value.toList ++ [0]
      let offset := strings.data.length
      if offset > 0xFFFFFFFF ∨ strings.data.length + encoded.length > 0x100000000 then
        .error "string pool exceeds binary-v1 32-bit offset limit"
      else
        .ok (offset,
          { data := strings.data ++ encoded, offsets := (value, offset) :: strings.offsets })

/-! ### Records -/

/-- `SIGNAL.pack`. -/
def packSignal (name type file : ℕ) (s : SourceSignal) : List UInt8 :=
  leBytes 4 name ++ leBytes 4 type ++ leBytes 4 file ++ packI32 s.width ++ packI32 s.line ++
    packI32 s.direction

/-- `NAME_INDEX.pack`. -/
def packName (name index : ℕ) : List UInt8 := leBytes 4 name ++ leBytes 4 index

/-- `DRIVER.pack`. -/
def packDriver (index kind role predicate file : ℕ) (d : SourceDriver) : List UInt8 :=
  leBytes 4 index ++ packI32 d.related ++ leBytes 4 kind ++ leBytes 4 role ++
    leBytes 4 predicate ++ leBytes 4 file ++ packI32 d.line

/-- `LOAD.pack`. -/
def packLoad (index kind file : ℕ) (l : SourceLoad) : List UInt8 :=
  leBytes 4 index ++ packI32 l.related ++ leBytes 4 kind ++ leBytes 4 file ++ packI32 l.line

/-- `PORT.pack`. -/
def packPort (index kind : ℕ) (p : SourcePort) : List UInt8 :=
  leBytes 4 index ++ packI32 p.related ++ leBytes 4 kind

/-- `START.pack`. -/
def packStart (n : ℕ) : List UInt8 := leBytes 8 n

/-! ### The walk -/

/-- What the walk over the signals builds up. -/
structure Blobs where
  signals : List UInt8 := []
  drivers : List UInt8 := []
  loads : List UInt8 := []
  ports : List UInt8 := []
  driverStarts : List UInt8 := []
  loadStarts : List UInt8 := []
  portStarts : List UInt8 := []
  names : List (String × ℕ) := []

def addDriver (index : ℕ) (blob : List UInt8) (d : SourceDriver) : Pool (List UInt8) := do
  let kind ← intern d.kind
  let role ← intern d.role
  let predicate ← intern d.predicate
  let file ← intern d.file
  return blob ++ packDriver index kind role predicate file d

def addLoad (index : ℕ) (blob : List UInt8) (l : SourceLoad) : Pool (List UInt8) := do
  let kind ← intern l.kind
  let file ← intern l.file
  return blob ++ packLoad index kind file l

def addPort (index : ℕ) (blob : List UInt8) (p : SourcePort) : Pool (List UInt8) := do
  let kind ← intern p.kind
  return blob ++ packPort index kind p

/-- The body of the loop over the signals. -/
def addSignal (b : Blobs) (entry : SourceSignal × ℕ) : Pool Blobs := do
  let (s, index) := entry
  let name ← intern s.name
  let type ← intern s.type
  let file ← intern s.file
  let drivers ← s.drivers.foldlM (addDriver index) b.drivers
  let loads ← s.loads.foldlM (addLoad index) b.loads
  let ports ← s.ports.foldlM (addPort index) b.ports
  return {
    signals := b.signals ++ packSignal name type file s
    drivers, loads, ports
    driverStarts := b.driverStarts ++ packStart (b.drivers.length / 28)
    loadStarts := b.loadStarts ++ packStart (b.loads.length / 20)
    portStarts := b.portStarts ++ packStart (b.ports.length / 12)
    names := b.names ++ [(s.name, index)] }

/-- One entry of the name index. -/
def addName (blob : List UInt8) (entry : String × ℕ) : Pool (List UInt8) := do
  let name ← intern entry.1
  return blob ++ packName name entry.2

/-! ### The file -/

/-- The loop of `_pack_sections`: the offset and the count of each section, the bytes from
`offset` on, and where they end. -/
def packBody : ℕ → List (List UInt8 × ℕ) → List (ℕ × ℕ) × List UInt8 × ℕ
  | offset, [] => ([], [], offset)
  | offset, (blob, count) :: rest =>
      let padding := (8 - offset % 8) % 8
      let (locations, body, stop) := packBody (offset + padding + blob.length) rest
      ((offset + padding, count) :: locations,
        List.replicate padding 0 ++ (blob ++ body), stop)

/-- `HEADER_PREFIX.pack`, with the number of bytes of the file. -/
def packHeaderPrefix (fileSize : ℕ) : List UInt8 :=
  kMagic ++ leBytes 4 kMajor ++ leBytes 4 kMinor ++ leBytes 4 kEndianTag ++
    leBytes 4 headerBytes ++ leBytes 8 fileSize

/-- `SECTION.pack`. -/
def packSection (location : ℕ × ℕ) : List UInt8 := leBytes 8 location.1 ++ leBytes 8 location.2

/-- `_pack_sections`. -/
def packSections (blobs : List (List UInt8 × ℕ)) : List UInt8 :=
  let (locations, body, stop) := packBody headerBytes blobs
  packHeaderPrefix stop ++ locations.flatMap packSection ++ body

/-- The order of `names.sort`. -/
def nameLe (a b : String × ℕ) : Bool := a.1.toList ≤ b.1.toList

/-- `convert`, up to writing the file. -/
def convertPool (signals : List SourceSignal) : Pool (List UInt8) := do
  let b ← signals.zipIdx.foldlM addSignal {}
  let driverStarts := b.driverStarts ++ packStart (b.drivers.length / 28)
  let loadStarts := b.loadStarts ++ packStart (b.loads.length / 20)
  let portStarts := b.portStarts ++ packStart (b.ports.length / 12)
  let nameBlob ← (b.names.mergeSort nameLe).foldlM addName []
  let strings ← get
  let count := signals.length
  return packSections [
    (b.signals, count), (nameBlob, count),
    (b.drivers, b.drivers.length / 28), (driverStarts, count + 1),
    (b.loads, b.loads.length / 20), (loadStarts, count + 1),
    (b.ports, b.ports.length / 12), (portStarts, count + 1),
    (strings.data, strings.data.length)]

/-- The bytes that `convert` writes, or the message of its exception. -/
def convert (signals : List SourceSignal) : Except String (List UInt8) :=
  (convertPool signals {}).map Prod.fst

end XdebugFst.DesignDb
