import XdebugFst.DesignDb.Format

/-!
The reader of the compact design database.

`BinaryDesignBackend` maps the file, looks at the header, validates the
whole content once and from then on follows offsets and indices of the
file without looking twice. `openFile` is the first part and the
accessors are the second. Loads are explicit throughout, so that a load
outside the mapping, a null string that is followed and a loop that
never ends are all visible as faults.

A backend whose file was not accepted is closed, and a closed backend
answers every accessor with a constant; it is not a value of the type
below.
-/

namespace XdebugFst.DesignDb

open Lib

/-- A mapped file with the header at its start. -/
structure BinaryDesignBackend where
  bytes : List UInt8
  header : Header
  header_eq : readHeader bytes = some header

namespace BinaryDesignBackend

variable (db : BinaryDesignBackend)

/-- The number of records of a section. -/
def count (i : SectionIndex) : ℕ := (db.header.sections i).count

/-- The address of the record `k` of a section. -/
def recordPos (i : SectionIndex) (k : ℕ) : ℕ := (db.header.sections i).offset + k * i.width

/-- `string_at`: the address of a string, `none` being the null
pointer. -/
def stringAt (offset : ℕ) : Option (Option ℕ) :=
  let strings := db.header.sections .strings
  if offset ≥ strings.count then some none
  else do
    let value := strings.offset + offset
    let found ← memchr (strings.count - offset) (db.bytes.drop value)
    return if found then some value else none

/-- The characters of the string at an address. -/
def stringValue (value : ℕ) : Option (List UInt8) := cString (db.bytes.drop value)

/-- The characters of the string that `string_at` answers with, for a
caller that does not ask whether it is null. -/
def derefString (offset : ℕ) : Option (List UInt8) := do
  match ← db.stringAt offset with
  | none => none
  | some value => db.stringValue value

/-- `strcmp` on the characters before the terminating zeros. -/
def strcmp (a b : List UInt8) : Ordering := compare a b

/-! ### Validation -/

/-- `valid_section`: the section lies between the header and the end of
the file, and its size in bytes does not overflow. -/
def validSection (header : Header) (fileSize : ℕ) (i : SectionIndex) : Bool :=
  let s := header.sections i
  if s.offset < headerBytes ∨ s.offset > fileSize then false
  else if s.count > (2 ^ 64 - 1) / i.width then false
  else s.count * i.width % 2 ^ 64 ≤ fileSize - s.offset

/-- `section_end`, in 64-bit arithmetic. -/
def sectionEnd (header : Header) (i : SectionIndex) : ℕ :=
  ((header.sections i).offset + (header.sections i).count * i.width) % 2 ^ 64

/-- The loop over the section table: each section starts on a multiple
of eight and not before the previous one ends. -/
def validateLayout (header : Header) : List SectionIndex → ℕ → Except Stop Unit
  | [], _ => .ok ()
  | i :: rest, previous => do
      require ((header.sections i).offset ≥ previous)
      require ((header.sections i).offset % 8 = 0)
      validateLayout header rest (sectionEnd header i)

/-- Rejection of a null string. -/
def requireString (offset : ℕ) : Except Stop ℕ := do
  match ← load (db.stringAt offset) with
  | none => .error .reject
  | some value => .ok value

/-- The body of the loop over the signal records. -/
def validateSignal (i : ℕ) : Except Stop Unit := do
  let record ← load (readSignalRecord db.bytes (db.recordPos .signals i))
  let _ ← db.requireString record.name
  let _ ← db.requireString record.type
  let _ ← db.requireString record.file
  require (0 ≤ record.direction ∧ record.direction ≤ 3)

/-- What the loop over the name index carries: the previous name and
the signals that have a name already. -/
structure NameState where
  prior : Option ℕ
  indexedSignals : List Bool

/-- Rejection unless the name comes after the previous one, if there is
a previous one. -/
def requireAfter (prior : Option ℕ) (name : ℕ) : Except Stop Unit :=
  match prior with
  | none => .ok ()
  | some prior => do
      let a ← load (db.stringValue prior)
      let b ← load (db.stringValue name)
      require (strcmp a b = .lt)

/-- The body of the loop over the name index. -/
def validateName (i : ℕ) (st : NameState) : Except Stop NameState := do
  let record ← load (readNameIndexRecord db.bytes (db.recordPos .nameIndex i))
  let name ← db.requireString record.name
  require (0 ≤ record.signal ∧ record.signal.toNat < db.count .signals)
  let indexed ← load st.indexedSignals[record.signal.toNat]?
  require (indexed = false)
  db.requireAfter st.prior name
  return { prior := some name, indexedSignals := st.indexedSignals.set record.signal.toNat true }

/-- The entry `k` of a section of prefix sums. -/
def startAt (starts : SectionIndex) (k : ℕ) : Option ℕ :=
  readU64 db.bytes (db.recordPos starts k)

/-- The body of the loop in `validate_starts`. -/
def validateStart (starts : SectionIndex) (records i : ℕ) : Except Stop Unit := do
  let here ← load (db.startAt starts i)
  let before ← load (db.startAt starts (i - 1))
  require (here ≥ before)
  let here ← load (db.startAt starts i)
  require (here ≤ records)

/-- `validate_starts`: the prefix sums begin at zero, end at the number
of records and do not decrease. -/
def validateStarts (starts : SectionIndex) (records : ℕ) : Except Stop Unit := do
  let first ← load (db.startAt starts 0)
  require (first = 0)
  let last ← load (db.startAt starts (db.count .signals))
  require (last = records)
  forFrom (fun i _ => db.validateStart starts records i) (db.count .signals) 1 ()

/-- The checks on one driver record. -/
def validateDriver (owner i : ℕ) : Except Stop Unit := do
  let r ← load (readDriverRecord db.bytes (db.recordPos .drivers i))
  require (0 ≤ r.target ∧ r.target.toNat = owner)
  require (-1 ≤ r.source ∧ ¬ (0 ≤ r.source ∧ r.source.toNat ≥ db.count .signals))
  let _ ← db.requireString r.kind
  let _ ← db.requireString r.role
  let _ ← db.requireString r.predicate
  let _ ← db.requireString r.file

/-- The checks on one load record. -/
def validateLoad (owner i : ℕ) : Except Stop Unit := do
  let r ← load (readLoadRecord db.bytes (db.recordPos .loads i))
  require (0 ≤ r.source ∧ 0 ≤ r.consumer ∧ r.source.toNat = owner ∧
    r.consumer.toNat < db.count .signals)
  let _ ← db.requireString r.kind
  let _ ← db.requireString r.file

/-- The checks on one port record. -/
def validatePort (owner i : ℕ) : Except Stop Unit := do
  let r ← load (readPortRecord db.bytes (db.recordPos .ports i))
  require (0 ≤ r.signal ∧ 0 ≤ r.connected ∧ r.signal.toNat = owner ∧
    r.connected.toNat < db.count .signals)
  let _ ← db.requireString r.kind

/-- The body of the loops over the grouped records: the owner moves
forward to the group of the record `i`, and the record is checked
against it. -/
def validateGrouped (starts : SectionIndex) (check : ℕ → ℕ → Except Stop Unit) (i owner : ℕ) :
    Except Stop ℕ := do
  let owner ← load (walkTo (db.startAt starts) (db.count .signals) i (db.count .signals) owner)
  require (owner < db.count .signals)
  check owner i
  return owner

/-- `validate`. -/
def validate : Except Stop Unit := do
  require (db.header.magic = kMagic ∧ db.header.major = kMajor ∧ db.header.minor = kMinor ∧
    db.header.endianTag = kEndianTag ∧ db.header.headerSize = headerBytes ∧
    db.header.fileSize = db.bytes.length)
  require (∀ i ∈ SectionIndex.all, validSection db.header db.bytes.length i = true)
  require (db.count .signals ≤ 2 ^ 31 - 1 ∧ db.count .drivers ≤ 2 ^ 31 - 1 ∧
    db.count .loads ≤ 2 ^ 31 - 1 ∧ db.count .ports ≤ 2 ^ 31 - 1 ∧
    db.count .nameIndex = db.count .signals ∧
    db.count .driverStarts = db.count .signals + 1 ∧
    db.count .loadStarts = db.count .signals + 1 ∧
    db.count .portStarts = db.count .signals + 1 ∧ db.count .strings ≠ 0)
  validateLayout db.header SectionIndex.all headerBytes
  forFrom (fun i _ => db.validateSignal i) (db.count .signals) 0 ()
  let _ ← forFrom db.validateName (db.count .signals) 0
    { prior := none, indexedSignals := List.replicate (db.count .signals) false }
  db.validateStarts .driverStarts (db.count .drivers)
  db.validateStarts .loadStarts (db.count .loads)
  db.validateStarts .portStarts (db.count .ports)
  let _ ← forFrom (db.validateGrouped .driverStarts db.validateDriver) (db.count .drivers) 0 0
  let _ ← forFrom (db.validateGrouped .loadStarts db.validateLoad) (db.count .loads) 0 0
  let _ ← forFrom (db.validateGrouped .portStarts db.validatePort) (db.count .ports) 0 0

end BinaryDesignBackend

/-- `open`: the mapped file when it is accepted, a rejection when it is
too short for a header or does not validate. -/
def openFile (bytes : List UInt8) : Except Stop BinaryDesignBackend :=
  if bytes.length < headerBytes then .error .reject
  else
    match h : readHeader bytes with
    | none => .error .fault
    | some header => do
        let db : BinaryDesignBackend := { bytes, header, header_eq := h }
        db.validate
        return db

namespace BinaryDesignBackend

variable (db : BinaryDesignBackend)

/-! ### Accessors -/

def validSignal (index : ℤ) : Bool := 0 ≤ index ∧ index.toNat < db.count .signals

def signalCount : ℤ := toInt32 (db.count .signals)

/-- The signal record `idx` of a valid signal. -/
def signalRecord (idx : ℤ) : Option SignalRecord :=
  readSignalRecord db.bytes (db.recordPos .signals idx.toNat)

/-- A string of a signal record, null for an invalid signal. -/
def signalString (field : SignalRecord → ℕ) (idx : ℤ) : Option (Option ℕ) :=
  if db.validSignal idx then do
    let record ← db.signalRecord idx
    db.stringAt (field record)
  else some none

/-- A number of a signal record, zero for an invalid signal. -/
def signalField (field : SignalRecord → ℤ) (idx : ℤ) : Option ℤ :=
  if db.validSignal idx then (db.signalRecord idx).map field else some 0

def signalName : ℤ → Option (Option ℕ) := db.signalString SignalRecord.name

def signalType : ℤ → Option (Option ℕ) := db.signalString SignalRecord.type

def signalFile : ℤ → Option (Option ℕ) := db.signalString SignalRecord.file

def signalWidth : ℤ → Option ℤ := db.signalField SignalRecord.width

def signalLine : ℤ → Option ℤ := db.signalField SignalRecord.line

def signalDirection : ℤ → Option ℤ := db.signalField SignalRecord.direction

/-- The binary search of `resolve` over the name index, between `low`
and `high`. The first argument bounds the number of rounds. -/
def exactBetween (query : List UInt8) : ℕ → ℕ → ℕ → Option ℤ
  | fuel, low, high =>
      if low < high then
        match fuel with
        | 0 => none
        | fuel + 1 => do
            let mid := low + (high - low) / 2
            let record ← readNameIndexRecord db.bytes (db.recordPos .nameIndex mid)
            let name ← db.derefString record.name
            match strcmp query name with
            | .eq => return record.signal
            | .lt => exactBetween query fuel low mid
            | .gt => exactBetween query fuel (mid + 1) high
      else some (-1)

/-- `exact`: the signal whose indexed name is the query, or `-1`. -/
def exact (query : List UInt8) : Option ℤ :=
  db.exactBetween query (db.count .nameIndex) 0 (db.count .nameIndex)

/-- The characters of `top.`. -/
def lowerTop : List UInt8 := [0x74, 0x6f, 0x70, 0x2e]

/-- The characters of `TOP.`. -/
def upperTop : List UInt8 := [0x54, 0x4f, 0x50, 0x2e]

/-- The compatibility spellings that `resolve` tries when the query
itself is not in the index. -/
def resolveAlias (query : List UInt8) : Option ℤ := do
  if lowerTop.isPrefixOf query = false then db.exact (lowerTop ++ query)
  else
    let resolved ← db.exact (query.drop 4)
    if resolved ≥ 0 then return resolved
    -- a user top named `top` is stored under the duplicate root
    let resolved ← db.exact (lowerTop ++ query)
    if resolved ≥ 0 then return resolved
    return -1

/-- `resolve`. The name is what its caller passes: a null pointer or
the characters of a string, which end at the first zero. -/
def resolve (name : Option (List UInt8)) : Option ℤ :=
  match name.map (·.takeWhile (· ≠ 0)) with
  | none => some (-1)
  | some [] => some (-1)
  | some query => do
      let resolved ← db.exact query
      if resolved ≥ 0 then return resolved
      if upperTop.isPrefixOf query then
        let query := lowerTop ++ query.drop 4
        let resolved ← db.exact query
        if resolved ≥ 0 then return resolved
        db.resolveAlias query
      else db.resolveAlias query

/-- `grouped_range`: where the records of a signal begin and end, when
they lie inside their section. -/
def groupedRange (starts records : SectionIndex) (signal : ℤ) : Option (Option (ℕ × ℕ)) :=
  if db.validSignal signal then do
    let first ← db.startAt starts signal.toNat
    let last ← db.startAt starts (signal.toNat + 1)
    return if last ≤ db.count records then some (first, last) else none
  else some none

/-- The number of records of a signal, as the `…_count` accessors
compute it. -/
def groupedCount (starts records : SectionIndex) (signal : ℤ) : Option ℤ := do
  match ← db.groupedRange starts records signal with
  | none => return 0
  | some (first, last) => return toInt32 ((last + 2 ^ 64 - first) % 2 ^ 64)

def traceDriverCount : ℤ → Option ℤ := db.groupedCount .driverStarts .drivers

def traceLoadCount : ℤ → Option ℤ := db.groupedCount .loadStarts .loads

def portConnCount : ℤ → Option ℤ := db.groupedCount .portStarts .ports

/-- The records of a signal, converted one by one, with the number that
the accessor returns. -/
def groupedRecords {β : Type} (starts records : SectionIndex) (convert : ℕ → Option β)
    (signal : ℤ) : Option (ℤ × List β) := do
  match ← db.groupedRange starts records signal with
  | none => return (0, [])
  | some (first, last) =>
      let out ← (List.range' first (last - first)).mapM convert
      return (toInt32 out.length, out)

/-- A driver entry as the accessor hands it out. -/
structure DriverEntry where
  srcSignal : ℤ
  kind : List UInt8
  dependencyRole : List UInt8
  activationPredicate : List UInt8
  file : List UInt8
  line : ℤ
  deriving DecidableEq, Repr

/-- A load entry as the accessor hands it out. -/
structure LoadEntry where
  consumer : ℤ
  kind : List UInt8
  file : List UInt8
  line : ℤ
  deriving DecidableEq, Repr

/-- A port connection as the accessor hands it out. -/
structure PortConnection where
  portSignal : ℤ
  connectedSignal : ℤ
  kind : List UInt8
  deriving DecidableEq, Repr

def driverEntry (i : ℕ) : Option DriverEntry := do
  let source ← readDriverRecord db.bytes (db.recordPos .drivers i)
  let kind ← db.derefString source.kind
  let dependencyRole ← db.derefString source.role
  let activationPredicate ← db.derefString source.predicate
  let file ← db.derefString source.file
  return { srcSignal := source.source, kind, dependencyRole, activationPredicate, file,
           line := source.line }

def loadEntry (i : ℕ) : Option LoadEntry := do
  let source ← readLoadRecord db.bytes (db.recordPos .loads i)
  let kind ← db.derefString source.kind
  let file ← db.derefString source.file
  return { consumer := source.consumer, kind, file, line := source.line }

def portConnection (i : ℕ) : Option PortConnection := do
  let source ← readPortRecord db.bytes (db.recordPos .ports i)
  let kind ← db.derefString source.kind
  return { portSignal := source.signal, connectedSignal := source.connected, kind }

def traceDriver : ℤ → Option (ℤ × List DriverEntry) :=
  db.groupedRecords .driverStarts .drivers db.driverEntry

def traceLoad : ℤ → Option (ℤ × List LoadEntry) :=
  db.groupedRecords .loadStarts .loads db.loadEntry

def portConnections : ℤ → Option (ℤ × List PortConnection) :=
  db.groupedRecords .portStarts .ports db.portConnection

end BinaryDesignBackend

end XdebugFst.DesignDb
