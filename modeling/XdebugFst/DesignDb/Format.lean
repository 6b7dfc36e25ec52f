import XdebugFst.Lib.Access

/-!
The on-disk layout of the compact design database.

A database is one file: a header of 176 bytes, which holds nine section
descriptors, and the nine sections the descriptors point at. A section
is an array of records of fixed width. Three pairs of sections belong
together, a section of records and a section of prefix sums that says
which records belong to which signal.

Everything here is a load from the mapped file, so everything here may
fault; the lemmas say when it does not.
-/

namespace XdebugFst.DesignDb

open Lib

/-! ### Sections -/

/-- The sections of a database, in the order of the header. -/
inductive SectionIndex where
  | signals
  | nameIndex
  | drivers
  | driverStarts
  | loads
  | loadStarts
  | ports
  | portStarts
  | strings
  deriving DecidableEq, Repr

namespace SectionIndex

/-- The sections in the order of the header. -/
def all : List SectionIndex :=
  [signals, nameIndex, drivers, driverStarts, loads, loadStarts, ports, portStarts, strings]

lemma mem_all (i : SectionIndex) : i ∈ all := by cases i <;> decide

/-- The position of a section's descriptor in the header's array. -/
def toNat : SectionIndex → ℕ
  | signals => 0
  | nameIndex => 1
  | drivers => 2
  | driverStarts => 3
  | loads => 4
  | loadStarts => 5
  | ports => 6
  | portStarts => 7
  | strings => 8

lemma toNat_lt (i : SectionIndex) : i.toNat < 9 := by cases i <;> decide

/-- The size of one record of a section. -/
def width : SectionIndex → ℕ
  | signals => 24
  | nameIndex => 8
  | drivers => 28
  | driverStarts => 8
  | loads => 20
  | loadStarts => 8
  | ports => 12
  | portStarts => 8
  | strings => 1

end SectionIndex

/-- A section descriptor. -/
structure Section where
  offset : ℕ
  count : ℕ
  deriving DecidableEq, Repr

/-- The header, with its array of section descriptors as a function. -/
structure Header where
  magic : List UInt8
  major : ℕ
  minor : ℕ
  endianTag : ℕ
  headerSize : ℕ
  fileSize : ℕ
  sections : SectionIndex → Section

def headerBytes : ℕ := 176

def kMagic : List UInt8 := [0x58, 0x44, 0x44, 0x42, 0x49, 0x4e, 0x31, 0]

def kMajor : ℕ := 1

def kMinor : ℕ := 0

def kEndianTag : ℕ := 0x01020304

/-- The descriptor of the section `i`. -/
def readSection (m : List UInt8) (i : SectionIndex) : Option Section := do
  let offset ← readU64 m (32 + 16 * i.toNat)
  let count ← readU64 m (32 + 16 * i.toNat + 8)
  return { offset, count }

/-- The header at the start of the mapping. -/
def readHeader (m : List UInt8) : Option Header := do
  let magic ← (List.range 8).mapM fun k => m[k]?
  let major ← readU32 m 8
  let minor ← readU32 m 12
  let endianTag ← readU32 m 16
  let headerSize ← readU32 m 20
  let fileSize ← readU64 m 24
  let signals ← readSection m .signals
  let nameIndex ← readSection m .nameIndex
  let drivers ← readSection m .drivers
  let driverStarts ← readSection m .driverStarts
  let loads ← readSection m .loads
  let loadStarts ← readSection m .loadStarts
  let ports ← readSection m .ports
  let portStarts ← readSection m .portStarts
  let strings ← readSection m .strings
  return {
    magic, major, minor, endianTag, headerSize, fileSize
    sections := fun
      | .signals => signals
      | .nameIndex => nameIndex
      | .drivers => drivers
      | .driverStarts => driverStarts
      | .loads => loads
      | .loadStarts => loadStarts
      | .ports => ports
      | .portStarts => portStarts
      | .strings => strings }

lemma readSection_yields {m : List UInt8} (h : headerBytes ≤ m.length) (i : SectionIndex) :
    Yields (readSection m i) fun _ => True := by
  have hi := i.toNat_lt
  unfold headerBytes at h
  refine (readU64_yields (by omega)).bind fun _ _ => ?_
  exact (readU64_yields (by omega)).bind fun _ _ => .pure trivial

/-- A mapping that is long enough for a header has one. -/
lemma readHeader_yields {m : List UInt8} (h : headerBytes ≤ m.length) :
    Yields (readHeader m) fun header => header.fileSize < 2 ^ 64 := by
  have hsection := readSection_yields h
  unfold headerBytes at h
  have hmagic : Yields ((List.range 8).mapM fun k => m[k]?) fun _ => True := by
    refine (Yields.mapM (R := fun _ => True) fun k hk => ?_).mono fun _ _ => trivial
    have hlt : k < m.length := by
      rw [List.mem_range] at hk
      omega
    exact ⟨m[k], by simp [hlt], trivial⟩
  refine hmagic.bind fun _ _ => ?_
  refine (readU32_yields (by omega)).bind fun _ _ => ?_
  refine (readU32_yields (by omega)).bind fun _ _ => ?_
  refine (readU32_yields (by omega)).bind fun _ _ => ?_
  refine (readU32_yields (by omega)).bind fun _ _ => ?_
  refine (readU64_yields (by omega)).bind fun _ hsize => ?_
  refine (hsection .signals).bind fun _ _ => ?_
  refine (hsection .nameIndex).bind fun _ _ => ?_
  refine (hsection .drivers).bind fun _ _ => ?_
  refine (hsection .driverStarts).bind fun _ _ => ?_
  refine (hsection .loads).bind fun _ _ => ?_
  refine (hsection .loadStarts).bind fun _ _ => ?_
  refine (hsection .ports).bind fun _ _ => ?_
  refine (hsection .portStarts).bind fun _ _ => ?_
  exact (hsection .strings).bind fun _ _ => .pure hsize

/-! ### Records -/

structure SignalRecord where
  name : ℕ
  type : ℕ
  file : ℕ
  width : ℤ
  line : ℤ
  direction : ℤ
  deriving DecidableEq, Repr

structure NameIndexRecord where
  name : ℕ
  signal : ℤ
  deriving DecidableEq, Repr

structure DriverRecord where
  target : ℤ
  source : ℤ
  kind : ℕ
  role : ℕ
  predicate : ℕ
  file : ℕ
  line : ℤ
  deriving DecidableEq, Repr

structure LoadRecord where
  source : ℤ
  consumer : ℤ
  kind : ℕ
  file : ℕ
  line : ℤ
  deriving DecidableEq, Repr

structure PortRecord where
  signal : ℤ
  connected : ℤ
  kind : ℕ
  deriving DecidableEq, Repr

def readSignalRecord (m : List UInt8) (pos : ℕ) : Option SignalRecord := do
  let name ← readU32 m pos
  let type ← readU32 m (pos + 4)
  let file ← readU32 m (pos + 8)
  let width ← readI32 m (pos + 12)
  let line ← readI32 m (pos + 16)
  let direction ← readI32 m (pos + 20)
  return { name, type, file, width, line, direction }

def readNameIndexRecord (m : List UInt8) (pos : ℕ) : Option NameIndexRecord := do
  let name ← readU32 m pos
  let signal ← readI32 m (pos + 4)
  return { name, signal }

def readDriverRecord (m : List UInt8) (pos : ℕ) : Option DriverRecord := do
  let target ← readI32 m pos
  let source ← readI32 m (pos + 4)
  let kind ← readU32 m (pos + 8)
  let role ← readU32 m (pos + 12)
  let predicate ← readU32 m (pos + 16)
  let file ← readU32 m (pos + 20)
  let line ← readI32 m (pos + 24)
  return { target, source, kind, role, predicate, file, line }

def readLoadRecord (m : List UInt8) (pos : ℕ) : Option LoadRecord := do
  let source ← readI32 m pos
  let consumer ← readI32 m (pos + 4)
  let kind ← readU32 m (pos + 8)
  let file ← readU32 m (pos + 12)
  let line ← readI32 m (pos + 16)
  return { source, consumer, kind, file, line }

def readPortRecord (m : List UInt8) (pos : ℕ) : Option PortRecord := do
  let signal ← readI32 m pos
  let connected ← readI32 m (pos + 4)
  let kind ← readU32 m (pos + 8)
  return { signal, connected, kind }

section Reads

variable {m : List UInt8} {pos : ℕ}

lemma readSignalRecord_yields (h : pos + 24 ≤ m.length) :
    Yields (readSignalRecord m pos) fun _ => True := by
  refine (readU32_yields (by omega)).bind fun _ _ => ?_
  refine (readU32_yields (by omega)).bind fun _ _ => ?_
  refine (readU32_yields (by omega)).bind fun _ _ => ?_
  refine (readI32_yields (by omega)).bind fun _ _ => ?_
  refine (readI32_yields (by omega)).bind fun _ _ => ?_
  exact (readI32_yields (by omega)).bind fun _ _ => .pure trivial

lemma readNameIndexRecord_yields (h : pos + 8 ≤ m.length) :
    Yields (readNameIndexRecord m pos) fun _ => True := by
  refine (readU32_yields (by omega)).bind fun _ _ => ?_
  exact (readI32_yields (by omega)).bind fun _ _ => .pure trivial

lemma readDriverRecord_yields (h : pos + 28 ≤ m.length) :
    Yields (readDriverRecord m pos) fun _ => True := by
  refine (readI32_yields (by omega)).bind fun _ _ => ?_
  refine (readI32_yields (by omega)).bind fun _ _ => ?_
  refine (readU32_yields (by omega)).bind fun _ _ => ?_
  refine (readU32_yields (by omega)).bind fun _ _ => ?_
  refine (readU32_yields (by omega)).bind fun _ _ => ?_
  refine (readU32_yields (by omega)).bind fun _ _ => ?_
  exact (readI32_yields (by omega)).bind fun _ _ => .pure trivial

lemma readLoadRecord_yields (h : pos + 20 ≤ m.length) :
    Yields (readLoadRecord m pos) fun _ => True := by
  refine (readI32_yields (by omega)).bind fun _ _ => ?_
  refine (readI32_yields (by omega)).bind fun _ _ => ?_
  refine (readU32_yields (by omega)).bind fun _ _ => ?_
  refine (readU32_yields (by omega)).bind fun _ _ => ?_
  exact (readI32_yields (by omega)).bind fun _ _ => .pure trivial

lemma readPortRecord_yields (h : pos + 12 ≤ m.length) :
    Yields (readPortRecord m pos) fun _ => True := by
  refine (readI32_yields (by omega)).bind fun _ _ => ?_
  refine (readI32_yields (by omega)).bind fun _ _ => ?_
  exact (readU32_yields (by omega)).bind fun _ _ => .pure trivial

end Reads

end XdebugFst.DesignDb
