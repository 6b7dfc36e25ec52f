import Mathlib
import XdebugFst.Lib.Json
import XdebugFst.Lib.Throws
import XdebugFst.Session.Frontend

/-!
# Session records as JSON

A session record is written to `state.json` by `session_registry_record_to_json` and read back
by `session_registry_record_from_json`. The reader checks that all fields are there, that the
texts are strings and that the numbers are not negative and fit the types of their fields, and
then the invariants of the registry. A record of the time before `design_db_format` may lack this
field.

`recordFromJson_recordToJson` says what the reader makes of a written record, with the message
of the refusal; it is the reason why the registry is modelled without the JSON in between.
-/

namespace XdebugFst.Session

open Lib

/-! ### Writing a record -/

/-- The text of a lifecycle state in a record. -/
def LifecycleState.text : LifecycleState → String
  | opening => "opening"
  | active => "active"
  | cleanupFailed => "cleanup_failed"
  | other text => text

/-- The lifecycle state of a text. -/
def LifecycleState.ofText (text : String) : LifecycleState :=
  if text = "opening" then .opening
  else if text = "active" then .active
  else if text = "cleanup_failed" then .cleanupFailed
  else .other text

@[simp]
lemma LifecycleState.text_ofText (text : String) : (ofText text).text = text := by
  rw [ofText]
  split_ifs with hopening hactive hfailed
  · exact hopening.symm
  · exact hactive.symm
  · exact hfailed.symm
  · rfl

/-- `session_registry_record_to_json`. -/
def recordToJson (s : SessionInfo) : Json :=
  .object [
    ("session_id", .string s.sessionId),
    ("generation", .string s.generation),
    ("lifecycle_state", .string s.lifecycleState.text),
    ("transport", .string s.transport),
    ("socket_path", .string s.socketPath),
    ("file_dir", .string s.fileDir),
    ("host", .string s.host),
    ("bind_host", .string s.bindHost),
    ("port", .integer s.port),
    ("server_host", .string s.serverHost),
    ("auth_token", .string s.authToken),
    ("ownership_token_hash", .string s.ownershipTokenHash),
    ("dbdir_path", .string s.dbdirPath),
    ("design_db_format", .string s.designDbFormat),
    ("fsdb_file", .string s.fsdbFile),
    ("server_pid", .integer s.serverPid),
    ("created_at", .integer s.createdAt),
    ("last_active", .integer s.lastActive),
    ("dbdir_mtime", .integer s.dbdirMtime),
    ("dbdir_size", .integer s.dbdirSize),
    ("dbdir_dev", .unsigned s.dbdirDev),
    ("dbdir_inode", .unsigned s.dbdirInode),
    ("fsdb_mtime", .integer s.fsdbMtime),
    ("fsdb_size", .integer s.fsdbSize),
    ("fsdb_dev", .unsigned s.fsdbDev),
    ("fsdb_inode", .unsigned s.fsdbInode)]

/-! ### Reading a record -/

/-- `record_fields`, in the order of the set. -/
def recordFields : List String :=
  ["auth_token", "bind_host", "created_at", "dbdir_dev", "dbdir_inode", "dbdir_mtime",
    "dbdir_path", "dbdir_size", "design_db_format", "file_dir", "fsdb_dev", "fsdb_file",
    "fsdb_inode", "fsdb_mtime", "fsdb_size", "generation", "host", "last_active",
    "lifecycle_state", "ownership_token_hash", "port", "server_host", "server_pid", "session_id",
    "socket_path", "transport"]

/-- The largest values of the integer types. -/
def intMax : ℕ := 2 ^ 31 - 1
def longMax : ℕ := 2 ^ 63 - 1
def uint64Max : ℕ := 2 ^ 64 - 1

/-- `read_nonnegative_u64`. -/
def readNonnegativeU64 : Json → Option ℕ
  | .unsigned n => some n
  | .integer n => if n < 0 then none else some n.toNat
  | _ => none

/-- `read_bounded_nonnegative`, for a type with the largest value `maximum`. -/
def readBoundedNonnegative (maximum : ℕ) (value : Json) : Option ℕ :=
  (readNonnegativeU64 value).filter (· ≤ maximum)

/-- A field that has to be a string. -/
def stringField (value : Json) (name : String) : Except String String :=
  match (value.field? name).bind Json.string? with
  | some text => .ok text
  | none => .error ("session field must be string: " ++ name)

/-- A field that has to be a number up to `maximum`, with the message of its refusal. -/
def boundedField (value : Json) (maximum : ℕ) (name message : String) : Except String ℕ :=
  match (value.field? name).bind (readBoundedNonnegative maximum) with
  | some n => .ok n
  | none => .error message

/-- The field that an old record may lack. -/
def designDbFormatField (legacyWithoutFormat : Bool) (value : Json) : Except String String :=
  if legacyWithoutFormat then .ok "" else stringField value "design_db_format"

/-- The texts of a record. -/
def readStrings (legacyWithoutFormat : Bool) (value : Json) : Except String SessionInfo := do
  let sessionId ← stringField value "session_id"
  let generation ← stringField value "generation"
  let lifecycleState ← stringField value "lifecycle_state"
  let transport ← stringField value "transport"
  let socketPath ← stringField value "socket_path"
  let fileDir ← stringField value "file_dir"
  let host ← stringField value "host"
  let bindHost ← stringField value "bind_host"
  let serverHost ← stringField value "server_host"
  let authToken ← stringField value "auth_token"
  let ownershipTokenHash ← stringField value "ownership_token_hash"
  let dbdirPath ← stringField value "dbdir_path"
  let fsdbFile ← stringField value "fsdb_file"
  let designDbFormat ← designDbFormatField legacyWithoutFormat value
  return {
    sessionId, generation, lifecycleState := .ofText lifecycleState, transport, socketPath,
    fileDir, host, bindHost, serverHost, authToken, ownershipTokenHash, dbdirPath, fsdbFile,
    designDbFormat }

/-- The numbers of a record, put into the record with its texts. -/
def readNumbers (value : Json) (s : SessionInfo) : Except String SessionInfo := do
  let port ← boundedField value 65535 "port" "session port must be in range 0..65535"
  let serverPid ← boundedField value intMax "server_pid" "session server_pid is out of range"
  let createdAt ← boundedField value longMax "created_at" "session created_at is out of range"
  let lastActive ← boundedField value longMax "last_active" "session last_active is out of range"
  let dbdirMtime ← boundedField value longMax "dbdir_mtime" "session dbdir_mtime is out of range"
  let dbdirSize ← boundedField value longMax "dbdir_size" "session dbdir_size is out of range"
  let dbdirDev ← boundedField value uint64Max "dbdir_dev" "session dbdir_dev is out of range"
  let dbdirInode ←
    boundedField value uint64Max "dbdir_inode" "session dbdir_inode is out of range"
  let fsdbMtime ← boundedField value longMax "fsdb_mtime" "session fsdb_mtime is out of range"
  let fsdbSize ← boundedField value longMax "fsdb_size" "session fsdb_size is out of range"
  let fsdbDev ← boundedField value uint64Max "fsdb_dev" "session fsdb_dev is out of range"
  let fsdbInode ← boundedField value uint64Max "fsdb_inode" "session fsdb_inode is out of range"
  return { s with
    port, serverPid, createdAt, lastActive, dbdirMtime, dbdirSize, dbdirDev, dbdirInode
    fsdbMtime, fsdbSize, fsdbDev, fsdbInode }

/-- A record of the time before `design_db_format`. -/
def isLegacyWithoutFormat (value : Json) : Bool :=
  value.fields.length + 1 = recordFields.length && !value.contains "design_db_format"

/-- The first field that a record lacks. -/
def missingField (value : Json) : Option String :=
  recordFields.find? fun field =>
    !(isLegacyWithoutFormat value && field = "design_db_format") && !value.contains field

/-- The checks on the values of a record that has been read. -/
def invariantError (legacyWithoutFormat : Bool) (s : SessionInfo) : Option String :=
  (firstError [
    (isValidSessionName s.sessionId, "session_id is invalid"),
    (validOptionalSha256 s.ownershipTokenHash,
      "ownership_token_hash must be empty or 64 lowercase hexadecimal characters"),
    (!legacyWithoutFormat || s.dbdirPath = "",
      "legacy design session lacks design_db_format and must be reopened")]).or
  ((validateLifecycleInvariants s).or
    ((validateResourceInvariants s).or (validateTransportInvariants s)))

/-- `session_registry_record_from_json`. -/
def recordFromJson (value : Json) : Except String SessionInfo :=
  if !value.isObject then .error "session record must be an object"
  else if value.fields.length ≠ recordFields.length && !isLegacyWithoutFormat value then
    .error "session record fields do not match schema version 3"
  else
    match missingField value with
    | some field => .error ("session record is missing field: " ++ field)
    | none => do
      let texts ← readStrings (isLegacyWithoutFormat value) value
      let s ← readNumbers value texts
      match invariantError (isLegacyWithoutFormat value) s with
      | some error => .error error
      | none => .ok s

/-! ### Records of the source's types -/

/-- The values of a record fit the types of its fields, and its state is the one of its text. -/
structure SessionInfo.Fits (s : SessionInfo) : Prop where
  state : .ofText s.lifecycleState.text = s.lifecycleState
  port : s.port ≤ intMax
  serverPid : s.serverPid ≤ intMax
  createdAt : s.createdAt ≤ longMax
  lastActive : s.lastActive ≤ longMax
  dbdirMtime : s.dbdirMtime ≤ longMax
  dbdirSize : s.dbdirSize ≤ longMax
  dbdirDev : s.dbdirDev ≤ uint64Max
  dbdirInode : s.dbdirInode ≤ uint64Max
  fsdbMtime : s.fsdbMtime ≤ longMax
  fsdbSize : s.fsdbSize ≤ longMax
  fsdbDev : s.fsdbDev ≤ uint64Max
  fsdbInode : s.fsdbInode ≤ uint64Max

/-- What the registry asks of a record. -/
structure RecordInv (s : SessionInfo) : Prop where
  port : 0 ≤ s.port ∧ s.port ≤ 65535
  serverPid : 0 ≤ s.serverPid
  createdAt : 0 ≤ s.createdAt
  lastActive : 0 ≤ s.lastActive
  dbdirMtime : 0 ≤ s.dbdirMtime
  dbdirSize : 0 ≤ s.dbdirSize
  fsdbMtime : 0 ≤ s.fsdbMtime
  fsdbSize : 0 ≤ s.fsdbSize
  sessionId : isValidSessionName s.sessionId
  ownershipTokenHash : validOptionalSha256 s.ownershipTokenHash
  lifecycle : validateLifecycleInvariants s = none
  resources : validateResourceInvariants s = none
  endpoint : validateTransportInvariants s = none

lemma firstError_nil : firstError [] = none := rfl

lemma firstError_cons (check : Bool × String) (checks : List (Bool × String)) :
    firstError (check :: checks) = if check.1 then firstError checks else some check.2 := by
  rw [firstError, firstError, List.find?_cons]
  cases check.1 <;> rfl

lemma firstError_append (checks rest : List (Bool × String)) :
    firstError (checks ++ rest) = (firstError checks).or (firstError rest) := by
  rw [firstError, firstError, firstError, List.find?_append, Option.map_or]

lemma firstError_eq_none {checks : List (Bool × String)} :
    firstError checks = none ↔ ∀ check ∈ checks, check.1 = true := by
  rw [firstError, Option.map_eq_none_iff, List.find?_eq_none]
  simp

lemma recordError_eq_none {s : SessionInfo} : recordError s = none ↔ RecordInv s := by
  simp only [recordError, Option.or_eq_none_iff, firstError_eq_none, List.forall_mem_cons,
    List.not_mem_nil, false_implies, implies_true, and_true, Bool.and_eq_true, decide_eq_true_eq]
  constructor
  · rintro ⟨⟨hport, hpid, hcreated, hlast, hdbMtime, hdbSize, hfsMtime, hfsSize, hid, hhash⟩,
      hlifecycle, hresources, hendpoint⟩
    exact ⟨hport, hpid, hcreated, hlast, hdbMtime, hdbSize, hfsMtime, hfsSize, hid, hhash,
      hlifecycle, hresources, hendpoint⟩
  · rintro ⟨hport, hpid, hcreated, hlast, hdbMtime, hdbSize, hfsMtime, hfsSize, hid, hhash,
      hlifecycle, hresources, hendpoint⟩
    exact ⟨⟨hport, hpid, hcreated, hlast, hdbMtime, hdbSize, hfsMtime, hfsSize, hid, hhash⟩,
      hlifecycle, hresources, hendpoint⟩

/-! ### Reading a written record -/

section Written

variable {s : SessionInfo}

lemma boundedField_integer {value : Json} {maximum : ℕ} {name message : String} {n : ℤ}
    (hfield : value.field? name = some (.integer n)) :
    boundedField value maximum name message =
      if 0 ≤ n ∧ n ≤ maximum then .ok n.toNat else .error message := by
  rw [boundedField, hfield, Option.bind_some, readBoundedNonnegative, readNonnegativeU64]
  by_cases hn : 0 ≤ n
  · have hle : n.toNat ≤ maximum ↔ n ≤ maximum := Int.toNat_le
    by_cases hmax : n ≤ maximum
    · simp [hn, not_lt.2 hn, Option.filter, hle, hmax]
    · simp [hn, not_lt.2 hn, Option.filter, hle, hmax]
  · simp [hn, not_le.1 hn]

lemma boundedField_unsigned {value : Json} {maximum : ℕ} {name message : String} {n : ℕ}
    (hfield : value.field? name = some (.unsigned n)) (hmax : n ≤ maximum) :
    boundedField value maximum name message = .ok n := by
  rw [boundedField, hfield, Option.bind_some, readBoundedNonnegative, readNonnegativeU64]
  simp [Option.filter, hmax]

/-- The texts of a written record are the texts of the record. -/
lemma readStrings_recordToJson (hstate : .ofText s.lifecycleState.text = s.lifecycleState) :
    readStrings false (recordToJson s) =
      .ok { s with
        port := 0, serverPid := 0, createdAt := 0, lastActive := 0, dbdirMtime := 0
        dbdirSize := 0, dbdirDev := 0, dbdirInode := 0, fsdbMtime := 0, fsdbSize := 0
        fsdbDev := 0, fsdbInode := 0 } := by
  have hread : readStrings false (recordToJson s) =
      .ok { s with
        lifecycleState := .ofText s.lifecycleState.text
        port := 0, serverPid := 0, createdAt := 0, lastActive := 0, dbdirMtime := 0
        dbdirSize := 0, dbdirDev := 0, dbdirInode := 0, fsdbMtime := 0, fsdbSize := 0
        fsdbDev := 0, fsdbInode := 0 } := rfl
  rw [hread, hstate]

lemma recordToJson_complete (s : SessionInfo) :
    (recordToJson s).fields.length = recordFields.length ∧
      isLegacyWithoutFormat (recordToJson s) = false ∧ missingField (recordToJson s) = none := by
  exact ⟨rfl, rfl, rfl⟩

/-- The checks on the numbers of a record. -/
def numberChecks (s : SessionInfo) : List (Bool × String) := [
  (0 ≤ s.port && s.port ≤ 65535, "session port must be in range 0..65535"),
  (0 ≤ s.serverPid, "session server_pid is out of range"),
  (0 ≤ s.createdAt, "session created_at is out of range"),
  (0 ≤ s.lastActive, "session last_active is out of range"),
  (0 ≤ s.dbdirMtime, "session dbdir_mtime is out of range"),
  (0 ≤ s.dbdirSize, "session dbdir_size is out of range"),
  (0 ≤ s.fsdbMtime, "session fsdb_mtime is out of range"),
  (0 ≤ s.fsdbSize, "session fsdb_size is out of range")]

/-- A value, unless one of the checks fails. -/
def checked {α : Type} (checks : List (Bool × String)) (value : α) : Except String α :=
  match firstError checks with
  | some error => .error error
  | none => .ok value

/-- Reading a number is a check before the rest is read. -/
lemma boundedField_bind {α : Type} {value : Json} {maximum : ℕ} {name message : String} {n : ℤ}
    {check : Bool} {checks : List (Bool × String)} {f : ℕ → Except String α} {result : α}
    (hfield : value.field? name = some (.integer n)) (hcheck : check ↔ 0 ≤ n ∧ n ≤ maximum)
    (hrest : 0 ≤ n → f n.toNat = checked checks result) :
    (boundedField value maximum name message >>= f) =
      checked ((check, message) :: checks) result := by
  rw [boundedField_integer hfield, checked, firstError_cons]
  by_cases h : 0 ≤ n ∧ n ≤ maximum
  · rw [if_pos h, if_pos (hcheck.2 h)]
    exact hrest h.1
  · rw [if_neg h, if_neg (mt hcheck.1 h)]
    rfl

/-- The numbers of a written record are read back if none of them is refused. -/
lemma readNumbers_recordToJson (hfits : s.Fits) (texts : SessionInfo) :
    readNumbers (recordToJson s) texts = checked (numberChecks s) { texts with
      port := s.port, serverPid := s.serverPid, createdAt := s.createdAt
      lastActive := s.lastActive, dbdirMtime := s.dbdirMtime, dbdirSize := s.dbdirSize
      dbdirDev := s.dbdirDev, dbdirInode := s.dbdirInode, fsdbMtime := s.fsdbMtime
      fsdbSize := s.fsdbSize, fsdbDev := s.fsdbDev, fsdbInode := s.fsdbInode } := by
  have hsigned : ∀ {n : ℤ} {maximum : ℕ}, n ≤ maximum → (decide (0 ≤ n) ↔ 0 ≤ n ∧ n ≤ maximum) := by
    intro n maximum hmax
    simp [hmax]
  rw [readNumbers]
  refine boundedField_bind rfl (by simp) fun hport => ?_
  refine boundedField_bind rfl (hsigned hfits.serverPid) fun hpid => ?_
  refine boundedField_bind rfl (hsigned hfits.createdAt) fun hcreated => ?_
  refine boundedField_bind rfl (hsigned hfits.lastActive) fun hlast => ?_
  refine boundedField_bind rfl (hsigned hfits.dbdirMtime) fun hdbMtime => ?_
  refine boundedField_bind rfl (hsigned hfits.dbdirSize) fun hdbSize => ?_
  rw [boundedField_unsigned rfl hfits.dbdirDev, boundedField_unsigned rfl hfits.dbdirInode]
  refine boundedField_bind rfl (hsigned hfits.fsdbMtime) fun hfsMtime => ?_
  refine boundedField_bind rfl (hsigned hfits.fsdbSize) fun hfsSize => ?_
  rw [boundedField_unsigned rfl hfits.fsdbDev, boundedField_unsigned rfl hfits.fsdbInode]
  show Except.ok _ = Except.ok _
  simp only [Int.toNat_of_nonneg hport, Int.toNat_of_nonneg hpid, Int.toNat_of_nonneg hcreated,
    Int.toNat_of_nonneg hlast, Int.toNat_of_nonneg hdbMtime, Int.toNat_of_nonneg hdbSize,
    Int.toNat_of_nonneg hfsMtime, Int.toNat_of_nonneg hfsSize]

lemma recordError_eq (s : SessionInfo) :
    recordError s = (firstError (numberChecks s)).or (invariantError false s) := by
  -- both check the texts and the invariants, and one of them also that a format is there
  obtain ⟨texts, rest, hrecord, hinvariant⟩ : ∃ texts rest,
      recordError s = (firstError (numberChecks s ++ texts)).or rest ∧
      invariantError false s = (firstError (texts ++ [(!false || s.dbdirPath = "",
        "legacy design session lacks design_db_format and must be reopened")])).or rest :=
    ⟨[_, _], _, rfl, rfl⟩
  have hformat : ∀ message, firstError [(!false || s.dbdirPath = "", message)] = none := by
    intro message
    rw [firstError_cons, Bool.not_false, Bool.true_or, if_pos rfl, firstError_nil]
  rw [hrecord, hinvariant, firstError_append, firstError_append, hformat, Option.or_none,
    Option.or_assoc]

/-- What the reader makes of a written record: it gives the record back, or refuses it with the
message that the registry expects. -/
theorem recordFromJson_recordToJson (hfits : s.Fits) :
    recordFromJson (recordToJson s) =
      match recordError s with
      | some error => .error error
      | none => .ok s := by
  obtain ⟨hlength, hlegacy, hmissing⟩ := recordToJson_complete s
  have hobject : (recordToJson s).isObject = true := rfl
  rw [recordFromJson, hobject, hlength, hmissing, hlegacy, readStrings_recordToJson hfits.state]
  show (readNumbers (recordToJson s) _ >>= _) = _
  rw [readNumbers_recordToJson hfits, recordError_eq, checked]
  cases firstError (numberChecks s) with
  | some error => rfl
  | none => rfl

end Written

/-! ### Reading any record -/

lemma boundedField_le {value : Json} {maximum n : ℕ} {name message : String}
    (h : boundedField value maximum name message = .ok n) : n ≤ maximum := by
  rw [boundedField] at h
  split at h
  · rename_i m hm
    cases h
    obtain ⟨item, -, hread⟩ := Option.bind_eq_some_iff.1 hm
    rw [readBoundedNonnegative, Option.filter_eq_some_iff] at hread
    exact of_decide_eq_true hread.2
  · cases h

/-- The state of a record that has been read is the one of its text. -/
lemma readStrings_state {legacy : Bool} {value : Json} {s : SessionInfo}
    (h : readStrings legacy value = .ok s) :
    .ofText s.lifecycleState.text = s.lifecycleState := by
  rw [readStrings] at h
  obtain ⟨sessionId, -, h⟩ := exists_of_bind_eq_ok h
  obtain ⟨generation, -, h⟩ := exists_of_bind_eq_ok h
  obtain ⟨lifecycleState, -, h⟩ := exists_of_bind_eq_ok h
  obtain ⟨transport, -, h⟩ := exists_of_bind_eq_ok h
  obtain ⟨socketPath, -, h⟩ := exists_of_bind_eq_ok h
  obtain ⟨fileDir, -, h⟩ := exists_of_bind_eq_ok h
  obtain ⟨host, -, h⟩ := exists_of_bind_eq_ok h
  obtain ⟨bindHost, -, h⟩ := exists_of_bind_eq_ok h
  obtain ⟨serverHost, -, h⟩ := exists_of_bind_eq_ok h
  obtain ⟨authToken, -, h⟩ := exists_of_bind_eq_ok h
  obtain ⟨ownershipTokenHash, -, h⟩ := exists_of_bind_eq_ok h
  obtain ⟨dbdirPath, -, h⟩ := exists_of_bind_eq_ok h
  obtain ⟨fsdbFile, -, h⟩ := exists_of_bind_eq_ok h
  obtain ⟨designDbFormat, -, h⟩ := exists_of_bind_eq_ok h
  obtain rfl := Except.ok.inj h
  show LifecycleState.ofText (LifecycleState.ofText lifecycleState).text = _
  rw [LifecycleState.text_ofText]

/-- The numbers of a record that has been read are not negative and fit their types. -/
lemma readNumbers_fits {value : Json} {texts s : SessionInfo}
    (h : readNumbers value texts = .ok s)
    (hstate : .ofText texts.lifecycleState.text = texts.lifecycleState) :
    s.Fits ∧ firstError (numberChecks s) = none := by
  rw [readNumbers] at h
  obtain ⟨port, hport, h⟩ := exists_of_bind_eq_ok h
  obtain ⟨serverPid, hpid, h⟩ := exists_of_bind_eq_ok h
  obtain ⟨createdAt, hcreated, h⟩ := exists_of_bind_eq_ok h
  obtain ⟨lastActive, hlast, h⟩ := exists_of_bind_eq_ok h
  obtain ⟨dbdirMtime, hdbMtime, h⟩ := exists_of_bind_eq_ok h
  obtain ⟨dbdirSize, hdbSize, h⟩ := exists_of_bind_eq_ok h
  obtain ⟨dbdirDev, hdbDev, h⟩ := exists_of_bind_eq_ok h
  obtain ⟨dbdirInode, hdbInode, h⟩ := exists_of_bind_eq_ok h
  obtain ⟨fsdbMtime, hfsMtime, h⟩ := exists_of_bind_eq_ok h
  obtain ⟨fsdbSize, hfsSize, h⟩ := exists_of_bind_eq_ok h
  obtain ⟨fsdbDev, hfsDev, h⟩ := exists_of_bind_eq_ok h
  obtain ⟨fsdbInode, hfsInode, h⟩ := exists_of_bind_eq_ok h
  obtain rfl := Except.ok.inj h
  have hsmall : port ≤ 65535 := boundedField_le hport
  refine ⟨⟨hstate, ?_, Int.ofNat_le.2 (boundedField_le hpid),
    Int.ofNat_le.2 (boundedField_le hcreated), Int.ofNat_le.2 (boundedField_le hlast),
    Int.ofNat_le.2 (boundedField_le hdbMtime), Int.ofNat_le.2 (boundedField_le hdbSize),
    boundedField_le hdbDev, boundedField_le hdbInode, Int.ofNat_le.2 (boundedField_le hfsMtime),
    Int.ofNat_le.2 (boundedField_le hfsSize), boundedField_le hfsDev, boundedField_le hfsInode⟩,
    ?_⟩
  · show (port : ℤ) ≤ intMax
    rw [intMax]
    omega
  · refine firstError_eq_none.2 ?_
    simp [numberChecks, hsmall]

/-- A session without the legacy check passes the other checks too. -/
lemma invariantError_legacy {legacy : Bool} {s : SessionInfo}
    (h : invariantError legacy s = none) : invariantError false s = none := by
  rw [invariantError, Option.or_eq_none_iff, firstError_eq_none] at h ⊢
  refine ⟨?_, h.2⟩
  intro check hcheck
  simp only [List.mem_cons, List.not_mem_nil, or_false] at hcheck
  rcases hcheck with rfl | rfl | rfl
  · exact h.1 _ (by simp)
  · exact h.1 _ (by simp)
  · rfl

/-- An accepted record fits the types of its fields and satisfies the invariants. -/
lemma recordInv_of_recordFromJson {value : Json} {s : SessionInfo}
    (h : recordFromJson value = .ok s) : s.Fits ∧ RecordInv s := by
  rw [recordFromJson] at h
  split at h
  · cases h
  · split at h
    · cases h
    · split at h
      · cases h
      · obtain ⟨texts, htexts, h⟩ := exists_of_bind_eq_ok h
        obtain ⟨t, hnumbers, h⟩ := exists_of_bind_eq_ok h
        split at h
        · cases h
        · rename_i hinvariant
          obtain rfl := Except.ok.inj h
          obtain ⟨hfits, hchecks⟩ := readNumbers_fits hnumbers (readStrings_state htexts)
          refine ⟨hfits, recordError_eq_none.1 ?_⟩
          rw [recordError_eq, hchecks, invariantError_legacy hinvariant]
          rfl

/-- A written record that satisfies the invariants is read back. -/
lemma recordFromJson_of_recordInv {s : SessionInfo} (hfits : s.Fits) (hinv : RecordInv s) :
    recordFromJson (recordToJson s) = .ok s := by
  rw [recordFromJson_recordToJson hfits, recordError_eq_none.2 hinv]

/-- Records survive their encoding: one that satisfies the invariants is read back as it was
written, and everything that is read satisfies them. -/
theorem recordJson_roundTrip :
    (∀ s : SessionInfo, s.Fits → RecordInv s → recordFromJson (recordToJson s) = .ok s) ∧
    ∀ value s, recordFromJson value = .ok s →
      s.Fits ∧ RecordInv s ∧ recordFromJson (recordToJson s) = .ok s := by
  refine ⟨fun s => recordFromJson_of_recordInv, ?_⟩
  intro value s hread
  obtain ⟨hfits, hinv⟩ := recordInv_of_recordFromJson hread
  exact ⟨hfits, hinv, recordFromJson_of_recordInv hfits hinv⟩

lemma waveSession_fits : (waveSession 'a').Fits := by
  constructor <;> decide

/-- The record of a session on a waveform is read back. -/
theorem waveSession_roundTrip : (waveSession 'a').Fits ∧ RecordInv (waveSession 'a') ∧
    recordFromJson (recordToJson (waveSession 'a')) = .ok (waveSession 'a') := by
  have hinv : RecordInv (waveSession 'a') := recordError_eq_none.1 (by decide +kernel)
  exact ⟨waveSession_fits, hinv, recordJson_roundTrip.1 _ (waveSession_fits) hinv⟩

/-- A session on a waveform file from before 1970. -/
def oldWaveSession : SessionInfo := { waveSession 'a' with fsdbMtime := -1 }

/-- Its endpoint, generation, state and pid are as the registry wants them, but the record that
is written for it cannot be read. -/
theorem oldWaveSession_not_read : ¬ ∀ s : SessionInfo, s.Fits →
    validateTransportInvariants s = none → validateLifecycleInvariants s = none →
    recordFromJson (recordToJson s) = .ok s := by
  intro hall
  have hfits : oldWaveSession.Fits := by constructor <;> decide
  have hread := hall oldWaveSession hfits (by decide +kernel) (by decide +kernel)
  obtain ⟨-, hinv⟩ := recordInv_of_recordFromJson hread
  exact absurd hinv.fsdbMtime (by decide)

end XdebugFst.Session
