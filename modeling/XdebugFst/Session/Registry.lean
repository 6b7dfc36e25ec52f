import Mathlib
import XdebugFst.Lib.Runs

/-!
# The session registry

The per-session records of `session/session_registry.cpp`. A session id has a directory, its
record is the file `state.json` in it, and the time of its last use is the time stamp of the
file `activity` beside it. Two ids may have the same directory.

Every call reads the record first. What the file system may answer on the way is the argument
`io` of a call, so that a call is one step of the registry with a definite outcome. Writing a
file ends with a rename and a sync of the directory, and removing a record goes on after the
record is gone, so a call can fail and still have changed the registry.
-/

namespace XdebugFst.Session

/-- `lifecycle_state` of a record. -/
inductive LifecycleState
  | opening | active | cleanupFailed
  | other (text : String)
  deriving DecidableEq, Repr

/-- `SessionInfo`. -/
structure SessionInfo where
  sessionId : String
  /-- One incarnation of the session id. -/
  generation : String
  lifecycleState : LifecycleState
  transport : String
  socketPath : String := ""
  fileDir : String := ""
  host : String := ""
  bindHost : String := ""
  port : ℤ := 0
  serverHost : String := ""
  authToken : String := ""
  ownershipTokenHash : String := ""
  serverPid : ℤ := 0
  createdAt : ℤ := 0
  lastActive : ℤ := 0
  dbdirPath : String := ""
  designDbFormat : String := ""
  dbdirMtime : ℤ := 0
  dbdirSize : ℤ := 0
  dbdirDev : ℕ := 0
  dbdirInode : ℕ := 0
  fsdbFile : String := ""
  fsdbMtime : ℤ := 0
  fsdbSize : ℤ := 0
  fsdbDev : ℕ := 0
  fsdbInode : ℕ := 0
  deriving DecidableEq, Repr

/-! ### Checking a record -/

def isAsciiLetter (c : Char) : Bool := 'A' ≤ c && c ≤ 'Z' || 'a' ≤ c && c ≤ 'z'

/-- `is_valid_session_name`. -/
def isValidSessionName (name : String) : Bool :=
  name.toList.length ≤ 64 && name.toList.head?.any isAsciiLetter &&
    name.toList.all fun c => isAsciiLetter c || '0' ≤ c && c ≤ '9' || c = '_'

/-- Sixty-four lowercase hexadecimal digits. -/
def isHex256 (text : String) : Bool :=
  text.toList.length = 64 && text.toList.all fun c => '0' ≤ c && c ≤ '9' || 'a' ≤ c && c ≤ 'f'

/-- `valid_generation`. -/
def validGeneration (generation : String) : Bool := isHex256 generation

/-- `valid_optional_sha256`. -/
def validOptionalSha256 (digest : String) : Bool := digest = "" || isHex256 digest

/-- The message of the first check that fails. -/
def firstError (checks : List (Bool × String)) : Option String :=
  (checks.find? fun check => !check.1).map Prod.snd

/-- `validate_lifecycle_invariants`. -/
def validateLifecycleInvariants (s : SessionInfo) : Option String :=
  firstError [
    (validGeneration s.generation, "generation must be 64 lowercase hexadecimal characters"),
    (s.lifecycleState = .opening || s.lifecycleState = .active ||
        s.lifecycleState = .cleanupFailed,
      "lifecycle_state must be opening, active, or cleanup_failed"),
    (s.lifecycleState ≠ .active || 0 < s.serverPid,
      "active session requires a positive server_pid")]

/-- `validate_resource_invariants`. -/
def validateResourceInvariants (s : SessionInfo) : Option String :=
  firstError [
    (s.dbdirPath ≠ "" || s.fsdbFile ≠ "", "session requires dbdir_path or fsdb_file"),
    (s.dbdirPath ≠ "" || s.designDbFormat = "",
      "session without dbdir_path must not carry design_db_format"),
    (s.dbdirPath = "" || s.designDbFormat = "xdd-so" || s.designDbFormat = "binary-v1",
      "design session requires design_db_format xdd-so or binary-v1"),
    (s.dbdirPath ≠ "" ||
        s.dbdirMtime = 0 && s.dbdirSize = 0 && s.dbdirDev = 0 && s.dbdirInode = 0,
      "session without dbdir_path must not carry dbdir fingerprint fields"),
    (s.fsdbFile ≠ "" || s.fsdbMtime = 0 && s.fsdbSize = 0 && s.fsdbDev = 0 && s.fsdbInode = 0,
      "session without fsdb_file must not carry fsdb fingerprint fields")]

/-- `validate_transport_invariants`. -/
def validateTransportInvariants (s : SessionInfo) : Option String :=
  if s.serverHost = "" then some "session requires nonempty server_host"
  else if s.transport = "uds" then
    firstError [
      (s.socketPath ≠ "", "uds session requires socket_path"),
      (s.fileDir = "" && s.host = "" && s.bindHost = "" && s.port = 0 && s.authToken = "",
        "uds session forbids file_dir, host, bind_host, port, and auth_token")]
  else if s.transport = "tcp" then
    firstError [
      (s.host ≠ "" && s.bindHost ≠ "" && s.authToken ≠ "" &&
          (0 < s.port && s.port ≤ 65535 || s.lifecycleState ≠ .active && s.port = 0),
        "tcp session requires host, bind_host, auth_token, and an active port in 1..65535"),
      (s.socketPath = "" && s.fileDir = "", "tcp session forbids socket_path and file_dir")]
  else if s.transport = "file" then
    firstError [
      (s.fileDir ≠ "", "file session requires file_dir"),
      (s.socketPath = "" && s.host = "" && s.bindHost = "" && s.port = 0 && s.authToken = "",
        "file session forbids socket_path, host, bind_host, port, and auth_token")]
  else some "transport must be uds, tcp, or file"

/-- `session_registry_record_from_json` on a record that `session_registry_record_to_json` has
written: all its fields are there, so only their values can be refused. -/
def recordError (s : SessionInfo) : Option String :=
  (firstError [
    (0 ≤ s.port && s.port ≤ 65535, "session port must be in range 0..65535"),
    (0 ≤ s.serverPid, "session server_pid is out of range"),
    (0 ≤ s.createdAt, "session created_at is out of range"),
    (0 ≤ s.lastActive, "session last_active is out of range"),
    (0 ≤ s.dbdirMtime, "session dbdir_mtime is out of range"),
    (0 ≤ s.dbdirSize, "session dbdir_size is out of range"),
    (0 ≤ s.fsdbMtime, "session fsdb_mtime is out of range"),
    (0 ≤ s.fsdbSize, "session fsdb_size is out of range"),
    (isValidSessionName s.sessionId, "session_id is invalid"),
    (validOptionalSha256 s.ownershipTokenHash,
      "ownership_token_hash must be empty or 64 lowercase hexadecimal characters")]).or
  ((validateLifecycleInvariants s).or
    ((validateResourceInvariants s).or (validateTransportInvariants s)))

/-! ### Calls -/

inductive SessionRegistryStatus
  | ok | notFound | conflict | generationMismatch | invalid | ioError
  deriving DecidableEq, Repr

structure SessionRegistryResult where
  status : SessionRegistryStatus := .ok
  message : String := ""
  deriving DecidableEq, Repr

/-- How `write_atomic_file` ends. The file is in place from the rename on, and the sync of its
directory comes after that. -/
inductive WriteIo
  | written | lost | unsynced
  deriving DecidableEq, Repr

/-- How setting the time stamp of the activity marker ends. A failure may leave a new marker
with a time stamp of its own. -/
inductive TouchIo
  | touched | notOpened
  | failed (mtime : Option ℤ)
  deriving DecidableEq, Repr

/-- How `check_legacy_registry` ends: there is no old registry file with sessions, or the call
is refused with a message. -/
inductive LegacyIo
  | absent
  | ioError (message : String)
  | invalid (message : String)
  deriving DecidableEq, Repr

/-- What the file system answers during one call. -/
structure CallIo where
  legacy : LegacyIo := .absent
  /-- The record can be opened, or is found to be absent. -/
  readable : Bool := true
  write : WriteIo := .written
  touch : TouchIo := .touched
  /-- The history directory and the archived record are there. -/
  historyReady : Bool := true
  archived : Bool := true
  stateUnlinked : Bool := true
  activityUnlinked : Bool := true
  directorySynced : Bool := true

/-- The records and activity markers by directory. -/
@[ext]
structure Registry where
  record : String → Option SessionInfo
  activity : String → Option ℤ

namespace Registry

/-- No session. -/
def empty : Registry where
  record _ := none
  activity _ := none

def putRecord (r : Registry) (dir : String) (session : SessionInfo) : Registry :=
  { r with record := Function.update r.record dir (some session) }

def eraseRecord (r : Registry) (dir : String) : Registry :=
  { r with record := Function.update r.record dir none }

def setActivity (r : Registry) (dir : String) (mtime : Option ℤ) : Registry :=
  { r with activity := Function.update r.activity dir mtime }

@[simp]
lemma setActivity_record (r : Registry) (dir : String) (mtime : Option ℤ) :
    (r.setActivity dir mtime).record = r.record := rfl

lemma setActivity_activity (r : Registry) (dir dir' : String) (mtime : Option ℤ) :
    (r.setActivity dir mtime).activity dir' = if dir' = dir then mtime else r.activity dir' := by
  exact Function.update_apply r.activity dir mtime dir'

lemma putRecord_record (r : Registry) (dir dir' : String) (session : SessionInfo) :
    (r.putRecord dir session).record dir' = if dir' = dir then some session else r.record dir' := by
  exact Function.update_apply r.record dir (some session) dir'

lemma eraseRecord_record (r : Registry) (dir dir' : String) :
    (r.eraseRecord dir).record dir' = if dir' = dir then none else r.record dir' := by
  exact Function.update_apply r.record dir none dir'

end Registry

section Calls

variable (dirName : String → String) (io : CallIo) (r : Registry)

/-- `read_one`. -/
def readOne (sessionId : String) : Except SessionRegistryResult SessionInfo :=
  match io.legacy with
  | .ioError message => .error ⟨.ioError, message⟩
  | .invalid message => .error ⟨.invalid, message⟩
  | .absent =>
    if !io.readable then .error ⟨.ioError, "cannot read per-session state"⟩
    else
      match r.record (dirName sessionId) with
      | none => .error ⟨.notFound, "session generation is not in registry"⟩
      | some session =>
        match recordError session with
        | some error => .error ⟨.invalid, "per-session state is invalid: " ++ error⟩
        | none =>
          if session.sessionId ≠ sessionId then
            .error ⟨.invalid, "per-session state identity does not match its directory"⟩
          else
            match r.activity (dirName sessionId) with
            | none => .ok session
            | some mtime => .ok { session with lastActive := max session.lastActive mtime }

/-- `write_one`, with the message of its failure. -/
def writeOne (session : SessionInfo) (failure : String) : SessionRegistryResult × Registry :=
  match io.write with
  | .written => ({}, r.putRecord (dirName session.sessionId) session)
  | .lost => (⟨.ioError, failure⟩, r)
  | .unsynced => (⟨.ioError, failure⟩, r.putRecord (dirName session.sessionId) session)

/-- `reserve_opening`. -/
def reserveOpening (session : SessionInfo) : SessionRegistryResult × Registry :=
  if session.lifecycleState ≠ .opening then
    (⟨.invalid, "new session reservation must use lifecycle_state=opening"⟩, r)
  else
    match readOne dirName io r session.sessionId with
    | .ok _ => (⟨.conflict, "session id already has a lifecycle generation"⟩, r)
    | .error refused =>
      if refused.status ≠ .notFound then (refused, r)
      else writeOne dirName io r session "failed to persist opening session reservation"

/-- What `update_opening`, `finalize_opening` and `mark_cleanup_failed` have in common: a record
in a given state replaces the record of its generation. -/
def replaceRecord (state : LifecycleState) (fromOpening : Bool) (session : SessionInfo)
    (expectedGeneration refusal mismatch failure : String) :
    SessionRegistryResult × Registry :=
  if session.lifecycleState ≠ state ∨ session.generation ≠ expectedGeneration then
    (⟨.invalid, refusal⟩, r)
  else
    match readOne dirName io r session.sessionId with
    | .error refused => (refused, r)
    | .ok current =>
      if current.generation ≠ expectedGeneration then (⟨.generationMismatch, mismatch⟩, r)
      else if fromOpening ∧ current.lifecycleState ≠ .opening then
        (⟨.conflict, "opening reservation is no longer opening"⟩, r)
      else writeOne dirName io r session failure

/-- `update_opening`. -/
def updateOpening (session : SessionInfo) (expectedGeneration : String) :
    SessionRegistryResult × Registry :=
  replaceRecord dirName io r .opening true session expectedGeneration
    "opening update requires the expected generation in opening state"
    "opening update no longer matches expected generation"
    "failed to persist opening session evidence"

/-- `finalize_opening`. -/
def finalizeOpening (session : SessionInfo) (expectedGeneration : String) :
    SessionRegistryResult × Registry :=
  replaceRecord dirName io r .active true session expectedGeneration
    "session finalization requires the expected generation in active state"
    "opening reservation no longer matches expected generation"
    "failed to finalize opening session generation"

/-- `mark_cleanup_failed`. -/
def markCleanupFailed (session : SessionInfo) (expectedGeneration : String) :
    SessionRegistryResult × Registry :=
  replaceRecord dirName io r .cleanupFailed false session expectedGeneration
    "cleanup failure must preserve the expected generation"
    "cleanup failure generation no longer matches registry"
    "failed to preserve cleanup failure generation"

/-- `touch_if_generation`. -/
def touchIfGeneration (sessionId expectedGeneration : String) (lastActive : ℤ) :
    SessionRegistryResult × Registry :=
  match readOne dirName io r sessionId with
  | .error refused => (refused, r)
  | .ok current =>
    if current.generation ≠ expectedGeneration then
      (⟨.generationMismatch, "touch generation no longer matches registry"⟩, r)
    else if current.lastActive ≥ lastActive then ({}, r)
    else
      match io.touch with
      | .touched => ({}, r.setActivity (dirName sessionId) (some lastActive))
      | .notOpened => (⟨.ioError, "failed to open session activity marker"⟩, r)
      | .failed mtime => (⟨.ioError, "failed to update session activity marker"⟩,
          r.setActivity (dirName sessionId) mtime)

/-- `remove_if_generation`. The record is gone as soon as its file is unlinked; the activity
marker and the sync come after that. -/
def removeIfGeneration (sessionId expectedGeneration : String) :
    SessionRegistryResult × Registry :=
  match readOne dirName io r sessionId with
  | .error refused => (refused, r)
  | .ok current =>
    let dir := dirName sessionId
    if current.generation ≠ expectedGeneration then
      (⟨.generationMismatch, "remove generation no longer matches registry"⟩, r)
    else if !io.historyReady then (⟨.ioError, "failed to prepare session history"⟩, r)
    else if !io.archived then (⟨.ioError, "failed to archive closed session generation"⟩, r)
    else if !io.stateUnlinked then (⟨.ioError, "failed to retire closed session state"⟩, r)
    else if !io.activityUnlinked then
      (⟨.ioError, "failed to retire session activity marker"⟩, r.eraseRecord dir)
    else if !io.directorySynced then
      (⟨.ioError, "failed to sync retired session state"⟩,
        (r.eraseRecord dir).setActivity dir none)
    else ({}, (r.eraseRecord dir).setActivity dir none)

end Calls

/-- A call that may change the registry. -/
inductive Call
  | reserveOpening (session : SessionInfo)
  | updateOpening (session : SessionInfo) (expectedGeneration : String)
  | finalizeOpening (session : SessionInfo) (expectedGeneration : String)
  | markCleanupFailed (session : SessionInfo) (expectedGeneration : String)
  | touchIfGeneration (sessionId expectedGeneration : String) (lastActive : ℤ)
  | removeIfGeneration (sessionId expectedGeneration : String)
  deriving DecidableEq, Repr

namespace Call

/-- The session id that a call is for. -/
def sessionId : Call → String
  | reserveOpening session => session.sessionId
  | updateOpening session _ => session.sessionId
  | finalizeOpening session _ => session.sessionId
  | markCleanupFailed session _ => session.sessionId
  | touchIfGeneration sessionId _ _ => sessionId
  | removeIfGeneration sessionId _ => sessionId

/-- The generation that a call expects. -/
def expectedGeneration : Call → Option String
  | reserveOpening _ => none
  | updateOpening _ expected => some expected
  | finalizeOpening _ expected => some expected
  | markCleanupFailed _ expected => some expected
  | touchIfGeneration _ expected _ => some expected
  | removeIfGeneration _ expected => some expected

end Call

/-- One call on the registry: its result and the registry after it. -/
def exec (dirName : String → String) (io : CallIo) (r : Registry) :
    Call → SessionRegistryResult × Registry
  | .reserveOpening session => reserveOpening dirName io r session
  | .updateOpening session expected => updateOpening dirName io r session expected
  | .finalizeOpening session expected => finalizeOpening dirName io r session expected
  | .markCleanupFailed session expected => markCleanupFailed dirName io r session expected
  | .touchIfGeneration sessionId expected lastActive =>
      touchIfGeneration dirName io r sessionId expected lastActive
  | .removeIfGeneration sessionId expected => removeIfGeneration dirName io r sessionId expected

/-! ### What a call can do -/

/-- From one state of a record to another without leaving the directory. -/
def LifecycleState.Follows (old new : LifecycleState) : Prop :=
  old = .opening ∧ (new = .opening ∨ new = .active) ∨ new = .cleanupFailed

/-- The changes that a call may make to the registry. -/
inductive CallEffect (dirName : String → String) (r : Registry) : Call → Registry → Prop
  | unchanged (call : Call) : CallEffect dirName r call r
  | reserved {session : SessionInfo} (habsent : r.record (dirName session.sessionId) = none)
      (hopening : session.lifecycleState = .opening) :
      CallEffect dirName r (.reserveOpening session)
        (r.putRecord (dirName session.sessionId) session)
  | replaced {call : Call} {current session : SessionInfo}
      (hid : call.sessionId = session.sessionId)
      (hexpected : call.expectedGeneration = some session.generation)
      (hcurrent : r.record (dirName session.sessionId) = some current)
      (hsame : current.sessionId = session.sessionId)
      (hgeneration : current.generation = session.generation)
      (hstate : current.lifecycleState.Follows session.lifecycleState) :
      CallEffect dirName r call (r.putRecord (dirName session.sessionId) session)
  | touched {sessionId expected : String} {lastActive : ℤ} {current : SessionInfo}
      {mtime : Option ℤ} (hcurrent : r.record (dirName sessionId) = some current)
      (hsame : current.sessionId = sessionId) (hgeneration : current.generation = expected) :
      CallEffect dirName r (.touchIfGeneration sessionId expected lastActive)
        (r.setActivity (dirName sessionId) mtime)
  | removed {sessionId expected : String} {current : SessionInfo} {mtime : Option ℤ}
      (hcurrent : r.record (dirName sessionId) = some current)
      (hsame : current.sessionId = sessionId) (hgeneration : current.generation = expected) :
      CallEffect dirName r (.removeIfGeneration sessionId expected)
        ((r.eraseRecord (dirName sessionId)).setActivity (dirName sessionId) mtime)

section Effects

variable {dirName : String → String} {io : CallIo} {r : Registry}

/-- A record that `read_one` returns is stored under its own id, and the time of its last use is
the later one of the record and the activity marker. -/
lemma readOne_eq_ok {sessionId : String} {current : SessionInfo}
    (h : readOne dirName io r sessionId = .ok current) :
    ∃ stored, r.record (dirName sessionId) = some stored ∧ stored.sessionId = sessionId ∧
      current = match r.activity (dirName sessionId) with
        | none => stored
        | some mtime => { stored with lastActive := max stored.lastActive mtime } := by
  rw [readOne] at h
  split at h
  · cases h
  · cases h
  · split at h
    · cases h
    · split at h
      · cases h
      · rename_i stored hstored
        split at h
        · cases h
        · split at h
          · cases h
          · rename_i hid
            refine ⟨stored, hstored, of_not_not hid, ?_⟩
            split at h
            · cases h
              rfl
            · cases h
              rfl

/-- Only the time of the last use may come from the activity marker. -/
lemma readOne_ok {sessionId : String} {current : SessionInfo}
    (h : readOne dirName io r sessionId = .ok current) :
    ∃ stored, r.record (dirName sessionId) = some stored ∧ stored.sessionId = sessionId ∧
      current.generation = stored.generation ∧
      current.lifecycleState = stored.lifecycleState := by
  obtain ⟨stored, hstored, hsame, rfl⟩ := readOne_eq_ok h
  refine ⟨stored, hstored, hsame, ?_⟩
  cases r.activity (dirName sessionId) <;> exact ⟨rfl, rfl⟩

lemma readOne_notFound {sessionId : String} {refused : SessionRegistryResult}
    (h : readOne dirName io r sessionId = .error refused) (hstatus : refused.status = .notFound) :
    r.record (dirName sessionId) = none := by
  rw [readOne] at h
  split at h
  · cases h
    cases hstatus
  · cases h
    cases hstatus
  · split at h
    · cases h
      cases hstatus
    · split at h
      · assumption
      · split at h
        · cases h
          cases hstatus
        · split at h
          · cases h
            cases hstatus
          · split at h
            · cases h
            · cases h

/-- `read_one` does not refuse with success. -/
lemma readOne_error_ne_ok {sessionId : String} {refused : SessionRegistryResult}
    (h : readOne dirName io r sessionId = .error refused) : refused.status ≠ .ok := by
  intro hstatus
  rw [readOne] at h
  split at h
  · cases h
    cases hstatus
  · cases h
    cases hstatus
  · split at h
    · cases h
      cases hstatus
    · split at h
      · cases h
        cases hstatus
      · split at h
        · cases h
          cases hstatus
        · split at h
          · cases h
            cases hstatus
          · split at h
            · cases h
            · cases h

lemma CallEffect.writeOne {call : Call} {session : SessionInfo} {failure : String}
    (h : CallEffect dirName r call (r.putRecord (dirName session.sessionId) session)) :
    CallEffect dirName r call (Session.writeOne dirName io r session failure).2 := by
  rw [Session.writeOne]
  cases io.write with
  | written => exact h
  | lost => exact .unchanged call
  | unsynced => exact h

/-- What the three replacing calls can do. -/
lemma CallEffect.replaceRecord {call : Call} {state : LifecycleState} {fromOpening : Bool}
    {session : SessionInfo} {expected refusal mismatch failure : String}
    (hid : call.sessionId = session.sessionId) (hexpected : call.expectedGeneration = some expected)
    (hstate : ∀ old, (fromOpening = true → old = .opening) → LifecycleState.Follows old state) :
    CallEffect dirName r call (Session.replaceRecord dirName io r state fromOpening session expected
      refusal mismatch failure).2 := by
  rw [Session.replaceRecord]
  split
  · exact .unchanged call
  · rename_i hsession
    obtain ⟨hlifecycle, hgeneration⟩ := not_or.1 hsession
    rw [not_not] at hlifecycle hgeneration
    split
    · exact .unchanged call
    · rename_i current hread
      obtain ⟨stored, hstored, hsame, hgen, hlife⟩ := readOne_ok hread
      split
      · exact .unchanged call
      · rename_i hmatch
        split
        · exact .unchanged call
        · rename_i hopening
          refine CallEffect.writeOne (.replaced hid (hgeneration ▸ hexpected) hstored hsame ?_ ?_)
          · rw [← hgen, of_not_not hmatch, hgeneration]
          · rw [hlifecycle]
            refine hstate _ fun hfrom => ?_
            rw [← hlife]
            exact of_not_not fun hne => hopening ⟨hfrom, hne⟩

lemma CallEffect.reserveOpening (dirName : String → String) (io : CallIo) (r : Registry)
    (session : SessionInfo) : CallEffect dirName r (.reserveOpening session)
      (Session.reserveOpening dirName io r session).2 := by
  rw [Session.reserveOpening]
  split
  · exact .unchanged _
  · rename_i hopening
    split
    · exact .unchanged _
    · rename_i refused hread
      split
      · exact .unchanged _
      · rename_i hstatus
        exact .writeOne (.reserved (readOne_notFound hread (of_not_not hstatus))
          (of_not_not hopening))

lemma CallEffect.touchIfGeneration (dirName : String → String) (io : CallIo) (r : Registry)
    (sessionId expected : String) (lastActive : ℤ) :
    CallEffect dirName r (.touchIfGeneration sessionId expected lastActive)
      (Session.touchIfGeneration dirName io r sessionId expected lastActive).2 := by
  rw [Session.touchIfGeneration]
  split
  · exact .unchanged _
  · rename_i current hread
    obtain ⟨stored, hstored, hsame, hgen, -⟩ := readOne_ok hread
    split
    · exact .unchanged _
    · rename_i hmatch
      have hgeneration : stored.generation = expected := hgen ▸ of_not_not hmatch
      split
      · exact .unchanged _
      · cases io.touch with
        | touched => exact .touched hstored hsame hgeneration
        | notOpened => exact .unchanged _
        | failed mtime => exact .touched hstored hsame hgeneration

lemma CallEffect.removeIfGeneration (dirName : String → String) (io : CallIo) (r : Registry)
    (sessionId expected : String) :
    CallEffect dirName r (.removeIfGeneration sessionId expected)
      (Session.removeIfGeneration dirName io r sessionId expected).2 := by
  rw [Session.removeIfGeneration]
  split
  · exact .unchanged _
  · rename_i current hread
    obtain ⟨stored, hstored, hsame, hgen, -⟩ := readOne_ok hread
    dsimp only
    split
    · exact .unchanged _
    · rename_i hmatch
      have hgeneration : stored.generation = expected := hgen ▸ of_not_not hmatch
      -- when the marker is left over, its directory keeps the time stamp it had
      have hkept : r.eraseRecord (dirName sessionId) =
          (r.eraseRecord (dirName sessionId)).setActivity (dirName sessionId)
            (r.activity (dirName sessionId)) := by
        ext1
        · rfl
        · exact (Function.update_eq_self _ _).symm
      split
      · exact .unchanged _
      · split
        · exact .unchanged _
        · split
          · exact .unchanged _
          · split
            · show CallEffect dirName r _ (r.eraseRecord (dirName sessionId))
              rw [hkept]
              exact .removed hstored hsame hgeneration
            · split
              · exact .removed hstored hsame hgeneration
              · exact .removed hstored hsame hgeneration

/-- Every call makes one of the listed changes. -/
theorem exec_effect (dirName : String → String) (io : CallIo) (r : Registry) (call : Call) :
    CallEffect dirName r call (exec dirName io r call).2 := by
  cases call with
  | reserveOpening session => exact .reserveOpening dirName io r session
  | updateOpening session expected =>
      exact .replaceRecord rfl rfl fun old hold => Or.inl ⟨hold rfl, Or.inl rfl⟩
  | finalizeOpening session expected =>
      exact .replaceRecord rfl rfl fun old hold => Or.inl ⟨hold rfl, Or.inr rfl⟩
  | markCleanupFailed session expected =>
      exact .replaceRecord rfl rfl fun old _ => Or.inr rfl
  | touchIfGeneration sessionId expected lastActive =>
      exact .touchIfGeneration dirName io r sessionId expected lastActive
  | removeIfGeneration sessionId expected =>
      exact .removeIfGeneration dirName io r sessionId expected

end Effects

end XdebugFst.Session
