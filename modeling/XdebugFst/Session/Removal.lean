import Mathlib
import XdebugFst.Session.Record

/-!
# Removals that fail

`remove_if_generation` archives a record, unlinks it, unlinks its activity marker and syncs the
directory, and it returns an error as soon as one of these fails. The service turns every failure
of a removal into the report that the evidence was retained. This is true up to the unlinking of
the record: `keepsEvidence_iff` says for which answers of the file system a removal that fails
leaves the record where it was.

`cleanup_managed_session` marks the record before it removes it. The mark is a valid record of
the same generation, so the report of the service depends on the last call only.
-/

namespace XdebugFst.Session

/-! ### The service -/

/-- What the processes of a session answer while its engine is stopped. -/
structure StopIo where
  running : Bool := false
  endpointOwned : Bool := false
  /-- `process_matches_generation`. -/
  processMatches : Bool := false
  /-- The engine ends after `server.quit`, after `SIGTERM` and after `SIGKILL`. -/
  quits : Bool := false
  terminates : Bool := false
  killed : Bool := false

/-- The part of `cleanup_managed_session` that stops the engine. -/
def stopEngine (force : Bool) (io : StopIo) : Bool :=
  let stopped := !io.running
  let stopped := if !stopped && io.endpointOwned && !force then io.quits else stopped
  let processOwned := io.endpointOwned || io.processMatches
  let stopped := if !stopped && processOwned then io.terminates else stopped
  if !stopped && processOwned then io.killed else stopped

/-- What happens during one cleanup. -/
structure CleanupIo where
  mark : CallIo := {}
  engine : StopIo := {}
  /-- `xdebug_design_remove_session_generation` succeeds. -/
  artifactsRemoved : Bool := true
  remove : CallIo := {}

section Cleanup

variable (dirName : String → String) (io : CleanupIo) (r : Registry)

/-- `cleanup_generation`. -/
def cleanupGeneration (session : SessionInfo) : Bool × Registry :=
  if !io.artifactsRemoved then (false, r)
  else
    let removed := removeIfGeneration dirName io.remove r session.sessionId session.generation
    (removed.1.status = .ok, removed.2)

/-- `cleanup_managed_session`. -/
def cleanupManagedSession (force : Bool) (session : SessionInfo) : Bool × Registry :=
  let retained := { session with lifecycleState := .cleanupFailed }
  let marked := markCleanupFailed dirName io.mark r retained session.generation
  if marked.1.status ≠ .ok then (false, marked.2)
  else if !stopEngine force io.engine then (false, marked.2)
  else cleanupGeneration dirName io marked.2 retained

end Cleanup

/-! ### What is left of a record -/

section Evidence

variable {dirName : String → String} {io : CallIo} {r : Registry} {sessionId expected : String}
  {session : SessionInfo}

variable (dirName) in
/-- The record of a session can be read and is of a generation. -/
def Retained (r : Registry) (sessionId generation : String) : Prop :=
  ∃ kept, readOne dirName {} r sessionId = .ok kept ∧ kept.generation = generation

/-- `read_one` only returns records that it accepts. -/
lemma readOne_accepted (h : readOne dirName io r sessionId = .ok session) :
    ∃ stored, r.record (dirName sessionId) = some stored ∧ recordError stored = none := by
  rw [readOne] at h
  split at h
  · cases h
  · cases h
  · split at h
    · cases h
    · split at h
      · cases h
      · rename_i stored hstored
        split at h
        · cases h
        · exact ⟨stored, hstored, ‹_›⟩

lemma retained_of_record {stored : SessionInfo}
    (hstored : r.record (dirName sessionId) = some stored) (haccepted : recordError stored = none)
    (hid : stored.sessionId = sessionId) : Retained dirName r sessionId stored.generation := by
  cases hactivity : r.activity (dirName sessionId) with
  | none =>
      refine ⟨stored, ?_, rfl⟩
      simp [readOne, hstored, haccepted, hid, hactivity]
  | some mtime =>
      refine ⟨{ stored with lastActive := max stored.lastActive mtime }, ?_, rfl⟩
      simp [readOne, hstored, haccepted, hid, hactivity]

/-- What has been read once is there for the next reader. -/
lemma retained_of_readOne (h : readOne dirName io r sessionId = .ok session) :
    Retained dirName r sessionId session.generation := by
  obtain ⟨stored, hstored, haccepted⟩ := readOne_accepted h
  obtain ⟨stored', hstored', hid, hgeneration, -⟩ := readOne_ok h
  obtain rfl : stored = stored' := Option.some_inj.1 (hstored.symm.trans hstored')
  rw [hgeneration]
  exact retained_of_record hstored haccepted hid

lemma not_retained_of_erased (hnone : r.record (dirName sessionId) = none) (generation : String) :
    ¬ Retained dirName r sessionId generation := by
  rintro ⟨kept, hkept, -⟩
  obtain ⟨stored, hstored, -⟩ := readOne_ok hkept
  rw [hnone] at hstored
  cases hstored

/-- A record that is there can be removed, once no file operation fails. -/
lemma Retained.retry {generation : String} (h : Retained dirName r sessionId generation) :
    (removeIfGeneration dirName {} r sessionId generation).1.status = .ok := by
  obtain ⟨kept, hkept, rfl⟩ := h
  rw [removeIfGeneration, hkept]
  simp

/-! ### The removal of a record -/

variable (io expected) in
/-- The removal unlinks the record and fails after that. -/
def FailsAfterUnlink (session : SessionInfo) : Prop :=
  (io.legacy = .absent ∧ io.readable) ∧ session.generation = expected ∧
    (io.historyReady ∧ io.archived ∧ io.stateUnlinked) ∧
    ¬ (io.activityUnlinked ∧ io.directorySynced)

/-- The file system does not answer differently to two readers, unless it fails. -/
lemma readOne_of_readable (h : io.legacy = .absent ∧ io.readable) :
    readOne dirName io r sessionId = readOne dirName {} r sessionId := by
  rw [readOne, readOne, h.1, h.2]

variable (dirName r sessionId) in
lemma readOne_refused (h : ¬ (io.legacy = .absent ∧ io.readable)) :
    ∃ refused, readOne dirName io r sessionId = .error refused := by
  rw [readOne]
  split
  · exact ⟨_, rfl⟩
  · exact ⟨_, rfl⟩
  · rename_i habsent
    have hreadable : io.readable = false := by simpa [habsent] using h
    rw [hreadable]
    exact ⟨_, rfl⟩

variable (io expected) in
/-- How a removal ends: it succeeds, it fails and changes nothing, or it fails with the record
gone. -/
lemma removeIfGeneration_ends (hread : readOne dirName {} r sessionId = .ok session) :
    FailsAfterUnlink io expected session ∧
        (removeIfGeneration dirName io r sessionId expected).1.status ≠ .ok ∧
        (removeIfGeneration dirName io r sessionId expected).2.record (dirName sessionId) = none ∨
      ¬ FailsAfterUnlink io expected session ∧
        ((removeIfGeneration dirName io r sessionId expected).1.status = .ok ∨
          (removeIfGeneration dirName io r sessionId expected).2 = r) := by
  by_cases hreadable : io.legacy = .absent ∧ io.readable
  · rw [removeIfGeneration, readOne_of_readable hreadable, hread]
    dsimp only
    split_ifs with hmatch hhistory harchived hstate hactivity hsynced
    · exact Or.inr ⟨fun h => hmatch h.2.1, Or.inr rfl⟩
    · exact Or.inr ⟨fun h => by simp [h.2.2.1.1] at hhistory, Or.inr rfl⟩
    · exact Or.inr ⟨fun h => by simp [h.2.2.1.2.1] at harchived, Or.inr rfl⟩
    · exact Or.inr ⟨fun h => by simp [h.2.2.1.2.2] at hstate, Or.inr rfl⟩
    · refine Or.inl ⟨⟨hreadable, of_not_not hmatch, ?_, ?_⟩, by simp, ?_⟩
      · exact ⟨by simpa using hhistory, by simpa using harchived, by simpa using hstate⟩
      · intro h
        simp [h.1] at hactivity
      · rw [Registry.eraseRecord_record, if_pos rfl]
    · refine Or.inl ⟨⟨hreadable, of_not_not hmatch, ?_, ?_⟩, by simp, ?_⟩
      · exact ⟨by simpa using hhistory, by simpa using harchived, by simpa using hstate⟩
      · intro h
        simp [h.2] at hsynced
      · rw [Registry.setActivity_record, Registry.eraseRecord_record, if_pos rfl]
    · refine Or.inr ⟨fun h => h.2.2.2 ?_, Or.inl rfl⟩
      exact ⟨by simpa using hactivity, by simpa using hsynced⟩
  · obtain ⟨refused, hrefused⟩ := readOne_refused dirName r sessionId hreadable
    rw [removeIfGeneration, hrefused]
    exact Or.inr ⟨fun h => hreadable h.1, Or.inr rfl⟩

variable (dirName io r sessionId expected session) in
/-- After a removal with an error the record can still be read, is of the same generation, and
can be removed by another try. -/
def KeepsEvidence : Prop :=
  (removeIfGeneration dirName io r sessionId expected).1.status ≠ .ok →
    Retained dirName (removeIfGeneration dirName io r sessionId expected).2 sessionId
        session.generation ∧
      (removeIfGeneration dirName {} (removeIfGeneration dirName io r sessionId expected).2
        sessionId session.generation).1.status = .ok

/-- A removal keeps its evidence unless it fails after the record is unlinked: at the activity
marker or at the sync of the directory. -/
theorem keepsEvidence_iff (hread : readOne dirName {} r sessionId = .ok session) :
    KeepsEvidence dirName io r sessionId expected session ↔
      (io.legacy = .absent → io.readable → session.generation = expected → io.historyReady →
        io.archived → io.stateUnlinked → io.activityUnlinked ∧ io.directorySynced) := by
  have hcondition : (io.legacy = .absent → io.readable → session.generation = expected →
      io.historyReady → io.archived → io.stateUnlinked →
      io.activityUnlinked ∧ io.directorySynced) ↔ ¬ FailsAfterUnlink io expected session := by
    rw [FailsAfterUnlink]
    tauto
  rw [hcondition]
  obtain ⟨hfails, hstatus, hnone⟩ | ⟨hpasses, hend⟩ := removeIfGeneration_ends io expected
    hread
  · refine iff_of_false (fun hkeeps => ?_) (not_not.2 hfails)
    exact not_retained_of_erased hnone _ (hkeeps hstatus).1
  · refine iff_of_true (fun hstatus => ?_) hpasses
    have hsame := hend.resolve_left hstatus
    rw [hsame]
    exact ⟨retained_of_readOne hread, (retained_of_readOne hread).retry⟩

end Evidence

/-- The session of the next two results: nothing is in the way of its removal but the sync. -/
def markedRegistry : Registry :=
  Registry.empty.putRecord (sessionDirName "dma")
    { waveSession 'a' with lifecycleState := .cleanupFailed }

lemma readOne_markedRegistry : readOne sessionDirName {} markedRegistry "dma" =
    .ok { waveSession 'a' with lifecycleState := .cleanupFailed } := by
  have hrecord : markedRegistry.record (sessionDirName "dma") =
      some { waveSession 'a' with lifecycleState := .cleanupFailed } := by
    rw [markedRegistry, Registry.putRecord_record, if_pos rfl]
  have haccepted : recordError { waveSession 'a' with lifecycleState := .cleanupFailed } = none := by
    decide +kernel
  simp only [readOne, hrecord, haccepted]
  rfl

/-- With the directory not synced the removal fails, and there is no record left to read or to
remove again. -/
theorem not_keepsEvidence_unsynced :
    readOne sessionDirName {} markedRegistry "dma" =
        .ok { waveSession 'a' with lifecycleState := .cleanupFailed } ∧
      ¬ KeepsEvidence sessionDirName { directorySynced := false } markedRegistry "dma"
        (waveSession 'a').generation { waveSession 'a' with lifecycleState := .cleanupFailed } := by
  refine ⟨readOne_markedRegistry, fun hkeeps => ?_⟩
  obtain ⟨-, hstatus, hnone⟩ | ⟨hpasses, -⟩ := removeIfGeneration_ends { directorySynced := false }
    (waveSession 'a').generation readOne_markedRegistry
  · exact not_retained_of_erased hnone _ (hkeeps hstatus).1
  · exact hpasses ⟨⟨rfl, rfl⟩, rfl, ⟨rfl, rfl, rfl⟩, nofun⟩

/-- With the record not unlinked it fails as well, and keeps its evidence. -/
theorem keepsEvidence_not_unlinked :
    readOne sessionDirName {} markedRegistry "dma" =
        .ok { waveSession 'a' with lifecycleState := .cleanupFailed } ∧
      KeepsEvidence sessionDirName { stateUnlinked := false } markedRegistry "dma"
        (waveSession 'a').generation { waveSession 'a' with lifecycleState := .cleanupFailed } :=
  ⟨readOne_markedRegistry, (keepsEvidence_iff readOne_markedRegistry).2 nofun⟩

/-! ### The report of the service -/

section Report

variable {dirName : String → String} {io : CleanupIo} {r : Registry} {session : SessionInfo}

/-- The mark of a failed cleanup is a record that the registry accepts. -/
lemma RecordInv.cleanupFailed (h : RecordInv session) :
    RecordInv { session with lifecycleState := .cleanupFailed } := by
  obtain ⟨hport, hpid, hcreated, hlast, hdbMtime, hdbSize, hfsMtime, hfsSize, hid, hhash,
    hlifecycle, hresources, hendpoint⟩ := h
  refine ⟨hport, hpid, hcreated, hlast, hdbMtime, hdbSize, hfsMtime, hfsSize, hid, hhash, ?_,
    hresources, ?_⟩
  · rw [validateLifecycleInvariants, firstError_eq_none] at hlifecycle ⊢
    simp only [List.forall_mem_cons, List.not_mem_nil, false_implies, implies_true, and_true] at *
    exact ⟨hlifecycle.1, rfl, rfl⟩
  · -- only a tcp session is checked against its state, and an active one needs more
    rw [validateTransportInvariants] at hendpoint ⊢
    split_ifs at hendpoint ⊢ with hhost huds htcp hfile
    · exact hendpoint
    · rw [firstError_eq_none] at hendpoint ⊢
      simp only [List.forall_mem_cons, List.not_mem_nil, false_implies, implies_true, and_true,
        Bool.and_eq_true, Bool.or_eq_true, decide_eq_true_eq] at hendpoint ⊢
      refine ⟨⟨hendpoint.1.1, ?_⟩, hendpoint.2⟩
      exact hendpoint.1.2.imp id fun h => ⟨nofun, h.2⟩
    · exact hendpoint

/-- A record that is read is valid with the time of its last use. -/
lemma recordInv_of_readOne {io : CallIo} {sessionId : String}
    (h : readOne dirName io r sessionId = .ok session) : RecordInv session := by
  obtain ⟨stored, hstored, haccepted⟩ := readOne_accepted h
  obtain ⟨stored', hstored', -, hsession⟩ := readOne_eq_ok h
  obtain rfl : stored = stored' := Option.some_inj.1 (hstored.symm.trans hstored')
  have hinv := recordError_eq_none.1 haccepted
  cases hactivity : r.activity (dirName sessionId) with
  | none =>
      rw [hactivity] at hsession
      rwa [hsession]
  | some mtime =>
      rw [hactivity] at hsession
      rw [hsession]
      exact { hinv with lastActive := hinv.lastActive.trans (le_max_left _ _) }

variable (dirName r) in
/-- The mark leaves the registry as it is, or puts the marked record there. -/
lemma markCleanupFailed_cases (io : CallIo) (session : SessionInfo) (expected : String) :
    (markCleanupFailed dirName io r session expected).2 = r ∨
      (markCleanupFailed dirName io r session expected).2 =
        r.putRecord (dirName session.sessionId) session := by
  rw [markCleanupFailed, replaceRecord]
  split
  · exact Or.inl rfl
  · split
    · exact Or.inl rfl
    · split_ifs
      · exact Or.inl rfl
      · exact Or.inl rfl
      · rw [writeOne]
        cases io.write with
        | written => exact Or.inr rfl
        | lost => exact Or.inl rfl
        | unsynced => exact Or.inr rfl

lemma retained_markCleanupFailed (io : CallIo)
    (hread : readOne dirName {} r session.sessionId = .ok session) :
    Retained dirName (markCleanupFailed dirName io r
      { session with lifecycleState := .cleanupFailed } session.generation).2 session.sessionId
      session.generation := by
  obtain hsame | hput := markCleanupFailed_cases dirName r io
    { session with lifecycleState := .cleanupFailed } session.generation
  · rw [hsame]
    exact retained_of_readOne hread
  · rw [hput]
    have hstored : (r.putRecord (dirName session.sessionId)
        { session with lifecycleState := .cleanupFailed }).record (dirName session.sessionId) =
        some { session with lifecycleState := .cleanupFailed } := by
      rw [Registry.putRecord_record, if_pos rfl]
    have hkept := retained_of_record hstored
      (recordError_eq_none.2 (recordInv_of_readOne hread).cleanupFailed) rfl
    exact hkept

/-- A cleanup that fails, and not between the unlinking of the record and the sync, leaves a
record of the session with the same generation, as the service reports. -/
theorem retained_cleanupManagedSession (force : Bool)
    (hread : readOne dirName {} r session.sessionId = .ok session)
    (hpasses : ¬ FailsAfterUnlink io.remove session.generation session)
    (hfalse : (cleanupManagedSession dirName io r force session).1 = false) :
    Retained dirName (cleanupManagedSession dirName io r force session).2 session.sessionId
      session.generation := by
  have hmarked := retained_markCleanupFailed io.mark hread
  rw [cleanupManagedSession] at hfalse ⊢
  split_ifs at hfalse ⊢ with hmark hstop
  · exact hmarked
  · exact hmarked
  · rw [cleanupGeneration] at hfalse ⊢
    split_ifs at hfalse ⊢ with hartifacts
    · exact hmarked
    · obtain ⟨kept, hkept, hgeneration⟩ := hmarked
      have hpasses' : ¬ FailsAfterUnlink io.remove session.generation kept := by
        rwa [FailsAfterUnlink, hgeneration]
      obtain ⟨hfails, -⟩ | ⟨-, hend⟩ := removeIfGeneration_ends io.remove session.generation hkept
      · exact absurd hfails hpasses'
      · have hsame := hend.resolve_left (by simpa using hfalse)
        dsimp only at hsame ⊢
        rw [hsame]
        exact ⟨kept, hkept, hgeneration⟩

end Report

end XdebugFst.Session
