import Mathlib
import XdebugFst.Session.Lifecycle

/-!
# The frontends

Any number of frontend processes open, close, kill and collect sessions, as in
`session/session_service.cpp`. A frontend works on a session id under the lifecycle lease of
that id, which is a lock on a file named by the directory of the id, and it loses the lease
when its process ends. Everything that it does to the registry is one of the calls of
`Session.exec`. Touching a generation needs no lease.

What the engine, the artifacts of a session and the health check answer is left open: `Next`
has one rule for each way in which a frontend can go on.
-/

namespace XdebugFst.Session

open Lib

/-! ### Directories -/

/-- `stable_path_hash`. -/
def stablePathHash (value : String) : ℕ :=
  value.toList.foldl (fun hash c => (hash ^^^ c.toNat) * 1099511628211 % 2 ^ 64)
    1469598103934665603

/-- `safe_dir_prefix`. -/
def safeDirPrefix (sessionId : String) : String :=
  let start := (sessionId.toList.take 16).map fun c =>
    if isAsciiLetter c || '0' ≤ c && c ≤ '9' || c = '_' then c else '_'
  if start = [] then "adhoc" else String.ofList start

/-- `session_dir_name`, on ids of ASCII characters. -/
def sessionDirName (sessionId : String) : String :=
  let digits := Nat.toDigits 16 (stablePathHash sessionId)
  safeDirPrefix sessionId ++ "_" ++
    String.ofList (List.replicate (16 - digits.length) '0' ++ digits)

/-! ### What a frontend does -/

/-- What a frontend has still to do under its lease. -/
inductive Task
  | reserve (session : SessionInfo)
  | update (session : SessionInfo)
  | finalize (session : SessionInfo)
  /-- Look the session up, and compare it with the generation of an earlier listing. -/
  | lookup (sessionId : String) (snapshot : Option String)
  | mark (session : SessionInfo)
  | remove (session : SessionInfo)
  | finished
  deriving DecidableEq, Repr

/-- The call on the registry that comes next. -/
def Task.call : Task → Option Call
  | reserve session => some (.reserveOpening session)
  | update session => some (.updateOpening session session.generation)
  | finalize session => some (.finalizeOpening session session.generation)
  | mark session => some (.markCleanupFailed session session.generation)
  | remove session => some (.removeIfGeneration session.sessionId session.generation)
  | lookup _ _ => none
  | finished => none

/-- The first task of `open_session`, or of `remove_session` and `gc_sessions`, on an id. -/
inductive Starts (sessionId : String) : Task → Prop
  | opening {session : SessionInfo} (hid : session.sessionId = sessionId)
      (hstate : session.lifecycleState = .opening) : Starts sessionId (.reserve session)
  | removing (snapshot : Option String) : Starts sessionId (.lookup sessionId snapshot)

/-- How a frontend goes on after the result of its call. -/
inductive Next (result : SessionRegistryResult) : Task → Task → Prop
  | reserveRefused (session : SessionInfo) (h : result.status ≠ .ok) :
      Next result (.reserve session) .finished
  /-- The generation marker cannot be written, or there is no engine process. -/
  | startFailed (session : SessionInfo) (h : result.status = .ok) :
      Next result (.reserve session) (.remove session)
  /-- There is no engine process, and the artifacts cannot be removed. -/
  | startFailedDirty (session : SessionInfo) (h : result.status = .ok) :
      Next result (.reserve session) .finished
  | spawned (session : SessionInfo) (h : result.status = .ok) {child : ℤ} (hchild : 0 < child) :
      Next result (.reserve session) (.update { session with serverPid := child })
  /-- The update is refused, the engine does not get ready, or a resource has changed. -/
  | openingFailed (session : SessionInfo) : Next result (.update session) (.remove session)
  | openingFailedDirty (session : SessionInfo) : Next result (.update session) .finished
  | ready (session : SessionInfo) (h : result.status = .ok) (now : ℤ) :
      Next result (.update session)
        (.finalize { session with lifecycleState := .active, lastActive := now })
  | opened (session : SessionInfo) (h : result.status = .ok) :
      Next result (.finalize session) .finished
  | finalizeFailed (session : SessionInfo) (h : result.status ≠ .ok) :
      Next result (.finalize session) (.remove session)
  | finalizeFailedDirty (session : SessionInfo) (h : result.status ≠ .ok) :
      Next result (.finalize session) .finished
  /-- The engine has stopped and its artifacts are removed. -/
  | stopped (session : SessionInfo) (h : result.status = .ok) :
      Next result (.mark session) (.remove session)
  /-- The mark is refused, the engine goes on, or its artifacts stay. -/
  | notStopped (session : SessionInfo) : Next result (.mark session) .finished
  | removed (session : SessionInfo) : Next result (.remove session) .finished

/-! ### All frontends together -/

/-- The registry, the holder of each lease, and the frontends at work with their session ids. -/
structure System where
  registry : Registry
  lease : String → Option ℕ
  frontend : ℕ → Option (String × Task)

namespace System

def init : System where
  registry := Registry.empty
  lease _ := none
  frontend _ := none

def setTask (s : System) (n : ℕ) (work : Option (String × Task)) : System :=
  { s with frontend := Function.update s.frontend n work }

def setLease (s : System) (dir : String) (holder : Option ℕ) : System :=
  { s with lease := Function.update s.lease dir holder }

lemma setTask_frontend (s : System) (n : ℕ) (work : Option (String × Task)) :
    (s.setTask n work).frontend n = work := Function.update_self _ _ _

lemma setLease_lease (s : System) (dir : String) (holder : Option ℕ) :
    (s.setLease dir holder).lease dir = holder := Function.update_self _ _ _

end System

/-- One step of some frontend, with the registry call that it makes. -/
inductive SystemStep (dirName : String → String) (s : System) : Option Event → System → Prop
  | acquire {n : ℕ} {sessionId : String} {task : Task} (hidle : s.frontend n = none)
      (hfree : s.lease (dirName sessionId) = none) (hstarts : Starts sessionId task) :
      SystemStep dirName s none
        ((s.setLease (dirName sessionId) (some n)).setTask n (some (sessionId, task)))
  | call {n : ℕ} {sessionId : String} {task next : Task} {call : Call} (io : CallIo)
      (hwork : s.frontend n = some (sessionId, task)) (hcall : task.call = some call)
      (hnext : Next (exec dirName io s.registry call).1 task next) :
      SystemStep dirName s (some ⟨call, io⟩)
        ({ s with registry := (exec dirName io s.registry call).2 }.setTask n
          (some (sessionId, next)))
  | found {n : ℕ} {sessionId : String} {snapshot : Option String} {session : SessionInfo}
      (io : CallIo) (hwork : s.frontend n = some (sessionId, .lookup sessionId snapshot))
      (hread : readOne dirName io s.registry sessionId = .ok session)
      (hsnapshot : snapshot = none ∨ snapshot = some session.generation) :
      SystemStep dirName s none
        (s.setTask n (some (sessionId, .mark { session with lifecycleState := .cleanupFailed })))
  /-- There is no such session, the ownership token or the generation differs, or the session is
  healthy and only unhealthy ones are collected. -/
  | passed {n : ℕ} {sessionId : String} {snapshot : Option String}
      (hwork : s.frontend n = some (sessionId, .lookup sessionId snapshot)) :
      SystemStep dirName s none (s.setTask n (some (sessionId, .finished)))
  /-- The frontend has finished, or its process ends with its work undone. -/
  | release {n : ℕ} {sessionId : String} {task : Task}
      (hwork : s.frontend n = some (sessionId, task)) :
      SystemStep dirName s none ((s.setLease (dirName sessionId) none).setTask n none)
  | touch (io : CallIo) (sessionId generation : String) (lastActive : ℤ) :
      SystemStep dirName s (some ⟨.touchIfGeneration sessionId generation lastActive, io⟩)
        { s with registry :=
          (exec dirName io s.registry (.touchIfGeneration sessionId generation lastActive)).2 }

/-- The runs from the empty registry, with the calls they make. -/
inductive SystemRun (dirName : String → String) : List Event → System → Prop
  | start : SystemRun dirName [] System.init
  | step {events : List Event} {s s' : System} {event : Option Event}
      (hrun : SystemRun dirName events s) (hstep : SystemStep dirName s event s') :
      SystemRun dirName (events ++ event.toList) s'

section Runs

variable {dirName : String → String} {events : List Event} {s s' : System}

lemma SystemStep.registry_eq {event : Option Event} (h : SystemStep dirName s event s') :
    s'.registry = event.toList.foldl (registryStep dirName) s.registry := by
  cases h with
  | acquire => rfl
  | call => rfl
  | found => rfl
  | passed => rfl
  | release => rfl
  | touch => rfl

/-- The registry of a run is what its calls make of the empty one. -/
lemma SystemRun.registry_eq (h : SystemRun dirName events s) :
    s.registry = registryAt dirName events events.length := by
  induction h with
  | start => rfl
  | step hrun hstep ih =>
      rw [hstep.registry_eq, ih, registryAt, registryAt, stateAt, stateAt, List.take_length,
        List.take_length, List.foldl_append]

/-- A frontend at work holds the lease of its session id. -/
def LeaseHeld (dirName : String → String) (s : System) : Prop :=
  ∀ n sessionId task, s.frontend n = some (sessionId, task) →
    s.lease (dirName sessionId) = some n

lemma LeaseHeld.setTask {n : ℕ} {sessionId : String} {task next : Task}
    (h : LeaseHeld dirName s) (hwork : s.frontend n = some (sessionId, task))
    (hs' : s'.frontend = Function.update s.frontend n (some (sessionId, next)))
    (hlease : s'.lease = s.lease) : LeaseHeld dirName s' := by
  intro m id task' hm
  rw [hlease]
  rw [hs', Function.update_apply] at hm
  split_ifs at hm with hmn
  · cases hm
    rw [hmn]
    exact h n sessionId task hwork
  · exact h m id task' hm

lemma LeaseHeld.step {event : Option Event} (h : LeaseHeld dirName s)
    (hstep : SystemStep dirName s event s') : LeaseHeld dirName s' := by
  cases hstep with
  | @acquire n sessionId task hidle hfree hstarts =>
      intro m id task' hm
      change Function.update s.frontend n (some (sessionId, task)) m = some (id, task') at hm
      show Function.update s.lease (dirName sessionId) (some n) (dirName id) = some m
      rw [Function.update_apply] at hm ⊢
      split_ifs at hm with hmn
      · cases hm
        rw [if_pos rfl, hmn]
      · -- the lease was free, so nobody else has it
        have hheld := h m id task' hm
        rw [if_neg, hheld]
        intro hdir
        rw [hdir, hfree] at hheld
        cases hheld
  | call io hwork hcall hnext => exact h.setTask hwork rfl rfl
  | found io hwork hread hsnapshot => exact h.setTask hwork rfl rfl
  | passed hwork => exact h.setTask hwork rfl rfl
  | @release n sessionId task hwork =>
      intro m id task' hm
      change Function.update s.frontend n none m = some (id, task') at hm
      show Function.update s.lease (dirName sessionId) none (dirName id) = some m
      rw [Function.update_apply] at hm ⊢
      split_ifs at hm with hmn
      have hheld := h m id task' hm
      rw [if_neg, hheld]
      intro hdir
      rw [hdir, h n sessionId task hwork] at hheld
      exact hmn (Option.some_inj.1 hheld).symm
  | touch => exact h

lemma SystemRun.leaseHeld (h : SystemRun dirName events s) : LeaseHeld dirName s := by
  induction h with
  | start =>
      rintro n sessionId task hn
      cases hn
  | step hrun hstep ih => exact ih.step hstep

/-- The lease serialises the work on a session id. -/
theorem SystemRun.exclusive (h : SystemRun dirName events s) {n m : ℕ} {sessionId : String}
    {task task' : Task} (hn : s.frontend n = some (sessionId, task))
    (hm : s.frontend m = some (sessionId, task')) : n = m := by
  exact Option.some_inj.1 ((h.leaseHeld n _ _ hn).symm.trans (h.leaseHeld m _ _ hm))

/-- In every reachable state the records are what the calls have made of them, and the calls
are safe. -/
theorem SystemRun.recordsSafe (h : SystemRun dirName events s) :
    s.registry = registryAt dirName events events.length ∧ LifecycleSafe dirName events :=
  ⟨h.registry_eq, lifecycleSafe dirName events⟩

end Runs

/-! ### A session that is opened twice -/

/-- A waveform session in the opening state. -/
def waveSession (generation : Char) : SessionInfo where
  sessionId := "dma"
  generation := String.ofList (List.replicate 64 generation)
  lifecycleState := .opening
  transport := "uds"
  socketPath := "/tmp/dma.sock"
  serverHost := "localhost"
  fsdbFile := "/tmp/dma.fst"

/-- The first engine does not start, and the sync after its removal fails; then the session is
opened again. -/
def reopenEvents : List Event :=
  [⟨.reserveOpening (waveSession 'a'), {}⟩,
    ⟨.removeIfGeneration "dma" (waveSession 'a').generation, { directorySynced := false }⟩,
    ⟨.reserveOpening (waveSession 'b'), {}⟩]

lemma exists_run_reopenEvents : ∃ s, SystemRun sessionDirName reopenEvents s := by
  have hopening : ∀ generation, Starts "dma" (.reserve (waveSession generation)) := fun _ =>
    .opening rfl rfl
  have hacquired := SystemRun.start.step
    (@SystemStep.acquire sessionDirName System.init 0 "dma" _ rfl rfl (hopening 'a'))
  have hreserved := hacquired.step (.call {} (System.setTask_frontend _ _ _) rfl
    (.startFailed (waveSession 'a') (by decide +kernel)))
  have hremoved := hreserved.step (.call { directorySynced := false }
    (System.setTask_frontend _ _ _) rfl (.removed (waveSession 'a')))
  have hreleased := hremoved.step (.release (System.setTask_frontend _ _ _))
  have hagain := hreleased.step (.acquire (System.setTask_frontend _ _ _)
    (System.setLease_lease _ _ _) (hopening 'b'))
  exact ⟨_, hagain.step (.call {} (System.setTask_frontend _ _ _) rfl
    (.startFailed (waveSession 'b') (by decide +kernel)))⟩

/-- Both reservations of that run succeed, and no removal between them does. -/
theorem reopenEvents_no_successful_removal : (∃ s, SystemRun sessionDirName reopenEvents s) ∧
    ¬ ∀ (i j : Fin reopenEvents.length) session session', i < j →
      (reopenEvents.get i).call = .reserveOpening session →
      (reopenEvents.get j).call = .reserveOpening session' →
      session.sessionId = session'.sessionId →
      (resultAt sessionDirName reopenEvents i).status = .ok →
      (resultAt sessionDirName reopenEvents j).status = .ok →
      ∃ k : Fin reopenEvents.length, i < k ∧ k < j ∧
        (reopenEvents.get k).call = .removeIfGeneration session.sessionId session.generation ∧
        (resultAt sessionDirName reopenEvents k).status = .ok := by
  refine ⟨exists_run_reopenEvents, fun h => ?_⟩
  obtain ⟨k, hpos, hlt, -, hok⟩ := h ⟨0, by decide⟩ ⟨2, by decide⟩ (waveSession 'a')
    (waveSession 'b') (by decide) rfl rfl rfl (by decide +kernel) (by decide +kernel)
  obtain rfl : k = ⟨1, by decide⟩ := by
    have hpos : 0 < (k : ℕ) := hpos
    have hlt : (k : ℕ) < 2 := hlt
    exact Fin.ext (show (k : ℕ) = 1 by omega)
  exact absurd hok (by decide +kernel)

/-- The safety of that run. -/
theorem reopenEvents_recordsSafe : ∃ s, SystemRun sessionDirName reopenEvents s ∧
    s.registry = registryAt sessionDirName reopenEvents reopenEvents.length ∧
      LifecycleSafe sessionDirName reopenEvents := by
  obtain ⟨s, hs⟩ := exists_run_reopenEvents
  exact ⟨s, hs, hs.recordsSafe⟩

end XdebugFst.Session
