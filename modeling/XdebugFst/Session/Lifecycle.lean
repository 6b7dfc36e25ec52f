import Mathlib
import XdebugFst.Lib.Trace
import XdebugFst.Session.Registry

/-!
# The life of a record

What a sequence of registry calls can do to the records, whoever makes the calls and in
whatever order. A record appears in the opening state, keeps its id and its generation while
it is there, and goes away through a call that names both.

`CallEffect` says all that one call can do. `RecordStep` reads it off for one directory, and
the statements about whole runs follow from `RecordStep` by following a directory from one
time to another.
-/

namespace XdebugFst.Session

open Lib

/-- A call with what the file system answers to it. -/
structure Event where
  call : Call
  io : CallIo

/-- What a record can become on one step. -/
inductive RecordStep : Option SessionInfo → Option SessionInfo → Prop
  | same (record : Option SessionInfo) : RecordStep record record
  | reserved {session : SessionInfo} (hopening : session.lifecycleState = .opening) :
      RecordStep none (some session)
  | replaced {current session : SessionInfo} (hid : current.sessionId = session.sessionId)
      (hgeneration : current.generation = session.generation)
      (hstate : current.lifecycleState.Follows session.lifecycleState) :
      RecordStep (some current) (some session)
  | removed (current : SessionInfo) : RecordStep (some current) none

section Runs

variable (dirName : String → String)

/-- The registry after an event. -/
def registryStep (r : Registry) (event : Event) : Registry := (exec dirName event.io r event.call).2

/-- The registry after the first `n` events, from the empty one on. -/
def registryAt (events : List Event) (n : ℕ) : Registry :=
  stateAt (registryStep dirName) Registry.empty events n

/-- The record in a directory after the first `n` events. -/
def recordAt (events : List Event) (n : ℕ) (dir : String) : Option SessionInfo :=
  (registryAt dirName events n).record dir

/-- The result of event `n`. -/
def resultAt (events : List Event) (n : Fin events.length) : SessionRegistryResult :=
  (exec dirName (events.get n).io (registryAt dirName events n) (events.get n).call).1

/-- The removal at event `n` retires the record of a generation: the record is there before,
and it is gone after. The call reports success, or an error of the activity marker or the sync
that follow the unlinking of the record. -/
structure Retires (events : List Event) (n : Fin events.length) (sessionId generation : String) :
    Prop where
  call : (events.get n).call = .removeIfGeneration sessionId generation
  before : ∃ record, recordAt dirName events n (dirName sessionId) = some record ∧
    record.sessionId = sessionId ∧ record.generation = generation
  after : recordAt dirName events (n + 1) (dirName sessionId) = none
  result : (resultAt dirName events n).status = .ok ∨
    (events.get n).io.activityUnlinked = false ∨ (events.get n).io.directorySynced = false

/-- The safety of the sessions over a run of calls. -/
structure LifecycleSafe (events : List Event) : Prop where
  /-- A generation changes only through the absent state. -/
  generation_changes : ∀ dir i j record record', i ≤ j → j ≤ events.length →
    recordAt dirName events i dir = some record → recordAt dirName events j dir = some record' →
    record.generation ≠ record'.generation → ∃ k, i < k ∧ k < j ∧ recordAt dirName events k dir = none
  /-- Every step of a record is one of the steps of its life. -/
  record_steps : ∀ dir i, i < events.length →
    RecordStep (recordAt dirName events i dir) (recordAt dirName events (i + 1) dir)
  /-- A stored record is opening, active or a failed cleanup. -/
  stored_states : ∀ dir i record, i ≤ events.length → recordAt dirName events i dir = some record →
    record.lifecycleState = .opening ∨ record.lifecycleState = .active ∨
      record.lifecycleState = .cleanupFailed
  /-- A record does not return to the opening state, except through the absent state. -/
  no_reopening : ∀ dir i j record record', i ≤ j → j ≤ events.length →
    recordAt dirName events i dir = some record → recordAt dirName events j dir = some record' →
    record.lifecycleState ≠ .opening → record'.lifecycleState = .opening →
    ∃ k, i < k ∧ k < j ∧ recordAt dirName events k dir = none
  /-- A call that expects another generation changes nothing. -/
  mismatch_unchanged : ∀ (i : Fin events.length) expected,
    (events.get i).call.expectedGeneration = some expected →
    (∀ record, recordAt dirName events i (dirName (events.get i).call.sessionId) = some record →
      record.sessionId = (events.get i).call.sessionId → record.generation ≠ expected) →
    registryAt dirName events (i + 1) = registryAt dirName events i
  /-- Between two successful reservations of an id the first generation was retired. -/
  reservations : ∀ (i j : Fin events.length) session session', i < j →
    (events.get i).call = .reserveOpening session → (events.get j).call = .reserveOpening session' →
    session.sessionId = session'.sessionId → (resultAt dirName events i).status = .ok →
    (resultAt dirName events j).status = .ok →
    ∃ k : Fin events.length, i < k ∧ k < j ∧
      Retires dirName events k session.sessionId session.generation
  /-- A call for one id leaves the records of all other ids, and their activity. -/
  other_ids : ∀ (i : Fin events.length) dir record, recordAt dirName events i dir = some record →
    record.sessionId ≠ (events.get i).call.sessionId →
    recordAt dirName events (i + 1) dir = some record ∧
      (registryAt dirName events (i + 1)).activity dir = (registryAt dirName events i).activity dir

end Runs

/-! ### One step -/

section Steps

variable {dirName : String → String} {r r' : Registry} {call : Call}

lemma CallEffect.recordStep (h : CallEffect dirName r call r') (dir : String) :
    RecordStep (r.record dir) (r'.record dir) := by
  cases h with
  | unchanged => exact .same _
  | reserved habsent hopening =>
      rw [Registry.putRecord_record]
      split_ifs with hdir
      · rw [hdir, habsent]
        exact .reserved hopening
      · exact .same _
  | replaced hid hexpected hcurrent hsame hgeneration hstate =>
      rw [Registry.putRecord_record]
      split_ifs with hdir
      · rw [hdir, hcurrent]
        exact .replaced hsame hgeneration hstate
      · exact .same _
  | touched => exact .same _
  | removed hcurrent =>
      rw [Registry.setActivity_record, Registry.eraseRecord_record]
      split_ifs with hdir
      · rw [hdir, hcurrent]
        exact .removed _
      · exact .same _

/-- A call that expects a generation changes something only when that generation is stored. -/
lemma CallEffect.eq_of_mismatch (h : CallEffect dirName r call r') {expected : String}
    (hexpected : call.expectedGeneration = some expected)
    (hmismatch : ∀ record, r.record (dirName call.sessionId) = some record →
      record.sessionId = call.sessionId → record.generation ≠ expected) : r' = r := by
  cases h with
  | unchanged => rfl
  | reserved => cases hexpected
  | replaced hid hcall hcurrent hsame hgeneration =>
      rw [hid] at hmismatch
      obtain rfl : _ = expected := Option.some_inj.1 (hcall.symm.trans hexpected)
      exact absurd hgeneration (hmismatch _ hcurrent hsame)
  | touched hcurrent hsame hgeneration =>
      cases hexpected
      exact absurd hgeneration (hmismatch _ hcurrent hsame)
  | removed hcurrent hsame hgeneration =>
      cases hexpected
      exact absurd hgeneration (hmismatch _ hcurrent hsame)

/-- A call leaves the directory of another id's record alone. -/
lemma CallEffect.other_id (h : CallEffect dirName r call r') {dir : String} {record : SessionInfo}
    (hrecord : r.record dir = some record) (hid : record.sessionId ≠ call.sessionId) :
    r'.record dir = some record ∧ r'.activity dir = r.activity dir := by
  -- a changed directory has no record, or one of the id of the call
  have hother : ∀ {dir' : String} {current : SessionInfo}, r.record dir' = some current →
      current.sessionId = call.sessionId → dir ≠ dir' := by
    rintro dir' current hcurrent hsame rfl
    rw [hrecord] at hcurrent
    cases hcurrent
    exact hid hsame
  cases h with
  | unchanged => exact ⟨hrecord, rfl⟩
  | @reserved session habsent =>
      have hdir : dir ≠ dirName session.sessionId := by
        rintro rfl
        rw [hrecord] at habsent
        cases habsent
      rw [Registry.putRecord_record, if_neg hdir]
      exact ⟨hrecord, rfl⟩
  | replaced hcall hexpected hcurrent hsame =>
      rw [Registry.putRecord_record, if_neg (hother hcurrent (hsame.trans hcall.symm))]
      exact ⟨hrecord, rfl⟩
  | touched hcurrent hsame =>
      exact ⟨hrecord, Function.update_of_ne (hother hcurrent hsame) _ _⟩
  | removed hcurrent hsame =>
      rw [Registry.setActivity_record, Registry.eraseRecord_record,
        if_neg (hother hcurrent hsame)]
      exact ⟨hrecord, Function.update_of_ne (hother hcurrent hsame) _ _⟩

/-- A record goes away through the removal of its id and generation. -/
lemma CallEffect.removed_of_none (h : CallEffect dirName r call r') {dir : String}
    {record : SessionInfo} (hrecord : r.record dir = some record) (hnone : r'.record dir = none) :
    call = .removeIfGeneration record.sessionId record.generation ∧
      dir = dirName record.sessionId := by
  cases h with
  | unchanged =>
      rw [hrecord] at hnone
      cases hnone
  | reserved =>
      rw [Registry.putRecord_record] at hnone
      split_ifs at hnone
      rw [hrecord] at hnone
      cases hnone
  | replaced =>
      rw [Registry.putRecord_record] at hnone
      split_ifs at hnone
      rw [hrecord] at hnone
      cases hnone
  | touched =>
      rw [Registry.setActivity_record, hrecord] at hnone
      cases hnone
  | removed hcurrent hsame hgeneration =>
      rw [Registry.setActivity_record, Registry.eraseRecord_record] at hnone
      split_ifs at hnone with hdir
      · rw [hdir, hcurrent] at hrecord
        cases hrecord
        exact ⟨by rw [hsame, hgeneration], by rw [hdir, hsame]⟩
      · rw [hrecord] at hnone
        cases hnone

end Steps

/-! ### Results -/

section Results

variable {dirName : String → String} {io : CallIo} {r : Registry}

/-- A reservation that succeeds finds no record and leaves its own. -/
lemma reserveOpening_ok {session : SessionInfo}
    (h : (reserveOpening dirName io r session).1.status = .ok) :
    r.record (dirName session.sessionId) = none ∧
      (reserveOpening dirName io r session).2.record (dirName session.sessionId) =
        some session := by
  rw [reserveOpening] at h ⊢
  split at h
  · cases h
  · rename_i hopening
    rw [if_neg hopening]
    split at h
    · cases h
    · rename_i refused hread
      split at h
      · exact absurd h (readOne_error_ne_ok hread)
      · rename_i hstatus
        rw [if_neg hstatus]
        refine ⟨readOne_notFound hread (of_not_not hstatus), ?_⟩
        rw [writeOne] at h ⊢
        cases hio : io.write with
        | written =>
            rw [Registry.putRecord_record, if_pos rfl]
        | lost =>
            rw [hio] at h
            cases h
        | unsynced =>
            rw [hio] at h
            cases h

/-- A removal that takes the record away succeeds, unless the marker or the sync fails. -/
lemma removeIfGeneration_result {sessionId expected : String} {record : SessionInfo}
    (hrecord : r.record (dirName sessionId) = some record)
    (hnone : (removeIfGeneration dirName io r sessionId expected).2.record (dirName sessionId) =
      none) :
    (removeIfGeneration dirName io r sessionId expected).1.status = .ok ∨
      io.activityUnlinked = false ∨ io.directorySynced = false := by
  have hkept : r.record (dirName sessionId) ≠ none := by
    rw [hrecord]
    exact Option.some_ne_none _
  rw [removeIfGeneration] at hnone ⊢
  split at hnone
  · exact absurd hnone hkept
  · dsimp only at hnone ⊢
    split_ifs at hnone ⊢ with hmatch hhistory harchived hstate hactivity hsynced
    · exact absurd hnone hkept
    · exact absurd hnone hkept
    · exact absurd hnone hkept
    · exact absurd hnone hkept
    · exact Or.inr (Or.inl (by simpa using hactivity))
    · exact Or.inr (Or.inr (by simpa using hsynced))
    · exact Or.inl rfl

end Results

/-! ### Runs -/

section Safety

variable {dirName : String → String} {events : List Event}

variable (dirName) in
lemma registryAt_succ (n : Fin events.length) : registryAt dirName events (n + 1) =
    (exec dirName (events.get n).io (registryAt dirName events n) (events.get n).call).2 := by
  exact stateAt_succ (registryStep dirName) Registry.empty n.2

variable (dirName) in
/-- The effect of event `n`. -/
lemma effectAt (n : Fin events.length) :
    CallEffect dirName (registryAt dirName events n) (events.get n).call
      (registryAt dirName events (n + 1)) := by
  rw [registryAt_succ]
  exact exec_effect _ _ _ _

variable (dirName) in
lemma recordStep_at (dir : String) {n : ℕ} (h : n < events.length) :
    RecordStep (recordAt dirName events n dir) (recordAt dirName events (n + 1) dir) := by
  exact (effectAt dirName ⟨n, h⟩).recordStep dir

/-- A record with a property that its steps keep loses it only by going away. -/
lemma exists_leaves {P : SessionInfo → Prop}
    (hstep : ∀ record record', RecordStep (some record) (some record') → P record → P record')
    {dir : String} {i j : ℕ} {record : SessionInfo} (hij : i ≤ j) (hj : j ≤ events.length)
    (hi : recordAt dirName events i dir = some record) (hP : P record)
    (hlast : ∀ record', recordAt dirName events j dir = some record' → ¬ P record') :
    ∃ k, i ≤ k ∧ k < j ∧ (∃ s, recordAt dirName events k dir = some s ∧ P s) ∧
      recordAt dirName events (k + 1) dir = none := by
  -- the last step up to which there is a record with the property
  have hnot : ¬ ∃ s, recordAt dirName events j dir = some s ∧ P s := by
    rintro ⟨s, hs, hPs⟩
    exact hlast s hs hPs
  obtain ⟨k, hik, hkj, hall, hlost⟩ := exists_last_step
    (P := fun n => ∃ s, recordAt dirName events n dir = some s ∧ P s) hij ⟨record, hi, hP⟩ hnot
  obtain ⟨s, hs, hPs⟩ := hall k hik le_rfl
  refine ⟨k, hik, hkj, ⟨s, hs, hPs⟩, ?_⟩
  have hkstep := recordStep_at dirName dir (lt_of_lt_of_le hkj hj)
  rw [hs] at hkstep
  cases hs' : recordAt dirName events (k + 1) dir with
  | none => rfl
  | some s' =>
      rw [hs'] at hkstep
      exact absurd ⟨s', hs', hstep s s' hkstep hPs⟩ hlost

/-- What the steps of a record keep changes only through the absent state. -/
lemma kept_until_absent {P : SessionInfo → Prop}
    (hstep : ∀ record record', RecordStep (some record) (some record') → P record → P record')
    {dir : String} {i j : ℕ} {record record' : SessionInfo} (hij : i ≤ j) (hj : j ≤ events.length)
    (hi : recordAt dirName events i dir = some record)
    (hrecord' : recordAt dirName events j dir = some record') (hP : P record)
    (hnot : ¬ P record') : ∃ k, i < k ∧ k < j ∧ recordAt dirName events k dir = none := by
  have hlast : ∀ s, recordAt dirName events j dir = some s → ¬ P s := by
    intro s hs
    rw [hrecord'] at hs
    cases hs
    exact hnot
  obtain ⟨k, hik, hkj, -, hnone⟩ := exists_leaves hstep hij hj hi hP hlast
  refine ⟨k + 1, Nat.lt_succ_of_le hik, lt_of_le_of_ne hkj ?_, hnone⟩
  rintro rfl
  rw [hrecord'] at hnone
  cases hnone

lemma recordStep_generation {record record' : SessionInfo}
    (h : RecordStep (some record) (some record')) : record.generation = record'.generation := by
  cases h with
  | same => rfl
  | replaced hid hgeneration hstate => exact hgeneration

lemma recordStep_sessionId {record record' : SessionInfo}
    (h : RecordStep (some record) (some record')) : record.sessionId = record'.sessionId := by
  cases h with
  | same => rfl
  | replaced hid hgeneration hstate => exact hid

lemma recordStep_state {record record' : SessionInfo}
    (h : RecordStep (some record) (some record')) (hstate : record.lifecycleState ≠ .opening) :
    record'.lifecycleState ≠ .opening := by
  cases h with
  | same => exact hstate
  | replaced hid hgeneration hfollows =>
      rcases hfollows with ⟨hopening, -⟩ | hfailed
      · exact absurd hopening hstate
      · rw [hfailed]
        exact LifecycleState.noConfusion

lemma storedStates {dir : String} {n : ℕ} (hn : n ≤ events.length) {record : SessionInfo}
    (h : recordAt dirName events n dir = some record) : record.lifecycleState = .opening ∨
      record.lifecycleState = .active ∨ record.lifecycleState = .cleanupFailed := by
  induction n generalizing record with
  | zero => cases h
  | succ n ih =>
      have hstep := recordStep_at dirName dir hn
      rw [h] at hstep
      cases hbefore : recordAt dirName events n dir with
      | none =>
          rw [hbefore] at hstep
          cases hstep with
          | reserved hopening => exact Or.inl hopening
      | some old =>
          rw [hbefore] at hstep
          cases hstep with
          | same => exact ih (Nat.le_of_succ_le hn) hbefore
          | replaced hid hgeneration hfollows =>
              rcases hfollows with ⟨-, hopening | hactive⟩ | hfailed
              · exact Or.inl hopening
              · exact Or.inr (Or.inl hactive)
              · exact Or.inr (Or.inr hfailed)

/-- Between a record and its absence lies the removal of its id and generation. -/
lemma exists_retires {dir : String} {i j : ℕ} {record : SessionInfo} (hij : i ≤ j)
    (hj : j ≤ events.length) (hi : recordAt dirName events i dir = some record)
    (hnone : recordAt dirName events j dir = none) : ∃ k : Fin events.length, i ≤ k ∧ k < j ∧
      Retires dirName events k record.sessionId record.generation := by
  obtain ⟨k, hik, hkj, ⟨s, hs, hid, hgen⟩, hgone⟩ := exists_leaves
    (P := fun s => s.sessionId = record.sessionId ∧ s.generation = record.generation)
    (fun s s' hstep hs => ⟨(recordStep_sessionId hstep).symm.trans hs.1,
      (recordStep_generation hstep).symm.trans hs.2⟩) hij hj hi ⟨rfl, rfl⟩
    (fun s hs => by rw [hnone] at hs; cases hs)
  have hk : k < events.length := lt_of_lt_of_le hkj hj
  obtain ⟨hcall, hdir⟩ := (effectAt dirName ⟨k, hk⟩).removed_of_none hs hgone
  rw [hid, hgen] at hcall
  rw [hid] at hdir
  subst hdir
  refine ⟨⟨k, hk⟩, hik, hkj, hcall, ⟨s, hs, hid, hgen⟩, hgone, ?_⟩
  rw [recordAt, registryAt_succ dirName ⟨k, hk⟩, hcall] at hgone
  rw [resultAt, hcall]
  exact removeIfGeneration_result hs hgone

/-- The records are safe over every run of calls. -/
theorem lifecycleSafe (dirName : String → String) (events : List Event) :
    LifecycleSafe dirName events where
  generation_changes dir i j record record' hij hj hi hrecord' hne :=
    kept_until_absent (P := fun s => s.generation = record.generation)
      (fun s s' hstep hs => (recordStep_generation hstep).symm.trans hs) hij hj hi hrecord' rfl
      hne.symm
  record_steps dir i hi := recordStep_at dirName dir hi
  stored_states dir i record hi h := storedStates hi h
  no_reopening dir i j record record' hij hj hi hrecord' hstate hopening :=
    kept_until_absent (fun s s' => recordStep_state) hij hj hi hrecord' hstate
      (not_not.2 hopening)
  mismatch_unchanged i expected hexpected hmismatch :=
    (effectAt dirName i).eq_of_mismatch hexpected hmismatch
  reservations i j session session' hij hi hj hid hoki hokj := by
    rw [resultAt, hi] at hoki
    rw [resultAt, hj] at hokj
    have hrecord : recordAt dirName events (i + 1) (dirName session.sessionId) = some session := by
      rw [recordAt, registryAt_succ, hi]
      exact (reserveOpening_ok hoki).2
    have hnone : recordAt dirName events j (dirName session.sessionId) = none := by
      rw [hid]
      exact (reserveOpening_ok hokj).1
    obtain ⟨k, hik, hkj, hretires⟩ := exists_retires hij j.2.le hrecord hnone
    exact ⟨k, hik, hkj, hretires⟩
  other_ids i dir record hrecord hid := (effectAt dirName i).other_id hrecord hid

end Safety

end XdebugFst.Session
