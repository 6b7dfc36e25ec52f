import Mathlib
import XdebugFst.Session.Frontend

/-!
# Touches without the lease

The calls that open and close a session run one after the other, under the lifecycle lease. An
engine reports its activity without the lease: `touch_if_generation` reads the record, compares
the generation, and sets the time of the activity marker afterwards. Here these are two steps,
and the calls under the lease may come between them.

The marker belongs to a directory and not to a generation. `stores` is the history of what was
written, so that one can ask where the time of last use comes from.
-/

namespace XdebugFst.Session

/-! ### The interleaved system -/

/-- A touch between its two steps: the record was read, the marker is not yet set. -/
structure PendingTouch where
  sessionId : String
  expectedGeneration : String
  lastActive : ℤ
  deriving DecidableEq, Repr

/-- A time of last use that was written: as part of a record, or as the time of a marker. -/
inductive Store
  | record (session : SessionInfo)
  | marker (sessionId expectedGeneration : String) (mtime : ℤ)
  deriving DecidableEq, Repr

namespace Store

def sessionId : Store → String
  | record session => session.sessionId
  | marker sessionId _ _ => sessionId

/-- The generation of the call that wrote it. -/
def generation : Store → String
  | record session => session.generation
  | marker _ expectedGeneration _ => expectedGeneration

def lastActive : Store → ℤ
  | record session => session.lastActive
  | marker _ _ mtime => mtime

end Store

/-- The registry, the touches that are under way and the history. -/
structure TouchSystem where
  registry : Registry
  pending : List PendingTouch
  stores : List Store

/-- Nothing has happened. -/
def TouchSystem.start : TouchSystem where
  registry := Registry.empty
  pending := []
  stores := []

/-- A call under the lease, or one of the two steps of a touch. -/
inductive TouchStep
  | call (io : CallIo) (call : Call)
      (leased : ∀ sessionId expected lastActive,
        call ≠ .touchIfGeneration sessionId expected lastActive)
  | touchRead (io : CallIo) (sessionId expectedGeneration : String) (lastActive : ℤ)
  | touchWrite (io : CallIo) (k : ℕ)

section Steps

variable (dirName : String → String)

/-- What a call has written: the record that is new in its directory. -/
def callStores (r r' : Registry) (sessionId : String) : List Store :=
  match r'.record (dirName sessionId) with
  | none => []
  | some session => if r.record (dirName sessionId) = some session then [] else [.record session]

/-- The first step of `touch_if_generation`, up to the comparison of the times. -/
def touchRead (io : CallIo) (r : Registry) (sessionId expectedGeneration : String)
    (lastActive : ℤ) : List PendingTouch :=
  match readOne dirName io r sessionId with
  | .error _ => []
  | .ok current =>
    if current.generation ≠ expectedGeneration then []
    else if current.lastActive ≥ lastActive then []
    else [⟨sessionId, expectedGeneration, lastActive⟩]

/-- The second step of `touch_if_generation`: the marker is opened, or created, and its time is
set. Nothing is read here. -/
def touchWrite (io : CallIo) (r : Registry) (touch : PendingTouch) : Registry :=
  match io.touch with
  | .touched => r.setActivity (dirName touch.sessionId) (some touch.lastActive)
  | .notOpened => r
  | .failed mtime => r.setActivity (dirName touch.sessionId) mtime

/-- The time that the second step has written. -/
def touchStores (io : CallIo) (touch : PendingTouch) : List Store :=
  match io.touch with
  | .touched => [.marker touch.sessionId touch.expectedGeneration touch.lastActive]
  | .notOpened => []
  | .failed none => []
  | .failed (some mtime) => [.marker touch.sessionId touch.expectedGeneration mtime]

/-- One step of the system. -/
def TouchSystem.step (st : TouchSystem) : TouchStep → TouchSystem
  | .call io call _ =>
      let registry := (exec dirName io st.registry call).2
      { st with registry,
                stores := st.stores ++ callStores dirName st.registry registry call.sessionId }
  | .touchRead io sessionId expected lastActive =>
      { st with pending :=
          st.pending ++ touchRead dirName io st.registry sessionId expected lastActive }
  | .touchWrite io k =>
      match st.pending[k]? with
      | none => st
      | some touch =>
          { registry := touchWrite dirName io st.registry touch
            pending := st.pending.eraseIdx k
            stores := st.stores ++ touchStores io touch }

/-- The state after a sequence of steps. -/
def TouchSystem.run (st : TouchSystem) (steps : List TouchStep) : TouchSystem :=
  steps.foldl (TouchSystem.step dirName) st

/-- The history has a time of last use for a directory and a generation. -/
def HasStore (stores : List Store) (dir generation : String) (lastActive : ℤ) : Prop :=
  ∃ store ∈ stores, dirName store.sessionId = dir ∧ store.generation = generation ∧
    store.lastActive = lastActive

/-- The time of last use that is read for a record was written for its generation. -/
def OwnActivity (st : TouchSystem) : Prop :=
  ∀ io sessionId session, readOne dirName io st.registry sessionId = .ok session →
    HasStore dirName st.stores (dirName sessionId) session.generation session.lastActive

/-- A touch sets the marker while the record it has read is still there, and a removal does not
leave the marker behind. -/
def Timely (st : TouchSystem) : TouchStep → Prop
  | .call io call _ =>
      ∀ sessionId expected, call = .removeIfGeneration sessionId expected →
        io.activityUnlinked = true
  | .touchRead _ _ _ _ => True
  | .touchWrite io k =>
      ∀ touch, st.pending[k]? = some touch → io.touch ≠ .notOpened →
        ∃ session, st.registry.record (dirName touch.sessionId) = some session ∧
          session.generation = touch.expectedGeneration

/-- All steps of a sequence are timely. -/
def TimelyRun : TouchSystem → List TouchStep → Prop
  | _, [] => True
  | st, s :: steps => Timely dirName st s ∧ TimelyRun (st.step dirName s) steps

end Steps

variable {dirName : String → String}

/-- The two steps, one right after the other, are the call. -/
theorem touchIfGeneration_eq_steps (io : CallIo) (st : TouchSystem) (sessionId expected : String)
    (lastActive : ℤ) :
    (st.run dirName [.touchRead io sessionId expected lastActive,
      .touchWrite io st.pending.length]).registry =
      (touchIfGeneration dirName io st.registry sessionId expected lastActive).2 := by
  simp only [TouchSystem.run, List.foldl_cons, List.foldl_nil, TouchSystem.step,
    touchIfGeneration, touchRead]
  cases readOne dirName io st.registry sessionId with
  | error refused => simp
  | ok current =>
      dsimp only
      by_cases hgeneration : current.generation ≠ expected
      · simp [hgeneration]
      rw [if_neg hgeneration, if_neg hgeneration]
      by_cases hlater : current.lastActive ≥ lastActive
      · simp [hlater]
      rw [if_neg hlater, if_neg hlater, List.getElem?_concat_length]
      dsimp only
      rw [touchWrite]
      cases io.touch <;> rfl

/-! ### The marker beside its record -/

lemma HasStore.append {stores : List Store} {dir generation : String} {lastActive : ℤ}
    (h : HasStore dirName stores dir generation lastActive) (more : List Store) :
    HasStore dirName (stores ++ more) dir generation lastActive := by
  obtain ⟨store, hmem, hstore⟩ := h
  exact ⟨store, List.mem_append_left more hmem, hstore⟩

/-- The record of a directory was written for its generation, and a marker is found only beside a
record for whose generation it was written. -/
structure MarkerInv (dirName : String → String) (r : Registry) (stores : List Store) : Prop where
  record : ∀ dir session, r.record dir = some session →
    HasStore dirName stores dir session.generation session.lastActive
  marker : ∀ dir mtime, r.activity dir = some mtime →
    ∃ session, r.record dir = some session ∧ HasStore dirName stores dir session.generation mtime

section Invariant

variable {r : Registry} {stores : List Store}

lemma MarkerInv.start : MarkerInv dirName Registry.empty [] where
  record := by rintro dir session ⟨⟩
  marker := by rintro dir mtime ⟨⟩

lemma MarkerInv.append (h : MarkerInv dirName r stores) (more : List Store) :
    MarkerInv dirName r (stores ++ more) where
  record dir session hsession := (h.record dir session hsession).append more
  marker dir mtime hmtime := by
    obtain ⟨session, hsession, hstore⟩ := h.marker dir mtime hmtime
    exact ⟨session, hsession, hstore.append more⟩

/-- What is read for a record comes from the record or from the marker, and both are its own. -/
lemma MarkerInv.hasStore_readOne (h : MarkerInv dirName r stores) {io : CallIo}
    {sessionId : String} {session : SessionInfo}
    (hread : readOne dirName io r sessionId = .ok session) :
    HasStore dirName stores (dirName sessionId) session.generation session.lastActive := by
  obtain ⟨stored, hstored, -, rfl⟩ := readOne_eq_ok hread
  cases hactivity : r.activity (dirName sessionId) with
  | none => exact h.record _ stored hstored
  | some mtime =>
      show HasStore dirName stores _ stored.generation (max stored.lastActive mtime)
      rcases max_choice stored.lastActive mtime with hmax | hmax
      · rw [hmax]
        exact h.record _ stored hstored
      · rw [hmax]
        obtain ⟨session, hsession, hstore⟩ := h.marker _ mtime hactivity
        obtain rfl := Option.some.inj (hstored.symm.trans hsession)
        exact hstore

/-- After a record was put in place, the history has it. -/
lemma hasStore_callStores (hold : ∀ dir session, r.record dir = some session →
      HasStore dirName stores dir session.generation session.lastActive)
    {r' : Registry} {session : SessionInfo}
    (hnew : r'.record (dirName session.sessionId) = some session) :
    HasStore dirName (stores ++ callStores dirName r r' session.sessionId)
      (dirName session.sessionId) session.generation session.lastActive := by
  rw [callStores, hnew]
  dsimp only
  split
  next hsame => exact (hold _ session hsame).append []
  next hne => exact ⟨.record session, by simp, rfl, rfl, rfl⟩

/-- A record that is put into a directory whose marker, if there is one, is of its generation. -/
lemma MarkerInv.putRecord (h : MarkerInv dirName r stores) {session : SessionInfo}
    (hmarker : ∀ mtime, r.activity (dirName session.sessionId) = some mtime →
      HasStore dirName stores (dirName session.sessionId) session.generation mtime) :
    MarkerInv dirName (r.putRecord (dirName session.sessionId) session)
      (stores ++ callStores dirName r (r.putRecord (dirName session.sessionId) session)
        session.sessionId) := by
  have hnew : (r.putRecord (dirName session.sessionId) session).record
      (dirName session.sessionId) = some session := by
    rw [Registry.putRecord_record, if_pos rfl]
  constructor
  · intro dir session' hsession'
    by_cases hdir : dir = dirName session.sessionId
    · subst hdir
      obtain rfl := Option.some.inj (hnew.symm.trans hsession')
      exact hasStore_callStores h.record hnew
    · rw [Registry.putRecord_record, if_neg hdir] at hsession'
      exact (h.record dir session' hsession').append _
  · intro dir mtime hmtime
    by_cases hdir : dir = dirName session.sessionId
    · subst hdir
      exact ⟨session, hnew, (hmarker mtime hmtime).append _⟩
    · obtain ⟨session', hsession', hstore⟩ := h.marker dir mtime hmtime
      refine ⟨session', ?_, hstore.append _⟩
      rw [Registry.putRecord_record, if_neg hdir]
      exact hsession'

/-- A record that is removed together with its marker. -/
lemma MarkerInv.erase (h : MarkerInv dirName r stores) (dir : String) :
    MarkerInv dirName ((r.eraseRecord dir).setActivity dir none) stores := by
  constructor
  · intro dir' session hsession
    by_cases hdir : dir' = dir
    · subst hdir
      rw [Registry.setActivity_record, Registry.eraseRecord_record, if_pos rfl] at hsession
      cases hsession
    · rw [Registry.setActivity_record, Registry.eraseRecord_record, if_neg hdir] at hsession
      exact h.record dir' session hsession
  · intro dir' mtime hmtime
    by_cases hdir : dir' = dir
    · subst hdir
      rw [Registry.setActivity_activity, if_pos rfl] at hmtime
      cases hmtime
    · rw [Registry.setActivity_activity, if_neg hdir] at hmtime
      obtain ⟨session, hsession, hstore⟩ := h.marker dir' mtime hmtime
      refine ⟨session, ?_, hstore⟩
      rw [Registry.setActivity_record, Registry.eraseRecord_record, if_neg hdir]
      exact hsession

/-- A marker that is set beside a record of its generation. -/
lemma MarkerInv.setActivity (h : MarkerInv dirName r stores) {dir : String}
    {session : SessionInfo} (hsession : r.record dir = some session) {mtime : Option ℤ}
    {more : List Store}
    (hmore : ∀ t, mtime = some t → HasStore dirName more dir session.generation t) :
    MarkerInv dirName (r.setActivity dir mtime) (stores ++ more) := by
  refine ⟨fun dir' session' hsession' => (h.record dir' session' hsession').append more, ?_⟩
  intro dir' t ht
  by_cases hdir : dir' = dir
  · subst hdir
    rw [Registry.setActivity_activity, if_pos rfl] at ht
    obtain ⟨store, hmem, hstore⟩ := hmore t ht
    exact ⟨session, hsession, store, List.mem_append_right stores hmem, hstore⟩
  · rw [Registry.setActivity_activity, if_neg hdir] at ht
    obtain ⟨session', hsession', hstore⟩ := h.marker dir' t ht
    exact ⟨session', hsession', hstore.append more⟩

end Invariant

/-- A removal that can unlink the marker either does nothing or removes record and marker. -/
lemma removeIfGeneration_cases (dirName : String → String) {io : CallIo}
    (hio : io.activityUnlinked = true) (r : Registry) (sessionId expected : String) :
    (removeIfGeneration dirName io r sessionId expected).2 = r ∨
      (removeIfGeneration dirName io r sessionId expected).2 =
        (r.eraseRecord (dirName sessionId)).setActivity (dirName sessionId) none := by
  rw [removeIfGeneration]
  split
  · exact .inl rfl
  · rw [hio]
    dsimp only
    split
    · exact .inl rfl
    · split
      · exact .inl rfl
      · split
        · exact .inl rfl
        · split
          · exact .inl rfl
          · split
            next hfalse => cases hfalse
            · right
              split <;> rfl

/-! ### Steps and runs -/

variable {st : TouchSystem}

/-- A call under the lease keeps the markers beside their records. -/
lemma MarkerInv.call (h : MarkerInv dirName st.registry st.stores) {io : CallIo} {call : Call}
    {leased : ∀ sessionId expected lastActive,
      call ≠ .touchIfGeneration sessionId expected lastActive}
    (htimely : Timely dirName st (.call io call leased)) :
    MarkerInv dirName (st.step dirName (.call io call leased)).registry
      (st.step dirName (.call io call leased)).stores := by
  have heffect := exec_effect dirName io st.registry call
  rw [TouchSystem.step]
  dsimp only
  generalize hafter : (exec dirName io st.registry call).2 = r' at heffect ⊢
  cases heffect with
  | unchanged => exact h.append _
  | @reserved session habsent _ =>
      refine h.putRecord fun mtime hmtime => ?_
      obtain ⟨other, hother, -⟩ := h.marker _ mtime hmtime
      rw [habsent] at hother
      cases hother
  | replaced hid _ hcurrent _ hgeneration _ =>
      rw [hid]
      refine h.putRecord fun mtime hmtime => ?_
      obtain ⟨other, hother, hstore⟩ := h.marker _ mtime hmtime
      obtain rfl := Option.some.inj (hcurrent.symm.trans hother)
      rwa [hgeneration] at hstore
  | touched => exact absurd rfl (leased _ _ _)
  | @removed sessionId expected current mtime _ _ _ =>
      rcases removeIfGeneration_cases dirName (htimely sessionId expected rfl)
        st.registry sessionId expected with hsame | hgone
      · rw [← hafter, exec, hsame]
        exact h.append _
      · rw [← hafter, exec, hgone]
        exact (h.erase _).append _

/-- The second step of a touch keeps the markers beside their records when it is timely. -/
lemma MarkerInv.touchWrite (h : MarkerInv dirName st.registry st.stores) {io : CallIo} {k : ℕ}
    (htimely : Timely dirName st (.touchWrite io k)) :
    MarkerInv dirName (st.step dirName (.touchWrite io k)).registry
      (st.step dirName (.touchWrite io k)).stores := by
  rw [TouchSystem.step]
  cases hk : st.pending[k]? with
  | none => exact h
  | some touch =>
      have hrecord := htimely touch hk
      dsimp only
      rw [Session.touchWrite, touchStores]
      cases hio : io.touch with
      | notOpened => exact h.append []
      | touched =>
          obtain ⟨session, hsession, hgeneration⟩ := hrecord (by rw [hio]; nofun)
          refine h.setActivity hsession ?_
          rintro t ⟨⟩
          exact ⟨_, List.mem_singleton_self _, rfl, hgeneration.symm, rfl⟩
      | failed mtime =>
          obtain ⟨session, hsession, hgeneration⟩ := hrecord (by rw [hio]; nofun)
          cases mtime with
          | none => exact h.setActivity hsession nofun
          | some mtime =>
              refine h.setActivity hsession ?_
              rintro t ⟨⟩
              exact ⟨_, List.mem_singleton_self _, rfl, hgeneration.symm, rfl⟩

lemma MarkerInv.step (h : MarkerInv dirName st.registry st.stores) {s : TouchStep}
    (htimely : Timely dirName st s) :
    MarkerInv dirName (st.step dirName s).registry (st.step dirName s).stores := by
  cases s with
  | call io call leased => exact h.call htimely
  | touchRead io sessionId expected lastActive => exact h
  | touchWrite io k => exact h.touchWrite htimely

lemma MarkerInv.run (h : MarkerInv dirName st.registry st.stores) {steps : List TouchStep}
    (htimely : TimelyRun dirName st steps) :
    MarkerInv dirName (st.run dirName steps).registry (st.run dirName steps).stores := by
  induction steps generalizing st with
  | nil => exact h
  | cons s steps ih => exact ih (h.step htimely.1) htimely.2

/-- In every run whose touches are timely and whose removals leave no marker behind, the time of
last use that is read for a record was written for its generation. -/
theorem ownActivity_of_timely {steps : List TouchStep}
    (htimely : TimelyRun dirName TouchSystem.start steps) :
    OwnActivity dirName (TouchSystem.start.run dirName steps) := by
  have hinv : MarkerInv dirName TouchSystem.start.registry TouchSystem.start.stores :=
    MarkerInv.start
  intro io sessionId session hread
  exact (hinv.run htimely).hasStore_readOne hread

/-! ### A touch that straddles a close and an open -/

lemma reserveOpening_leased (session : SessionInfo) (sessionId expected : String)
    (lastActive : ℤ) :
    Call.reserveOpening session ≠ .touchIfGeneration sessionId expected lastActive := nofun

lemma removeIfGeneration_leased (id generation sessionId expected : String) (lastActive : ℤ) :
    Call.removeIfGeneration id generation ≠ .touchIfGeneration sessionId expected lastActive := nofun

/-- A session is opened, and its engine touches it. -/
def touchedSteps : List TouchStep :=
  [.call {} (.reserveOpening (waveSession 'a')) (reserveOpening_leased _),
   .touchRead {} "dma" (waveSession 'a').generation 5,
   .touchWrite {} 0]

/-- The same, but the session is closed and opened again before the engine sets the marker. -/
def straddlingSteps : List TouchStep :=
  [.call {} (.reserveOpening (waveSession 'a')) (reserveOpening_leased _),
   .touchRead {} "dma" (waveSession 'a').generation 5,
   .call {} (.removeIfGeneration "dma" (waveSession 'a').generation) (removeIfGeneration_leased _ _),
   .call {} (.reserveOpening (waveSession 'b')) (reserveOpening_leased _),
   .touchWrite {} 0]

/-- The marker of the first run belongs to the record beside it. -/
theorem touchedSteps_ownActivity : TimelyRun sessionDirName TouchSystem.start touchedSteps ∧
    OwnActivity sessionDirName (TouchSystem.start.run sessionDirName touchedSteps) := by
  have htimely : TimelyRun sessionDirName TouchSystem.start touchedSteps := by
    refine ⟨nofun, trivial, ?_, trivial⟩
    intro touch htouch _
    change (TouchSystem.start.run sessionDirName (touchedSteps.take 2)).pending[0]? = _ at htouch
    have hpending : (TouchSystem.start.run sessionDirName (touchedSteps.take 2)).pending =
        [⟨"dma", (waveSession 'a').generation, 5⟩] := by decide +kernel
    rw [hpending] at htouch
    obtain rfl := Option.some.inj htouch
    exact ⟨waveSession 'a', by decide +kernel, rfl⟩
  exact ⟨htimely, ownActivity_of_timely htimely⟩

/-- After the second run the new generation shows the time of a touch of the old one. -/
theorem straddlingSteps_not_ownActivity :
    ¬ ∀ steps, OwnActivity sessionDirName (TouchSystem.start.run sessionDirName steps) := by
  intro hall
  have hread : (readOne sessionDirName {}
      (TouchSystem.start.run sessionDirName straddlingSteps).registry "dma").toOption =
      some { waveSession 'b' with lastActive := 5 } := by decide +kernel
  have hstores : (TouchSystem.start.run sessionDirName straddlingSteps).stores =
      [.record (waveSession 'a'), .record (waveSession 'b'),
        .marker "dma" (waveSession 'a').generation 5] := by decide +kernel
  cases hsession : readOne sessionDirName {}
      (TouchSystem.start.run sessionDirName straddlingSteps).registry "dma" with
  | error refused =>
      rw [hsession] at hread
      cases hread
  | ok session =>
      rw [hsession] at hread
      obtain rfl := Option.some.inj hread
      obtain ⟨store, hmem, -, hgeneration, hlast⟩ := hall straddlingSteps {} "dma" _ hsession
      rw [hstores] at hmem
      revert store
      decide +kernel

end XdebugFst.Session
