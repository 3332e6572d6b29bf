import Orlando.Mailbox
import Orlando.Slots

/-!
# What a step of the persistent mailbox does

`PersistentArgs.Step` lists the steps `PersistentArgs.step` can take, one constructor for each
branch that does something different (`step_sound`). `Activation.WF` is what holds of every
persistent task : nothing has happened before the load is over, handler tasks are in flight only
inside the loop and its drain, and only in a reentrant grain, and the state machine is where the
phase says it is.
-/

namespace Orlando

open Phase Option OneHolder List

variable {S : Type} {ph : Phase S} {P : Phase S → Prop}

def Phase.loading : Phase S → Bool
  | load _ => true
  | loadVersion => true
  | loadState _ => true
  | _ => false

def Phase.inLoop : Phase S → Bool
  | loop => true
  | drain => true
  | _ => false

/-- The sequential loop is between a message and its next wait. -/
def Phase.processing : Phase S → Bool
  | handling _ => true
  | persist => true
  | flush _ => true
  | publish _ => true
  | _ => false

theorem Phase.of_loading (h : ph.loading = true) (hload : ∀ n, P (.load n))
    (hversion : P .loadVersion) (hstate : ∀ v, P (.loadState v)) : P ph := by
  cases ph with
  | load n => exact hload n
  | loadVersion => exact hversion
  | loadState v => exact hstate v
  | _ => cases h

theorem Phase.of_inLoop (h : ph.inLoop = true) (hloop : P .loop) (hdrain : P .drain) : P ph := by
  cases ph with
  | loop => exact hloop
  | drain => exact hdrain
  | _ => cases h

theorem Phase.loading_of_inLoop (h : ph.inLoop = true) : ph.loading = false :=
  of_inLoop (P := fun ph => ph.loading = false) h rfl rfl

theorem Phase.inLoop_of_loading (h : ph.loading = true) : ph.inLoop = false :=
  of_loading (P := fun ph => ph.inLoop = false) h (fun _ => rfl) rfl fun _ => rfl

theorem Phase.processing_of_inLoop (h : ph.inLoop = true) : ph.processing = false :=
  of_inLoop (P := fun ph => ph.processing = false) h rfl rfl

variable {a a' : Activation S}

namespace PersistentArgs

variable (p : PersistentArgs S)

def LoadFails (gid : GrainId) (m : Shared) (fault : Option PersistenceError) : Phase S → Prop
  | .load _ => ∃ replicated err, p.entry = .run replicated ∧
      loadState p.serializer (loadAnswer fault (m.store.get gid)) = .error err
  | .loadVersion => ∃ V err, p.entry = .runVersioned V ∧
      V.storedVersion (loadAnswer fault (m.store.get (versionGrainId gid))) = .error err
  | .loadState v => ∃ V err, p.entry = .runVersioned V ∧
      V.migrateLoaded p.serializer v (loadAnswer fault (m.store.get gid)) = .error err
  | _ => False

inductive Step (gid : GrainId) (a : Activation S) (m : Shared) :
    MailboxEvent S → Activation S → Shared → Prop
  | loadRetry {fault n} (hp : a.phase = .load n) (hf : p.LoadFails gid m fault a.phase) :
    Step gid a m (.load fault) { a with phase := .load (n + 1) } m
  | loadTag {fault v V} (hp : a.phase = .loadVersion) (he : p.entry = .runVersioned V)
    (hv : V.storedVersion (loadAnswer fault (m.store.get (versionGrainId gid))) = .ok v) :
    Step gid a m (.load fault) { a with phase := .loadState v } m
  | loadRun {fault n r replicated} (hp : a.phase = .load n) (he : p.entry = .run replicated)
    (hr : loadState p.serializer (loadAnswer fault (m.store.get gid)) = .ok r) :
    Step gid a m (.load fault) (a.begin (r.getD p.grain.default)) m
  | loadVersioned {fault v r V} (hp : a.phase = .loadState v) (he : p.entry = .runVersioned V)
    (hr : V.migrateLoaded p.serializer v (loadAnswer fault (m.store.get gid)) = .ok r) :
    Step gid a m (.load fault) (a.begin (r.getD p.grain.default)) m
  | loadFailed {fault} (hp : a.phase.loading = true) (hf : p.LoadFails gid m fault a.phase) :
    Step gid a m (.load fault) (p.beginDefault a) m
  | activateOk {now s} (hp : a.phase = .activate) (hs : p.grain.onActivate a.state = .ok s) :
    Step gid a m (.onActivate now)
      { a.record .activate s with phase := .loop, fsm := .idle, lastSave := now } m
  | activatePanic {now s} (hp : a.phase = .activate)
    (hs : p.grain.onActivate a.state = .panicked s) :
    Step gid a m (.onActivate now)
      { a.record .activate s with phase := .remove, faulted := true } m
  | recv {env} (hp : a.phase = .loop) (hr : p.grain.reentrant = false) :
    Step gid a m (.recv env) { a with phase := .handling env, fsm := a.fsm.next .messageReceived } m
  | spawn {env} (hp : a.phase = .loop) (hr : p.grain.reentrant = true) :
    Step gid a m (.recv env) { a with handlers := a.handlers ++ [.waiting env] } m
  | closed (hp : a.phase = .loop) (hr : p.grain.reentrant = false) :
    Step gid a m .closed (a.settle (a.fsm.next .channelClosed)) m
  | idleTimeout (hp : a.phase = .loop) (hr : p.grain.reentrant = false) :
    Step gid a m .idleTimeout (a.settle (a.fsm.next .idleTimeout)) m
  | drain {e} (hp : a.phase = .loop) (hr : p.grain.reentrant = true)
    (he : e = .closed ∨ e = .idleTimeout) : Step gid a m e { a with phase := .drain } m
  | handleOk {env s} (hp : a.phase = .handling env) (hs : env.handleFn a.state = .ok s) :
    Step gid a m .handle { a.complete env s with phase := .persist } m
  | handlePanic {env s} (hp : a.phase = .handling env) (hs : env.handleFn a.state = .panicked s) :
    Step gid a m .handle ((a.record (.panicked env) s).settle (a.fsm.next .handlerPanicked)) m
  | skip {now t d} (hp : a.phase = .persist) (hw : p.strategy ≠ .writeThrough) :
    Step gid a m (.prepare now d)
      ({ a with lastSave := t }.settle (a.fsm.next .handlerCompleted)) m
  | replicate {now t d bytes} (hp : a.phase = .persist) (hw : p.strategy ≠ .writeThrough)
    (hr : p.replicated = true) (hb : p.serializer.serialize a.state = .ok bytes) :
    Step gid a m (.prepare now d)
      ({ a with lastSave := t }.settle (a.fsm.next .handlerCompleted)) (m.publish gid bytes d)
  | serializeFailed {now t d err} (hp : a.phase = .persist)
    (hb : p.serializer.serialize a.state = .error err) :
    Step gid a m (.prepare now d)
      ({ a with lastSave := t }.settle ((a.fsm.next .persistStarted).next .persistFailed)) m
  | write {now t d bytes} (hp : a.phase = .persist)
    (hb : p.serializer.serialize a.state = .ok bytes) :
    Step gid a m (.prepare now d) { a with lastSave := t, phase := .flush bytes } m
  | flush {bytes} (hp : a.phase = .flush bytes) (hr : p.replicated = false) :
    Step gid a m (.save none)
      ({ a with saved := a.saved ++ [a.turns.length] }.settle
        ((a.fsm.next .persistStarted).next .persistSucceeded)) (m.save gid bytes)
  | flushReplicated {bytes} (hp : a.phase = .flush bytes) (hr : p.replicated = true) :
    Step gid a m (.save none)
      { a with saved := a.saved ++ [a.turns.length], phase := .publish bytes } (m.save gid bytes)
  | flushRefused {bytes err} (hp : a.phase = .flush bytes) :
    Step gid a m (.save (some err))
      (a.settle ((a.fsm.next .persistStarted).next .persistFailed)) m
  | publish {bytes d} (hp : a.phase = .publish bytes) :
    Step gid a m (.send d) (a.settle ((a.fsm.next .persistStarted).next .persistSucceeded))
      (m.publish gid bytes d)
  | acquire {k env} (hk : a.handlers[k]? = some (.waiting env)) (hl : a.lockFree = true) :
    Step gid a m (.handler k .acquire) (a.setHandler k (.locked env)) m
  | runOk {k env s} (hk : a.handlers[k]? = some (.locked env)) (hs : env.handleFn a.state = .ok s) :
    Step gid a m (.handler k .run) ((a.complete env s).setHandler k .handled) m
  | runPanic {k env s} (hk : a.handlers[k]? = some (.locked env))
    (hs : env.handleFn a.state = .panicked s) :
    Step gid a m (.handler k .run) ((a.record (.panicked env) s).setHandler k .finished) m
  | release {k} (hk : a.handlers[k]? = some .handled) :
    Step gid a m (.handler k .release) (a.setHandler k (p.afterRelease a)) m
  | handlerSave {k n bytes} (hk : a.handlers[k]? = some (.saving bytes n)) :
    Step gid a m (.handler k (.save none))
      { a.setHandler k (if p.replicated then .sending bytes n else .finished) with
        saved := a.saved ++ [n] } (m.save gid bytes)
  | handlerSaveRefused {k n bytes err} (hk : a.handlers[k]? = some (.saving bytes n)) :
    Step gid a m (.handler k (.save (some err)))
      (a.setHandler k (if p.replicated then .sending bytes n else .finished)) m
  | handlerSend {k n bytes d} (hk : a.handlers[k]? = some (.sending bytes n)) :
    Step gid a m (.handler k (.send d)) (a.setHandler k .finished) (m.publish gid bytes d)
  | join {k} (hk : a.handlers[k]? = some .finished) :
    Step gid a m (.handler k .join) (a.setHandler k .joined) m
  | drained (hp : a.phase = .drain) (hz : a.inFlight = 0) :
    Step gid a m .drained { a with phase := .deactivate } m
  | deactivate (hp : a.phase = .deactivate) :
    Step gid a m .onDeactivate
      { a.record .deactivate (p.grain.onDeactivate a.state).state with phase := .serialize } m
  | serialize {bytes} (hp : a.phase = .serialize)
    (hb : p.serializer.serialize a.state = .ok bytes) :
    Step gid a m .serialize { a with phase := .save bytes 1 } m
  | serializeRefused {err} (hp : a.phase = .serialize)
    (hb : p.serializer.serialize a.state = .error err) :
    Step gid a m .serialize { a with phase := .remove } m
  | save {bytes n} (hp : a.phase = .save bytes n) (he : p.entry = .run false) :
    Step gid a m (.save none) { a with saved := a.saved ++ [a.turns.length], phase := .remove }
      (m.save gid bytes)
  | saveReplicated {bytes n} (hp : a.phase = .save bytes n) (he : p.entry = .run true) :
    Step gid a m (.save none)
      { a with saved := a.saved ++ [a.turns.length], phase := .finalPublish bytes }
      (m.save gid bytes)
  | saveVersioned {bytes n V} (hp : a.phase = .save bytes n) (he : p.entry = .runVersioned V) :
    Step gid a m (.save none)
      { a with saved := a.saved ++ [a.turns.length], phase := .saveVersion } (m.save gid bytes)
  | saveRetry {bytes n err} (hp : a.phase = .save bytes n) :
    Step gid a m (.save (some err)) { a with phase := .save bytes (n + 1) } m
  | saveGivenUp {bytes n err} (hp : a.phase = .save bytes n) :
    Step gid a m (.save (some err)) { a with phase := .remove } m
  | finalPublish {bytes d} (hp : a.phase = .finalPublish bytes) :
    Step gid a m (.send d) { a with phase := .remove } (m.publish gid bytes d)
  | tag {V} (hp : a.phase = .saveVersion) (he : p.entry = .runVersioned V) :
    Step gid a m (.save none) { a with phase := .remove }
      (m.save (versionGrainId gid) (V.encodeVersion V.stateVersion))
  | tagRefused {err} (hp : a.phase = .saveVersion) :
    Step gid a m (.save (some err)) { a with phase := .remove } m
  | remove (hp : a.phase = .remove) : Step gid a m .remove { a with phase := .ended } m

variable {p} {gid : GrainId} {m m' : Shared} {fault : Option PersistenceError}

theorem loadStep_sound (h : p.loadStep gid a m fault = some a') :
    p.Step gid a m (.load fault) a' m := by
  revert h
  fun_cases loadStep p gid a m fault <;> intro h <;> cases h
  next he hp _ hr => exact .loadRun hp he hr
  next replicated he hp err hr _ =>
    exact .loadRetry hp (by rw [hp]; exact ⟨replicated, err, he, hr⟩)
  next replicated he hp err hr _ =>
    exact .loadFailed (hp ▸ rfl) (by rw [hp]; exact ⟨replicated, err, he, hr⟩)
  next he hp _ hv => exact .loadTag hp he hv
  next V he hp err hv => exact .loadFailed (hp ▸ rfl) (by rw [hp]; exact ⟨V, err, he, hv⟩)
  next he hp _ hr => exact .loadVersioned hp he hr
  next V he hp err hr => exact .loadFailed (hp ▸ rfl) (by rw [hp]; exact ⟨V, err, he, hr⟩)

theorem prepareStep_sound {now d} (hp : a.phase = .persist)
    (h : p.prepareStep gid a m now d = (a', m')) : p.Step gid a m (.prepare now d) a' m' := by
  unfold prepareStep at h
  rcases p.preparePersist_cases a.state a.lastSave now with
    ⟨t, hplan, hw⟩ | ⟨t, bytes, hplan, hw, hr, hb⟩ | ⟨t, err, hplan, hb⟩ | ⟨t, bytes, hplan, hb⟩
  · rw [hplan] at h
    cases h
    exact .skip hp hw
  · rw [hplan] at h
    cases h
    exact .replicate hp hw hr hb
  · rw [hplan] at h
    cases h
    exact .serializeFailed hp hb
  · rw [hplan] at h
    cases h
    exact .write hp hb

theorem saveStep_sound (h : p.saveStep gid a m fault = some (a', m')) :
    p.Step gid a m (.save fault) a' m' := by
  revert h
  fun_cases saveStep p gid a m fault <;> intro h <;>
    first | cases h | obtain ⟨rfl, rfl⟩ := Prod.mk.inj (some.inj h)
  next hp _ _ hr => exact .flushReplicated hp hr
  next hp _ _ hr => exact .flush hp (by simpa using hr)
  next hp => exact .flushRefused hp
  next hp _ _ he => exact .saveReplicated hp he
  next hp _ _ he => exact .save hp he
  next hp _ _ _ he => exact .saveVersioned hp he
  next hp _ => exact .saveRetry hp
  next hp _ => exact .saveGivenUp hp
  next hp _ he => exact .tag hp he
  next hp => exact .tagRefused hp

theorem handlerStep_sound {k e}
    (h : p.handlerStep gid a m k e = some (a', m')) : p.Step gid a m (.handler k e) a' m' := by
  revert h
  fun_cases handlerStep p gid a m k e <;> intro h <;>
    first | cases h | obtain ⟨rfl, rfl⟩ := Prod.mk.inj (some.inj h)
  next hk hl => exact .acquire hk hl
  next hk _ hs => exact .runOk hk hs
  next hk _ hs => exact .runPanic hk hs
  next hk => exact .release hk
  next hk _ => exact .handlerSave hk
  next hk _ _ => exact .handlerSaveRefused hk
  next hk => exact .handlerSend hk
  next hk => exact .join hk

theorem sendStep_sound {d} (h : sendStep gid a m d = some (a', m')) :
    p.Step gid a m (.send d) a' m' := by
  revert h
  fun_cases sendStep gid a m d <;> intro h <;> cases h
  next hp => exact .publish hp
  next hp => exact .finalPublish hp

theorem step_sound {e} (h : p.step gid a m e = some (a', m')) : p.Step gid a m e a' m' := by
  revert h
  fun_cases step p gid a m e <;> intro h <;> try cases h
  next fault =>
    obtain ⟨a₁, ha₁, h'⟩ := map_eq_some_iff.mp h
    cases h'
    exact loadStep_sound ha₁
  next hp _ hs => exact .activateOk hp hs
  next hp _ hs => exact .activatePanic hp hs
  next hr hp => exact .recv hp hr
  next hr hp _ => exact .spawn hp hr
  next hr hp => exact .closed hp hr
  next hr hp => exact .drain hp hr (.inl rfl)
  next hr hp => exact .idleTimeout hp hr
  next hr hp => exact .drain hp hr (.inr rfl)
  next hp _ hs => exact .handleOk hp hs
  next hp _ hs => exact .handlePanic hp hs
  next hp => exact prepareStep_sound hp (some.inj h)
  next => exact saveStep_sound h
  next => exact sendStep_sound h
  next => exact handlerStep_sound h
  next hp hz => exact .drained hp hz
  next hp => exact .deactivate hp
  next hp _ hb => exact .serialize hp hb
  next hp _ hb => exact .serializeRefused hp hb
  next hp => exact .remove hp

end PersistentArgs

/-! ## What holds of every task -/

namespace Activation

def AllJoined (a : Activation S) : Prop :=
  ∀ (k : ℕ) (h : Handler S), a.handlers[k]? = some h → h = .joined

/-- Nothing has happened before the load is over; handler tasks are in flight only in
the loop and its drain, and only in a reentrant grain; one of them holds the lock. -/
structure WF (reentrant : Bool) (a : Activation S) : Prop where
  fresh : a.phase.loading = true → a.turns = [] ∧ a.replied = [] ∧ a.saved = []
  joined : a.phase.inLoop = false → a.AllJoined
  sequential : reentrant = false → a.handlers = []
  processing : a.phase.processing = true → a.fsm = .processing
  idle : a.phase = .loop → a.fsm = .idle
  exclusive : ∀ (j k : ℕ) (h h' : Handler S), a.handlers[j]? = some h →
    a.handlers[k]? = some h' → h.holdsLock = true → h'.holdsLock = true → j = k

theorem phase_settle {P : Phase S → Prop} (hloop : P .loop) (hremove : P .remove)
    (hdeact : P .deactivate) (a : Activation S) (fsm) : P (a.settle fsm).phase := by
  simp only [settle]
  split
  · exact hloop
  · split
    · exact hremove
    · exact hdeact

theorem loading_settle (a : Activation S) (fsm) : (a.settle fsm).phase.loading = false :=
  phase_settle (P := fun ph => ph.loading = false) rfl rfl rfl a fsm

theorem processing_settle (a : Activation S) (fsm) : (a.settle fsm).phase.processing = false :=
  phase_settle (P := fun ph => ph.processing = false) rfl rfl rfl a fsm

variable {fsm : ActivationState}

theorem idle_of_settle {a : Activation S} (h : (a.settle fsm).phase = .loop) : fsm = .idle := by
  by_contra hi
  simp only [settle, if_neg hi] at h
  split at h <;> cases h

variable {reentrant : Bool} {ph : Phase S}

theorem WF.inLoop (hw : a.WF reentrant) {k : ℕ} {h} (hk : a.handlers[k]? = some h)
    (hj : h ≠ .joined) : a.phase.inLoop = true := by
  by_contra hl
  exact hj (hw.joined (by simpa using hl) k h hk)

theorem WF.joined_of_phase (hw : a.WF reentrant) (hp : a.phase = ph) (hl : ph.inLoop = false) :
    a.AllJoined :=
  hw.joined (hp ▸ hl)

theorem WF.joined_of_sequential (hw : a.WF reentrant) (hr : reentrant = false) : a.AllJoined := by
  intro k h hk
  rw [hw.sequential hr] at hk
  cases hk

theorem start_wf {s} (hproc : ph.processing = false) (hloop : ph ≠ .loop) :
    (start ph fsm s).WF reentrant where
  fresh := fun _ => ⟨rfl, rfl, rfl⟩
  joined := fun _ _ _ => nofun
  sequential := fun _ => rfl
  processing := fun h => nomatch hproc.symm.trans h
  idle := fun h => absurd h hloop
  exclusive := nofun

theorem WF.next (hw : a.WF reentrant) (hh : a'.handlers = a.handlers) (hj : a.AllJoined)
    (hfresh : a'.phase.loading = true → a'.turns = [] ∧ a'.replied = [] ∧ a'.saved = [])
    (hproc : a'.phase.processing = true → a'.fsm = .processing)
    (hidle : a'.phase = .loop → a'.fsm = .idle) : a'.WF reentrant where
  fresh := hfresh
  joined := fun _ k h hk => hj k h (hh ▸ hk)
  sequential := fun hr => hh ▸ hw.sequential hr
  processing := hproc
  idle := hidle
  exclusive := by
    intro j k h h' hjh _ hl _
    rw [hh] at hjh
    rw [hj j h hjh] at hl
    cases hl

theorem WF.settle (hw : a.WF reentrant) (hh : a'.handlers = a.handlers) (hj : a.AllJoined)
    (fsm : ActivationState) : (a'.settle fsm).WF reentrant := by
  refine hw.next hh hj ?_ ?_ idle_of_settle
  · intro h
    cases (loading_settle a' fsm).symm.trans h
  · intro h
    cases (processing_settle a' fsm).symm.trans h

theorem WF.spawn (hw : a.WF reentrant) (hp : a.phase = .loop) (hr : reentrant = true) {env} :
    ({ a with handlers := a.handlers ++ [.waiting env] } : Activation S).WF reentrant :=
  ⟨by simp [hp, loading], by simp [hp, Phase.inLoop], by simp [hr],
    by simp [hp, Phase.processing], hw.idle, snoc hw.exclusive rfl⟩

theorem joined_of_inFlight (hz : a.inFlight = 0) : a.AllJoined := by
  intro k h hk
  have := countP_eq_zero.mp hz h (mem_of_getElem? hk)
  cases h <;> simp_all [Handler.isJoined]

theorem WF.setHandler (hw : a.WF reentrant) {k : ℕ} {h h'} (hk : a.handlers[k]? = some h)
    (hj : h ≠ .joined) (hl : h'.holdsLock = true → h.holdsLock = true ∨ a.lockFree = true)
    (hh : a'.handlers = a.handlers.set k h') (hp : a'.phase = a.phase) (hf : a'.fsm = a.fsm) :
    a'.WF reentrant := by
  have hloop := hw.inLoop hk hj
  have hnil : a.handlers ≠ [] := by
    intro hn
    simp [hn] at hk
  refine ⟨?_, ?_, fun hr => absurd (hw.sequential hr) hnil, ?_, ?_, ?_⟩
  · intro hload
    rw [hp, loading_of_inLoop hloop] at hload
    cases hload
  · intro hno
    rw [hp, hloop] at hno
    cases hno
  · intro hproc
    rw [hp, processing_of_inLoop hloop] at hproc
    cases hproc
  · intro hlp
    rw [hf]
    exact hw.idle (hp ▸ hlp)
  · -- the one holder of the lock is `k`, before the step or only after it
    rw [hh]
    refine set hw.exclusive hk fun hlock j g hg hjk => ?_
    rcases hl hlock with hold | hfree
    · exact other hw.exclusive hk hold hg hjk
    · simpa using all_eq_true.mp hfree g (mem_of_getElem? hg)

end Activation

namespace PersistentArgs

variable {p : PersistentArgs S} {gid : GrainId} {m m' : Shared} {e : MailboxEvent S}

theorem start_wf : p.start.WF p.grain.reentrant := by
  unfold start
  cases p.entry
  · exact Activation.start_wf rfl nofun
  · exact Activation.start_wf rfl nofun

theorem holdsLock_afterRelease (a) : (p.afterRelease a).holdsLock = false := by
  unfold afterRelease
  split
  · split
    · split <;> rfl
    · rfl
  · rfl

theorem Step.wf (hs : p.Step gid a m e a' m') (hw : a.WF p.grain.reentrant) :
    a'.WF p.grain.reentrant := by
  cases hs with
  | loadRetry hp | loadTag hp =>
    exact hw.next rfl (hw.joined_of_phase hp rfl) (fun _ => hw.fresh (hp ▸ rfl)) nofun nofun
  | loadFailed hp => exact hw.next rfl (hw.joined (inLoop_of_loading hp)) nofun nofun nofun
  | activateOk hp _ => exact hw.next rfl (hw.joined_of_phase hp rfl) nofun nofun fun _ => rfl
  | recv hp hr =>
    exact hw.next rfl (hw.joined_of_sequential hr) nofun
      (fun _ => by simp [hw.idle hp, ActivationState.next]) nofun
  | spawn hp hr => exact hw.spawn hp hr
  | closed _ hr | idleTimeout _ hr => exact hw.settle (by rfl) (hw.joined_of_sequential hr) _
  | drain hp hr _ => exact ⟨nofun, nofun, by simp [hr], nofun, nofun, hw.exclusive⟩
  | handlePanic hp | skip hp | serializeFailed hp | flush hp | replicate hp | flushRefused hp
  | publish hp => exact hw.settle (by rfl) (hw.joined_of_phase hp rfl) _
  | handleOk hp _ | write hp _ | flushReplicated hp _ =>
    exact hw.next rfl (hw.joined_of_phase hp rfl) nofun (fun _ => hw.processing (hp ▸ rfl)) nofun
  | acquire hk hl => exact hw.setHandler hk nofun (fun _ => .inr hl) rfl rfl rfl
  | runOk hk | runPanic hk | release hk =>
    exact hw.setHandler hk nofun (fun _ => .inl rfl) rfl rfl rfl
  | handlerSave hk | handlerSaveRefused hk =>
    refine hw.setHandler hk nofun (fun hl => ?_) rfl rfl rfl
    split at hl <;> cases hl
  | handlerSend hk | join hk => exact hw.setHandler hk nofun (by nofun) rfl rfl rfl
  | drained hp hz => exact hw.next rfl (Activation.joined_of_inFlight hz) nofun nofun nofun
  | _ hp => exact hw.next rfl (hw.joined_of_phase hp rfl) nofun nofun nofun

end PersistentArgs

end Orlando
