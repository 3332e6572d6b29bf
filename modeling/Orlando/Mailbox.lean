import Orlando.Lifecycle
import Orlando.Persistence

/-!
# Mailbox tasks

One step function for each mailbox the runtime spawns : `run_mailbox` (`Grain.mailboxStep`),
`run_reentrant_mailbox` (`Grain.reentrantMailboxStep`) and the persistent `run` and `run_versioned`
(`PersistentArgs.step`). A step goes from one await point to the next. Its event carries what the
task cannot choose : the message, the store's answer, the clock, which handler task runs.

An `Activation` also keeps its history, which no step reads : the state it was loaded with, its
turns, and for each reply and accepted save the number of turns before it.
-/

namespace Orlando

/-- Handlers of a reentrant grain that may be in flight at once. -/
def maxConcurrent : ℕ :=
  256

/-- Where a task spawned for one message of a reentrant grain stands. Bytes are kept with
the number of turns of the state they were serialized from. -/
inductive Handler (S : Type) where
  | waiting (env : Envelope S)
  | locked (env : Envelope S)
  | handled
  | saving (bytes : Bytes) (n : ℕ)
  | sending (bytes : Bytes) (n : ℕ)
  | finished
  | joined

def Handler.holdsLock {S : Type} : Handler S → Bool
  | locked _ => true
  | handled => true
  | _ => false

def Handler.isJoined {S : Type} : Handler S → Bool
  | joined => true
  | _ => false

/-- Where a mailbox task stands. -/
inductive Phase (S : Type) where
  | load (attempt : ℕ)
  | loadVersion
  | loadState (stored : ℕ)
  | activate
  | loop
  | handling (env : Envelope S)
  | persist
  | flush (bytes : Bytes)
  | publish (bytes : Bytes)
  | drain
  | deactivate
  | serialize
  | save (bytes : Bytes) (attempt : ℕ)
  | finalPublish (bytes : Bytes)
  | saveVersion
  | remove
  | ended

/-- A mailbox task : its control point, what it holds in memory, and its history. -/
structure Activation (S : Type) where
  phase : Phase S
  fsm : ActivationState
  state : S
  faulted : Bool
  lastSave : ℕ
  handlers : List (Handler S)
  loaded : S
  loadFailed : Bool
  /-- User code that ran on the state, oldest first. -/
  turns : List (Turn S)
  /-- The turn of each message whose awaited reply was sent. -/
  replied : List ℕ
  /-- The number of turns of the state in each accepted save. -/
  saved : List ℕ

/-- What one task of a reentrant grain does next. -/
inductive HandlerEvent where
  | acquire
  | run
  | release
  | save (fault : Option PersistenceError)
  | send (delivered : Bool)
  | join

/-- A step of a mailbox task, with what the task does not choose. -/
inductive MailboxEvent (S : Type) where
  | load (fault : Option PersistenceError)
  | onActivate (now : ℕ)
  | recv (env : Envelope S)
  | closed
  | idleTimeout
  | handle
  | prepare (now : ℕ) (delivered : Bool)
  | save (fault : Option PersistenceError)
  | send (delivered : Bool)
  | handler (k : ℕ) (e : HandlerEvent)
  | drained
  | onDeactivate
  | serialize
  | remove

variable {S : Type}

namespace Activation

def start (phase : Phase S) (fsm : ActivationState) (s : S) : Activation S where
  phase := phase
  fsm := fsm
  state := s
  faulted := false
  lastSave := 0
  handlers := []
  loaded := s
  loadFailed := false
  turns := []
  replied := []
  saved := []

def begin (a : Activation S) (s : S) : Activation S :=
  { a with phase := .activate, state := s, loaded := s }

def record (a : Activation S) (t : Turn S) (s : S) : Activation S :=
  { a with state := s, turns := a.turns ++ [t] }

def complete (a : Activation S) (env : Envelope S) (s : S) : Activation S :=
  { a.record (.handled env) s with
    replied := if env.awaited then a.replied ++ [a.turns.length] else a.replied }

/-- The next round of a sequential loop, or its end : on to `on_deactivate`, which a
faulted activation skips. -/
def settle (a : Activation S) (fsm : ActivationState) : Activation S :=
  { a with
    fsm := fsm
    faulted := decide (fsm = .faulted)
    phase := if fsm = .idle then .loop else if fsm = .faulted then .remove else .deactivate }

def lockFree (a : Activation S) : Bool :=
  a.handlers.all fun h => !h.holdsLock

def inFlight (a : Activation S) : ℕ :=
  a.handlers.countP fun h => !h.isJoined

def setHandler (a : Activation S) (k : ℕ) (h : Handler S) : Activation S :=
  { a with handlers := a.handlers.set k h }

end Activation

/-! ## The mailboxes of plain grains -/

namespace Grain

variable (g : Grain S)

/-- The events that a step of `run_mailbox` feeds to the state machine. -/
def fed (a : Activation S) : MailboxEvent S → List ActivationEvent
  | .onActivate _ =>
    match g.onActivate a.state with
    | .ok _ => [.activateSucceeded]
    | .panicked _ => [.activateFailed]
  | .recv _ => [.messageReceived]
  | .handle =>
    match a.phase with
    | .handling env =>
      match env.handleFn a.state with
      | .ok _ => [.handlerCompleted]
      | .panicked _ => [.handlerPanicked]
    | _ => []
  | .closed => [.channelClosed]
  | .idleTimeout => [.idleTimeout]
  | .onDeactivate => [.drainComplete, .deactivateComplete]
  -- The teardown of a faulted activation. The other one is closed already.
  | .remove => if a.fsm = .faulted then [.deactivateComplete] else []
  | _ => []

def advance (a : Activation S) (e : MailboxEvent S) : ActivationState :=
  (g.fed a e).foldl .next a.fsm

def mailboxStep (a : Activation S) (e : MailboxEvent S) : Option (Activation S) :=
  match e with
  | .onActivate _ =>
    match a.phase with
    | .activate =>
      match g.onActivate a.state with
      | .ok s => some ((a.record .activate s).settle (g.advance a e))
      | .panicked s => some ((a.record .activate s).settle (g.advance a e))
    | _ => none
  | .recv env =>
    match a.phase with
    | .loop => some { a with phase := .handling env, fsm := g.advance a e }
    | _ => none
  | .closed =>
    match a.phase with
    | .loop => some (a.settle (g.advance a e))
    | _ => none
  | .idleTimeout =>
    match a.phase with
    | .loop => some (a.settle (g.advance a e))
    | _ => none
  | .handle =>
    match a.phase with
    | .handling env =>
      match env.handleFn a.state with
      | .ok s => some ((a.complete env s).settle (g.advance a e))
      | .panicked s => some ((a.record (.panicked env) s).settle (g.advance a e))
    | _ => none
  | .onDeactivate =>
    match a.phase with
    | .deactivate =>
      some { a.record .deactivate (g.onDeactivate a.state).state with
        phase := .remove
        fsm := g.advance a e }
    | _ => none
  | .remove =>
    match a.phase with
    | .remove => some { a with phase := .ended, fsm := g.advance a e }
    | _ => none
  | _ => none

variable {g} in
theorem fsm_of_step {a a' e} (h : g.mailboxStep a e = some a') : a'.fsm = g.advance a e := by
  revert h
  fun_cases mailboxStep g a e <;> intro h <;> cases h <;> rfl

def reentrantHandlerStep (a : Activation S) (k : ℕ) : HandlerEvent → Option (Activation S)
  | .acquire =>
    match a.handlers[k]? with
    | some (.waiting env) => if a.lockFree then some (a.setHandler k (.locked env)) else none
    | _ => none
  | .run =>
    match a.handlers[k]? with
    | some (.locked env) =>
      match env.handleFn a.state with
      | .ok s => some ((a.complete env s).setHandler k .finished)
      | .panicked s => some ((a.record (.panicked env) s).setHandler k .finished)
    | _ => none
  | .join =>
    match a.handlers[k]? with
    | some .finished => some (a.setHandler k .joined)
    | _ => none
  | _ => none

def reentrantMailboxStep (a : Activation S) : MailboxEvent S → Option (Activation S)
  | .onActivate _ =>
    match a.phase with
    | .activate =>
      match g.onActivate a.state with
      | .ok s => some ((a.record .activate s).settle (a.fsm.next .activateSucceeded))
      | .panicked s => some ((a.record .activate s).settle (a.fsm.next .activateFailed))
    | _ => none
  | .recv env =>
    match a.phase with
    | .loop =>
      if a.inFlight < maxConcurrent then some { a with handlers := a.handlers ++ [.waiting env] }
      else none
    | _ => none
  | .closed =>
    match a.phase with
    | .loop => some { a with phase := .drain, fsm := a.fsm.next .channelClosed }
    | _ => none
  | .idleTimeout =>
    match a.phase with
    | .loop => some { a with phase := .drain, fsm := a.fsm.next .idleTimeout }
    | _ => none
  | .handler k e => reentrantHandlerStep a k e
  | .drained =>
    match a.phase with
    | .drain => if a.inFlight = 0 then some { a with phase := .deactivate } else none
    | _ => none
  | .onDeactivate =>
    match a.phase with
    | .deactivate =>
      some { a.record .deactivate (g.onDeactivate a.state).state with
        phase := .remove
        fsm := (a.fsm.next .drainComplete).next .deactivateComplete }
    | _ => none
  | .remove =>
    match a.phase with
    | .remove => some { a with phase := .ended, fsm := a.fsm.next .deactivateComplete }
    | _ => none
  | _ => none

end Grain

/-! ## The persistent mailbox -/

namespace PersistentArgs

variable (p : PersistentArgs S)

/-- The first phase of the task, `State::default()` standing for the state not loaded
yet. -/
def start : Activation S :=
  match p.entry with
  | .run _ => .start (.load 1) .idle p.grain.default
  | .runVersioned _ => .start .loadVersion .idle p.grain.default

def beginDefault (a : Activation S) : Activation S :=
  { a.begin p.grain.default with loadFailed := true }

def loadStep (gid : GrainId) (a : Activation S) (m : Shared) (fault : Option PersistenceError) :
    Option (Activation S) :=
  match a.phase, p.entry with
  | .load n, .run _ =>
    match loadState p.serializer (loadAnswer fault (m.store.get gid)) with
    | .ok s => some (a.begin (s.getD p.grain.default))
    | .error _ => if n < 3 then some { a with phase := .load (n + 1) } else some (p.beginDefault a)
  | .loadVersion, .runVersioned V =>
    match V.storedVersion (loadAnswer fault (m.store.get (versionGrainId gid))) with
    | .ok v => some { a with phase := .loadState v }
    | .error _ => some (p.beginDefault a)
  | .loadState v, .runVersioned V =>
    match V.migrateLoaded p.serializer v (loadAnswer fault (m.store.get gid)) with
    | .ok s => some (a.begin (s.getD p.grain.default))
    | .error _ => some (p.beginDefault a)
  | _, _ => none

/-- `prepare_persist` in `sequential_loop`, up to the flush it may decide on. -/
def prepareStep (gid : GrainId) (a : Activation S) (m : Shared) (now : ℕ) (delivered : Bool) :
    Activation S × Shared :=
  let r := p.preparePersist a.state a.lastSave now
  let m := match r.2.2 with
    | some bytes => m.publish gid bytes delivered
    | none => m
  let a := { a with lastSave := r.2.1 }
  match r.1 with
  | .skip => (a.settle (a.fsm.next .handlerCompleted), m)
  | .serializeFailed => (a.settle ((a.fsm.next .persistStarted).next .persistFailed), m)
  | .write bytes => ({ a with phase := .flush bytes }, m)

/-- The store's answer to a save : the flush of `sequential_loop`, the final save with
its retries, or the version tag. -/
def saveStep (gid : GrainId) (a : Activation S) (m : Shared) (fault : Option PersistenceError) :
    Option (Activation S × Shared) :=
  match a.phase, fault with
  | .flush bytes, none =>
    let a := { a with saved := a.saved ++ [a.turns.length] }
    let m := m.save gid bytes
    if p.replicated then some ({ a with phase := .publish bytes }, m)
    else some (a.settle ((a.fsm.next .persistStarted).next .persistSucceeded), m)
  | .flush _, some _ => some (a.settle ((a.fsm.next .persistStarted).next .persistFailed), m)
  | .save bytes _, none =>
    let a := { a with saved := a.saved ++ [a.turns.length] }
    let m := m.save gid bytes
    match p.entry with
    | .run true => some ({ a with phase := .finalPublish bytes }, m)
    | .run false => some ({ a with phase := .remove }, m)
    | .runVersioned _ => some ({ a with phase := .saveVersion }, m)
  | .save bytes n, some _ =>
    if n < 3 then some ({ a with phase := .save bytes (n + 1) }, m)
    else some ({ a with phase := .remove }, m)
  | .saveVersion, none =>
    match p.entry with
    | .runVersioned V =>
      some ({ a with phase := .remove },
        m.save (versionGrainId gid) (V.encodeVersion V.stateVersion))
    | .run _ => none
  | .saveVersion, some _ => some ({ a with phase := .remove }, m)
  | _, _ => none

/-- A snapshot goes to the sink after its save. -/
def sendStep (gid : GrainId) (a : Activation S) (m : Shared) (delivered : Bool) :
    Option (Activation S × Shared) :=
  match a.phase with
  | .publish bytes =>
    some (a.settle ((a.fsm.next .persistStarted).next .persistSucceeded),
      m.publish gid bytes delivered)
  | .finalPublish bytes => some ({ a with phase := .remove }, m.publish gid bytes delivered)
  | _ => none

/-- What a handler task of `reentrant_loop` does once it has serialized the state under
the lock. -/
def afterRelease (a : Activation S) : Handler S :=
  if p.strategy = .writeThrough ∨ p.replicated = true then
    match p.serializer.serialize a.state with
    | .ok bytes =>
      if p.strategy = .writeThrough then .saving bytes a.turns.length
      else .sending bytes a.turns.length
    | .error _ => .finished
  else .finished

def handlerStep (gid : GrainId) (a : Activation S) (m : Shared) (k : ℕ) :
    HandlerEvent → Option (Activation S × Shared)
  | .acquire =>
    match a.handlers[k]? with
    | some (.waiting env) => if a.lockFree then some (a.setHandler k (.locked env), m) else none
    | _ => none
  | .run =>
    match a.handlers[k]? with
    | some (.locked env) =>
      match env.handleFn a.state with
      | .ok s => some ((a.complete env s).setHandler k .handled, m)
      | .panicked s => some ((a.record (.panicked env) s).setHandler k .finished, m)
    | _ => none
  | .release =>
    match a.handlers[k]? with
    | some .handled => some (a.setHandler k (p.afterRelease a), m)
    | _ => none
  | .save fault =>
    match a.handlers[k]? with
    | some (.saving bytes n) =>
      let a := a.setHandler k (if p.replicated then .sending bytes n else .finished)
      match fault with
      | none => some ({ a with saved := a.saved ++ [n] }, m.save gid bytes)
      | some _ => some (a, m)
    | _ => none
  | .send delivered =>
    match a.handlers[k]? with
    | some (.sending bytes _) => some (a.setHandler k .finished, m.publish gid bytes delivered)
    | _ => none
  | .join =>
    match a.handlers[k]? with
    | some .finished => some (a.setHandler k .joined, m)
    | _ => none

/-- `run` and `run_versioned`, with `run_lifecycle` and its two loops. -/
def step (gid : GrainId) (a : Activation S) (m : Shared) :
    MailboxEvent S → Option (Activation S × Shared)
  | .load fault => (p.loadStep gid a m fault).map fun a => (a, m)
  | .onActivate now =>
    match a.phase with
    | .activate =>
      match p.grain.onActivate a.state with
      | .ok s =>
        some ({ a.record .activate s with phase := .loop, fsm := .idle, lastSave := now }, m)
      | .panicked s => some ({ a.record .activate s with phase := .remove, faulted := true }, m)
    | _ => none
  | .recv env =>
    match a.phase, p.grain.reentrant with
    | .loop, false =>
      some ({ a with phase := .handling env, fsm := a.fsm.next .messageReceived }, m)
    | .loop, true =>
      if a.inFlight < maxConcurrent then
        some ({ a with handlers := a.handlers ++ [.waiting env] }, m)
      else none
    | _, _ => none
  | .closed =>
    match a.phase, p.grain.reentrant with
    | .loop, false => some (a.settle (a.fsm.next .channelClosed), m)
    | .loop, true => some ({ a with phase := .drain }, m)
    | _, _ => none
  | .idleTimeout =>
    match a.phase, p.grain.reentrant with
    | .loop, false => some (a.settle (a.fsm.next .idleTimeout), m)
    | .loop, true => some ({ a with phase := .drain }, m)
    | _, _ => none
  | .handle =>
    match a.phase with
    | .handling env =>
      match env.handleFn a.state with
      | .ok s => some ({ a.complete env s with phase := .persist }, m)
      | .panicked s => some ((a.record (.panicked env) s).settle (a.fsm.next .handlerPanicked), m)
    | _ => none
  | .prepare now delivered =>
    match a.phase with
    | .persist => some (p.prepareStep gid a m now delivered)
    | _ => none
  | .save fault => p.saveStep gid a m fault
  | .send delivered => sendStep gid a m delivered
  | .handler k e => p.handlerStep gid a m k e
  | .drained =>
    match a.phase with
    | .drain => if a.inFlight = 0 then some ({ a with phase := .deactivate }, m) else none
    | _ => none
  | .onDeactivate =>
    match a.phase with
    | .deactivate =>
      some ({ a.record .deactivate (p.grain.onDeactivate a.state).state with
        phase := .serialize }, m)
    | _ => none
  | .serialize =>
    match a.phase with
    | .serialize =>
      match p.serializer.serialize a.state with
      | .ok bytes => some ({ a with phase := .save bytes 1 }, m)
      | .error _ => some ({ a with phase := .remove }, m)
    | _ => none
  | .remove =>
    match a.phase with
    | .remove => some ({ a with phase := .ended }, m)
    | _ => none

end PersistentArgs

/-! ## A counter -/

def counter (reentrant : Bool) (strategy : PersistenceStrategy) (entry : PersistentEntry) :
    PersistentArgs UInt8 where
  grain := { default := 0, onActivate := .ok, onDeactivate := .ok, reentrant := reentrant }
  strategy := strategy
  serializer :=
    { serialize := fun s => .ok [s]
      deserialize := fun bytes => match bytes with
        | [s] => .ok s
        | _ => .error (.deserialization "not one byte") }
  entry := entry

def addMessage (n : UInt8) : Envelope UInt8 where
  handleFn := fun s => .ok (s + n)
  awaited := true

/-- A store without a write and sinks without an entry. -/
def Shared.empty : Shared where
  store := []
  sinks := fun _ => ⟨0, []⟩

end Orlando
