import Orlando.Checkpoint
import Orlando.Lifecycle
import Orlando.Persistence
import Orlando.Transition

/-!
# Journaled grains

An event-sourced grain keeps a journal of events and from time to time a snapshot of its state
(`JournaledGrainRef::ask`). The store is the in-memory one (`InMemoryJournalStore`), with entries
numbered from one on. An activation starts from the snapshot and the events after it
(`JournaledGrain.loadState`).

`JournaledGrain.step` follows one grain through its activations, from one await point to the next.
`JournaledGrain.Step` lists what a step can do (`JournaledGrain.step_sound`).
-/

namespace Orlando

/-! ## The journal store -/

structure JournalEntry where
  sequence : ℕ
  eventBytes : Bytes
deriving DecidableEq, Repr

structure GrainJournal where
  events : List JournalEntry
  snapshot : Option (ℕ × Bytes)
deriving DecidableEq, Repr

def GrainJournal.empty : GrainJournal where
  events := []
  snapshot := none

/-- The highest sequence number, `0` before the first entry. -/
def GrainJournal.lastSequence (j : GrainJournal) : ℕ :=
  (j.events.getLast?.map JournalEntry.sequence).getD 0

def GrainJournal.append (j : GrainJournal) (events : List Bytes) : GrainJournal × ℕ :=
  events.foldl
    (fun r bytes => ({ r.1 with events := r.1.events ++ [⟨r.2 + 1, bytes⟩] }, r.2 + 1))
    (j, j.lastSequence)

/-- `InMemoryJournalStore`, the lock around it taken for each call. -/
structure InMemoryJournalStore where
  data : GrainId → Option GrainJournal

namespace InMemoryJournalStore

def new : InMemoryJournalStore where
  data := fun _ => none

def journal (d : InMemoryJournalStore) (gid : GrainId) : GrainJournal :=
  (d.data gid).getD .empty

/-- `append`, with the new highest sequence number. -/
def append (d : InMemoryJournalStore) (gid : GrainId) (events : List Bytes) :
    InMemoryJournalStore × ℕ :=
  let r := (d.journal gid).append events
  (⟨Function.update d.data gid (some r.1)⟩, r.2)

def loadEvents (d : InMemoryJournalStore) (gid : GrainId) : List JournalEntry :=
  (d.journal gid).events

def loadEventsAfter (d : InMemoryJournalStore) (gid : GrainId) (afterSequence : ℕ) :
    List JournalEntry :=
  (d.journal gid).events.filter fun e => afterSequence < e.sequence

def saveSnapshot (d : InMemoryJournalStore) (gid : GrainId) (sequence : ℕ) (stateBytes : Bytes) :
    InMemoryJournalStore :=
  ⟨Function.update d.data gid
    (some { d.journal gid with snapshot := some (sequence, stateBytes) })⟩

def loadSnapshot (d : InMemoryJournalStore) (gid : GrainId) : Option (ℕ × Bytes) :=
  (d.journal gid).snapshot

end InMemoryJournalStore

/-! ## Journaled grains -/

/-- A journaled grain type, with `bincode` at its state and at its event type. `apply` is
the pure function the trait asks for. -/
structure JournaledGrain (S E : Type) where
  grain : Grain S
  apply : S → E → S
  snapshotInterval : ℕ
  states : Serializer S
  events : Serializer E

/-- A message to a journaled grain. The handler reads the state and returns the events it
emits, or panics. -/
structure JournaledMessage (S E : Type) where
  handle : S → Option (List E)

/-- What the envelope closure sees of an activation. -/
structure JournaledState (S : Type) where
  state : S
  sequence : ℕ
  eventsSinceSnapshot : ℕ
  snapshotInterval : ℕ

/-- A message answered `Ok` : the events it emitted, and those of them that went into the
journal. -/
structure JournaledAnswer (E : Type) where
  emitted : List E
  journaled : List E
deriving DecidableEq

variable {S E : Type}

namespace JournaledGrain

variable (G : JournaledGrain S E)

/-- The state after the events `es`, from the default state. -/
def fold (es : List E) : S :=
  es.foldl G.apply G.grain.default

/-- `load_state` up to its second await : the state of the snapshot, if there is one to
be had, and its sequence number. -/
def restore (answer : Except PersistenceError (Option (ℕ × Bytes))) : S × ℕ :=
  match answer with
  | .ok (some (seq, bytes)) =>
    match G.states.deserialize bytes with
    | .ok s => (s, seq)
    | .error _ => (G.grain.default, 0)
  | .ok none => (G.grain.default, 0)
  | .error _ => (G.grain.default, 0)

/-- One turn of the replay loop. An event that cannot be read is skipped. -/
def replayEntry (acc : S × ℕ) (entry : JournalEntry) : S × ℕ :=
  match G.events.deserialize entry.eventBytes with
  | .ok event => (G.apply acc.1 event, entry.sequence)
  | .error _ => acc

/-- The rest of `load_state`. -/
def replayEvents (acc : S × ℕ) (answer : Except PersistenceError (List JournalEntry)) : S × ℕ :=
  match answer with
  | .ok events => events.foldl G.replayEntry acc
  | .error _ => acc

def loadState (store : InMemoryJournalStore) (gid : GrainId) : S × ℕ :=
  let start := G.restore (.ok (store.loadSnapshot gid))
  G.replayEvents start (.ok (store.loadEventsAfter gid start.2))

def encodes (e : E) : Bool :=
  match G.events.serialize e with
  | .ok _ => true
  | .error _ => false

/-- The serialization loop of `ask`. An event that cannot be written is skipped. -/
def encodeEvents (es : List E) : List Bytes :=
  es.filterMap fun e => (G.events.serialize e).toOption

end JournaledGrain

/-! ## The mailbox task -/

def storeAnswer {α : Type} (fault : Option PersistenceError) (result : α) :
    Except PersistenceError α :=
  match fault with
  | some e => .error e
  | none => .ok result

/-- Where the task of a journaled grain stands. -/
inductive JournaledPhase (S E : Type) where
  | loadSnapshot
  | loadEvents (state : S) (sequence : ℕ)
  | activate
  | loop
  | handling (msg : JournaledMessage S E)
  | append (emitted : List E)
  | saveSnapshot (bytes : Bytes) (answer : JournaledAnswer E)
  | deactivate
  | finalSnapshot (bytes : Bytes)
  | remove

def JournaledPhase.loaded : JournaledPhase S E → Bool
  | loadSnapshot => false
  | loadEvents _ _ => false
  | _ => true

/-- The serialized state that waits for the store. -/
def JournaledPhase.snapshot : JournaledPhase S E → Option Bytes
  | saveSnapshot bytes _ => some bytes
  | finalSnapshot bytes => some bytes
  | _ => none

/-- The task `journaled_get_ref` spawns. -/
structure JournaledTask (S E : Type) where
  phase : JournaledPhase S E
  fsm : ActivationState
  journaled : JournaledState S

namespace JournaledTask

def withState (t : JournaledTask S E) (s : S) : JournaledTask S E :=
  { t with journaled := { t.journaled with state := s } }

/-- The next round of the loop, or its end : on to `on_deactivate`, which a faulted
activation skips. -/
def settle (t : JournaledTask S E) (fsm : ActivationState) : JournaledTask S E :=
  { t with
    fsm := fsm
    phase := if fsm = .idle then .loop else if fsm = .faulted then .remove else .deactivate }

theorem phase_settle {P : JournaledPhase S E → Prop} (hloop : P .loop) (hremove : P .remove)
    (hdeact : P .deactivate) (t : JournaledTask S E) (fsm) : P (t.settle fsm).phase := by
  simp only [settle]
  split
  · exact hloop
  · split
    · exact hremove
    · exact hdeact

end JournaledTask

/-- One journaled grain : the store, its activation, and its history. -/
structure Journaled (S E : Type) where
  store : InMemoryJournalStore
  task : Option (JournaledTask S E)
  /-- The events behind the entries of the journal, oldest first. -/
  events : List E
  answers : List (JournaledAnswer E)

namespace Journaled

def init : Journaled S E where
  store := .new
  task := none
  events := []
  answers := []

def move (j : Journaled S E) (t : JournaledTask S E) : Journaled S E :=
  { j with task := some t }

def reply (j : Journaled S E) (t : JournaledTask S E) (a : JournaledAnswer E) :
    Journaled S E :=
  { j with task := some (t.settle (t.fsm.next .handlerCompleted)), answers := j.answers ++ [a] }

def snapshotStep (gid : GrainId) (j : Journaled S E) (t : JournaledTask S E) (bytes : Bytes)
    (a : JournaledAnswer E) (fault : Option PersistenceError) : Journaled S E :=
  match fault with
  | none =>
    reply { j with store := j.store.saveSnapshot gid t.journaled.sequence bytes }
      { t with journaled := { t.journaled with eventsSinceSnapshot := 0 } } a
  | some _ => j.reply t a

end Journaled

/-- A step of a journaled grain, with what the task does not choose. -/
inductive JournaledEvent (S E : Type) where
  | spawn
  | loadSnapshot (fault : Option PersistenceError)
  | loadEvents (fault : Option PersistenceError)
  | onActivate
  | recv (msg : JournaledMessage S E)
  | closed
  | idleTimeout
  | handle
  | append (fault : Option PersistenceError)
  | saveSnapshot (fault : Option PersistenceError)
  | onDeactivate
  | remove
  | crash

namespace JournaledGrain

variable (G : JournaledGrain S E)

/-- The task as it is spawned, `State::default()` standing for the state not loaded yet. -/
def start : JournaledTask S E where
  phase := .loadSnapshot
  fsm := .activating
  journaled := ⟨G.grain.default, 0, 0, G.snapshotInterval⟩

/-- The part of `ask` from `apply` on, up to the snapshot it may decide on. -/
def applyEvents (j : Journaled S E) (t : JournaledTask S E) (a : JournaledAnswer E) :
    Journaled S E :=
  let t := t.withState (a.emitted.foldl G.apply t.journaled.state)
  if 0 < t.journaled.snapshotInterval ∧
      t.journaled.snapshotInterval ≤ t.journaled.eventsSinceSnapshot then
    match G.states.serialize t.journaled.state with
    | .ok bytes => j.move { t with phase := .saveSnapshot bytes a }
    | .error _ => j.reply t a
  else j.reply t a

/-- The answer of `append`, and what `ask` does with it. A failed append is logged. -/
def appendStep (gid : GrainId) (j : Journaled S E) (t : JournaledTask S E) (emitted : List E)
    (fault : Option PersistenceError) : Journaled S E :=
  match fault with
  | none =>
    let bytes := G.encodeEvents emitted
    let r := j.store.append gid bytes
    let journaled := emitted.filter G.encodes
    let js := { t.journaled with
      sequence := r.2
      eventsSinceSnapshot := t.journaled.eventsSinceSnapshot + bytes.length }
    G.applyEvents { j with store := r.1, events := j.events ++ journaled }
      { t with journaled := js } ⟨emitted, journaled⟩
  | some _ => G.applyEvents j t ⟨emitted, []⟩

/-- The envelope closure of `ask`, up to its first await. -/
def handleStep (j : Journaled S E) (t : JournaledTask S E) (msg : JournaledMessage S E) :
    Journaled S E :=
  match msg.handle t.journaled.state with
  | none => j.move (t.settle (t.fsm.next .handlerPanicked))
  | some [] => j.reply t ⟨[], []⟩
  | some (e :: es) =>
    if G.encodeEvents (e :: es) = [] then G.applyEvents j t ⟨e :: es, []⟩
    else j.move { t with phase := .append (e :: es) }

def deactivateStep (t : JournaledTask S E) : JournaledTask S E :=
  let t := { t.withState (G.grain.onDeactivate t.journaled.state).state with
    fsm := t.fsm.next .drainComplete }
  match G.states.serialize t.journaled.state with
  | .ok bytes => { t with phase := .finalSnapshot bytes }
  | .error _ => { t with phase := .remove }

/-- `journaled_mailbox::run` and the envelope closures it runs. -/
def taskStep (gid : GrainId) (j : Journaled S E) (t : JournaledTask S E)
    (e : JournaledEvent S E) : Option (Journaled S E) :=
  match t.phase, e with
  | .loadSnapshot, .loadSnapshot fault =>
    let r := G.restore (storeAnswer fault (j.store.loadSnapshot gid))
    some (j.move { t with phase := .loadEvents r.1 r.2 })
  | .loadEvents s seq, .loadEvents fault =>
    let r := G.replayEvents (s, seq) (storeAnswer fault (j.store.loadEventsAfter gid seq))
    some (j.move { t with phase := .activate, journaled := ⟨r.1, r.2, 0, G.snapshotInterval⟩ })
  | .activate, .onActivate =>
    match G.grain.onActivate t.journaled.state with
    | .ok s => some (j.move ((t.withState s).settle (t.fsm.next .activateSucceeded)))
    | .panicked s => some (j.move ((t.withState s).settle (t.fsm.next .activateFailed)))
  | .loop, .recv msg =>
    some (j.move { t with phase := .handling msg, fsm := t.fsm.next .messageReceived })
  | .loop, .closed => some (j.move (t.settle (t.fsm.next .channelClosed)))
  | .loop, .idleTimeout => some (j.move (t.settle (t.fsm.next .idleTimeout)))
  | .handling msg, .handle => some (G.handleStep j t msg)
  | .append emitted, .append fault => some (G.appendStep gid j t emitted fault)
  | .saveSnapshot bytes a, .saveSnapshot fault => some (j.snapshotStep gid t bytes a fault)
  | .deactivate, .onDeactivate => some (j.move (G.deactivateStep t))
  | .finalSnapshot bytes, .saveSnapshot fault =>
    let store := match fault with
      | none => j.store.saveSnapshot gid t.journaled.sequence bytes
      | some _ => j.store
    some { j with store := store, task := some { t with phase := .remove } }
  | .remove, .remove => some { j with task := none }
  | _, _ => none

def step (gid : GrainId) (j : Journaled S E) (e : JournaledEvent S E) :
    Option (Journaled S E) :=
  match j.task, e with
  | none, .spawn => some (j.move G.start)
  | some _, .crash => some { j with task := none }
  | some t, e => G.taskStep gid j t e
  | none, _ => none

/-! ## What a step does -/

inductive Step (gid : GrainId) (j : Journaled S E) :
    JournaledEvent S E → Journaled S E → Prop
  | spawn (h : j.task = none) : Step gid j .spawn (j.move G.start)
  | crash {t} (h : j.task = some t) : Step gid j .crash { j with task := none }
  | restore {t fault s seq} (h : j.task = some t) (hp : t.phase = .loadSnapshot)
    (hr : G.restore (storeAnswer fault (j.store.loadSnapshot gid)) = (s, seq)) :
    Step gid j (.loadSnapshot fault) (j.move { t with phase := .loadEvents s seq })
  | replay {t : JournaledTask S E} {fault : Option PersistenceError} {s s' : S} {seq seq' : ℕ}
    (h : j.task = some t) (hp : t.phase = .loadEvents s seq)
    (hr : G.replayEvents (s, seq) (storeAnswer fault (j.store.loadEventsAfter gid seq)) =
      (s', seq')) :
    Step gid j (.loadEvents fault)
      (j.move { t with phase := .activate, journaled := ⟨s', seq', 0, G.snapshotInterval⟩ })
  | activate {t s fsm} (h : j.task = some t) (hp : t.phase = .activate)
    (hs : s = (G.grain.onActivate t.journaled.state).state) :
    Step gid j .onActivate (j.move ((t.withState s).settle fsm))
  | recv {t msg} (h : j.task = some t) (hp : t.phase = .loop) :
    Step gid j (.recv msg)
      (j.move { t with phase := .handling msg, fsm := t.fsm.next .messageReceived })
  | leave {t e fsm} (h : j.task = some t) (hp : t.phase = .loop)
    (he : e = .closed ∨ e = .idleTimeout) : Step gid j e (j.move (t.settle fsm))
  | panic {t msg} (h : j.task = some t) (hp : t.phase = .handling msg)
    (hm : msg.handle t.journaled.state = none) :
    Step gid j .handle (j.move (t.settle (t.fsm.next .handlerPanicked)))
  | silent {t msg} (h : j.task = some t) (hp : t.phase = .handling msg)
    (hm : msg.handle t.journaled.state = some []) : Step gid j .handle (j.reply t ⟨[], []⟩)
  | emit {t msg emitted} (h : j.task = some t) (hp : t.phase = .handling msg)
    (hm : msg.handle t.journaled.state = some emitted) (hne : G.encodeEvents emitted ≠ []) :
    Step gid j .handle (j.move { t with phase := .append emitted })
  | unwritten {t msg emitted} (h : j.task = some t) (hp : t.phase = .handling msg)
    (hm : msg.handle t.journaled.state = some emitted) (hne : emitted ≠ [])
    (hnil : G.encodeEvents emitted = []) : Step gid j .handle (G.applyEvents j t ⟨emitted, []⟩)
  | append {t emitted fault} (h : j.task = some t) (hp : t.phase = .append emitted) :
    Step gid j (.append fault) (G.appendStep gid j t emitted fault)
  | saveSnapshot {t bytes a fault} (h : j.task = some t) (hp : t.phase = .saveSnapshot bytes a) :
    Step gid j (.saveSnapshot fault) (j.snapshotStep gid t bytes a fault)
  | deactivate {t} (h : j.task = some t) (hp : t.phase = .deactivate) :
    Step gid j .onDeactivate (j.move (G.deactivateStep t))
  | finalSnapshot {t bytes} (h : j.task = some t) (hp : t.phase = .finalSnapshot bytes) :
    Step gid j (.saveSnapshot none)
      { j with store := j.store.saveSnapshot gid t.journaled.sequence bytes,
               task := some { t with phase := .remove } }
  | finalRefused {t bytes err} (h : j.task = some t) (hp : t.phase = .finalSnapshot bytes) :
    Step gid j (.saveSnapshot (some err)) (j.move { t with phase := .remove })
  | remove {t} (h : j.task = some t) (hp : t.phase = .remove) :
    Step gid j .remove { j with task := none }

variable {G} {gid : GrainId} {j j' : Journaled S E} {t : JournaledTask S E}
  {e : JournaledEvent S E}

theorem handleStep_sound {msg} (ht : j.task = some t)
    (hp : t.phase = .handling msg) : G.Step gid j .handle (G.handleStep j t msg) := by
  unfold handleStep
  split
  · rename_i hm
    exact .panic ht hp hm
  · rename_i hm
    exact .silent ht hp hm
  · rename_i e es hm
    split
    · rename_i hnil
      exact .unwritten ht hp hm (List.cons_ne_nil e es) hnil
    · rename_i hne
      exact .emit ht hp hm hne

theorem taskStep_sound (ht : j.task = some t) (h : G.taskStep gid j t e = some j') :
    G.Step gid j e j' := by
  unfold taskStep at h
  split at h
  · rename_i hp
    cases h
    exact .restore ht hp rfl
  · rename_i hp
    cases h
    exact .replay ht hp rfl
  · rename_i hp
    split at h
    · rename_i hs
      cases h
      exact .activate ht hp (hs ▸ rfl)
    · rename_i hs
      cases h
      exact .activate ht hp (hs ▸ rfl)
  · rename_i hp
    cases h
    exact .recv ht hp
  · rename_i hp
    cases h
    exact .leave ht hp (Or.inl rfl)
  · rename_i hp
    cases h
    exact .leave ht hp (Or.inr rfl)
  · rename_i hp
    cases h
    exact handleStep_sound ht hp
  · rename_i hp
    cases h
    exact .append ht hp
  · rename_i hp
    cases h
    exact .saveSnapshot ht hp
  · rename_i hp
    cases h
    exact .deactivate ht hp
  · rename_i bytes fault hp
    cases h
    cases fault with
    | none => exact .finalSnapshot ht hp
    | some err => exact .finalRefused ht hp
  · rename_i hp
    cases h
    exact .remove ht hp
  · cases h

theorem step_sound (h : G.step gid j e = some j') : G.Step gid j e j' := by
  unfold step at h
  split at h
  · rename_i ht
    cases h
    exact .spawn ht
  · rename_i ht
    cases h
    exact .crash ht
  · rename_i ht _
    exact taskStep_sound ht h
  · cases h

end JournaledGrain

end Orlando
