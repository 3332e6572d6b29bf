import Mathlib.Algebra.Group.Nat.Defs
import Orlando.Grain
import Orlando.WriteLog

/-!
# Strategies, serializers, loading and the replication sink

The parts of `orlando-persistence` the mailbox is built from : when a state is written
(`PersistenceStrategy`, `preparePersist`), how stored bytes become a state (`loadState`, and
`storedVersion` followed by `migrateLoaded` for a versioned grain), and the numbered snapshots of
the replication sink (`Sink.send`).
-/

namespace Orlando

/-- `PersistenceError`, its sources as text. -/
inductive PersistenceError where
  | serialization (msg : String)
  | deserialization (msg : String)
  | io (msg : String)
  | sqlite (msg : String)
  | postgres (msg : String)
  | migration (msg : String)
  | etagMismatch (expected actual : Option String)
deriving DecidableEq, Repr

/-- When the state is written. Intervals are in milliseconds. -/
inductive PersistenceStrategy where
  | writeOnDeactivate
  | writeThrough
  | writeBack (interval : ℕ)
deriving DecidableEq, Repr

structure Serializer (S : Type) where
  serialize : S → Except PersistenceError Bytes
  deserialize : Bytes → Except PersistenceError S

def Serializer.RoundTrips {S : Type} (ser : Serializer S) : Prop :=
  ∀ s b, ser.serialize s = .ok b → ser.deserialize b = .ok s

/-- What `VersionedGrain` adds, with the codec of the version tag. -/
structure VersionedGrain where
  stateVersion : ℕ
  migrate : ℕ → Bytes → Except PersistenceError Bytes
  encodeVersion : ℕ → Bytes
  decodeVersion : Bytes → Except PersistenceError ℕ

/-- Which persistent mailbox is run : `run`, with or without a replication sink, or
`run_versioned`, which never has one. -/
inductive PersistentEntry where
  | run (replicated : Bool)
  | runVersioned (V : VersionedGrain)

/-- What `run` and `run_versioned` are called with. -/
structure PersistentArgs (S : Type) where
  grain : Grain S
  strategy : PersistenceStrategy
  serializer : Serializer S
  entry : PersistentEntry

def PersistentArgs.replicated {S : Type} (p : PersistentArgs S) : Bool :=
  match p.entry with
  | .run replicated => replicated
  | .runVersioned _ => false

/-- The store's answer to a load : an error, or what it holds. -/
def loadAnswer (fault : Option PersistenceError) (held : Option Bytes) :
    Except PersistenceError (Option Bytes) :=
  match fault with
  | some e => .error e
  | none => .ok held

def loadState {S : Type} (ser : Serializer S) (answer : Except PersistenceError (Option Bytes)) :
    Except PersistenceError (Option S) := do
  match ← answer with
  | none => return none
  | some bytes => return some (← ser.deserialize bytes)

theorem loadState_some {S : Type} (ser : Serializer S) (b) :
    loadState ser (.ok (some b)) = (ser.deserialize b).map some := by
  simp only [loadState, bind, Except.bind, pure, Except.pure]
  cases ser.deserialize b <;> rfl

namespace VersionedGrain

variable (V : VersionedGrain)

/-- The stored version, `0` for a grain without a tag. -/
def storedVersion (answer : Except PersistenceError (Option Bytes)) :
    Except PersistenceError ℕ := do
  match ← answer with
  | none => return 0
  | some bytes => V.decodeVersion bytes

/-- The migration steps from `stored` up to the current version, in order. -/
def migrateChain (stored : ℕ) (bytes : Bytes) : Except PersistenceError Bytes :=
  (List.range' stored (V.stateVersion - stored)).foldlM (fun b v => V.migrate v b) bytes

/-- `load_versioned_state` once the stored version is known. -/
def migrateLoaded {S : Type} (ser : Serializer S) (stored : ℕ)
    (answer : Except PersistenceError (Option Bytes)) : Except PersistenceError (Option S) := do
  match ← answer with
  | none => return none
  | some bytes =>
    if V.stateVersion < stored then
      throw (.deserialization s!"stored version {stored} is newer than current version {V.stateVersion} -- cannot downgrade")
    let bytes ← V.migrateChain stored bytes
    return some (← ser.deserialize bytes)

def loadVersionedState {S : Type} (ser : Serializer S) (store : WriteLog GrainId Bytes)
    (gid : GrainId) : Except PersistenceError (Option S) := do
  let stored ← V.storedVersion (.ok (store.get (versionGrainId gid)))
  V.migrateLoaded ser stored (.ok (store.get gid))

theorem storedVersion_tag {b v} (h : V.decodeVersion b = .ok v) :
    V.storedVersion (.ok (some b)) = .ok v := by
  simp [storedVersion, bind, Except.bind, h]

theorem migrateLoaded_current {S : Type} (ser : Serializer S) (b) :
    V.migrateLoaded ser V.stateVersion (.ok (some b)) = (ser.deserialize b).map some := by
  simp only [migrateLoaded, migrateChain, bind, Except.bind, Nat.lt_irrefl, if_false, Nat.sub_self,
    List.range'_zero, List.foldlM_nil, pure, Except.pure]
  cases ser.deserialize b <;> rfl

end VersionedGrain

/-- The durable action decided after a handler ran. -/
inductive PersistPlan where
  | skip
  | serializeFailed
  | write (bytes : Bytes)
deriving DecidableEq, Repr

namespace PersistentArgs

variable {S : Type} (p : PersistentArgs S)

/-- `prepare_persist` : the plan, the new time of the last save, and the bytes to
replicate at once. -/
def preparePersist (state : S) (lastSave now : ℕ) : PersistPlan × ℕ × Option Bytes :=
  match p.strategy with
  | .writeThrough =>
    match p.serializer.serialize state with
    | .ok bytes => (.write bytes, lastSave, none)
    | .error _ => (.serializeFailed, lastSave, none)
  | .writeBack interval =>
    if now - lastSave < interval then (.skip, lastSave, none)
    else
      match p.serializer.serialize state with
      | .ok bytes => (.write bytes, now, none)
      | .error _ => (.serializeFailed, now, none)
  | .writeOnDeactivate =>
    (.skip, lastSave, if p.replicated then (p.serializer.serialize state).toOption else none)

theorem preparePersist_cases (state lastSave now) :
    (∃ t, p.preparePersist state lastSave now = (.skip, t, none) ∧ p.strategy ≠ .writeThrough) ∨
    (∃ t bytes, p.preparePersist state lastSave now = (.skip, t, some bytes) ∧
      p.strategy ≠ .writeThrough ∧ p.replicated = true ∧
      p.serializer.serialize state = .ok bytes) ∨
    (∃ t err, p.preparePersist state lastSave now = (.serializeFailed, t, none) ∧
      p.serializer.serialize state = .error err) ∨
    ∃ t bytes, p.preparePersist state lastSave now = (.write bytes, t, none) ∧
      p.serializer.serialize state = .ok bytes := by
  unfold preparePersist
  cases p.strategy with
  | writeThrough =>
    cases hs : p.serializer.serialize state with
    | ok bytes => exact .inr (.inr (.inr ⟨lastSave, bytes, rfl, rfl⟩))
    | error err => exact .inr (.inr (.inl ⟨lastSave, err, rfl, rfl⟩))
  | writeBack interval =>
    by_cases ht : now - lastSave < interval
    · exact .inl ⟨lastSave, by simp [ht], by simp⟩
    · cases hs : p.serializer.serialize state with
      | ok bytes => exact .inr (.inr (.inr ⟨now, bytes, by simp [ht], rfl⟩))
      | error err => exact .inr (.inr (.inl ⟨now, err, by simp [ht], rfl⟩))
  | writeOnDeactivate =>
    cases hr : p.replicated with
    | false => exact .inl ⟨lastSave, by simp, by simp⟩
    | true =>
      cases hs : p.serializer.serialize state with
      | ok bytes =>
        exact .inr (.inl ⟨lastSave, bytes, by simp [Except.toOption], by simp, rfl, rfl⟩)
      | error err => exact .inl ⟨lastSave, by simp [Except.toOption], by simp⟩

end PersistentArgs

/-- A replication sink : the next sequence number, a 64-bit counter, and the entries its
channel has taken, oldest first. -/
structure Sink where
  nextSequence : ℕ
  entries : List (ℕ × Bytes)
deriving DecidableEq, Repr

/-- `ReplicationSink::send`. The number is used up also when the channel is full or
closed and drops the entry. -/
def Sink.send (s : Sink) (payload : Bytes) (delivered : Bool) : Sink where
  nextSequence := (s.nextSequence + 1) % 2 ^ 64
  entries := if delivered then s.entries ++ [(s.nextSequence, payload)] else s.entries

/-- What activations share : the state store and the sink of each grain. -/
structure Shared where
  store : WriteLog GrainId Bytes
  sinks : GrainId → Sink

namespace Shared

def save (m : Shared) (gid : GrainId) (bytes : Bytes) : Shared :=
  { m with store := m.store.write gid bytes }

def publish (m : Shared) (gid : GrainId) (bytes : Bytes) (delivered : Bool) : Shared :=
  { m with sinks := Function.update m.sinks gid ((m.sinks gid).send bytes delivered) }

@[simp] theorem store_save (m : Shared) (gid) (bytes) :
    (m.save gid bytes).store = m.store.write gid bytes :=
  rfl

@[simp] theorem sinks_save (m : Shared) (gid) (bytes) :
    (m.save gid bytes).sinks = m.sinks :=
  rfl

@[simp] theorem store_publish (m : Shared) (gid) (bytes) (d) :
    (m.publish gid bytes d).store = m.store :=
  rfl

@[simp] theorem sinks_publish_self (m : Shared) (gid) (bytes) (d) :
    (m.publish gid bytes d).sinks gid = (m.sinks gid).send bytes d := by
  simp [publish]

end Shared

end Orlando
