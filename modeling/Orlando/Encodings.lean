import Orlando.Bincode
import Orlando.Mailbox
import Orlando.Transactions

/-!
# The encodings of a state

A store has a `SerializerFormat`, in which the activation loads the state and the mailbox saves it.
`TransactionContext` and `migrate_state` write and read bincode whatever the format is
(`StateWriter.Writes`, `StateReader.Reads`).
-/

namespace Orlando

open TransactionalGrain InMemoryStateStore Option

inductive SerializerFormat where
  | bincode
  | json
deriving DecidableEq, Repr

/-- A grain type with what `serde` makes of its state, on a store of a format. -/
structure StoredGrain (S : Type) where
  grain : Grain S
  bincode : Serializer S
  json : Serializer S
  format : SerializerFormat

variable {S : Type}

namespace StoredGrain

variable (G : StoredGrain S)

def serializer : Serializer S :=
  match G.format with
  | .bincode => G.bincode
  | .json => G.json

def persistent (strategy : PersistenceStrategy) (entry : PersistentEntry) : PersistentArgs S where
  grain := G.grain
  strategy := strategy
  serializer := G.serializer
  entry := entry

def transactional : TransactionalGrain S where
  grain := G.grain
  serializer := G.serializer
  bincode := G.bincode

end StoredGrain

/-- `migrate_state`, at the codecs that bincode has for the two types. -/
def migrateState {Old New : Type} (old : Serializer Old) (new : Serializer New)
    (transform : Old → New) (bytes : Bytes) : Except PersistenceError Bytes := do
  let old ← old.deserialize bytes
  new.serialize (transform old)

inductive StateWriter where
  | saveState
  | saveWithEtag
  | flush
  | deactivation
  | migrateState
deriving DecidableEq, Repr

inductive StateReader where
  | activation
  | loadVersionedState
  | readState
deriving DecidableEq, Repr

/-- The writer makes `bytes` of the state `s` : in the store, on the way to it, or handed on by a
migration step. -/
def StateWriter.Writes (G : StoredGrain S) (s : S) (bytes : Bytes) : StateWriter → Prop
  | saveState => ∃ gid d d' k, d.load gid = none ∧ d'.load gid = some bytes ∧
      G.transactional.call gid d none (.saveState s k) = some (k (.ok ()), d')
  | saveWithEtag => ∃ gid d d' etag k, d.load gid = none ∧ d'.load gid = some bytes ∧
      G.transactional.call gid d none (.saveWithEtag s none k) = some (k (.ok etag), d')
  | flush =>
    (∃ strategy entry lastSave now r,
      (G.persistent strategy entry).preparePersist s lastSave now = (.write bytes, r)) ∨
    ∃ strategy entry a n, a.state = s ∧
      (G.persistent strategy entry).afterRelease a = .saving bytes n
  | deactivation => ∃ strategy entry gid a m a', a.state = s ∧ a'.phase = .save bytes 1 ∧
      (G.persistent strategy entry).step gid a m .serialize = some (a', m)
  | migrateState => ∃ (Old : Type) (old : Serializer Old) (transform : Old → S) (stored : Bytes),
      (old.deserialize stored).map transform = .ok s ∧
      Orlando.migrateState old G.bincode transform stored = .ok bytes

def StateReader.Reads (G : StoredGrain S) (bytes : Bytes) (s : S) : StateReader → Prop
  | activation => loadState G.serializer (.ok (some bytes)) = .ok (some s)
  | loadVersionedState => ∀ V : VersionedGrain,
      V.migrateLoaded G.serializer V.stateVersion (.ok (some bytes)) = .ok (some s)
  | readState => ∀ gid d k, d.load gid = some bytes →
      G.transactional.call gid d none (.readState k) = some (k (.ok (some s)), d)

def StateWriter.serializer (G : StoredGrain S) : StateWriter → Serializer S
  | saveState | saveWithEtag | migrateState => G.bincode
  | flush | deactivation => G.serializer

def StateReader.serializer (G : StoredGrain S) : StateReader → Serializer S
  | activation | loadVersionedState => G.serializer
  | readState => G.bincode

variable {G : StoredGrain S} {s : S} {bytes : Bytes} {w : StateWriter} {p : PersistentArgs S}
  {gid : GrainId}

theorem InMemoryStateStore.load_saveWithEtag_none {d : InMemoryStateStore} (h : d.load gid = none)
    (bytes) : d.saveWithEtag gid bytes none = (.ok d.nextEtag.1, d.save gid bytes) := by
  have hdata := map_eq_none_iff.mp h
  simp only [saveWithEtag, nextEtag, hdata]
  rfl

theorem serialize_of_afterRelease {a n}
    (h : p.afterRelease a = .saving bytes n) : p.serializer.serialize a.state = .ok bytes := by
  unfold PersistentArgs.afterRelease at h
  split at h
  · cases hser : p.serializer.serialize a.state with
    | error e => simp [hser] at h
    | ok bytes' =>
      simp only [hser] at h
      split at h
      · cases h
        rfl
      · cases h
  · cases h

theorem serialize_of_step_serialize {a a' m m'} (h : p.step gid a m .serialize = some (a', m'))
    (hph : a'.phase = .save bytes 1) : p.serializer.serialize a.state = .ok bytes := by
  simp only [PersistentArgs.step] at h
  cases hp : a.phase with
  | serialize =>
    cases hser : p.serializer.serialize a.state with
    | error e =>
      simp only [hp, hser, some.injEq, Prod.mk.injEq] at h
      rw [← h.1] at hph
      cases hph
    | ok bytes' =>
      simp only [hp, hser, some.injEq, Prod.mk.injEq] at h
      rw [← h.1] at hph
      cases hph
      rfl
  | _ => simp [hp] at h

theorem StateWriter.serialize_of_writes (h : w.Writes G s bytes) :
    (w.serializer G).serialize s = .ok bytes := by
  cases w with
  | saveState =>
    obtain ⟨gid, d, d', k, hn, hs, hc⟩ := h
    change G.bincode.serialize s = .ok bytes
    cases hser : G.bincode.serialize s with
    | error e =>
      simp only [call, StoredGrain.transactional, hser] at hc
      obtain ⟨-, rfl⟩ := Prod.mk.inj (some.inj hc)
      cases hn.symm.trans hs
    | ok bytes' =>
      simp only [call, StoredGrain.transactional, hser] at hc
      obtain ⟨-, rfl⟩ := Prod.mk.inj (some.inj hc)
      rw [load_save] at hs
      rw [some.inj hs]
  | saveWithEtag =>
    obtain ⟨gid, d, d', etag, k, hn, hs, hc⟩ := h
    change G.bincode.serialize s = .ok bytes
    cases hser : G.bincode.serialize s with
    | error e =>
      simp only [call, StoredGrain.transactional, hser] at hc
      obtain ⟨-, rfl⟩ := Prod.mk.inj (some.inj hc)
      cases hn.symm.trans hs
    | ok bytes' =>
      simp only [call, StoredGrain.transactional, hser, load_saveWithEtag_none hn] at hc
      obtain ⟨-, rfl⟩ := Prod.mk.inj (some.inj hc)
      rw [load_save] at hs
      rw [some.inj hs]
  | flush =>
    change G.serializer.serialize s = .ok bytes
    rcases h with ⟨strategy, entry, lastSave, now, r, hr⟩ | ⟨strategy, entry, a, n, rfl, hr⟩
    · rcases (G.persistent strategy entry).preparePersist_cases s lastSave now with
        ⟨t, hp, -⟩ | ⟨t, b, hp, -⟩ | ⟨t, err, hp, -⟩ | ⟨t, b, hp, hser⟩
      · cases hp.symm.trans hr
      · cases hp.symm.trans hr
      · cases hp.symm.trans hr
      · cases hp.symm.trans hr
        exact hser
    · exact serialize_of_afterRelease hr
  | deactivation =>
    obtain ⟨strategy, entry, gid, a, m, a', rfl, hphase, hstep⟩ := h
    exact serialize_of_step_serialize hstep hphase
  | migrateState =>
    obtain ⟨Old, old, transform, stored, hmap, hmigrate⟩ := h
    change G.bincode.serialize s = .ok bytes
    unfold Orlando.migrateState at hmigrate
    cases hold : old.deserialize stored with
    | error e => simp [hold, Except.map] at hmap
    | ok value =>
      rw [hold] at hmap hmigrate
      cases hmap
      exact hmigrate

theorem StateWriter.writes_of_serialize (h : (w.serializer G).serialize s = .ok bytes) :
    w.Writes G s bytes := by
  have hn : new.load ⟨"", ""⟩ = none := rfl
  cases w with
  | saveState =>
    change G.bincode.serialize s = .ok bytes at h
    refine ⟨⟨"", ""⟩, .new, new.save ⟨"", ""⟩ bytes, fun _ => .ok s, hn,
      load_save _ _ bytes, ?_⟩
    simp only [call, StoredGrain.transactional, h]
  | saveWithEtag =>
    change G.bincode.serialize s = .ok bytes at h
    refine ⟨⟨"", ""⟩, .new, new.save ⟨"", ""⟩ bytes,
      new.nextEtag.1, fun _ => .ok s, hn,
      load_save _ _ bytes, ?_⟩
    simp only [call, StoredGrain.transactional, h, load_saveWithEtag_none hn]
  | flush =>
    change G.serializer.serialize s = .ok bytes at h
    refine .inl ⟨.writeThrough, .run false, 0, 0, (0, none), ?_⟩
    simp only [PersistentArgs.preparePersist, StoredGrain.persistent, h]
  | deactivation =>
    change G.serializer.serialize s = .ok bytes at h
    refine ⟨.writeThrough, .run false, ⟨"", ""⟩, .start .serialize .idle s, .empty,
      .start (.save bytes 1) .idle s, rfl, rfl, ?_⟩
    simp only [PersistentArgs.step, StoredGrain.persistent, Activation.start, h]
  | migrateState => exact ⟨S, ⟨fun _ => .ok [], fun _ => .ok s⟩, id, [], rfl, h⟩

theorem StateWriter.writes_iff :
    w.Writes G s bytes ↔ (w.serializer G).serialize s = .ok bytes :=
  ⟨serialize_of_writes, writes_of_serialize⟩

theorem map_some_eq_iff {ε : Type} {x : Except ε S} : x.map some = .ok (some s) ↔ x = .ok s := by
  cases x <;> simp [Except.map]

def keepRead (s : S) : Except PersistenceError (Option S) → TxProgram S
  | .ok (some value) => .ok value
  | _ => .panicked s

theorem StateReader.reads_iff {r : StateReader} :
    r.Reads G bytes s ↔ (r.serializer G).deserialize bytes = .ok s := by
  cases r with
  | activation =>
    change loadState G.serializer (.ok (some bytes)) = .ok (some s) ↔
      G.serializer.deserialize bytes = .ok s
    rw [loadState_some, map_some_eq_iff]
  | loadVersionedState =>
    simp only [Reads, StateReader.serializer, VersionedGrain.migrateLoaded_current, map_some_eq_iff]
    exact ⟨fun h => h ⟨0, fun _ => .ok, fun _ => [], fun _ => .ok 0⟩, fun h _ => h⟩
  | readState =>
    constructor
    · intro h
      have hload := load_save .new ⟨"", ""⟩ bytes
      have hc := h ⟨"", ""⟩ _ (keepRead s) hload
      change G.bincode.deserialize bytes = .ok s
      simp only [call, StoredGrain.transactional, hload] at hc
      cases hd : G.bincode.deserialize bytes with
      | error e => simp [hd, keepRead] at hc
      | ok value => simpa [hd, keepRead] using hc
    · intro h gid d k hload
      change G.bincode.deserialize bytes = .ok s at h
      simp only [call, StoredGrain.transactional, hload, h]

def Serializer.ReadsBack (ser : Serializer S) (s : S) : Prop :=
  ∃ bytes, ser.serialize s = .ok bytes ∧ ser.deserialize bytes = .ok s

/-- Both formats read the state from what bincode makes of it, and bincode does from what JSON
makes of it. -/
structure StoredGrain.Interchangeable (G : StoredGrain S) (s : S) : Prop where
  bincode : ∀ bytes, G.bincode.serialize s = .ok bytes →
    G.bincode.deserialize bytes = .ok s ∧ G.json.deserialize bytes = .ok s
  json : ∀ bytes, G.json.serialize s = .ok bytes → G.bincode.deserialize bytes = .ok s

theorem StateWriter.serializer_cases (G : StoredGrain S) (w : StateWriter) :
    w.serializer G = G.bincode ∨ w.serializer G = G.serializer := by
  cases w with
  | flush | deactivation => exact .inr rfl
  | _ => exact .inl rfl

theorem StateReader.serializer_cases (G : StoredGrain S) (r : StateReader) :
    r.serializer G = G.bincode ∨ r.serializer G = G.serializer := by
  cases r with
  | readState => exact .inl rfl
  | _ => exact .inr rfl

/-- Every reader reads what every writer has written if the format is `Bincode`, and if it is `Json`
just for the states whose two encodings read as each other. -/
theorem one_encoding_iff (G : StoredGrain S) (s : S) (h : G.serializer.ReadsBack s) :
    (∀ (w : StateWriter) (r : StateReader) (bytes : Bytes),
      w.Writes G s bytes → r.Reads G bytes s) ↔
    G.format = .bincode ∨ G.Interchangeable s := by
  obtain ⟨held, hheld, hback⟩ := h
  simp only [StateWriter.writes_iff, StateReader.reads_iff]
  cases hformat : G.format with
  | bincode =>
    have hser : G.serializer = G.bincode := by rw [StoredGrain.serializer, hformat]
    refine iff_of_true (fun w r bytes hbytes => ?_) (.inl rfl)
    have hw : w.serializer G = G.serializer := (w.serializer_cases G).elim (hser ▸ ·) id
    have hr : r.serializer G = G.serializer := (r.serializer_cases G).elim (hser ▸ ·) id
    rw [hw, hheld] at hbytes
    cases hbytes
    rw [hr, hback]
  | json =>
    have hser : G.serializer = G.json := by rw [StoredGrain.serializer, hformat]
    rw [hser] at hheld hback
    constructor
    · intro hall
      refine .inr ⟨fun bytes hbytes => ⟨hall .saveState .readState bytes hbytes, ?_⟩,
        fun bytes hbytes => ?_⟩
      · exact hser ▸ hall .saveState .activation bytes hbytes
      · have hflush : (StateWriter.flush.serializer G).serialize s = .ok bytes := by
          rw [StateWriter.serializer, hser, hbytes]
        exact hall .flush .readState bytes hflush
    · rintro (hbincode | hinter) w r bytes hbytes
      · cases hbincode
      rcases w.serializer_cases G with hw | hw
      · rw [hw] at hbytes
        rcases r.serializer_cases G with hr | hr
        · rw [hr, (hinter.bincode bytes hbytes).1]
        · rw [hr, hser, (hinter.bincode bytes hbytes).2]
      · rw [hw, hser] at hbytes
        rcases r.serializer_cases G with hr | hr
        · rw [hr, hinter.json bytes hbytes]
        · rw [hheld] at hbytes
          cases hbytes
          rw [hr, hser, hback]

def Codec.serializer {α : Type} (c : Codec α) : Serializer α where
  serialize := fun a => .ok (c.encode a)
  deserialize := fun bytes => match c.decode bytes with
    | some (a, _) => .ok a
    | none => .error (.deserialization "UnexpectedEnd")

def isJsonSpace (b : UInt8) : Bool :=
  b == 32 || b == 9 || b == 10 || b == 13

/-- The number digits stand for. Only zero begins with a zero, and there is an end to numbers. -/
def readJsonDigits : Bytes → Option UInt64
  | [] => none
  | 48 :: _ :: _ => none
  | digits =>
    if digits.all fun b => 48 ≤ b && b ≤ 57 then
      let n := digits.foldl (fun n b => 10 * n + (b.toNat - 48)) 0
      if n < 2 ^ 64 then some n.toUInt64 else none
    else none

def jsonU64 : Serializer UInt64 where
  serialize := fun n => .ok ((Nat.toDigits 10 n.toNat).map fun c => c.toNat.toUInt8)
  deserialize := fun bytes =>
    match readJsonDigits ((bytes.dropWhile isJsonSpace).reverse.dropWhile isJsonSpace).reverse with
    | some n => .ok n
    | none => .error (.deserialization "invalid number")

def storedCounter64 (format : SerializerFormat) : StoredGrain UInt64 where
  grain := { default := 0, onActivate := .ok, onDeactivate := .ok, reentrant := false }
  bincode := Codec.u64.serializer
  json := jsonU64
  format := format

/-- With `Json` the state that a handler has saved is not read by the next activation, and
`read_state` reads another number. -/
theorem json_store_misreads :
    (storedCounter64 .json).serializer.ReadsBack 7 ∧
      StateWriter.saveState.Writes (storedCounter64 .json) 7 [7] ∧
      ¬StateReader.activation.Reads (storedCounter64 .json) [7] 7 ∧
      StateWriter.flush.Writes (storedCounter64 .json) 7 [55] ∧
      StateReader.readState.Reads (storedCounter64 .json) [55] 55 := by
  simp only [StateWriter.writes_iff, StateReader.reads_iff]
  refine ⟨⟨[55], ?_, ?_⟩, ?_, ?_, ?_, ?_⟩ <;> decide +kernel

theorem one_encoding_bincode : (storedCounter64 .bincode).serializer.ReadsBack 7 ∧
    ∀ (w : StateWriter) (r : StateReader) (bytes : Bytes),
      w.Writes (storedCounter64 .bincode) 7 bytes → r.Reads (storedCounter64 .bincode) bytes 7 :=
  have hback : (storedCounter64 .bincode).serializer.ReadsBack 7 :=
    ⟨[7], by decide +kernel, by decide +kernel⟩
  ⟨hback, (one_encoding_iff _ 7 hback).mpr (.inl rfl)⟩

end Orlando
