import Orlando.Bincode
import Orlando.ReplicationConsumer

/-!
# Reads served from a replica

`read_only_ask` of a reference to another cluster looks at the replica of the grain first. The
payload of one that is fresh enough is read as a value of the result type of the message, and only
if that fails the primary is asked. The bytes do not say what they are, so a message about a later
field of the state is answered with the first one (`readOnlyAsk_fst`).
-/

namespace Orlando

open Codec ReplicaStore

def ReplicaStore.isFresh (r : ReplicaStore) (grainType grainKey : String)
    (maxStalenessMillis now : Int64) : Bool :=
  match r.get grainType grainKey with
  | none => false
  | some entry => now - entry.timestampMillis ≤ maxStalenessMillis

structure ReadRef where
  /-- The type and the key of the grain, if the reference is to another silo. -/
  remote : Option (String × String)
  replicaStore : Bool
  maxStaleness : ℕ

inductive ReadOnlyAnswer (R : Type) where
  | replica (result : R)
  | ask
deriving DecidableEq

namespace ReadRef

variable {S R : Type}

/-- The replica that is to be decoded. The store is looked at twice, once for the time of the
replica and once for its payload. -/
def replica (ref : ReadRef) (now : Int64) (tested got : ReplicaStore) : Option ReplicaEntry :=
  match ref.replicaStore, ref.remote with
  | true, some (grainType, grainKey) =>
    let stalenessMillis := Int64.ofNat ref.maxStaleness
    if 0 < stalenessMillis ∧ tested.isFresh grainType grainKey stalenessMillis now then
      got.get grainType grainKey
    else none
  | _, _ => none

def readOnlyAsk (ref : ReadRef) (now : Int64) (tested got : ReplicaStore)
    (decode : Bytes → Option (R × Bytes)) : ReadOnlyAnswer R :=
  match ref.replica now tested got with
  | none => .ask
  | some entry =>
    match decode entry.payload with
    | some (result, _) => .replica result
    | none => .ask

variable {ref : ReadRef} {now : Int64} {tested got : ReplicaStore}
  {decode : Bytes → Option (R × Bytes)} {bytes : Bytes}

section

variable (hbytes : ∀ e, ref.replica now tested got = some e → e.payload = bytes)
include hbytes

theorem readOnlyAsk_eq_replica_iff {r} :
    ref.readOnlyAsk now tested got decode = .replica r ↔
      (ref.replica now tested got).isSome ∧ ∃ rest, decode bytes = some (r, rest) := by
  unfold readOnlyAsk
  cases hrep : ref.replica now tested got with
  | none => simp
  | some e =>
    obtain rfl := hbytes e hrep
    cases hdec : decode e.payload with
    | none => simp [hdec]
    | some p => simp [hdec, Prod.ext_iff]

theorem readOnlyAsk_eq_ask_iff :
    ref.readOnlyAsk now tested got decode = .ask ↔
      ref.replica now tested got = none ∨ decode bytes = none := by
  unfold readOnlyAsk
  cases hrep : ref.replica now tested got with
  | none => simp
  | some e =>
    obtain rfl := hbytes e hrep
    cases hdec : decode e.payload with
    | none => simp [hdec]
    | some p => simp [hdec]

end

/-- A replica answers every message whose result has the type of the first field with the first
field. -/
theorem readOnlyAsk_fst (c : Codec R) (d : Codec S) {s}
    (hbytes : ∀ e, ref.replica now tested got = some e → e.payload = (c.prod d).encode s)
    (hrep : (ref.replica now tested got).isSome) :
    ref.readOnlyAsk now tested got c.decode = .replica s.1 :=
  (readOnlyAsk_eq_replica_iff hbytes).mpr ⟨hrep, c.begins_iff.mp (c.begins_encode_prod d s)⟩

/-- A replica of the state `s` answers with the handler's result exactly if no other value of the
result type has bytes at the front of those of `s`. The primary is asked if no value has. -/
theorem replica_read_iff (encode : S → Bytes) (c : Codec R) (handler : S → R) (ref : ReadRef)
    (now : Int64) (tested got : ReplicaStore) (s : S)
    (hs : ∀ e, ref.replica now tested got = some e → e.payload = encode s) :
    ((∀ r, ref.readOnlyAsk now tested got c.decode = .replica r → r = handler s) ↔
      ref.replica now tested got = none ∨ ∀ r, c.Begins (encode s) r → r = handler s) ∧
    (ref.readOnlyAsk now tested got c.decode = .ask ↔
      ref.replica now tested got = none ∨ ∀ r, ¬c.Begins (encode s) r) := by
  simp only [readOnlyAsk_eq_replica_iff hs, readOnlyAsk_eq_ask_iff hs, c.begins_iff]
  constructor
  · cases ref.replica now tested got with
    | none => simp
    | some e => simp
  · refine or_congr_right ?_
    rw [Option.eq_none_iff_forall_ne_some]
    exact ⟨fun h r hr => h _ hr.choose_spec, fun h p hp => h p.1 ⟨p.2, hp⟩⟩

def counterReplica (payload : Bytes) : ReplicaStore :=
  ReplicaStore.update ∅ "Counter" "c" payload 1 5000

/-- A reference to the counter. Replicas of the last second are good enough. -/
def counterRef : ReadRef where
  remote := some ("Counter", "c")
  replicaStore := true
  maxStaleness := 1000

theorem replica_counterRef (payload) :
    counterRef.replica 5400 (counterReplica payload) (counterReplica payload) =
      some ⟨payload, 1, 5000⟩ := by
  have hfresh : (0 : Int64) < Int64.ofNat 1000 ∧
      decide ((5400 : Int64) - 5000 ≤ Int64.ofNat 1000) = true := by decide
  simp only [replica, counterRef, counterReplica, isFresh, get_update_self]
  exact if_pos hfresh

theorem payload_counterReplica {payload} (e)
    (h : counterRef.replica 5400 (counterReplica payload) (counterReplica payload) = some e) :
    e.payload = payload :=
  congrArg ReplicaEntry.payload (Option.some.inj (h.symm.trans (replica_counterRef payload)))

theorem value_read_from_replica :
    let got := counterReplica (u64.encode 300)
    counterRef.readOnlyAsk 5400 got got u64.decode = .replica 300 ∧
      ∀ r, counterRef.readOnlyAsk 5400 got got u64.decode = .replica r → r = 300 := by
  refine ⟨by decide +kernel, ?_⟩
  refine (replica_read_iff u64.encode u64 id counterRef 5400 _ _ 300
    payload_counterReplica).1.mpr (.inr fun r hr => ?_)
  exact u64.begins_unique hr (by simpa using u64.begins_encode 300 [])

/-- A counter with its value and how often it was written to, asked how often it was : the replica
of the value 300 after 2 writes answers 300. -/
theorem writes_read_from_replica :
    let got := counterReplica ((u64.prod u64).encode (300, 2))
    counterRef.readOnlyAsk 5400 got got u64.decode = .replica 300 ∧
      (300 : UInt64) ≠ Prod.snd ((300, 2) : UInt64 × UInt64) := by
  refine ⟨?_, by decide⟩
  exact readOnlyAsk_fst u64 u64 payload_counterReplica (by rw [replica_counterRef]; rfl)

end ReadRef
end Orlando
