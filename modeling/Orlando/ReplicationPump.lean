import Orlando.ReplicationLog
import Orlando.Slots
import Orlando.Transition

/-!
# From the sinks to the replication log

`ReplicationSink::send` takes a number and then puts its entry into a channel, which drops it if it
is full. `spawn_replication_pump` appends what it takes out of the channel to the log, whatever
comes of it. The handlers of a reentrant grain share its sink, so that other tasks may run between a
number and its `try_send`.
-/

namespace Orlando

open List Option

/-- `ReplicationSink`, apart from its counter and its end of the channel. -/
structure ReplicationSink where
  grainType : String
  grainKey : String
  sourceCluster : ClusterId

/-- What `send` has read from the counter and the clock, with its payload. -/
structure Numbered where
  sequence : UInt64
  timestampMillis : Int64
  payload : Bytes

def ReplicationSink.entry (k : ReplicationSink) (x : Numbered) : ReplicationEntry where
  grainType := k.grainType
  grainKey := k.grainKey
  sequence := x.sequence
  timestampMillis := x.timestampMillis
  sourceCluster := k.sourceCluster
  entryType := .fullState
  payload := x.payload

structure PumpRun (L : Type) where
  /-- `next_sequence` of the sinks that activations of the grain have been given. -/
  counters : List UInt64
  /-- What has a number and is not yet in the channel. -/
  sending : List Numbered
  channel : List Numbered
  /-- What the pump has received and not yet appended. -/
  hand : Option Numbered
  log : L
  /-- What has come to the log, oldest first. -/
  brought : List Numbered

/-- A step of the grain or of the pump. Entries of other grains fill the channel as well, so that
whether it is full is left open. -/
inductive PumpEvent where
  | new (startSequence : UInt64)
  | fetchAdd (i : ℕ) (now : Int64) (payload : Bytes)
  | trySend (i : ℕ) (full : Bool)
  | recv
  | append (fault : Option ReplicationError)

namespace PumpRun

variable {L : Type} (B : LogBackend L) (k : ReplicationSink)

def init : PumpRun L where
  counters := []
  sending := []
  channel := []
  hand := none
  log := B.empty
  brought := []

def step (s : PumpRun L) : PumpEvent → Option (PumpRun L)
  | .new startSequence => some { s with counters := s.counters ++ [startSequence] }
  | .fetchAdd i now payload =>
    s.counters[i]?.map fun n =>
      { s with
        counters := s.counters.set i (n + 1)
        sending := s.sending ++ [⟨n, now, payload⟩] }
  | .trySend i full =>
    s.sending[i]?.map fun x =>
      { s with
        sending := s.sending.eraseIdx i
        channel := if full then s.channel else s.channel ++ [x] }
  | .recv =>
    match s.hand, s.channel with
    | none, x :: channel => some { s with hand := some x, channel := channel }
    | _, _ => none
  | .append fault =>
    s.hand.map fun x =>
      match fault with
      | some _ => { s with hand := none }
      | none =>
        { s with
          hand := none
          log := (B.append s.log (k.entry x)).2
          brought := s.brought ++ [x] }

/-- Numbers, as the log compares them. -/
def keys (xs : List Numbered) : List ℤ :=
  xs.map fun x => B.key x.sequence

def logged (l : L) : List ℤ :=
  (B.sequences l k.grainType k.grainKey).map B.key

/-- The log takes the numbers above all that have come to it, also where it has refused some. -/
structure Inv (s : PumpRun L) : Prop where
  ordered : (logged B k s.log).Pairwise (· < ·)
  accepts : ∀ a, Sequenced.Accepts (logged B k s.log) a ↔ ∀ b ∈ keys B s.brought, b < a

variable {B k} {s t : PumpRun L} {ev : PumpEvent} {es : List PumpEvent} {x : Numbered}
  (hB : B.Lawful k.grainType k.grainKey)

section

variable (h : Inv B k s)
include hB h

theorem Inv.append_iff : (B.append s.log (k.entry x)).1 = .ok x.sequence ↔
    ∀ a ∈ keys B s.brought, a < B.key x.sequence := by
  rw [← h.accepts]
  refine ⟨fun hok => ?_, fun hacc => (hB.append_of_accepts _ (k.entry x) h.ordered rfl rfl hacc).1⟩
  by_contra hacc
  exact (hB.append_of_not_accepts _ (k.entry x) h.ordered rfl rfl hacc).1 _ hok

theorem Inv.append : Inv B k { s with
    hand := none, log := (B.append s.log (k.entry x)).2, brought := s.brought ++ [x] } := by
  have hkeys : keys B (s.brought ++ [x]) = keys B s.brought ++ [B.key x.sequence] := map_append
  by_cases hacc : Sequenced.Accepts (logged B k s.log) (B.key x.sequence)
  · have hlog : logged B k (B.append s.log (k.entry x)).2 =
        logged B k s.log ++ [B.key x.sequence] := by
      rw [logged, (hB.append_of_accepts _ (k.entry x) h.ordered rfl rfl hacc).2, map_append]
      rfl
    refine ⟨?_, fun a => ?_⟩ <;> simp only [hlog, hkeys]
    · exact Sequenced.pairwise_snoc_of_accepts h.ordered hacc
    · simpa [Sequenced.Accepts, or_imp, forall_and] using
        fun hlt b hb => ((h.accepts _).mp hacc b hb).trans hlt
  · rw [(hB.append_of_not_accepts _ (k.entry x) h.ordered rfl rfl hacc).2]
    refine ⟨h.ordered, fun a => ?_⟩
    rw [h.accepts] at hacc ⊢
    rw [hkeys, forall_mem_append, forall_mem_singleton]
    refine ⟨fun hall => ⟨hall, ?_⟩, And.left⟩
    -- A number that is refused is not above one that has come before.
    by_contra hle
    exact hacc fun b hb => (hall b hb).trans_le (not_lt.mp hle)

end

include hB in
theorem Inv.step (h : Inv B k s) (hs : s.step B k ev = some t) : Inv B k t := by
  cases ev with
  | new => cases hs; exact ⟨h.ordered, h.accepts⟩
  | fetchAdd | trySend =>
    obtain ⟨_, _, rfl⟩ := map_eq_some_iff.mp hs
    exact ⟨h.ordered, h.accepts⟩
  | recv =>
    rw [PumpRun.step] at hs
    split at hs <;> cases hs
    exact ⟨h.ordered, h.accepts⟩
  | append fault =>
    obtain ⟨x, -, rfl⟩ := map_eq_some_iff.mp hs
    cases fault with
    | none => exact h.append hB
    | some err => exact ⟨h.ordered, h.accepts⟩

include hB in
theorem inv_of_exec (hrun : exec (step B k) (init B) es = some s) : Inv B k s := by
  refine exec_invariant_of_step (fun _ _ _ h hstep => h.step hB hstep) ?_ hrun
  constructor <;> simp [init, logged, keys, hB.sequences_empty, Sequenced.Accepts]

/-- The log keeps what the pump brings next exactly if all that has come before has lower
numbers. -/
theorem append_kept_iff (hB : B.Lawful k.grainType k.grainKey)
    (hrun : exec (step B k) (init B) es = some s) (x : Numbered) :
    (B.append s.log (k.entry x)).1 = .ok x.sequence ↔
      ∀ y ∈ s.brought, B.key y.sequence < B.key x.sequence := by
  rw [(inv_of_exec hB hrun).append_iff hB, keys, List.forall_mem_map]

def counterSink : ReplicationSink := ⟨"Counter", "a", ⟨"eu"⟩⟩

/-- The entry with the number 1 comes into the channel after the one with the number 2. -/
def overtaken : List PumpEvent :=
  [.new 1, .fetchAdd 0 0 [], .fetchAdd 0 0 [], .trySend 1 false, .trySend 0 false, .recv,
    .append none, .recv]

theorem overtaken_lost : ∃ s,
    exec (step .inMemory counterSink) (init .inMemory) overtaken = some s ∧
      s.hand = some ⟨1, 0, []⟩ ∧
      (LogBackend.inMemory.append s.log (counterSink.entry ⟨1, 0, []⟩)).1 ≠ .ok 1 := by
  have hr : exec (step .inMemory counterSink) (init .inMemory) overtaken = some _ := rfl
  refine ⟨_, hr, rfl, fun hok => ?_⟩
  exact absurd ((append_kept_iff LogBackend.lawful_inMemory hr _).mp hok) (by decide)

end PumpRun

end Orlando
