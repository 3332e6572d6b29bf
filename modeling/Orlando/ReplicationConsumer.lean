import Orlando.ReplicationLog

/-!
# Consumers of a replication log

A poll of a `ReplicationConsumer` reads at most 100 entries after its position, puts the last of
them into the `ReplicaStore`, and moves the position to it. A consumer that is started again starts
from 0 (`ReplicaEvent.restart`), and puts in what it has passed long ago (`restart_goes_back`).
-/

namespace Orlando

open List UInt64 InMemoryReplicationLog

structure ReplicaEntry where
  payload : Bytes
  sequence : UInt64
  timestampMillis : Int64
deriving DecidableEq

def ReplicationEntry.replica (e : ReplicationEntry) : ReplicaEntry :=
  ⟨e.payload, e.sequence, e.timestampMillis⟩

abbrev ReplicaStore := AList fun _ : String => ReplicaEntry

variable {ty gk : String}

namespace ReplicaStore

def key (grainType grainKey : String) : String :=
  grainType ++ "/" ++ grainKey

def update (r : ReplicaStore) (ty gk : String) (payload : Bytes) (sequence : UInt64)
    (timestampMillis : Int64) : ReplicaStore :=
  r.insert (key ty gk) ⟨payload, sequence, timestampMillis⟩

def get (r : ReplicaStore) (ty gk : String) : Option ReplicaEntry :=
  r.lookup (key ty gk)

variable {r : ReplicaStore} {p : Bytes} {n : UInt64} {t : Int64}

theorem get_update_self : get (r.update ty gk p n t) ty gk =
    some ⟨p, n, t⟩ :=
  AList.lookup_insert r

theorem get_update_ne {ty' gk'}
    (h : key ty' gk' ≠ key ty gk) :
    get (r.update ty' gk' p n t) ty gk = get r ty gk :=
  AList.lookup_insert_ne (Ne.symm h)

end ReplicaStore

/-- One round of the loop of `ReplicationConsumer::run`, with the position before and after. A
batch with a delta is passed over. -/
def pollReplica (log : InMemoryReplicationLog) (ty gk : String) (lastSequence : UInt64)
    (store : ReplicaStore) : UInt64 × ReplicaStore :=
  match log.readFrom ty gk lastSequence 100 with
  | .error _ => (lastSequence, store)
  | .ok entries =>
    if entries.any (·.entryType = .delta) then
      ((entries.getLast?.map (·.sequence)).getD lastSequence, store)
    else
      match entries.getLast? with
      | none => (lastSequence, store)
      | some latest => (latest.sequence, store.update ty gk latest.payload
          latest.sequence latest.timestampMillis)

/-- The log of a grain with all entries appended to it, its consumer, and the replica store with the
sequences recorded for the grain. -/
structure ReplicaRun where
  log : InMemoryReplicationLog
  history : List ReplicationEntry
  lastSequence : UInt64
  store : ReplicaStore
  recorded : List UInt64

/-- What happens to them. `other` is an update by the consumer of another grain. -/
inductive ReplicaEvent where
  | append (e : ReplicationEntry)
  | truncate (beforeSequence : UInt64)
  | poll
  | restart
  | other (ty gk : String) (payload : Bytes) (sequence : UInt64)
    (timestampMillis : Int64)

namespace ReplicaRun

variable (ty gk : String)

def init : ReplicaRun where
  log := ∅
  history := []
  lastSequence := 0
  store := ∅
  recorded := []

def replica (s : ReplicaRun) : Option ReplicaEntry :=
  s.store.get ty gk

def Next (s : ReplicaRun) (e : ReplicationEntry) : Prop :=
  e.grainType = ty ∧ e.grainKey = gk ∧ e.entryType = .fullState ∧
    ∀ x ∈ s.history, x.sequence < e.sequence

instance (s : ReplicaRun) (e : ReplicationEntry) : Decidable (s.Next ty gk e) :=
  inferInstanceAs (Decidable (_ ∧ _))

def step (s : ReplicaRun) : ReplicaEvent → Option ReplicaRun
  | .append e =>
    if s.Next ty gk e then
      some { s with log := (s.log.append e).2, history := s.history ++ [e] }
    else none
  | .truncate b => some { s with log := (s.log.truncate ty gk b).2 }
  | .poll =>
    let (position, store) := pollReplica s.log ty gk s.lastSequence s.store
    some { s with
      lastSequence := position
      store := store
      recorded := if position = s.lastSequence then s.recorded
        else s.recorded ++ ((store.get ty gk).map (·.sequence)).toList }
  | .restart => some { s with lastSequence := 0 }
  | .other ty' gk' payload sequence timestampMillis =>
    some { s with
      store := s.store.update ty' gk' payload sequence timestampMillis
      recorded := if ReplicaStore.key ty' gk' = ReplicaStore.key ty gk
        then s.recorded ++ [sequence] else s.recorded }

/-- Fewer than 100 entries of the log are after the position of the consumer and older than the
replica. -/
def Near (s : ReplicaRun) : ReplicaEvent → Prop
  | .poll => ∀ r ∈ s.replica ty gk,
      ((s.log.entries ty gk).countP fun x =>
        s.lastSequence < x.sequence ∧ x.sequence < r.sequence) < 100
  | _ => True

instance (s : ReplicaRun) : (e : ReplicaEvent) → Decidable (s.Near ty gk e)
  | .poll => inferInstanceAs (Decidable (∀ r ∈ s.replica ty gk, _))
  | .append _ | .truncate _ | .restart | .other .. => isTrue trivial

end ReplicaRun

def ReplicaEvent.Apart (grainType grainKey : String) : ReplicaEvent → Prop
  | other grainType' grainKey' _ _ _ =>
    ReplicaStore.key grainType' grainKey' ≠ ReplicaStore.key grainType grainKey
  | _ => True

def ReplicaEvent.isPoll : ReplicaEvent → Bool
  | poll => true
  | _ => false

namespace ReplicaRun

structure Inv (ty gk : String) (s : ReplicaRun) : Prop where
  increasing : (s.history.map (·.sequence.toNat)).Pairwise (· < ·)
  fullState : ∀ e ∈ s.history, e.entryType = .fullState
  suffix : s.log.entries ty gk <:+ s.history
  replica_mem : ∀ r ∈ s.replica ty gk, ∃ e ∈ s.history, e.sequence = r.sequence ∧
    e.payload = r.payload ∧ e.timestampMillis = r.timestampMillis
  current : s.recorded.getLast? = (s.replica ty gk).map (·.sequence)

variable {s s' : ReplicaRun} {r : ReplicaEntry} {e : ReplicationEntry} {l : List ReplicationEntry}

theorem Inv.init : Inv ty gk init where
  increasing := List.Pairwise.nil
  fullState := fun _ h => by cases h
  suffix := suffix_rfl
  replica_mem := fun _ h => by cases h
  current := rfl

def batch (grainType grainKey : String) (s : ReplicaRun) : List ReplicationEntry :=
  ((s.log.entries grainType grainKey).filter (s.lastSequence < ·.sequence)).take 100

theorem step_poll (h : Inv ty gk s)
    (hs : s.step ty gk .poll = some s') :
    (s.batch ty gk = [] ∧ s' = s) ∨
      ∃ e, (s.batch ty gk).getLast? = some e ∧ s' = { s with
          lastSequence := e.sequence
          store := s.store.update ty gk e.payload e.sequence e.timestampMillis
          recorded := s.recorded ++ [e.sequence] } := by
  have hm : ∀ e ∈ s.batch ty gk,
      e ∈ s.log.entries ty gk ∧ s.lastSequence < e.sequence := fun e he => by
    simpa using mem_filter.mp (mem_of_mem_take he)
  have hany : (s.batch ty gk).any (·.entryType = .delta) = false := by
    rw [any_eq_false]
    intro e he
    simp [h.fullState e (h.suffix.mem (hm e he).1)]
  have hpoll : pollReplica s.log ty gk s.lastSequence s.store =
      match (s.batch ty gk).getLast? with
      | none => (s.lastSequence, s.store)
      | some latest => (latest.sequence, s.store.update ty gk latest.payload
          latest.sequence latest.timestampMillis) := by
    change (if (s.batch ty gk).any (·.entryType = .delta) then _ else _) = _
    rw [hany]
    rfl
  cases hl : (s.batch ty gk).getLast? with
  | none =>
    rw [hl] at hpoll
    refine .inl ⟨getLast?_eq_none_iff.mp hl, ?_⟩
    simpa [step, hpoll] using hs.symm
  | some e =>
    rw [hl] at hpoll
    have hne := (UInt64.ne_of_lt (hm e (mem_of_getLast? hl)).2).symm
    refine .inr ⟨e, rfl, ?_⟩
    simpa [step, hpoll, hne, ReplicaStore.get_update_self] using hs.symm

def unread (grainType grainKey : String) (s : ReplicaRun) : List ReplicationEntry :=
  (s.log.entries grainType grainKey).filter (s.lastSequence < ·.sequence)

theorem Inv.pairwise_unread (h : Inv ty gk s) :
    ((s.unread ty gk).map (·.sequence.toNat)).Pairwise (· < ·) :=
  h.increasing.sublist ((filter_sublist.trans h.suffix.sublist).map _)

/-- If the consumer has anything to read, not all of it is older than the replica : the log has
lost no entry without those before it. -/
theorem Inv.exists_le_unread (h : Inv ty gk s)
    (hr : s.replica ty gk = some r) (hne : s.unread ty gk ≠ []) :
    ∃ x ∈ s.unread ty gk, r.sequence ≤ x.sequence := by
  obtain ⟨x, hx⟩ := exists_mem_of_ne_nil _ hne
  by_cases hxr : r.sequence ≤ x.sequence
  · exact ⟨x, hx, hxr⟩
  · obtain ⟨hxlog, hxlast⟩ := mem_filter.mp hx
    obtain ⟨e, he, hseq, -⟩ := h.replica_mem r hr
    obtain ⟨old, hold⟩ := h.suffix
    have hxe : x.sequence < e.sequence := by
      rw [hseq]
      exact UInt64.not_le.mp hxr
    have helog : e ∈ s.log.entries ty gk := by
      rw [← hold] at he
      rcases mem_append.mp he with he | he
      · have hpair := h.increasing
        rw [← hold, map_append] at hpair
        have hlt := (pairwise_append.mp hpair).2.2 e.sequence.toNat
          (mem_map_of_mem he) x.sequence.toNat (mem_map_of_mem hxlog)
        have := lt_iff_toNat_lt.mp hxe
        omega
      · exact he
    refine ⟨e, mem_filter.mpr ⟨helog, ?_⟩, UInt64.le_of_eq hseq.symm⟩
    exact decide_eq_true (UInt64.lt_trans (of_decide_eq_true hxlast) hxe)

theorem countP_of_batch_nil (h : s.batch ty gk = []) :
    ((s.log.entries ty gk).countP fun x =>
      s.lastSequence < x.sequence ∧ x.sequence < r.sequence) = 0 := by
  have hnil : s.unread ty gk = [] := by
    have hbatch : (s.unread ty gk).take 100 = [] := h
    simpa using hbatch
  refine countP_eq_zero.mpr fun x hx hlt => ?_
  have hm : x ∈ s.unread ty gk :=
    mem_filter.mpr ⟨hx, decide_eq_true (of_decide_eq_true hlt).1⟩
  rw [hnil] at hm
  cases hm

theorem Inv.le_batch_iff (h : Inv ty gk s) (hr : s.replica ty gk = some r)
    (he : (s.batch ty gk).getLast? = some e) :
    r.sequence ≤ e.sequence ↔ ((s.log.entries ty gk).countP fun x =>
      s.lastSequence < x.sequence ∧ x.sequence < r.sequence) < 100 := by
  have hcount : ((s.unread ty gk).map (·.sequence.toNat)).countP
      (· < r.sequence.toNat) = (s.log.entries ty gk).countP fun x =>
        s.lastSequence < x.sequence ∧ x.sequence < r.sequence := by
    rw [countP_map, unread, countP_filter]
    refine countP_congr fun x _ => ?_
    simp [lt_iff_toNat_lt, and_comm]
  have hlast : (((s.unread ty gk).map (·.sequence.toNat)).take 100).getLast? =
      some e.sequence.toNat := by
    rw [← map_take, getLast?_map]
    exact congrArg (Option.map _) he
  have hne : s.unread ty gk ≠ [] := by
    intro hnil
    have hbatch : s.batch ty gk = [] := by
      change (s.unread ty gk).take 100 = []
      rw [hnil]
      rfl
    rw [hbatch] at he
    cases he
  rw [le_iff_toNat_le, Sequenced.le_getLast_take_iff h.pairwise_unread hlast, hcount]
  refine and_iff_left ?_
  obtain ⟨x, hx, hxr⟩ := h.exists_le_unread hr hne
  rw [← hcount]
  refine lt_of_le_of_ne countP_le_length fun hall => ?_
  have hxlt := (countP_eq_length.mp hall) x.sequence.toNat (mem_map_of_mem hx)
  have := le_iff_toNat_le.mp hxr
  have := of_decide_eq_true hxlt
  omega

/-! ## Runs -/

theorem pairwise_snoc_iff {l} {n : UInt64} :
    (l ++ [n]).Pairwise (· ≤ ·) ↔ l.Pairwise (· ≤ ·) ∧ ∀ m ∈ l.getLast?, m ≤ n := by
  rw [pairwise_append]
  refine and_congr_right fun hl => ⟨fun h m hm => h.2 m (mem_of_getLast? hm) n (by simp),
    fun h => ⟨pairwise_singleton _ _, fun a ha b hb => ?_⟩⟩
  rw [mem_singleton.mp hb]
  obtain ⟨m, hm⟩ := Option.isSome_iff_exists.mp (getLast?_isSome.mpr (ne_nil_of_mem ha))
  refine UInt64.le_trans ?_ (h m hm)
  obtain ⟨l', rfl⟩ := getLast?_eq_some_iff.mp hm
  rcases mem_append.mp ha with ha | ha
  · exact (pairwise_append.mp hl).2.2 a ha m (by simp)
  · exact UInt64.le_of_eq (mem_singleton.mp ha)

theorem Inv.entries_append (h : Inv ty gk s) (he : s.Next ty gk e) :
    entries (s.log.append e).2 ty gk = s.log.entries ty gk ++ [e] := by
  obtain ⟨rfl, rfl, -, hnext⟩ := he
  rw [append_of_lt fun last hl =>
    hnext last (h.suffix.mem (mem_of_getLast? hl)), entries_insert_self]

theorem Inv.append (h : Inv ty gk s) (he : s.Next ty gk e) :
    Inv ty gk { s with log := (s.log.append e).2, history := s.history ++ [e] } := by
  have hlog := h.entries_append he
  obtain ⟨-, -, hfull, hnext⟩ := he
  refine ⟨?_, ?_, ?_, ?_, h.current⟩
  · rw [map_append]
    refine pairwise_append.mpr ⟨h.increasing, pairwise_singleton _ _, ?_⟩
    intro a ha b hb
    obtain ⟨x, hx, rfl⟩ := mem_map.mp ha
    rw [mem_singleton.mp hb]
    exact lt_iff_toNat_lt.mp (hnext x hx)
  · intro x hx
    rcases mem_append.mp hx with hx | hx
    · exact h.fullState x hx
    · rw [mem_singleton.mp hx]
      exact hfull
  · obtain ⟨old, hold⟩ := h.suffix
    exact ⟨old, by rw [hlog, ← append_assoc, hold]⟩
  · intro r hr
    obtain ⟨x, hx, hxr⟩ := h.replica_mem r hr
    exact ⟨x, mem_append_left _ hx, hxr⟩

theorem suffix_filter_le (h : (l.map (·.sequence.toNat)).Pairwise (· < ·)) (b) :
    l.filter (b ≤ ·.sequence) <:+ l := by
  induction l with
  | nil => exact suffix_rfl
  | cons x l ih =>
    obtain ⟨hx, hl⟩ := pairwise_cons.mp h
    by_cases hbx : b ≤ x.sequence
    · -- What comes after the first entry that is kept is kept.
      have hall : (x :: l).filter (b ≤ ·.sequence) = x :: l := by
        refine filter_eq_self.mpr fun y hy => decide_eq_true ?_
        rcases mem_cons.mp hy with rfl | hy
        · exact hbx
        · have hlt := hx y.sequence.toNat (mem_map_of_mem hy)
          exact UInt64.le_of_lt (UInt64.lt_of_le_of_lt hbx (lt_iff_toNat_lt.mpr hlt))
      exact ⟨[], hall⟩
    · rw [filter_cons_of_neg (by simpa using hbx)]
      exact (ih hl).trans (suffix_cons x l)

theorem Inv.step (h : Inv ty gk s) {e : ReplicaEvent}
    (hapart : e.Apart ty gk) (hs : s.step ty gk e = some s') :
    Inv ty gk s' ∧ (s'.recorded.Pairwise (· ≤ ·) ↔
      s.recorded.Pairwise (· ≤ ·) ∧ s.Near ty gk e) := by
  cases e with
  | append e =>
    simp only [ReplicaRun.step] at hs
    split_ifs at hs with he
    cases hs
    exact ⟨h.append he, (and_iff_left trivial).symm⟩
  | truncate b =>
    cases hs
    refine ⟨⟨h.increasing, h.fullState, ?_, h.replica_mem, h.current⟩, (and_iff_left trivial).symm⟩
    rw [entries_truncate]
    refine (suffix_filter_le ?_ b).trans h.suffix
    exact h.increasing.sublist (h.suffix.sublist.map _)
  | poll =>
    rcases step_poll h hs with ⟨hnil, rfl⟩ | ⟨e, he, rfl⟩
    · refine ⟨h, (and_iff_left fun r _ => ?_).symm⟩
      rw [countP_of_batch_nil hnil]
      decide
    · have hmem := h.suffix.mem (mem_of_mem_filter (mem_of_mem_take (mem_of_getLast? he)))
      refine ⟨⟨h.increasing, h.fullState, h.suffix, ?_, ?_⟩, ?_⟩
      · intro r hr
        cases ReplicaStore.get_update_self.symm.trans hr
        exact ⟨e, hmem, rfl, rfl, rfl⟩
      · rw [getLast?_concat, replica, ReplicaStore.get_update_self]
        rfl
      · rw [pairwise_snoc_iff, h.current]
        refine and_congr_right fun _ => ?_
        simp only [Near, Option.mem_def]
        constructor
        · intro hle r hr
          exact (h.le_batch_iff hr he).mp (hle _ (hr ▸ rfl))
        · intro hnear m hm
          obtain ⟨r, hr, rfl⟩ := Option.map_eq_some_iff.mp hm
          exact (h.le_batch_iff hr he).mpr (hnear r hr)
  | restart =>
    cases hs
    exact ⟨⟨h.increasing, h.fullState, h.suffix, h.replica_mem, h.current⟩,
      (and_iff_left trivial).symm⟩
  | other ty' gk' p n t =>
    cases hs
    have hg : ReplicaStore.get (s.store.update ty' gk' p n t) ty gk =
        s.replica ty gk := ReplicaStore.get_update_ne hapart
    have hkey := hapart
    refine ⟨⟨h.increasing, h.fullState, h.suffix, ?_, ?_⟩, ?_⟩
    · intro r hr
      exact h.replica_mem r (hg ▸ hr)
    · rw [if_neg hkey, replica, hg]
      exact h.current
    · rw [if_neg hkey]
      exact (and_iff_left trivial).symm

theorem Inv.run {es} (hrun : exec (ReplicaRun.step ty gk) ReplicaRun.init es = some s)
    (hapart : ∀ e ∈ es, e.Apart ty gk) :
    Inv ty gk s ∧ (s.recorded.Pairwise (· ≤ ·) ↔
      Along (ReplicaRun.step ty gk) (Near ty gk) ReplicaRun.init es) := by
  refine exec_induction (I := fun es s => (∀ e ∈ es, e.Apart ty gk) →
    Inv ty gk s ∧ (s.recorded.Pairwise (· ≤ ·) ↔ Along
      (ReplicaRun.step ty gk) (Near ty gk) ReplicaRun.init es)) ?_ ?_
    hrun hapart
  · exact fun _ => ⟨Inv.init, iff_of_true List.Pairwise.nil trivial⟩
  · intro es u e v hu ih hstep hapart
    obtain ⟨hinv, hiff⟩ := ih fun x hx => hapart x (by simp [hx])
    obtain ⟨hinv', hiff'⟩ := hinv.step (hapart e (by simp)) hstep
    exact ⟨hinv', by rw [hiff', hiff, along_snoc_iff hu]⟩

/-- The sequences recorded for a grain never decrease exactly if at every poll fewer than 100
entries lie between the position and what the store has. -/
theorem replica_forward_iff {ty gk : String} {es : List ReplicaEvent} {s : ReplicaRun}
    (hrun : exec (step ty gk) init es = some s)
    (hapart : ∀ e ∈ es, e.Apart ty gk) :
    (s.recorded.Pairwise (· ≤ ·) ↔
        Along (step ty gk) (Near ty gk) init es) ∧
      s.recorded.getLast? = (s.replica ty gk).map (·.sequence) ∧
      ∀ r ∈ s.replica ty gk, (∃ e ∈ s.history, e.sequence = r.sequence) ∧
          ∀ e ∈ s.history, e.sequence = r.sequence → e.payload = r.payload := by
  obtain ⟨hinv, hiff⟩ := Inv.run hrun hapart
  refine ⟨hiff, hinv.current, fun r hr => ?_⟩
  obtain ⟨x, hx, hseq, hpayload, -⟩ := hinv.replica_mem r hr
  refine ⟨⟨x, hx, hseq⟩, fun e he heq => ?_⟩
  have hnodup := hinv.increasing.imp fun h => Nat.ne_of_lt h
  obtain rfl := inj_on_of_nodup_map hnodup he hx (by rw [heq, hseq])
  exact hpayload

def fullState (sequence : UInt64) : ReplicaEvent :=
  .append ⟨"Counter", "a", sequence, 0, ⟨"eu"⟩, .fullState, [sequence.toUInt8]⟩

theorem shortLog_forward : ∃ s, exec (step "Counter" "a") init
    [fullState 1, fullState 2, .poll, .restart, fullState 3, .poll] = some s ∧
      s.recorded = [2, 3] ∧ s.recorded.Pairwise (· ≤ ·) := by
  obtain ⟨s, hs, hrec⟩ : ∃ s, exec (step "Counter" "a") init
      [fullState 1, fullState 2, .poll, .restart, fullState 3, .poll] = some s ∧
        s.recorded = [2, 3] :=
    Option.map_eq_some_iff.mp (by decide +kernel)
  refine ⟨s, hs, hrec, (replica_forward_iff hs ?_).1.mpr (by decide +kernel)⟩
  simp [fullState, ReplicaEvent.Apart]

/-- A log of 101 entries that is read to its end by a consumer, and then by the next one. -/
def longLog : List ReplicaEvent :=
  (List.range 101).map (fun i => fullState (i + 1).toUInt64) ++ [.poll, .poll, .restart, .poll]

/-- The next consumer goes back from 101 to 100, and the consumer of another grain puts its state
where the replica of the grain is. -/
theorem restart_goes_back :
    (exec (step "Counter" "a") init longLog).map recorded = some [100, 101, 100] ∧
    (exec (step "Counter" "a/b") init [.append ⟨"Counter", "a/b", 2, 0, ⟨"eu"⟩, .fullState, [2]⟩,
      .poll, .other "Counter/a" "b" [7] 1 0]).map
        (fun s => (s.recorded, (s.replica "Counter" "a/b").map (·.payload))) =
          some ([2, 1], some [7]) := by
  decide +kernel

/-! ## Catching up -/

/-- The consumer is not started again, sequences are from 1 upwards, and only entries that the
consumer has read are truncated. -/
def Reads (grainType grainKey : String) (s : ReplicaRun) : ReplicaEvent → Prop
  | .append e => 0 < e.sequence
  | .truncate b => ∀ x ∈ s.log.entries grainType grainKey, x.sequence < b →
      x.sequence ≤ s.lastSequence
  | .restart => False
  | e => e.Apart grainType grainKey

instance (s : ReplicaRun) : (e : ReplicaEvent) → Decidable (s.Reads ty gk e)
  | .append e => inferInstanceAs (Decidable (0 < e.sequence))
  | .truncate _ => inferInstanceAs (Decidable (∀ x ∈ s.log.entries ty gk, _))
  | .restart => isFalse id
  | .poll => isTrue trivial
  | .other .. => inferInstanceAs (Decidable (_ ≠ _))

/-- The replica is what was appended under the position of the consumer, and the log has every
entry after it. -/
structure UpTo (ty gk : String) (s : ReplicaRun) : Prop where
  inv : Inv ty gk s
  pos : ∀ e ∈ s.history, 0 < e.sequence
  kept : ∀ e ∈ s.history, s.lastSequence < e.sequence → e ∈ s.log.entries ty gk
  position : (s.lastSequence = 0 ∧ s.replica ty gk = none) ∨ ∃ e ∈ s.history,
    e.sequence = s.lastSequence ∧ s.replica ty gk = some e.replica

theorem Reads.apart {e} (h : s.Reads ty gk e) : e.Apart ty gk := by
  cases e with
  | other => exact h
  | _ => trivial

theorem UpTo.init : UpTo ty gk init where
  inv := Inv.init
  pos := fun _ h => by cases h
  kept := fun _ h => by cases h
  position := .inl ⟨rfl, rfl⟩

theorem UpTo.step (h : UpTo ty gk s) {e} (he : s.Reads ty gk e)
    (hs : s.step ty gk e = some s') : UpTo ty gk s' := by
  have hinv := (h.inv.step he.apart hs).1
  cases e with
  | append e =>
    simp only [ReplicaRun.step] at hs
    split_ifs at hs with hnext
    cases hs
    have hlog := h.inv.entries_append hnext
    refine ⟨hinv, ?_, ?_, h.position.imp_right fun ⟨x, hx, hseq⟩ => ⟨x, by simp [hx], hseq⟩⟩
    · intro x hx
      rcases mem_append.mp hx with hx | hx
      · exact h.pos x hx
      · rw [mem_singleton.mp hx]
        exact he
    · intro x hx hlt
      rw [hlog]
      rcases mem_append.mp hx with hx | hx
      · exact mem_append_left _ (h.kept x hx hlt)
      · exact mem_append_right _ hx
  | truncate b =>
    cases hs
    refine ⟨hinv, h.pos, fun x hx hlt => ?_, h.position⟩
    rw [entries_truncate]
    refine mem_filter.mpr ⟨h.kept x hx hlt, decide_eq_true (UInt64.not_lt.mp fun hxb => ?_)⟩
    exact UInt64.not_le.mpr hlt (he x (h.kept x hx hlt) hxb)
  | poll =>
    rcases step_poll h.inv hs with ⟨-, rfl⟩ | ⟨e, hlast, rfl⟩
    · exact h
    · obtain ⟨hmem, hlt⟩ := mem_filter.mp (mem_of_mem_take (mem_of_getLast? hlast))
      refine ⟨hinv, h.pos, fun x hx hxe => h.kept x hx ?_, .inr ⟨e, h.inv.suffix.mem hmem, rfl,
        ReplicaStore.get_update_self⟩⟩
      exact UInt64.lt_trans (of_decide_eq_true hlt) hxe
  | restart => exact he.elim
  | other ty' gk' p n t =>
    cases hs
    have hget : ReplicaStore.get (s.store.update ty' gk' p n t) ty gk =
        s.replica ty gk := ReplicaStore.get_update_ne he
    refine ⟨hinv, h.pos, h.kept, ?_⟩
    rw [replica, hget]
    exact h.position

theorem filter_of_getLast_take {k} (hl : (l.map (·.sequence.toNat)).Pairwise (· < ·))
    (he : (l.take k).getLast? = some e) : l.filter (e.sequence < ·.sequence) = l.drop k := by
  have hpair := pairwise_map.mp hl
  rw [← take_append_drop k l] at hpair
  obtain ⟨htake, -, hcross⟩ := pairwise_append.mp hpair
  conv_lhs => rw [← take_append_drop k l]
  rw [filter_append, filter_eq_nil_iff.mpr, filter_eq_self.mpr, nil_append]
  · intro x hx
    exact decide_eq_true (lt_iff_toNat_lt.mpr (hcross e (mem_of_getLast? he) x hx))
  · intro x hx hlt
    have hle : x.sequence.toNat ≤ e.sequence.toNat :=
      Sequenced.le_of_getLast? (pairwise_map.mpr htake)
      (by rw [getLast?_map, he]; rfl) (mem_map_of_mem hx)
    have := lt_iff_toNat_lt.mp (of_decide_eq_true hlt)
    omega

theorem UpTo.unread_step (h : UpTo ty gk s) {e}
    (he : s.Reads ty gk e) (hold : ∀ x, e ≠ .append x)
    (hs : s.step ty gk e = some s') : s'.history = s.history ∧
      (s'.unread ty gk).length ≤
        (s.unread ty gk).length - if e.isPoll then 100 else 0 := by
  cases e with
  | append e => exact absurd rfl (hold e)
  | truncate b =>
    cases hs
    refine ⟨rfl, ?_⟩
    rw [unread, entries_truncate]
    exact (filter_sublist.filter _).length_le
  | poll =>
    rcases step_poll h.inv hs with ⟨hnil, rfl⟩ | ⟨e, hl, rfl⟩
    · have hbatch : (s'.unread ty gk).take 100 = [] := hnil
      have hnone : s'.unread ty gk = [] := by simpa using hbatch
      exact ⟨rfl, by simp [hnone]⟩
    · refine ⟨rfl, ?_⟩
      have hlt := (mem_filter.mp (mem_of_mem_take (mem_of_getLast? hl))).2
      have hunread : (s.unread ty gk).filter (e.sequence < ·.sequence) =
          (s.log.entries ty gk).filter (e.sequence < ·.sequence) := by
        rw [unread, filter_filter]
        refine filter_congr fun x _ => ?_
        simpa using UInt64.lt_trans (of_decide_eq_true hlt)
      have hdrop := hunread.symm.trans (filter_of_getLast_take h.inv.pairwise_unread hl)
      change ((s.log.entries ty gk).filter (e.sequence < ·.sequence)).length ≤ _
      rw [hdrop, length_drop]
      rfl
  | restart => exact he.elim
  | other =>
    cases hs
    exact ⟨rfl, le_rfl⟩

theorem UpTo.unread_run : ∀ {fs s t}, UpTo ty gk s →
    Along (ReplicaRun.step ty gk) (Reads ty gk) s fs →
    exec (ReplicaRun.step ty gk) s fs = some t → (∀ e ∈ fs, ∀ x, e ≠ .append x) →
    UpTo ty gk t ∧ t.history = s.history ∧ (t.unread ty gk).length ≤
      (s.unread ty gk).length - 100 * fs.countP (·.isPoll)
  | [], s, t, h, _, ht, _ => by
    cases ht
    exact ⟨h, rfl, le_rfl⟩
  | e :: fs, s, t, h, hreads, ht, hold => by
    obtain ⟨s', hs', ht'⟩ := exec_cons_eq_some.mp ht
    obtain ⟨hhead, htail⟩ := forall_mem_cons.mp hold
    obtain ⟨hhist, hlen⟩ := h.unread_step hreads.1 hhead hs'
    obtain ⟨hup, hhist', hlen'⟩ := unread_run (h.step hreads.1 hs') (hreads.2 s' hs') ht' htail
    refine ⟨hup, hhist'.trans hhist, ?_⟩
    rw [countP_cons]
    split_ifs at hlen ⊢ <;> omega

theorem UpTo.replica_of_unread_nil (h : UpTo ty gk s)
    (hnil : s.unread ty gk = []) (he : s.history.getLast? = some e) :
    s.replica ty gk = some e.replica := by
  have hm := mem_of_getLast? he
  have hle : e.sequence ≤ s.lastSequence := by
    refine UInt64.not_lt.mp fun hlt => ?_
    have hunread : e ∈ s.unread ty gk :=
      mem_filter.mpr ⟨h.kept e hm hlt, decide_eq_true hlt⟩
    rw [hnil] at hunread
    cases hunread
  rcases h.position with ⟨hzero, -⟩ | ⟨x, hx, hseq, hreplica⟩
  · exact absurd (hzero ▸ hle) (UInt64.not_le.mpr (h.pos e hm))
  · have hxe : x.sequence.toNat ≤ e.sequence.toNat := Sequenced.le_of_getLast? h.inv.increasing
      (by rw [getLast?_map, he]; rfl) (mem_map_of_mem hx)
    have hex := le_iff_toNat_le.mp (hseq ▸ hle)
    have hnodup := h.inv.increasing.imp fun h => Nat.ne_of_lt h
    rw [hreplica, inj_on_of_nodup_map hnodup hx hm (by omega)]

/-- A consumer that is never started again keeps up, 100 entries with each poll. -/
theorem replica_catches_up {ty gk : String} {es : List ReplicaEvent} {s : ReplicaRun}
    (hrun : exec (step ty gk) init es = some s)
    (hreads : Along (step ty gk) (Reads ty gk) init es) :
    ((s.lastSequence = 0 ∧ s.replica ty gk = none) ∨ ∃ e ∈ s.history,
        e.sequence = s.lastSequence ∧ s.replica ty gk = some e.replica) ∧
      (∀ e ∈ s.history, e.sequence ≤ s.lastSequence →
        ∃ r, s.replica ty gk = some r ∧ e.sequence ≤ r.sequence) ∧
      ∀ fs t, exec (step ty gk) s fs = some t →
        Along (step ty gk) (Reads ty gk) s fs →
        (∀ e ∈ fs, ∀ x, e ≠ .append x) →
        ((s.unread ty gk).length + 99) / 100 ≤ fs.countP (·.isPoll) →
        ∀ e, s.history.getLast? = some e ∨ (s.log.entries ty gk).getLast? = some e →
          t.replica ty gk = some e.replica := by
  have h : UpTo ty gk s :=
    exec_invariant (fun _ _ _ he h hstep => h.step he hstep) UpTo.init hreads hrun
  refine ⟨h.position, fun e he hle => ?_, fun fs t ht hfs hold hpolls e he => ?_⟩
  · rcases h.position with ⟨hzero, -⟩ | ⟨x, -, hseq, hreplica⟩
    · exact absurd (hzero ▸ hle) (UInt64.not_le.mpr (h.pos e he))
    · exact ⟨_, hreplica, UInt64.le_trans hle (UInt64.le_of_eq hseq.symm)⟩
  · obtain ⟨hup, hhist, hlen⟩ := h.unread_run hfs ht hold
    have hlast : s.history.getLast? = some e := by
      refine he.elim id fun hlog => ?_
      obtain ⟨old, hold⟩ := h.inv.suffix
      rw [← hold, getLast?_append, hlog]
      rfl
    refine hup.replica_of_unread_nil (length_eq_zero_iff.mp ?_) (hhist ▸ hlast)
    omega

theorem truncated_catches_up : ∃ s, exec (step "Counter" "a") init
    [fullState 1, .poll, .truncate 2, fullState 2] = some s ∧
      ∀ t, s.step "Counter" "a" .poll = some t → t.replica "Counter" "a" = some ⟨[2], 2, 0⟩ := by
  obtain ⟨s, hs, hlast⟩ : ∃ s, exec (step "Counter" "a") init
      [fullState 1, .poll, .truncate 2, fullState 2] = some s ∧
        (s.history.getLast?, (s.unread "Counter" "a").length) =
          (some ⟨"Counter", "a", 2, 0, ⟨"eu"⟩, .fullState, [2]⟩, 1) :=
    Option.map_eq_some_iff.mp (by decide +kernel)
  obtain ⟨hlast, hunread⟩ := Prod.mk.inj hlast
  refine ⟨s, hs, fun t ht => (replica_catches_up hs (by decide +kernel)).2.2 [.poll] t
    (by simpa [exec] using ht) ⟨trivial, fun _ _ => trivial⟩ (by simp) ?_ _ (.inl hlast)⟩
  rw [hunread]
  decide

end ReplicaRun

end Orlando
