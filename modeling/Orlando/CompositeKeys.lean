import Orlando.Promotion
import Orlando.ReplicaReads
import Orlando.ReplicationSequences
import Orlando.RequestContext
import Orlando.StorageKeys

/-!
# Grains under composite keys

The directory of owners, the replica store and the log in memory keep what they have of a grain
under one text, `type/key`. A slash in a name makes two grains one (`entry_eq_iff`).
-/

namespace Orlando

open AList String InMemoryReplicationLog CrossClusterDirectory GrainId List

variable {p q : GrainId}

namespace GrainId

def Extends (q p : GrainId) : Prop :=
  ∃ middle, q.typeName = p.typeName ++ "/" ++ middle ∧ p.key = middle ++ "/" ++ q.key

def Mixed (p q : GrainId) : Prop :=
  p = q ∨ q.Extends p ∨ p.Extends q

theorem extends_iff : q.Extends p ↔ ∃ m, q.typeName.toList = p.typeName.toList ++ '/' :: m ∧
    p.key.toList = m ++ '/' :: q.key.toList := by
  rw [← StorageSlot.exists_string_iff]
  simp only [Extends, ← toList_inj, toList_append]
  simp

theorem entry_eq_iff : p.entry = q.entry ↔ p.Mixed q := by
  rw [← toList_inj, toList_entry, toList_entry, append_cons_eq_iff, Mixed, extends_iff,
    extends_iff, toList_inj, toList_inj, GrainId.mk.injEq]

end GrainId

def DirectoryCall.grain : DirectoryCall → GrainId
  | lookup gid | register gid _ _ | deregister gid _ => gid

namespace CrossClusterDirectory

variable {d : CrossClusterDirectory}

theorem lookup_call (d : CrossClusterDirectory) (e) (k) :
    (d.call e).lookup k = d.lookup k ∨
      k = key e.grain ∧ ∀ r ∈ (d.call e).lookup k, r.1 = e.grain := by
  refine or_iff_not_imp_left.mpr fun hne => ?_
  cases e with
  | lookup gid => exact absurd rfl hne
  | register gid c epoch =>
    rcases register_eq d gid c epoch with ⟨o, -, -, heq⟩ | ⟨-, heq⟩ <;> rw [call, heq] at hne ⊢
    · exact absurd rfl hne
    · have hk : k = key gid := by_contra fun hk => hne (lookup_insert_ne hk)
      rw [hk, lookup_insert]
      exact ⟨rfl, fun r hr => by cases hr; rfl⟩
  | deregister gid c =>
    rcases deregister_eq d gid c with heq | heq <;> rw [call, heq] at hne ⊢
    · exact absurd rfl hne
    · have hk : k = key gid := by_contra fun hk => hne (lookup_erase_ne hk)
      rw [hk, lookup_erase]
      exact ⟨rfl, fun r hr => by cases hr⟩

def Filed (d : CrossClusterDirectory) : Prop :=
  ∀ k, ∀ r ∈ d.lookup k, k = key r.1

theorem Filed.after (h : Filed d) (cs : List DirectoryCall) : Filed (d.after cs) := by
  induction cs generalizing d with
  | nil => exact h
  | cons e cs ih =>
    refine ih fun k r hr => ?_
    rcases lookup_call d e k with heq | ⟨hk, hgrain⟩
    · exact h k r (heq ▸ hr)
    · rw [hgrain r hr]
      exact hk

theorem lookup_after {cs} (hcs : ∀ e ∈ cs, e.grain = p) {k}
    (hk : k ≠ key p) : (d.after cs).lookup k = d.lookup k := by
  induction cs generalizing d with
  | nil => rfl
  | cons e cs ih =>
    obtain ⟨he, hcs⟩ := forall_mem_cons.mp hcs
    refine (ih hcs).trans ((lookup_call d e k).resolve_right fun h => hk ?_)
    rw [h.1, he]

theorem mem_listOwnedBy (h : Filed d) {o c} :
    (q, o) ∈ d.listOwnedBy c ↔ d.lookup (key q) = some (q, o) ∧ o.clusterId = c := by
  rw [listOwnedBy, mem_filter, decide_eq_true_iff]
  refine and_congr_left fun _ => ⟨fun hmem => ?_, fun hl => ?_⟩
  · obtain ⟨⟨k, r⟩, hr, rfl⟩ := mem_map.mp hmem
    have hl := mem_lookup_iff.mpr hr
    rw [← h k _ hl]
    exact hl
  · exact mem_map.mpr ⟨⟨key q, (q, o)⟩, mem_lookup_iff.mp hl, rfl⟩

def LeavesAlone (p q : GrainId) : Prop :=
  ∀ before calls : List DirectoryCall, (∀ e ∈ calls, e.grain = p) →
    let d := after ∅ before
    (d.after calls).owner q = d.owner q ∧
      ∀ c o, (q, o) ∈ (d.after calls).listOwnedBy c ↔ (q, o) ∈ d.listOwnedBy c

theorem leavesAlone_iff : LeavesAlone p q ↔ ¬p.Mixed q := by
  rw [← entry_eq_iff]
  constructor
  · intro h hkey
    have howner := (h [] [.register p ⟨""⟩ 0] (by simp [DirectoryCall.grain])).1
    rw [← owner_congr (show key p = key q from hkey)] at howner
    simp [after, call, register, owner, -insert_empty] at howner
  · intro hkey before calls hcalls
    have hfiled : Filed (after ∅ before) :=
      Filed.after (fun _ _ hr => by cases hr) before
    have hl := lookup_after (d := after ∅ before) hcalls (k := key q) (Ne.symm hkey)
    refine ⟨congrArg (Option.map Prod.snd) hl, fun c o => ?_⟩
    rw [mem_listOwnedBy (hfiled.after calls), mem_listOwnedBy hfiled, hl]

end CrossClusterDirectory

inductive ReplicaCall where
  | update (payload : Bytes) (sequence : UInt64) (timestampMillis : Int64)
  | remove

namespace ReplicaStore

def remove (r : ReplicaStore) (grainType grainKey : String) : ReplicaStore :=
  r.erase (key grainType grainKey)

def call (p : GrainId) (r : ReplicaStore) : ReplicaCall → ReplicaStore
  | .update payload sequence timestampMillis =>
    r.update p.typeName p.key payload sequence timestampMillis
  | .remove => r.remove p.typeName p.key

def LeavesAlone (p q : GrainId) : Prop :=
  ∀ (r : ReplicaStore) (calls : List ReplicaCall),
    get (calls.foldl (call p) r) q.typeName q.key = r.get q.typeName q.key ∧
      ∀ maxStaleness now, isFresh (calls.foldl (call p) r) q.typeName q.key maxStaleness now =
        r.isFresh q.typeName q.key maxStaleness now

theorem get_call (h : p.entry ≠ q.entry) (r : ReplicaStore) (c) :
    (r.call p c).get q.typeName q.key = r.get q.typeName q.key := by
  cases c with
  | update payload sequence timestampMillis => exact get_update_ne h
  | remove => exact lookup_erase_ne (Ne.symm h)

theorem leavesAlone_iff : LeavesAlone p q ↔ ¬p.Mixed q := by
  rw [← entry_eq_iff]
  constructor
  · intro h hkey
    have hg := (h ∅ [.update [] 0 0]).1
    rw [get, get, ← show key p.typeName p.key = key q.typeName q.key from hkey] at hg
    simp [call, update, -insert_empty] at hg
  · intro hkey r calls
    have hg : get (calls.foldl (call p) r) q.typeName q.key = r.get q.typeName q.key := by
      induction calls generalizing r with
      | nil => rfl
      | cons c calls ih => exact (ih (r.call p c)).trans (get_call hkey r c)
    exact ⟨hg, fun maxStaleness now => by rw [isFresh, hg, isFresh]⟩

end ReplicaStore

namespace InMemoryReplicationLog

def LeavesAlone (p q : GrainId) : Prop :=
  ∀ (s t : LogRun InMemoryReplicationLog) (calls : List LogCall),
    exec (LogRun.step .inMemory p.typeName p.key) s calls = some t →
      (∀ n k, readFrom t.log q.typeName q.key n k = readFrom s.log q.typeName q.key n k) ∧
        latestSequence t.log q.typeName q.key = latestSequence s.log q.typeName q.key

variable {s t : LogRun InMemoryReplicationLog}

theorem entries_insert_ne (h : p.entry ≠ q.entry) (m : InMemoryReplicationLog) (es) :
    entries (m.insert (key p.typeName p.key) es) q.typeName q.key = m.entries q.typeName q.key := by
  rw [entries, lookup_insert_ne (show key _ _ ≠ key _ _ from Ne.symm h), entries]

theorem entries_step (h : p.entry ≠ q.entry) {c}
    (hs : s.step .inMemory p.typeName p.key c = some t) :
    t.log.entries q.typeName q.key = s.log.entries q.typeName q.key := by
  cases c with
  | append e =>
    simp only [LogRun.step] at hs
    split_ifs at hs with hgrain
    cases hs
    change entries (s.log.append e).2 _ _ = _
    by_cases hl : ∀ last ∈ (s.log.entries e.grainType e.grainKey).getLast?,
        last.sequence < e.sequence
    · rw [append_of_lt hl, hgrain.1, hgrain.2, entries_insert_ne h]
    · obtain ⟨err, happ⟩ := append_of_not_lt hl
      rw [happ]
  | truncate b =>
    cases hs
    change entries (s.log.truncate _ _ b).2 _ _ = _
    unfold truncate
    split
    · rfl
    · exact entries_insert_ne h s.log _

theorem leavesAlone_iff : LeavesAlone p q ↔ ¬p.Mixed q := by
  rw [← entry_eq_iff]
  constructor
  · intro h hkey
    let e : ReplicationEntry := ⟨p.typeName, p.key, 1, 0, ⟨""⟩, .fullState, []⟩
    have hr : exec (LogRun.step .inMemory p.typeName p.key) (.init .inMemory) [.append e] =
        some ⟨AList.insert (key p.typeName p.key) [e] ∅, [1]⟩ := by
      rw [exec, LogRun.step, if_pos ⟨rfl, rfl⟩]
      rfl
    have hlatest := (h _ _ _ hr).2
    rw [latestSequence, entries, ← show key p.typeName p.key = key q.typeName q.key from hkey,
      lookup_insert] at hlatest
    exact absurd hlatest (show (1 : UInt64) ≠ 0 by decide)
  · intro hkey s t calls hr
    have hentries : t.log.entries q.typeName q.key = s.log.entries q.typeName q.key :=
      exec_invariant_of_step (I := fun t => t.log.entries q.typeName q.key = s.log.entries _ _)
        (fun _ _ _ hs hstep => (entries_step hkey hstep).trans hs) rfl hr
    exact ⟨fun n k => by rw [readFrom, hentries, readFrom],
      by rw [latestSequence, hentries, latestSequence]⟩

end InMemoryReplicationLog

/-- In each of the three, nothing that is done for `p` changes what is read of `q` exactly if no
text stands for both. -/
theorem composite_keys_apart_iff (p q : GrainId) :
    (CrossClusterDirectory.LeavesAlone p q ↔ ¬p.Mixed q) ∧
    (ReplicaStore.LeavesAlone p q ↔ ¬p.Mixed q) ∧
    (InMemoryReplicationLog.LeavesAlone p q ↔ ¬p.Mixed q) :=
  ⟨leavesAlone_iff, ReplicaStore.leavesAlone_iff, leavesAlone_iff⟩

/-- A cart and the item of a cart : what is recorded for one is found, or lost, for the other. -/
theorem item_read_as_cart :
    let cart : GrainId := ⟨"Cart", "a/b"⟩
    let item : GrainId := ⟨"Cart/a", "b"⟩
    let d := after ∅ [.register cart ⟨"eu"⟩ 1]
    cart ≠ item ∧
    (d.after [.register item ⟨"us"⟩ 2]).owner cart = some ⟨⟨"us"⟩, 2⟩ ∧
    d.listOwnedBy ⟨"eu"⟩ = [(cart, ⟨⟨"eu"⟩, 1⟩)] ∧
    (d.after [.register item ⟨"us"⟩ 2]).listOwnedBy ⟨"eu"⟩ = [] ∧
    (ReplicaStore.call item ∅ (.update [7] 3 0)).get cart.typeName cart.key = some ⟨[7], 3, 0⟩ ∧
    latestSequence
      (append ∅ ⟨"Cart/a", "b", 3, 0, ⟨"us"⟩, .fullState, [7]⟩).2
      cart.typeName cart.key = 3 := by
  decide +kernel

end Orlando
