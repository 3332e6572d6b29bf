import Orlando.SwimTasks

/-!
# SWIM across silos

Silos send the updates off their queues in the form of `GossipEntry`, and what was sent once may
arrive anywhere, at any time, any number of times or not at all (`SwimCluster.network`). Silos start
once, and whatever else happens on one is a step of `SwimTasks`.
-/

namespace Orlando

open List Option Function

/-! ## Gossip on the wire -/

structure ProtoSiloAddress where
  host : String
  port : UInt32
  siloId : String
deriving DecidableEq

def toProtoAddr (s : SiloAddress) : ProtoSiloAddress where
  host := s.host
  port := s.port.toUInt32
  siloId := s.siloId

def fromProtoAddr (p : ProtoSiloAddress) : SiloAddress where
  host := p.host
  port := p.port.toUInt16
  siloId := p.siloId

inductive UpdateType
  | alive
  | suspect
  | dead
  | join
deriving DecidableEq

def UpdateType.toInt : UpdateType → ℤ
  | alive => 0
  | suspect => 1
  | dead => 2
  | join => 3

def UpdateType.tryFrom (i : ℤ) : Option UpdateType :=
  [alive, suspect, dead, join].find? fun t => t.toInt = i

structure GossipEntry where
  updateType : ℤ
  silo : Option ProtoSiloAddress
  incarnation : UInt64
  reportedBy : String
deriving DecidableEq

def GossipUpdate.toProto : GossipUpdate → GossipEntry
  | .alive addr incarnation =>
    { updateType := UpdateType.alive.toInt, silo := some (toProtoAddr addr)
      incarnation := incarnation, reportedBy := "" }
  | .suspect addr incarnation reportedBy =>
    { updateType := UpdateType.suspect.toInt, silo := some (toProtoAddr addr)
      incarnation := incarnation, reportedBy := reportedBy }
  | .dead addr incarnation =>
    { updateType := UpdateType.dead.toInt, silo := some (toProtoAddr addr)
      incarnation := incarnation, reportedBy := "" }
  | .join addr =>
    { updateType := UpdateType.join.toInt, silo := some (toProtoAddr addr)
      incarnation := 0, reportedBy := "" }

def GossipEntry.toGossip (e : GossipEntry) : Option GossipUpdate := do
  let addr := fromProtoAddr (← e.silo)
  match ← UpdateType.tryFrom e.updateType with
  | .alive => some (.alive addr e.incarnation)
  | .suspect => some (.suspect addr e.incarnation e.reportedBy)
  | .dead => some (.dead addr e.incarnation)
  | .join => some (.join addr)

def gossipToProto (updates : List GossipUpdate) : List GossipEntry :=
  updates.map GossipUpdate.toProto

/-- An entry without a silo or of an unknown type is skipped. -/
def protoToGossip (entries : List GossipEntry) : List GossipUpdate :=
  entries.filterMap GossipEntry.toGossip

theorem fromProtoAddr_toProtoAddr (s) : fromProtoAddr (toProtoAddr s) = s := by
  simp [fromProtoAddr, toProtoAddr]

theorem UpdateType.tryFrom_toInt (t : UpdateType) : tryFrom t.toInt = some t := by
  cases t <;> rfl

theorem GossipUpdate.toGossip_toProto (u : GossipUpdate) : u.toProto.toGossip = some u := by
  cases u <;>
    simp [toProto, GossipEntry.toGossip, UpdateType.tryFrom_toInt, fromProtoAddr_toProtoAddr]

theorem protoToGossip_gossipToProto (updates : List GossipUpdate) :
    protoToGossip (gossipToProto updates) = updates := by
  rw [protoToGossip, gossipToProto, filterMap_map]
  exact (filterMap_congr fun u _ => u.toGossip_toProto).trans filterMap_some

def GossipUpdate.incarnation : GossipUpdate → UInt64
  | .alive _ incarnation | .suspect _ incarnation _ | .dead _ incarnation => incarnation
  | .join _ => 0

variable {u : GossipUpdate} {e : GossipEntry}

theorem GossipEntry.of_toGossip (h : e.toGossip = some u) :
    ∃ p, e.silo = some p ∧ fromProtoAddr p = u.addr ∧ u.incarnation ≤ e.incarnation := by
  obtain ⟨p, hp, h⟩ := bind_eq_some_iff.mp h
  obtain ⟨t, -, h⟩ := bind_eq_some_iff.mp h
  refine ⟨p, hp, ?_⟩
  cases t with
  | join =>
    cases h
    exact ⟨rfl, UInt64.zero_le⟩
  | _ =>
    cases h
    exact ⟨rfl, le_rfl⟩

def GossipEntry.Denotes (e : GossipEntry) (u : GossipUpdate) : Prop :=
  ∃ p, e.silo = some p ∧ u.addr.siloId = p.siloId ∧ u.addr.host = p.host ∧
    u.addr.port.toNat = p.port.toNat

theorem GossipEntry.denotes_iff (h : e.toGossip = some u) :
    e.Denotes u ↔ ∀ p, e.silo = some p → p.port.toNat < 2 ^ 16 := by
  obtain ⟨p, hp, haddr, -⟩ := e.of_toGossip h
  have hport : u.addr.port.toNat = p.port.toNat % 2 ^ 16 := by
    rw [← haddr]
    exact UInt32.toNat_toUInt16 p.port
  simp only [Denotes, hp, some.injEq, exists_eq_left', forall_eq', hport]
  rw [← haddr]
  refine ⟨fun ⟨_, _, h⟩ => ?_, fun hlt => ⟨rfl, rfl, Nat.mod_eq_of_lt hlt⟩⟩
  rw [← h]
  exact Nat.mod_lt _ (by decide)

/-- What is sent is read as it was sent, but for a port of more than 16 bits, which is cut. -/
theorem wire_faithful_iff (updates : List GossipUpdate) (entries : List GossipEntry) :
    protoToGossip (gossipToProto updates) = updates ∧ (List.Forall₂ GossipEntry.Denotes
        (entries.filter fun e => e.toGossip.isSome) (protoToGossip entries) ↔
      ∀ e ∈ entries, e.toGossip.isSome → ∀ p, e.silo = some p → p.port.toNat < 2 ^ 16) := by
  refine ⟨protoToGossip_gossipToProto updates, ?_⟩
  induction entries with
  | nil => simp [protoToGossip]
  | cons e entries ih =>
    rw [forall_mem_cons, ← ih]
    cases h : e.toGossip with
    | none => simp [protoToGossip, h]
    | some u => simp [protoToGossip, h, e.denotes_iff h]

/-- An entry with the port 65536 is kept, as a silo of port 0. -/
theorem wide_port_altered : ¬ List.Forall₂ GossipEntry.Denotes
    ([⟨0, some ⟨"h", 65536, "a"⟩, 1, ""⟩].filter fun e => e.toGossip.isSome)
    (protoToGossip [⟨0, some ⟨"h", 65536, "a"⟩, 1, ""⟩]) := by
  intro h
  cases h with
  | cons h _ =>
    obtain ⟨p, hp, -, -, hport⟩ := h
    cases hp
    cases hport

theorem GossipUpdate.incarnation_toProto (u : GossipUpdate) :
    u.toProto.incarnation = u.incarnation := by
  cases u <;> rfl

theorem GossipUpdate.silo_toProto (u : GossipUpdate) :
    u.toProto.silo = some (toProtoAddr u.addr) := by
  cases u <;> rfl

/-! ## Silos and the network -/

def SwimTasks.sent (s : SwimTasks) : SwimEvent → List GossipUpdate
  | .drainGossip n => (s.swim.drainGossip n).1
  | _ => []

structure SwimCluster where
  silos : String → Option SwimTasks
  /-- The entries ever sent. -/
  network : List GossipEntry

inductive SwimClusterEvent
  | start (vnodes : ℕ) (localAddr : SiloAddress)
  | act (siloId : String) (e : SwimEvent)
deriving DecidableEq

def SwimClusterEvent.applied : SwimClusterEvent → Option GossipUpdate
  | .act _ (.applyUpdate update) => some update
  | _ => none

def SwimClusterEvent.Below (e : SwimClusterEvent) : Prop :=
  ∀ u ∈ e.applied, u.incarnation.toNat < 2 ^ 64 - 1

instance instDecidableBelow (e : SwimClusterEvent) : Decidable e.Below :=
  inferInstanceAs (Decidable (∀ u ∈ e.applied, _))

namespace SwimCluster

def empty : SwimCluster where
  silos := fun _ => none
  network := []

variable (c : SwimCluster)

def delivers : SwimEvent → Bool
  | .applyUpdate update => update ∈ protoToGossip c.network
  | _ => true

/-- One step, with the time after which each silo's suspicions run out. -/
def step (timeouts : String → ℕ) (c : SwimCluster) : SwimClusterEvent → Option SwimCluster
  | .start vnodes localAddr =>
    if (c.silos localAddr.siloId).isSome then none
    else some { c with
      silos := Function.update c.silos localAddr.siloId (some (.init vnodes localAddr)) }
  | .act siloId e =>
    (c.silos siloId).bind fun s =>
      if c.delivers e then
        (s.step (timeouts siloId) e).map fun s' =>
          { silos := Function.update c.silos siloId (some s')
            network := c.network ++ gossipToProto (s.sent e) }
      else none

def localIncarnation (siloId : String) : UInt64 :=
  (c.silos siloId).elim 0 fun s => s.swim.localIncarnation

end SwimCluster

/-! ## Bounds on the incarnations a silo has recorded -/

/-- Nothing the silo `localId` has recorded or is about to send goes beyond `bound`, which
for the silo itself is its own incarnation. -/
structure SwimState.Bounded (bound : String → UInt64) (localId : String) (s : SwimState) :
    Prop where
  localId_eq : s.localAddr.siloId = localId
  local_eq : s.localIncarnation = bound localId
  records : ∀ id m, s.members.lookup id = some m → m.addr.siloId = id ∧ m.incarnation ≤ bound id
  queued : ∀ u ∈ s.pendingGossip, u.incarnation ≤ bound u.addr.siloId

namespace SwimState.Bounded

variable {bound : String → UInt64} {localId id : String} {s : SwimState} {m : SwimMember}
  {bound' : String → UInt64} {v : Membership}

section

variable (h : s.Bounded bound localId)
include h

theorem setMember (hid : m.addr.siloId = id) (hle : m.incarnation ≤ bound id) :
    (s.setMember id m).Bounded bound localId where
  localId_eq := h.localId_eq
  local_eq := h.local_eq
  records id' m' hm' := by
    rw [lookup_setMember] at hm'
    split_ifs at hm' with heq
    · cases hm'
      exact heq ▸ ⟨hid, hle⟩
    · exact h.records id' m' hm'
  queued := h.queued

theorem enter (silo) : (s.setMember silo.siloId (.joined silo)).Bounded bound localId :=
  h.setMember rfl UInt64.zero_le

theorem removeMember (id) : (s.removeMember id).Bounded bound localId where
  localId_eq := h.localId_eq
  local_eq := h.local_eq
  records id' m' hm' := by
    rw [lookup_removeMember] at hm'
    split_ifs at hm'
    exact h.records id' m' hm'
  queued := h.queued

theorem enqueueGossip {u} (hu : u.incarnation ≤ bound u.addr.siloId) :
    (s.enqueueGossip u).Bounded bound localId where
  localId_eq := h.localId_eq
  local_eq := h.local_eq
  records := h.records
  queued u' hu' := by
    rcases mem_append.mp hu' with hold | hnew
    · split_ifs at hold
      · exact h.queued u' (mem_of_mem_tail hold)
      · exact h.queued u' hold
    · exact mem_singleton.mp hnew ▸ hu

theorem drainGossip (n) : (s.drainGossip n).2.Bounded bound localId where
  localId_eq := h.localId_eq
  local_eq := h.local_eq
  records := h.records
  queued u hu := h.queued u (mem_of_mem_drop hu)

theorem suspectMember (now id) : (s.suspectMember now id).Bounded bound localId := by
  unfold SwimState.suspectMember
  split
  case h_1 m hm =>
    obtain ⟨hid, hle⟩ := h.records id m hm
    split_ifs
    · refine enqueueGossip (setMember h ?_ ?_) ?_
      · exact hid
      · exact hle
      · exact hid.symm ▸ hle
    · exact h
  case h_2 => exact h

theorem markAlive (id) : (s.markAlive id).Bounded bound localId := by
  unfold SwimState.markAlive
  split
  case h_1 m hm =>
    obtain ⟨hid, hle⟩ := h.records id m hm
    exact h.setMember hid hle
  case h_2 => exact h

end

theorem joinCluster (h : v.swim.Bounded bound localId) (members) :
    (v.joinCluster members).swim.Bounded bound localId := by
  unfold Membership.joinCluster
  refine foldlRecOn members _ h fun swim hswim silo _ => ?_
  split_ifs
  · exact hswim.enter silo
  · exact hswim

theorem declareDead (h : v.swim.Bounded bound localId) (id) :
    (v.declareDead id).swim.Bounded bound localId := by
  unfold Membership.declareDead
  split
  case h_1 m hm =>
    obtain ⟨hid, hle⟩ := h.records id m hm
    exact (h.removeMember id).enqueueGossip (hid.symm ▸ hle)
  case h_2 => exact h

theorem call {c c' : MembershipCalls} {e} (h : c.view.swim.Bounded bound localId)
    (hs : c.step e = some c') : c'.view.swim.Bounded bound localId := by
  cases e with
  | join silo =>
    cases hs
    simp only [Membership.join]
    split_ifs
    · exact h
    · exact (h.enter silo).enqueueGossip UInt64.zero_le
  | checkJoin silo | checkLeave silo =>
    cases hs
    split_ifs <;> exact h
  | notifyJoin silo =>
    obtain ⟨-, heq⟩ := ite_none_right_eq_some.mp hs
    cases heq
    exact h.enter silo
  | notifyLeave silo =>
    obtain ⟨-, heq⟩ := ite_none_right_eq_some.mp hs
    cases heq
    exact h.removeMember silo.siloId
  | joinCluster members =>
    cases hs
    exact h.joinCluster members
  | declareDead siloId =>
    cases hs
    exact h.declareDead siloId

theorem raise (h : s.Bounded bound localId) (hle : ∀ id, bound id ≤ bound' id) :
    SwimState.Bounded bound' localId { s with localIncarnation := bound' localId } where
  localId_eq := h.localId_eq
  local_eq := rfl
  records id m hm := ⟨(h.records id m hm).1, (h.records id m hm).2.trans (hle id)⟩
  queued u hu := (h.queued u hu).trans (hle _)

theorem mono (h : s.Bounded bound localId) (hle : ∀ id, bound id ≤ bound' id)
    (hlocal : bound' localId = bound localId) : s.Bounded bound' localId := by
  have hraise := h.raise hle
  rwa [hlocal, ← h.local_eq] at hraise

end SwimState.Bounded

variable {bound : String → UInt64} {localId : String} {e : SwimEvent}

theorem le_update_of_le {n} (h : bound localId ≤ n) (id) :
    bound id ≤ update bound localId n id := by
  by_cases hid : id = localId
  · rw [hid, update_self]
    exact h
  · rw [update_of_ne hid]

/-- An update within the bounds keeps to them, and only the silo's own may rise : a
suspicion of the silo itself bears its incarnation, and is refuted with the next. -/
theorem GossipBatch.Move.bounded {b b' : GossipBatch} {now} (hmove : b.Move now u b')
    (h : b.swim.Bounded bound localId) (hu : u.incarnation ≤ bound u.addr.siloId)
    (hmax : u.incarnation.toNat < 2 ^ 64 - 1) :
    ∃ n, bound localId ≤ n ∧ b'.swim.Bounded (update bound localId n) localId := by
  have hkept : ∀ {s : SwimState}, s.Bounded bound localId → ∃ n, bound localId ≤ n ∧
      s.Bounded (update bound localId n) localId :=
    fun hs => ⟨bound localId, le_rfl, by rwa [update_eq_self]⟩
  cases hmove with
  | kept => exact hkept h
  | raised hm | reported hm => exact hkept (h.setMember (h.records _ _ hm).1 hu)
  | @refuted _ incarnation _ hle =>
    have hn : bound localId ≤ incarnation + 1 := by
      have hle' : bound localId ≤ incarnation := h.local_eq ▸ hle
      rw [UInt64.le_iff_toNat_le] at hle' ⊢
      rw [UInt64.toNat_add]
      simp only [GossipUpdate.incarnation] at hmax
      simp only [UInt64.toNat_one]
      omega
    refine ⟨incarnation + 1, hn, ?_⟩
    have hraise := h.raise (le_update_of_le hn)
    rw [update_self] at hraise
    refine hraise.enqueueGossip ?_
    rw [GossipUpdate.addr, h.localId_eq, update_self]
    exact le_rfl
  | died => exact hkept (h.removeMember _)
  | joined => exact hkept (h.enter _)

theorem SwimTasks.bounded_step {timeout} {s s' : SwimTasks} (h : s.swim.Bounded bound localId)
    (hstep : s.step timeout e = some s')
    (he : ∀ u, e = .applyUpdate u → u.incarnation ≤ bound u.addr.siloId ∧ u.incarnation.toNat < 2 ^
      64 - 1) :
    ∃ n, bound localId ≤ n ∧ s'.swim.Bounded (update bound localId n) localId := by
  have hkept : s'.swim.Bounded bound localId → ∃ n, bound localId ≤ n ∧
      s'.swim.Bounded (update bound localId n) localId :=
    fun hs => ⟨bound localId, le_rfl, by rwa [update_eq_self]⟩
  cases move_of_step hstep with
  | call hc => exact hkept (SwimState.Bounded.call h hc)
  | @applyUpdate batch update =>
    obtain ⟨hle, hmax⟩ := he update rfl
    have hmove := GossipBatch.apply_move ⟨s.swim, batch.1, batch.2⟩ s.clock update
    exact hmove.bounded h hle hmax
  | drainGossip n => exact hkept (h.drainGossip n)
  | suspectMember siloId => exact hkept (h.suspectMember s.clock siloId)
  | markAlive siloId => exact hkept (h.markAlive siloId)
  | @expireSuspects siloIds =>
    refine hkept ?_
    exact foldlRecOn (motive := fun v : Membership => v.swim.Bounded bound localId) siloIds _
      h fun _ hv siloId _ => hv.declareDead siloId
  | _ => exact hkept h

theorem SwimTasks.mem_pendingGossip_of_sent {s : SwimTasks} (h : u ∈ s.sent e) :
    u ∈ s.swim.pendingGossip := by
  cases e with
  | drainGossip n => exact mem_of_mem_take h
  | _ => cases h

namespace SwimCluster

variable {timeouts : String → ℕ} {c c' : SwimCluster} {e : SwimClusterEvent}

variable (c) in
/-- Every silo and everything on the network keeps to the silos' own incarnations. -/
structure Bounded : Prop where
  silos : ∀ id s, c.silos id = some s → s.swim.Bounded c.localIncarnation id
  network : ∀ entry ∈ c.network, ∀ p ∈ entry.silo,
    entry.incarnation ≤ c.localIncarnation p.siloId

theorem localIncarnation_eq {silos : String → Option SwimTasks} {network id s} :
    localIncarnation ⟨update silos id (some s), network⟩ =
      update (localIncarnation ⟨silos, network⟩) id s.swim.localIncarnation := by
  funext id'
  by_cases hid : id' = id
  · subst hid
    simp [localIncarnation]
  · simp [localIncarnation, update_of_ne hid]

theorem Bounded.delivered (h : c.Bounded) {u : GossipUpdate}
    (hu : c.delivers (.applyUpdate u) = true) :
    u.incarnation ≤ c.localIncarnation u.addr.siloId := by
  obtain ⟨entry, hentry, heq⟩ := mem_filterMap.mp (of_decide_eq_true hu)
  obtain ⟨p, hp, haddr, hle⟩ := GossipEntry.of_toGossip heq
  have hid : p.siloId = u.addr.siloId := congrArg SiloAddress.siloId haddr
  exact hle.trans (hid ▸ h.network entry hentry p hp)

theorem Bounded.start (h : c.Bounded) {vnodes localAddr}
    (hst : c.step timeouts (.start vnodes localAddr) = some c') : c'.Bounded := by
  obtain ⟨hfree, hst⟩ := ite_none_left_eq_some.mp hst
  cases hst
  have hzero : c.localIncarnation localAddr.siloId = 0 := by
    have hnone : c.silos localAddr.siloId = none := by simpa using hfree
    rw [localIncarnation, hnone]
    rfl
  -- A silo starts with the incarnation that counts for it before.
  have hsame : localIncarnation ⟨update c.silos localAddr.siloId
      (some (.init vnodes localAddr)), c.network⟩ = c.localIncarnation := by
    rw [localIncarnation_eq, update_eq_self_iff]
    exact hzero.symm
  refine ⟨fun id s hs => ?_, fun entry hentry p hp => ?_⟩
  · rw [hsame]
    by_cases hid : id = localAddr.siloId
    · subst hid
      simp only [update_self] at hs
      cases hs
      refine ⟨rfl, hzero.symm, fun id m hm => ?_, fun u hu => ?_⟩
      · cases Finmap.lookup_empty id ▸ hm
      · cases hu
    · simp only [update_of_ne hid] at hs
      exact h.silos id s hs
  · rw [hsame]
    exact h.network entry hentry p hp

theorem Bounded.act (h : c.Bounded) {siloId} {e : SwimEvent}
    (he : (SwimClusterEvent.act siloId e).Below)
    (hst : c.step timeouts (.act siloId e) = some c') : c'.Bounded := by
  obtain ⟨s, hs, hst⟩ := bind_eq_some_iff.mp hst
  obtain ⟨hdel, hst⟩ := ite_none_right_eq_some.mp hst
  obtain ⟨s', hs', rfl⟩ := map_eq_some_iff.mp hst
  have hb := h.silos siloId s hs
  obtain ⟨n, hn, hb'⟩ := SwimTasks.bounded_step hb hs' fun u hu => by
    subst hu
    exact ⟨h.delivered hdel, he u rfl⟩
  have hrise := le_update_of_le hn
  have hbound : localIncarnation ⟨update c.silos siloId (some s'),
      c.network ++ gossipToProto (s.sent e)⟩ = update c.localIncarnation siloId n := by
    rw [localIncarnation_eq, hb'.local_eq, update_self]
    rfl
  refine ⟨fun id t ht => ?_, fun entry hentry p hp => ?_⟩
  · rw [hbound]
    by_cases hid : id = siloId
    · subst hid
      simp only [update_self] at ht
      cases ht
      exact hb'
    · simp only [update_of_ne hid] at ht
      exact (h.silos id t ht).mono hrise (update_of_ne hid ..)
  · rw [hbound]
    rcases mem_append.mp hentry with hold | hnew
    · exact (h.network entry hold p hp).trans (hrise _)
    · obtain ⟨u, hu, rfl⟩ := mem_map.mp hnew
      rw [u.silo_toProto] at hp
      cases hp
      rw [u.incarnation_toProto]
      exact (hb.queued u (SwimTasks.mem_pendingGossip_of_sent hu)).trans (hrise _)

theorem bounded_empty : empty.Bounded where
  silos _ _ hs := by cases hs
  network _ hentry := by cases hentry

/-- Every record, queued update and entry on the network about a silo bears at most the incarnation
the silo has itself. -/
theorem incarnation_le (timeouts : String → ℕ) (es : List SwimClusterEvent) (c : SwimCluster)
    (hrun : exec (step timeouts) empty es = some c) (hmax : ∀ e ∈ es, e.Below) (siloId : String) :
    (∀ id s m, c.silos id = some s → s.swim.members.lookup siloId = some m →
      m.incarnation ≤ c.localIncarnation siloId) ∧
    (∀ id s u, c.silos id = some s → u ∈ s.swim.pendingGossip → u.addr.siloId = siloId →
      u.incarnation ≤ c.localIncarnation siloId) ∧
    (∀ entry ∈ c.network, ∀ p ∈ entry.silo, p.siloId = siloId →
      entry.incarnation ≤ c.localIncarnation siloId) := by
  have hbounded := exec_invariant (P := fun _ e => e.Below ∧ True) (fun c e c' he h hstep => by
        cases e with
        | start vnodes localAddr => exact h.start hstep
        | act siloId e => exact h.act he.1 hstep)
      bounded_empty ((along_true es empty).and_forall hmax) hrun
  refine ⟨fun id s m hs hm => ((hbounded.silos id s hs).records siloId m hm).2, ?_, ?_⟩
  · rintro id s u hs hu rfl
    exact (hbounded.silos id s hs).queued u hu
  · rintro entry hentry p hp rfl
    exact hbounded.network entry hentry p hp

open MembershipCalls (siloAt)

/-- A silo suspects another, which hears of it, refutes it, and is heard. The suspicion
arrives once more. -/
def rumour : List SwimClusterEvent :=
  [.start 1 (siloAt "a" 0), .start 1 (siloAt "b" 1), .act "a" (.call (.join (siloAt "b" 1))),
    .act "a" (.suspectMember "b"), .act "a" (.drainGossip 2), .act "b" .beginGossip,
    .act "b" (.applyUpdate (.suspect (siloAt "b" 1) 0 "a")), .act "b" .endGossip,
    .act "b" (.drainGossip 1), .act "a" .beginGossip,
    .act "a" (.applyUpdate (.alive (siloAt "b" 1) 1)),
    .act "a" (.applyUpdate (.suspect (siloAt "b" 1) 0 "a"))]

theorem incarnation_le_rumour :
    ∃ c a m, exec (step fun _ => 5) empty rumour = some c ∧ c.localIncarnation "b" = 1 ∧
      c.silos "a" = some a ∧ a.swim.members.lookup "b" = some m ∧ m.status = .alive ∧
      m.incarnation ≤ c.localIncarnation "b" := by
  obtain ⟨c, a, m, hrun, hb, ha, hm, hs⟩ : ∃ c a m, exec (step fun _ => 5) empty rumour = some c ∧
      c.localIncarnation "b" = 1 ∧ c.silos "a" = some a ∧ a.swim.members.lookup "b" = some m ∧
      m.status = .alive := ⟨_, _, _, rfl, rfl, rfl, rfl, rfl⟩
  exact ⟨c, a, m, hrun, hb, ha, hm, hs,
    (incarnation_le (fun _ => 5) rumour c hrun (by decide +kernel) "b").1 "a" a m ha hm⟩

end SwimCluster

end Orlando
