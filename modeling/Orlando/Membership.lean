import Orlando.RingMembers
import Orlando.Swim
import Orlando.Transition

/-!
# Joining and leaving

Five operations enter silos into the member table and the ring or take them out : `join`,
`notify_join`, `notify_leave`, `join_cluster` and `declare_dead`. Each changes both under the SWIM
lock. `notify_join` and `notify_leave` first look at the ring without the lock (`MembershipCalls`).
-/

namespace Orlando

open List Function Finmap Option SwimState

namespace Membership

variable (v : Membership)

def join (silo : SiloAddress) : Membership where
  swim :=
    if silo.siloId ∈ v.swim.members then v.swim
    else (v.swim.setMember silo.siloId (.joined silo)).enqueueGossip (.join silo)
  ring := v.ring.add silo

def knows (siloId : String) : Bool :=
  v.ring.members.any fun m => m.siloId == siloId

def notifyJoin (silo : SiloAddress) : Membership where
  swim := v.swim.setMember silo.siloId (.joined silo)
  ring := v.ring.add silo

/-- A silo learns that one it knows is gone, under the lock. -/
def notifyLeave (silo : SiloAddress) : Membership where
  swim := v.swim.removeMember silo.siloId
  ring := v.ring.remove silo

def joinCluster (members : List SiloAddress) : Membership where
  swim := members.foldl (fun swim silo =>
    if silo.siloId ≠ swim.localAddr.siloId then swim.setMember silo.siloId (.joined silo)
    else swim) v.swim
  ring := members.foldl HashRing.add v.ring

/-- The ring and the member table list the same silos, at the same addresses : the ring
the local silo and the members, and the table not the local silo. -/
structure Coherent : Prop where
  siloIds : v.ring.siloIds = insert v.swim.localAddr.siloId v.swim.members.keys
  address : ∀ a ∈ v.ring.members, ∀ m ∈ v.swim.members.lookup a.siloId,
    m.addr.host = a.host ∧ m.addr.port = a.port
  local_mem : v.swim.localAddr.siloId ∈ v.ring.siloIds
  local_notMem : v.swim.localAddr.siloId ∉ v.swim.members

end Membership

/-! ## Calls -/

/-- A silo with the calls of `notify_join` and `notify_leave` that have looked at the ring
and wait for the lock. -/
structure MembershipCalls where
  view : Membership
  joining : List SiloAddress
  leaving : List SiloAddress

inductive MembershipEvent
  | join (silo : SiloAddress)
  /-- A call of `notify_join` looks at the ring. -/
  | checkJoin (silo : SiloAddress)
  | notifyJoin (silo : SiloAddress)
  /-- A call of `notify_leave` looks at the ring. -/
  | checkLeave (silo : SiloAddress)
  | notifyLeave (silo : SiloAddress)
  | joinCluster (members : List SiloAddress)
  | declareDead (siloId : String)
deriving DecidableEq

def MembershipEvent.siloIds : MembershipEvent → List String
  | .join silo | .checkJoin silo | .notifyJoin silo | .checkLeave silo | .notifyLeave silo =>
    [silo.siloId]
  | .joinCluster members => members.map SiloAddress.siloId
  | .declareDead siloId => [siloId]

namespace MembershipCalls

def init (vnodes : ℕ) (localAddr : SiloAddress) : MembershipCalls where
  view := .new vnodes localAddr
  joining := []
  leaving := []

def step (s : MembershipCalls) : MembershipEvent → Option MembershipCalls
  | .join silo => some { s with view := s.view.join silo }
  | .checkJoin silo =>
    -- A silo that is known needs no more.
    some (if s.view.knows silo.siloId then s else { s with joining := s.joining ++ [silo] })
  | .notifyJoin silo =>
    if silo ∈ s.joining then
      some { s with view := s.view.notifyJoin silo, joining := s.joining.erase silo }
    else none
  | .checkLeave silo =>
    some (if s.view.knows silo.siloId then { s with leaving := s.leaving ++ [silo] } else s)
  | .notifyLeave silo =>
    if silo ∈ s.leaving then
      some { s with view := s.view.notifyLeave silo, leaving := s.leaving.erase silo }
    else none
  | .joinCluster members => some { s with view := s.view.joinCluster members }
  | .declareDead siloId => some { s with view := s.view.declareDead siloId }

/-- A silo that joins has an id of its own, and joins again from the address it is known
by ; the local silo is not removed. -/
def Admissible (s : MembershipCalls) : MembershipEvent → Prop
  | .join silo => silo.siloId ≠ s.view.swim.localAddr.siloId ∧
      ∀ m ∈ s.view.swim.members.lookup silo.siloId, m.addr = silo
  | .notifyLeave silo => silo.siloId ≠ s.view.swim.localAddr.siloId
  | _ => True

instance (s : MembershipCalls) : (e : MembershipEvent) → Decidable (s.Admissible e)
  | .join _ => inferInstanceAs (Decidable (_ ∧ _))
  | .notifyLeave _ => inferInstanceAs (Decidable (_ ≠ _))
  | .checkJoin _ | .notifyJoin _ | .checkLeave _ | .joinCluster _ | .declareDead _ =>
    inferInstanceAs (Decidable True)

end MembershipCalls

/-! ## The table and the ring, entry by entry -/

def SwimState.addresses (s : SwimState) (home : SiloAddress) : String → Option SiloAddress :=
  Function.update (fun id => (s.members.lookup id).map SwimMember.addr) s.localAddr.siloId
    (some home)

namespace SwimState

variable {s : SwimState} {home : SiloAddress} {id : String}

theorem addresses_local : s.addresses home s.localAddr.siloId = some home :=
  update_self ..

section

variable (h : id ≠ s.localAddr.siloId)
include h

theorem addresses_of_ne : s.addresses home id = (s.members.lookup id).map SwimMember.addr :=
  update_of_ne h ..

theorem addresses_setMember {m} :
    (s.setMember id m).addresses home = update (s.addresses home) id (some m.addr) := by
  rw [addresses, addresses, update_comm h.symm]
  congr 1
  ext1 id'
  by_cases hid : id' = id
  · subst hid
    simp [setMember]
  · rw [update_of_ne hid]
    simp [setMember, lookup_insert_of_ne _ hid]

theorem addresses_removeMember :
    (s.removeMember id).addresses home = update (s.addresses home) id none := by
  rw [addresses, addresses, update_comm h.symm]
  congr 1
  ext1 id'
  by_cases hid : id' = id
  · subst hid
    simp [removeMember]
  · rw [update_of_ne hid]
    simp [removeMember, lookup_erase_ne hid]

end

end SwimState

namespace Membership

structure Synced (ids : Finset String) (localAddr : SiloAddress) (v : Membership) : Prop where
  ring : ∃ home, v.ring.IsRingOf ids (v.swim.addresses home)
  nodes : 0 < v.ring.virtualNodes
  localAddr_eq : v.swim.localAddr = localAddr
  local_notMem : localAddr.siloId ∉ v.swim.members

variable {ids : Finset String} {localAddr silo : SiloAddress} {v : Membership} {siloId : String}

theorem synced_new {vnodes} (hnodes : 0 < vnodes)
    (hd : HashRing.DistinctHashes vnodes ids) (hmem : localAddr.siloId ∈ ids) :
    (new vnodes localAddr).Synced ids localAddr where
  ring := ⟨localAddr, (HashRing.isRingOf_new hd).add hmem⟩
  nodes := hnodes
  localAddr_eq := rfl
  local_notMem := notMem_empty

namespace Synced

variable (h : v.Synced ids localAddr)
include h

theorem addresses_of_ne {home} (hne : siloId ≠ localAddr.siloId) :
    v.swim.addresses home siloId = (v.swim.members.lookup siloId).map SwimMember.addr :=
  SwimState.addresses_of_ne (h.localAddr_eq ▸ hne)

theorem lookup_siloId {m} (hm : v.swim.members.lookup siloId = some m) :
    m.addr.siloId = siloId ∧ siloId ∈ ids ∧ siloId ≠ localAddr.siloId := by
  obtain ⟨home, hring⟩ := h.ring
  have hne : siloId ≠ localAddr.siloId := by
    rintro rfl
    exact h.local_notMem (mem_of_lookup_eq_some hm)
  have haddr : v.swim.addresses home siloId = some m.addr := by
    rw [h.addresses_of_ne hne, hm, map_some]
  exact ⟨hring.siloId_eq haddr, hring.mem_ids haddr, hne⟩

theorem enter (hmem : silo.siloId ∈ ids) (hne : silo.siloId ≠ localAddr.siloId) :
    Synced ids localAddr ⟨v.swim.setMember silo.siloId (.joined silo), v.ring.add silo⟩ where
  ring := by
    obtain ⟨home, hring⟩ := h.ring
    exact ⟨home, addresses_setMember (h.localAddr_eq ▸ hne) ▸ hring.add hmem⟩
  nodes := h.nodes
  localAddr_eq := h.localAddr_eq
  local_notMem := by
    rw [setMember, mem_insert, not_or]
    exact ⟨hne.symm, h.local_notMem⟩

theorem leave (hm : silo.siloId ∈ ids) (hne : silo.siloId ≠ localAddr.siloId) :
    Synced ids localAddr ⟨v.swim.removeMember silo.siloId, v.ring.remove silo⟩ where
  ring := by
    obtain ⟨home, hring⟩ := h.ring
    exact ⟨home, addresses_removeMember (h.localAddr_eq ▸ hne) ▸ hring.remove hm⟩
  nodes := h.nodes
  localAddr_eq := h.localAddr_eq
  local_notMem := by
    rw [removeMember, mem_erase]
    exact fun hm => h.local_notMem hm.2

theorem enqueueGossip (update) : Synced ids localAddr ⟨v.swim.enqueueGossip update, v.ring⟩ :=
  ⟨h.ring, h.nodes, h.localAddr_eq, h.local_notMem⟩

theorem add_local (hmem : silo.siloId ∈ ids) (heq : silo.siloId = localAddr.siloId) :
    Synced ids localAddr ⟨v.swim, v.ring.add silo⟩ where
  ring := by
    obtain ⟨home, hring⟩ := h.ring
    have hadd := hring.add hmem
    rw [heq, ← h.localAddr_eq, addresses, update_idem] at hadd
    exact ⟨silo, hadd⟩
  nodes := h.nodes
  localAddr_eq := h.localAddr_eq
  local_notMem := h.local_notMem

theorem join (hmem : silo.siloId ∈ ids) (hne : silo.siloId ≠ localAddr.siloId)
    (haddr : ∀ m ∈ v.swim.members.lookup silo.siloId, m.addr = silo) :
    (v.join silo).Synced ids localAddr := by
  unfold Membership.join
  split_ifs with hknown
  · -- The ring has the silo at this address already.
    obtain ⟨m, hm⟩ := mem_iff.mp hknown
    obtain ⟨home, hring⟩ := h.ring
    have hadd := hring.add hmem
    have hon : v.swim.addresses home silo.siloId = some silo := by
      rw [h.addresses_of_ne hne, hm, map_some, haddr m hm]
    rw [← hon, update_eq_self] at hadd
    exact ⟨⟨home, hadd⟩, h.nodes, h.localAddr_eq, h.local_notMem⟩
  · exact (h.enter hmem hne).enqueueGossip _

omit h in
theorem joinCluster {members} (h : v.Synced ids localAddr)
    (hm : ∀ silo ∈ members, silo.siloId ∈ ids) :
    (v.joinCluster members).Synced ids localAddr := by
  induction members generalizing v with
  | nil => exact h
  | cons silo members ih =>
    have hsilo := hm silo mem_cons_self
    have hrest := fun silo' h => hm silo' (mem_cons_of_mem silo h)
    rw [Membership.joinCluster, foldl_cons, foldl_cons, h.localAddr_eq]
    split_ifs with hne
    · exact ih (h.enter hsilo hne) hrest
    · exact ih (h.add_local hsilo (not_not.mp hne)) hrest

theorem declareDead : (v.declareDead siloId).Synced ids localAddr := by
  unfold Membership.declareDead
  split
  case h_1 m hm =>
    obtain ⟨rfl, hmem, hne⟩ := h.lookup_siloId hm
    exact (h.leave hmem hne).enqueueGossip _
  case h_2 => exact h

theorem coherent : v.Coherent := by
  obtain ⟨home, hring⟩ := h.ring
  have hids : v.ring.siloIds = insert v.swim.localAddr.siloId v.swim.members.keys := by
    ext id
    rw [hring.mem_siloIds h.nodes, Finset.mem_insert, Finmap.mem_keys]
    by_cases hid : id = v.swim.localAddr.siloId
    · simp [hid, addresses_local]
    · simp [hid, SwimState.addresses_of_ne, lookup_isSome]
  refine ⟨hids, ?_, hids ▸ Finset.mem_insert_self .., h.localAddr_eq ▸ h.local_notMem⟩
  intro a ha m hm
  have haddr := (hring.mem_members h.nodes).mp ha
  rw [h.addresses_of_ne (h.lookup_siloId hm).2.2, hm] at haddr
  rw [← Option.some.inj haddr]
  exact ⟨rfl, rfl⟩

theorem knows_local : v.knows localAddr.siloId = true := by
  have hm := h.coherent.local_mem
  rw [h.localAddr_eq] at hm
  simpa [knows, HashRing.siloIds] using hm

theorem of_coherent_join (hmem : silo.siloId ∈ ids) (hc : (v.join silo).Coherent) :
    silo.siloId ≠ localAddr.siloId ∧ ∀ m ∈ v.swim.members.lookup silo.siloId, m.addr = silo := by
  constructor
  · intro heq
    have hnew := h.local_notMem
    have hnot := hc.local_notMem
    simp [Membership.join, heq, hnew, SwimState.enqueueGossip, setMember,
      h.localAddr_eq] at hnot
  · intro m hm
    obtain ⟨home, hring⟩ := h.ring
    have hjoin : v.join silo = ⟨v.swim, v.ring.add silo⟩ := by
      rw [Membership.join, if_pos (mem_of_lookup_eq_some hm)]
    rw [hjoin] at hc
    have hon := ((hring.add hmem).mem_members h.nodes).mpr (update_self ..)
    obtain ⟨hhost, hport⟩ := hc.address silo hon m hm
    exact SiloAddress.ext hhost hport (h.lookup_siloId hm).1

theorem of_coherent_notifyLeave (hmem : silo.siloId ∈ ids)
    (hc : (v.notifyLeave silo).Coherent) : silo.siloId ≠ localAddr.siloId := by
  intro heq
  obtain ⟨home, hring⟩ := h.ring
  have hon := ((hring.remove hmem).mem_siloIds h.nodes).mp hc.local_mem
  rw [Membership.notifyLeave, removeMember, h.localAddr_eq, ← heq, update_self] at hon
  cases hon

end Synced

end Membership

/-! ## Runs -/

namespace MembershipCalls

/-- The ring and the table are in step, and no waiting call of `notify_join` is about the
local silo. -/
structure Tracks (ids : Finset String) (localAddr : SiloAddress) (s : MembershipCalls) :
    Prop where
  synced : s.view.Synced ids localAddr
  joining : ∀ silo ∈ s.joining, silo.siloId ∈ ids ∧ silo.siloId ≠ localAddr.siloId
  leaving : ∀ silo ∈ s.leaving, silo.siloId ∈ ids

variable {ids : Finset String} {localAddr : SiloAddress} {s s' : MembershipCalls}
  {e : MembershipEvent}

theorem Tracks.step (h : s.Tracks ids localAddr) (he : ∀ id ∈ e.siloIds, id ∈ ids)
    (hadm : s.Admissible e) (hs : s.step e = some s') : s'.Tracks ids localAddr := by
  cases e with
  | join silo =>
    cases hs
    exact ⟨h.synced.join (he _ mem_cons_self) (h.synced.localAddr_eq ▸ hadm.1) hadm.2,
      h.joining, h.leaving⟩
  | checkJoin silo =>
    cases hs
    split_ifs with hknown
    · exact h
    · refine ⟨h.synced, ?_, h.leaving⟩
      intro silo' hm
      rcases mem_append.mp hm with hm | hm
      · exact h.joining silo' hm
      · -- The local silo is known, and the call would have returned.
        rw [mem_singleton.mp hm]
        refine ⟨he _ mem_cons_self, fun heq => hknown ?_⟩
        rw [heq]
        exact h.synced.knows_local
  | notifyJoin silo =>
    obtain ⟨hm, heq⟩ := ite_none_right_eq_some.mp hs
    cases heq
    obtain ⟨hid, hne⟩ := h.joining silo hm
    exact ⟨h.synced.enter hid hne,
      fun silo' hmem' => h.joining silo' (mem_of_mem_erase hmem'), h.leaving⟩
  | checkLeave silo =>
    cases hs
    split_ifs with hknown
    · refine ⟨h.synced, h.joining, ?_⟩
      intro silo' hm
      rcases mem_append.mp hm with hm | hm
      · exact h.leaving silo' hm
      · rw [mem_singleton.mp hm]
        exact he _ mem_cons_self
    · exact h
  | notifyLeave silo =>
    obtain ⟨hm, heq⟩ := ite_none_right_eq_some.mp hs
    cases heq
    exact ⟨h.synced.leave (h.leaving silo hm) (h.synced.localAddr_eq ▸ hadm), h.joining,
      fun silo' hmem' => h.leaving silo' (mem_of_mem_erase hmem')⟩
  | joinCluster members =>
    cases hs
    exact ⟨h.synced.joinCluster fun silo hm => he _ (mem_map_of_mem hm), h.joining, h.leaving⟩
  | declareDead siloId =>
    cases hs
    exact ⟨h.synced.declareDead, h.joining, h.leaving⟩

theorem tracks_of_run {vnodes es}
    (hnodes : 0 < vnodes) (hd : HashRing.DistinctHashes vnodes ids)
    (hlocal : localAddr.siloId ∈ ids) (hids : ∀ e ∈ es, ∀ id ∈ e.siloIds, id ∈ ids)
    (hal : Along MembershipCalls.step Admissible (init vnodes localAddr) es)
    (hrun : exec MembershipCalls.step (init vnodes localAddr) es = some s) :
    s.Tracks ids localAddr := by
  have hinit : (init vnodes localAddr).Tracks ids localAddr :=
    ⟨Membership.synced_new hnodes hd hlocal, nofun, nofun⟩
  exact exec_invariant (fun _ _ _ hP h hstep => h.step hP.1 hP.2 hstep) hinit
    (hal.and_forall hids) hrun

theorem Tracks.admissible (h : s.Tracks ids localAddr) (he : ∀ id ∈ e.siloIds, id ∈ ids)
    (hs : s.step e = some s') (hc : s'.view.Coherent) : s.Admissible e := by
  cases e with
  | join silo =>
    cases hs
    obtain ⟨hne, haddr⟩ := h.synced.of_coherent_join (he _ mem_cons_self) hc
    exact ⟨h.synced.localAddr_eq ▸ hne, haddr⟩
  | notifyLeave silo =>
    obtain ⟨hmem, heq⟩ := ite_none_right_eq_some.mp hs
    cases heq
    rw [Admissible, h.synced.localAddr_eq]
    exact h.synced.of_coherent_notifyLeave (h.leaving silo hmem) hc
  | _ => trivial

theorem not_coherent_of_no_nodes : ¬(Membership.new 0 localAddr).Coherent :=
  fun hc => absurd hc.local_mem (Finset.notMem_empty _)

/-- Member table and ring list the same silos exactly as long as no silo joins under the local id, a
known silo joins again only from its known address, and nobody reports the local silo as gone. -/
theorem coherent_iff (vnodes : ℕ) (localAddr : SiloAddress)
    (es : List MembershipEvent) (s : MembershipCalls)
    (hrun : exec step (init vnodes localAddr) es = some s)
    (hd : HashRing.DistinctHashes vnodes
      (insert localAddr.siloId (es.flatMap MembershipEvent.siloIds).toFinset)) :
    (∀ es₁ u, es₁ <+: es → exec step (init vnodes localAddr) es₁ = some u → u.view.Coherent) ↔
    0 < vnodes ∧ Along step Admissible (init vnodes localAddr) es := by
  have hlocal := Finset.mem_insert_self localAddr.siloId
    (es.flatMap MembershipEvent.siloIds).toFinset
  have hids : ∀ e ∈ es, ∀ id ∈ e.siloIds,
      id ∈ insert localAddr.siloId (es.flatMap MembershipEvent.siloIds).toFinset :=
    fun e he id hid => Finset.mem_insert_of_mem (mem_toFinset.mpr (mem_flatMap.mpr ⟨e, he, hid⟩))
  constructor
  · intro hcoh
    have hnodes : 0 < vnodes := by
      refine Nat.pos_of_ne_zero ?_
      rintro rfl
      exact not_coherent_of_no_nodes (hcoh [] _ nil_prefix rfl)
    refine ⟨hnodes, ?_⟩
    by_contra hal
    -- The first step that is not admissible leads to a state that is not coherent.
    obtain ⟨es₁, e, es₂, u, v, rfl, hu, hv, -, hal₁, hbad⟩ := exists_of_not_along hrun hal
    have hu' := tracks_of_run hnodes hd hlocal
      (fun e' he' => hids e' (mem_append_left _ he')) hal₁ hu
    have hv' := hcoh (es₁ ++ [e]) v ⟨es₂, by simp⟩ (exec_snoc_eq_some.mpr ⟨u, hu, hv⟩)
    exact hbad (hu'.admissible (hids e (by simp)) hv hv')
  · rintro ⟨hnodes, hal⟩ es₁ u ⟨es₂, rfl⟩ hu
    exact (tracks_of_run hnodes hd hlocal
      (fun e he => hids e (mem_append_left _ he)) hal.of_append hu).synced.coherent

def siloAt (siloId : String) (port : UInt16) : SiloAddress where
  host := "10.0.0.1"
  port := port
  siloId := siloId

/-- Two silos join, one is reported gone while another call is about to report it joined,
and the silo is declared dead at last. -/
def churn : List MembershipEvent :=
  [.join (siloAt "b" 1), .joinCluster [siloAt "a" 0, siloAt "b" 1, siloAt "c" 2],
    .checkLeave (siloAt "b" 1), .notifyLeave (siloAt "b" 1), .checkJoin (siloAt "b" 3),
    .join (siloAt "b" 1), .notifyJoin (siloAt "b" 3), .declareDead "b"]

theorem coherent_iff_churn :
    ∃ s, exec step (init 1 (siloAt "a" 0)) churn = some s ∧ s.view.Coherent ∧
      s.view.ring.siloIds = {"a", "c"} := by
  obtain ⟨s, hrun, hids⟩ : ∃ s, exec step (init 1 (siloAt "a" 0)) churn = some s ∧
      s.view.ring.siloIds = {"a", "c"} := ⟨_, rfl, by decide +kernel⟩
  refine ⟨s, hrun, ?_, hids⟩
  exact (coherent_iff 1 (siloAt "a" 0) churn s hrun (by decide +kernel)).mpr
    ⟨by decide, by decide +kernel⟩ churn s (prefix_refl _) hrun

/-- A silo that is still listed as a member comes back on another port : the ring sends
calls to the new port, and the table probes the old one. -/
theorem rejoin_splits_address :
    ∃ s a m, exec step (init 1 (siloAt "a" 0)) [.join (siloAt "b" 1), .join (siloAt "b" 2)] =
        some s ∧ a ∈ s.view.ring.members ∧ s.view.swim.members.lookup "b" = some m ∧
      a.siloId = "b" ∧ a.port = 2 ∧ m.addr.port = 1 ∧ ¬s.view.Coherent := by
  obtain ⟨s, m, hrun, ha, hm, hport⟩ : ∃ s m,
      exec step (init 1 (siloAt "a" 0)) [.join (siloAt "b" 1), .join (siloAt "b" 2)] = some s ∧
        siloAt "b" 2 ∈ s.view.ring.members ∧ s.view.swim.members.lookup "b" = some m ∧
        m.addr.port = 1 := ⟨_, _, rfl, by decide +kernel, rfl, rfl⟩
  refine ⟨s, siloAt "b" 2, m, hrun, ha, hm, rfl, rfl, hport, fun hc => ?_⟩
  have hsame := (hc.address _ ha m hm).2
  rw [hport] at hsame
  exact absurd hsame (by decide)

end MembershipCalls

end Orlando
