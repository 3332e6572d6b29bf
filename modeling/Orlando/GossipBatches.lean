import Orlando.Membership

/-!
# Gossip in batches

`apply_gossip` goes through a batch update by update. The member table is changed on the way, the
ring at the end : first all that left are removed, then all that joined are added
(`GossipBatch.silosAfter`). To the table a batch is its updates one after the other, however it is
cut (`SwimState.gossip_append_follows`).
-/

namespace Orlando

open List Option GossipBatch SiloAddress HashRing

/-! ## What a batch does to the table -/

namespace GossipBatch

def addedIds (b : GossipBatch) : List String :=
  b.ringAdds.map SiloAddress.siloId

def removedIds (b : GossipBatch) : List String :=
  b.ringRemoves.map SiloAddress.siloId

/-- What an update about `addr` does to the table and to the ring changes collected. -/
inductive Effect (b b' : GossipBatch) (addr : SiloAddress) : Prop
  | stay (hmem : ∀ id, id ∈ b'.swim.members ↔ id ∈ b.swim.members)
    (hadds : b'.ringAdds = b.ringAdds) (hremoves : b'.ringRemoves = b.ringRemoves)
  | left (hne : addr.siloId ≠ b.swim.localAddr.siloId)
    (hmem : ∀ id, id ∈ b'.swim.members ↔ id ≠ addr.siloId ∧ id ∈ b.swim.members)
    (hadds : b'.ringAdds = b.ringAdds) (hremoves : b'.ringRemoves = b.ringRemoves ++ [addr])
  | joined (hne : addr.siloId ≠ b.swim.localAddr.siloId)
    (hmem : ∀ id, id ∈ b'.swim.members ↔ id = addr.siloId ∨ id ∈ b.swim.members)
    (hadds : b'.ringAdds = b.ringAdds ++ [addr]) (hremoves : b'.ringRemoves = b.ringRemoves)

variable {b b' : GossipBatch} {s s' : SwimState} {u : GossipUpdate} {now : Instant}

theorem mem_setMember_iff {id m m'} (h : s.members.lookup id = some m)
    (id') : id' ∈ (s.setMember id m').members ↔ id' ∈ s.members := by
  rw [SwimState.setMember, Finmap.mem_insert, or_iff_right_iff_imp]
  rintro rfl
  exact Finmap.mem_of_lookup_eq_some h

theorem Move.effect (h : b.Move now u b') : Effect b b' u.addr := by
  cases h with
  | raised hm | reported hm => exact .stay (mem_setMember_iff hm) rfl rfl
  | died hne => exact .left hne (fun id => Finmap.mem_erase) rfl rfl
  | joined hne => exact .joined hne (fun id => Finmap.mem_insert) rfl rfl
  | _ => exact .stay (fun _ => Iff.rfl) rfl rfl

theorem Move.localAddr_eq (h : b.Move now u b') : b'.swim.localAddr = b.swim.localAddr := by
  cases h <;> rfl

end GossipBatch

/-! ## Batches that differ in their times -/

def MemberStatus.untimed : MemberStatus → MemberStatus
  | .alive => .alive
  | .suspect _ reportedBy => .suspect 0 reportedBy

theorem MemberStatus.eq_alive_iff_of_untimed {t t' : MemberStatus} (h : t.untimed = t'.untimed) :
    t = .alive ↔ t' = .alive := by
  cases t <;> cases t' <;> simp_all [untimed]

/-- The record without the time of suspicion. -/
def SwimMember.untimed (m : SwimMember) : SwimMember :=
  { m with status := m.status.untimed }

def MemberTable.SameButTimes (t t' : MemberTable) : Prop :=
  ∀ id, (t.lookup id).map SwimMember.untimed = (t'.lookup id).map SwimMember.untimed

namespace MemberTable.SameButTimes

variable {t t' : MemberTable} {id : String} {m m' : SwimMember}

section

variable (h : t.SameButTimes t')
include h

theorem lookup (id) :
    t.lookup id = none ∧ t'.lookup id = none ∨
      ∃ m m', t.lookup id = some m ∧ t'.lookup id = some m' ∧ m'.addr = m.addr ∧
        m'.incarnation = m.incarnation ∧ (m'.status = .alive ↔ m.status = .alive) := by
  have hid := h id
  cases hm : t.lookup id with
  | none =>
    rw [hm] at hid
    exact .inl ⟨rfl, map_eq_none_iff.mp hid.symm⟩
  | some m =>
    rw [hm] at hid
    obtain ⟨m', hm', heq⟩ := map_eq_some_iff.mp hid.symm
    obtain ⟨haddr, hstatus, hinc⟩ := (SwimMember.mk.injEq ..).mp heq
    exact .inr ⟨m, m', rfl, hm', haddr, hinc, MemberStatus.eq_alive_iff_of_untimed hstatus⟩

theorem mem_iff : id ∈ t ↔ id ∈ t' := by
  rcases h.lookup id with ⟨hn, hn'⟩ | ⟨m, m', hm, hm', -⟩
  · simp [← Finmap.lookup_isSome, hn, hn']
  · simp [← Finmap.lookup_isSome, hm, hm']

theorem insert (hm : m.untimed = m'.untimed) : SameButTimes (t.insert id m) (t'.insert id m') := by
  intro id'
  by_cases hid : id' = id
  · subst hid
    simp [hm]
  · rw [Finmap.lookup_insert_of_ne _ hid, Finmap.lookup_insert_of_ne _ hid]
    exact h id'

theorem erase : SameButTimes (t.erase id) (t'.erase id) := by
  intro id'
  by_cases hid : id' = id
  · subst hid
    simp
  · rw [Finmap.lookup_erase_ne hid, Finmap.lookup_erase_ne hid]
    exact h id'

end

end MemberTable.SameButTimes

namespace GossipBatch

/-- `b'` is `b` but for times, with ring changes that were collected before. -/
structure Follows (adds removes : List SiloAddress) (b b' : GossipBatch) : Prop where
  members : b.swim.members.SameButTimes b'.swim.members
  localIncarnation : b'.swim.localIncarnation = b.swim.localIncarnation
  localAddr : b'.swim.localAddr = b.swim.localAddr
  ringAdds : b'.ringAdds = adds ++ b.ringAdds
  ringRemoves : b'.ringRemoves = removes ++ b.ringRemoves

variable {adds removes : List SiloAddress} {b b' : GossipBatch} {now now' : Instant}

theorem Follows.setMember (h : Follows adds removes b b') {id m m'} (hm : m.untimed = m'.untimed) :
    Follows adds removes { b with swim := b.swim.setMember id m }
      { b' with swim := b'.swim.setMember id m' } :=
  { h with members := h.members.insert hm }

/-- Neither the times nor the ring changes collected before matter to an update. -/
theorem Follows.apply (h : Follows adds removes b b') (u) :
    Follows adds removes (b.apply now u) (b'.apply now' u) := by
  cases u with
  | alive addr incarnation =>
    simp only [GossipBatch.apply, h.localAddr]
    split_ifs
    · exact h
    · rcases h.members.lookup addr.siloId with ⟨hn, hn'⟩ | ⟨m, m', hm, hm', haddr, hinc, -⟩
      · simp only [hn, hn']
        exact h
      · simp only [hm, hm', hinc]
        split_ifs
        · exact h.setMember (by simp [SwimMember.untimed, haddr])
        · exact h
  | suspect addr incarnation reportedBy =>
    simp only [GossipBatch.apply, h.localAddr, h.localIncarnation]
    split_ifs
    · exact ⟨h.members, rfl, rfl, h.ringAdds, h.ringRemoves⟩
    · exact h
    · rcases h.members.lookup addr.siloId with
        ⟨hn, hn'⟩ | ⟨m, m', hm, hm', haddr, hinc, hstatus⟩
      · simp only [hn, hn']
        exact h
      · simp only [hm, hm', hinc, hstatus]
        split_ifs
        · exact h.setMember (by simp [SwimMember.untimed, MemberStatus.untimed, haddr])
        · exact h
  | dead addr incarnation =>
    simp only [GossipBatch.apply, h.localAddr]
    split_ifs
    · exact h
    · rcases h.members.lookup addr.siloId with ⟨hn, hn'⟩ | ⟨m, m', hm, hm', -, hinc, -⟩
      · simp only [hn, hn']
        exact h
      · simp only [hm, hm', hinc]
        split_ifs
        · exact ⟨h.members.erase, h.localIncarnation, h.localAddr, h.ringAdds,
            by rw [h.ringRemoves, append_assoc]⟩
        · exact h
  | join addr =>
    simp only [GossipBatch.apply, h.localAddr, ← h.members.mem_iff]
    split_ifs
    · exact h
    · exact h
    · exact ⟨h.members.insert rfl, h.localIncarnation, h.localAddr,
        by rw [h.ringAdds, append_assoc], h.ringRemoves⟩

end GossipBatch

namespace SwimState

variable {s : SwimState} {us us' vs vs' : List (Instant × GossipUpdate)}

theorem gossip_snoc (s : SwimState) (us) (u) : s.gossip (us ++ [u]) = (s.gossip us).apply u.1 u.2 :=
  foldl_append

theorem follows_foldl {adds removes} (h : us'.map Prod.snd = us.map Prod.snd) :
    ∀ {b b'}, GossipBatch.Follows adds removes b b' →
      GossipBatch.Follows adds removes (us'.foldl (fun b u => b.apply u.1 u.2) b)
        (us.foldl (fun b u => b.apply u.1 u.2) b') := by
  induction us generalizing us' with
  | nil =>
    intro b b' hb
    rw [map_eq_nil_iff.mp h]
    exact hb
  | cons u us ih =>
    intro b b' hb
    obtain ⟨u', us', rfl, hu, hus⟩ := map_eq_cons_iff.mp h
    rw [foldl_cons, foldl_cons, hu]
    exact ih hus (hb.apply u.2)

/-- What a batch of `us` from `s` has collected, by what has become of the table. -/
structure Accounts (s : SwimState) (us : List (Instant × GossipUpdate)) (b : GossipBatch) :
    Prop where
  localAddr : b.swim.localAddr = s.localAddr
  kept : ∀ id, id ∉ b.addedIds → id ∉ b.removedIds → (id ∈ b.swim.members ↔ id ∈ s.members)
  gone : ∀ id, id ∉ b.addedIds → id ∈ b.removedIds → id ∉ b.swim.members
  local_notMem : s.localAddr.siloId ∉ b.addedIds ∧ s.localAddr.siloId ∉ b.removedIds
  addr_mem : ∀ a ∈ b.ringAdds ++ b.ringRemoves, ∃ u ∈ us.map Prod.snd, u.addr = a

theorem Accounts.apply {b} (h : Accounts s us b) (u) :
    Accounts s (us ++ [u]) (b.apply u.1 u.2) := by
  have hlocal : (b.apply u.1 u.2).swim.localAddr = s.localAddr := by
    rw [(b.apply_move u.1 u.2).localAddr_eq, h.localAddr]
  have haddr : ∀ a, a ∈ b.ringAdds ++ b.ringRemoves ∨ a = u.2.addr →
      ∃ u' ∈ (us ++ [u]).map Prod.snd, u'.addr = a := by
    rw [map_append]
    rintro a (ha | rfl)
    · obtain ⟨u', hu', rfl⟩ := h.addr_mem a ha
      exact ⟨u', mem_append_left _ hu', rfl⟩
    · exact ⟨u.2, mem_append_right _ (mem_singleton_self _), rfl⟩
  cases (b.apply_move u.1 u.2).effect with
  | stay hm hadds hremoves =>
    have hadded : (b.apply u.1 u.2).addedIds = b.addedIds :=
      congrArg (map siloId) hadds
    have hremoved : (b.apply u.1 u.2).removedIds = b.removedIds :=
      congrArg (map siloId) hremoves
    refine ⟨hlocal, ?_, ?_, hadded ▸ hremoved ▸ h.local_notMem, ?_⟩
    · intro id hadd hrem
      rw [hm, h.kept id (hadded ▸ hadd) (hremoved ▸ hrem)]
    · intro id hadd hrem
      rw [hm]
      exact h.gone id (hadded ▸ hadd) (hremoved ▸ hrem)
    · intro a ha
      rw [hadds, hremoves] at ha
      exact haddr a (.inl ha)
  | left hne hm hadds hremoves =>
    have hadded : (b.apply u.1 u.2).addedIds = b.addedIds :=
      congrArg (map siloId) hadds
    have hremoved : ∀ id, id ∈ (b.apply u.1 u.2).removedIds ↔
        id ∈ b.removedIds ∨ id = u.2.addr.siloId := by
      simp [removedIds, hremoves]
    refine ⟨hlocal, ?_, ?_, ⟨hadded ▸ h.local_notMem.1, ?_⟩, ?_⟩
    · intro id hadd hrem
      rw [hremoved, not_or] at hrem
      rw [hm, h.kept id (hadded ▸ hadd) hrem.1, and_iff_right hrem.2]
    · intro id hadd hrem
      rw [hm]
      rintro ⟨hother, hin⟩
      exact h.gone id (hadded ▸ hadd) (((hremoved id).mp hrem).resolve_right hother) hin
    · rw [hremoved, not_or]
      exact ⟨h.local_notMem.2, (h.localAddr ▸ hne).symm⟩
    · intro a ha
      rw [hadds, hremoves, ← append_assoc, mem_append, mem_singleton] at ha
      exact haddr a ha
  | joined hne hm hadds hremoves =>
    have hadded : ∀ id, id ∈ (b.apply u.1 u.2).addedIds ↔
        id ∈ b.addedIds ∨ id = u.2.addr.siloId := by
      simp [addedIds, hadds]
    have hremoved : (b.apply u.1 u.2).removedIds = b.removedIds :=
      congrArg (map siloId) hremoves
    refine ⟨hlocal, ?_, ?_, ⟨?_, hremoved ▸ h.local_notMem.2⟩, ?_⟩
    · intro id hadd hrem
      rw [hadded, not_or] at hadd
      rw [hm, h.kept id hadd.1 (hremoved ▸ hrem), or_iff_right hadd.2]
    · intro id hadd hrem
      rw [hadded, not_or] at hadd
      rw [hm, or_iff_right hadd.2]
      exact h.gone id hadd.1 (hremoved ▸ hrem)
    · rw [hadded, not_or]
      exact ⟨h.local_notMem.1, (h.localAddr ▸ hne).symm⟩
    · intro a ha
      refine haddr a ?_
      rw [hadds, hremoves] at ha
      simp only [mem_append, mem_singleton] at ha ⊢
      rwa [or_right_comm] at ha

theorem accounts_gossip (s) (us) : Accounts s us (s.gossip us) := by
  induction us using reverseRecOn with
  | nil => exact ⟨rfl, fun _ _ _ => Iff.rfl, nofun, ⟨not_mem_nil, not_mem_nil⟩, nofun⟩
  | append_singleton us u ih =>
    rw [gossip_snoc]
    exact ih.apply u

theorem gossip_append_follows (s : SwimState) (hus : us'.map Prod.snd = us.map Prod.snd)
    (hvs : vs'.map Prod.snd = vs.map Prod.snd) :
    GossipBatch.Follows (s.gossip us').ringAdds (s.gossip us').ringRemoves
      ((s.gossip us').swim.gossip vs') (s.gossip (us ++ vs)) := by
  have hstart : GossipBatch.Follows [] [] ⟨s, [], []⟩ ⟨s, [], []⟩ :=
    ⟨fun _ => rfl, rfl, rfl, rfl, rfl⟩
  have hfirst : GossipBatch.Follows [] [] (s.gossip us') (s.gossip us) :=
    follows_foldl hus hstart
  have hsecond : GossipBatch.Follows (s.gossip us').ringAdds (s.gossip us').ringRemoves
      ⟨(s.gossip us').swim, [], []⟩ (s.gossip us) :=
    ⟨hfirst.members, hfirst.localIncarnation, hfirst.localAddr, by simp [hfirst.ringAdds],
      by simp [hfirst.ringRemoves]⟩
  have hfold : s.gossip (us ++ vs) = vs.foldl (fun b u => b.apply u.1 u.2) (s.gossip us) :=
    foldl_append
  rw [hfold]
  exact follows_foldl hvs hsecond

end SwimState

/-! ## What a batch does to the ring -/

variable {silos : String → Option SiloAddress}

namespace GossipBatch

variable {b : GossipBatch} {id : String}

/-- The silos on the ring after the collected changes : the last one added with an id, and
else the one that was there, unless it was removed. -/
def silosAfter (b : GossipBatch) (silos : String → Option SiloAddress) (id : String) :
    Option SiloAddress :=
  (b.ringAdds.reverse.find? fun a => a.siloId == id).or
    (if id ∈ b.removedIds then none else silos id)

theorem isSome_find?_adds :
    (b.ringAdds.reverse.find? fun a => a.siloId == id).isSome ↔ id ∈ b.addedIds := by
  simp [addedIds]

theorem silosAfter_isSome :
    (b.silosAfter silos id).isSome ↔ id ∈ b.addedIds ∨ id ∉ b.removedIds ∧ (silos id).isSome := by
  rw [silosAfter, isSome_or, Bool.or_eq_true, isSome_find?_adds]
  split_ifs with h <;> simp [h]

end GossipBatch

namespace Membership

variable {v : Membership} {ids : Finset String}

theorem applyGossip_swim (v : Membership) (us) :
    (v.applyGossip us).swim = (v.swim.gossip us).swim := by
  simp only [applyGossip]
  split <;> rfl

theorem applyGossip_ring (v : Membership) (us) :
    (v.applyGossip us).ring = (v.swim.gossip us).ringAdds.foldl add
      ((v.swim.gossip us).ringRemoves.foldl remove v.ring) := by
  simp only [applyGossip]
  split
  case isTrue => rfl
  case isFalse h =>
    -- With nothing collected the ring stays as it is.
    obtain ⟨hadds, hremoves⟩ : (v.swim.gossip us).ringAdds = [] ∧
        (v.swim.gossip us).ringRemoves = [] := by simpa using h
    rw [hadds, hremoves]
    rfl

theorem applyGossip_virtualNodes (v : Membership) (us) :
    (v.applyGossip us).ring.virtualNodes = v.ring.virtualNodes := by
  have hadd : ∀ (adds : List SiloAddress) (r : HashRing),
      (adds.foldl add r).virtualNodes = r.virtualNodes := by
    intro adds
    induction adds with
    | nil => exact fun _ => rfl
    | cons a adds ih => exact fun r => ih (r.add a)
  have hremove : ∀ (removes : List SiloAddress) (r : HashRing),
      (removes.foldl remove r).virtualNodes = r.virtualNodes := by
    intro removes
    induction removes with
    | nil => exact fun _ => rfl
    | cons a removes ih => exact fun r => ih (r.remove a)
  rw [applyGossip_ring, hadd, hremove]

theorem isRingOf_applyGossip (h : v.ring.IsRingOf ids silos) {us}
    (hmem : ∀ u ∈ us.map Prod.snd, u.addr.siloId ∈ ids) :
    (v.applyGossip us).ring.IsRingOf ids ((v.swim.gossip us).silosAfter silos) := by
  have hids : ∀ a ∈ (v.swim.gossip us).ringAdds ++ (v.swim.gossip us).ringRemoves,
      a.siloId ∈ ids := by
    intro a ha
    obtain ⟨u, hu, rfl⟩ := (v.swim.accounts_gossip us).addr_mem a ha
    exact hmem u hu
  rw [applyGossip_ring]
  exact (h.removeAll fun a ha => hids a (mem_append_right _ ha)).addAll
    fun a ha => hids a (mem_append_left _ ha)

def ListsMembers (v : Membership) : Prop :=
  v.ring.siloIds = insert v.swim.localAddr.siloId v.swim.members.keys

structure Agrees (v : Membership) : Prop where
  ring : ∃ silos, v.ring.IsRingOf v.ring.siloIds silos
  lists : v.ListsMembers

theorem Synced.agrees {localAddr} (h : v.Synced ids localAddr) : v.Agrees := by
  obtain ⟨home, hring⟩ := h.ring
  exact ⟨⟨_, hring.narrow h.nodes⟩, h.coherent.siloIds⟩

theorem listsMembers_iff (h : v.ring.IsRingOf ids silos) (hnodes : 0 < v.ring.virtualNodes) :
    v.ListsMembers ↔
      ∀ id, (silos id).isSome ↔ id = v.swim.localAddr.siloId ∨ id ∈ v.swim.members := by
  rw [ListsMembers, Finset.ext_iff]
  refine forall_congr' fun id => ?_
  rw [h.mem_siloIds hnodes, Finset.mem_insert, Finmap.mem_keys]

end Membership

namespace SwimState

theorem Accounts.lists_iff {s us b} (h : Accounts s us b)
    (hstart : ∀ id, (silos id).isSome ↔ id = s.localAddr.siloId ∨ id ∈ s.members) :
    (∀ id, (b.silosAfter silos id).isSome ↔ id = b.swim.localAddr.siloId ∨ id ∈ b.swim.members) ↔
    ∀ id ∈ b.addedIds, id ∈ b.swim.members := by
  simp only [silosAfter_isSome, h.localAddr, hstart]
  constructor
  · intro hlists id hadd
    refine ((hlists id).mp (.inl hadd)).resolve_left ?_
    rintro rfl
    exact h.local_notMem.1 hadd
  · intro hadds id
    by_cases hadd : id ∈ b.addedIds
    · simp [hadd, hadds id hadd]
    by_cases hrem : id ∈ b.removedIds
    · have hne : id ≠ s.localAddr.siloId := by
        rintro rfl
        exact h.local_notMem.2 hrem
      simp [hadd, hrem, hne, h.gone id hadd hrem]
    · simp [hadd, hrem, h.kept id hadd hrem]

end SwimState

theorem GossipBatch.Follows.silosAfter_eq {b₁ b₂ b : GossipBatch}
    {silos : String → Option SiloAddress} (h : Follows b₁.ringAdds b₁.ringRemoves b₂ b)
    (hagain : ∀ id ∈ b₁.addedIds, id ∈ b₂.removedIds → id ∈ b₂.addedIds) :
    b.silosAfter silos = b₂.silosAfter (b₁.silosAfter silos) := by
  ext1 id
  have hremoved : id ∈ b.removedIds ↔ id ∈ b₁.removedIds ∨ id ∈ b₂.removedIds := by
    simp [removedIds, h.ringRemoves]
  rw [silosAfter, h.ringAdds, List.reverse_append, List.find?_append, Option.or_assoc, silosAfter]
  by_cases hadd₂ : id ∈ b₂.addedIds
  · -- The last silo with this id comes from the second part.
    obtain ⟨a, ha⟩ := isSome_iff_exists.mp (isSome_find?_adds.mpr hadd₂)
    rw [ha, some_or, some_or]
  congr 1
  by_cases hrem₂ : id ∈ b₂.removedIds
  · have hadd₁ : id ∉ b₁.addedIds := fun hadd₁ => hadd₂ (hagain id hadd₁ hrem₂)
    have hn := mt isSome_find?_adds.mp hadd₁
    rw [Option.not_isSome_iff_eq_none] at hn
    rw [hn, if_pos (hremoved.mpr (.inr hrem₂)), if_pos hrem₂, Option.none_or]
  · rw [if_neg hrem₂, silosAfter]
    simp [hremoved, hrem₂]

namespace Membership

/-- To the ring a batch is its updates one after the other exactly if every silo that joins in it is
a member at its end. -/
theorem applyGossip_append_iff (v : Membership) (us vs us' vs' : List (Instant × GossipUpdate))
    (hv : v.Agrees) (hus : us'.map Prod.snd = us.map Prod.snd)
    (hvs : vs'.map Prod.snd = vs.map Prod.snd)
    (hd : HashRing.DistinctHashes v.ring.virtualNodes
      (v.ring.siloIds ∪ ((us ++ vs).map fun u => u.2.addr.siloId).toFinset)) :
    (((v.applyGossip us').applyGossip vs').swim.members.SameButTimes
          (v.applyGossip (us ++ vs)).swim.members ∧
        (v.applyGossip (us ++ vs)).ring = ((v.applyGossip us').applyGossip vs').ring ∧
        (v.applyGossip (us ++ vs)).swim.localIncarnation =
          ((v.applyGossip us').applyGossip vs').swim.localIncarnation ∧
        (v.applyGossip (us ++ vs)).ListsMembers) ↔
      ∀ a ∈ (v.swim.gossip (us ++ vs)).ringAdds,
        a.siloId ∈ (v.applyGossip (us ++ vs)).swim.members := by
  obtain ⟨silos, hring⟩ := hv.ring
  have hnodes := hring.nodes_pos (hv.lists ▸ Finset.mem_insert_self ..)
  have hwide := hring.mono Finset.subset_union_left hd
  have hmem : ∀ u ∈ (us ++ vs).map Prod.snd, u.addr.siloId ∈
      v.ring.siloIds ∪ ((us ++ vs).map fun u => u.2.addr.siloId).toFinset := by
    intro u hu
    obtain ⟨w, hw, rfl⟩ := mem_map.mp hu
    exact Finset.mem_union_right _ (mem_toFinset.mpr (mem_map.mpr ⟨w, hw, rfl⟩))
  have hbatch := isRingOf_applyGossip hwide hmem
  rw [map_append, forall_mem_append, ← hus, ← hvs] at hmem
  have hparts := isRingOf_applyGossip (isRingOf_applyGossip hwide hmem.1) hmem.2
  rw [applyGossip_swim] at hparts
  have hfollows := v.swim.gossip_append_follows hus hvs
  have hlists : (v.applyGossip (us ++ vs)).ListsMembers ↔ ∀ a ∈ (v.swim.gossip (us ++ vs)).ringAdds,
        a.siloId ∈ (v.applyGossip (us ++ vs)).swim.members := by
    have hnodes' : 0 < (v.applyGossip (us ++ vs)).ring.virtualNodes := by
      rwa [applyGossip_virtualNodes]
    rw [listsMembers_iff hbatch hnodes', applyGossip_swim,
      (v.swim.accounts_gossip (us ++ vs)).lists_iff ((listsMembers_iff hring hnodes).mp hv.lists)]
    exact forall_mem_map
  refine ⟨fun h => hlists.mp h.2.2.2, fun hadds => ⟨?_, ?_, ?_, hlists.mpr hadds⟩⟩
  · rw [applyGossip_swim, applyGossip_swim, applyGossip_swim]
    exact hfollows.members
  · -- A silo added in the first part and removed in the second has joined again.
    have hagain : ∀ id ∈ (v.swim.gossip us').addedIds,
        id ∈ ((v.swim.gossip us').swim.gossip vs').removedIds →
        id ∈ ((v.swim.gossip us').swim.gossip vs').addedIds := by
      intro id hadd hrem
      by_contra hnot
      obtain ⟨a, ha, rfl⟩ := mem_map.mp hadd
      refine ((v.swim.gossip us').swim.accounts_gossip vs').gone a.siloId hnot hrem ?_
      rw [hfollows.members.mem_iff, ← applyGossip_swim]
      exact hadds a (hfollows.ringAdds ▸ mem_append_left _ ha)
    exact hbatch.unique (hfollows.silosAfter_eq hagain ▸ hparts)
      (by simp only [applyGossip_virtualNodes])
  · rw [applyGossip_swim, applyGossip_swim, applyGossip_swim]
    exact hfollows.localIncarnation

open MembershipCalls (siloAt)

def loneSilo : Membership :=
  .new 1 (siloAt "a" 0)

theorem alone_agrees : loneSilo.Agrees := by
  have h : loneSilo.Synced {"a"} (siloAt "a" 0) :=
    synced_new Nat.one_pos (by decide +kernel) (by decide)
  exact h.agrees

/-- One silo joins, and another after it was reported dead and joined again. -/
def joins : List (Instant × GossipUpdate) :=
  [(0, .join (siloAt "b" 1)), (1, .join (siloAt "c" 2)), (2, .suspect (siloAt "c" 2) 0 "b")]

def rejoins : List (Instant × GossipUpdate) :=
  [(3, .dead (siloAt "c" 2) 0), (4, .join (siloAt "c" 3))]

theorem applyGossip_append_iff_rejoins :
    (loneSilo.applyGossip (joins ++ rejoins)).ring =
        ((loneSilo.applyGossip joins).applyGossip rejoins).ring ∧
      (loneSilo.applyGossip (joins ++ rejoins)).ListsMembers := by
  obtain ⟨-, hring, -, hlists⟩ := (applyGossip_append_iff loneSilo joins rejoins joins rejoins
    alone_agrees rfl rfl (by decide +kernel)).mpr (by decide +kernel)
  exact ⟨hring, hlists⟩

/-- The silo `b` joins and is reported dead. In one batch it stays on the ring without being
a member, in two it is gone from both. -/
theorem joined_and_dead_stays_on_ring :
    loneSilo.Agrees ∧
      "b" ∈ (loneSilo.applyGossip
        [(0, .join (siloAt "b" 1)), (0, .dead (siloAt "b" 1) 0)]).ring.siloIds ∧
      "b" ∉ (loneSilo.applyGossip
        [(0, .join (siloAt "b" 1)), (0, .dead (siloAt "b" 1) 0)]).swim.members ∧
      "b" ∉ ((loneSilo.applyGossip [(0, .join (siloAt "b" 1))]).applyGossip
        [(0, .dead (siloAt "b" 1) 0)]).ring.siloIds :=
  ⟨alone_agrees, by decide +kernel, by decide +kernel, by decide +kernel⟩

end Membership

end Orlando
