import Orlando.GossipBatches

/-!
# Suspicions of the silo itself

A silo that is suspected answers with an `Alive` update of a higher incarnation, its own from then
on. `incarnation + 1` wraps.
-/

namespace Orlando

open List UInt64 GossipBatch SwimState

def GossipUpdate.suspicionOf (siloId : String) : GossipUpdate → Option UInt64
  | .suspect addr incarnation _ => if addr.siloId = siloId then some incarnation else none
  | _ => none

def suspicionsOf (siloId : String) (updates : List (Instant × GossipUpdate)) : List UInt64 :=
  (updates.map Prod.snd).filterMap (·.suspicionOf siloId)

def Refutable (i : UInt64) : Prop :=
  i < i + 1

theorem Refutable.of_lt {i j} (h : i < j) : Refutable i := by
  have hlt := j.toNat_lt
  rw [lt_iff_toNat_lt] at h
  rw [Refutable, lt_iff_toNat_lt, UInt64.toNat_add]
  simp
  omega

theorem eq_zero_of_not_refutable {i} (h : ¬Refutable i) : i + 1 = 0 := by
  have hlt := i.toNat_lt
  rw [Refutable, lt_iff_toNat_lt, UInt64.toNat_add] at h
  apply UInt64.toNat_inj.mp
  rw [UInt64.toNat_add]
  simp at h ⊢
  omega

namespace GossipBatch

variable {b : GossipBatch} {i : UInt64}

theorem localIncarnation_apply (b : GossipBatch) (now) (u) :
    (b.apply now u).swim.localIncarnation =
      match u.suspicionOf b.swim.localAddr.siloId with
      | some i => if i ≥ b.swim.localIncarnation then i + 1 else b.swim.localIncarnation
      | none => b.swim.localIncarnation := by
  have hm := b.apply_move now u
  cases u with
  | suspect addr i rep =>
    simp only [apply, GossipUpdate.suspicionOf]
    by_cases hself : addr.siloId = b.swim.localAddr.siloId
    · simp only [hself, true_and, if_true]
      split_ifs <;> rfl
    · simp only [hself, false_and, if_false]
      split
      · split_ifs <;> rfl
      · rfl
  | _ =>
    generalize b.apply now _ = b' at hm ⊢
    cases hm <;> rfl

theorem lt_localIncarnation (updates) (b : GossipBatch)
    (h : ∀ i ∈ suspicionsOf b.swim.localAddr.siloId updates, Refutable i) :
    let b' := updates.foldl (fun b u => b.apply u.1 u.2) b
    b.swim.localIncarnation ≤ b'.swim.localIncarnation ∧
      ∀ i ∈ suspicionsOf b.swim.localAddr.siloId updates, i < b'.swim.localIncarnation := by
  induction updates generalizing b with
  | nil => exact ⟨le_refl _, fun _ hi => by cases hi⟩
  | cons u updates ih =>
    have hlocal := localIncarnation_apply b u.1 u.2
    have hrest := ih (b.apply u.1 u.2)
    rw [(b.apply_move u.1 u.2).localAddr_eq] at hrest
    cases hu : u.2.suspicionOf b.swim.localAddr.siloId with
    | none =>
      rw [suspicionsOf, map_cons, filterMap_cons_none hu] at h ⊢
      simp only [hu] at hlocal
      rw [foldl_cons, ← hlocal]
      exact hrest h
    | some i =>
      rw [suspicionsOf, map_cons, filterMap_cons_some hu] at h ⊢
      obtain ⟨hi, h⟩ := forall_mem_cons.mp h
      rw [hu] at hlocal
      have hfirst : b.swim.localIncarnation ≤ (b.apply u.1 u.2).swim.localIncarnation ∧
          i < (b.apply u.1 u.2).swim.localIncarnation := by
        simp only [hlocal]
        split_ifs with hge
        · exact ⟨le_trans hge (le_of_lt hi), hi⟩
        · exact ⟨le_refl _, not_le.mp hge⟩
      obtain ⟨hle, hall⟩ := hrest h
      exact ⟨le_trans hfirst.1 hle, forall_mem_cons.mpr ⟨lt_of_lt_of_le hfirst.2 hle, hall⟩⟩

end GossipBatch

/-- A peer whose record of the silo is not above the suspicion has it alive after the answer, and
also when it hears of the suspicion again. -/
def Convinces (addr : SiloAddress) (answer suspicion : UInt64) : Prop :=
  ∀ (peer : GossipBatch) (member : SwimMember) (now now' : Instant) (addr' : SiloAddress)
    (reportedBy : String), peer.swim.localAddr.siloId ≠ addr.siloId →
    peer.swim.members.lookup addr.siloId = some member → member.incarnation ≤ suspicion →
    addr'.siloId = addr.siloId →
    let told := peer.apply now (.alive addr answer)
    (told.swim.members.lookup addr.siloId).map (·.status) = some .alive ∧
      ((told.apply now' (.suspect addr' suspicion reportedBy)).swim.members.lookup addr.siloId).map
        (·.status) = some .alive

theorem convinces_iff {addr i} : Convinces addr (i + 1) i ↔ Refutable i := by
  constructor
  · intro h
    by_contra hi
    -- The answer has incarnation 0, and a peer that has heard nothing of the silo ignores it.
    let peer : GossipBatch :=
      ⟨(new ⟨"", 0, addr.siloId ++ "x"⟩).setMember addr.siloId (.joined addr), [], []⟩
    have hne : addr.siloId ++ "x" ≠ addr.siloId := by simp
    have hpeer := (h peer (.joined addr) 0 0 addr "" hne (Finmap.lookup_insert _)
      (le_iff_toNat_le.mpr (Nat.zero_le _)) rfl).2
    rw [eq_zero_of_not_refutable hi] at hpeer
    simp [peer, apply, setMember, new, SwimMember.joined, hne.symm]
      at hpeer
  · rintro hi peer member now now' ⟨host, port, _⟩ reportedBy hself hmember hle rfl
    have hlt : member.incarnation < i + 1 := lt_of_le_of_lt hle hi
    have hne : addr.siloId ≠ peer.swim.localAddr.siloId := Ne.symm hself
    have htold : peer.apply now (.alive addr (i + 1)) = { peer with
        swim := peer.swim.setMember addr.siloId
          { member with incarnation := i + 1, status := .alive } } := by
      simp [apply, hne, hmember, gt_iff_lt, hlt]
    have hsame : (peer.apply now (.alive addr (i + 1))).apply now'
        (.suspect ⟨host, port, addr.siloId⟩ i reportedBy) =
          peer.apply now (.alive addr (i + 1)) := by
      rw [htold]
      simp [apply, setMember, hne, ge_iff_le, not_le.mpr hi]
    have halive : ((peer.apply now (.alive addr (i + 1))).swim.members.lookup addr.siloId).map
        (·.status) = some .alive := by
      simp [htold, setMember]
    exact ⟨halive, by rw [hsame]; exact halive⟩

/-- After a batch the incarnation of the silo has not decreased and is above every suspicion of it
exactly if none had the highest there is; an answer that was queued convinces every peer exactly if
it is to no such one. -/
theorem suspicions_refuted_iff (s : SwimState) (updates : List (Instant × GossipUpdate)) :
    ((s.localIncarnation ≤ (s.gossip updates).swim.localIncarnation ∧
        ∀ i ∈ suspicionsOf s.localAddr.siloId updates,
          i < (s.gossip updates).swim.localIncarnation) ↔
      ∀ i ∈ suspicionsOf s.localAddr.siloId updates, Refutable i) ∧
    ∀ before now addr i reportedBy after,
      updates = before ++ (now, .suspect addr i reportedBy) :: after →
      addr.siloId = s.localAddr.siloId → (s.gossip before).swim.localIncarnation ≤ i →
      (s.gossip (before ++ [(now, .suspect addr i reportedBy)])).swim.pendingGossip.getLast? =
          some (.alive s.localAddr (i + 1)) ∧
        (Convinces s.localAddr (i + 1) i ↔ Refutable i) := by
  refine ⟨⟨fun h i hi => .of_lt (h.2 i hi), fun h => ?_⟩, ?_⟩
  · exact lt_localIncarnation updates ⟨s, [], []⟩ h
  intro before now addr i reportedBy after _ hself hle
  refine ⟨?_, convinces_iff⟩
  have haddr := (s.accounts_gossip before).localAddr
  have hrefuted : addr.siloId = (s.gossip before).swim.localAddr.siloId ∧
      (s.gossip before).swim.localIncarnation ≤ i := ⟨by rw [haddr]; exact hself, hle⟩
  rw [gossip, foldl_concat, ← gossip]
  simp [apply, ge_iff_le, hrefuted, enqueueGossip, haddr]

def refuter : SwimState :=
  { SwimState.new ⟨"host", 1, "a"⟩ with localIncarnation := 5 }

theorem refuter_answers :
    (refuter.gossip [(0, .suspect refuter.localAddr 3 "b"),
        (0, .suspect refuter.localAddr 5 "b")]).swim.pendingGossip.getLast? =
      some (.alive refuter.localAddr 6) ∧ Convinces refuter.localAddr 6 5 := by
  obtain ⟨hlast, hconvinces⟩ := (suspicions_refuted_iff refuter
    [(0, .suspect refuter.localAddr 3 "b"), (0, .suspect refuter.localAddr 5 "b")]).2
    [(0, .suspect refuter.localAddr 3 "b")] 0 refuter.localAddr 5 "b" [] rfl rfl (by decide)
  exact ⟨hlast, hconvinces.mpr (by rw [Refutable]; decide)⟩

/-- A suspicion with the highest incarnation sets the one of the silo back to 0, and the peers
that have heard nothing else of the silo go on suspecting it. -/
theorem incarnation_set_back :
    let s' := (refuter.gossip [(0, .suspect refuter.localAddr (18446744073709551615) "b")]).swim
    refuter.localIncarnation = 5 ∧ s'.localIncarnation = 0 ∧
      s'.pendingGossip = [.alive refuter.localAddr 0] ∧
      ¬Convinces refuter.localAddr 0 (18446744073709551615) := by
  refine ⟨rfl, by decide, by decide, fun h => ?_⟩
  have hrefutable := convinces_iff.mp h
  rw [Refutable] at hrefutable
  exact absurd hrefutable (by decide)

end Orlando
