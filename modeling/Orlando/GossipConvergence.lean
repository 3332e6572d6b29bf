import Orlando.GossipBatches
import Orlando.Standing

/-!
# Convergence of gossip about a member

Silos hear of a member's being alive or suspect in different orders and batches, and of the same
update more than once (`Membership.standing_deliver`). `apply_gossip` drops a suspicion of a member
that is suspected, even with a higher incarnation.
-/

namespace Orlando

open Option Standing SwimState

/-- What an `Alive` or a `Suspect` update says of a member, and where it says the member
is. -/
inductive Rumour
  | alive (host : String) (port : UInt16) (incarnation : UInt64)
  | suspect (host : String) (port : UInt16) (incarnation : UInt64) (reportedBy : String)
deriving DecidableEq

def Rumour.update (siloId : String) : Rumour → GossipUpdate
  | .alive host port incarnation => .alive ⟨host, port, siloId⟩ incarnation
  | .suspect host port incarnation reportedBy =>
    .suspect ⟨host, port, siloId⟩ incarnation reportedBy

def Rumour.report : Rumour → Report UInt64
  | .alive _ _ incarnation => .alive incarnation
  | .suspect _ _ incarnation _ => .suspect incarnation

def SwimMember.standing (m : SwimMember) : Standing UInt64 where
  incarnation := m.incarnation
  suspected := m.status ≠ .alive

def heard (batches : List (List (Instant × Rumour))) : List Rumour :=
  batches.flatten.map Prod.snd

def SwimState.standing (s : SwimState) (siloId : String) : Option (Standing UInt64) :=
  (s.members.lookup siloId).map SwimMember.standing

def Membership.deliver (v : Membership) (siloId : String)
    (batches : List (List (Instant × Rumour))) : Membership :=
  batches.foldl (fun v batch => v.applyGossip (batch.map fun u => (u.1, u.2.update siloId))) v

section

variable {b : GossipBatch} {now : Instant} {siloId : String}

theorem GossipBatch.apply_standing_local (h : siloId = b.swim.localAddr.siloId) (ρ : Rumour) :
    (b.apply now (ρ.update siloId)).swim.standing siloId = b.swim.standing siloId := by
  cases ρ <;> simp only [Rumour.update, apply, h]
  · rfl
  · split <;> rfl

theorem GossipBatch.apply_standing (h : siloId ≠ b.swim.localAddr.siloId) (ρ : Rumour) :
    (b.apply now (ρ.update siloId)).swim.standing siloId =
      (b.swim.standing siloId).map fun r => r.hear ρ.report := by
  cases hm : b.swim.members.lookup siloId with
  | none => cases ρ <;> simp [Rumour.update, apply, standing, h, hm]
  | some m =>
    have hset : ∀ m', (b.swim.setMember siloId m').standing siloId = some m'.standing := by
      simp [setMember, standing]
    have hstay : b.swim.standing siloId = some m.standing := by
      rw [standing, hm, map_some]
    rw [hstay, map_some]
    cases ρ with
    | alive host port incarnation =>
      simp only [Rumour.update, apply, if_neg h, hm, Rumour.report]
      by_cases hlt : m.incarnation < incarnation
      · rw [if_pos hlt, hset, hear_alive_of_lt hlt]
        rfl
      · rw [if_neg hlt, hstay, hear_alive_of_le (not_lt.mp hlt)]
    | suspect host port incarnation reportedBy =>
      simp only [Rumour.update, apply, h, false_and, if_false, hm, Rumour.report]
      by_cases hle : m.incarnation ≤ incarnation ∧ m.status = .alive
      · have hclear : m.standing.suspected = false := by simp [SwimMember.standing, hle.2]
        rw [if_pos hle, hset, hear_suspect_of_le hle.1 hclear]
        rfl
      · rw [if_neg hle, hstay, hear, if_neg (by simpa [SwimMember.standing] using hle)]

theorem SwimState.gossip_standing_local (s : SwimState) (h : siloId = s.localAddr.siloId)
    (us : List (Instant × Rumour)) :
    (s.gossip (us.map fun u => (u.1, u.2.update siloId))).swim.standing siloId =
      s.standing siloId := by
  induction us using List.reverseRecOn with
  | nil => rfl
  | append_singleton us u ih =>
    have heq : siloId =
        (s.gossip (us.map fun u => (u.1, u.2.update siloId))).swim.localAddr.siloId := by
      rwa [(s.accounts_gossip _).localAddr]
    rw [List.map_append, List.map_singleton, gossip_snoc, GossipBatch.apply_standing_local heq, ih]

theorem SwimState.gossip_standing (s : SwimState) (h : siloId ≠ s.localAddr.siloId)
    (us : List (Instant × Rumour)) :
    (s.gossip (us.map fun u => (u.1, u.2.update siloId))).swim.standing siloId =
      (s.standing siloId).map fun r => r.hears (us.map fun u => u.2.report) := by
  induction us using List.reverseRecOn with
  | nil => exact map_id'.symm
  | append_singleton us u ih =>
    have hne : siloId ≠
        (s.gossip (us.map fun u => (u.1, u.2.update siloId))).swim.localAddr.siloId := by
      rwa [(s.accounts_gossip _).localAddr]
    rw [List.map_append, List.map_singleton, gossip_snoc,
      GossipBatch.apply_standing hne, ih, map_map, List.map_append]
    simp only [hears_append]
    rfl

end

namespace Membership

variable {v : Membership} {siloId : String}

theorem applyGossip_localAddr (v : Membership) (us) :
    (v.applyGossip us).swim.localAddr = v.swim.localAddr := by
  rw [applyGossip_swim, (v.swim.accounts_gossip us).localAddr]

theorem standing_deliver_local (h : siloId = v.swim.localAddr.siloId)
    (batches : List (List (Instant × Rumour))) :
    (v.deliver siloId batches).swim.standing siloId = v.swim.standing siloId := by
  induction batches generalizing v with
  | nil => rfl
  | cons batch batches ih =>
    rw [deliver, List.foldl_cons, ← deliver, ih (applyGossip_localAddr v _ ▸ h), applyGossip_swim,
      gossip_standing_local _ h]

theorem standing_deliver (h : siloId ≠ v.swim.localAddr.siloId)
    (batches : List (List (Instant × Rumour))) :
    (v.deliver siloId batches).swim.standing siloId =
      (v.swim.standing siloId).map fun r => r.hears ((heard batches).map Rumour.report) := by
  induction batches generalizing v with
  | nil => exact map_id'.symm
  | cons batch batches ih =>
    have hheard : (heard (batch :: batches)).map Rumour.report =
        (batch.map fun u => u.2.report) ++ (heard batches).map Rumour.report := by
      simp [heard]
    rw [deliver, List.foldl_cons, ← deliver, ih (applyGossip_localAddr v _ ▸ h), applyGossip_swim,
      gossip_standing _ h, map_map, hheard]
    simp only [hears_append]
    rfl

/-- What is known of a member in the end depends only on which updates there were exactly when its
standing settles. -/
theorem rumours_converge_iff (v : Membership) (siloId : String) (m : SwimMember)
    (hm : v.swim.members.lookup siloId = some m) (batches : List (List (Instant × Rumour))) :
    (∀ batches', (∀ ρ, ρ ∈ heard batches' ↔ ρ ∈ heard batches) →
      (v.deliver siloId batches').swim.standing siloId =
        (v.deliver siloId batches).swim.standing siloId) ↔
    siloId = v.swim.localAddr.siloId ∨ m.standing.Settles ((heard batches).map Rumour.report) := by
  by_cases h : siloId = v.swim.localAddr.siloId
  · refine ⟨fun _ => Or.inl h, fun _ batches' _ => ?_⟩
    rw [standing_deliver_local h, standing_deliver_local h]
  have hstart : v.swim.standing siloId = some m.standing := by
    rw [standing, hm, map_some]
  rw [or_iff_right h, ← hears_eq_iff]
  simp only [standing_deliver h, hstart, map_some, Option.some.injEq]
  refine ⟨fun hsame rumours hmem => ?_, fun hsame batches' => hsame (heard batches')⟩
  -- Rumours in any order may come in one batch.
  have hheard : heard [rumours.map fun ρ => (0, ρ)] = rumours := by simp [heard]
  have hone := hsame [rumours.map fun ρ => (0, ρ)] (by rwa [hheard])
  rwa [hheard] at hone

open MembershipCalls (siloAt)

def paired : Membership :=
  loneSilo.applyGossip [(0, .join (siloAt "b" 1))]

def refutedRumours : List Rumour :=
  [.suspect "10.0.0.1" 1 0 "c", .suspect "10.0.0.1" 1 1 "c", .alive "10.0.0.1" 1 2]

theorem rumours_converge_iff_refuted :
    (paired.deliver "b" [refutedRumours.map fun ρ => (0, ρ)]).swim.standing "b" = some ⟨2, false⟩ ∧
      ∀ batches', (∀ ρ, ρ ∈ heard batches' ↔ ρ ∈ refutedRumours) →
        (paired.deliver "b" batches').swim.standing "b" = some ⟨2, false⟩ := by
  have hlast : (paired.deliver "b" [refutedRumours.map fun ρ => (0, ρ)]).swim.standing "b" =
      some ⟨2, false⟩ := by decide +kernel
  refine ⟨hlast, fun batches' hmem => ?_⟩
  rw [← hlast]
  exact (rumours_converge_iff paired "b" (.joined (siloAt "b" 1)) (by decide +kernel)
    [refutedRumours.map fun ρ => (0, ρ)]).mpr (Or.inr (by decide +kernel)) batches' hmem

/-- A member is suspected with incarnation `1` and then, after refuting that, `2`. The silo that
hears of the higher one second takes the member to be alive, the other does not. -/
theorem higher_suspicion_dropped :
    (paired.deliver "b" [[(0, .suspect "10.0.0.1" 1 1 "c")], [(0, .suspect "10.0.0.1" 1 2 "c")],
      [(0, .alive "10.0.0.1" 1 2)]]).swim.standing "b" = some ⟨2, false⟩ ∧
    (paired.deliver "b" [[(0, .suspect "10.0.0.1" 1 2 "c")], [(0, .suspect "10.0.0.1" 1 1 "c")],
      [(0, .alive "10.0.0.1" 1 2)]]).swim.standing "b" = some ⟨2, true⟩ := by
  decide +kernel

end Membership

end Orlando
