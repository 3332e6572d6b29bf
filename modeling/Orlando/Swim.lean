import Mathlib.Data.Finmap
import Orlando.HashRing

/-!
# The SWIM state

What a silo knows of the others : the member table with a status and an incarnation for each
(`SwimState`), next to the ring. Both change together under the SWIM lock (`Membership`) : gossip is
applied in batches (`Membership.applyGossip`), a member that does not answer is suspected and in the
end declared dead. What one update can do, and when, is `GossipBatch.apply_move`. Incarnations are
`u64`, and `incarnation + 1` wraps. Connections and subscribers are left out.
-/

namespace Orlando

/-- Readings of the silo's clock. -/
abbrev Instant := ℕ

inductive MemberStatus
  | alive
  | suspect (since : Instant) (reportedBy : String)
deriving DecidableEq, Repr

structure SwimMember where
  addr : SiloAddress
  status : MemberStatus
  incarnation : UInt64
deriving DecidableEq, Repr

def SwimMember.joined (addr : SiloAddress) : SwimMember where
  addr := addr
  status := .alive
  incarnation := 0

inductive GossipUpdate
  | alive (addr : SiloAddress) (incarnation : UInt64)
  | suspect (addr : SiloAddress) (incarnation : UInt64) (reportedBy : String)
  | dead (addr : SiloAddress) (incarnation : UInt64)
  | join (addr : SiloAddress)
deriving DecidableEq, Repr

def GossipUpdate.addr : GossipUpdate → SiloAddress
  | .alive addr _ | .suspect addr _ _ | .dead addr _ | .join addr => addr

abbrev MemberTable := Finmap fun _ : String => SwimMember

def maxPendingGossip : ℕ := 1024

structure SwimState where
  members : MemberTable
  localIncarnation : UInt64
  localAddr : SiloAddress
  pendingGossip : List GossipUpdate

namespace SwimState

def new (localAddr : SiloAddress) : SwimState where
  members := ∅
  localIncarnation := 0
  localAddr := localAddr
  pendingGossip := []

variable (s : SwimState)

def drainGossip (n : ℕ) : List GossipUpdate × SwimState :=
  let count := min n s.pendingGossip.length
  (s.pendingGossip.take count, { s with pendingGossip := s.pendingGossip.drop count })

/-- Queue an update. A full queue drops its oldest. -/
def enqueueGossip (update : GossipUpdate) : SwimState :=
  let pending :=
    if s.pendingGossip.length ≥ maxPendingGossip then s.pendingGossip.tail else s.pendingGossip
  { s with pendingGossip := pending ++ [update] }

def setMember (siloId : String) (member : SwimMember) : SwimState :=
  { s with members := s.members.insert siloId member }

def removeMember (siloId : String) : SwimState :=
  { s with members := s.members.erase siloId }

def suspectMember (now : Instant) (siloId : String) : SwimState :=
  match s.members.lookup siloId with
  | some member =>
    if member.status = .alive then
      let suspected := { member with status := .suspect now s.localAddr.siloId }
      (s.setMember siloId suspected).enqueueGossip
        (.suspect member.addr member.incarnation s.localAddr.siloId)
    else s
  | none => s

end SwimState

/-- A batch under way : the SWIM state, and the ring changes collected so far. -/
structure GossipBatch where
  swim : SwimState
  ringAdds : List SiloAddress
  ringRemoves : List SiloAddress

def GossipBatch.apply (b : GossipBatch) (now : Instant) : GossipUpdate → GossipBatch
  | .alive addr incarnation =>
    if addr.siloId = b.swim.localAddr.siloId then b
    else match b.swim.members.lookup addr.siloId with
      | some member =>
        if incarnation > member.incarnation then
          let cleared := { member with incarnation := incarnation, status := .alive }
          { b with swim := b.swim.setMember addr.siloId cleared }
        else b
      | none => b
  | .suspect addr incarnation reportedBy =>
    if addr.siloId = b.swim.localAddr.siloId ∧ incarnation ≥ b.swim.localIncarnation then
      -- A suspicion of the silo itself is refuted with a higher incarnation.
      let refuting := { b.swim with localIncarnation := incarnation + 1 }
      { b with
        swim := refuting.enqueueGossip (.alive refuting.localAddr refuting.localIncarnation) }
    else if addr.siloId = b.swim.localAddr.siloId then b
    else match b.swim.members.lookup addr.siloId with
      | some member =>
        if incarnation ≥ member.incarnation ∧ member.status = .alive then
          let suspected :=
            { member with status := .suspect now reportedBy, incarnation := incarnation }
          { b with swim := b.swim.setMember addr.siloId suspected }
        else b
      | none => b
  | .dead addr incarnation =>
    if addr.siloId = b.swim.localAddr.siloId then b
    else match b.swim.members.lookup addr.siloId with
      | some member =>
        if incarnation ≥ member.incarnation then
          { b with
            swim := b.swim.removeMember addr.siloId
            ringRemoves := b.ringRemoves ++ [addr] }
        else b
      | none => b
  | .join addr =>
    if addr.siloId = b.swim.localAddr.siloId then b
    else if addr.siloId ∈ b.swim.members then b
    else
      { b with
        swim := b.swim.setMember addr.siloId (.joined addr)
        ringAdds := b.ringAdds ++ [addr] }

inductive GossipBatch.Move (b : GossipBatch) (now : Instant) : GossipUpdate → GossipBatch → Prop
  | kept (u : GossipUpdate) : Move b now u b
  | raised {addr incarnation member} (hm : b.swim.members.lookup addr.siloId = some member)
    (hlt : member.incarnation < incarnation) :
    Move b now (.alive addr incarnation)
      { b with
        swim := b.swim.setMember addr.siloId
          { member with incarnation := incarnation, status := .alive } }
  | refuted {addr incarnation reportedBy} (hle : b.swim.localIncarnation ≤ incarnation) :
    Move b now (.suspect addr incarnation reportedBy)
      { b with
        swim := SwimState.enqueueGossip { b.swim with localIncarnation := incarnation + 1 }
          (.alive b.swim.localAddr (incarnation + 1)) }
  | reported {addr incarnation reportedBy member}
    (hm : b.swim.members.lookup addr.siloId = some member)
    (hle : member.incarnation ≤ incarnation) (hs : member.status = .alive) :
    Move b now (.suspect addr incarnation reportedBy)
      { b with
        swim := b.swim.setMember addr.siloId
          { member with status := .suspect now reportedBy, incarnation := incarnation } }
  | died {addr incarnation} (hne : addr.siloId ≠ b.swim.localAddr.siloId) :
    Move b now (.dead addr incarnation)
      { b with
        swim := b.swim.removeMember addr.siloId
        ringRemoves := b.ringRemoves ++ [addr] }
  | joined {addr} (hne : addr.siloId ≠ b.swim.localAddr.siloId)
    (hmem : addr.siloId ∉ b.swim.members) :
    Move b now (.join addr)
      { b with
        swim := b.swim.setMember addr.siloId (.joined addr)
        ringAdds := b.ringAdds ++ [addr] }

theorem GossipBatch.apply_move (b : GossipBatch) (now) (u) : b.Move now u (b.apply now u) := by
  cases u with
  | alive addr incarnation =>
    simp only [apply]
    split_ifs
    · exact .kept _
    · split
      case h_1 member hm =>
        split_ifs with hlt
        · exact .raised hm hlt
        · exact .kept _
      case h_2 => exact .kept _
  | suspect addr incarnation reportedBy =>
    simp only [apply]
    split_ifs with hself
    · exact .refuted hself.2
    · exact .kept _
    · split
      case h_1 member hm =>
        split_ifs with h
        · exact .reported hm h.1 h.2
        · exact .kept _
      case h_2 => exact .kept _
  | dead addr incarnation =>
    simp only [apply]
    split_ifs with hne
    · exact .kept _
    · split
      case h_1 member hm =>
        split_ifs
        · exact .died hne
        · exact .kept _
      case h_2 => exact .kept _
  | join addr =>
    simp only [apply]
    split_ifs with hne hmem
    · exact .kept _
    · exact .kept _
    · exact .joined hne hmem

def SwimState.gossip (s : SwimState) (updates : List (Instant × GossipUpdate)) : GossipBatch :=
  updates.foldl (fun b u => b.apply u.1 u.2) ⟨s, [], []⟩

structure Membership where
  swim : SwimState
  ring : HashRing

namespace Membership

def new (vnodes : ℕ) (localAddr : SiloAddress) : Membership where
  swim := .new localAddr
  ring := (HashRing.new vnodes).add localAddr

variable (v : Membership)

def applyGossip (updates : List (Instant × GossipUpdate)) : Membership :=
  let b := v.swim.gossip updates
  if !b.ringAdds.isEmpty || !b.ringRemoves.isEmpty then
    let newRing := b.ringRemoves.foldl HashRing.remove v.ring
    { swim := b.swim, ring := b.ringAdds.foldl HashRing.add newRing }
  else { v with swim := b.swim }

def declareDead (siloId : String) : Membership :=
  match v.swim.members.lookup siloId with
  | some member =>
    { swim := (v.swim.removeMember siloId).enqueueGossip (.dead member.addr member.incarnation)
      ring := v.ring.remove member.addr }
  | none => v

end Membership

end Orlando
