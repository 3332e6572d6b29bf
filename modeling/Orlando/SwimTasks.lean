import Orlando.Membership

/-!
# The SWIM tasks of a silo

Several tasks of a silo work on its member table at once, under the SWIM lock, and `SwimTasks.step`
is one step of one of them. A batch of gossip keeps the lock from its first update to the change of
the ring, and so is applied as a whole (`SwimTasks.gossip_atomic`); `notify_join` and `notify_leave`
look at the ring before they take it, and `expire_suspects` takes it once to list the expired
members and once more to declare them dead. A step keeps the record of a member, drops it, enters it
anew, raises it by a report that it is alive, suspects it or marks it alive
(`SwimTasks.record_step`).
-/

namespace Orlando

open List Option SwimState Finmap

/-- The status is that of a suspicion older than `timeout` at `now`. A suspicion that began
after `now` is not old at all. -/
def MemberStatus.isExpired (now : Instant) (timeout : ℕ) : MemberStatus → Bool
  | .alive => false
  | .suspect since _ => now - since > timeout

namespace SwimState

variable (s : SwimState)

def markAlive (siloId : String) : SwimState :=
  match s.members.lookup siloId with
  | some member => s.setMember siloId { member with status := .alive }
  | none => s

def expired (now : Instant) (timeout : ℕ) : Finset String :=
  s.members.keys.filter fun id =>
    (s.members.lookup id).any fun member => member.status.isExpired now timeout

end SwimState

/-- How far `expire_suspects` has come : it is not running, has read the clock, or has
listed the expired members. -/
inductive Expiry
  | idle
  | started (now : Instant)
  | listed (siloIds : List String)
deriving DecidableEq

/-- The member table and the ring of a silo, with the tasks that work on them. -/
structure SwimTasks where
  calls : MembershipCalls
  /-- The ring changes collected by the batch of gossip that holds the lock. -/
  batch : Option (List SiloAddress × List SiloAddress)
  expiry : Expiry
  clock : Instant

inductive SwimEvent
  | call (e : MembershipEvent)
  | beginGossip
  | applyUpdate (update : GossipUpdate)
  | endGossip
  | drainGossip (n : ℕ)
  | suspectMember (siloId : String)
  | markAlive (siloId : String)
  | startExpiry
  /-- The expired members, in the order of the hash map. -/
  | listExpired (siloIds : List String)
  | expireSuspects
  | tick (now : Instant)
deriving DecidableEq

def SwimEvent.update : SwimEvent → Option GossipUpdate
  | .applyUpdate update => some update
  | _ => none

/-- All but the looks at the ring are made under the lock. -/
def MembershipEvent.locks : MembershipEvent → Bool
  | .checkJoin _ | .checkLeave _ => false
  | _ => true

namespace SwimTasks

def init (vnodes : ℕ) (localAddr : SiloAddress) : SwimTasks where
  calls := .init vnodes localAddr
  batch := none
  expiry := .idle
  clock := 0

variable (s : SwimTasks)

def view : Membership :=
  s.calls.view

def swim : SwimState :=
  s.calls.view.swim

def setView (view : Membership) : SwimTasks :=
  { s with calls := { s.calls with view := view } }

def setSwim (swim : SwimState) : SwimTasks :=
  s.setView { s.view with swim := swim }

def locked : Bool :=
  s.batch.isSome

/-- The batch that holds the lock. -/
def held : Option GossipBatch :=
  s.batch.map fun batch => ⟨s.swim, batch.1, batch.2⟩

def applyUpdate (batch : List SiloAddress × List SiloAddress) (update : GossipUpdate) :
    SwimTasks :=
  let b := GossipBatch.apply ⟨s.swim, batch.1, batch.2⟩ s.clock update
  { s.setSwim b.swim with batch := some (b.ringAdds, b.ringRemoves) }

def endGossip (batch : List SiloAddress × List SiloAddress) : SwimTasks :=
  let ring :=
    if !batch.1.isEmpty || !batch.2.isEmpty then
      batch.1.foldl HashRing.add (batch.2.foldl HashRing.remove s.view.ring)
    else s.view.ring
  { s.setView { s.view with ring := ring } with batch := none }

def step (timeout : ℕ) (s : SwimTasks) : SwimEvent → Option SwimTasks
  | .call e =>
    if s.locked && e.locks then none
    else (s.calls.step e).map fun calls => { s with calls := calls }
  | .beginGossip => if s.locked then none else some { s with batch := some ([], []) }
  | .applyUpdate update => s.batch.map fun batch => s.applyUpdate batch update
  | .endGossip => s.batch.map s.endGossip
  | .drainGossip n => if s.locked then none else some (s.setSwim (s.swim.drainGossip n).2)
  | .suspectMember siloId =>
    if s.locked then none else some (s.setSwim (s.swim.suspectMember s.clock siloId))
  | .markAlive siloId => if s.locked then none else some (s.setSwim (s.swim.markAlive siloId))
  | .startExpiry =>
    if s.expiry = .idle then some { s with expiry := .started s.clock } else none
  | .listExpired siloIds =>
    match s.expiry with
    | .started now =>
      if s.locked then none
      else if siloIds.Nodup ∧ siloIds.toFinset = s.swim.expired now timeout then
        some { s with expiry := .listed siloIds }
      else none
    | _ => none
  | .expireSuspects =>
    match s.expiry with
    | .listed siloIds =>
      -- With nothing to declare the lock is not taken.
      if s.locked && !siloIds.isEmpty then none
      else some { s.setView (siloIds.foldl Membership.declareDead s.view) with expiry := .idle }
    | _ => none
  | .tick now => if s.clock ≤ now then some { s with clock := now } else none

end SwimTasks

/-! ## The table, record by record -/

namespace SwimState

variable {s : SwimState} {id id' : String} {m : SwimMember}

theorem lookup_setMember :
    (s.setMember id m).members.lookup id' =
      if id' = id then some m else s.members.lookup id' := by
  split_ifs with h
  · rw [h, setMember, lookup_insert]
  · rw [setMember, lookup_insert_of_ne _ h]

theorem lookup_removeMember :
    (s.removeMember id).members.lookup id' =
      if id' = id then none else s.members.lookup id' := by
  split_ifs with h
  · rw [h, removeMember, lookup_erase]
  · rw [removeMember, lookup_erase_ne h]

@[simp] theorem members_enqueueGossip (update) :
    (s.enqueueGossip update).members = s.members :=
  rfl

end SwimState

def SwimEvent.overwrites (localId : String) : SwimEvent → List String
  | .call (.notifyJoin silo) => [silo.siloId]
  | .call (.joinCluster members) => (members.map SiloAddress.siloId).filter (· ≠ localId)
  | _ => []

/-- The silo that the event enters if it is not in the table. -/
def SwimEvent.joins : SwimEvent → Option SiloAddress
  | .call (.join silo) | .applyUpdate (.join silo) => some silo
  | _ => none

inductive RecordStep (localId : String) (now : Instant) (e : SwimEvent) (id : String)
    (r : Option SwimMember) : Option SwimMember → Prop
  | kept : RecordStep localId now e id r r
  | gone : RecordStep localId now e id r none
  | entered {silo} (hid : silo.siloId = id)
    (hr : r = none ∧ e.joins = some silo ∨ id ∈ e.overwrites localId) :
    RecordStep localId now e id r (some (.joined silo))
  | raised {m addr incarnation} (hr : r = some m)
    (he : e = .applyUpdate (.alive addr incarnation)) (hid : addr.siloId = id)
    (hlt : m.incarnation < incarnation) :
    RecordStep localId now e id r (some { m with incarnation := incarnation, status := .alive })
  | reported {m addr incarnation reportedBy} (hr : r = some m)
    (he : e = .applyUpdate (.suspect addr incarnation reportedBy)) (hid : addr.siloId = id)
    (hle : m.incarnation ≤ incarnation) (hs : m.status = .alive) :
    RecordStep localId now e id r
      (some { m with status := .suspect now reportedBy, incarnation := incarnation })
  | suspected {m reportedBy} (hr : r = some m) (he : e = .suspectMember id)
    (hs : m.status = .alive) :
    RecordStep localId now e id r (some { m with status := .suspect now reportedBy })
  | answered {m} (hr : r = some m) (he : e = .markAlive id) :
    RecordStep localId now e id r (some { m with status := .alive })

theorem GossipBatch.Move.record {b b' : GossipBatch} {now u} (h : b.Move now u b') (id) :
    RecordStep b.swim.localAddr.siloId now (.applyUpdate u) id (b.swim.members.lookup id)
      (b'.swim.members.lookup id) := by
  cases h with
  | raised hm hlt =>
    rw [lookup_setMember]
    split_ifs with hid
    · exact .raised (hid ▸ hm) rfl hid.symm hlt
    · exact .kept
  | reported hm hle hs =>
    rw [lookup_setMember]
    split_ifs with hid
    · exact .reported (hid ▸ hm) rfl hid.symm hle hs
    · exact .kept
  | died =>
    rw [lookup_removeMember]
    split_ifs
    · exact .gone
    · exact .kept
  | joined _ hmem =>
    rw [lookup_setMember]
    split_ifs with hid
    · exact .entered hid.symm (.inl ⟨lookup_eq_none.mpr (hid ▸ hmem), rfl⟩)
    · exact .kept
  | _ => exact .kept

namespace Membership

variable {v : Membership} {id siloId : String}

theorem lookup_declareDead :
    (v.declareDead siloId).swim.members.lookup id =
      if id = siloId then none else v.swim.members.lookup id := by
  unfold declareDead
  split
  case h_1 m hm => exact lookup_removeMember
  case h_2 hm =>
    split_ifs with hid
    · rw [hid, hm]
    · rfl

theorem lookup_foldl_declareDead (siloIds : List String) :
    (siloIds.foldl declareDead v).swim.members.lookup id =
      if id ∈ siloIds then none else v.swim.members.lookup id := by
  induction siloIds generalizing v with
  | nil => simp
  | cons siloId siloIds ih =>
    rw [foldl_cons, ih, lookup_declareDead]
    by_cases hid : id = siloId <;> simp [hid]

theorem localAddr_joinCluster (members) :
    (v.joinCluster members).swim.localAddr = v.swim.localAddr := by
  induction members using List.reverseRecOn with
  | nil => rfl
  | append_singleton members silo ih =>
    rw [joinCluster, foldl_append, foldl_cons, foldl_nil]
    split_ifs
    · exact ih
    · exact ih

theorem lookup_joinCluster (members id) :
    ((id = v.swim.localAddr.siloId ∨ ∀ silo ∈ members, silo.siloId ≠ id) ∧
      (v.joinCluster members).swim.members.lookup id = v.swim.members.lookup id) ∨
    (id ≠ v.swim.localAddr.siloId ∧ ∃ silo ∈ members, silo.siloId = id ∧
      (v.joinCluster members).swim.members.lookup id = some (.joined silo)) := by
  induction members using List.reverseRecOn with
  | nil => exact .inl ⟨.inr (by simp), rfl⟩
  | append_singleton members silo ih =>
    have hlocal := v.localAddr_joinCluster members
    have hlast : (v.joinCluster (members ++ [silo])).swim =
        if silo.siloId ≠ v.swim.localAddr.siloId then
          (v.joinCluster members).swim.setMember silo.siloId (.joined silo)
        else (v.joinCluster members).swim := by
      rw [← hlocal, joinCluster, foldl_append]
      rfl
    rw [hlast]
    by_cases hid : id = silo.siloId
    · by_cases hne : silo.siloId = v.swim.localAddr.siloId
      · rw [if_neg (not_not.mpr hne)]
        rcases ih with ⟨-, hkept⟩ | ⟨hother, -⟩
        · exact .inl ⟨.inl (hid.trans hne), hkept⟩
        · exact absurd (hid.trans hne) hother
      · rw [if_pos hne, lookup_setMember, if_pos hid]
        exact .inr ⟨hid ▸ hne, silo, by simp, hid.symm, rfl⟩
    · have hsame : (if silo.siloId ≠ v.swim.localAddr.siloId then
          (v.joinCluster members).swim.setMember silo.siloId (.joined silo)
        else (v.joinCluster members).swim).members.lookup id =
          (v.joinCluster members).swim.members.lookup id := by
        split_ifs
        · rw [lookup_setMember, if_neg hid]
        · rfl
      rw [hsame]
      rcases ih with ⟨hnone, hkept⟩ | ⟨hother, silo', hm, hsilo, hnew⟩
      · refine .inl ⟨hnone.imp_right fun h silo' hm => ?_, hkept⟩
        rcases mem_append.mp hm with hm | hm
        · exact h silo' hm
        · exact mem_singleton.mp hm ▸ Ne.symm hid
      · exact .inr ⟨hother, silo', mem_append_left _ hm, hsilo, hnew⟩

end Membership

theorem MembershipCalls.record_step {s s' : MembershipCalls} {e} (h : s.step e = some s') (now id) :
    RecordStep s.view.swim.localAddr.siloId now (.call e) id (s.view.swim.members.lookup id)
      (s'.view.swim.members.lookup id) := by
  cases e with
  | join silo =>
    cases h
    simp only [Membership.join]
    split_ifs with hm
    · exact .kept
    · rw [members_enqueueGossip, lookup_setMember]
      split_ifs with hid
      · exact .entered hid.symm (.inl ⟨lookup_eq_none.mpr (hid ▸ hm), rfl⟩)
      · exact .kept
  | checkJoin silo | checkLeave silo =>
    cases h
    split_ifs <;> exact .kept
  | notifyJoin silo =>
    obtain ⟨-, heq⟩ := ite_none_right_eq_some.mp h
    cases heq
    simp only [Membership.notifyJoin, lookup_setMember]
    split_ifs with hid
    · exact .entered hid.symm (.inr (mem_singleton.mpr hid))
    · exact .kept
  | notifyLeave silo =>
    obtain ⟨-, heq⟩ := ite_none_right_eq_some.mp h
    cases heq
    simp only [Membership.notifyLeave, lookup_removeMember]
    split_ifs
    · exact .gone
    · exact .kept
  | joinCluster members =>
    cases h
    rcases s.view.lookup_joinCluster members id with
      ⟨-, hkept⟩ | ⟨hne, silo, hm, hid, hnew⟩
    · exact hkept ▸ .kept
    · refine hnew ▸ .entered hid (.inr (mem_filter.mpr ⟨?_, by simpa using hne⟩))
      exact mem_map.mpr ⟨silo, hm, hid⟩
  | declareDead siloId =>
    cases h
    simp only [Membership.lookup_declareDead]
    split_ifs
    · exact .gone
    · exact .kept

namespace SwimTasks

variable {timeout : ℕ} {s s' : SwimTasks} {e : SwimEvent} {es : List SwimEvent}

variable (timeout s) in
inductive Move : SwimEvent → SwimTasks → Prop
  | call {e calls} (h : s.calls.step e = some calls) : Move (.call e) { s with calls := calls }
  | beginGossip (hl : s.batch = none) : Move .beginGossip { s with batch := some ([], []) }
  | applyUpdate {batch update} (hb : s.batch = some batch) :
    Move (.applyUpdate update) (s.applyUpdate batch update)
  | endGossip {batch} (hb : s.batch = some batch) : Move .endGossip (s.endGossip batch)
  | drainGossip (n : ℕ) : Move (.drainGossip n) (s.setSwim (s.swim.drainGossip n).2)
  | suspectMember (siloId : String) :
    Move (.suspectMember siloId) (s.setSwim (s.swim.suspectMember s.clock siloId))
  | markAlive (siloId : String) :
    Move (.markAlive siloId) (s.setSwim (s.swim.markAlive siloId))
  | startExpiry (hx : s.expiry = .idle) :
    Move .startExpiry { s with expiry := .started s.clock }
  | listExpired {now siloIds} (hx : s.expiry = .started now)
    (hids : siloIds.toFinset = s.swim.expired now timeout) :
    Move (.listExpired siloIds) { s with expiry := .listed siloIds }
  | expireSuspects {siloIds} (hx : s.expiry = .listed siloIds) :
    Move .expireSuspects
      { s.setView (siloIds.foldl Membership.declareDead s.view) with expiry := .idle }
  | tick {now} (hle : s.clock ≤ now) : Move (.tick now) { s with clock := now }

theorem move_of_step (h : s.step timeout e = some s') : Move timeout s e s' := by
  revert h
  fun_cases step timeout s e <;> intro h <;> try cases h
  next =>
    obtain ⟨calls, hc, rfl⟩ := map_eq_some_iff.mp h
    exact .call hc
  next hl => exact .beginGossip (by simpa [locked] using hl)
  next =>
    obtain ⟨batch, hb, rfl⟩ := map_eq_some_iff.mp h
    exact .applyUpdate hb
  next =>
    obtain ⟨batch, hb, rfl⟩ := map_eq_some_iff.mp h
    exact .endGossip hb
  next n _ => exact .drainGossip n
  next siloId _ => exact .suspectMember siloId
  next siloId _ => exact .markAlive siloId
  next hx => exact .startExpiry hx
  next hx _ hids => exact .listExpired hx hids.2
  next hx _ => exact .expireSuspects hx
  next hle => exact .tick hle

theorem step_of_held {b} (hb : s.held = some b) (hend : e ≠ .endGossip)
    (hs : s.step timeout e = some s') : s'.view.ring = s.view.ring ∧ s.clock ≤ s'.clock ∧
      s'.held = some (e.update.elim b (b.apply s.clock)) := by
  obtain ⟨batch, hbatch, rfl⟩ := map_eq_some_iff.mp hb
  have hlocked : s.locked = true := by rw [locked, hbatch]; rfl
  cases e with
  | call e =>
    rw [step, hlocked, Bool.true_and] at hs
    -- No call that changes the view gets the lock.
    cases e with
    | checkJoin | checkLeave =>
      cases hs
      dsimp only [MembershipCalls.step]
      split_ifs <;> exact ⟨rfl, le_rfl, hb⟩
    | _ => cases hs
  | applyUpdate update =>
    rw [step, hbatch] at hs
    cases hs
    exact ⟨rfl, le_rfl, rfl⟩
  | endGossip => exact absurd rfl hend
  | startExpiry | tick =>
    rw [step] at hs
    split_ifs at hs with h
    cases hs
    exact ⟨rfl, by first | exact le_rfl | exact h, hb⟩
  | expireSuspects =>
    rw [step, hlocked] at hs
    split at hs
    · split_ifs at hs with hids
      rw [Bool.true_and, Bool.not_eq_true', Bool.not_eq_false, List.isEmpty_iff] at hids
      cases hs
      rw [hids]
      exact ⟨rfl, le_rfl, hb⟩
    · cases hs
  | listExpired =>
    rw [step, hlocked] at hs
    split at hs <;> cases hs
  | _ =>
    rw [step, hlocked] at hs
    cases hs

theorem exec_of_held {b} (hb : s.held = some b) (hend : .endGossip ∉ es)
    (hr : exec (step timeout) s es = some s') : s'.view.ring = s.view.ring ∧
      ∃ us, map Prod.snd us = es.filterMap SwimEvent.update ∧
        (s.clock :: us.map Prod.fst ++ [s'.clock]).Pairwise (· ≤ ·) ∧
        s'.held = some (us.foldl (fun b u => GossipBatch.apply b u.1 u.2) b) := by
  induction es generalizing s b with
  | nil =>
    cases hr
    exact ⟨rfl, [], rfl, by simp, hb⟩
  | cons e es ih =>
    obtain ⟨hne, hend⟩ := not_or.mp (mem_cons.not.mp hend)
    obtain ⟨u, hstep, hr⟩ := exec_cons_eq_some.mp hr
    obtain ⟨hring, hclock, hheld⟩ := step_of_held hb (Ne.symm hne) hstep
    obtain ⟨hring', us, hus, htimes, hheld'⟩ := ih hheld hend hr
    rw [cons_append, pairwise_cons] at htimes
    have hlater := fun now hnow => hclock.trans (htimes.1 now hnow)
    refine ⟨hring'.trans hring, ?_⟩
    cases hupdate : e.update with
    | none =>
      rw [hupdate] at hheld'
      refine ⟨us, by rw [filterMap_cons_none hupdate, hus], ?_, hheld'⟩
      exact pairwise_cons.mpr ⟨hlater, htimes.2⟩
    | some update =>
      rw [hupdate] at hheld'
      refine ⟨(s.clock, update) :: us, ?_, ?_, hheld'⟩
      · rw [map_cons, filterMap_cons_some hupdate, hus]
      · exact pairwise_cons.mpr ⟨forall_mem_cons.mpr ⟨le_rfl, hlater⟩,
          pairwise_cons.mpr ⟨hlater, htimes.2⟩⟩

/-- A batch of gossip is applied as a whole, whatever the other tasks do while it goes on. -/
theorem gossip_atomic (hend : .endGossip ∉ es)
    (hrun : exec (step timeout) s (.beginGossip :: es ++ [.endGossip]) = some s') :
    ∃ us, map Prod.snd us = es.filterMap SwimEvent.update ∧
      (s.clock :: us.map Prod.fst ++ [s'.clock]).Pairwise (· ≤ ·) ∧
      s'.view = s.view.applyGossip us := by
  obtain ⟨u, hrun, hstep⟩ := exec_snoc_eq_some.mp hrun
  obtain ⟨v, hbegin, hrun⟩ := exec_cons_eq_some.mp hrun
  cases move_of_step hbegin
  obtain ⟨hring, us, hus, htimes, hheld⟩ := exec_of_held (b := ⟨s.swim, [], []⟩) rfl hend hrun
  cases move_of_step hstep with
  | endGossip hbatch =>
    refine ⟨us, hus, htimes, ?_⟩
    rw [held, hbatch, map_some, some.injEq] at hheld
    have hgossip : s.view.swim.gossip us = _ := hheld.symm
    have hring : u.view.ring = s.view.ring := hring
    simp only [Membership.applyGossip, hgossip, endGossip, ← hring]
    split_ifs <;> rfl

open MembershipCalls (siloAt)

def gossiping : List SwimEvent :=
  [.applyUpdate (.join (siloAt "b" 1)), .startExpiry, .tick 2, .call (.checkJoin (siloAt "c" 2)),
    .applyUpdate (.suspect (siloAt "b" 1) 0 "c")]

theorem gossiping_atomic : ∃ t us, exec (step 5) (init 1 (siloAt "a" 0))
      (.beginGossip :: gossiping ++ [.endGossip]) = some t ∧
    us.map Prod.snd = gossiping.filterMap SwimEvent.update ∧
    t.view = (init 1 (siloAt "a" 0)).view.applyGossip us := by
  have hr : exec (step 5) (init 1 (siloAt "a" 0))
    (.beginGossip :: gossiping ++ [.endGossip]) = some _ := rfl
  obtain ⟨us, hus, -, hview⟩ := gossip_atomic (by decide) hr
  exact ⟨_, us, hr, hus, hview⟩

theorem record_step (h : s.step timeout e = some s') (id : String) :
    RecordStep s.swim.localAddr.siloId s.clock e id (s.swim.members.lookup id)
      (s'.swim.members.lookup id) := by
  cases move_of_step h with
  | call hc => exact MembershipCalls.record_step hc s.clock id
  | @applyUpdate batch update =>
    exact (GossipBatch.apply_move ⟨s.swim, batch.1, batch.2⟩ s.clock update).record id
  | suspectMember siloId =>
    change RecordStep _ _ _ _ _ ((s.swim.suspectMember s.clock siloId).members.lookup id)
    unfold suspectMember
    split
    case h_2 => exact .kept
    case h_1 m hm =>
      split_ifs with hs
      · rw [members_enqueueGossip, lookup_setMember]
        split_ifs with hid
        · exact .suspected (hid ▸ hm) (hid ▸ rfl) hs
        · exact .kept
      · exact .kept
  | markAlive siloId =>
    change RecordStep _ _ _ _ _ ((s.swim.markAlive siloId).members.lookup id)
    unfold markAlive
    split
    case h_2 => exact .kept
    case h_1 m hm =>
      rw [lookup_setMember]
      split_ifs with hid
      · exact .answered (hid ▸ hm) (hid ▸ rfl)
      · exact .kept
  | @expireSuspects siloIds =>
    change RecordStep _ _ _ _ _
      ((siloIds.foldl Membership.declareDead s.view).swim.members.lookup id)
    rw [Membership.lookup_foldl_declareDead]
    split_ifs
    · exact .gone
    · exact .kept
  | _ => exact .kept

end SwimTasks

end Orlando
