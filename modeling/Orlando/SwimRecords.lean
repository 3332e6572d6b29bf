import Orlando.SwimTasks

/-!
# The records of a silo over time

The incarnation recorded for a member should not go back while the member stays in the table.

A member that `expire_suspects` declares dead should have been suspected for longer than the
timeout. It lists the members under one acquisition of the lock and declares them dead under
another.
-/

namespace Orlando

open Finmap List MemberStatus

theorem GossipBatch.Move.members_eq {b b' : GossipBatch} {now addr incarnation reportedBy m}
    (h : b.Move now (.suspect addr incarnation reportedBy) b')
    (hm : b.swim.members.lookup addr.siloId = some m) (hlt : incarnation < m.incarnation) :
    b'.swim.members = b.swim.members := by
  cases h with
  | reported hm' hle =>
    cases hm.symm.trans hm'
    exact absurd hlt (UInt64.not_lt.mpr hle)
  | _ => rfl

/-- The members that `expire_suspects` is going to declare dead. -/
def Expiry.siloIds : Expiry → List String
  | .listed siloIds => siloIds
  | _ => []

namespace SwimTasks

open MembershipCalls (siloAt)

variable {timeout vnodes : ℕ} {localAddr : SiloAddress} {s s' t u : SwimTasks}
  {e : SwimEvent} {es : List SwimEvent} {id : String} {m : SwimMember} {reportedBy : String}
  {since : Instant}

/-! ## Incarnations -/

variable (timeout s es) in
/-- Between any two states of the run, a member that stays in the table does not fall
below the incarnation it had, and no suspicion below that is accepted. -/
def IncarnationsKept : Prop :=
  ∀ es₁ es₂ es₃ u v id m, es = es₁ ++ es₂ ++ es₃ → exec (step timeout) s es₁ = some u →
    exec (step timeout) u es₂ = some v → u.swim.members.lookup id = some m →
    Throughout (step timeout) (fun w => id ∈ w.swim.members) u es₂ →
    (∃ m', v.swim.members.lookup id = some m' ∧ m.incarnation ≤ m'.incarnation) ∧
    ∀ addr incarnation reportedBy w, addr.siloId = id → incarnation < m.incarnation →
      v.step timeout (.applyUpdate (.suspect addr incarnation reportedBy)) = some w →
      w.swim.members = v.swim.members

def EntersFresh (s : SwimTasks) (e : SwimEvent) : Prop :=
  ∀ id ∈ e.overwrites s.swim.localAddr.siloId, ∀ m ∈ s.swim.members.lookup id,
    m.incarnation = 0

instance instDecidableEntersFresh (s : SwimTasks) (e : SwimEvent) :
    Decidable (s.EntersFresh e) :=
  inferInstanceAs (Decidable (∀ id ∈ e.overwrites s.swim.localAddr.siloId, ∀ m ∈ _, _))

theorem lookup_of_mem_overwrites (h : s.step timeout e = some s')
    (hid : id ∈ e.overwrites s.swim.localAddr.siloId) :
    ∃ silo, s'.swim.members.lookup id = some (.joined silo) := by
  cases move_of_step h with
  | @call e calls hc =>
    cases e with
    | notifyJoin silo =>
      obtain ⟨-, heq⟩ := Option.ite_none_right_eq_some.mp hc
      cases heq
      obtain rfl := mem_singleton.mp hid
      exact ⟨silo, lookup_insert _⟩
    | joinCluster members =>
      cases hc
      obtain ⟨hmem, hne⟩ := mem_filter.mp hid
      rcases s.view.lookup_joinCluster members id with
        ⟨hlocal | hnone, -⟩ | ⟨-, silo, -, -, hnew⟩
      · exact absurd hlocal (of_decide_eq_true hne)
      · obtain ⟨silo, hsilo, rfl⟩ := mem_map.mp hmem
        exact absurd rfl (hnone silo hsilo)
      · exact ⟨silo, hnew⟩
    | _ => cases hid
  | _ => cases hid

theorem incarnation_le_of_step (he : s.EntersFresh e) (h : s.step timeout e = some s')
    (hm : s.swim.members.lookup id = some m) (hmem : id ∈ s'.swim.members) :
    ∃ m', s'.swim.members.lookup id = some m' ∧ m.incarnation ≤ m'.incarnation := by
  obtain ⟨m', hm'⟩ := mem_iff.mp hmem
  refine ⟨m', hm', ?_⟩
  have hr := s.record_step h id
  rw [hm, hm'] at hr
  cases hr with
  | kept => exact le_rfl
  | entered _ hr =>
    rcases hr with ⟨hr, -⟩ | hr
    · cases hr
    · exact (he id hr m hm).le
  | raised hr _ _ hlt =>
    cases hr
    exact hlt.le
  | reported hr _ _ hle =>
    cases hr
    exact hle
  | suspected hr | answered hr =>
    cases hr
    exact le_rfl

/-- `notify_join` and `join_cluster` enter a silo anew even if the table has it, so incarnations are
kept exactly when those find no record with one above 0. -/
theorem incarnationsKept_iff (timeout vnodes : ℕ) (localAddr : SiloAddress)
    (es : List SwimEvent) (t : SwimTasks)
    (hrun : exec (step timeout) (init vnodes localAddr) es = some t) :
    IncarnationsKept timeout (init vnodes localAddr) es ↔
      Along (step timeout) EntersFresh (init vnodes localAddr) es := by
  constructor
  · intro hkept
    by_contra hal
    -- The first silo entered over a raised incarnation stays, and falls to 0.
    obtain ⟨es₁, e, es₂, u, v, rfl, hu, hv, -, -, hbad⟩ := exists_of_not_along hrun hal
    simp only [EntersFresh, not_forall] at hbad
    obtain ⟨id, hid, m, hm, hne⟩ := hbad
    obtain ⟨silo, hsilo⟩ := lookup_of_mem_overwrites hv hid
    have hstays : Throughout (step timeout) (fun w => id ∈ w.swim.members) u [e] :=
      .single (mem_of_lookup_eq_some hm) hv (mem_of_lookup_eq_some hsilo)
    obtain ⟨⟨m', hm', hle⟩, -⟩ := hkept es₁ [e] es₂ u v id m (by simp) hu
      (exec_cons_eq_some.mpr ⟨v, hv, rfl⟩) hm hstays
    cases hsilo.symm.trans hm'
    exact hne (UInt64.le_antisymm hle (UInt64.zero_le))
  · rintro hal es₁ es₂ es₃ u v id m rfl hu hv hm hstays
    have hle : ∃ m', v.swim.members.lookup id = some m' ∧ m.incarnation ≤ m'.incarnation := by
      refine exec_invariant_throughout (P := EntersFresh)
        (I := fun w => ∃ m', w.swim.members.lookup id = some m' ∧ m.incarnation ≤ m'.incarnation)
        (fun w e w' he hmem hI hstep => ?_) ⟨m, hm, le_rfl⟩ (hal.of_append.after hu) hstays hv
      obtain ⟨m₁, hm₁, hle₁⟩ := hI
      obtain ⟨m₂, hm₂, hle₂⟩ := incarnation_le_of_step he hstep hm₁ hmem
      exact ⟨m₂, hm₂, hle₁.trans hle₂⟩
    refine ⟨hle, fun addr incarnation reportedBy w haddr hlt hw => ?_⟩
    obtain ⟨m', hm', hle'⟩ := hle
    cases move_of_step hw with
    | @applyUpdate batch =>
      have hmove := GossipBatch.apply_move ⟨v.swim, batch.1, batch.2⟩ v.clock
      exact (hmove _).members_eq (haddr ▸ hm') (UInt64.lt_of_lt_of_le hlt hle')

def refutedSuspicion : List SwimEvent :=
  [.call (.checkJoin (siloAt "b" 1)), .call (.notifyJoin (siloAt "b" 1)), .beginGossip,
    .applyUpdate (.join (siloAt "b" 1)), .applyUpdate (.suspect (siloAt "b" 1) 0 "c"),
    .applyUpdate (.alive (siloAt "b" 1) 1), .applyUpdate (.suspect (siloAt "b" 1) 0 "c"),
    .endGossip]

theorem incarnationsKept_iff_refuted :
    (∃ t, exec (step 5) (init 1 (siloAt "a" 0)) refutedSuspicion = some t ∧
      (t.swim.members.lookup "b").map SwimMember.incarnation = some 1) ∧
    IncarnationsKept 5 (init 1 (siloAt "a" 0)) refutedSuspicion := by
  obtain ⟨t, hrun, ht⟩ : ∃ t, exec (step 5) (init 1 (siloAt "a" 0)) refutedSuspicion = some t ∧
      (t.swim.members.lookup "b").map SwimMember.incarnation = some 1 := ⟨_, rfl, rfl⟩
  exact ⟨⟨t, hrun, ht⟩, (incarnationsKept_iff 5 1 (siloAt "a" 0) refutedSuspicion t hrun).mpr
    (by decide +kernel)⟩

/-- A call of `notify_join` finds the silo unknown. Before it takes the lock, gossip brings
the silo and its refutation of a suspicion. -/
def outrun : List SwimEvent :=
  [.call (.checkJoin (siloAt "b" 1)), .beginGossip, .applyUpdate (.join (siloAt "b" 1)),
    .applyUpdate (.alive (siloAt "b" 1) 1), .endGossip]

/-- The call then enters the silo at incarnation 0, and the suspicion is accepted again. -/
theorem refutation_forgotten :
    (∃ u v w m m' m'',
      exec (step 5) (init 1 (siloAt "a" 0)) outrun = some u ∧
      u.step 5 (.call (.notifyJoin (siloAt "b" 1))) = some v ∧
      exec (step 5) v [.beginGossip, .applyUpdate (.suspect (siloAt "b" 1) 0 "c")] = some w ∧
      u.swim.members.lookup "b" = some m ∧ m.incarnation = 1 ∧
      v.swim.members.lookup "b" = some m' ∧ m'.incarnation = 0 ∧
      w.swim.members.lookup "b" = some m'' ∧ m''.status = .suspect 0 "c") ∧
    ¬IncarnationsKept 5 (init 1 (siloAt "a" 0))
      (outrun ++ [.call (.notifyJoin (siloAt "b" 1))]) := by
  refine ⟨⟨_, _, _, _, _, _, rfl, rfl, rfl, rfl, rfl, rfl, rfl, rfl, rfl⟩, fun hkept => ?_⟩
  obtain ⟨⟨m', hm', hle⟩, -⟩ := hkept outrun [.call (.notifyJoin (siloAt "b" 1))] [] _ _ "b" _
    rfl rfl rfl rfl (.single (mem_of_lookup_eq_some rfl) rfl (mem_of_lookup_eq_some rfl))
  cases hm'
  exact absurd hle (by decide)

/-! ## Suspicions -/

def Suspects (s : SwimTasks) (id : String) : Prop :=
  ∃ m, s.swim.members.lookup id = some m ∧ m.status ≠ .alive

variable (timeout s es) in
/-- At the end `t` of the run, the silo has been suspected without a break for longer than
`timeout`. -/
def SuspectedFor (t : SwimTasks) (id : String) : Prop :=
  ∃ es₁ es₂ u, es = es₁ ++ es₂ ∧ exec (step timeout) s es₁ = some u ∧
    exec (step timeout) u es₂ = some t ∧
    Throughout (step timeout) (fun w => w.Suspects id) u es₂ ∧ timeout < t.clock - u.clock

variable (timeout s es) in
/-- Each member that `expire_suspects` declares dead in the run has been suspected without
a break for longer than `timeout`. -/
def ExpiresSuspects : Prop :=
  ∀ es₁ es₂ u v id, es = es₁ ++ .expireSuspects :: es₂ → exec (step timeout) s es₁ = some u →
    u.step timeout .expireSuspects = some v → id ∈ u.swim.members → id ∉ v.swim.members →
    SuspectedFor timeout s es₁ u id

/-- The step brings the silo back : by an `Alive` that is accepted, by an answer to a probe, or by
an entry into the table. -/
def revives (s : SwimTasks) (id : String) : SwimEvent → Bool
  | .applyUpdate (.alive addr incarnation) =>
    addr.siloId = id && (s.swim.members.lookup id).any (·.incarnation < incarnation)
  | .markAlive siloId => siloId = id
  | e => (e.joins.any (·.siloId = id) && (s.swim.members.lookup id).isNone) ||
      id ∈ e.overwrites s.swim.localAddr.siloId

/-- Between the two acquisitions of the lock by `expire_suspects`, the step brings back no member
on the list. -/
def Undisturbed (s : SwimTasks) (e : SwimEvent) : Prop :=
  ∀ id ∈ s.expiry.siloIds, s.revives id e = false

instance instDecidableUndisturbed (s : SwimTasks) (e : SwimEvent) : Decidable (s.Undisturbed e) :=
  inferInstanceAs (Decidable (∀ id ∈ s.expiry.siloIds, _))

theorem clock_le_of_step (h : s.step timeout e = some s') : s.clock ≤ s'.clock := by
  cases move_of_step h with
  | tick hle => exact hle
  | _ => exact le_rfl

theorem clock_le_of_run (h : exec (step timeout) s es = some t) : s.clock ≤ t.clock :=
  exec_invariant_of_step (I := fun w => s.clock ≤ w.clock)
    (fun _ _ _ hle hstep => hle.trans (clock_le_of_step hstep)) le_rfl h

theorem since_of_step (h : s.step timeout e = some s') (hm : s'.swim.members.lookup id = some m)
    (hs : m.status = .suspect since reportedBy) :
    s.swim.members.lookup id = some m ∨ since = s'.clock := by
  have hr := s.record_step h id
  rw [hm] at hr
  generalize hl : s.swim.members.lookup id = r at hr
  cases hr with
  | kept => exact Or.inl rfl
  | reported hr he =>
    subst he
    cases move_of_step h with
    | applyUpdate hb => exact Or.inr (suspect.inj hs).1.symm
  | suspected hr he =>
    subst he
    cases move_of_step h with
    | suspectMember => exact Or.inr (suspect.inj hs).1.symm
  | _ => cases hs

theorem lookup_of_suspects (h : s.step timeout e = some s') (hs : s.Suspects id)
    (hs' : s'.Suspects id) : s'.swim.members.lookup id = s.swim.members.lookup id := by
  obtain ⟨m, hm, hne⟩ := hs
  obtain ⟨m', hm', hne'⟩ := hs'
  have hr := s.record_step h id
  rw [hm, hm'] at hr
  rw [hm, hm']
  cases hr with
  | kept => rfl
  | reported hr _ _ _ halive | suspected hr _ halive =>
    cases hr
    exact absurd halive hne
  | _ => exact absurd rfl hne'

section

variable (hrun : exec (step timeout) s es = some t)
include hrun

theorem lookup_of_throughout (hall : Throughout (step timeout) (fun w => w.Suspects id) s es) :
    t.swim.members.lookup id = s.swim.members.lookup id :=
  (exec_invariant_throughout (P := fun _ _ => True) (Q := fun w => w.Suspects id)
    (I := fun w => w.Suspects id ∧ w.swim.members.lookup id = s.swim.members.lookup id)
    (fun _ _ _ _ hw' hI hstep => ⟨hw', (lookup_of_suspects hstep hI.1 hw').trans hI.2⟩)
    ⟨hall.head, rfl⟩ (along_true ..) hall hrun).2

theorem suspected_since (hinit : s.swim.members = ∅)
    (hm : t.swim.members.lookup id = some m) (hs : m.status = .suspect since reportedBy) :
    ∃ es₁ es₂ u, es = es₁ ++ es₂ ∧ exec (step timeout) s es₁ = some u ∧
      exec (step timeout) u es₂ = some t ∧
      Throughout (step timeout) (fun w => w.Suspects id) u es₂ ∧ u.clock = since := by
  revert hm
  refine exec_induction (I := fun es t => t.swim.members.lookup id = some m →
    ∃ es₁ es₂ u, es = es₁ ++ es₂ ∧ exec (step timeout) s es₁ = some u ∧
      exec (step timeout) u es₂ = some t ∧
      Throughout (step timeout) (fun w => w.Suspects id) u es₂ ∧ u.clock = since)
    (fun hm => ?_) (fun es v e w hv ih hst hm => ?_) hrun
  · rw [hinit, lookup_empty] at hm
    cases hm
  · have hsus : w.Suspects id := ⟨m, hm, by rw [hs]; rintro ⟨⟩⟩
    rcases since_of_step hst hm hs with hkept | hnew
    · obtain ⟨es₁, es₂, u, rfl, hu, hrest, hall, hclock⟩ := ih hkept
      exact ⟨es₁, es₂ ++ [e], u, append_assoc .., hu,
        exec_snoc_eq_some.mpr ⟨v, hrest, hst⟩, hall.snoc hrest hst hsus, hclock⟩
    · exact ⟨es ++ [e], [], w, (append_nil _).symm,
        exec_snoc_eq_some.mpr ⟨v, hv, hst⟩, rfl, hsus, hnew.symm⟩

theorem suspectedFor_iff (hinit : s.swim.members = ∅) (hm : t.swim.members.lookup id = some m) :
    SuspectedFor timeout s es t id ↔ m.status.isExpired t.clock timeout = true := by
  constructor
  · rintro ⟨es₁, es₂, u, rfl, hu, hrest, hall, hlt⟩
    obtain ⟨m', hm', hne⟩ := hall.head
    cases hm.symm.trans ((lookup_of_throughout hrest hall).trans hm')
    cases hstatus : m.status with
    | alive => exact absurd hstatus hne
    | suspect since reportedBy =>
      obtain ⟨es₁', es₂', u', rfl, hu', hrest', -, rfl⟩ := suspected_since hu hinit hm' hstatus
      have hle := clock_le_of_run hrest'
      exact decide_eq_true (Nat.lt_of_lt_of_le hlt (Nat.sub_le_sub_left hle _))
  · intro hexp
    cases hstatus : m.status with
    | alive =>
      rw [hstatus] at hexp
      cases hexp
    | suspect since reportedBy =>
      rw [hstatus] at hexp
      obtain ⟨es₁, es₂, u, hes, hu, hrest, hall, rfl⟩ := suspected_since hrun hinit hm hstatus
      exact ⟨es₁, es₂, u, hes, hu, hrest, hall, of_decide_eq_true hexp⟩

end

theorem mem_expireSuspects (h : s.step timeout .expireSuspects = some s') :
    id ∈ s'.swim.members ↔ id ∉ s.expiry.siloIds ∧ id ∈ s.swim.members := by
  cases move_of_step h with
  | @expireSuspects siloIds hx =>
    change id ∈ (siloIds.foldl Membership.declareDead s.view).swim.members ↔ _
    rw [← lookup_isSome, ← lookup_isSome, Membership.lookup_foldl_declareDead, hx]
    split_ifs with hid
    · simp [Expiry.siloIds, hid]
    · simp [Expiry.siloIds, hid, view, swim]

theorem listed_of_run {siloIds} (hx : s.expiry = .listed siloIds)
    (hrun : exec (step timeout) s es = some t) (hes : .expireSuspects ∉ es) :
    t.expiry = .listed siloIds := by
  refine exec_invariant (P := fun _ e => e ≠ .expireSuspects ∧ True)
    (I := fun w => w.expiry = .listed siloIds) (fun w e w' he hw hstep => ?_) hx
    (Along.and_forall (R := (· ≠ SwimEvent.expireSuspects)) (fun e he hexp => hes (hexp ▸ he))
      (along_true ..)) hrun
  cases move_of_step hstep with
  | startExpiry hidle => cases hw.symm.trans hidle
  | listExpired hstarted => cases hw.symm.trans hstarted
  | expireSuspects => exact absurd rfl he.1
  | _ => exact hw

theorem mem_listExpired {siloIds now} (hx : s.expiry = .started now)
    (h : s.step timeout (.listExpired siloIds) = some s')
    (hm : s.swim.members.lookup id = some m) (hexp : m.status.isExpired now timeout = true) :
    id ∈ siloIds ∧ s'.expiry = .listed siloIds := by
  cases move_of_step h with
  | listExpired hx' hids =>
    cases hx.symm.trans hx'
    refine ⟨mem_toFinset.mp (hids ▸ ?_), rfl⟩
    exact Finset.mem_filter.mpr ⟨mem_keys.mpr (mem_of_lookup_eq_some hm),
      Option.any_eq_true_iff_get _ _ |>.mpr (by simp [hm, hexp])⟩

/-- As long as a member is suspected its record stays what it was at the start, and a run of
`expire_suspects` that reads the clock later than the timeout after the start declares it dead. -/
theorem suspicion_not_reset (timeout : ℕ) (s t : SwimTasks) (es : List SwimEvent) (id : String)
    (m : SwimMember) (since : Instant) (reportedBy : String)
    (hm : s.swim.members.lookup id = some m) (hs : m.status = .suspect since reportedBy)
    (hrun : exec (step timeout) s es = some t)
    (hall : Throughout (step timeout) (fun w => w.Suspects id) s es) :
    t.swim.members.lookup id = some m ∧
    ∀ now siloIds u fs v w, t.expiry = .started now → since + timeout < now →
      t.step timeout (.listExpired siloIds) = some u → exec (step timeout) u fs = some v →
      .expireSuspects ∉ fs → v.step timeout .expireSuspects = some w → id ∉ w.swim.members := by
  have hsame := (lookup_of_throughout hrun hall).trans hm
  refine ⟨hsame, fun now siloIds u fs v w hx hlate hu hv hfs hw hid => ?_⟩
  have hexp : m.status.isExpired now timeout = true := by
    rw [hs]
    exact decide_eq_true (Nat.lt_sub_of_add_lt ((Nat.add_comm ..).trans_lt hlate))
  obtain ⟨hlisted, hux⟩ := mem_listExpired hx hu hsame hexp
  refine ((mem_expireSuspects hw).mp hid).1 ?_
  rwa [listed_of_run hux hv hfs]

def overdue : List SwimEvent :=
  [.call (.join (siloAt "b" 1)), .suspectMember "b", .tick 6, .startExpiry]

/-- Another suspicion just before the list is made does not give the member more time. -/
theorem suspicion_not_reset_overdue :
    ∃ s t u v m, exec (step 5) (init 1 (siloAt "a" 0)) overdue = some s ∧
      s.step 5 (.suspectMember "b") = some t ∧ t.step 5 (.listExpired ["b"]) = some u ∧
      u.step 5 .expireSuspects = some v ∧ t.swim.members.lookup "b" = some m ∧
      m.status = .suspect 0 "a" ∧ "b" ∉ v.swim.members := by
  obtain ⟨s, t, u, v, m, hs, ht, hu, hv, hm, hm', hstatus, hx⟩ :
      ∃ s t u v m, exec (step 5) (init 1 (siloAt "a" 0)) overdue = some s ∧
        s.step 5 (.suspectMember "b") = some t ∧ t.step 5 (.listExpired ["b"]) = some u ∧
        u.step 5 .expireSuspects = some v ∧ s.swim.members.lookup "b" = some m ∧
        t.swim.members.lookup "b" = some m ∧ m.status = .suspect 0 "a" ∧
        t.expiry = .started 6 := ⟨_, _, _, _, _, rfl, rfl, rfl, rfl, rfl, rfl, rfl, rfl⟩
  have hne : m.status ≠ .alive := by simp [hstatus]
  obtain ⟨hkept, hdead⟩ := suspicion_not_reset 5 s t [.suspectMember "b"] "b" m 0 "a" hm hstatus
    (exec_cons_eq_some.mpr ⟨t, ht, rfl⟩) (.single ⟨m, hm, hne⟩ ht ⟨m, hm', hne⟩)
  exact ⟨s, t, u, v, m, hs, ht, hu, hv, hkept, hstatus,
    hdead 6 ["b"] u [] u v hx (by decide) hu rfl (by simp) hv⟩

theorem isExpired_mono {status : MemberStatus} {now now'} (hle : now ≤ now')
    (h : status.isExpired now timeout = true) : status.isExpired now' timeout = true := by
  cases status with
  | alive => cases h
  | suspect since _ =>
    exact decide_eq_true ((of_decide_eq_true h).trans_le (Nat.sub_le_sub_right hle since))

/-- A suspicion that a step does not end stays as it is, or the member goes. -/
theorem lookup_of_not_revives (h : s.step timeout e = some s') (hr : s.revives id e = false)
    (hs : ∀ m ∈ s.swim.members.lookup id, m.status ≠ .alive) :
    ∀ m ∈ s'.swim.members.lookup id, m ∈ s.swim.members.lookup id := by
  have hrec := s.record_step h id
  generalize hl : s.swim.members.lookup id = r at hrec hs ⊢
  generalize s'.swim.members.lookup id = r' at hrec
  cases hrec with
  | kept => exact fun _ hm => hm
  | gone => exact fun _ hm => by cases hm
  | raised hm he hid hlt =>
    subst he
    simp [revives, hl, hm, hid, hlt] at hr
  | reported hm _ _ _ halive | suspected hm _ halive => exact absurd halive (hs _ hm)
  | answered _ he =>
    subst he
    simp [revives] at hr
  | @entered silo hid hr' =>
    have hr : (e.joins.any (·.siloId = id) && (s.swim.members.lookup id).isNone) = false ∧
        id ∉ e.overwrites s.swim.localAddr.siloId := by
      unfold revives at hr
      split at hr
      · simp [SwimEvent.joins, SwimEvent.overwrites]
      · simp [SwimEvent.joins, SwimEvent.overwrites]
      · simpa using hr
    rcases hr' with ⟨rfl, hj⟩ | hov
    · simp [hj, hid, hl] at hr
    · exact absurd hov hr.2

variable (timeout s) in
/-- The members on the list that are still in the table are expired. -/
def ListExpired : Prop :=
  match s.expiry with
  | .idle => True
  | .started now => now ≤ s.clock
  | .listed siloIds => ∀ id ∈ siloIds, ∀ m ∈ s.swim.members.lookup id,
      m.status.isExpired s.clock timeout = true

theorem ListExpired.step (hI : s.ListExpired timeout) (he : s.Undisturbed e)
    (h : s.step timeout e = some s') : s'.ListExpired timeout := by
  have hclock := clock_le_of_step h
  have hother : s'.expiry = s.expiry → s'.ListExpired timeout := by
    intro hx
    unfold ListExpired at hI ⊢
    unfold Undisturbed at he
    rw [hx]
    cases hexp : s.expiry with
    | idle => trivial
    | started now =>
      rw [hexp] at hI
      exact hI.trans hclock
    | listed siloIds =>
      rw [hexp] at hI he
      intro id hid m hm
      refine isExpired_mono hclock (hI id hid m ?_)
      refine lookup_of_not_revives h (he id hid) (fun m' hm' halive => ?_) m hm
      have hexp' := hI id hid m' hm'
      rw [halive] at hexp'
      cases hexp'
  cases move_of_step h with
  | startExpiry => exact le_rfl
  | listExpired hx hids =>
    unfold ListExpired at hI
    rw [hx] at hI
    intro id hid m hm
    have hmem := mem_toFinset.mpr hid
    have hm : s.swim.members.lookup id = some m := hm
    rw [hids, SwimState.expired, Finset.mem_filter, hm] at hmem
    exact isExpired_mono hI hmem.2
  | expireSuspects => trivial
  | _ => exact hother rfl

/-- Where nothing brings back a member that `expire_suspects` has listed before it takes the lock
again, each member it declares dead has been suspected for longer than the timeout. -/
theorem expiresSuspects_of_undisturbed (timeout vnodes : ℕ) (localAddr : SiloAddress)
    (es : List SwimEvent)
    (hal : Along (step timeout) Undisturbed (init vnodes localAddr) es) :
    ExpiresSuspects timeout (init vnodes localAddr) es := by
  rintro es₁ es₂ u v id rfl hu hv hid hgone
  obtain ⟨m, hm⟩ := mem_iff.mp hid
  have hlisted : id ∈ u.expiry.siloIds := by
    by_contra hnot
    exact hgone ((mem_expireSuspects hv).mpr ⟨hnot, hid⟩)
  have hI : u.ListExpired timeout := exec_invariant (I := fun w => w.ListExpired timeout)
    (fun _ _ _ he hI hstep => hI.step he hstep) trivial hal.of_append hu
  refine (suspectedFor_iff hu rfl hm).mpr ?_
  unfold ListExpired at hI
  cases hexp : u.expiry with
  | listed siloIds =>
    rw [hexp] at hI hlisted
    exact hI id hlisted m hm
  | _ =>
    rw [hexp] at hlisted
    cases hlisted

def lapsed : List SwimEvent :=
  [.call (.join (siloAt "b" 1)), .suspectMember "b", .tick 6, .startExpiry, .listExpired ["b"]]

theorem expiresSuspects_of_undisturbed_lapsed :
    (∃ t, exec (step 5) (init 1 (siloAt "a" 0)) (lapsed ++ [.expireSuspects]) = some t ∧
      "b" ∉ t.swim.members) ∧
    ExpiresSuspects 5 (init 1 (siloAt "a" 0)) (lapsed ++ [.expireSuspects]) :=
  ⟨⟨_, rfl, by decide +kernel⟩, expiresSuspects_of_undisturbed 5 1 (siloAt "a" 0) _
    (by decide +kernel)⟩

/-- Between the two acquisitions of the lock the member refutes the suspicion. -/
def refutedLate : List SwimEvent :=
  lapsed ++ [.beginGossip, .applyUpdate (.alive (siloAt "b" 1) 1), .endGossip]

/-- The member is declared dead all the same, at the incarnation of its refutation. -/
theorem refuted_declared_dead :
    (∃ u v m, exec (step 5) (init 1 (siloAt "a" 0)) refutedLate = some u ∧
      u.step 5 .expireSuspects = some v ∧ u.swim.members.lookup "b" = some m ∧
      m.status = .alive ∧ "b" ∉ v.swim.members ∧
      v.swim.pendingGossip.getLast? = some (.dead (siloAt "b" 1) 1)) ∧
    ¬ExpiresSuspects 5 (init 1 (siloAt "a" 0)) (refutedLate ++ [.expireSuspects]) := by
  refine ⟨⟨_, _, _, rfl, rfl, rfl, rfl, by decide +kernel, rfl⟩, fun hexp => ?_⟩
  have hfor := hexp refutedLate [] _ _ "b" rfl rfl rfl (mem_of_lookup_eq_some rfl)
    (by decide +kernel)
  have halive := (suspectedFor_iff rfl rfl rfl).mp hfor
  exact absurd halive (by decide)

end SwimTasks

end Orlando
