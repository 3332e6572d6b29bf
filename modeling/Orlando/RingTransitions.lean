import Orlando.Exclusion
import Orlando.SingleActivation
import Orlando.StableRing

/-!
# Rings in transition

While members come and go, two silos may both take themselves for the owner of a grain. `invoke`
then asks the other members of its ring whether they have the grain active; until the activation the
call is an attempt in the sense of `Exclusive`. Two calls that ask at the same time activate the
grain twice (`both_activate`).
-/

namespace Orlando

open List Node Silo

variable {S : Type}

/-! ## The directory of a silo and one grain -/

def Silo.Indexed (s : Silo S) : Prop :=
  ∀ gid i, s.activations.lookup gid = some i → i < s.tasks.length

structure Silo.Quiet (gid : GrainId) (s : Silo S) : Prop where
  indexed : s.Indexed
  calls : ∀ c ∈ s.calls, c.gid ≠ gid

namespace Silo

variable {s s' : Silo S} {gid gid' : GrainId} {e : SiloEvent S} {t : Task S}

theorem isSome_openTask_iff : (s.openTask gid).isSome = true ↔
    ∃ i t, s.activations.lookup gid = some i ∧ s.tasks[i]? = some t ∧ t.rxDropped = false := by
  rw [Option.isSome_iff_exists]
  exact ⟨fun ⟨p, hp⟩ => ⟨p.1, p.2, openTask_eq_some.mp hp⟩,
    fun ⟨i, t, h⟩ => ⟨(i, t), openTask_eq_some.mpr h⟩⟩

theorem isSome_openTask_of_set {i t t'}
    (ha : ∀ j, s'.activations.lookup gid = some j → s.activations.lookup gid = some j)
    (hi : s.tasks[i]? = some t) (ht : s'.tasks = s.tasks.set i t')
    (hrx : t.rxDropped = true → t'.rxDropped = true) (h : (s'.openTask gid).isSome = true) :
    (s.openTask gid).isSome = true := by
  obtain ⟨j, u, hl, hj, hu⟩ := isSome_openTask_iff.mp h
  rw [isSome_openTask_iff]
  rw [ht, getElem?_set] at hj
  split_ifs at hj with hij hlt
  · subst hij
    cases hj
    refine ⟨i, t, ha i hl, hi, ?_⟩
    by_contra hrx'
    rw [hrx (by simpa using hrx')] at hu
    cases hu
  · exact ⟨j, u, ha j hl, hj, hu⟩

theorem isSome_openTask_of_spawn (hs : s.Quiet gid) (hne : gid' ≠ gid)
    (ha : s'.activations = s.activations.insert gid' s.tasks.length)
    (ht : s'.tasks = s.tasks ++ [t]) (h : (s'.openTask gid).isSome = true) :
    (s.openTask gid).isSome = true := by
  obtain ⟨j, u, hl, hj, hu⟩ := isSome_openTask_iff.mp h
  rw [ha, AList.lookup_insert_ne hne.symm] at hl
  rw [ht, getElem?_append_left (hs.indexed gid j hl)] at hj
  exact isSome_openTask_iff.mpr ⟨j, u, hl, hj, hu⟩

theorem Step.isSome_openTask (hst : Step s s' e) (hs : s.Quiet gid)
    (h : (s'.openTask gid).isSome = true) : (s.openTask gid).isSome = true := by
  cases hst with
  | idle ha ht =>
    obtain ⟨j, u, hl, hj, hu⟩ := isSome_openTask_iff.mp h
    exact isSome_openTask_iff.mpr ⟨j, u, ha ▸ hl, ht ▸ hj, hu⟩
  | channel hi queue refs ha ht =>
    exact isSome_openTask_of_set (fun j hj => ha ▸ hj) hi ht (fun hrx => hrx) h
  | mailbox he hi hab hst queue ha ht =>
    refine isSome_openTask_of_set (fun j hj => ?_) hi ht
      (fun hrx => Task.rxDropped_of_step hst hrx queue) h
    rw [ha] at hj
    exact lookup_of_afterMailbox hj
  | spawn hk ho ha ht => exact isSome_openTask_of_spawn hs (hs.calls _ (mem_of_getElem? hk)) ha ht h
  | detach hl hi ha ht =>
    exact isSome_openTask_of_set (fun j hj => lookup_of_erase (ha ▸ hj)) hi ht (fun hrx => hrx) h
  | abort hi hd ha ht => exact isSome_openTask_of_set (fun j hj => ha ▸ hj) hi ht (fun _ => rfl) h
  | restart ha =>
    obtain ⟨j, u, hl, -⟩ := isSome_openTask_iff.mp h
    rw [ha] at hl
    cases hl

theorem Indexed.spawn (hs : s.Indexed)
    (ha : s'.activations = s.activations.insert gid' s.tasks.length)
    (ht : s'.tasks = s.tasks ++ [t]) : s'.Indexed := by
  intro gid i hl
  rw [ht, length_append, length_singleton]
  rw [ha] at hl
  rcases lookup_insert_cases hl with ⟨-, rfl⟩ | ⟨-, hl⟩
  · omega
  · have := hs gid i hl
    omega

theorem Step.indexed (hstep : Step s s' e) (hs : s.Indexed) : s'.Indexed := by
  cases hstep with
  | idle ha ht => exact fun gid i hl => ht ▸ hs gid i (ha ▸ hl)
  | spawn _ _ ha ht => exact hs.spawn ha ht
  | channel _ _ _ ha ht | abort _ _ ha ht =>
    intro gid i hl
    rw [ht, length_set]
    exact hs gid i (ha ▸ hl)
  | mailbox _ _ _ _ _ ha ht =>
    intro gid i hl
    rw [ht, length_set]
    exact hs gid i (lookup_of_afterMailbox (ha ▸ hl))
  | detach _ _ ha ht =>
    intro gid i hl
    rw [ht, length_set]
    exact hs gid i (lookup_of_erase (ha ▸ hl))
  | restart ha =>
    intro gid i hl
    rw [ha] at hl
    cases hl

theorem Quiet.step (h : s.Quiet gid) (he : ∀ kind, e ≠ .getOrInsert gid kind)
    (hs : s.step e = some s') : s'.Quiet gid where
  indexed := (step_sound hs).indexed h.indexed
  calls c hc := by
    rcases mem_calls_of_step hs hc with ⟨c₀, hc₀, hgid, -⟩ | hget
    · exact hgid ▸ h.calls c₀ hc₀
    · intro hgid
      exact he c.kind (hgid ▸ hget)

theorem Quiet.activate (h : s.Quiet gid) (gid' kind) :
    (s.activate gid' kind).2.Quiet gid ∧ (gid' ≠ gid →
      ((s.activate gid' kind).2.openTask gid).isSome = true → (s.openTask gid).isSome = true) := by
  unfold Silo.activate
  split
  · -- A sender more of the open task.
    have hs : Step s (s.existing gid') .startDrain := step_existing (s.existing gid').calls
    have hcalls : (s.existing gid').calls = s.calls := by
      unfold existing
      split <;> rfl
    exact ⟨⟨hs.indexed h.indexed, hcalls ▸ h.calls⟩, fun _ => hs.isSome_openTask h⟩
  · split
    · exact ⟨h, fun _ => id⟩
    · exact ⟨⟨h.indexed.spawn rfl rfl, h.calls⟩, fun hne => isSome_openTask_of_spawn h hne rfl rfl⟩

end Silo

/-! ## Calls between their check and their dispatch -/

def Node.others (node : Node S) : List SiloAddress :=
  node.ring.members.filter fun m => m.siloId ≠ node.localAddr.siloId

def CallPhase.attempting : CallPhase S → Bool
  | .looking _ | .dispatching => true
  | _ => false

def GrainCall.attempt (listens : String → Option ℕ) (c : GrainCall S) : Attempt ℕ where
  party := c.node
  awaits := { m | ∃ members, c.phase = .looking members ∧
    ∃ member ∈ members, listens member.endpoint = some m }

/-- A step that does not get a reference to the grain, and whose lookups are answered. -/
def ClusterEvent.Spares (gid : GrainId) : ClusterEvent S → Prop
  | .silo _ (.getOrInsert gid' _) => gid' ≠ gid
  | .ctxGetRef _ _ G key | .getRef _ G key _ => G.id key ≠ gid
  | .call _ (.answer _ reached) => reached = true
  | _ => True

namespace Cluster

variable {u v : Cluster S} {gid : GrainId} {n j : ℕ} {node node' : Node S} {e : ClusterEvent S}
  {c : GrainCall S}

def live (u : Cluster S) (gid : GrainId) (n : ℕ) : Bool :=
  u.nodes[n]?.any fun node => (node.silo.openTask gid).isSome

def attempts (u : Cluster S) (gid : GrainId) : Set (Attempt ℕ) :=
  { x | ∃ c ∈ u.calls, c.req.gid = gid ∧ c.phase.attempting = true ∧ x = c.attempt u.nodeAt }

/-- A call begins its check while none for the grain is between check and dispatch on another silo,
with the grain active here or on a silo of the ring. -/
def checksAlone (gid : GrainId) (u : Cluster S) : ClusterEvent S → Bool
  | .call j .advance =>
    match u.calls[j]? with
    | some c =>
      match c.phase, u.nodes[c.node]? with
      | .owned, some node => c.req.gid != gid ||
        ((u.calls.all fun c' => c'.req.gid != gid || !c'.phase.attempting || c'.node == c.node) &&
          (u.live gid c.node || (List.range u.nodes.length).all fun m =>
            !u.live gid m || node.others.any fun a => u.nodeAt a.endpoint == some m))
      | _, _ => true
    | none => true
  | _ => true

/-- One silo has the grain active at most, and no call under way can make another one
activate it. -/
structure Sole (gid : GrainId) (u : Cluster S) : Prop where
  exclusive : Exclusive (fun n => u.live gid n = true) (u.attempts gid)
  quiet : ∀ node ∈ u.nodes, node.silo.Quiet gid
  registered : ∀ node ∈ u.nodes, (node.silo.openTask gid).isSome = true →
    node.registry.grainTypeStr gid.typeName = some gid.typeName

theorem live_eq_true : u.live gid n = true ↔
    ∃ node, u.nodes[n]? = some node ∧ (node.silo.openTask gid).isSome = true := by
  unfold live
  cases u.nodes[n]? <;> simp

theorem live_set (hv : v.nodes = u.nodes.set n node') {m} (h : v.live gid m = true) :
    u.live gid m = true ∨ (m = n ∧ (node'.silo.openTask gid).isSome = true) := by
  obtain ⟨q, hq, hopen⟩ := live_eq_true.mp h
  rw [hv, getElem?_set] at hq
  split_ifs at hq with hnm hlt
  · cases hq
    exact .inr ⟨hnm.symm, hopen⟩
  · exact .inl (live_eq_true.mpr ⟨q, hq, hopen⟩)

theorem nodeAt_step (h : u.step e = some v) : v.nodeAt = u.nodeAt := by
  have haddr : v.nodes.map localAddr = u.nodes.map localAddr := by
    refine ext_getElem? fun n => ?_
    rw [getElem?_map, getElem?_map]
    exact congrFun (addr_step h) n
  funext endpoint
  have hat : ∀ w : Cluster S, w.nodeAt endpoint =
      (w.nodes.map localAddr).findIdx? fun a => a.endpoint == endpoint := by
    intro w
    rw [findIdx?_map]
    rfl
  rw [hat, hat, haddr]

theorem attempts_subset (hat : v.nodeAt = u.nodeAt)
    (hcalls : ∀ c ∈ v.calls, c.phase.attempting = true → c ∈ u.calls) :
    v.attempts gid ⊆ u.attempts gid := by
  rintro x ⟨c, hc, hgid, hp, rfl⟩
  exact ⟨c, hcalls c hc hp, hgid, hp, by rw [hat]⟩

theorem attempts_insert (hat : v.nodeAt = u.nodeAt) {c'}
    (hcalls : ∀ c ∈ v.calls, c ∈ u.calls ∨ c = c') :
    v.attempts gid ⊆ insert (c'.attempt u.nodeAt) (u.attempts gid) := by
  rintro x ⟨c, hc, hgid, hphase, rfl⟩
  rw [hat]
  rcases hcalls c hc with hc | rfl
  · exact .inr ⟨c, hc, hgid, hphase, rfl⟩
  · exact .inl rfl

namespace Sole

section

variable (h : u.Sole gid)
include h

theorem set (hv : v.nodes = u.nodes.set n node') (hquiet : node'.silo.Quiet gid)
    (hreg : (node'.silo.openTask gid).isSome = true → node'.registry.grainTypeStr gid.typeName =
      some gid.typeName) (hex : Exclusive (fun n => v.live gid n = true) (v.attempts gid)) :
    v.Sole gid where
  exclusive := hex
  quiet q hq := by
    rcases mem_or_eq_of_mem_set (hv ▸ hq) with hm | rfl
    · exact h.quiet q hm
    · exact hquiet
  registered q hq hopen := by
    rcases mem_or_eq_of_mem_set (hv ▸ hq) with hm | rfl
    · exact h.registered q hm hopen
    · exact hreg hopen

theorem run (hn : u.nodes[n]? = some node) (hv : v.nodes = u.nodes.set n node')
    (hreg : node'.registry = node.registry) (hquiet : node'.silo.Quiet gid)
    (hopen : (node'.silo.openTask gid).isSome = true → (node.silo.openTask gid).isSome = true)
    (hex : Exclusive (fun n => u.live gid n = true) (v.attempts gid)) : v.Sole gid := by
  refine h.set hv hquiet (fun ho => hreg ▸ h.registered node (mem_of_getElem? hn) (hopen ho))
    (hex.mono (fun m hm => ?_) subset_rfl)
  rcases live_set hv hm with hm | ⟨rfl, ho⟩
  · exact hm
  · exact live_eq_true.mpr ⟨node, hn, hopen ho⟩

theorem activate {gid' kind} (hn : u.nodes[n]? = some node)
    (hv : v.nodes = u.nodes.set n { node with silo := (node.silo.activate gid' kind).2 })
    (hne : gid' ≠ gid) (hex : Exclusive (fun n => u.live gid n = true) (v.attempts gid)) :
    v.Sole gid := by
  obtain ⟨hquiet, hopen⟩ := (h.quiet node (mem_of_getElem? hn)).activate gid' kind
  exact h.run hn hv rfl hquiet (hopen hne) hex

theorem of_nodes (hv : v.nodes = u.nodes)
    (hcalls : ∀ c ∈ v.calls, c.phase.attempting = true → c ∈ u.calls) : v.Sole gid where
  exclusive := by
    refine h.exclusive.mono (fun m hm => ?_) (attempts_subset ?_ hcalls)
    · unfold live at hm ⊢
      rwa [hv] at hm
    · unfold nodeAt
      rw [hv]
  quiet := hv ▸ h.quiet
  registered := hv ▸ h.registered

theorem addCall {c} (hc : c.phase.attempting = false) :
    ({ u with calls := u.calls ++ [c] } : Cluster S).Sole gid := by
  refine h.of_nodes rfl fun c' hc' hp => ?_
  rcases mem_append.mp hc' with hmem | hnew
  · exact hmem
  · rw [mem_singleton.mp hnew, hc] at hp
    cases hp

theorem lookupGrain_ne_none {member req} (hgid : req.gid = gid)
    {m} (hat : u.nodeAt member.endpoint = some m) (hm : u.live gid m = true) :
    u.lookupGrain member req ≠ none := by
  obtain ⟨node, hn, hopen⟩ := live_eq_true.mp hm
  have hreg := h.registered node (mem_of_getElem? hn) hopen
  subst hgid
  have hact : node.isActive req.grainType req.grainKey = true := by
    unfold isActive
    rw [show node.registry.grainTypeStr req.grainType = some req.grainType from hreg]
    exact hopen
  simp [lookupGrain, hat, hn, hact]

end

end Sole

theorem receive_attempting (node : Node S) (req) : (node.receive req).attempting = false := by
  unfold receive forwardCall
  repeat' split
  all_goals rfl

theorem dispatch_attempting (node : Node S) (req) : (node.dispatch req).1.attempting = false := by
  unfold dispatch
  repeat' split
  all_goals rfl

theorem forward_attempting (req refusal endpoint) :
    (forwardCall req refusal endpoint : CallPhase S).attempting = false := by
  unfold forwardCall
  split <;> rfl

theorem dispatch_quiet (h : node.silo.Quiet gid) (req) :
    (node.dispatch req).2.Quiet gid ∧
      (((node.dispatch req).2.openTask gid).isSome = true → (node.silo.openTask gid).isSome = true ∨
        (req.gid = gid ∧ node.registry.grainTypeStr req.grainType = some req.grainType)) := by
  unfold dispatch
  split
  · exact ⟨h, .inl⟩
  · rename_i G env hd
    have hid : G.id req.grainKey = req.gid := by
      rw [GrainType.id, grainTypeName_of_dispatch hd]
      rfl
    obtain ⟨hquiet, hopen⟩ := h.activate (G.id req.grainKey) (.plain G.grain)
    have hcases : ((node.silo.activate (G.id req.grainKey) (.plain G.grain)).2.openTask
        gid).isSome = true → (node.silo.openTask gid).isSome = true ∨
          (req.gid = gid ∧ node.registry.grainTypeStr req.grainType = some req.grainType) := by
      intro ho
      by_cases hgid : req.gid = gid
      · exact .inr ⟨hgid, grainTypeStr_of_dispatch hd⟩
      · exact .inl (hopen (hid ▸ hgid) ho)
    split <;> rename_i hact <;> rw [hact] at hquiet hcases <;> exact ⟨hquiet, hcases⟩

theorem mem_attempts (hc : u.calls[j]? = some c) (hgid : c.req.gid = gid)
    (hphase : c.phase.attempting = true) : c.attempt u.nodeAt ∈ u.attempts gid :=
  ⟨c, mem_of_getElem? hc, hgid, hphase, rfl⟩

theorem checksAlone_owned (h : u.checksAlone gid (.call j .advance) = true)
    (hc : u.calls[j]? = some c) (hn : u.nodes[c.node]? = some node) (hp : c.phase = .owned)
    (hgid : c.req.gid = gid) :
    (∀ x ∈ u.attempts gid, x.party = c.node) ∧ (u.live gid c.node = true ∨
      ∀ m, u.live gid m = true → ∃ a ∈ node.others, u.nodeAt a.endpoint = some m) := by
  simp only [checksAlone, hc, hp, hn, hgid, bne_self_eq_false, Bool.false_or, Bool.and_eq_true,
    Bool.or_eq_true, all_eq_true, any_eq_true, mem_range, beq_iff_eq, bne_iff_ne,
    Bool.not_eq_true'] at h
  refine ⟨?_, h.2.imp_right fun hlisted m hm => ?_⟩
  · rintro x ⟨d, hd, hdgid, hphase, rfl⟩
    have hnode : d.node = c.node := by simpa [hdgid, hphase] using h.1 d hd
    exact hnode
  · obtain ⟨q, hq, -⟩ := live_eq_true.mp hm
    have := hlisted m (lt_of_getElem? hq)
    simpa [hm] using this

theorem live_of_isActive {req : InvokeRequest} (hn : u.nodes[n]? = some node)
    (h : node.isActive req.grainType req.grainKey = true) : u.live req.gid n = true := by
  refine live_eq_true.mpr ⟨node, hn, ?_⟩
  unfold isActive at h
  split at h
  · rename_i typeName hname
    rwa [grainTypeStr_eq_some hname] at h
  · cases h

theorem Sole.callMove (h : u.Sole gid) {c c'} {e : CallEvent} {silo} (hc : u.calls[j]? = some c)
    (hn : u.nodes[c.node]? = some node) (he : (ClusterEvent.call (S := S) j e).Spares gid)
    (halone : u.checksAlone gid (.call j e) = true) (hmove : u.CallMove c node e silo c')
    (hat : v.nodeAt = u.nodeAt) (hns : v.nodes = u.nodes.set c.node { node with silo := silo })
    (hcalls : v.calls = u.calls.set j c') : v.Sole gid := by
  have hquiet := h.quiet node (mem_of_getElem? hn)
  have hset : ∀ d ∈ v.calls, d ∈ u.calls ∨ d = c' := fun d hd =>
    mem_or_eq_of_mem_set (hcalls ▸ hd)
  -- The attempts of a call that is none any more, or is for another grain.
  have hover : (c'.req.gid = gid → c'.phase.attempting = false) →
      v.attempts gid ⊆ u.attempts gid := by
    rintro hc' x ⟨d, hd, hgid, hph, rfl⟩
    rcases hset d hd with hd | rfl
    · exact ⟨d, hd, hgid, hph, by rw [hat]⟩
    · rw [hc' hgid] at hph
      cases hph
  have hstay : c'.phase.attempting = false → silo = node.silo → v.Sole gid := by
    rintro hph rfl
    exact h.run hn hns rfl hquiet id (h.exclusive.mono (fun _ => id) (hover fun _ => hph))
  -- The attempt of a call that goes on with it.
  have hattempt : silo = node.silo → (c'.req.gid = gid → Exclusive (fun n => u.live gid n = true)
      (insert (c'.attempt u.nodeAt) (u.attempts gid))) → v.Sole gid := by
    rintro rfl hex
    refine h.run hn hns rfl hquiet id ?_
    by_cases hgid : c'.req.gid = gid
    · exact (hex hgid).mono (fun _ => id) (attempts_insert hat hset)
    · exact h.exclusive.mono (fun _ => id) (hover fun hgid' => absurd hgid' hgid)
  cases hmove with
  | receive => exact hstay (receive_attempting node c.req) rfl
  | found => exact hstay (forward_attempting _ _ _) rfl
  | check hp =>
    refine hattempt rfl fun hgid => ?_
    obtain ⟨hparty, hlisted⟩ := checksAlone_owned halone hc hn hp hgid
    refine h.exclusive.start hparty fun m hm => ?_
    by_cases hlocal : u.live gid c.node = true
    · exact .inl (h.exclusive.one m c.node hm hlocal)
    · obtain ⟨a, ha, hma⟩ := hlisted.resolve_left hlocal m hm
      refine .inr ⟨node.others, ?_, a, ha, hma⟩
      have hact : node.isActive c.req.grainType c.req.grainKey ≠ true := fun hact =>
        hlocal (hgid ▸ live_of_isActive hn hact)
      exact if_neg hact
  | looked hp =>
    refine hattempt rfl fun hgid => ?_
    refine h.exclusive.answered (mem_attempts hc hgid (hp ▸ rfl)) ?_
    rintro m - ⟨members, hms, a, ha, -⟩
    obtain rfl := CallPhase.looking.inj (hp.symm.trans hms)
    cases ha
  | @absent members k member reached hp hk hnone =>
    refine hattempt rfl fun hgid => ?_
    refine h.exclusive.answered (mem_attempts hc hgid (hp ▸ rfl)) ?_
    rintro m hm ⟨members', hms, a, ha, hma⟩
    obtain rfl := CallPhase.looking.inj (hp.symm.trans hms)
    refine ⟨_, rfl, a, ?_, hma⟩
    obtain ⟨i, hi⟩ := getElem?_of_mem ha
    refine mem_eraseIdx_iff_getElem?.mpr ⟨i, ?_, hi⟩
    -- The silo that answered does not have the grain active.
    rintro rfl
    cases hk.symm.trans hi
    exact h.lookupGrain_ne_none hgid hma hm (hnone he)
  | dispatch hp =>
    obtain ⟨hquiet', hopen⟩ := dispatch_quiet hquiet c.req
    have hsub := hover fun _ => dispatch_attempting node c.req
    by_cases hgid : c.req.gid = gid
    · have hmem := mem_attempts hc hgid (hp ▸ rfl)
      refine h.set hns hquiet' (fun ho => ?_) ((h.exclusive.act hmem ?_ fun m hm => ?_).mono
        (fun _ => id) hsub)
      · rcases hopen ho with ho | ⟨-, hreg⟩
        · exact h.registered node (mem_of_getElem? hn) ho
        · rw [← hgid]
          exact hreg
      · rintro m - ⟨members, hms, -⟩
        rw [hp] at hms
        cases hms
      · exact (live_set hns hm).imp_right And.left
    · refine h.run hn hns rfl hquiet' (fun ho => ?_) (h.exclusive.mono (fun _ => id) hsub)
      exact (hopen ho).resolve_right fun hreg => hgid hreg.1
  | @deliver i env t silo hp hi hrx hsend =>
    refine h.run hn hns rfl (hquiet.step (by simp) hsend)
      ((step_sound hsend).isSome_openTask hquiet)
      (h.exclusive.mono (fun _ => id) (hover fun _ => rfl))
  | _ => exact hstay rfl rfl

theorem Sole.step (h : u.Sole gid) (he : e.Spares gid) (halone : u.checksAlone gid e = true)
    (hs : u.step e = some v) : v.Sole gid := by
  have hat := nodeAt_step hs
  have hkeep : v.calls = u.calls → Exclusive (fun n => u.live gid n = true) (v.attempts gid) :=
    fun hcalls => h.exclusive.mono (fun _ => id) (attempts_subset hat fun c hc _ => hcalls ▸ hc)
  cases move_of_step hs with
  | @silo n e node silo hn hsilo =>
    have hquiet := h.quiet node (mem_of_getElem? hn)
    refine h.run hn rfl rfl (hquiet.step ?_ hsilo)
      ((step_sound hsilo).isSome_openTask hquiet) (hkeep rfl)
    rintro kind rfl
    exact he rfl
  | @setRing n node ring hn =>
    exact h.run hn rfl rfl (h.quiet node (mem_of_getElem? hn)) id (hkeep rfl)
  | ctxGetRef _ _ hn => exact h.activate hn rfl he (hkeep rfl)
  | getLocal hn => exact h.activate hn rfl he (hkeep rfl)
  | getRemote | askNowhere => exact h.of_nodes rfl fun _ hc _ => hc
  | call hc hn hmove => exact h.callMove hc hn he halone hmove hat rfl rfl
  | _ => exact h.addCall rfl

theorem Idle.sole (h : u.Idle) (gid) : u.Sole gid where
  exclusive := by
    refine .of_none (fun n hn => ?_) (fun x hx => ?_)
    · obtain ⟨node, hnode, hopen⟩ := live_eq_true.mp hn
      obtain ⟨i, t, hl, -⟩ := isSome_openTask_iff.mp hopen
      rw [h.activations node (mem_of_getElem? hnode)] at hl
      cases hl
    · obtain ⟨c, hc, -⟩ := hx
      rw [h.calls] at hc
      cases hc
  quiet node hn := by
    refine ⟨fun gid i hl => ?_, by simp [h.siloCalls node hn]⟩
    rw [h.activations node hn] at hl
    cases hl
  registered node hn hopen := by
    obtain ⟨i, t, hl, -⟩ := isSome_openTask_iff.mp hopen
    rw [h.activations node hn] at hl
    cases hl

/-- No two silos have a live activation of a grain if calls begin their check while none for the
grain is between check and dispatch elsewhere, with a ring that lists the silo that has it. -/
theorem live_unique_of_run (gid : GrainId) (u v : Cluster S) (es : List (ClusterEvent S))
    (hu : u.Idle) (hes : ∀ e ∈ es, e.Spares gid)
    (halone : Along Cluster.step (fun w e => w.checksAlone gid e = true) u es)
    (hrun : exec Cluster.step u es = some v) :
    ∀ n m, v.live gid n = true → v.live gid m = true → n = m :=
  (exec_invariant (fun _ _ _ he h hstep => Sole.step h he.1 he.2 hstep) (hu.sole gid)
    (Along.and_forall hes halone) hrun).exclusive.one

def ringBefore : HashRing := (HashRing.new 1).add siloA

/-- Call `j` on a silo that takes itself for the owner and asks `k` others, up to its
dispatch. -/
def askingCall (j k : ℕ) : List (ClusterEvent UInt8) :=
  List.replicate 2 (.call j .advance) ++ List.replicate k (.call j (.answer 0 true)) ++
    List.replicate 2 (.call j .advance)

/-- The counter is called on the second silo before the first has heard of it, and on the
first afterwards. -/
def joinedCalls : List (ClusterEvent UInt8) :=
  [.setRing 0 ringBefore, .invoke 1 ((addCall 1).request counterGrain "k")] ++ askingCall 0 1 ++
    [.setRing 0 twoRing, .invoke 0 ((addCall 2).request counterGrain "k")] ++
    List.replicate 5 (.call 1 .advance)

theorem live_unique_of_run_joined :
    ∃ v, exec Cluster.step twoSilos joinedCalls = some v ∧
      v.live (counterGrain.id "k") 1 = true ∧
      ∀ n, v.live (counterGrain.id "k") n = true → n = 1 := by
  have hes : ∀ e ∈ joinedCalls, e.Spares (counterGrain.id "k") := by
    simp [joinedCalls, askingCall, ClusterEvent.Spares]
  have halone : Along Cluster.step (fun w e => w.checksAlone (counterGrain.id "k") e = true)
      twoSilos joinedCalls := by
    decide +kernel
  have hrun : ((exec Cluster.step twoSilos joinedCalls).map fun v =>
      v.live (counterGrain.id "k") 1) = some true := by
    decide +kernel
  obtain ⟨v, hv, hlive⟩ := Option.map_eq_some_iff.mp hrun
  exact ⟨v, hv, hlive, fun n hn => live_unique_of_run (counterGrain.id "k") twoSilos v
    joinedCalls fresh_two.toIdle hes halone hv n 1 hn hlive⟩

def racingCalls : List (ClusterEvent UInt8) :=
  [.setRing 0 ringBefore, .invoke 1 ((addCall 1).request counterGrain "k"),
    .invoke 0 ((addCall 2).request counterGrain "k"), .call 0 .advance, .call 0 .advance,
    .call 0 (.answer 0 true)] ++ askingCall 1 0 ++ List.replicate 2 (.call 0 .advance)

/-- The call on the first silo comes when the second has the counter active. -/
def unlistedCalls : List (ClusterEvent UInt8) :=
  [.setRing 0 ringBefore, .invoke 1 ((addCall 1).request counterGrain "k")] ++ askingCall 0 1 ++
    [.invoke 0 ((addCall 2).request counterGrain "k")] ++ askingCall 1 0

/-- The first silo has not heard of the second, and both take themselves for the owner : both
activate the counter, whoever asks first. -/
theorem both_activate : twoSilos.Idle ∧ ∀ es ∈ [racingCalls, unlistedCalls],
    (∀ e ∈ es, e.Spares (counterGrain.id "k")) ∧ ∃ v, exec Cluster.step twoSilos es = some v ∧
      v.live (counterGrain.id "k") 0 = true ∧ v.live (counterGrain.id "k") 1 = true := by
  have hrun : ∀ es ∈ [racingCalls, unlistedCalls], ((exec Cluster.step twoSilos es).map fun v =>
      (v.live (counterGrain.id "k") 0, v.live (counterGrain.id "k") 1)) = some (true, true) := by
    decide +kernel
  refine ⟨fresh_two.toIdle, fun es hes => ⟨?_, ?_⟩⟩
  · simp only [mem_cons, not_mem_nil, or_false] at hes
    rcases hes with rfl | rfl
    · simp [racingCalls, askingCall, ClusterEvent.Spares]
    · simp [unlistedCalls, askingCall, ClusterEvent.Spares]
  · obtain ⟨v, hv, hlive⟩ := Option.map_eq_some_iff.mp (hrun es hes)
    exact ⟨v, hv, congrArg Prod.fst hlive, congrArg Prod.snd hlive⟩

end Cluster

end Orlando
