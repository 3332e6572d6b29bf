import Orlando.HandlerRefs
import Orlando.RingMembers
import Orlando.SiloTasks

/-!
# Calls under one ring

In a cluster whose silos all hold one ring, and whose grains are placed by it, every grain has one
silo (`Cluster.Owner`). Activations are made there only, by references and by calls, and a call gets
there with one hop at most (`Cluster.Stable`, `GrainCall.Placed`). A call that comes with three hops
is rejected by a silo that is not the owner (`forwarded_before`).
-/

namespace Orlando

open List Option CallPhase ClusterEvent Node AList HashRing

variable {S : Type}

/-! ## The grains of a silo -/

structure Silo.Serves (Q : GrainId → Prop) (s : Silo S) : Prop where
  tasks : ∀ t ∈ s.tasks, Q t.gid
  entries : ∀ gid ∈ s.activations, Q gid
  calls : ∀ c ∈ s.calls, Q c.gid

namespace Silo.Serves

variable {Q : GrainId → Prop} {s s' : Silo S} {gid : GrainId}

theorem of_tasks_eq_nil (ht : s.tasks = []) (ha : s.activations = ∅) (hc : s.calls = []) :
    s.Serves Q :=
  ⟨by simp [ht], by simp [ha], by simp [hc]⟩

theorem step (h : s.Serves Q) {e} (he : ∀ gid kind, e ≠ .getOrInsert gid kind)
    (hs : s.step e = some s') : s'.Serves Q where
  tasks t ht := by
    rcases (Silo.step_sound hs).mem_tasks ht with ⟨t₀, ht₀, hgid, -⟩ | ⟨k, -, hk, -⟩
    · exact hgid ▸ h.tasks t₀ ht₀
    · exact h.calls _ (mem_of_getElem? hk)
  entries gid hgid := by
    cases Silo.step_sound hs with
    | idle ha | channel _ _ _ ha | abort _ _ ha => exact h.entries gid (ha ▸ hgid)
    | @mailbox _ i t ev _ _ _ _ _ _ _ ha =>
      rw [ha] at hgid
      cases ev with
      | remove => exact h.entries gid (mem_erase.mp hgid).2
      | _ => exact h.entries gid hgid
    | spawn hk _ ha =>
      rw [ha, mem_insert] at hgid
      rcases hgid with rfl | hgid
      · exact h.calls _ (mem_of_getElem? hk)
      · exact h.entries gid hgid
    | detach _ _ ha =>
      rw [ha] at hgid
      exact h.entries gid (mem_erase.mp hgid).2
    | restart ha =>
      rw [ha] at hgid
      exact absurd hgid (notMem_empty gid)
  calls c hc := by
    rcases Silo.mem_calls_of_step hs hc with ⟨c₀, hc₀, hgid, -⟩ | hget
    · exact hgid ▸ h.calls c₀ hc₀
    · exact absurd hget (he _ _)

theorem existing (h : s.Serves Q) (gid) : (s.existing gid).Serves Q := by
  unfold Silo.existing
  cases ho : s.openTask gid with
  | none => exact h
  | some p =>
    obtain ⟨-, hi, -⟩ := Silo.openTask_eq_some.mp ho
    refine ⟨fun t ht => ?_, h.entries, h.calls⟩
    rcases mem_or_eq_of_mem_set ht with hmem | rfl
    · exact h.tasks t hmem
    · exact h.tasks p.2 (mem_of_getElem? hi)

theorem activate (h : s.Serves Q) (hgid : Q gid) (kind) : (s.activate gid kind).2.Serves Q := by
  unfold Silo.activate
  split
  · exact h.existing gid
  · split
    · exact h
    · refine ⟨fun t ht => ?_, fun gid' hgid' => ?_, h.calls⟩
      · rcases mem_append.mp ht with hm | hnew
        · exact h.tasks t hm
        · exact mem_singleton.mp hnew ▸ hgid
      · rcases (mem_insert _).mp hgid' with rfl | hm
        · exact hgid
        · exact h.entries gid' hm

end Silo.Serves

theorem HashRing.exists_get {r : HashRing} (hr : r.isEmpty = false) (key) :
    ∃ a, r.get key = some a := by
  have hne : r.ring.isEmpty = false := hr
  unfold OrderedMap.isEmpty at hne
  cases hentries : r.ring.entries with
  | nil => simp [hentries] at hne
  | cons e es =>
    have hfirst : r.ring.first = some e := by simp [OrderedMap.first, hentries]
    cases hceil : r.ring.ceiling (hashKey key) with
    | none => exact ⟨e.2, by simp [HashRing.get, OrderedMap.isEmpty, hentries, hceil, hfirst]⟩
    | some e' => exact ⟨e'.2, by simp [HashRing.get, OrderedMap.isEmpty, hentries, hceil]⟩

/-! ## Owners -/

def InvokeRequest.gid (req : InvokeRequest) : GrainId :=
  ⟨req.grainType, req.grainKey⟩

def HashRing.owner (r : HashRing) (gid : GrainId) : Option SiloAddress :=
  r.get (ringKey gid.typeName gid.key)

variable {r : HashRing} {u v w : Cluster S} {node : Node S}

namespace Cluster

variable {i j k n m : ℕ} {gid : GrainId} {a : SiloAddress}

def addr (u : Cluster S) (n : ℕ) : Option SiloAddress :=
  (u.nodes[n]?).map Node.localAddr

theorem isSome_addr : (u.addr n).isSome = true ↔ n < u.nodes.length := by
  simp [addr]

def Owner (addr : ℕ → Option SiloAddress) (r : HashRing) (n : ℕ) (gid : GrainId) : Prop :=
  ∃ a, r.owner gid = some a ∧ addr n = some a

theorem addr_step {e} (h : u.step e = some v) : v.addr = u.addr := by
  funext n
  rcases step_nodes h with heq | ⟨m, node, node', hm, hruns, -, heq⟩
  · rw [addr, addr, heq]
  · rw [addr, addr, heq, getElem?_set]
    split_ifs with hmn hlt
    · subst hmn
      rw [hm, map_some, map_some, hruns.localAddr]
    · subst hmn
      exact absurd (lt_of_getElem? hm) hlt
    · rfl

theorem addr_run {es} (h : exec step u es = some v) : v.addr = u.addr :=
  exec_invariant_of_step (I := fun w => w.addr = u.addr)
    (fun _ _ _ hw hs => (addr_step hs).trans hw) rfl h

theorem Owner.localAddr (h : Owner u.addr r n gid) (hn : u.nodes[n]? = some node) :
    r.owner gid = some node.localAddr := by
  obtain ⟨a, ha, haddr⟩ := h
  rw [addr, hn, map_some] at haddr
  rw [ha, ← haddr]

theorem Owner.isSome {addr : ℕ → Option SiloAddress} (h : Owner addr r n gid) :
    (addr n).isSome = true := by
  obtain ⟨a, -, haddr⟩ := h
  exact isSome_of_eq_some haddr

theorem owner_of_localAddr (hn : u.nodes[n]? = some node) (h : r.owner gid = some node.localAddr) :
    Owner u.addr r n gid :=
  ⟨_, h, by rw [addr, hn, map_some]⟩

theorem Shares.owner_of_siloId (h : u.Shares r) (hn : u.nodes[n]? = some node)
    (ha : r.owner gid = some a) (hid : a.siloId = node.localAddr.siloId) :
    Owner u.addr r n gid := by
  obtain ⟨m, node', hm, rfl⟩ := h.exists_node (mem_values_of_get ha)
  obtain rfl := h.siloId_inj m n node' node hm hn hid
  cases hm.symm.trans hn
  exact owner_of_localAddr hn ha

theorem Owner.unique (h : u.Shares r) (hn : Owner u.addr r n gid) (hm : Owner u.addr r m gid) :
    n = m := by
  have hnode := getElem?_eq_getElem (isSome_addr.mp hn.isSome)
  have hnode' := getElem?_eq_getElem (isSome_addr.mp hm.isSome)
  refine h.siloId_inj n m _ _ hnode hnode' ?_
  rw [some.inj ((hn.localAddr hnode).symm.trans (hm.localAddr hnode'))]

theorem Shares.owner_of_nodeAt (h : u.Shares r) (ha : r.owner gid = some a)
    (hat : u.nodeAt a.endpoint = some n) : Owner u.addr r n gid := by
  obtain ⟨m, node', hm, rfl⟩ := h.exists_node (mem_values_of_get ha)
  cases (h.nodeAt hm).symm.trans hat
  exact owner_of_localAddr hm ha

end Cluster

/-! ## Where calls and references are -/

open Cluster in
/-- What the phase of a call says about the silo it is on : from the owner check on this is
the owner, and before it a call has not been forwarded. -/
def CallPhase.Placed (addr : ℕ → Option SiloAddress) (r : HashRing) (n : ℕ) (req : InvokeRequest)
    (hops : ℕ) : CallPhase S → Prop
  | .received => Owner addr r n req.gid ∨ (hops = 0 ∧ req.hopCount < maxHops)
  | .forwarding endpoint =>
    hops = 0 ∧ ∃ a, r.owner req.gid = some a ∧ endpoint = a.endpoint
  | .looking members =>
    Owner addr r n req.gid ∧ ∀ m ∈ members, m ∈ r.ring.values ∧ r.owner req.gid ≠ some m
  | .owned | .dispatching | .calling _ _ | .done .closed | .done (.failed _) =>
    Owner addr r n req.gid
  | .done (.delivered n' _) => n' = n ∧ Owner addr r n req.gid
  | .done (.rejected (.invalidArgument _)) => maxPayloadSize < req.payload.length
  | .done (.rejected _) => False

/-- The call has been forwarded once at most, and is on the owner or on its way there. -/
structure GrainCall.Placed (addr : ℕ → Option SiloAddress) (r : HashRing) (c : GrainCall S) :
    Prop where
  node : (addr c.node).isSome = true
  hops : c.hops ≤ 1
  phase : c.phase.Placed addr r c.node c.req c.hops

/-- The message was decoded, or refused, by the registry of the silo. -/
def CallPhase.dispatched : CallPhase S → Bool
  | .calling _ _ | .done .closed | .done (.failed _) | .done (.delivered _ _) => true
  | _ => false

namespace GrainCall.Placed

variable {addr : ℕ → Option SiloAddress} {c : GrainCall S}

theorem owner (h : c.Placed addr r) (hc : c.phase.dispatched = true) :
    Cluster.Owner addr r c.node c.req.gid := by
  have hp := h.phase
  cases hph : c.phase with
  | calling =>
    rw [hph] at hp
    exact hp
  | done outcome =>
    rw [hph] at hp hc
    cases outcome with
    | delivered => exact hp.2
    | rejected => cases hc
    | _ => exact hp
  | _ =>
    rw [hph] at hc
    cases hc

theorem node_eq (h : c.Placed addr r) {n i} (hc : c.phase = .done (.delivered n i)) :
    n = c.node := by
  have hp := h.phase
  rw [hc] at hp
  exact hp.1

theorem oversized (h : c.Placed addr r) {status}
    (hc : c.phase = .done (.rejected status)) : maxPayloadSize < c.req.payload.length := by
  have hp := h.phase
  rw [hc] at hp
  cases status with
  | invalidArgument => exact hp
  | _ => exact absurd hp id

end GrainCall.Placed

open Cluster in
def Ref.Placed (addr : ℕ → Option SiloAddress) (r : HashRing) (ref : Ref S) : Prop :=
  match ref.inner with
  | .localRef n _ => Owner addr r n (ref.grainType.id ref.key)
  | .remoteRef endpoint =>
    ∃ a, r.owner (ref.grainType.id ref.key) = some a ∧ endpoint = a.endpoint

/-- A step of references and calls whose connections do not fail, in a cluster where
nothing else activates grains and no ring changes. -/
def ClusterEvent.Routine : ClusterEvent S → Prop
  | .silo _ (.getOrInsert _ _) | .setRing _ _ | .ctxGetRef _ _ _ _ | .call _ (.fail _) => False
  | .getRef _ G _ _ => G.HashPlaced
  | .invoke _ req => req.hopCount < maxHops
  | .call _ (.answer _ reached) => reached = true
  | .silo _ _ | .ask _ _ | .call _ .advance => True

namespace Cluster

variable {i j k n : ℕ} {gid : GrainId} {req : InvokeRequest}

/-- The silos serve the grains that the ring gives them, and references and calls lead
there. -/
structure Stable (r : HashRing) (u : Cluster S) : Prop where
  shares : u.Shares r
  serves : ∀ (n : ℕ) (node : Node S), u.nodes[n]? = some node →
    node.silo.Serves fun gid => r.owner gid = some node.localAddr
  refs : ∀ ref ∈ u.refs, ref.Placed u.addr r
  calls : ∀ c ∈ u.calls, c.Placed u.addr r

theorem mem_activations_of_isActive {grainType grainKey}
    (h : node.isActive grainType grainKey = true) :
    (⟨grainType, grainKey⟩ : GrainId) ∈ node.silo.activations := by
  unfold isActive at h
  split at h
  · rename_i typeName hname
    obtain rfl := grainTypeStr_eq_some hname
    obtain ⟨p, hp⟩ := isSome_iff_exists.mp h
    obtain ⟨hl, -, -⟩ := Silo.openTask_eq_some.mp hp
    exact lookup_isSome.mp (isSome_of_eq_some hl)
  · cases h

section

variable (h : Stable r u) {req : InvokeRequest} {hops : ℕ}
include h

theorem Stable.owner_of_isActive (hn : u.nodes[n]? = some node)
    (hact : node.isActive req.grainType req.grainKey = true) :
    r.owner req.gid = some node.localAddr :=
  (h.serves n node hn).entries req.gid (mem_activations_of_isActive hact)

theorem Stable.lookupGrain_eq_none {m} (hm : m ∈ r.ring.values)
    (hne : r.owner req.gid ≠ some m) : u.lookupGrain m req = none := by
  obtain ⟨q, node, hq, rfl⟩ := h.shares.exists_node hm
  simp only [lookupGrain, h.shares.nodeAt hq, bind_some, hq]
  split_ifs with hact
  · exact absurd (h.owner_of_isActive hq hact) hne
  · rfl

theorem Stable.lookupGrain_of_placed {c : GrainCall S} (hc : c.Placed u.addr r)
    {members member} (hp : c.phase = .looking members)
    (hk : members[k]? = some member) : u.lookupGrain member c.req = none := by
  have hph := hc.phase
  rw [hp] at hph
  obtain ⟨hmem, hne⟩ := hph.2 member (mem_of_getElem? hk)
  exact h.lookupGrain_eq_none hmem hne

/-! ## Steps -/

theorem receive_placed (hr : r.isEmpty = false) (hn : u.nodes[n]? = some node)
    (hp : Owner u.addr r n req.gid ∨ (hops = 0 ∧ req.hopCount < maxHops)) :
    (node.receive req).Placed u.addr r n req hops := by
  obtain ⟨a, ha⟩ := exists_get hr (ringKey req.grainType req.grainKey)
  have howner := ha
  unfold receive findOwner
  rw [h.shares.ring_eq hn, ha]
  split_ifs with hsize
  · exact hsize
  · by_cases hid : a.siloId = node.localAddr.siloId
    · simp only [ne_eq, hid, not_true_eq_false, if_false]
      exact h.shares.owner_of_siloId hn howner hid
    · -- On another silo than the owner, the request has hops left.
      have hfirst : hops = 0 ∧ req.hopCount < maxHops := by
        refine hp.resolve_left fun hown => hid ?_
        rw [some.inj (howner.symm.trans (hown.localAddr hn))]
      simp only [ne_eq, hid, not_false_eq_true, if_true]
      rw [forwardCall, if_neg (Nat.not_le.mpr hfirst.2)]
      exact ⟨hfirst.1, a, howner, rfl⟩

theorem checkLocal_placed (hn : u.nodes[n]? = some node) (hown : Owner u.addr r n req.gid) :
    (node.checkLocal req).Placed u.addr r n req hops := by
  unfold checkLocal
  split_ifs
  · exact hown
  · refine ⟨hown, fun m hm => ?_⟩
    rw [h.shares.ring_eq hn] at hm
    obtain ⟨hmem, hid⟩ := mem_filter.mp hm
    refine ⟨mem_values_of_mem_members hmem, fun hm' => ?_⟩
    rw [hown.localAddr hn] at hm'
    simp [some.inj hm'] at hid

end

theorem dispatch_placed {hops} (hown : Owner u.addr r n req.gid) :
    (node.dispatch req).1.Placed u.addr r n req hops := by
  unfold dispatch
  split
  · exact hown
  · split <;> exact hown

theorem Silo.Serves.dispatch {Q : GrainId → Prop} (h : node.silo.Serves Q) (hgid : Q req.gid) :
    (node.dispatch req).2.Serves Q := by
  unfold Node.dispatch
  split
  · exact h
  · rename_i G env hd
    have hQ : Q (G.id req.grainKey) := by
      rw [GrainType.id, grainTypeName_of_dispatch hd]
      exact hgid
    have hact := h.activate hQ (.plain G.grain)
    split <;> rename_i hsilo <;> rwa [hsilo] at hact

section

variable (h : Stable r u) {silo : Silo S}
include h

theorem CallMove.placed (hr : r.isEmpty = false) {c c'} (hc : c.Placed u.addr r)
    (hn : u.nodes[c.node]? = some node) {e : CallEvent}
    (he : (call (S := S) j e).Routine) (hmove : u.CallMove c node e silo c') :
    c'.Placed u.addr r ∧ silo.Serves fun gid => r.owner gid = some node.localAddr := by
  obtain ⟨hnode, hhops, hph⟩ := id hc
  have hserves := h.serves _ _ hn
  cases hmove with
  | receive hp =>
    rw [hp] at hph
    exact ⟨⟨hnode, hhops, receive_placed h hr hn hph⟩, hserves⟩
  | forward hp hat =>
    rw [hp] at hph
    obtain ⟨hzero, a, ha, rfl⟩ := hph
    have hown := h.shares.owner_of_nodeAt ha hat
    exact ⟨⟨hown.isSome, by simp [hzero], Or.inl hown⟩, hserves⟩
  | fail => exact absurd he id
  | check hp =>
    rw [hp] at hph
    exact ⟨⟨hnode, hhops, checkLocal_placed h hn hph⟩, hserves⟩
  | looked hp =>
    rw [hp] at hph
    exact ⟨⟨hnode, hhops, hph.1⟩, hserves⟩
  | found hp hk hat =>
    rw [h.lookupGrain_of_placed hc hp hk] at hat
    cases hat
  | absent hp hk =>
    rw [hp] at hph
    exact ⟨⟨hnode, hhops, hph.1, fun m hm => hph.2 m (mem_of_mem_eraseIdx hm)⟩, hserves⟩
  | dispatch hp =>
    rw [hp] at hph
    exact ⟨⟨hnode, hhops, dispatch_placed hph⟩,
      Silo.Serves.dispatch hserves (hph.localAddr hn)⟩
  | closed hp =>
    rw [hp] at hph
    exact ⟨⟨hnode, hhops, hph⟩, hserves⟩
  | deliver hp _ _ hsend =>
    rw [hp] at hph
    exact ⟨⟨hnode, hhops, rfl, hph⟩, hserves.step (by simp) hsend⟩

theorem Stable.setSilo (hserves : silo.Serves fun gid => r.owner gid = some node.localAddr) :
    ∀ (m : ℕ) (q : Node S), (u.setSilo n node silo).nodes[m]? = some q →
      q.silo.Serves fun gid => r.owner gid = some q.localAddr := by
  intro m q hq
  rw [Cluster.setSilo, getElem?_set] at hq
  split_ifs at hq
  · cases hq
    exact hserves
  · exact h.serves m q hq

theorem Stable.addRef (hv : v.Shares r) (haddr : v.addr = u.addr)
    (hserves : ∀ (n : ℕ) (node : Node S), v.nodes[n]? = some node → node.silo.Serves fun gid =>
      r.owner gid = some node.localAddr) {ref} (hrefs : v.refs = u.refs ++ [ref])
    (hcalls : v.calls = u.calls) (href : ref.Placed u.addr r) : Stable r v where
  shares := hv
  serves := hserves
  refs ref' href' := by
    rw [haddr]
    rcases mem_append.mp (hrefs ▸ href') with hmem | hnew
    · exact h.refs ref' hmem
    · exact mem_singleton.mp hnew ▸ href
  calls c hc := by
    rw [haddr]
    exact h.calls c (hcalls ▸ hc)

theorem Stable.addCall {c} (hc : c.Placed u.addr r) :
    Stable r { u with calls := u.calls ++ [c] } where
  shares := h.shares.of_nodes rfl
  serves := h.serves
  refs := h.refs
  calls c' hc' := by
    rcases mem_append.mp hc' with hmem | hnew
    · exact h.calls c' hmem
    · exact mem_singleton.mp hnew ▸ hc

theorem Stable.step (hr : r.isEmpty = false) {e : ClusterEvent S} (he : e.Routine)
    (hs : u.step e = some v) : Stable r v := by
  have haddr := addr_step hs
  have hshares : v.Shares r := by
    refine h.shares.step ?_ hs
    cases e <;> first | rfl | exact absurd he id
  cases move_of_step hs with
  | @silo n e node silo hn hsilo =>
    have he' : ∀ gid kind, e ≠ .getOrInsert gid kind := by
      rintro gid kind rfl
      exact he
    exact ⟨hshares, h.setSilo ((h.serves n node hn).step he' hsilo), haddr ▸ h.refs,
      haddr ▸ h.calls⟩
  | @getLocal n draw node G key hn hpl =>
    -- The silo is the owner, since the ring gives the grain to some silo.
    obtain ⟨a, ha⟩ := exists_get hr (ringKey G.grainTypeName key)
    have howner : r.owner (G.id key) = some a := ha
    have hid : a.siloId = node.localAddr.siloId := by
      refine hpl a ?_
      rw [place_of_hashPlaced he (h.shares.placement node (mem_of_getElem? hn)),
        h.shares.ring_eq hn, ha]
    have hown := h.shares.owner_of_siloId hn howner hid
    exact h.addRef hshares haddr
      (h.setSilo ((h.serves n node hn).activate (hown.localAddr hn) _)) rfl rfl hown
  | @getRemote n draw node G key target hn hpl hne =>
    refine h.addRef hshares haddr h.serves rfl rfl ⟨target, ?_, rfl⟩
    rw [place_of_hashPlaced he (h.shares.placement node (mem_of_getElem? hn)),
      h.shares.ring_eq hn] at hpl
    exact hpl
  | askLocal call hk hin | askClosed call hk hin =>
    have href := h.refs _ (mem_of_getElem? hk)
    rw [Ref.Placed, hin] at href
    exact h.addCall ⟨href.isSome, Nat.zero_le _, href⟩
  | askRemote call hk hin hat =>
    have href := h.refs _ (mem_of_getElem? hk)
    rw [Ref.Placed, hin] at href
    obtain ⟨a, ha, rfl⟩ := href
    have hown := h.shares.owner_of_nodeAt ha hat
    exact h.addCall ⟨hown.isSome, Nat.zero_le _, Or.inl hown⟩
  | askNowhere => exact h
  | invoke req hn => exact h.addCall ⟨by simp [addr, hn], Nat.zero_le _, Or.inr ⟨rfl, he⟩⟩
  | @call j e c c' node silo hc hn hmove =>
    have hmem := mem_of_getElem? hc
    obtain ⟨hplaced, hserves⟩ := hmove.placed h hr (h.calls c hmem) hn he
    refine ⟨hshares, h.setSilo hserves, haddr ▸ h.refs, fun d hd => ?_⟩
    rw [haddr]
    rcases mem_or_eq_of_mem_set hd with hd | rfl
    · exact h.calls d hd
    · exact hplaced
  | _ => exact absurd he id

end

end Cluster

/-! ## Progress -/

def CallPhase.rank (n : ℕ) : CallPhase S → ℕ
  | .received => n + 5
  | .forwarding _ => n + 4
  | .owned => n + 4
  | .looking members => members.length + 3
  | .dispatching => 2
  | .calling _ _ => 1
  | .done _ => 0

/-- What is left of a call that is forwarded once at most. -/
def GrainCall.rank (n : ℕ) (c : GrainCall S) : ℕ :=
  (1 - c.hops) * (n + 6) + c.phase.rank n

def ClusterEvent.isCall (j : ℕ) : ClusterEvent S → Bool
  | .call i _ => i == j
  | _ => false

namespace Cluster

variable {i j k n : ℕ} {gid : GrainId} {c c' : GrainCall S} {c : GrainCall S}
  {es : List (ClusterEvent S)} {e : CallEvent} {silo : Silo S}

theorem receive_rank_lt (req) : (node.receive req).rank n < n + 5 := by
  unfold receive forwardCall
  repeat' split
  all_goals simp only [rank]
  all_goals omega

theorem checkLocal_rank_lt (hring : node.ring = r) (req) :
    (node.checkLocal req).rank r.members.length < r.members.length + 4 := by
  unfold checkLocal
  split
  · simp only [rank]
    omega
  · have hle := length_filter_le (fun m => decide (m.siloId ≠ node.localAddr.siloId))
      node.ring.members
    rw [hring] at hle ⊢
    simp only [rank]
    omega

theorem dispatch_rank_lt (req) : (node.dispatch req).1.rank n < 2 := by
  unfold dispatch
  repeat' split
  all_goals simp [rank]

theorem rank_lt_of_phase (hops : c'.hops = c.hops) (hlt : c'.phase.rank n < c.phase.rank n) :
    c'.rank n < c.rank n := by
  rw [GrainCall.rank, GrainCall.rank, hops]
  omega

theorem CallMove.rank_lt (h : Stable r u) (hc : c.Placed u.addr r)
    (hn : u.nodes[c.node]? = some node) (he : (call (S := S) j e).Routine)
    (hmove : u.CallMove c node e silo c') :
    c'.rank r.members.length < c.rank r.members.length := by
  have hph := hc.phase
  cases hmove with
  | receive hp => exact rank_lt_of_phase rfl (hp ▸ receive_rank_lt c.req)
  | forward hp =>
    -- The one hop of the call.
    rw [hp] at hph
    simp only [GrainCall.rank, rank, hp, hph.1]
    omega
  | fail => exact absurd he id
  | check hp => exact rank_lt_of_phase rfl (hp ▸ checkLocal_rank_lt (h.shares.ring_eq hn) c.req)
  | looked hp =>
    refine rank_lt_of_phase rfl ?_
    simp [hp, rank]
  | found hp hk hat =>
    rw [h.lookupGrain_of_placed hc hp hk] at hat
    cases hat
  | absent hp hk =>
    have hlt := lt_of_getElem? hk
    refine rank_lt_of_phase rfl ?_
    simp only [hp, rank, length_eraseIdx_of_lt hlt]
    omega
  | dispatch hp => exact rank_lt_of_phase rfl (hp ▸ dispatch_rank_lt c.req)
  | closed hp | deliver hp =>
    refine rank_lt_of_phase rfl ?_
    simp [hp, rank]

/-- What is left of call `j` : while it is not made, what there is to a call at most. -/
def callRank (r : HashRing) (j : ℕ) (u : Cluster S) : ℕ :=
  match u.calls[j]? with
  | some c => c.rank r.members.length
  | none => 2 * (r.members.length + 6)

theorem callRank_addCall (hc : c.rank r.members.length ≤ 2 * (r.members.length + 6)) :
    callRank r j { u with calls := u.calls ++ [c] } ≤ callRank r j u := by
  simp only [callRank]
  rcases Nat.lt_trichotomy j u.calls.length with hlt | rfl | hgt
  · rw [getElem?_append_left hlt]
  · simpa using hc
  · rw [getElem?_eq_none (by simp; omega), getElem?_eq_none (by omega)]

theorem Stable.callRank_step (h : Stable r u) (j) {e} (he : e.Routine) (hstep : u.step e = some v) :
    callRank r j v + (if e.isCall j then 1 else 0) ≤ callRank r j u := by
  cases move_of_step hstep with
  | askLocal | askClosed | askRemote | invoke =>
    refine callRank_addCall ?_
    simp only [GrainCall.rank, rank]
    omega
  | @call j' e c c' node silo hc hn hmove =>
    have hlt := hmove.rank_lt h (h.calls c (mem_of_getElem? hc)) hn he
    simp only [callRank, isCall, getElem?_set]
    by_cases hj : j' = j
    · subst hj
      simp only [hc, beq_self_eq_true, if_true, (lt_of_getElem? hc)]
      omega
    · simp [hj]
  | _ => exact Nat.le_refl _

theorem Stable.exists_step (h : Stable r u) (hc : u.calls[j]? = some c)
    (hph : c.phase.dispatched = false) (houtcome : c.phase.outcome = none) :
    ∃ e v, (call (S := S) j e).Routine ∧ u.step (.call j e) = some v := by
  have hplaced := h.calls c (mem_of_getElem? hc)
  obtain ⟨node, hn⟩ : ∃ node, u.nodes[c.node]? = some node :=
    ⟨_, getElem?_eq_getElem (isSome_addr.mp hplaced.node)⟩
  -- It is enough to find a step of the call on its silo.
  suffices hcall : ∃ e out, (call (S := S) j e).Routine ∧ u.callStep c node c.phase e = some out by
    obtain ⟨e, out, he, hout⟩ := hcall
    exact ⟨e, _, he, by simp only [Cluster.step, hc, hn, hout]; rfl⟩
  have hp := hplaced.phase
  cases hcp : c.phase with
  | forwarding endpoint =>
    rw [hcp] at hp
    obtain ⟨-, a, ha, rfl⟩ := hp
    obtain ⟨m, node', hm, rfl⟩ := h.shares.exists_node (mem_values_of_get ha)
    exact ⟨.advance, _, trivial, by simp only [callStep, h.shares.nodeAt hm]; rfl⟩
  | looking members =>
    cases members with
    | nil => exact ⟨.advance, _, trivial, rfl⟩
    | cons m ms => exact ⟨.answer 0 true, _, rfl, rfl⟩
  | calling i env =>
    rw [hcp] at hph
    cases hph
  | done outcome =>
    rw [hcp] at houtcome
    cases houtcome
  | _ => exact ⟨.advance, _, trivial, rfl⟩

/-! ## Runs -/

structure Idle (u : Cluster S) : Prop where
  tasks : ∀ node ∈ u.nodes, node.silo.tasks = []
  activations : ∀ node ∈ u.nodes, node.silo.activations = ∅
  siloCalls : ∀ node ∈ u.nodes, node.silo.calls = []
  calls : u.calls = []

/-- The silos hold the ring, and nothing has happened yet. -/
structure Fresh (r : HashRing) (u : Cluster S) : Prop extends Idle u where
  shares : u.Shares r
  refs : u.refs = []

theorem Fresh.stable (h : Fresh r u) : Stable r u where
  shares := h.shares
  serves n node hn :=
    have hm := mem_of_getElem? hn
    .of_tasks_eq_nil (h.tasks node hm) (h.activations node hm) (h.siloCalls node hm)
  refs := by simp [h.refs]
  calls := by simp [h.calls]

theorem Stable.run (h : Stable r u) (hr : r.isEmpty = false) (hes : ∀ e ∈ es, e.Routine)
    (hrun : exec Cluster.step u es = some v) : Stable r v :=
  exec_invariant (fun _ _ _ he h hs => h.step hr he.1 hs) h
    (Along.and_forall hes (along_true es u)) hrun

theorem Stable.countP_le (h : Stable r u) (hr : r.isEmpty = false) (hcalls : u.calls = [])
    (hes : ∀ e ∈ es, e.Routine) (hrun : exec Cluster.step u es = some v) (j) :
    es.countP (·.isCall j) ≤ 2 * (r.members.length + 6) := by
  have hle := exec_countP_add_le (p := (·.isCall j))
    (fun _ _ _ he h hs => ⟨Stable.step h hr he.1 hs, h.callRank_step j he.1 hs⟩) h
    (Along.and_forall hes (along_true es u)) hrun
  have hzero : callRank r j u = 2 * (r.members.length + 6) := by simp [callRank, hcalls]
  omega

theorem CallMove.req_eq (h : u.CallMove c node e silo c') :
    c'.req.gid = c.req.gid ∧ c'.req.payload = c.req.payload := by
  cases h <;> exact ⟨rfl, rfl⟩

theorem Stable.exists_dispatched (hr : r.isEmpty = false)
    (hsize : c.req.payload.length ≤ maxPayloadSize) (h : Stable r u) (hc : u.calls[j]? = some c) :
    ∃ es v c', (∀ e ∈ es, e.Routine) ∧
      exec Cluster.step u es = some v ∧ v.calls[j]? = some c' ∧ c'.req.gid = c.req.gid ∧
      c'.phase.dispatched = true := by
  induction hrank : c.rank r.members.length using Nat.strong_induction_on generalizing u c with
  | _ k ih =>
    by_cases hph : c.phase.dispatched = true
    · exact ⟨[], u, c, by simp, rfl, hc, rfl, hph⟩
    have houtcome : c.phase.outcome = none := by
      cases hp : c.phase with
      | done outcome =>
        cases outcome with
        | rejected status =>
          have := (h.calls c (mem_of_getElem? hc)).oversized hp
          omega
        | _ => simp [hp, dispatched] at hph
      | _ => rfl
    obtain ⟨e, v, he, hs⟩ := h.exists_step hc (by simpa using hph) houtcome
    cases move_of_step hs with
    | @call _ _ c₀ c' node silo hc₀ hn hm =>
      cases hc.symm.trans hc₀
      have hlt := hm.rank_lt h (h.calls c (mem_of_getElem? hc)) hn he
      obtain ⟨hgid, hpayload⟩ := hm.req_eq
      obtain ⟨es, w, c'', hes, hrun, hw, hgid', hdone⟩ := ih _ (hrank ▸ hlt) (hpayload ▸ hsize)
        (h.step hr he hs) (getElem?_set_of_lookup hc) rfl
      refine ⟨.call j e :: es, w, c'', ?_, exec_cons_eq_some.mpr ⟨_, hs, hrun⟩, hw,
        hgid'.trans hgid, hdone⟩
      exact forall_mem_cons.mpr ⟨he, hes⟩

/-- In every run of references and calls in which no connection fails a grain is active on its owner
only, and every call is dispatched there in the end, with one hop at most. -/
theorem stable_ring (r : HashRing) (u v : Cluster S) (es : List (ClusterEvent S))
    (hr : r.isEmpty = false) (hu : Fresh r u) (hes : ∀ e ∈ es, e.Routine)
    (hrun : exec Cluster.step u es = some v) :
    (∀ (n : ℕ) (node : Node S) (gid : GrainId), v.nodes[n]? = some node →
      (gid ∈ node.silo.activations ∨ ∃ t ∈ node.silo.tasks, t.gid = gid) →
      r.owner gid = some node.localAddr) ∧
    ∀ (j : ℕ) (c : GrainCall S), v.calls[j]? = some c → c.hops ≤ 1 ∧
      (c.phase.dispatched = true → Owner v.addr r c.node c.req.gid) ∧
      (∀ n i, c.phase = .done (.delivered n i) → n = c.node) ∧
      (∀ status, c.phase = .done (.rejected status) → maxPayloadSize < c.req.payload.length) ∧
      es.countP (·.isCall j) ≤ 2 * (r.members.length + 6) ∧
      (c.phase.dispatched = false → c.phase.outcome = none →
        ∃ e w, (call (S := S) j e).Routine ∧ v.step (.call j e) = some w) := by
  have hv := hu.stable.run hr hes hrun
  refine ⟨fun n node gid hn hgid => ?_, fun j c hc => ?_⟩
  · rcases hgid with hgid | ⟨t, ht, rfl⟩
    · exact (hv.serves n node hn).entries gid hgid
    · exact (hv.serves n node hn).tasks t ht
  · have hplaced := hv.calls c (mem_of_getElem? hc)
    exact ⟨hplaced.hops, hplaced.owner, fun _ _ => hplaced.node_eq, fun _ => hplaced.oversized,
      hu.stable.countP_le hr hu.calls hes hrun j, hv.exists_step hc⟩

theorem fresh_two : Fresh twoRing twoSilos where
  shares := oneRing_two.toShares
  tasks := by simp [twoSilos, exampleNode, Silo.init]
  activations := by simp [twoSilos, exampleNode, Silo.init]
  siloCalls := by simp [twoSilos, exampleNode, Silo.init]
  refs := rfl
  calls := rfl

/-- A client calls the counter on the first silo, and a reference to it is made there. The
first call gets to the owner. -/
def clientCalls : List (ClusterEvent UInt8) :=
  [.invoke 0 ((addCall 1).request counterGrain "k"), .getRef 0 counterGrain "k" 0,
    .ask 0 (addCall 2)] ++ List.replicate 4 (.call 0 .advance) ++
    [.call 1 .advance, .call 0 (.answer 0 true)] ++ List.replicate 3 (.call 0 .advance)

theorem stable_ring_two : ∃ v, exec Cluster.step twoSilos clientCalls = some v ∧
    (v.calls.map fun c => c.phase.outcome) = [some (.delivered 1 0), none] ∧
    ∀ (j : ℕ) (c : GrainCall UInt8), v.calls[j]? = some c →
      c.hops ≤ 1 ∧ (c.phase.dispatched = true → Owner v.addr twoRing c.node c.req.gid) := by
  have hes : ∀ e ∈ clientCalls, e.Routine := by
    have hhint : counterGrain.HashPlaced := ⟨by decide, by decide⟩
    have hhops : ((addCall 1).request counterGrain "k").hopCount < maxHops := by decide +kernel
    simp [clientCalls, ClusterEvent.Routine, hhint, hhops]
  have hrun : ((exec Cluster.step twoSilos clientCalls).map fun v =>
      v.calls.map fun c => c.phase.outcome) = some [some (.delivered 1 0), none] := by
    decide +kernel
  obtain ⟨v, hv, houtcome⟩ := map_eq_some_iff.mp hrun
  refine ⟨v, hv, houtcome, fun j c hc => ?_⟩
  have hcall := (stable_ring twoRing twoSilos v clientCalls (by decide +kernel) fresh_two hes hv).2
  obtain ⟨hhops, hown, -⟩ := hcall j c hc
  exact ⟨hhops, hown⟩

def hopped : InvokeRequest :=
  { (addCall 1).request counterGrain "k" with
    requestContext := (∅ : AList fun _ : String => String).insert hopCountKey "3" }

/-- A client calls the counter on the first silo with a request that says it was forwarded
three times : the silo does not forward it to the owner. -/
theorem forwarded_before : Fresh twoRing twoSilos ∧
    ∃ v, exec Cluster.step twoSilos [.invoke 0 hopped, .call 0 .advance] = some v ∧
      (v.calls.map fun c => c.phase.outcome) = [some (.rejected (.internal
        "maximum forwarding hops (3) exceeded — possible routing loop"))] := by
  refine ⟨fresh_two, _, rfl, ?_⟩
  decide +kernel

end Cluster

end Orlando
