import Orlando.StableRing

/-!
# An activation that the ring has moved away from

When the ring changes, a grain may be active on a silo that is not its owner any more. The owner
asks the other silos and forwards a call to the one that has the grain active, and that silo sends
it back to the owner. Otherwise it goes back and forth until its hops are used up
(`moved_activation`).
-/

namespace Orlando

open List CallPhase Node Option

variable {S : Type}

/-- The step leaves the rings as they are, and no connection or lookup fails in it. -/
def ClusterEvent.Reliable : ClusterEvent S → Prop
  | .setRing _ _ | .call _ (.fail _) => False
  | .call _ (.answer _ reached) => reached = true
  | _ => True

theorem ClusterEvent.Reliable.keepsRing {e : ClusterEvent S} (h : e.Reliable) :
    e.keepsRing = true := by
  cases e <;> first | rfl | exact absurd h id

def CallPhase.settled : CallPhase S → Bool
  | .received | .forwarding _ | .done (.rejected _) => false
  | _ => true

namespace Cluster

variable {u v : Cluster S} {r : HashRing} {n b i j : ℕ} {gid : GrainId} {node : Node S}
  {req : InvokeRequest} {c : GrainCall S} {c c' : GrainCall S} {e : CallEvent}
  {es : List (ClusterEvent S)} {silo : Silo S}

def ServedBy (gid : GrainId) (b i : ℕ) (u : Cluster S) : Prop :=
  ∃ node t, u.nodes[b]? = some node ∧ node.silo.openTask gid = some (i, t)

def Decodes (u : Cluster S) (b : ℕ) (req : InvokeRequest) : Prop :=
  ∃ node G env, u.nodes[b]? = some node ∧ node.registry.dispatch req.grainType req.messageType
    req.messageVersion req.payload (.fromProto req.encoding) = .ok (G, env)

/-- Call `j` can get to task `i` of silo `b` with steps of its own, and for as long as this
is the activation of the grain there, it ends nowhere else. -/
structure Reaches (gid : GrainId) (j b i : ℕ) (u : Cluster S) : Prop where
  only : ∀ (es : List (ClusterEvent S)) (v : Cluster S) (c : GrainCall S) (outcome : CallOutcome),
    Along step (fun w e => e.Reliable ∧ w.ServedBy gid b i) u es → exec step u es = some v →
    v.calls[j]? = some c → c.phase = .done outcome → outcome = .delivered b i
  arrives : ∃ (es : List (ClusterEvent S)) (v : Cluster S) (c : GrainCall S),
    (∀ e ∈ es, e.Reliable ∧ e.isCall j = true) ∧ exec step u es = some v ∧
    v.calls[j]? = some c ∧ c.phase = .done (.delivered b i)

/-! ## Where a call can be delivered -/

/-- The call is where the ring leads once a silo has passed the owner check for it. If the
ring is empty, the call stays on the silo `n` it came to. -/
structure OnRoute (addr : ℕ → Option SiloAddress) (r : HashRing) (n : ℕ) (gid : GrainId)
    (c : GrainCall S) : Prop where
  forGrain : c.req.gid = gid
  settled : c.phase.settled = true → Owner addr r c.node gid ∨ r.isEmpty = true
  delivered : ∀ m i, c.phase = .done (.delivered m i) → m = c.node
  empty : r.isEmpty = true → c.node = n ∧ (∀ endpoint, c.phase ≠ .forwarding endpoint) ∧
    ∀ members, c.phase = .looking members → members = []

theorem OnRoute.setPhase {addr : ℕ → Option SiloAddress} (h : OnRoute addr r n gid c)
    {phase : CallPhase S}
    (hsettled : phase.settled = true → Owner addr r c.node gid ∨ r.isEmpty = true)
    (hdelivered : ∀ m i, phase = .done (.delivered m i) → m = c.node)
    (hempty : r.isEmpty = true → (∀ endpoint, phase ≠ .forwarding endpoint) ∧ ∀ members, phase =
      .looking members → members = []) : OnRoute addr r n gid { c with phase := phase } :=
  ⟨h.forGrain, hsettled, hdelivered, fun he => ⟨(h.empty he).1, hempty he⟩⟩

theorem members_of_isEmpty (h : r.isEmpty = true) : r.members = [] := by
  have hentries : r.ring.entries = [] := by
    simpa [HashRing.isEmpty, OrderedMap.isEmpty] using h
  simp [HashRing.members, OrderedMap.values, hentries]

theorem Shares.owner_of_findOwner (h : u.Shares r) (hn : u.nodes[n]? = some node)
    (hfind : node.findOwner req.grainType req.grainKey = none) :
    Owner u.addr r n req.gid ∨ r.isEmpty = true := by
  cases hempty : r.isEmpty with
  | true => exact .inr rfl
  | false =>
    obtain ⟨a, ha⟩ := HashRing.exists_get hempty (ringKey req.grainType req.grainKey)
    have hid : a.siloId = node.localAddr.siloId := by
      simpa [findOwner, h.ring_eq hn, ha] using hfind
    exact .inl (h.owner_of_siloId hn ha hid)

theorem Shares.findOwner_eq_none (h : u.Shares r) (hn : u.nodes[n]? = some node)
    (hown : Owner u.addr r n req.gid ∨ r.isEmpty = true) :
    node.findOwner req.grainType req.grainKey = none := by
  rw [findOwner, h.ring_eq hn]
  rcases hown with hown | hempty
  · have hg : r.get (ringKey req.grainType req.grainKey) = some node.localAddr :=
      hown.localAddr hn
    simp [hg]
  · have hg : r.get (ringKey req.grainType req.grainKey) = none := by
      have : r.ring.isEmpty = true := hempty
      simp [HashRing.get, this]
    rw [hg]

theorem CallMove.onRoute (h : u.Shares r) (hn : u.nodes[c.node]? = some node)
    (hc : OnRoute u.addr r n gid c) (hmove : u.CallMove c node e silo c') :
    OnRoute u.addr r n gid c' := by
  cases hmove with
  | receive hp =>
    rcases node.receive_cases c.req with ⟨status, hr⟩ | ⟨endpoint, hfind, -, hr⟩ | ⟨hfind, hr⟩
    · rw [hr]
      exact hc.setPhase (by simp [settled]) (by simp) (by simp)
    · rw [hr]
      refine hc.setPhase (by simp [settled]) (by simp) fun he => ?_
      rw [h.findOwner_eq_none hn (.inr he)] at hfind
      cases hfind
    · rw [hr]
      exact hc.setPhase (fun _ => hc.forGrain ▸ h.owner_of_findOwner hn hfind) (by simp) (by simp)
  | forward hp =>
    exact ⟨hc.forGrain, by simp [settled], by simp, fun he => absurd hp ((hc.empty he).2.1 _)⟩
  | fail reason hp => exact hc.setPhase (by simp [settled]) (by simp) (by simp)
  | check hp =>
    have hs := hc.settled (hp ▸ rfl)
    unfold checkLocal
    split
    · exact hc.setPhase (fun _ => hs) (by simp) (by simp)
    · refine hc.setPhase (fun _ => hs) (by simp) fun he => ⟨by simp, ?_⟩
      rintro members ⟨⟩
      rw [h.ring_eq hn, members_of_isEmpty he, filter_nil]
  | looked hp | closed hp => exact hc.setPhase (fun _ => hc.settled (hp ▸ rfl)) (by simp) (by simp)
  | found hp hk =>
    have hne : r.isEmpty ≠ true := by
      intro he
      rw [(hc.empty he).2.2 _ hp] at hk
      cases hk
    unfold forwardCall
    split <;> exact hc.setPhase (by simp [settled]) (by simp) fun he => absurd he hne
  | absent hp hk =>
    refine hc.setPhase (fun _ => hc.settled (hp ▸ rfl)) (by simp) fun he => ?_
    rw [(hc.empty he).2.2 _ hp] at hk
    cases hk
  | dispatch hp =>
    have hs := hc.settled (hp ▸ rfl)
    unfold Node.dispatch
    repeat' split
    all_goals exact hc.setPhase (fun _ => hs) (by simp) (by simp)
  | deliver hp =>
    refine hc.setPhase (fun _ => hc.settled (hp ▸ rfl)) ?_ (by simp)
    rintro m i ⟨⟩
    rfl

/-! ## A call on its way to an activation -/

structure Homing (addr : ℕ → Option SiloAddress) (r : HashRing) (gid : GrainId) (b i : ℕ)
    (c : GrainCall S) : Prop where
  forGrain : c.req.gid = gid
  size : c.req.payload.length ≤ maxPayloadSize
  phase : match c.phase with
    | .received => c.node = b ∨ (Owner addr r b gid ∧ c.req.hopCount < maxHops)
    | .forwarding endpoint =>
      Owner addr r b gid ∧ ∃ a, r.owner gid = some a ∧ endpoint = a.endpoint
    | .owned | .dispatching => c.node = b
    | .looking _ => False
    | .calling k _ => c.node = b ∧ k = i
    | .done outcome => outcome = .delivered b i

theorem receive_of_owner (h : u.Shares r) (hn : u.nodes[n]? = some node)
    (hown : Owner u.addr r b req.gid) (hne : n ≠ b) (hsize : req.payload.length ≤ maxPayloadSize)
    (hhops : req.hopCount < maxHops) :
    ∃ a, r.owner req.gid = some a ∧ node.receive req = .forwarding a.endpoint := by
  obtain ⟨a, ha, haddr⟩ := hown
  have hget : r.get (ringKey req.grainType req.grainKey) = some a := ha
  have hid : a.siloId ≠ node.localAddr.siloId := fun hid =>
    hne ((h.owner_of_siloId hn ha hid).unique h ⟨a, ha, haddr⟩)
  refine ⟨a, ha, ?_⟩
  rw [receive, if_neg (not_lt.mpr hsize)]
  simp [findOwner, h.ring_eq hn, hget, hid, forwardCall, Nat.not_le.mpr hhops]

theorem CallMove.homing (h : u.Shares r) (hlead : Owner u.addr r b gid ∨ r.isEmpty = true)
    (hserved : u.ServedBy gid b i) (hdec : u.Decodes b c.req) (hn : u.nodes[c.node]? = some node)
    (he : (ClusterEvent.call (S := S) j e).Reliable) (hc : Homing u.addr r gid b i c)
    (hmove : u.CallMove c node e silo c') : Homing u.addr r gid b i c' ∧ u.Decodes b c'.req := by
  obtain ⟨rfl, hsize, hph⟩ := hc
  obtain ⟨bnode, t, hb, hopen⟩ := hserved
  obtain ⟨bnode', G, env, hb', hd⟩ := id hdec
  cases hb.symm.trans hb'
  obtain ⟨-, hcheck, hdispatch⟩ := serves_of_dispatch hopen hd
  -- On silo `b` the node is that of the activation.
  have hnode : c.node = b → node = bnode := fun heq =>
    some.inj (hn.symm.trans (heq ▸ hb))
  cases hmove with
  | receive hp =>
    rw [hp] at hph
    refine ⟨⟨rfl, hsize, ?_⟩, hdec⟩
    by_cases hcb : c.node = b
    · have hfind := h.findOwner_eq_none hb hlead
      rw [hnode hcb, receive_of_findOwner hfind hsize]
      exact hcb
    · obtain ⟨hown, hhops⟩ := hph.resolve_left hcb
      obtain ⟨a, ha, hr⟩ := receive_of_owner h hn hown hcb hsize hhops
      rw [hr]
      exact ⟨hown, a, ha, rfl⟩
  | forward hp hat =>
    rw [hp] at hph
    obtain ⟨hown, a, ha, rfl⟩ := hph
    exact ⟨⟨rfl, hsize, .inl ((h.owner_of_nodeAt ha hat).unique h hown)⟩, hdec⟩
  | fail => exact absurd he id
  | check hp =>
    rw [hp] at hph
    refine ⟨⟨rfl, hsize, ?_⟩, hdec⟩
    rw [hnode hph, hcheck]
    exact hph
  | looked hp | found hp | absent hp =>
    rw [hp] at hph
    exact absurd hph id
  | dispatch hp =>
    rw [hp] at hph
    refine ⟨⟨rfl, hsize, ?_⟩, hdec⟩
    rw [hnode hph, hdispatch]
    exact ⟨hph, rfl⟩
  | closed hp hi hrx =>
    rw [hp] at hph
    obtain ⟨hcb, rfl⟩ := hph
    obtain ⟨-, ht, hrx'⟩ := Silo.openTask_eq_some.mp hopen
    rw [hnode hcb] at hi
    cases hi.symm.trans ht
    rw [hrx] at hrx'
    cases hrx'
  | deliver hp =>
    rw [hp] at hph
    obtain ⟨hcb, rfl⟩ := hph
    exact ⟨⟨rfl, hsize, by rw [hcb]⟩, hdec⟩

/-! ## Runs -/

theorem Decodes.step (h : u.Decodes b req) {e} (hstep : u.step e = some v) : v.Decodes b req := by
  obtain ⟨node, G, env, hn, hd⟩ := h
  rcases step_nodes hstep with heq | ⟨m, q, q', hm, hruns, -, heq⟩
  · exact ⟨node, G, env, heq ▸ hn, hd⟩
  · by_cases hmb : m = b
    · subst hmb
      cases hm.symm.trans hn
      refine ⟨q', G, env, ?_, hruns.registry ▸ hd⟩
      rw [heq]
      exact getElem?_set_of_lookup hm
    · refine ⟨node, G, env, ?_, hd⟩
      rw [heq, getElem?_set_ne hmb]
      exact hn

theorem onRoute_run (h : u.Shares r) (hc : u.calls[j]? = some c) (hroute : OnRoute u.addr r n gid c)
    (hes : ∀ e ∈ es, e.Reliable) (hrun : exec step u es = some v) :
    ∃ c, v.calls[j]? = some c ∧ OnRoute u.addr r n gid c := by
  refine (exec_invariant (I := fun w => w.Shares r ∧ w.addr = u.addr ∧
      ∃ c, w.calls[j]? = some c ∧ OnRoute u.addr r n gid c) (fun w e w' he hw hs => ?_)
    ⟨h, rfl, c, hc, hroute⟩ (Along.and_forall hes (along_true es u)) hrun).2.2
  obtain ⟨hshares, haddr, c, hc, hroute⟩ := hw
  refine ⟨hshares.step he.1.keepsRing hs, (addr_step hs).trans haddr, ?_⟩
  rcases call_of_step hc hs with hc' | ⟨e', node, silo, c', -, hn, hmove, hc'⟩
  · exact ⟨c, hc', hroute⟩
  · rw [← haddr] at hroute ⊢
    exact ⟨c', hc', hmove.onRoute hshares hn hroute⟩

theorem homing_run (h : u.Shares r) (hlead : Owner u.addr r b gid ∨ r.isEmpty = true)
    (hc : u.calls[j]? = some c) (hhome : Homing u.addr r gid b i c) (hdec : u.Decodes b c.req)
    (hes : Along step (fun w e => e.Reliable ∧ w.ServedBy gid b i) u es)
    (hrun : exec step u es = some v) : ∃ c, v.calls[j]? = some c ∧ Homing u.addr r gid b i c := by
  have hinv := exec_invariant (I := fun w => w.Shares r ∧ w.addr = u.addr ∧
      ∃ c, w.calls[j]? = some c ∧ Homing u.addr r gid b i c ∧ w.Decodes b c.req)
    (fun w e w' he hw hs => ?_) ⟨h, rfl, c, hc, hhome, hdec⟩ hes hrun
  · obtain ⟨-, -, c, hc, hhome, -⟩ := hinv
    exact ⟨c, hc, hhome⟩
  · obtain ⟨hshares, haddr, c, hc, hhome, hdec⟩ := hw
    refine ⟨hshares.step he.1.keepsRing hs, (addr_step hs).trans haddr, ?_⟩
    rcases call_of_step hc hs with hc' | ⟨e', node, silo, c', rfl, hn, hmove, hc'⟩
    · exact ⟨c, hc', hhome, hdec.step hs⟩
    · rw [← haddr] at hhome hlead ⊢
      obtain ⟨hhome', hdec'⟩ := hmove.homing hshares hlead he.2 hdec hn he.1 hhome
      exact ⟨c', hc', hhome', hdec'.step hs⟩

theorem step_call_of_silo (hc : u.calls[j]? = some c) (hn : u.nodes[c.node]? = some node)
    (h : u.callStep c node c.phase e = some (node.silo, c')) :
    u.step (.call j e) = some { u with calls := u.calls.set j c' } := by
  have hset : u.nodes.set c.node node = u.nodes := by
    obtain ⟨hlt, rfl⟩ := List.getElem?_eq_some_iff.mp hn
    exact set_getElem_self hlt
  simp only [Cluster.step, hc, hn, h, map_some, setSilo]
  rw [hset]

theorem exec_forward {endpoint} (hc : u.calls[j]? = some c)
    (hn : u.nodes[c.node]? = some node) (hp : c.phase = .received)
    (hr : node.receive c.req = .forwarding endpoint) (hat : u.nodeAt endpoint = some b) :
    exec step u (replicate 2 (.call j .advance)) = some { u with
      calls := u.calls.set j ⟨c.ref, b, c.req.nextHop, c.hops + 1, .received⟩ } := by
  have hlt := lt_of_getElem? hc
  have hcall : u.callStep c node c.phase .advance =
      some (node.silo, { c with phase := .forwarding endpoint }) := by
    rw [hp, ← hr]
    rfl
  refine exec_cons_eq_some.mpr ⟨_, step_call_of_silo hc hn hcall, ?_⟩
  obtain ⟨w, hw⟩ : ∃ w, w = { u with
    calls := u.calls.set j { c with phase := .forwarding endpoint } } := ⟨_, rfl⟩
  have hcall' : w.callStep { c with phase := .forwarding endpoint } node (.forwarding endpoint)
      .advance = some (node.silo, ⟨c.ref, b, c.req.nextHop, c.hops + 1, .received⟩) := by
    have hat' : w.nodeAt endpoint = some b := hw ▸ hat
    simp [callStep, hat']
  rw [← hw]
  refine exec_cons_eq_some.mpr ⟨_, step_call_of_silo ?_ (hw ▸ hn) hcall', ?_⟩
  · rw [hw]
    exact getElem?_set_self hlt
  · rw [hw, set_set]
    rfl

theorem exec_homing (h : u.Shares r) (hc : u.calls[j]? = some c) (hn : c.node < u.nodes.length)
    (hlead : Owner u.addr r b c.req.gid ∨ r.isEmpty = true)
    (hhome : Homing u.addr r c.req.gid b i c) (hp : c.phase = .received)
    (hserved : u.ServedBy c.req.gid b i) (hdec : u.Decodes b c.req) :
    ∃ k v c', exec step u (replicate k (.call j .advance)) = some v ∧
      v.calls[j]? = some c' ∧ c'.phase = .done (.delivered b i) := by
  obtain ⟨bnode, t, hb, hopen⟩ := hserved
  obtain ⟨bnode', G, env, hb', hd⟩ := hdec
  cases hb.symm.trans hb'
  have hfind := h.findOwner_eq_none hb hlead
  by_cases hcb : c.node = b
  · subst hcb
    obtain ⟨v, c', hv, hc', hph⟩ := exec_received hc hb hp hhome.size hfind hopen hd
    exact ⟨4, v, c', hv, hc', hph⟩
  · have hph := hhome.phase
    rw [hp] at hph
    obtain ⟨hown, hhops⟩ := hph.resolve_left hcb
    have hnode := getElem?_eq_getElem hn
    obtain ⟨a, ha, hr⟩ := receive_of_owner h hnode hown hcb hhome.size hhops
    cases ha.symm.trans (hown.localAddr hb)
    have hforward := exec_forward hc hnode hp hr (h.nodeAt hb)
    obtain ⟨v, c', hv, hc', hph⟩ := exec_received
      (w := { u with calls := u.calls.set j ⟨c.ref, b, c.req.nextHop, c.hops + 1, .received⟩ })
      (getElem?_set_of_lookup hc) hb rfl hhome.size hfind hopen hd
    refine ⟨2 + 4, v, c', ?_, hc', hph⟩
    rw [← replicate_append_replicate, exec_append, hforward]
    exact hv

theorem of_step_invoke (h : u.step (.invoke n req) = some v) :
    n < u.nodes.length ∧ v.nodes = u.nodes ∧
      v.calls[u.calls.length]? = some ⟨none, n, req, 0, .received⟩ := by
  cases move_of_step h with
  | invoke _ hn => exact ⟨(lt_of_getElem? hn), rfl, getElem?_concat_length⟩

/-- Under one ring a call gets to a given live activation exactly when that is on the owner, or the
ring is empty and the call comes to its silo. -/
theorem reaches_iff (u u₁ : Cluster S) (r : HashRing) (n b i : ℕ) (req : InvokeRequest)
    (hshares : u.Shares r) (hserved : u.ServedBy req.gid b i) (hdec : u.Decodes b req)
    (hsize : req.payload.length ≤ maxPayloadSize) (hhops : req.hopCount = 0)
    (h : u.step (.invoke n req) = some u₁) :
    u₁.Reaches req.gid u.calls.length b i ↔
      Owner u.addr r b req.gid ∨ (r.isEmpty = true ∧ n = b) := by
  have hshares₁ := hshares.step rfl h
  have hdec₁ := hdec.step h
  obtain ⟨hn, hnodes, hc⟩ := of_step_invoke h
  rw [← addr_step h]
  constructor
  · intro hreach
    obtain ⟨es, v, c, hes, hrun, hvc, hphase⟩ := hreach.arrives
    have hstart : OnRoute u₁.addr r n req.gid (⟨none, n, req, 0, .received⟩ : GrainCall S) :=
      ⟨rfl, by simp [settled], by simp, fun _ => ⟨rfl, by simp, by simp⟩⟩
    obtain ⟨c', hvc', hroute⟩ := onRoute_run hshares₁ hc hstart (fun e he => (hes e he).1) hrun
    cases hvc.symm.trans hvc'
    obtain rfl := hroute.delivered b i hphase
    rcases hroute.settled (hphase ▸ rfl) with hown | hempty
    · exact .inl hown
    · exact .inr ⟨hempty, (hroute.empty hempty).1.symm⟩
  · intro hlead
    have hlead' := hlead.imp_right And.left
    have hhome : Homing u₁.addr r req.gid b i (⟨none, n, req, 0, .received⟩ : GrainCall S) := by
      refine ⟨rfl, hsize, hlead.symm.imp And.right fun hown => ⟨hown, ?_⟩⟩
      rw [hhops]
      decide
    have hserved₁ : u₁.ServedBy req.gid b i := by
      obtain ⟨node, t, hb, hopen⟩ := hserved
      exact ⟨node, t, hnodes ▸ hb, hopen⟩
    constructor
    · intro es v c outcome hes hrun hvc hphase
      obtain ⟨c', hvc', hhome'⟩ := homing_run hshares₁ hlead' hc hhome hdec₁ hes hrun
      cases hvc.symm.trans hvc'
      have hdone := hhome'.phase
      rw [hphase] at hdone
      exact hdone
    · obtain ⟨k, v, c', hv, hvc, hphase⟩ :=
        exec_homing hshares₁ hc (hnodes ▸ hn) hlead' hhome rfl hserved₁ hdec₁
      refine ⟨_, v, c', fun e he => ?_, hv, hvc, hphase⟩
      obtain rfl := eq_of_mem_replicate he
      exact ⟨trivial, beq_self_eq_true _⟩

def countingSilo : Silo UInt8 :=
  ((Silo.init Shared.empty).activate (counterGrain.id "k") (.plain counterGrain.grain)).2

theorem servedBy_of_counting {w : Cluster UInt8} {addr}
    (h : w.nodes[b]? = some (exampleNode addr countingSilo)) :
    w.ServedBy (counterGrain.id "k") b 0 := by
  have hact : ((Silo.init Shared.empty).activate (counterGrain.id "k")
      (.plain counterGrain.grain)).1 = some 0 := rfl
  obtain ⟨t, ht⟩ := openTask_activate hact
  exact ⟨_, t, h, ht⟩

def ownerServes : Cluster UInt8 where
  nodes := [exampleNode siloA (.init Shared.empty), exampleNode siloB countingSilo]
  refs := []
  calls := []

theorem reaches_iff_owner :
    ∃ u₁, ownerServes.step (.invoke 0 ((addCall 1).request counterGrain "k")) = some u₁ ∧
      u₁.Reaches (counterGrain.id "k") 0 1 0 := by
  refine ⟨_, rfl, (reaches_iff ownerServes _ twoRing 0 1 0
    ((addCall 1).request counterGrain "k") (shares_pair rfl) (servedBy_of_counting rfl)
    ⟨_, counterGrain, addMessage 1, rfl, rfl⟩ ?_ ?_ rfl).mpr (.inl ⟨siloB, ?_, rfl⟩)⟩
  · decide +kernel
  · decide +kernel
  · decide +kernel

/-- The first silo is the only one on the ring and activates the counter. Then the second
joins, which is the owner from then on. -/
def ringMoves : List (ClusterEvent UInt8) :=
  [.setRing 0 ((HashRing.new 1).add siloA), .setRing 1 ((HashRing.new 1).add siloA),
    .getRef 0 counterGrain "k" 0, .setRing 0 twoRing, .setRing 1 twoRing]

def movedCluster : Cluster UInt8 where
  nodes := [exampleNode siloA countingSilo, exampleNode siloB (.init Shared.empty)]
  refs := [⟨counterGrain, "k", false, .localRef 0 (some 0)⟩]
  calls := []

theorem exec_ringMoves : exec step twoSilos ringMoves = some movedCluster := by
  rfl

/-- The counter is active on the first silo only, and belongs to the second. A call goes back and
forth until its hops are used up. -/
theorem moved_activation : exec step twoSilos ringMoves = some movedCluster ∧
    movedCluster.Shares twoRing ∧ movedCluster.ServedBy (counterGrain.id "k") 0 0 ∧
    (movedCluster.nodes.map fun node => node.isActive "Counter" "k") = [true, false] ∧
    (∃ v, exec step movedCluster ([.invoke 1 ((addCall 1).request counterGrain "k")] ++ bounce 0 ++
        [.call 0 .advance] ++ bounce 0) = some v ∧
      (v.calls.map fun c => c.phase.outcome) = [some (.rejected (.internal
        "maximum forwarding hops (3) exceeded — possible routing loop"))]) ∧
    ∃ v, exec step movedCluster ([.invoke 0 ((addCall 1).request counterGrain "k"),
        .call 0 .advance, .call 0 .advance] ++ bounce 0 ++
        [.call 0 .advance, .call 0 .advance, .call 0 .advance, .call 0 (.answer 0 true)]) = some v ∧
      (v.calls.map fun c => c.phase.outcome) = [some (.rejected (.internal
        "maximum forwarding hops (3) exceeded during directory lookup"))] := by
  refine ⟨exec_ringMoves, shares_pair rfl, servedBy_of_counting rfl, by decide +kernel,
    map_eq_some_iff.mp ?_, map_eq_some_iff.mp ?_⟩
  · decide +kernel
  · decide +kernel

end Cluster

end Orlando
