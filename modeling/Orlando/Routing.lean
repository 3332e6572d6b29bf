import Orlando.Cluster
import Orlando.Slots

/-!
# Routes through a cluster

What one step of a cluster can do (`Cluster.Move`, and for a step of a call `Cluster.CallMove`), and
clusters whose silos hold one ring (`Cluster.Shares`), which gives every grain to the silo at one
address.
-/

namespace Orlando

open List Option

variable {S : Type}

namespace Cluster

variable {u v w : Cluster S} {r : HashRing} {i j n : ℕ} {node : Node S} {c c' : GrainCall S}
  {silo : Silo S} {e : ClusterEvent S}

/-! ## Steps of a call -/

variable (u) in
/-- The steps of a call on the silo where it is, each with what lets it happen, the silo and
the call after it. -/
inductive CallMove (c : GrainCall S) (node : Node S) : CallEvent → Silo S → GrainCall S → Prop
  | receive (hp : c.phase = .received) :
    CallMove c node .advance node.silo { c with phase := node.receive c.req }
  | forward {endpoint n} (hp : c.phase = .forwarding endpoint) (hat : u.nodeAt endpoint = some n) :
    CallMove c node .advance node.silo
      { c with node := n, req := c.req.nextHop, hops := c.hops + 1, phase := .received }
  | fail {endpoint} (reason : String) (hp : c.phase = .forwarding endpoint) :
    CallMove c node (.fail reason) node.silo
      { c with phase := .done (.rejected (.unavailable reason)) }
  | check (hp : c.phase = .owned) :
    CallMove c node .advance node.silo { c with phase := node.checkLocal c.req }
  | looked (hp : c.phase = .looking []) :
    CallMove c node .advance node.silo { c with phase := .dispatching }
  | found {members k member endpoint} (hp : c.phase = .looking members)
    (hk : members[k]? = some member) (hat : u.lookupGrain member c.req = some endpoint) :
    CallMove c node (.answer k true) node.silo
      { c with phase := forwardCall c.req ("maximum forwarding hops (" ++ toString maxHops ++
          ") exceeded during directory lookup") endpoint }
  | absent {members k member reached} (hp : c.phase = .looking members)
    (hk : members[k]? = some member) (hat : reached = true → u.lookupGrain member c.req = none) :
    CallMove c node (.answer k reached) node.silo
      { c with phase := .looking (members.eraseIdx k) }
  | dispatch (hp : c.phase = .dispatching) :
    CallMove c node .advance (node.dispatch c.req).2
      { c with phase := (node.dispatch c.req).1 }
  | closed {i env t} (hp : c.phase = .calling i env) (hi : node.silo.tasks[i]? = some t)
    (hrx : t.rxDropped = true) :
    CallMove c node .advance node.silo { c with phase := .done .closed }
  | deliver {i env t silo} (hp : c.phase = .calling i env) (hi : node.silo.tasks[i]? = some t)
    (hrx : t.rxDropped = false) (hsend : node.silo.step (.send i env) = some silo) :
    CallMove c node .advance silo { c with phase := .done (.delivered c.node i) }

theorem callMove_of_step {e} (h : u.callStep c node c.phase e = some (silo, c')) :
    u.CallMove c node e silo c' := by
  generalize hp : c.phase = phase at h
  revert h
  fun_cases callStep u c node phase e <;> intro h <;> try cases h
  next => exact .receive hp
  next =>
    obtain ⟨n, hat, hr⟩ := map_eq_some_iff.mp h
    cases hr
    exact .forward hp hat
  next reason => exact .fail reason hp
  next => exact .check hp
  next => exact .looked hp
  next =>
    obtain ⟨member, hk, hr⟩ := map_eq_some_iff.mp h
    split at hr <;> cases hr
    next hat =>
      obtain ⟨rfl, hat⟩ := ite_none_right_eq_some.mp hat
      exact .found hp hk hat
    next hat => exact .absent hp hk fun hreached => by rwa [if_pos hreached] at hat
  next hd =>
    have hmove : u.CallMove c node .advance _ _ := .dispatch hp
    rwa [hd] at hmove
  next hi hrx => exact .closed hp hi hrx
  next hi hrx =>
    obtain ⟨silo', hsend, hr⟩ := map_eq_some_iff.mp h
    cases hr
    exact .deliver hp hi (by simpa using hrx) hsend

theorem CallMove.ref_eq {e} (h : u.CallMove c node e silo c') : c'.ref = c.ref := by
  cases h <;> rfl

/-! ## Steps of a cluster -/

variable (u) in
inductive Move : ClusterEvent S → Cluster S → Prop
  | silo {n : ℕ} {e node silo} (hn : u.nodes[n]? = some node)
    (hsilo : node.silo.step e = some silo) : Move (.silo n e) (u.setSilo n node silo)
  | setRing {n : ℕ} {node} (ring : HashRing) (hn : u.nodes[n]? = some node) :
    Move (.setRing n ring) { u with nodes := u.nodes.set n { node with ring := ring } }
  | ctxGetRef {n i node t} (G : GrainType S) (key : String) (hn : u.nodes[n]? = some node)
    (hi : node.silo.tasks[i]? = some t) (hrun : t.running = true) :
    Move (.ctxGetRef n i G key) (u.localActivate n node G key true)
  | getLocal {n draw node} {G : GrainType S} {key} (hn : u.nodes[n]? = some node)
    (hplace : ∀ target, node.place G key draw = some target →
      target.siloId = node.localAddr.siloId) :
    Move (.getRef n G key draw) (u.localActivate n node G key false)
  | getRemote {n draw node} {G : GrainType S} {key target} (hn : u.nodes[n]? = some node)
    (hplace : node.place G key draw = some target) (hne : target.siloId ≠ node.localAddr.siloId) :
    Move (.getRef n G key draw)
      { u with refs := u.refs ++ [⟨G, key, false, .remoteRef target.endpoint⟩] }
  | askLocal {k n i ref} (call : NetworkCall S) (hk : u.refs[k]? = some ref)
    (hin : ref.inner = .localRef n (some i)) :
    Move (.ask k call) { u with calls := u.calls ++
      [⟨some k, n, call.request ref.grainType ref.key, 0, .calling i call.envelope⟩] }
  | askClosed {k n ref} (call : NetworkCall S) (hk : u.refs[k]? = some ref)
    (hin : ref.inner = .localRef n none) :
    Move (.ask k call) { u with calls := u.calls ++
      [⟨some k, n, call.request ref.grainType ref.key, 0, .done .closed⟩] }
  | askRemote {k n ref endpoint} (call : NetworkCall S) (hk : u.refs[k]? = some ref)
    (hin : ref.inner = .remoteRef endpoint) (hat : u.nodeAt endpoint = some n) :
    Move (.ask k call) { u with calls := u.calls ++
      [⟨some k, n, call.request ref.grainType ref.key, 0, .received⟩] }
  | askNowhere {k ref endpoint} (call : NetworkCall S) (hk : u.refs[k]? = some ref)
    (hin : ref.inner = .remoteRef endpoint) (hat : u.nodeAt endpoint = none) : Move (.ask k call) u
  | invoke {n : ℕ} {node} (req : InvokeRequest) (hn : u.nodes[n]? = some node) :
    Move (.invoke n req) { u with calls := u.calls ++ [⟨none, n, req, 0, .received⟩] }
  | call {j : ℕ} {e c c' node silo} (hc : u.calls[j]? = some c)
    (hn : u.nodes[c.node]? = some node) (hmove : u.CallMove c node e silo c') :
    Move (.call j e) { u.setSilo c.node node silo with calls := u.calls.set j c' }

theorem move_of_step (h : u.step e = some v) : u.Move e v := by
  revert h
  fun_cases step u e <;> intro h <;> try cases h
  next hn =>
    obtain ⟨silo, hsilo, rfl⟩ := map_eq_some_iff.mp h
    exact .silo hn hsilo
  next ring _ hn => exact .setRing ring hn
  next G key _ hn _ hi hrun => exact .ctxGetRef G key hn hi hrun
  next hn target hpl hid =>
    refine .getLocal hn fun target' htarget' => ?_
    rw [← some.inj (hpl.symm.trans htarget'), hid]
  next hn _ hpl hid => exact .getRemote hn hpl hid
  next hn hpl =>
    refine .getLocal hn fun target' htarget' => ?_
    rw [hpl] at htarget'
    cases htarget'
  next call _ hk _ _ hin => exact .askLocal call hk hin
  next call _ hk _ hin => exact .askClosed call hk hin
  next call _ hk _ hin _ hat => exact .askRemote call hk hin hat
  next call _ hk _ hin hat => exact .askNowhere call hk hin hat
  next req _ hn => exact .invoke req hn
  next hc _ hn =>
    obtain ⟨⟨silo, c'⟩, hcall, rfl⟩ := map_eq_some_iff.mp h
    exact .call hc hn (callMove_of_step hcall)

theorem CallMove.runs {e} (h : u.CallMove c node e silo c') :
    node.Runs { node with silo := silo } := by
  cases h with
  | dispatch => exact node.runs_dispatch c.req
  | deliver _ _ _ hsend => exact Node.runs_of_step hsend
  | _ => exact .refl node

theorem step_nodes (h : u.step e = some v) :
    v.nodes = u.nodes ∨ ∃ n node node', u.nodes[n]? = some node ∧ node.Runs node' ∧
      (e.keepsRing = true → node'.ring = node.ring) ∧ v.nodes = u.nodes.set n node' := by
  cases move_of_step h with
  | silo hn hsilo => exact .inr ⟨_, _, _, hn, Node.runs_of_step hsilo, fun _ => rfl, rfl⟩
  | @setRing n node ring hn =>
    exact .inr ⟨n, node, { node with ring := ring }, hn, ⟨rfl, rfl, rfl, [], rfl⟩,
      fun hring => absurd hring (by simp [ClusterEvent.keepsRing]), rfl⟩
  | @ctxGetRef _ _ node _ _ _ hn | @getLocal _ _ node _ _ hn =>
    exact .inr ⟨_, node, _, hn, node.runs_activate _ _, fun _ => rfl, rfl⟩
  | call _ hn hmove => exact .inr ⟨_, _, _, hn, hmove.runs, fun _ => rfl, rfl⟩
  | _ => exact .inl rfl

theorem call_of_step {c} (hc : u.calls[j]? = some c) (h : u.step e = some v) :
    v.calls[j]? = some c ∨ ∃ e' node silo c',
      e = .call j e' ∧ u.nodes[c.node]? = some node ∧ u.CallMove c node e' silo c' ∧
        v.calls[j]? = some c' := by
  have hlt := lt_of_getElem? hc
  cases move_of_step h with
  | askLocal | askClosed | askRemote | invoke => exact .inl ((getElem?_append_left hlt).trans hc)
  | @call j' e c₀ c' node silo hc₀ hn hmove =>
    by_cases hj : j' = j
    · subst hj
      cases hc.symm.trans hc₀
      exact .inr ⟨e, node, silo, c', rfl, hn, hmove, getElem?_set_self hlt⟩
    · exact .inl ((getElem?_set_ne hj).trans hc)
  | _ => exact .inl hc

/-! ## One ring -/

/-- All silos hold the ring `r` and use hash placement, and the addresses on the ring are
theirs. -/
structure Shares (u : Cluster S) (r : HashRing) : Prop where
  ring : ∀ node ∈ u.nodes, node.ring = r
  placement : ∀ node ∈ u.nodes, node.placement = hashBasedPlacement
  addresses : ∀ a ∈ r.ring.values, ∃ node ∈ u.nodes, node.localAddr = a
  siloId_inj : ∀ (n m : ℕ) (node node' : Node S), u.nodes[n]? = some node →
    u.nodes[m]? = some node' → node.localAddr.siloId = node'.localAddr.siloId → n = m
  endpoint_inj : ∀ (n m : ℕ) (node node' : Node S), u.nodes[n]? = some node →
    u.nodes[m]? = some node' → node.localAddr.endpoint = node'.localAddr.endpoint → n = m

theorem getElem?_nodes_set {n} {node node'} (hn : u.nodes[n]? = some node) (hruns : node.Runs node')
    (hring : node'.ring = node.ring) (hv : v.nodes = u.nodes.set n node') {m : ℕ} {q'}
    (hq' : v.nodes[m]? = some q') : ∃ q, u.nodes[m]? = some q ∧ q.Runs q' ∧ q'.ring = q.ring := by
  rw [hv, getElem?_set] at hq'
  split_ifs at hq' with hnm hlt
  · subst hnm
    cases hq'
    exact ⟨node, hn, hruns, hring⟩
  · exact ⟨q', hq', .refl q', rfl⟩

namespace Shares

section

variable (h : u.Shares r) {node : Node S}
include h

theorem set {node node' : Node S} (hn : u.nodes[n]? = some node) (hruns : node.Runs node')
    (hring : node'.ring = node.ring) (hv : v.nodes = u.nodes.set n node') : v.Shares r := by
  have hset : ∀ {m : ℕ} {q' : Node S}, v.nodes[m]? = some q' → ∃ q, u.nodes[m]? = some q ∧
      q.Runs q' ∧ q'.ring = q.ring := getElem?_nodes_set hn hruns hring hv
  have hmem : ∀ q' ∈ v.nodes, ∃ q ∈ u.nodes, q.Runs q' ∧ q'.ring = q.ring := by
    intro q' hq'
    obtain ⟨m, hm⟩ := getElem?_of_mem hq'
    obtain ⟨q, hq, hrest⟩ := hset hm
    exact ⟨q, mem_of_getElem? hq, hrest⟩
  refine ⟨fun q' hq' => ?_, fun q' hq' => ?_, fun a ha => ?_,
    fun m m' q' p' hq' hp' heq => ?_, fun m m' q' p' hq' hp' heq => ?_⟩
  · obtain ⟨q, hq, -, hqr⟩ := hmem q' hq'
    rw [hqr, h.ring q hq]
  · obtain ⟨q, hq, hqs, -⟩ := hmem q' hq'
    rw [hqs.placement, h.placement q hq]
  · obtain ⟨q, hq, rfl⟩ := h.addresses a ha
    obtain ⟨m, hm⟩ := getElem?_of_mem hq
    have hlt : m < v.nodes.length := by
      simpa [hv] using (lt_of_getElem? hm)
    obtain ⟨q₁, hq₁, hqs, -⟩ := hset (getElem?_eq_getElem hlt)
    refine ⟨_, getElem_mem hlt, ?_⟩
    rw [hqs.localAddr, some.inj (hq₁.symm.trans hm)]
  · obtain ⟨q, hq, hqs, -⟩ := hset hq'
    obtain ⟨p, hp, hps, -⟩ := hset hp'
    exact h.siloId_inj m m' q p hq hp (hqs.localAddr ▸ hps.localAddr ▸ heq)
  · obtain ⟨q, hq, hqs, -⟩ := hset hq'
    obtain ⟨p, hp, hps, -⟩ := hset hp'
    exact h.endpoint_inj m m' q p hq hp (hqs.localAddr ▸ hps.localAddr ▸ heq)

theorem of_nodes (heq : v.nodes = u.nodes) : v.Shares r :=
  ⟨heq ▸ h.ring, heq ▸ h.placement, heq ▸ h.addresses, heq ▸ h.siloId_inj, heq ▸ h.endpoint_inj⟩

theorem step {e} (he : e.keepsRing = true) (hstep : u.step e = some v) : v.Shares r := by
  rcases step_nodes hstep with heq | ⟨n, node, node', hn, hruns, hring, heq⟩
  · exact h.of_nodes heq
  · exact h.set hn hruns (hring he) heq

theorem ring_eq (hn : u.nodes[n]? = some node) : node.ring = r :=
  h.ring node (mem_of_getElem? hn)

theorem nodeAt (hn : u.nodes[n]? = some node) : u.nodeAt node.localAddr.endpoint = some n := by
  obtain ⟨hlt, hnode⟩ := List.getElem?_eq_some_iff.mp hn
  refine List.findIdx?_eq_some_iff_getElem.mpr ⟨hlt, by simp [hnode], fun m hm => ?_⟩
  have hm' : u.nodes[m]? = some u.nodes[m] := List.getElem?_eq_getElem _
  simp only [beq_iff_eq]
  intro heq
  exact absurd (h.endpoint_inj m n _ node hm' hn heq) (by omega)

theorem exists_node {a} (ha : a ∈ r.ring.values) :
    ∃ (m : ℕ) (node : Node S), u.nodes[m]? = some node ∧ node.localAddr = a := by
  obtain ⟨node, hmem, hnode⟩ := h.addresses a ha
  obtain ⟨m, hm⟩ := getElem?_of_mem hmem
  exact ⟨m, node, hm, hnode⟩

end

end Shares

/-! ## A call on its silo -/

theorem step_advance (hc : w.calls[j]? = some c) (hn : w.nodes[c.node]? = some node)
    (h : w.callStep c node c.phase .advance = some (silo, c')) :
    ∃ v, w.step (.call j .advance) = some v ∧ v.calls[j]? = some c' ∧
      v.nodes[c.node]? = some { node with silo := silo } := by
  refine ⟨_, by simp only [step, hc, hn, h]; rfl, ?_, ?_⟩
  · exact getElem?_set_of_lookup hc
  · exact getElem?_set_of_lookup hn

end Cluster

end Orlando
