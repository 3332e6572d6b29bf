import Orlando.Services
import Orlando.StableRing

/-!
# Calls from other clusters

A call that another cluster forwards comes in at the gateway of one silo, which dispatches it where
it is (`Cluster.gatewayStep`). An `invoke` is routed by the ring.
-/

namespace Orlando

open List Cluster

variable {S : Type}

inductive GatewayEvent (S : Type) where
  | native (e : ClusterEvent S)
  | forwardInvoke (n : ℕ) (req : ForwardInvokeRequest)

def ForwardInvokeRequest.receive (req : ForwardInvokeRequest) : CallPhase S :=
  if maxPayloadSize < req.payload.length then
    .done (.rejected (.invalidArgument ("payload size " ++ toString req.payload.length ++
      " exceeds maximum of " ++ toString maxPayloadSize ++ " bytes")))
  else .dispatching

/-- The native steps are routine, and other clusters call the gateway of silo `n` for the
grain only if `W n gid`. -/
def GatewayEvent.Via (W : ℕ → GrainId → Prop) : GatewayEvent S → Prop
  | .native e => e.Routine
  | .forwardInvoke n req => W n req.gid

namespace Cluster

variable {u v w : Cluster S} {r : HashRing} {n m : ℕ} {gid : GrainId} {W : ℕ → GrainId → Prop}

def gatewayStep (u : Cluster S) : GatewayEvent S → Option (Cluster S)
  | .native e => u.step e
  | .forwardInvoke n req =>
    match u.nodes[n]? with
    | some _ => some { u with calls := u.calls ++ [⟨none, n, req.toInvokeRequest, 0, req.receive⟩] }
    | none => none

theorem exec_native (es) (u : Cluster S) :
    exec gatewayStep u (es.map .native) = exec step u es :=
  exec_map (fun _ _ => rfl) es u

structure Meets (u : Cluster S) : Prop where
  dispatched : ∀ c ∈ u.calls, ∀ c' ∈ u.calls, c.req.gid = c'.req.gid →
    c.phase.dispatched = true → c'.phase.dispatched = true → c.node = c'.node
  activations : ∀ (n m : ℕ) (node node' : Node S) (gid : GrainId), u.nodes[n]? = some node →
    u.nodes[m]? = some node' → gid ∈ node.silo.activations → gid ∈ node'.silo.activations → n = m

theorem Stable.meets (h : Stable r u) : u.Meets where
  dispatched c hc c' hc' hgid hphase hphase' := by
    have hown' := (h.calls c' hc').owner hphase'
    rw [← hgid] at hown'
    exact ((h.calls c hc).owner hphase).unique h.shares hown'
  activations n m node node' gid hn hm hgid hgid' :=
    (owner_of_localAddr hn ((h.serves n node hn).entries gid hgid)).unique h.shares
      (owner_of_localAddr hm ((h.serves m node' hm).entries gid hgid'))

theorem receive_gateway_placed {addr : ℕ → Option SiloAddress} {req : ForwardInvokeRequest}
    {hops} (h : Owner addr r n req.gid) :
    (req.receive : CallPhase S).Placed addr r n req.toInvokeRequest hops := by
  unfold ForwardInvokeRequest.receive
  split_ifs with hsize
  · exact hsize
  · exact h

theorem Stable.gatewayStep (h : Stable r u) (hr : r.isEmpty = false)
    (hW : ∀ n gid, (u.addr n).isSome = true → W n gid → Owner u.addr r n gid) {e : GatewayEvent S}
    (he : e.Via W) (hs : u.gatewayStep e = some v) : Stable r v ∧ v.addr = u.addr := by
  cases e with
  | native e => exact ⟨h.step hr he hs, addr_step hs⟩
  | forwardInvoke n req =>
    simp only [Cluster.gatewayStep] at hs
    split at hs
    · rename_i node hn
      cases hs
      have hown := hW n req.gid (by simp [addr, hn]) he
      exact ⟨h.addCall ⟨hown.isSome, Nat.zero_le _, receive_gateway_placed hown⟩, rfl⟩
    · cases hs

theorem Stable.gateway_run (h : Stable r u) (hr : r.isEmpty = false)
    (hW : ∀ n gid, (u.addr n).isSome = true → W n gid → Owner u.addr r n gid) {es}
    (hes : ∀ e ∈ es, e.Via W) (hrun : exec Cluster.gatewayStep u es = some v) : Stable r v := by
  refine (exec_invariant (I := fun w => Stable r w ∧ w.addr = u.addr) (fun w e w' he hw hs => ?_)
    ⟨h, rfl⟩ (Along.and_forall hes (along_true es u)) hrun).1
  obtain ⟨hstable, haddr⟩ := hw
  obtain ⟨hw', haddr'⟩ := hstable.gatewayStep hr (haddr ▸ hW) he.1 hs
  exact ⟨hw', haddr'.trans haddr⟩

def emptyRequest (gid : GrainId) : ForwardInvokeRequest where
  grainType := gid.typeName
  grainKey := gid.key
  messageType := ""
  payload := []
  encoding := 0
  requestContext := ∅
  messageVersion := 0
  sourceClusterId := ""

theorem dispatch_dispatched (node : Node S) (req) : (node.dispatch req).1.dispatched = true := by
  unfold Node.dispatch
  repeat' split
  all_goals rfl

theorem exec_forwardInvoke (hn : n < u.nodes.length) (req : ForwardInvokeRequest)
    (hsize : req.payload.length ≤ maxPayloadSize) :
    ∃ v c, exec gatewayStep u
        [.forwardInvoke n req, .native (.call u.calls.length .advance)] = some v ∧
      v.calls = u.calls ++ [c] ∧ c.req = req.toInvokeRequest ∧ c.node = n ∧
      c.phase.dispatched = true := by
  have hnode : u.nodes[n]? = some u.nodes[n] := getElem?_eq_getElem hn
  have hreceive : (req.receive : CallPhase S) = .dispatching := if_neg (Nat.not_lt.mpr hsize)
  refine ⟨{ u.setSilo n u.nodes[n] (u.nodes[n].dispatch req.toInvokeRequest).2 with
    calls := u.calls ++
      [⟨none, n, req.toInvokeRequest, 0, (u.nodes[n].dispatch req.toInvokeRequest).1⟩] },
    _, ?_, rfl, rfl, rfl, dispatch_dispatched _ _⟩
  simp only [exec, gatewayStep, hnode, Option.bind_some, step,
    getElem?_concat_length, hreceive, callStep, Option.map_some]
  simp [setSilo]

/-- Under one ring a grain has one activation exactly when the gateway that is called for it is that
of its owner. -/
theorem meets_iff (r : HashRing) (u : Cluster S) (hr : r.isEmpty = false) (hu : Fresh r u)
    (W : ℕ → GrainId → Prop) :
    (∀ (es : List (GatewayEvent S)) (v : Cluster S), (∀ e ∈ es, e.Via W) →
      exec Cluster.gatewayStep u es = some v → v.Meets) ↔
    ∀ (n : ℕ) (gid : GrainId), n < u.nodes.length → W n gid → Owner u.addr r n gid := by
  constructor
  · intro h n gid hn hW
    -- An `invoke` gets to the owner before the gateway is called.
    have hroutine :
        (ClusterEvent.invoke (S := S) n (emptyRequest gid).toInvokeRequest).Routine := by
      change 0 < 3
      decide
    obtain ⟨node, hnode⟩ : ∃ node, u.nodes[n]? = some node := ⟨_, getElem?_eq_getElem hn⟩
    have hinvoke : u.step (.invoke n (emptyRequest gid).toInvokeRequest) = some { u with
        calls := u.calls ++ [⟨none, n, (emptyRequest gid).toInvokeRequest, 0, .received⟩] } := by
      simp only [Cluster.step, hnode]
    obtain ⟨es, w, c, hes, hrun, hc, hgid, hdispatched⟩ :=
      (hu.stable.step hr hroutine hinvoke).exists_dispatched hr (Nat.zero_le _)
        getElem?_concat_length
    have hnative := exec_cons_eq_some.mpr ⟨_, hinvoke, hrun⟩
    have hall := forall_mem_cons.mpr ⟨hroutine, hes⟩
    have hw := hu.stable.run hr hall hnative
    have hown := (hw.calls c (mem_of_getElem? hc)).owner hdispatched
    have hlen : n < w.nodes.length := by rwa [← isSome_addr, addr_run hnative, isSome_addr]
    obtain ⟨v, c', hforward, hcalls, hreq', hnode', hdispatched'⟩ :=
      exec_forwardInvoke hlen (emptyRequest gid) (Nat.zero_le _)
    have hv : exec Cluster.gatewayStep u
        ((ClusterEvent.invoke n (emptyRequest gid).toInvokeRequest :: es).map .native ++
          [.forwardInvoke n (emptyRequest gid), .native (.call w.calls.length .advance)]) =
        some v := by
      rw [exec_append, exec_native, hnative]
      exact hforward
    have hmeets := h _ v ?_ hv
    · have hnodes := hmeets.dispatched c (by simp [hcalls, mem_of_getElem? hc]) c'
        (by simp [hcalls]) (by rw [hgid, hreq']) hdispatched hdispatched'
      rw [addr_run hnative, hnodes, hnode', hgid] at hown
      exact hown
    · simp only [mem_append, mem_map, mem_cons, not_mem_nil, or_false]
      rintro e (⟨e', he', rfl⟩ | rfl | rfl)
      · exact hall e' (mem_cons.mpr he')
      · exact hW
      · trivial
  · intro h es v hes hrun
    exact (hu.stable.gateway_run hr (fun n gid hn => h n gid (isSome_addr.mp hn)) hes hrun).meets

/-- The counter is called through the gateway of its owner, the second silo. -/
theorem meets_iff_owner : Fresh twoRing twoSilos ∧
    ∀ (es : List (GatewayEvent UInt8)) (v : Cluster UInt8),
      (∀ e ∈ es, e.Via fun n gid => n = 1 ∧ gid = counterGrain.id "k") →
      exec gatewayStep twoSilos es = some v → v.Meets := by
  refine ⟨fresh_two, (meets_iff twoRing twoSilos (by decide +kernel) fresh_two _).mpr ?_⟩
  rintro n gid - ⟨rfl, rfl⟩
  exact ⟨siloB, by decide +kernel, rfl⟩

def forwardedAdd : ForwardInvokeRequest where
  toInvokeRequest := (addCall 1).request counterGrain "k"
  sourceClusterId := "east"

def gatewayCalls : List (GatewayEvent UInt8) :=
  [.native (.invoke 0 ((addCall 1).request counterGrain "k"))] ++
    List.replicate 4 (.native (.call 0 .advance)) ++ [.native (.call 0 (.answer 0 true))] ++
    List.replicate 3 (.native (.call 0 .advance)) ++ [.forwardInvoke 0 forwardedAdd] ++
    List.replicate 2 (.native (.call 1 .advance))

/-- The counter belongs to the second silo. Another cluster calls it through the gateway of the
first, a client by `invoke`, and both silos have it active. -/
theorem gateway_off_owner : Fresh twoRing twoSilos ∧
    ∃ v, exec gatewayStep twoSilos gatewayCalls = some v ∧
      (v.calls.map fun c => (c.req.gid, c.phase.outcome)) =
        [(counterGrain.id "k", some (.delivered 1 0)),
          (counterGrain.id "k", some (.delivered 0 0))] ∧
      (v.nodes.map fun node => node.isActive "Counter" "k") = [true, true] ∧ ¬v.Meets := by
  have hrun : ((exec gatewayStep twoSilos gatewayCalls).map fun v =>
      (v.calls.map fun c => (c.req.gid, c.phase.outcome),
        v.nodes.map fun node => node.isActive "Counter" "k")) =
      some ([(counterGrain.id "k", some (.delivered 1 0)),
        (counterGrain.id "k", some (.delivered 0 0))], [true, true]) := by
    decide +kernel
  obtain ⟨v, hv, hmap⟩ := Option.map_eq_some_iff.mp hrun
  obtain ⟨hcalls, hnodes⟩ := Prod.mk.inj hmap
  have hactive : ∀ n < 2, ∃ node, v.nodes[n]? = some node ∧
      counterGrain.id "k" ∈ node.silo.activations := by
    intro n hn
    have hget : (v.nodes.map fun node => node.isActive "Counter" "k")[n]? = some true := by
      rw [hnodes]
      exact (by decide : ∀ n < 2, [true, true][n]? = some true) n hn
    rw [getElem?_map] at hget
    obtain ⟨node, hnode, hact⟩ := Option.map_eq_some_iff.mp hget
    exact ⟨node, hnode, mem_activations_of_isActive hact⟩
  refine ⟨fresh_two, v, hv, hcalls, hnodes, fun hmeets => ?_⟩
  obtain ⟨node, hnode, hgid⟩ := hactive 0 (by decide)
  obtain ⟨node', hnode', hgid'⟩ := hactive 1 (by decide)
  exact absurd (hmeets.activations 0 1 node node' _ hnode hnode' hgid hgid') (by decide)

end Cluster

end Orlando
