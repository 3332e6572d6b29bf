import Orlando.Routing

/-!
# References of handlers

A handler that asks its context for a reference gets the activation in the directory of its own
silo : `ctx.get_ref` knows nothing of the ring.
-/

namespace Orlando

open List Silo MessageRegistry Option

variable {S : Type}

def GrainType.HashPlaced (G : GrainType S) : Prop :=
  G.placementHint ≠ some "prefer_local" ∧ G.placementHint ≠ some "random"

def Node.owns (node : Node S) (G : GrainType S) (key : String) : Bool :=
  match node.ring.get (ringKey G.grainTypeName key) with
  | some a => a.siloId == node.localAddr.siloId
  | none => false

def Ref.FromCluster (ref : Ref S) (G : GrainType S) (key : String) : Prop :=
  ref.grainType = G ∧ ref.key = key ∧ ref.fromHandler = false

/-- The call is on its way to task `i` of silo `o`, or has got there, unless the request
itself is refused : for its size, or by the registry. -/
def CallPhase.Toward (o i : ℕ) : CallPhase S → Prop
  | .received => True
  | .owned => True
  | .dispatching => True
  | .calling j _ => j = i
  | .done (.delivered n j) => n = o ∧ j = i
  | .done (.failed _) => True
  | .done (.rejected (.invalidArgument _)) => True
  | _ => False

/-- The call is one of the grain, has stayed on silo `o` and is on its way to task `i`. -/
structure GrainCall.OnWay (c : GrainCall S) (G : GrainType S) (key : String) (o i : ℕ) :
    Prop where
  node : c.node = o
  hops : c.hops = 0
  grainType : c.req.grainType = G.grainTypeName
  grainKey : c.req.grainKey = key
  phase : c.phase.Toward o i

namespace Cluster

/-- The silos share the ring `r`, and all know the grain type. -/
structure OneRing (u : Cluster S) (r : HashRing) (G : GrainType S) : Prop extends Shares u r where
  registered : ∀ node ∈ u.nodes,
    node.registry.grainTypeStr G.grainTypeName = some G.grainTypeName

def OwnerServes (u : Cluster S) (G : GrainType S) (key : String) (o i : ℕ) : Prop :=
  ∃ node t, u.nodes[o]? = some node ∧ node.owns G key = true ∧
    node.silo.openTask (G.id key) = some (i, t)

/-- Whether the registry and the limits of a silo take a call of the grain. -/
def Takes (u : Cluster S) (o : ℕ) (G : GrainType S) (call : NetworkCall S) : Prop :=
  call.payload.length ≤ maxPayloadSize ∧ ∃ node G' env, u.nodes[o]? = some node ∧
    node.registry.dispatch G.grainTypeName call.messageType call.messageVersion call.payload
      .bincode = .ok (G', env)

/-- The last reference of `u` is to the activation on the ring owner, and those of
`ClusterSilo::get_ref` lead there too : all calls through them, as long as the owner serves the
grain by it, and at once from every silo. -/
def ReachesOwner (u : Cluster S) (r : HashRing) (G : GrainType S) (key : String) : Prop :=
  ∃ o i, u.OwnerServes G key o i ∧
    (u.refs.getLast?.map Ref.inner) = some (.localRef o (some i)) ∧
    (∀ es v, exec step u es = some v →
      Along step (fun w _ => w.OneRing r G ∧ w.OwnerServes G key o i) u es →
      ∀ j c k ref, u.calls.length ≤ j → v.calls[j]? = some c → c.ref = some k →
        u.refs.length ≤ k → v.refs[k]? = some ref → ref.FromCluster G key →
        c.node = o ∧ c.hops = 0 ∧ c.phase.Toward o i) ∧
    ∀ n < u.nodes.length, ∀ draw call, u.Takes o G call → ∃ es v c,
      exec step u (.getRef n G key draw :: .ask u.refs.length call :: es) = some v ∧
      v.calls[u.calls.length]? = some c ∧ c.phase = .done (.delivered o i)

variable {u v w : Cluster S} {r : HashRing} {G : GrainType S} {key : String} {o i : ℕ}
  {node : Node S} {env : Envelope S} {req : InvokeRequest} {reg : MessageRegistry S}
  {G' : GrainType S} {grainType messageType : String} {encoding : Encoding} {payload : Bytes}
  {version : ℕ} {t : Task S} {n : ℕ} {gid : GrainId} {s : Silo S}

/-! ## The ring owner -/

theorem place_of_hashPlaced (hG : G.HashPlaced) (hp : node.placement = hashBasedPlacement)
    (draw) : node.place G key draw = node.ring.get (ringKey G.grainTypeName key) := by
  unfold Node.place
  split
  · rename_i h
    exact absurd h hG.1
  · rename_i h
    exact absurd h hG.2
  · rw [hp]
    rfl

theorem Shares.get_of_owns (h : u.Shares r) (hn : u.nodes[o]? = some node)
    (ho : node.owns G key = true) : r.get (ringKey G.grainTypeName key) = some node.localAddr := by
  unfold Node.owns at ho
  rw [h.ring_eq hn] at ho
  split at ho
  · rename_i a hg
    obtain ⟨node', hmem, rfl⟩ := h.addresses a (HashRing.mem_values_of_get hg)
    obtain ⟨m, hm⟩ := getElem?_of_mem hmem
    obtain rfl := h.siloId_inj m o node' node hm hn (by simpa using ho)
    rw [hg, some.inj (hm.symm.trans hn)]
  · cases ho

theorem Shares.place (h : u.Shares r) (hG : G.HashPlaced) {onode node}
    (ho : u.nodes[o]? = some onode) (hown : onode.owns G key = true) (hn : u.nodes[n]? = some node)
    (draw) : node.place G key draw = some onode.localAddr := by
  rw [place_of_hashPlaced hG (h.placement node (mem_of_getElem? hn)), h.ring_eq hn,
    h.get_of_owns ho hown]

theorem findOwner_of_owns (ho : node.owns G key = true) :
    node.findOwner G.grainTypeName key = none := by
  unfold Node.owns at ho
  unfold Node.findOwner
  split at ho
  · rename_i a hget
    simpa [hget] using ho
  · cases ho

theorem OneRing.step (h : u.OneRing r G) {e} (he : e.keepsRing = true)
    (hs : u.step e = some v) : v.OneRing r G := by
  refine ⟨h.toShares.step he hs, ?_⟩
  rcases step_nodes hs with heq | ⟨n, node, node', hn, hruns, hring, heq⟩
  · exact heq ▸ h.registered
  · intro q' hq'
    obtain ⟨m, hm⟩ := getElem?_of_mem hq'
    obtain ⟨q, hq, hqs, -⟩ := getElem?_nodes_set hn hruns (hring he) heq hm
    rw [hqs.registry, h.registered q (mem_of_getElem? hq)]

theorem OneRing.run (h : u.OneRing r G) {es}
    (hes : Along Cluster.step (fun _ e => e.keepsRing = true) u es)
    (hv : exec Cluster.step u es = some v) : v.OneRing r G :=
  exec_invariant (I := fun w => w.OneRing r G) (fun _ _ _ he hI hstep => hI.step he hstep) h hes hv

/-! ## A call on the owner -/

theorem activate_of_open (kind) (h : s.openTask gid = some (i, t)) :
    s.activate gid kind = (some i, s.existing gid) := by
  rw [activate, h]

theorem grainTypeStr_eq_some {grainType typeName}
    (h : reg.grainTypeStr grainType = some typeName) : typeName = grainType := by
  obtain ⟨q, hq, rfl⟩ := map_eq_some_iff.mp h
  simpa using find?_some hq

theorem grainTypeStr_of_dispatch {found : GrainType S × Envelope S}
    (h : reg.dispatch grainType messageType version payload encoding = .ok found) :
    reg.grainTypeStr grainType = some grainType := by
  unfold dispatch at h
  split at h
  · cases h
  · rename_i typeName hname
    rw [hname, grainTypeStr_eq_some hname]

theorem grainTypeName_of_dispatch
    (h : reg.dispatch grainType messageType version payload encoding = .ok (G', env)) :
    G'.grainTypeName = grainType := by
  revert h
  fun_cases dispatch reg grainType messageType version payload encoding <;>
    intro h <;> try cases h
  next typeName hname _ _ _ r hfind =>
    have hr := find?_some hfind
    simp only [Bool.and_eq_true, beq_iff_eq] at hr
    cases hdec : r.decode encoding payload with
    | error e => simp [hdec, Except.map] at h
    | ok env' =>
      simp only [hdec, Except.map, Except.ok.injEq, Prod.mk.injEq] at h
      rw [← h.1, hr.1, grainTypeStr_eq_some hname]

theorem receive_of_findOwner (hfind : node.findOwner req.grainType req.grainKey = none)
    (hsize : req.payload.length ≤ maxPayloadSize) : node.receive req = .owned := by
  rw [Node.receive, if_neg (not_lt.mpr hsize), hfind]

theorem checkLocal_of_serves
    (hreg : node.registry.grainTypeStr G.grainTypeName = some G.grainTypeName)
    (hopen : node.silo.openTask (G.id key) = some (i, t)) (ht : req.grainType = G.grainTypeName)
    (hk : req.grainKey = key) : node.checkLocal req = .dispatching := by
  have hactive : node.isActive req.grainType req.grainKey = true := by
    rw [Node.isActive, ht, hk, hreg]
    exact congrArg isSome hopen
  rw [Node.checkLocal, if_pos hactive]

theorem dispatch_of_serves (hopen : node.silo.openTask (G.id key) = some (i, t))
    (ht : req.grainType = G.grainTypeName) (hk : req.grainKey = key) :
    (∃ G' env, node.registry.dispatch req.grainType req.messageType req.messageVersion
        req.payload (.fromProto req.encoding) = .ok (G', env) ∧
      node.dispatch req = (.calling i env, node.silo.existing (G.id key))) ∨
      ∃ e, node.registry.dispatch req.grainType req.messageType req.messageVersion
          req.payload (.fromProto req.encoding) = .error e ∧
        node.dispatch req = (.done (.failed e), node.silo) := by
  unfold Node.dispatch
  cases hd : node.registry.dispatch req.grainType req.messageType req.messageVersion
      req.payload (.fromProto req.encoding) with
  | error e => exact .inr ⟨e, rfl, rfl⟩
  | ok found =>
    obtain ⟨G', env⟩ := found
    have hid : G'.id req.grainKey = G.id key := by
      rw [GrainType.id, GrainType.id, grainTypeName_of_dispatch hd, ht, hk]
    refine .inl ⟨G', env, rfl, ?_⟩
    simp only [hid, activate_of_open _ hopen]

theorem serves_of_dispatch (hopen : node.silo.openTask ⟨req.grainType, req.grainKey⟩ = some (i, t))
    (hdisp : node.registry.dispatch req.grainType req.messageType req.messageVersion req.payload
      (.fromProto req.encoding) = .ok (G, env)) :
    node.silo.openTask (G.id req.grainKey) = some (i, t) ∧ node.checkLocal req = .dispatching ∧
      node.dispatch req = (.calling i env, node.silo.existing (G.id req.grainKey)) := by
  have hname := grainTypeName_of_dispatch hdisp
  have hreg : node.registry.grainTypeStr G.grainTypeName = some G.grainTypeName := by
    rw [hname, grainTypeStr_of_dispatch hdisp]
  have hopen' : node.silo.openTask (G.id req.grainKey) = some (i, t) := by
    rw [GrainType.id, hname, hopen]
  refine ⟨hopen', checkLocal_of_serves hreg hopen' hname.symm rfl, ?_⟩
  rcases dispatch_of_serves hopen' hname.symm rfl with ⟨G', env', hd, hres⟩ | ⟨e, hd, -⟩
  · obtain ⟨-, rfl⟩ := Prod.mk.inj (Except.ok.inj (hdisp.symm.trans hd))
    exact hres
  · cases hdisp.symm.trans hd

theorem CallMove.toward {c c' e silo} (ho : node.owns G key = true)
    (hreg : node.registry.grainTypeStr G.grainTypeName = some G.grainTypeName)
    (hopen : node.silo.openTask (G.id key) = some (i, t)) (hc : c.OnWay G key o i)
    (h : u.CallMove c node e silo c') : c'.OnWay G key o i := by
  obtain ⟨hn, hhops, ht, hk, hph⟩ := hc
  cases h with
  | receive hp =>
    refine ⟨hn, hhops, ht, hk, ?_⟩
    by_cases hsize : c.req.payload.length ≤ maxPayloadSize
    · have hfind : node.findOwner c.req.grainType c.req.grainKey = none := by
        rw [ht, hk, findOwner_of_owns ho]
      simp [receive_of_findOwner hfind hsize, CallPhase.Toward]
    · simp [Node.receive, not_le.mp hsize, CallPhase.Toward]
  | forward hp | fail _ hp | looked hp | found hp | absent hp =>
    simp [hp, CallPhase.Toward] at hph
  | check hp =>
    refine ⟨hn, hhops, ht, hk, ?_⟩
    simp [checkLocal_of_serves hreg hopen ht hk, CallPhase.Toward]
  | dispatch hp =>
    refine ⟨hn, hhops, ht, hk, ?_⟩
    rcases dispatch_of_serves hopen ht hk with ⟨G', env, -, hd⟩ | ⟨e, -, hd⟩ <;>
      simp [hd, CallPhase.Toward]
  | @closed j env t' hp hj hrx =>
    obtain rfl : j = i := by simpa [hp, CallPhase.Toward] using hph
    obtain ⟨-, hi, hrx'⟩ := openTask_eq_some.mp hopen
    cases hi.symm.trans hj
    simp [hrx'] at hrx
  | @deliver j env t' silo hp hj =>
    obtain rfl : j = i := by simpa [hp, CallPhase.Toward] using hph
    exact ⟨hn, hhops, ht, hk, hn, rfl⟩

/-! ## Runs -/

variable (r G key o i) in
/-- References numbered from `k₀` hold a sender of task `i` or the address of the owner, and calls
numbered from `j₀` are on their way to task `i`. -/
structure Routed (k₀ j₀ : ℕ) (u : Cluster S) : Prop where
  refs : ∀ k ref, k₀ ≤ k → u.refs[k]? = some ref → ref.FromCluster G key →
    ref.inner = .localRef o (some i) ∨
      ∃ a, r.get (ringKey G.grainTypeName key) = some a ∧ ref.inner = .remoteRef a.endpoint
  bound : ∀ j c k, j₀ ≤ j → u.calls[j]? = some c → c.ref = some k → k < u.refs.length
  calls : ∀ j c k ref, j₀ ≤ j → u.calls[j]? = some c → c.ref = some k → k₀ ≤ k →
    u.refs[k]? = some ref → ref.FromCluster G key →
    c.OnWay G key o i

variable {k₀ j₀ : ℕ} {call : NetworkCall S} {a b : Silo UInt8} {c : GrainCall S} {ref : Ref S}

variable (r G key o i) in
theorem Routed.init (u) : Routed r G key o i u.refs.length u.calls.length u := by
  have hrefs : ∀ k ref, u.refs.length ≤ k → u.refs[k]? ≠ some ref := fun k ref hk hq =>
    absurd (lt_of_getElem? hq) (not_lt.mpr hk)
  have hcalls : ∀ j c, u.calls.length ≤ j → u.calls[j]? ≠ some c := fun j c hj hc =>
    absurd (lt_of_getElem? hc) (not_lt.mpr hj)
  exact ⟨fun k ref hk hq => absurd hq (hrefs k ref hk),
    fun j c k hj hc => absurd hc (hcalls j c hj),
    fun j c k ref hj hc => absurd hc (hcalls j c hj)⟩

section

variable (h : Routed r G key o i k₀ j₀ u) {c : GrainCall S} {ref : Ref S}
include h

theorem Routed.of_eq (hrefs : v.refs = u.refs) (hc : v.calls = u.calls) :
    Routed r G key o i k₀ j₀ v :=
  ⟨hrefs ▸ h.refs, hrefs ▸ hc ▸ h.bound, hrefs ▸ hc ▸ h.calls⟩

theorem Routed.addRef (hrefs : v.refs = u.refs ++ [ref]) (hcalls : v.calls = u.calls)
    (hnew : ref.FromCluster G key → ref.inner = .localRef o (some i) ∨ ∃ a, r.get (ringKey
      G.grainTypeName key) = some a ∧ ref.inner = .remoteRef a.endpoint) :
    Routed r G key o i k₀ j₀ v := by
  refine ⟨fun k q hk hq hof => ?_, fun j c k hj hc hck => ?_, fun j c k q hj hc hck hk hq hof => ?_⟩
  · rcases getElem?_snoc (hrefs ▸ hq) with hq | ⟨-, rfl⟩
    · exact h.refs k q hk hq hof
    · exact hnew hof
  · rw [hcalls] at hc
    rw [hrefs, length_append]
    have := h.bound j c k hj hc hck
    omega
  · rw [hcalls] at hc
    rw [hrefs, getElem?_append_left (h.bound j c k hj hc hck)] at hq
    exact h.calls j c k q hj hc hck hk hq hof

theorem Routed.addCall (hrefs : v.refs = u.refs) (hcalls : v.calls = u.calls ++ [c])
    (hbound : ∀ k, c.ref = some k → k < u.refs.length)
    (hnew : ∀ k ref, c.ref = some k → k₀ ≤ k → u.refs[k]? = some ref → ref.FromCluster G key →
      c.OnWay G key o i) : Routed r G key o i k₀ j₀ v := by
  have hl : ∀ (j : ℕ) d, v.calls[j]? = some d → u.calls[j]? = some d ∨ d = c := fun j d hd =>
    (getElem?_snoc (hcalls ▸ hd)).imp_right And.right
  refine ⟨hrefs ▸ h.refs, fun j d k hj hd hdk => ?_, fun j d k q hj hd hdk hk hq hof => ?_⟩
  · rw [hrefs]
    rcases hl j d hd with hd | rfl
    · exact h.bound j d k hj hd hdk
    · exact hbound k hdk
  · rw [hrefs] at hq
    rcases hl j d hd with hd | rfl
    · exact h.calls j d k q hj hd hdk hk hq hof
    · exact hnew k q hdk hk hq hof

theorem Routed.setCall {j c c'} (hc : u.calls[j]? = some c)
    (hrefs : v.refs = u.refs) (hcalls : v.calls = u.calls.set j c') (href : c'.ref = c.ref)
    (hnew : c.OnWay G key o i → c'.OnWay G key o i) : Routed r G key o i k₀ j₀ v := by
  have hset : ∀ {m : ℕ} {d k}, v.calls[m]? = some d → d.ref = some k →
      u.calls[m]? = some d ∨ d = c' ∧ u.calls[m]? = some c ∧ c.ref = some k := by
    intro m d k hd hdk
    rcases getElem?_set_cases hc (hcalls ▸ hd) with ⟨rfl, rfl⟩ | ⟨-, hd'⟩
    · exact .inr ⟨rfl, hc, href ▸ hdk⟩
    · exact .inl hd'
  refine ⟨hrefs ▸ h.refs, fun m d k hm hd hdk => ?_, fun m d k q hm hd hdk hk hq hof => ?_⟩
  · rw [hrefs]
    rcases hset hd hdk with hd' | ⟨-, hc', hck⟩
    · exact h.bound m d k hm hd' hdk
    · exact h.bound m c k hm hc' hck
  · rw [hrefs] at hq
    rcases hset hd hdk with hd' | ⟨rfl, hc', hck⟩
    · exact h.calls m d k q hm hd' hdk hk hq hof
    · exact hnew (h.calls m c k q hm hc' hck hk hq hof)

theorem Routed.localActivate (hserves : u.OwnerServes G key o i) {n node}
    {G' : GrainType S} {key' fromHandler} (hn : u.nodes[n]? = some node)
    (hown : fromHandler = false → G' = G → key' = key → n = o) :
    Routed r G key o i k₀ j₀ (u.localActivate n node G' key' fromHandler) := by
  refine h.addRef rfl rfl fun hof => .inl ?_
  obtain ⟨rfl, rfl, hfrom⟩ := hof
  obtain rfl := hown hfrom rfl rfl
  obtain ⟨onode, t, ho, -, hopen⟩ := hserves
  cases ho.symm.trans hn
  exact congrArg (fun p => RefInner.localRef n p.1) (activate_of_open _ hopen)

theorem Routed.ask (hone : u.OneRing r G) {onode} (ho : u.nodes[o]? = some onode)
    (hown : onode.owns G key = true) {k} (href : u.refs[k]? = some ref) (hc : c.ref = some k)
    (hnew : ref.grainType = G → ref.key = key → ref.inner = .localRef o (some i) ∨ ref.inner =
      .remoteRef onode.localAddr.endpoint → c.OnWay G key o i) :
    Routed r G key o i k₀ j₀ { u with calls := u.calls ++ [c] } := by
  refine h.addCall rfl rfl (fun m hm => ?_) fun m q hm hkm hq hof => ?_
  · cases hc.symm.trans hm
    exact lt_of_getElem? href
  · cases hc.symm.trans hm
    cases href.symm.trans hq
    refine hnew hof.1 hof.2.1 ((h.refs k ref hkm href hof).imp_right ?_)
    rintro ⟨a, ha, hinner⟩
    rw [hinner, some.inj (ha.symm.trans (hone.toShares.get_of_owns ho hown))]

theorem Routed.step (hG : G.HashPlaced) (hone : u.OneRing r G) (hserves : u.OwnerServes G key o i)
    {e} (hstep : u.step e = some v) : Routed r G key o i k₀ j₀ v := by
  obtain ⟨onode, t, ho, hown, hopen⟩ := id hserves
  cases move_of_step hstep with
  | ctxGetRef G' key' hn => exact h.localActivate hserves hn fun hfrom => by cases hfrom
  | getLocal hn hlocal =>
    refine h.localActivate hserves hn ?_
    rintro - rfl rfl
    exact hone.siloId_inj _ o _ onode hn ho (hlocal _ (hone.toShares.place hG ho hown hn _)).symm
  | @getRemote n draw node G' key' target hn htarget hne =>
    refine h.addRef rfl rfl fun hof => .inr ⟨target, ?_, rfl⟩
    obtain ⟨rfl, rfl, -⟩ := hof
    rw [hone.toShares.get_of_owns ho hown, ← htarget, hone.toShares.place hG ho hown hn]
  | askLocal call hk hin =>
    refine h.ask hone ho hown hk rfl ?_
    rintro rfl rfl hinner
    rw [hin] at hinner
    obtain ⟨rfl, hi⟩ := RefInner.localRef.inj (hinner.resolve_right (by simp))
    exact ⟨rfl, rfl, rfl, rfl, some.inj hi⟩
  | askClosed call hk hin =>
    refine h.ask hone ho hown hk rfl fun _ _ hinner => ?_
    rw [hin] at hinner
    exact absurd hinner (by simp)
  | askRemote call hk hin hat =>
    refine h.ask hone ho hown hk rfl ?_
    rintro rfl rfl hinner
    rw [hin] at hinner
    obtain rfl := RefInner.remoteRef.inj (hinner.resolve_left (by simp))
    cases (hone.toShares.nodeAt ho).symm.trans hat
    exact ⟨rfl, rfl, rfl, rfl, trivial⟩
  | askNowhere => exact h
  | invoke =>
    exact h.addCall rfl rfl (fun k hk => absurd hk (by simp)) fun k ref hk => absurd hk (by simp)
  | @call j e c c' node silo hc hn hm =>
    refine h.setCall hc rfl rfl hm.ref_eq fun hway => ?_
    rw [hway.node] at hn
    cases ho.symm.trans hn
    exact hm.toward hown (hone.registered onode (mem_of_getElem? ho)) hopen hway
  | _ => exact h.of_eq rfl rfl

/-! ## A call made right away -/

end

theorem getElem?_existing (h : s.openTask gid = some (i, t)) :
    (s.existing gid).tasks[i]? = some { t with refs := t.refs + 1 } := by
  obtain ⟨-, hi, -⟩ := openTask_eq_some.mp h
  rw [existing, h]
  exact getElem?_set_of_lookup hi

theorem exec_calling {j} (hc : w.calls[j]? = some c) (hn : w.nodes[c.node]? = some node)
    (hp : c.phase = .calling i env) (hi : node.silo.tasks[i]? = some t) (hrx : t.rxDropped = false)
    (hrefs : t.refs ≠ 0) :
    ∃ v c', exec step w [.call j .advance] = some v ∧ v.calls[j]? = some c' ∧
      c'.phase = .done (.delivered c.node i) := by
  have hcall : w.callStep c node c.phase .advance =
      some ({ node.silo with tasks := node.silo.tasks.set i { t with queue := t.queue ++ [env] } },
        { c with phase := .done (.delivered c.node i) }) := by
    simp [hp, callStep, hi, hrx, Silo.step, hrefs]
  obtain ⟨v, hv, hvc, -⟩ := step_advance hc hn hcall
  exact ⟨v, _, exec_cons_eq_some.mpr ⟨v, hv, rfl⟩, hvc, rfl⟩

theorem exec_received {j} (hc : w.calls[j]? = some c) (hn : w.nodes[c.node]? = some node)
    (hp : c.phase = .received) (hsize : c.req.payload.length ≤ maxPayloadSize)
    (hfind : node.findOwner c.req.grainType c.req.grainKey = none)
    (hopen : node.silo.openTask ⟨c.req.grainType, c.req.grainKey⟩ = some (i, t))
    (hdisp : node.registry.dispatch c.req.grainType c.req.messageType c.req.messageVersion
      c.req.payload (.fromProto c.req.encoding) = .ok (G', env)) :
    ∃ v c', exec step w (List.replicate 4 (.call j .advance)) = some v ∧
      v.calls[j]? = some c' ∧ c'.phase = .done (.delivered c.node i) := by
  obtain ⟨hopen', hcheck, hdispatch⟩ := serves_of_dispatch hopen hdisp
  have hcall : w.callStep c node c.phase .advance =
      some (node.silo, { c with phase := .owned }) := by
    simp only [hp, callStep, receive_of_findOwner hfind hsize]
  obtain ⟨w₁, h₁, hc₁, hn₁⟩ := step_advance hc hn hcall
  have hcall₁ : w₁.callStep { c with phase := .owned } node .owned .advance =
      some (node.silo, { c with phase := .dispatching }) := by
    simp only [callStep, hcheck]
  obtain ⟨w₂, h₂, hc₂, hn₂⟩ := step_advance hc₁ hn₁ hcall₁
  have hcall₂ : w₂.callStep { c with phase := .dispatching } node .dispatching .advance =
      some (node.silo.existing (G'.id c.req.grainKey), { c with phase := .calling i env }) := by
    simp only [callStep, hdispatch]
  obtain ⟨w₃, h₃, hc₃, hn₃⟩ := step_advance hc₂ hn₂ hcall₂
  obtain ⟨-, -, hrx⟩ := openTask_eq_some.mp hopen
  obtain ⟨v, c', hv, hvc, hvp⟩ :=
    exec_calling hc₃ hn₃ rfl (getElem?_existing hopen') hrx (Nat.succ_ne_zero _)
  refine ⟨v, c', ?_, hvc, hvp⟩
  exact exec_cons_eq_some.mpr ⟨w₁, h₁, exec_cons_eq_some.mpr ⟨w₂, h₂,
    exec_cons_eq_some.mpr ⟨w₃, h₃, hv⟩⟩⟩

theorem exec_ask_local {k} (call) (href : w.refs[k]? = some ref)
    (hin : ref.inner = .localRef o (some i)) (hn : w.nodes[o]? = some node)
    (hi : node.silo.tasks[i]? = some t) (hrx : t.rxDropped = false) (hrefs : t.refs ≠ 0) :
    ∃ es v c, exec step w (.ask k call :: es) = some v ∧ v.calls[w.calls.length]? = some c ∧
      c.phase = .done (.delivered o i) := by
  obtain ⟨c, hc⟩ : ∃ c : GrainCall S,
      c = ⟨some k, o, call.request ref.grainType ref.key, 0, .calling i call.envelope⟩ := ⟨_, rfl⟩
  have hask : w.step (.ask k call) = some { w with calls := w.calls ++ [c] } := by
    simp [step, href, hin, hc]
  have hlast : ({ w with calls := w.calls ++ [c] } : Cluster S).calls[w.calls.length]? = some c :=
    getElem?_concat_length
  obtain ⟨v, c', hv, hvc, hvp⟩ :=
    exec_calling hlast (hc ▸ hn) (by rw [hc]) hi hrx hrefs
  exact ⟨_, v, c', exec_cons_eq_some.mpr ⟨_, hask, hv⟩, hvc, by rw [hvp, hc]⟩

theorem exec_ask_remote {k endpoint} (href : w.refs[k]? = some ref)
    (hin : ref.inner = .remoteRef endpoint) (hat : w.nodeAt endpoint = some o)
    (hG : ref.grainType = G) (hkey : ref.key = key) (hn : w.nodes[o]? = some node)
    (hown : node.owns G key = true) (hopen : node.silo.openTask (G.id key) = some (i, t))
    (hsize : call.payload.length ≤ maxPayloadSize)
    (hdisp : node.registry.dispatch G.grainTypeName call.messageType call.messageVersion
      call.payload .bincode = .ok (G', env)) :
    ∃ es v c, exec step w (.ask k call :: es) = some v ∧ v.calls[w.calls.length]? = some c ∧
      c.phase = .done (.delivered o i) := by
  subst hG hkey
  obtain ⟨c, hc⟩ : ∃ c : GrainCall S,
      c = ⟨some k, o, call.request ref.grainType ref.key, 0, .received⟩ := ⟨_, rfl⟩
  have hask : w.step (.ask k call) = some { w with calls := w.calls ++ [c] } := by
    simp [step, href, hin, hat, hc]
  have hlast : ({ w with calls := w.calls ++ [c] } : Cluster S).calls[w.calls.length]? = some c :=
    getElem?_concat_length
  subst hc
  obtain ⟨v, c', hv, hvc, hvp⟩ := exec_received hlast hn rfl hsize (findOwner_of_owns hown) hopen
    hdisp
  exact ⟨_, v, c', exec_cons_eq_some.mpr ⟨_, hask, hv⟩, hvc, hvp⟩

theorem exec_getRef_ask (hG : G.HashPlaced) (hone : u.OneRing r G)
    (hserves : u.OwnerServes G key o i) (hn : n < u.nodes.length) (draw)
    (htakes : u.Takes o G call) : ∃ es v c,
      exec step u (.getRef n G key draw :: .ask u.refs.length call :: es) = some v ∧
      v.calls[u.calls.length]? = some c ∧ c.phase = .done (.delivered o i) := by
  obtain ⟨onode, t, ho, hown, hopen⟩ := hserves
  obtain ⟨hsize, node', G', env, ho', hdisp⟩ := htakes
  cases ho.symm.trans ho'
  obtain ⟨node, hnode⟩ : ∃ node, u.nodes[n]? = some node := ⟨_, getElem?_eq_getElem hn⟩
  have hpl := hone.toShares.place hG ho hown hnode draw
  by_cases hid : onode.localAddr.siloId = node.localAddr.siloId
  · -- The silo is the owner, and the reference holds a sender.
    obtain rfl := hone.siloId_inj o n onode node ho hnode hid
    cases ho.symm.trans hnode
    have hg : u.step (.getRef o G key draw) = some { u.setSilo o onode
        (onode.silo.existing (G.id key)) with
          refs := u.refs ++ [⟨G, key, false, .localRef o (some i)⟩] } := by
      simp [step, ho, hpl, localActivate, activate_of_open _ hopen]
    obtain ⟨-, -, hrx⟩ := openTask_eq_some.mp hopen
    obtain ⟨es, v, c, hv, hvc, hvp⟩ := exec_ask_local call
      (w := { u.setSilo o onode (onode.silo.existing (G.id key)) with
          refs := u.refs ++ [⟨G, key, false, .localRef o (some i)⟩] })
      getElem?_concat_length rfl
      (getElem?_set_of_lookup ho) (getElem?_existing hopen) hrx
      (Nat.succ_ne_zero _)
    exact ⟨es, v, c, exec_cons_eq_some.mpr ⟨_, hg, hv⟩, hvc, hvp⟩
  · -- The reference holds the owner's endpoint.
    have hg : u.step (.getRef n G key draw) = some { u with
          refs := u.refs ++ [⟨G, key, false, .remoteRef onode.localAddr.endpoint⟩] } := by
      simp [step, hnode, hpl, hid]
    obtain ⟨es, v, c, hv, hvc, hvp⟩ := exec_ask_remote (w := { u with
        refs := u.refs ++ [⟨G, key, false, .remoteRef onode.localAddr.endpoint⟩] })
      getElem?_concat_length rfl (hone.toShares.nodeAt ho) rfl rfl ho hown hopen hsize hdisp
    exact ⟨es, v, c, exec_cons_eq_some.mpr ⟨_, hg, hv⟩, hvc, hvp⟩

/-! ## The reference of a handler -/

theorem activate_isSome (s : Silo S) (gid kind) :
    (s.activate gid kind).1.isSome = s.accepts gid := by
  unfold activate accepts
  cases s.openTask gid with
  | some p => rfl
  | none =>
    cases s.draining with
    | true => simp
    | false =>
      by_cases hlim : 0 < s.maxActivations ∧ s.maxActivations ≤ s.activations.keys.length
      · have hmax : s.maxActivations ≠ 0 := by omega
        simp [hlim, hmax]
      · have hmax : s.maxActivations = 0 ∨ s.activations.keys.length < s.maxActivations := by
          omega
        simpa [hlim] using hmax

theorem openTask_activate {g} (h : (s.activate gid (.plain g)).1 = some i) :
    ∃ t, (s.activate gid (.plain g)).2.openTask gid = some (i, t) := by
  unfold activate at h ⊢
  cases ho : s.openTask gid with
  | some p =>
    obtain ⟨j, t⟩ := p
    simp only [ho, some.injEq] at h ⊢
    subst h
    obtain ⟨hl, -, hrx⟩ := openTask_eq_some.mp ho
    refine ⟨_, openTask_eq_some.mpr ⟨?_, getElem?_existing ho, hrx⟩⟩
    rw [existing, ho]
    exact hl
  | none =>
    simp only [ho] at h ⊢
    split_ifs at h ⊢
    cases h
    refine ⟨_, openTask_eq_some.mpr ⟨?_, getElem?_concat_length, rfl⟩⟩
    exact AList.lookup_insert _

/-- `ctx.get_ref` and `ClusterSilo::get_ref`, which follows the ring, lead to one activation exactly
if the handler runs on the owner; else the grain has two. -/
theorem handler_reference_iff (u u₁ : Cluster S) (r : HashRing) (G : GrainType S) (key : String)
    (n m : ℕ) (hG : G.HashPlaced) (hone : u.OneRing r G)
    (h : u.step (.ctxGetRef n m G key) = some u₁) :
    u₁.ReachesOwner r G key ↔ ∃ node, u.nodes[n]? = some node ∧ node.owns G key = true ∧
      node.silo.accepts (G.id key) = true := by
  obtain ⟨node, hn, rfl⟩ : ∃ node, u.nodes[n]? = some node ∧
      u₁ = u.localActivate n node G key true := by
    cases move_of_step h with
    | ctxGetRef _ _ hn => exact ⟨_, hn, rfl⟩
  have hlast : ((u.localActivate n node G key true).refs.getLast?.map Ref.inner) =
      some (.localRef n (node.silo.activate (G.id key) (.plain G.grain)).1) := by
    simp [localActivate]
  have hnode : (u.localActivate n node G key true).nodes[n]? =
      some { node with silo := (node.silo.activate (G.id key) (.plain G.grain)).2 } :=
    getElem?_set_of_lookup hn
  refine ⟨?_, ?_⟩
  · rintro ⟨o, i, ⟨onode, t, ho, hown, -⟩, href, -⟩
    rw [hlast] at href
    simp only [some.injEq, RefInner.localRef.injEq] at href
    obtain ⟨rfl, hact⟩ := href
    cases hnode.symm.trans ho
    refine ⟨node, hn, hown, ?_⟩
    rw [← activate_isSome _ _ (.plain G.grain), hact]
    rfl
  · rintro ⟨node', hn', hown, hacc⟩
    cases hn.symm.trans hn'
    rw [← activate_isSome _ _ (.plain G.grain)] at hacc
    obtain ⟨i, hact⟩ := isSome_iff_exists.mp hacc
    obtain ⟨t, hopen⟩ := openTask_activate hact
    have hserves : (u.localActivate n node G key true).OwnerServes G key n i :=
      ⟨_, t, hnode, hown, hopen⟩
    refine ⟨n, i, hserves, by rw [hlast, hact], ?_, ?_⟩
    · intro es v hv hal j c k ref hj hc hk hkk href hof
      have hrouted : Routed r G key n i (u.localActivate n node G key true).refs.length
          (u.localActivate n node G key true).calls.length v := by
        exact exec_invariant (fun w e w' hw hI hstep => hI.step hG hw.1 hw.2 hstep)
          (.init r G key n i _) hal hv
      have hway := hrouted.calls j c k ref hj hc hk hkk href hof
      exact ⟨hway.node, hway.hops, hway.phase⟩
    · intro n' hn' draw call htakes
      exact exec_getRef_ask hG (hone.step rfl h) hserves hn' draw htakes

/-! ## Two silos -/

def siloA : SiloAddress := ⟨"127.0.0.1", 5001, "silo-a"⟩

def siloB : SiloAddress := ⟨"127.0.0.1", 5002, "silo-b"⟩

def twoRing : HashRing := ((HashRing.new 1).add siloA).add siloB

/-- A counter, which the ring gives to the second silo under the key `k`. -/
def counterGrain : GrainType UInt8 where
  typeName := "app::Counter"
  grainTypeName := "Counter"
  placementHint := none
  grain := (counter false .writeThrough (.run false)).grain

/-- A grain that is served where it is asked for, and whose handlers call counters. -/
def frontGrain : GrainType UInt8 where
  typeName := "app::Front"
  grainTypeName := "Front"
  placementHint := some "prefer_local"
  grain := (counter false .writeThrough (.run false)).grain

def addRegistration : Registration UInt8 where
  grainType := counterGrain
  messageType := "Add"
  messageVersion := 0
  decode := fun _ payload => match payload with
    | [n] => .ok (addMessage n)
    | _ => .error (.deserialization "not one byte")

def addCall (n : UInt8) : NetworkCall UInt8 where
  envelope := addMessage n
  messageType := "Add"
  payload := [n]
  requestContext := ∅
  messageVersion := 0

def exampleNode (addr : SiloAddress) (silo : Silo UInt8) : Node UInt8 where
  localAddr := addr
  registry := [addRegistration]
  ring := twoRing
  placement := hashBasedPlacement
  silo := silo

def twoSilos : Cluster UInt8 where
  nodes := [exampleNode siloA (.init Shared.empty), exampleNode siloB (.init Shared.empty)]
  refs := []
  calls := []

def frontRuns (n : ℕ) : List (ClusterEvent UInt8) :=
  [.getRef n frontGrain "f" 0, .silo n (.mailbox 0 (.onActivate 0)),
    .silo n (.send 0 (addMessage 1)), .silo n (.recv 0)]

theorem getElem?_two {α : Type} {a b x : α} (h : [a, b][n]? = some x) :
    (n = 0 ∧ x = a) ∨ (n = 1 ∧ x = b) := by
  rcases n with _ | _ | n
  · exact .inl ⟨rfl, (some.inj h).symm⟩
  · exact .inr ⟨rfl, (some.inj h).symm⟩
  · cases h

theorem inj_pair {w : Cluster UInt8} (hw : w.nodes = [exampleNode siloA a, exampleNode siloB b])
    {f : SiloAddress → String} (hf : f siloA ≠ f siloB) (n m : ℕ) (node node')
    (hn : w.nodes[n]? = some node) (hm : w.nodes[m]? = some node')
    (heq : f node.localAddr = f node'.localAddr) : n = m := by
  rw [hw] at hn hm
  rcases getElem?_two hn with ⟨rfl, rfl⟩ | ⟨rfl, rfl⟩ <;>
    rcases getElem?_two hm with ⟨rfl, rfl⟩ | ⟨rfl, rfl⟩
  · rfl
  · exact absurd heq hf
  · exact absurd heq.symm hf
  · rfl

theorem shares_pair {w : Cluster UInt8}
    (hw : w.nodes = [exampleNode siloA a, exampleNode siloB b]) : w.Shares twoRing where
  ring := by simp [hw, exampleNode]
  placement := by simp [hw, exampleNode]
  addresses := by
    intro a ha
    rw [hw]
    rcases HashRing.mem_values_of_add ha with rfl | ha
    · exact ⟨exampleNode siloB _, mem_cons_of_mem _ mem_cons_self, rfl⟩
    · rcases HashRing.mem_values_of_add ha with rfl | ha
      · exact ⟨exampleNode siloA _, mem_cons_self, rfl⟩
      · simp [HashRing.new, OrderedMap.empty, OrderedMap.values] at ha
  siloId_inj := inj_pair hw (by decide)
  endpoint_inj := inj_pair hw (by decide +kernel)

theorem oneRing_two : twoSilos.OneRing twoRing counterGrain := by
  refine ⟨shares_pair rfl, ?_⟩
  simp [twoSilos, exampleNode, grainTypeStr, addRegistration]

theorem handler_reference_iff_counter : ∃ u u₁, exec step twoSilos (frontRuns 1) = some u ∧
      u.step (.ctxGetRef 1 0 counterGrain "k") = some u₁ ∧
      u₁.ReachesOwner twoRing counterGrain "k" := by
  have hkeeps : Along step (fun _ e => e.keepsRing = true) twoSilos (frontRuns 1) := by
    decide +kernel
  refine ⟨_, _, rfl, rfl, ?_⟩
  refine (handler_reference_iff _ _ twoRing counterGrain "k" 1 0 ⟨by decide, by decide⟩
    (oneRing_two.run hkeeps rfl) rfl).mpr ⟨_, rfl, ?_, ?_⟩
  · decide +kernel
  · decide +kernel

/-- A call at the owner looks up the other silos and follows the answer, which sends it
back. -/
def bounce (j : ℕ) : List (ClusterEvent UInt8) :=
  [.call j .advance, .call j .advance, .call j (.answer 0 true), .call j .advance,
    .call j .advance]

/-- A handler on the first silo asks for the counter, which belongs to the second : it is activated
on both. A call that comes to the owner before that goes back and forth until its hops are used up.
-/
theorem handler_reference_off_owner :
    (∃ u u₁ v, exec step twoSilos (frontRuns 0) = some u ∧
      u.step (.ctxGetRef 0 0 counterGrain "k") = some u₁ ∧
      ¬u₁.ReachesOwner twoRing counterGrain "k" ∧
      exec step u₁ ([.ask 1 (addCall 1), .call 0 .advance, .getRef 1 counterGrain "k" 0,
        .getRef 0 counterGrain "k" 0, .ask 3 (addCall 2)] ++
        List.replicate 4 (.call 1 .advance)) = some v ∧
      (v.calls.map fun c => c.phase.outcome) = [some (.delivered 0 1), some (.delivered 1 0)]) ∧
    ∃ v, exec step twoSilos (frontRuns 0 ++ [.ctxGetRef 0 0 counterGrain "k",
        .invoke 1 ((addCall 1).request counterGrain "k")] ++ bounce 0 ++ [.call 0 .advance] ++
        bounce 0) = some v ∧
      (v.calls.map fun c => c.phase.outcome) = [some (.rejected (.internal
        "maximum forwarding hops (3) exceeded — possible routing loop"))] := by
  refine ⟨⟨_, _, _, rfl, rfl, ?_, rfl, ?_⟩, _, rfl, ?_⟩
  · rintro ⟨o, i, ⟨node, t, hn, hown, -⟩, href, -⟩
    obtain ⟨rfl, -⟩ : 0 = o ∧ some 1 = some i := RefInner.localRef.inj (some.inj href)
    cases hn
    revert hown
    decide +kernel
  · decide +kernel
  · decide +kernel

end Cluster

end Orlando
