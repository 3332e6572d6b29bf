import Orlando.Services

/-!
# The way of a request

A request that reaches the transport of a silo is refused, sent on to another silo, sent to the
gateway of another cluster, or handed to the registry (`Visit.invoke`, `Server.invoke_eq_visit`).
The gateway hands it to its registry, and a request over TCP is sent on by the transport of its
owner.
-/

namespace Orlando

open Option

variable {S : Type}

/-! ## Requests that differ in their hop count -/

namespace InvokeRequest

structure SameCall (req req' : InvokeRequest) : Prop where
  with_eq : { req' with requestContext := req.requestContext } = req
  lookup : ∀ key ≠ hopCountKey, req'.requestContext.lookup key = req.requestContext.lookup key

variable {req req' : InvokeRequest}

theorem SameCall.refl (req : InvokeRequest) : req.SameCall req :=
  ⟨rfl, fun _ _ => rfl⟩

theorem SameCall.nextHop (h : req.SameCall req') : req.SameCall req'.nextHop where
  with_eq := h.with_eq
  lookup key hkey := by
    rw [InvokeRequest.nextHop, AList.lookup_insert_ne hkey, h.lookup key hkey]

theorem SameCall.dispatch_eq (h : req.SameCall req') (node : Node S) :
    node.dispatch req' = node.dispatch req := by
  conv_rhs => rw [← h.with_eq]
  rfl

theorem parseU32_toString : ∀ n ≤ maxHops, parseU32 (toString n) = some n := by
  decide +kernel

theorem hopCount_of_lookup_none (h : req.requestContext.lookup hopCountKey = none) :
    req.hopCount = 0 := by
  rw [hopCount, h]
  rfl

theorem hopCount_nextHop (h : req.hopCount < maxHops) :
    req.nextHop.hopCount = req.hopCount + 1 := by
  conv_lhs => rw [hopCount, nextHop, AList.lookup_insert]
  rw [bind_some, parseU32_toString _ h]
  rfl

/-- The same call, after it was forwarded so many times. -/
structure Forwarded (req : InvokeRequest) (hops : ℕ) (req' : InvokeRequest) : Prop where
  same : req.SameCall req'
  hopCount : req'.hopCount = req.hopCount + hops

theorem Forwarded.nextHop {hops} (h : req.Forwarded hops req') (hlt : req'.hopCount < maxHops) :
    req.Forwarded (hops + 1) req'.nextHop where
  same := h.same.nextHop
  hopCount := by rw [hopCount_nextHop hlt, h.hopCount, Nat.add_assoc]

end InvokeRequest

/-! ## Visits -/

structure TcpInvokeRequest where
  grainType : String
  grainKey : String
  messageType : String
  payload : Bytes
  context : AList fun _ : String => String

inductive Refusal where
  | rpc (error : RpcError)
  | tcp (error : String)

inductive Place where
  | transport (endpoint : String) (req : InvokeRequest)
  | gateway (req : ForwardInvokeRequest)
  | tcp (req : TcpInvokeRequest)
  | dispatched (req : InvokeRequest)
  | refused (refusal : Refusal)

structure Visit (S : Type) where
  node : Node S
  /-- The endpoint of another cluster and the name of this one, if `check_cross_cluster`
  sends the request there. -/
  crossCluster : Except RpcError (Option (String × String))
  /-- The answer of `lookup_grain_cluster_wide`. -/
  activeElsewhere : Option String
  connection : Except String Unit

namespace Visit

variable (v : Visit S)

def sendOn (endpoint : String) (req : InvokeRequest) : Place :=
  match v.connection with
  | .ok () => .transport endpoint req.nextHop
  | .error reason => .refused (.rpc (.status (.unavailable reason)))

/-- The rest of `invoke` on a silo that has found no other owner. -/
def serve (req : InvokeRequest) : Place :=
  match v.crossCluster with
  | .error e => .refused (.rpc e)
  | .ok (some (_, source)) =>
    match v.connection with
    | .ok () => .gateway ⟨req, source⟩
    | .error reason =>
      .refused (.rpc (.status (.unavailable ("cross-cluster connection failed: " ++ reason))))
  | .ok none =>
    match v.node.checkLocal req with
    | .looking _ =>
      match v.activeElsewhere with
      | some endpoint =>
        if maxHops ≤ req.hopCount then
          .refused (.rpc (.status (.internal ("maximum forwarding hops (" ++
            toString maxHops ++ ") exceeded during directory lookup"))))
        else v.sendOn endpoint req
      | none => .dispatched req
    | _ => .dispatched req

def invoke (req : InvokeRequest) : Place :=
  match v.node.receive req with
  | .done (.rejected status) => .refused (.rpc (.status status))
  | .forwarding endpoint => v.sendOn endpoint req
  | _ => v.serve req

def forwardInvoke (req : ForwardInvokeRequest) : Place :=
  if maxPayloadSize < req.payload.length then
    .refused (.rpc (.status (.invalidArgument ("payload size " ++ toString req.payload.length ++
      " exceeds maximum of " ++ toString maxPayloadSize ++ " bytes"))))
  else .dispatched req.toInvokeRequest

end Visit

def TcpInvokeRequest.toInvokeRequest (req : TcpInvokeRequest) : InvokeRequest where
  grainType := req.grainType
  grainKey := req.grainKey
  messageType := req.messageType
  payload := req.payload
  encoding := 0
  requestContext := req.context
  messageVersion := 0

def Visit.tcpDispatch (v : Visit S) (req : TcpInvokeRequest) : Place :=
  match v.node.findOwner req.grainType req.grainKey with
  | some endpoint =>
    match v.connection with
    | .ok () => .transport endpoint req.toInvokeRequest
    | .error reason => .refused (.tcp reason)
  | none => .dispatched req.toInvokeRequest

inductive Leads (req : InvokeRequest) : Place → Prop
  | refused (refusal : Refusal) : Leads req (.refused refusal)
  | transport (endpoint : String) : req.hopCount < maxHops →
      Leads req (.transport endpoint req.nextHop)
  | gateway (source : String) : Leads req (.gateway ⟨req, source⟩)
  | dispatched : Leads req (.dispatched req)

namespace Visit

variable (v : Visit S) {req : InvokeRequest}

theorem leads_sendOn (endpoint) (h : req.hopCount < maxHops) :
    Leads req (v.sendOn endpoint req) := by
  unfold sendOn
  split
  · exact .transport endpoint h
  · exact .refused _

theorem leads_serve : Leads req (v.serve req) := by
  unfold serve
  split
  · exact .refused _
  · split
    · exact .gateway _
    · exact .refused _
  · split
    · split
      · split_ifs with hhops
        · exact .refused _
        · exact v.leads_sendOn _ (Nat.not_le.mp hhops)
      · exact .dispatched
    · exact .dispatched

theorem leads_invoke : Leads req (v.invoke req) := by
  unfold invoke
  rcases v.node.receive_cases req with ⟨status, hr⟩ | ⟨endpoint, -, hhops, hr⟩ | ⟨-, hr⟩
  · simp only [hr]
    exact .refused _
  · simp only [hr]
    exact v.leads_sendOn endpoint hhops
  · simp only [hr]
    exact v.leads_serve

theorem invoke_of_owner (hsize : req.payload.length ≤ maxPayloadSize)
    (howner : v.node.findOwner req.grainType req.grainKey = none)
    (hcross : v.crossCluster = .ok none) (helse : v.activeElsewhere = none) :
    v.invoke req = .dispatched req := by
  have hr : v.node.receive req = .owned := by
    simp [Node.receive, Nat.not_lt.mpr hsize, howner]
  simp only [invoke, hr, serve, hcross, helse]
  split <;> rfl

end Visit

namespace Server

/-- What a silo meets in its surroundings, with an endpoint and a name for the clusters that
its calls are sent to and come from. -/
def visit (s : Server S) (env : Surroundings S) (req : InvokeRequest) (clusters : String × String) :
    Visit S where
  node := s.node
  crossCluster := (env.crossCluster req).map (Option.map fun _ => clusters)
  activeElsewhere := env.activeElsewhere
    (s.node.ring.members.filter fun m => m.siloId ≠ s.node.localAddr.siloId) req
  connection := .ok ()

def Does (s : Server S) (env : Surroundings S) (handled : Handled S) : Place → Prop
  | .refused (.rpc e) => handled = (s, .error e)
  | .refused (.tcp _) | .tcp _ => False
  | .transport endpoint req' => handled = (s, (env.forward endpoint req').result)
  | .gateway req' => ∃ reply, env.crossCluster req'.toInvokeRequest = .ok (some reply) ∧
      handled = (s, .ok reply)
  | .dispatched req' => handled = s.dispatch req'

theorem invoke_eq_visit (s : Server S) (env) (req) (clusters) :
    s.Does env (s.invoke env req) ((s.visit env req clusters).invoke req) := by
  unfold invoke Visit.invoke
  have hnode : (s.visit env req clusters).node = s.node := rfl
  rw [hnode]
  rcases s.node.receive_cases req with ⟨status, hr⟩ | ⟨endpoint, -, -, hr⟩ | ⟨-, hr⟩
  · simp only [hr]
    exact rfl
  · simp only [hr]
    exact rfl
  · simp only [hr, Visit.serve, visit]
    cases hcross : env.crossCluster req with
    | error e => exact rfl
    | ok reply =>
      cases reply with
      | some reply => exact ⟨reply, hcross, rfl⟩
      | none =>
        rcases s.node.checkLocal_cases req with hlocal | hlocal
        · simp only [hlocal]
          exact rfl
        · simp only [hlocal, Except.map, map_none]
          cases env.activeElsewhere
            (s.node.ring.members.filter fun m => m.siloId ≠ s.node.localAddr.siloId) req with
          | none => exact rfl
          | some endpoint => split_ifs <;> exact rfl

end Server

/-! ## Journeys -/

/-- A request on its way, with the silos and clusters it was sent on to, and the dispatches
it was handed to. -/
structure Journey (S : Type) where
  place : Place
  hops : ℕ
  crossings : ℕ
  dispatches : List (Node S × InvokeRequest)

namespace Journey

def start (place : Place) : Journey S where
  place := place
  hops := 0
  crossings := 0
  dispatches := []

def move (j : Journey S) (node : Node S) : Place → Journey S
  | .transport endpoint req => { j with place := .transport endpoint req, hops := j.hops + 1 }
  | .gateway req => { j with place := .gateway req, crossings := j.crossings + 1 }
  | .dispatched req =>
    { j with place := .dispatched req, dispatches := j.dispatches ++ [(node, req)] }
  | place => { j with place := place }

def step (j : Journey S) (v : Visit S) : Option (Journey S) :=
  match j.place with
  | .transport _ req => some (j.move v.node (v.invoke req))
  | .gateway req => some (j.move v.node (Visit.forwardInvoke req))
  | .tcp req => some (j.move v.node (v.tcpDispatch req))
  | .dispatched _ | .refused _ => none

/-- How far the journey of a request can have come that arrived with hops left. -/
def Arrived (req : InvokeRequest) (j : Journey S) : Prop :=
  req.hopCount + j.hops ≤ maxHops ∧
    match j.place with
    | .transport _ req' => req.Forwarded j.hops req' ∧ j.crossings = 0 ∧ j.dispatches = []
    | .gateway req' =>
      req.Forwarded j.hops req'.toInvokeRequest ∧ j.crossings = 1 ∧ j.dispatches = []
    | .tcp _ => False
    | .dispatched req' =>
      req.Forwarded j.hops req' ∧ j.crossings ≤ 1 ∧ ∃ node, j.dispatches = [(node, req')]
    | .refused _ => j.crossings ≤ 1 ∧ j.dispatches = []

def rank (j : Journey S) : ℕ :=
  match j.place with
  | .transport _ _ => maxHops - j.hops + 2
  | .gateway _ | .tcp _ => 1
  | .dispatched _ | .refused _ => 0

variable {req : InvokeRequest} {j j' : Journey S} {v : Visit S}

theorem step_cases (hs : j.step v = some j') : ∃ place, j' = j.move v.node place ∧
    ((∃ endpoint req, j.place = .transport endpoint req ∧ Leads req place) ∨
      (∃ req, j.place = .gateway req ∧
        ((∃ refusal, place = .refused refusal) ∨ place = .dispatched req.toInvokeRequest)) ∨
      (∃ req, j.place = .tcp req ∧ ((∃ refusal, place = .refused refusal) ∨
        (∃ endpoint, place = .transport endpoint req.toInvokeRequest) ∨
        place = .dispatched req.toInvokeRequest))) := by
  unfold Journey.step at hs
  cases hj : j.place with
  | transport endpoint req =>
    simp only [hj, some.injEq] at hs
    exact ⟨_, hs.symm, .inl ⟨endpoint, req, rfl, v.leads_invoke⟩⟩
  | gateway req =>
    simp only [hj, some.injEq] at hs
    refine ⟨_, hs.symm, .inr (.inl ⟨req, rfl, ?_⟩)⟩
    unfold Visit.forwardInvoke
    split_ifs
    · exact .inl ⟨_, rfl⟩
    · exact .inr rfl
  | tcp req =>
    simp only [hj, some.injEq] at hs
    refine ⟨_, hs.symm, .inr (.inr ⟨req, rfl, ?_⟩)⟩
    unfold Visit.tcpDispatch
    split
    · split
      · exact .inr (.inl ⟨_, rfl⟩)
      · exact .inl ⟨_, rfl⟩
    · exact .inr (.inr rfl)
  | _ => simp [hj] at hs

theorem arrived_start (endpoint : String) (h : req.hopCount ≤ maxHops) :
    (start (.transport endpoint req) : Journey S).Arrived req :=
  ⟨h, ⟨.refl req, rfl⟩, rfl, rfl⟩

section

variable (h : j.Arrived req) {req' : InvokeRequest}
include h

theorem Arrived.move_of_leads {endpoint place}
    (hj : j.place = .transport endpoint req') (hleads : Leads req' place) (node) :
    (j.move node place).Arrived req ∧ (j.move node place).rank + 1 ≤ maxHops - j.hops + 2 := by
  obtain ⟨hhops, hpl⟩ := h
  simp only [hj] at hpl
  obtain ⟨hfwd, hcrossings, hds⟩ := hpl
  cases hleads with
  | refused refusal =>
    refine ⟨⟨hhops, hcrossings.le.trans zero_le_one, hds⟩, ?_⟩
    simp [rank, move]
  | transport endpoint hlt =>
    have hleft := hfwd.hopCount ▸ hlt
    refine ⟨⟨hleft, hfwd.nextHop hlt, hcrossings, hds⟩, ?_⟩
    simp only [rank, move]
    omega
  | gateway source =>
    refine ⟨⟨hhops, hfwd, congrArg (· + 1) hcrossings, hds⟩, ?_⟩
    simp [rank, move]
  | dispatched =>
    refine ⟨⟨hhops, hfwd, hcrossings.le.trans zero_le_one, node, ?_⟩, ?_⟩
    · simp [move, hds]
    · simp [rank, move]

/-- A visit brings the request further, and leaves fewer visits to come. -/
theorem Arrived.step (hstep : j.step v = some j') : j'.Arrived req ∧ j'.rank + 1 ≤ j.rank := by
  obtain ⟨place, rfl, ⟨endpoint, req', hj, hleads⟩ | ⟨req', hj, hto⟩ | ⟨req', hj, -⟩⟩ :=
    step_cases hstep
  · simp only [rank, hj]
    exact h.move_of_leads hj hleads v.node
  · obtain ⟨hhops, hpl⟩ := h
    simp only [hj] at hpl
    obtain ⟨hfwd, hcrossings, hds⟩ := hpl
    rcases hto with ⟨refusal, rfl⟩ | rfl
    · exact ⟨⟨hhops, hcrossings.le, hds⟩, by simp [rank, move, hj]⟩
    · refine ⟨⟨hhops, hfwd, hcrossings.le, v.node, ?_⟩, by simp [rank, move, hj]⟩
      simp [move, hds]
  · have hpl := h.2
    simp only [hj] at hpl

theorem Arrived.exec {visits} (hrun : exec Journey.step j visits = some j') : j'.Arrived req :=
  exec_invariant_of_step (fun _ _ _ h hstep => (Arrived.step h hstep).1) h hrun

theorem Arrived.bounds :
    j.crossings ≤ 1 ∧ (j.dispatches = [] ∨
      ∃ node req', j.dispatches = [(node, req')] ∧ req.Forwarded j.hops req') := by
  have hpl := h.2
  cases hj : j.place with
  | transport endpoint req' =>
    simp only [hj] at hpl
    exact ⟨hpl.2.1.le.trans zero_le_one, .inl hpl.2.2⟩
  | gateway req' =>
    simp only [hj] at hpl
    exact ⟨hpl.2.1.le, .inl hpl.2.2⟩
  | tcp => simp only [hj] at hpl
  | dispatched req' =>
    simp only [hj] at hpl
    obtain ⟨hfwd, hcrossings, node, hdispatches⟩ := hpl
    exact ⟨hcrossings, .inr ⟨node, req', hdispatches, hfwd⟩⟩
  | refused =>
    simp only [hj] at hpl
    exact ⟨hpl.1, .inl hpl.2⟩

theorem Arrived.forwarded_of_mem {node} (hm : (node, req') ∈ j.dispatches) :
    req.Forwarded j.hops req' := by
  rcases h.bounds.2 with hnil | ⟨node', req'', hone, hfwd⟩
  · simp [hnil] at hm
  · obtain ⟨-, rfl⟩ : node = node' ∧ req' = req'' := by simpa [hone] using hm
    exact hfwd

end

def ended (j : Journey S) : Bool :=
  match j.place with
  | .dispatched _ | .refused _ => true
  | _ => false

theorem step_isSome (h : j.ended = false) (v) : (j.step v).isSome = true := by
  unfold ended at h
  unfold Journey.step
  cases hj : j.place <;> simp_all

/-- A request without a hop count is sent on at most three times and to one other cluster at most,
ends after five visits, and is handed to one registry at most, as it came but for the hops. -/
theorem forwarding_bounded (req : InvokeRequest)
    (hnone : req.requestContext.lookup hopCountKey = none) (endpoint : String)
    (visits : List (Visit S)) (j : Journey S)
    (hrun : exec step (start (.transport endpoint req)) visits = some j) :
    j.hops ≤ maxHops ∧ j.crossings ≤ 1 ∧ j.dispatches.length ≤ 1 ∧
    (∀ node req', (node, req') ∈ j.dispatches →
      req.SameCall req' ∧ node.dispatch req' = node.dispatch req) ∧
    visits.length ≤ maxHops + 2 ∧ (j.ended = false → ∀ v, (j.step v).isSome = true) := by
  have hzero := InvokeRequest.hopCount_of_lookup_none hnone
  have hstart : (start (.transport endpoint req) : Journey S).Arrived req :=
    arrived_start endpoint (hzero ▸ Nat.zero_le _)
  have hstep : ∀ (j : Journey S) (v : Visit S) (j' : Journey S), True → j.Arrived req →
      j.step v = some j' →
        j'.Arrived req ∧ j'.rank + (if (fun _ => true) v = true then 1 else 0) ≤ j.rank :=
    fun _ _ _ _ h hstep => h.step hstep
  have hvisits := exec_countP_add_le hstep hstart (along_true visits _) hrun
  have harrived := hstart.exec hrun
  obtain ⟨hcrossings, hdispatches⟩ := harrived.bounds
  refine ⟨?_, hcrossings, ?_, ?_, ?_, step_isSome⟩
  · simpa [hzero] using harrived.1
  · rcases hdispatches with hnil | ⟨node, req', hone, -⟩
    · simp [hnil]
    · simp [hone]
  · intro node req' hmem
    have hsame := (harrived.forwarded_of_mem hmem).same
    exact ⟨hsame, hsame.dispatch_eq node⟩
  · rw [List.countP_true] at hvisits
    exact (Nat.le_add_right _ _).trans hvisits

open Cluster

/-- The second silo thinks that the first has the counter active, which sends the call
back. -/
def roundTrip : List (Visit UInt8) :=
  [⟨exampleNode siloA (.init Shared.empty), .ok none, none, .ok ()⟩,
    ⟨exampleNode siloB (.init Shared.empty), .ok none, some siloA.endpoint, .ok ()⟩,
    ⟨exampleNode siloA (.init Shared.empty), .ok none, none, .ok ()⟩,
    ⟨exampleNode siloB (.init Shared.empty), .ok none, none, .ok ()⟩]

theorem forwarding_bounded_roundTrip :
    ∃ j, exec step (start (.transport siloA.endpoint ((addCall 1).request counterGrain "k")))
        roundTrip = some j ∧ j.hops = 3 ∧ j.dispatches.length = 1 ∧
      ∀ node req', (node, req') ∈ j.dispatches →
        node.dispatch req' = node.dispatch ((addCall 1).request counterGrain "k") := by
  have hmap : (exec step (start (.transport siloA.endpoint ((addCall 1).request counterGrain "k")))
      roundTrip).map (fun j => (j.hops, j.dispatches.length)) = some (3, 1) := by
    decide +kernel
  obtain ⟨j, hrun, hcounts⟩ := map_eq_some_iff.mp hmap
  obtain ⟨hhops, hlength⟩ := Prod.mk.inj hcounts
  obtain ⟨-, -, -, hdispatches, -⟩ := forwarding_bounded _ rfl _ roundTrip j hrun
  exact ⟨j, hrun, hhops, hlength, fun node req' hmem => (hdispatches node req' hmem).2⟩

end Journey

end Orlando
