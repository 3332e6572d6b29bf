import Orlando.CrossCluster
import Orlando.HandlerRefs
import Orlando.SwimCluster

/-!
# The services of a silo

A silo serves three gRPC services : the transport, the membership service and, in a cluster with a
name, the gateway for calls from other clusters. `Server.handle` is the handling of one request,
with the answers of other silos from `Surroundings`. The authenticator, any function of the headers,
is not asked by the gateway.
-/

namespace Orlando

open List

variable {S : Type}

abbrev MetadataMap := AList fun _ : String => Bytes

inductive RpcError
  | status (status : Status)
  | unauthenticated (message : String)
  | resourceExhausted (message : String)
  | failedPrecondition (message : String)
  | unimplemented
deriving DecidableEq

abbrev ClusterAuth := MetadataMap → Except RpcError Unit

/-! ## Shared secrets -/

def utf8Bytes (text : String) : Bytes :=
  text.toList.flatMap String.utf8EncodeChar

def visibleAscii (b : UInt8) : Bool :=
  (32 ≤ b && b < 127) || b == 9

def constantTimeEq (a b : Bytes) : Bool :=
  if a.length ≠ b.length then false
  else (a.zip b).foldl (fun diff p => diff ||| (p.1 ^^^ p.2)) (0 : UInt8) == 0

def sharedSecretAuth (expected : String) : ClusterAuth := fun md =>
  match md.lookup "authorization" with
  | some value =>
    if value.all visibleAscii then
      if constantTimeEq value (utf8Bytes expected) then .ok ()
      else .error (.unauthenticated "invalid authorization token")
    else .error (.unauthenticated "invalid authorization header encoding")
  | none => .error (.unauthenticated "missing authorization header")

theorem foldl_diff_eq_zero (a b : Bytes) (hl : a.length = b.length) (d) :
    (a.zip b).foldl (fun diff p => diff ||| (p.1 ^^^ p.2)) d = 0 ↔ d = 0 ∧ a = b := by
  induction a generalizing b d with
  | nil =>
    obtain rfl := length_eq_zero_iff.mp hl.symm
    simp
  | cons x a ih =>
    cases b with
    | nil => cases hl
    | cons y b =>
      rw [zip_cons_cons, foldl_cons, ih b (Nat.succ.inj hl), UInt8.or_eq_zero_iff,
        UInt8.xor_eq_zero_iff, cons.injEq, and_assoc]

theorem constantTimeEq_iff {a b} : constantTimeEq a b = true ↔ a = b := by
  unfold constantTimeEq
  split_ifs with hl
  · refine ⟨fun h => (by cases h), ?_⟩
    rintro rfl
    exact absurd rfl hl
  · simp [foldl_diff_eq_zero a b (not_not.mp hl)]

/-! ## Requests and replies -/

structure ForwardInvokeRequest extends InvokeRequest where
  sourceClusterId : String

inductive Rpc
  | invoke (req : InvokeRequest)
  | join (joiner : Option ProtoSiloAddress)
  | notifyJoin (silo : Option ProtoSiloAddress)
  | notifyLeave (silo : Option ProtoSiloAddress)
  | ping (siloId : String) (gossip : List GossipEntry)
  | pingReq (target : Option ProtoSiloAddress) (gossip : List GossipEntry)
  | getMembers
  | lookupGrain (grainType grainKey : String)
  | forwardInvoke (req : ForwardInvokeRequest)
  | clusterPing
  | notifyDrain (clusterId : String)

inductive ClusterState
  | healthy
  | draining
  | joining
deriving DecidableEq

inductive Reply (S : Type)
  /-- How far the dispatch has brought the call. -/
  | invoked (phase : CallPhase S)
  | members (members : List ProtoSiloAddress)
  | notified
  | pinged (siloId : String) (gossip : List GossipEntry)
  | pingReq (targetAlive : Bool) (gossip : List GossipEntry)
  | lookup (active : Bool) (siloId endpoint : String)
  | cluster (clusterId : String) (siloCount activeGrains : ℕ) (state : ClusterState)
  | drainAck

/-- How a call ends that a handler has sent on. -/
inductive Forwarded (S : Type)
  | noConnection (reason : String)
  | failed (reason : String)
  | answered (reply : Reply S)

def Forwarded.result : Forwarded S → Except RpcError (Reply S)
  | .noConnection reason => .error (.status (.unavailable reason))
  | .failed reason => .error (.status (.internal reason))
  | .answered reply => .ok reply

/-- The clock, and what others answer a handler. -/
structure Surroundings (S : Type) where
  now : Instant
  /-- Whether the ping of `try_ping_target` succeeds. -/
  answersPing : SiloAddress → Bool
  /-- What `check_cross_cluster` returns : the reply of another cluster, if that owns the
  grain. -/
  crossCluster : InvokeRequest → Except RpcError (Option (Reply S))
  activeElsewhere : List SiloAddress → InvokeRequest → Option String
  forward : String → InvokeRequest → Forwarded S

/-! ## Handlers -/

def nanosPerSecond : ℕ := 1000000000

structure RateLimiter where
  start : Instant
  count : ℕ
  maxPerSecond : ℕ

def RateLimiter.check (limiter : RateLimiter) (now : Instant) : Except RpcError RateLimiter :=
  if nanosPerSecond ≤ now - limiter.start then .ok { limiter with start := now, count := 1 }
  else if limiter.count < limiter.maxPerSecond then
    .ok { limiter with count := limiter.count + 1 }
  else .error (.resourceExhausted "membership rate limit exceeded")

structure Server (S : Type) where
  node : Node S
  swim : SwimState
  joinLimiter : RateLimiter
  gossipFanout : ℕ
  localClusterId : Option ClusterId
  /-- The grains that the registry was asked to dispatch a call to. -/
  dispatches : List (String × String)

abbrev Handled (S : Type) := Server S × Except RpcError (Reply S)

namespace Server

variable (auth : Option ClusterAuth) (env : Surroundings S) (s : Server S)

def authenticated (md : MetadataMap) (handler : Handled S) : Handled S :=
  match auth with
  | some authenticate =>
    match authenticate md with
    | .ok () => handler
    | .error e => (s, .error e)
  | none => handler

def limited (handler : Server S → Handled S) : Handled S :=
  match s.joinLimiter.check env.now with
  | .ok limiter => handler { s with joinLimiter := limiter }
  | .error e => (s, .error e)

def membership : Membership where
  swim := s.swim
  ring := s.node.ring

def setMembership (v : Membership) : Server S :=
  { s with node := { s.node with ring := v.ring }, swim := v.swim }

def dispatch (req : InvokeRequest) : Handled S :=
  ({ s with
      node := { s.node with silo := (s.node.dispatch req).2 }
      dispatches := s.dispatches ++ [(req.grainType, req.grainKey)] },
    .ok (.invoked (s.node.dispatch req).1))

def invoke (req : InvokeRequest) : Handled S :=
  match s.node.receive req with
  | .done (.rejected status) => (s, .error (.status status))
  | .forwarding endpoint => (s, (env.forward endpoint req.nextHop).result)
  | _ =>
    match env.crossCluster req with
    | .error e => (s, .error e)
    | .ok (some reply) => (s, .ok reply)
    | .ok none =>
      match s.node.checkLocal req with
      | .looking members =>
        match env.activeElsewhere members req with
        | some endpoint =>
          if maxHops ≤ req.hopCount then
            (s, .error (.status (.internal ("maximum forwarding hops (" ++ toString maxHops ++
              ") exceeded during directory lookup"))))
          else (s, (env.forward endpoint req.nextHop).result)
        | none => s.dispatch req
      | _ => s.dispatch req

def ringMembers : List ProtoSiloAddress :=
  s.node.ring.members.map toProtoAddr

def join (joiner : Option ProtoSiloAddress) : Handled S :=
  s.limited env fun s =>
    match joiner with
    | some joiner =>
      let joined := s.setMembership (s.membership.join (fromProtoAddr joiner))
      (joined, .ok (.members joined.ringMembers))
    | none => (s, .error (.status (.invalidArgument "missing joiner")))

def notifyJoin (silo : Option ProtoSiloAddress) : Handled S :=
  s.limited env fun s =>
    match silo with
    | some silo =>
      if s.membership.knows silo.siloId then (s, .ok .notified)
      else (s.setMembership (s.membership.notifyJoin (fromProtoAddr silo)), .ok .notified)
    | none => (s, .error (.status (.invalidArgument "missing silo")))

def notifyLeave (silo : Option ProtoSiloAddress) : Handled S :=
  match silo with
  | some silo =>
    if s.membership.knows silo.siloId then
      (s.setMembership (s.membership.notifyLeave (fromProtoAddr silo)), .ok .notified)
    else (s, .ok .notified)
  | none => (s, .error (.status (.invalidArgument "missing silo")))

def receiveGossip (gossip : List GossipEntry) : Server S :=
  let incoming := protoToGossip gossip
  if incoming.isEmpty then s
  else s.setMembership (s.membership.applyGossip (incoming.map fun u => (env.now, u)))

def outgoing : List GossipEntry :=
  gossipToProto (s.swim.drainGossip s.gossipFanout).1

def drained : Server S :=
  { s with swim := (s.swim.drainGossip s.gossipFanout).2 }

def ping (gossip : List GossipEntry) : Handled S :=
  let received := s.receiveGossip env gossip
  (received.drained, .ok (.pinged s.node.localAddr.siloId received.outgoing))

def pingReq (target : Option ProtoSiloAddress) (gossip : List GossipEntry) : Handled S :=
  let received := s.receiveGossip env gossip
  match target with
  | some target =>
    (received.drained, .ok (.pingReq (env.answersPing (fromProtoAddr target)) received.outgoing))
  | none => (received, .error (.status (.invalidArgument "missing target")))

def lookupGrain (grainType grainKey : String) : Reply S :=
  let active := s.node.isActive grainType grainKey
  .lookup active (if active then s.node.localAddr.siloId else "")
    (if active then s.node.localAddr.endpoint else "")

def forwardInvoke (req : ForwardInvokeRequest) : Handled S :=
  if maxPayloadSize < req.payload.length then
    (s, .error (.status (.invalidArgument ("payload size " ++ toString req.payload.length ++
      " exceeds maximum of " ++ toString maxPayloadSize ++ " bytes"))))
  else s.dispatch req.toInvokeRequest

def gateway (handler : ClusterId → Handled S) : Handled S :=
  match s.localClusterId with
  | some clusterId => handler clusterId
  | none => (s, .error .unimplemented)

def handle (md : MetadataMap) : Rpc → Handled S
  | .invoke req => s.authenticated auth md (s.invoke env req)
  | .join joiner => s.authenticated auth md (s.join env joiner)
  | .notifyJoin silo => s.authenticated auth md (s.notifyJoin env silo)
  | .notifyLeave silo => s.authenticated auth md (s.notifyLeave silo)
  | .ping _ gossip => s.authenticated auth md (s.ping env gossip)
  | .pingReq target gossip => s.authenticated auth md (s.pingReq env target gossip)
  | .getMembers => s.authenticated auth md (s, .ok (.members s.ringMembers))
  | .lookupGrain grainType grainKey =>
    s.authenticated auth md (s, .ok (s.lookupGrain grainType grainKey))
  | .forwardInvoke req => s.gateway fun _ => s.forwardInvoke req
  | .clusterPing => s.gateway fun clusterId => (s, .ok (.cluster clusterId.name 1 0 .healthy))
  | .notifyDrain _ => s.gateway fun _ => (s, .ok .drainAck)

/-! ## Requests without credentials -/

variable (s' : Server S)

/-- No call was dispatched, no grain activated, and the ring, the member table and the
queue of gossip are as they were. -/
structure Unaffected : Prop where
  dispatches : s'.dispatches = s.dispatches
  silo : s'.node.silo = s.node.silo
  ring : s'.node.ring = s.node.ring
  members : s'.swim.members = s.swim.members
  pendingGossip : s'.swim.pendingGossip = s.swim.pendingGossip

def ReachesGateway (s : Server S) : Rpc → Prop
  | .forwardInvoke req => s.localClusterId.isSome = true ∧ req.payload.length ≤ maxPayloadSize
  | _ => False

variable {auth env s s'} {md : MetadataMap} {rpc : Rpc} {authenticate : ClusterAuth}
  {e : RpcError}

theorem Unaffected.refl (s : Server S) : s.Unaffected s :=
  ⟨rfl, rfl, rfl, rfl, rfl⟩

theorem authenticated_of_error (h : authenticate md = .error e) (handler : Handled S) :
    s.authenticated (some authenticate) md handler = (s, .error e) := by
  simp only [authenticated, h]

theorem authenticated_of_ok (h : authenticate md = .ok ()) (handler : Handled S) :
    s.authenticated (some authenticate) md handler = handler := by
  simp only [authenticated, h]

theorem unaffected_forwardInvoke {req} :
    s.Unaffected (s.forwardInvoke req).1 ↔ ¬req.payload.length ≤ maxPayloadSize := by
  unfold forwardInvoke
  split_ifs with hsize
  · exact ⟨fun _ => Nat.not_le.mpr hsize, fun _ => .refl s⟩
  · refine ⟨fun h => ?_, fun h => absurd (Nat.not_lt.mp hsize) h⟩
    exact absurd h.dispatches (by simp [dispatch])

/-- A request without accepted credentials leaves the silo as it is and dispatches nothing exactly
when it is not a forwarded call at the gateway, or one that is too large. -/
theorem unaffected_iff (authenticate : ClusterAuth) (env : Surroundings S) (s : Server S)
    (md : MetadataMap) (rpc : Rpc) (e : RpcError) (h : authenticate md = .error e) :
    s.Unaffected (s.handle (some authenticate) env md rpc).1 ↔ ¬s.ReachesGateway rpc := by
  have hrefused : ∀ handler : Handled S,
      s.Unaffected (s.authenticated (some authenticate) md handler).1 := by
    intro handler
    rw [authenticated_of_error h]
    exact .refl s
  have hgateway : ∀ reply : ClusterId → Except RpcError (Reply S),
      s.Unaffected (s.gateway fun clusterId => (s, reply clusterId)).1 := by
    intro reply
    unfold gateway
    split <;> exact .refl s
  cases rpc with
  | clusterPing | notifyDrain => exact ⟨fun _ => not_false, fun _ => hgateway _⟩
  | forwardInvoke req =>
    simp only [handle, gateway, ReachesGateway]
    cases s.localClusterId with
    | none => simpa using Unaffected.refl s
    | some clusterId => simpa using unaffected_forwardInvoke
  | _ => exact ⟨fun _ => not_false, fun _ => hrefused _⟩

end Server

open Cluster

def exampleServer : Server UInt8 where
  node := exampleNode siloA (.init Shared.empty)
  swim := .new siloA
  joinLimiter := ⟨0, 0, 10⟩
  gossipFanout := 8
  localClusterId := some ⟨"eu"⟩
  dispatches := []

def quiet : Surroundings UInt8 where
  now := 0
  answersPing _ := true
  crossCluster _ := .ok none
  activeElsewhere _ _ := none
  forward _ _ := .noConnection "connection refused"

theorem Server.unaffected_iff_join :
    exampleServer.Unaffected (exampleServer.handle (some (sharedSecretAuth "my-cluster-secret"))
      quiet ∅ (.join (some (toProtoAddr siloB)))).1 :=
  (Server.unaffected_iff (sharedSecretAuth "my-cluster-secret") quiet exampleServer ∅ _ _ rfl).mpr
    id

/-- A forwarded call without any credentials activates a counter, and is put into its
mailbox. The same call at the transport is refused. -/
theorem Server.gateway_dispatches :
    let auth := some (sharedSecretAuth "my-cluster-secret")
    let req := (addCall 1).request counterGrain "k"
    (exampleServer.handle auth quiet ∅ (.forwardInvoke ⟨req, "us"⟩)).1.dispatches =
        [("Counter", "k")] ∧
      (exampleServer.handle auth quiet ∅ (.forwardInvoke ⟨req, "us"⟩)).1.node.silo.tasks.length =
        1 ∧
      ¬exampleServer.Unaffected (exampleServer.handle auth quiet ∅ (.forwardInvoke ⟨req, "us"⟩)).1 ∧
      exampleServer.handle auth quiet ∅ (.invoke req) =
        (exampleServer, .error (.unauthenticated "missing authorization header")) := by
  refine ⟨rfl, rfl, fun h => ?_, rfl⟩
  exact absurd h.dispatches (cons_ne_nil _ _)

end Orlando
