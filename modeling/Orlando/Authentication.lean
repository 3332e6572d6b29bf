import Orlando.PeerHealth
import Orlando.Services

/-!
# Credentials between silos

An exchange of two silos that share a secret (`Exchange`) is a request of one to a service of the
other, and what the caller makes of the reply. Only direct pings, requests for indirect pings and
forwarded calls attach the secret (`authorized_request`).
-/

namespace Orlando

variable {S : Type} {secret : String}

def headerByte (b : UInt8) : Bool :=
  (32 ≤ b && b != 127) || b == 9

def authorizedRequest : Option String → MetadataMap
  | some token =>
    if (utf8Bytes token).all headerByte then AList.insert "authorization" (utf8Bytes token) ∅ else ∅
  | none => ∅

theorem headerByte_of_visibleAscii {b} (h : visibleAscii b = true) : headerByte b = true := by
  simp only [visibleAscii, headerByte, Bool.or_eq_true, Bool.and_eq_true, decide_eq_true_eq] at h ⊢
  refine h.imp_left fun ⟨hle, hlt⟩ => ⟨hle, ?_⟩
  rw [bne_iff_ne]
  rintro rfl
  exact absurd hlt (by decide)

theorem lookup_authorizedRequest (token) :
    (authorizedRequest (some token)).lookup "authorization" =
      if (utf8Bytes token).all headerByte then some (utf8Bytes token) else none := by
  simp only [authorizedRequest]
  split_ifs
  · exact AList.lookup_insert _
  · rfl

theorem sharedSecretAuth_authorizedRequest (h : (utf8Bytes secret).all visibleAscii = true) :
    sharedSecretAuth secret (authorizedRequest (some secret)) = .ok () := by
  have hheader : (utf8Bytes secret).all headerByte = true :=
    List.all_eq_true.mpr fun b hb => headerByte_of_visibleAscii (List.all_eq_true.mp h b hb)
  have hsame : constantTimeEq (utf8Bytes secret) (utf8Bytes secret) = true :=
    constantTimeEq_iff.mpr rfl
  simp only [sharedSecretAuth, lookup_authorizedRequest, if_pos hheader, if_pos h, if_pos hsame]

theorem sharedSecretAuth_empty (secret) :
    sharedSecretAuth secret ∅ = .error (.unauthenticated "missing authorization header") :=
  rfl

theorem sharedSecretAuth_of_not_visible (h : (utf8Bytes secret).all visibleAscii ≠ true) :
    ∃ message, sharedSecretAuth secret (authorizedRequest (some secret)) =
      .error (.unauthenticated message) := by
  simp only [sharedSecretAuth, lookup_authorizedRequest]
  split_ifs
  · exact ⟨_, if_neg h⟩
  · exact ⟨_, rfl⟩

inductive Exchange
  | join
  | notifyJoin
  | directPing (gossip : List GossipUpdate)
  | indirectPing (target : SiloAddress)
  | tryPingTarget
  | lookupGrain (grainType grainKey : String)
  /-- A call is forwarded, or made through a remote reference. -/
  | invoke (req : InvokeRequest)
  | getMembers
  | forwardToCluster (req : ForwardInvokeRequest)

inductive Conclusion (S : Type)
  | joined (members : Option (List SiloAddress))
  | announced
  | alive (alive : Bool)
  | active (endpoint : Option String)
  | reply (reply : Except RpcError (Reply S))
  | peer (status : PeerStatus)

inductive Transmission
  | noConnection
  /-- The request arrives, the reply does not, or too late. -/
  | lost
  | answered
deriving DecidableEq

namespace Exchange

def rpc (localAddr : SiloAddress) : Exchange → Rpc
  | .join => .join (some (toProtoAddr localAddr))
  | .notifyJoin => .notifyJoin (some (toProtoAddr localAddr))
  | .directPing gossip => .ping localAddr.siloId (gossipToProto gossip)
  | .indirectPing target => .pingReq (some (toProtoAddr target)) []
  | .tryPingTarget => .ping localAddr.siloId []
  | .lookupGrain grainType grainKey => .lookupGrain grainType grainKey
  | .invoke req => .invoke req
  | .getMembers => .getMembers
  | .forwardToCluster req => .forwardInvoke req

def authorized : Exchange → Bool
  | .directPing _ | .indirectPing _ | .invoke _ => true
  | .join | .notifyJoin | .tryPingTarget | .lookupGrain _ _ | .getMembers
  | .forwardToCluster _ => false

def viaGateway : Exchange → Bool
  | .forwardToCluster _ => true
  | _ => false

def metadata (token : Option String) (x : Exchange) : MetadataMap :=
  if x.authorized then authorizedRequest token else ∅

def conclude (now : Instant) (caller : Membership) :
    Exchange → Except RpcError (Reply S) → Membership × Conclusion S
  | .join, .ok (.members members) =>
    (caller.joinCluster (members.map fromProtoAddr), .joined (some (members.map fromProtoAddr)))
  | .join, _ => (caller, .joined none)
  | .notifyJoin, _ => (caller, .announced)
  | .directPing _, .ok (.pinged _ gossip) =>
    let incoming := protoToGossip gossip
    (if incoming.isEmpty then caller else caller.applyGossip (incoming.map fun u => (now, u)),
      .alive true)
  | .directPing _, _ => (caller, .alive false)
  | .indirectPing _, .ok (.pingReq targetAlive _) => (caller, .alive targetAlive)
  | .indirectPing _, _ => (caller, .alive false)
  | .tryPingTarget, .ok _ => (caller, .alive true)
  | .tryPingTarget, .error _ => (caller, .alive false)
  | .lookupGrain _ _, .ok (.lookup active _ endpoint) =>
    (caller, .active (if active then some endpoint else none))
  | .lookupGrain _ _, _ => (caller, .active none)
  | .invoke _, reply | .forwardToCluster _, reply => (caller, .reply reply)
  | .getMembers, .ok _ => (caller, .peer ProbeOutcome.answered.status)
  | .getMembers, .error _ => (caller, .peer ProbeOutcome.failed.status)

/-- The caller, its conclusion and the callee after an exchange between silos that both
have the secret, or both none. -/
def outcome (x : Exchange) (env : Surroundings S) (delivery : Transmission) (secret : Option String)
    (caller : Membership) (callee : Server S) : (Membership × Conclusion S) × Server S :=
  let handled := callee.handle (secret.map sharedSecretAuth) env (x.metadata secret)
    (x.rpc caller.swim.localAddr)
  let failure : Except RpcError (Reply S) := .error (.status (.unavailable "transport error"))
  match delivery with
  | .noConnection => (x.conclude env.now caller failure, callee)
  | .lost => (x.conclude env.now caller failure, handled.1)
  | .answered => (x.conclude env.now caller handled.2, handled.1)

def Transparent (x : Exchange) (secret : String) : Prop :=
  ∀ (S : Type) (env : Surroundings S) (delivery : Transmission) (caller : Membership)
    (callee : Server S),
    x.outcome env delivery (some secret) caller callee = x.outcome env delivery none caller callee

variable {x : Exchange} {secret : String} {md : MetadataMap}

section

variable (hx : x.viaGateway = false)
include hx

theorem handle_rpc (authenticate) (env) (callee : Server S) (localAddr) (md md') :
    callee.handle (some authenticate) env md (x.rpc localAddr) =
      callee.authenticated (some authenticate) md
        (callee.handle none env md' (x.rpc localAddr)) := by
  cases x with
  | forwardToCluster => cases hx
  | _ => rfl

theorem transparent_of_ok (h : sharedSecretAuth secret (x.metadata (some secret)) = .ok ()) :
    x.Transparent secret := by
  intro S env delivery caller callee
  have hhandle := (handle_rpc hx (sharedSecretAuth secret) env callee caller.swim.localAddr
    (x.metadata (some secret)) (x.metadata none)).trans (Server.authenticated_of_ok h _)
  simp [outcome, hhandle]

theorem outcome_of_error {e} (h : sharedSecretAuth secret (x.metadata (some secret)) = .error e)
    (env) (caller) (callee : Server S) :
    x.outcome env .answered (some secret) caller callee =
      (x.conclude env.now caller (.error e), callee) := by
  have hhandle := (handle_rpc hx (sharedSecretAuth secret) env callee caller.swim.localAddr
    (x.metadata (some secret)) ∅).trans (Server.authenticated_of_error h _)
  simp [outcome, hhandle]

end

open Cluster

def serving (grainType grainKey : String) : Server UInt8 :=
  let G : GrainType UInt8 := { counterGrain with grainTypeName := grainType }
  { exampleServer with
    node :=
      { exampleServer.node with
        registry := [{ addRegistration with grainType := G }]
        silo := ((Silo.init Shared.empty).activate (G.id grainKey) (.plain G.grain)).2 } }

theorem isActive_serving (grainType grainKey) :
    (serving grainType grainKey).node.isActive grainType grainKey = true := by
  have hreg : (serving grainType grainKey).node.registry.grainTypeStr grainType =
      some grainType := by
    simp [serving, MessageRegistry.grainTypeStr]
  have htask : ((Silo.init Shared.empty).activate ⟨grainType, grainKey⟩
      (.plain counterGrain.grain)).1 = some 0 := rfl
  obtain ⟨t, ht⟩ := openTask_activate htask
  have hopen : (serving grainType grainKey).node.silo.openTask ⟨grainType, grainKey⟩ =
      some (0, t) := ht
  simp [Node.isActive, hreg, hopen]

def peerAnswers : Surroundings UInt8 :=
  { quiet with crossCluster := fun _ => .ok (some .notified) }

def loneServer : Server UInt8 :=
  { exampleServer with node := { exampleServer.node with ring := .new 1 } }

theorem invoke_alone (req message) :
    (loneServer.invoke peerAnswers req).2 ≠ .error (.unauthenticated message) := by
  have howner : loneServer.node.findOwner req.grainType req.grainKey = none := rfl
  simp only [Server.invoke, Node.receive, howner]
  by_cases hsize : maxPayloadSize < req.payload.length
  · simp [hsize]
  · simp [hsize, peerAnswers]

theorem not_transparent_of_error (hx : x.viaGateway = false) {message}
    (h : sharedSecretAuth secret (x.metadata (some secret)) = .error (.unauthenticated message)) :
    ¬x.Transparent secret := by
  intro htransparent
  let caller : Membership := .new 1 siloB
  have hshows : ∀ env callee, (x.conclude env.now caller (.error (.unauthenticated message)),
      callee) = x.outcome env .answered none caller callee := fun env callee =>
    (outcome_of_error hx h env caller callee).symm.trans (htransparent UInt8 env .answered caller
      callee)
  cases x with
  | join => cases congrArg (fun r => r.1.2) (hshows quiet exampleServer)
  | notifyJoin =>
    have hmembers := congrArg (fun r => r.2.swim.members.lookup "silo-b") (hshows quiet loneServer)
    cases hmembers
  | lookupGrain grainType grainKey =>
    have hconcl := congrArg (fun r => r.1.2) (hshows quiet (serving grainType grainKey))
    simp [outcome, rpc, conclude, Server.handle, Server.authenticated, Server.lookupGrain,
      isActive_serving] at hconcl
  | invoke req =>
    have hconcl := congrArg (fun r => r.1.2) (hshows peerAnswers loneServer)
    exact invoke_alone req message (Conclusion.reply.inj hconcl).symm
  | forwardToCluster => cases hx
  | _ => cases congrArg (fun r => r.1.2) (hshows quiet exampleServer)

/-- An exchange comes out as without authentication, whatever the state, exactly when its request
carries the secret in visible ASCII or is one with the gateway. -/
theorem transparent_iff (x : Exchange) (secret : String) :
    x.Transparent secret ↔
      x.viaGateway = true ∨ (x.authorized = true ∧ (utf8Bytes secret).all visibleAscii = true) := by
  cases hx : x.viaGateway with
  | true =>
    cases x with
    | forwardToCluster req => exact ⟨fun _ => Or.inl rfl, fun _ _ _ _ _ _ => rfl⟩
    | _ => cases hx
  | false =>
    cases hauth : x.authorized with
    | true =>
      have hmd : x.metadata (some secret) = authorizedRequest (some secret) := if_pos hauth
      by_cases hvisible : (utf8Bytes secret).all visibleAscii = true
      · have hok := sharedSecretAuth_authorizedRequest hvisible
        exact ⟨fun _ => Or.inr ⟨rfl, hvisible⟩, fun _ => transparent_of_ok hx (hmd ▸ hok)⟩
      · obtain ⟨message, herror⟩ := sharedSecretAuth_of_not_visible hvisible
        have hnot := not_transparent_of_error hx (hmd ▸ herror)
        simp [hnot, hvisible]
    | false =>
      have hmd : x.metadata (some secret) = ∅ := if_neg (by simp [hauth])
      have hnot : ¬x.Transparent secret :=
        not_transparent_of_error hx (hmd ▸ sharedSecretAuth_empty secret)
      simp [hnot]

/-- Two silos with one secret : the second cannot join the first, takes it for dead, and does not
find its grains. -/
theorem members_refused :
    let secret := "my-cluster-secret"
    let caller := Membership.new 1 siloB
    let conclusion (x : Exchange) (secret : Option String) :=
      (x.outcome quiet .answered secret caller (serving "Counter" "k")).1.2
    (utf8Bytes secret).all visibleAscii = true ∧ conclusion .join (some secret) = .joined none ∧
      conclusion .join none ≠ .joined none ∧
      conclusion .tryPingTarget (some secret) = .alive false ∧
      conclusion .tryPingTarget none = .alive true ∧
      conclusion (.lookupGrain "Counter" "k") (some secret) = .active none ∧
      conclusion (.lookupGrain "Counter" "k") none = .active (some "127.0.0.1:5001") ∧
      conclusion .getMembers (some secret) = .peer .unreachable ∧
      conclusion .getMembers none = .peer .healthy := by
  have hendpoint : siloA.endpoint = "127.0.0.1:5001" := by decide +kernel
  refine ⟨by decide, rfl, ?_, rfl, rfl, rfl, ?_, rfl, rfl⟩
  · intro h
    cases h
  · exact congrArg (fun endpoint => Conclusion.active (some endpoint)) hendpoint

end Exchange

end Orlando
