import Orlando.Client
import Orlando.Forwarding

/-!
# The version a message is sent with

A silo refuses a message that was encoded with a newer version than it supports. The version stands
in the request, and every silo that sends a request on leaves it there (`Journey.Carries`). But an
`OrlandoClient` always writes `0`, and the requests of the TCP transport have no field for it.
-/

namespace Orlando

variable {S : Type}

def Place.request : Place → Option InvokeRequest
  | .transport _ req => some req
  | .gateway req => some req.toInvokeRequest
  | .tcp req => some req.toInvokeRequest
  | .dispatched req => some req
  | .refused _ => none

namespace Journey

structure Carries (req : InvokeRequest) (j : Journey S) : Prop where
  place : ∀ req', j.place.request = some req' → req.SameCall req'
  dispatches : ∀ node req', (node, req') ∈ j.dispatches → req.SameCall req'

variable {req : InvokeRequest} {j j' : Journey S} {v : Visit S} {place : Place}

theorem carries_start (h : place.request = some req) : (start place : Journey S).Carries req where
  place req' hreq' := by
    obtain rfl : req = req' := Option.some.inj (h.symm.trans hreq')
    exact .refl req
  dispatches _ _ hmem := by cases hmem

theorem Carries.move (h : j.Carries req) (hpl : ∀ req', place.request = some req' →
    req.SameCall req') (node) : (j.move node place).Carries req := by
  cases place with
  | dispatched req' =>
    refine ⟨hpl, fun node' req'' hm => ?_⟩
    rcases List.mem_append.mp hm with hm | hm
    · exact h.dispatches node' req'' hm
    · obtain ⟨-, rfl⟩ : node' = node ∧ req'' = req' := by simpa using hm
      exact hpl req'' rfl
  | _ => exact ⟨hpl, h.dispatches⟩

theorem sameCall_of_leads {req'} (hsame : req.SameCall req')
    (hleads : Leads req' place) : ∀ req'', place.request = some req'' → req.SameCall req'' := by
  rintro req'' hreq
  cases hleads with
  | refused => cases hreq
  | transport =>
    cases hreq
    exact hsame.nextHop
  | _ =>
    cases hreq
    exact hsame

theorem Carries.step (h : j.Carries req) (hstep : j.step v = some j') : j'.Carries req := by
  obtain ⟨place, rfl, ⟨endpoint, req', hj, hleads⟩ | ⟨req', hj, hto⟩ | ⟨req', hj, hto⟩⟩ :=
    step_cases hstep
  · have hsame := h.place req' (hj ▸ rfl)
    exact h.move (sameCall_of_leads hsame hleads) v.node
  · have hsame : req.SameCall req'.toInvokeRequest := h.place _ (hj ▸ rfl)
    refine h.move (fun req'' hreq => ?_) v.node
    rcases hto with ⟨refusal, rfl⟩ | rfl
    · cases hreq
    · exact Option.some.inj hreq ▸ hsame
  · have hsame : req.SameCall req'.toInvokeRequest := h.place _ (hj ▸ rfl)
    refine h.move (fun req'' hreq => ?_) v.node
    rcases hto with ⟨refusal, rfl⟩ | ⟨endpoint, rfl⟩ | rfl
    · cases hreq
    · exact Option.some.inj hreq ▸ hsame
    · exact Option.some.inj hreq ▸ hsame

theorem Carries.exec (h : j.Carries req) {visits}
    (hrun : exec Journey.step j visits = some j') : j'.Carries req :=
  exec_invariant_of_step (fun _ _ _ h hstep => Carries.step h hstep) h hrun

end Journey

inductive Sender where
  | clusterGrainRef
  | client
  | clientProto
  | tcp
deriving DecidableEq

def NetworkCall.tcpRequest (call : NetworkCall S) (G : GrainType S) (key : String) :
    TcpInvokeRequest where
  grainType := G.grainTypeName
  grainKey := key
  messageType := call.messageType
  payload := call.payload
  context := call.requestContext

namespace Sender

def request (G : GrainType S) (key : String) (call : NetworkCall S) : Sender → InvokeRequest
  | clusterGrainRef => call.request G key
  | client => OrlandoClient.request G.grainTypeName key call.messageType call.payload
      Encoding.bincode.toProto
  | clientProto => OrlandoClient.request G.grainTypeName key call.messageType call.payload
      Encoding.protobuf.toProto
  | tcp => (call.tcpRequest G key).toInvokeRequest

def place (endpoint : String) (G : GrainType S) (key : String) (call : NetworkCall S) :
    Sender → Place
  | tcp => .tcp (call.tcpRequest G key)
  | sender => .transport endpoint (sender.request G key call)

theorem request_place (sender : Sender) (endpoint) (G : GrainType S) (key) (call) :
    (sender.place endpoint G key call).request = some (sender.request G key call) := by
  cases sender <;> rfl

def encoding (sender : Sender) : Encoding :=
  if sender = clientProto then .protobuf else .bincode

/-- The grain type is unknown, there is no handler for the message, or it cannot be decoded. -/
def Unserved (sender : Sender) (reg : MessageRegistry S) (G : GrainType S)
    (call : NetworkCall S) : Prop :=
  (∀ r ∈ reg, r.grainType.grainTypeName ≠ G.grainTypeName) ∨
  (∀ r ∈ reg, r.grainType.grainTypeName = G.grainTypeName → r.messageType ≠ call.messageType) ∨
  ∃ r e, reg.find? (fun r => r.grainType.grainTypeName == G.grainTypeName &&
    r.messageType == call.messageType) = some r ∧
      r.decode sender.encoding call.payload = .error e

end Sender

theorem Node.dispatch_failed_iff (node : Node S) (req) (e) :
    node.dispatch req = (.done (.failed e), node.silo) ↔
      node.registry.dispatch req.grainType req.messageType req.messageVersion req.payload
        (.fromProto req.encoding) = .error e := by
  unfold Node.dispatch
  split
  · rename_i e' he
    simp [he]
  · rename_i G env hok
    simp only [hok, reduceCtorEq, iff_false]
    split <;> simp

theorem MessageRegistry.dispatch_newer {reg : MessageRegistry S} {grainType messageType}
    {version} {m}
    (hm : reg.find? (fun r => r.messageType == messageType) = some m)
    (hv : m.messageVersion < version) (payload encoding) :
    reg.dispatch grainType messageType version payload encoding =
      match reg.grainTypeStr grainType with
      | none => .error (.unknownGrainType grainType)
      | some _ => .error (.unsupportedMessageVersion messageType version m.messageVersion) := by
  unfold MessageRegistry.dispatch
  cases reg.grainTypeStr grainType with
  | none => rfl
  | some typeName => simp [hm, hv]

theorem Sender.unserved_iff {sender : Sender} {reg : MessageRegistry S} {G : GrainType S}
    {call : NetworkCall S} {m}
    (hm : reg.find? (fun r => r.messageType == call.messageType) = some m) :
    sender.Unserved reg G call ↔ ∃ e, reg.dispatch G.grainTypeName call.messageType 0 call.payload
      sender.encoding = .error e := by
  unfold Unserved MessageRegistry.dispatch MessageRegistry.grainTypeStr
  cases htype : reg.find? (fun r => r.grainType.grainTypeName == G.grainTypeName) with
  | none =>
    have hnone : ∀ r ∈ reg, r.grainType.grainTypeName ≠ G.grainTypeName := by simpa using htype
    exact iff_of_true (.inl hnone) ⟨_, rfl⟩
  | some q =>
    have hq : q.grainType.grainTypeName = G.grainTypeName := by simpa using List.find?_some htype
    have hknown : ¬∀ r ∈ reg, r.grainType.grainTypeName ≠ G.grainTypeName := fun hall =>
      hall q (List.mem_of_find?_eq_some htype) hq
    simp only [Option.map_some, hm, Nat.not_lt_zero, if_false, hq, hknown, false_or]
    cases hpair : reg.find? (fun r => r.grainType.grainTypeName == G.grainTypeName &&
        r.messageType == call.messageType) with
    | none => simpa using hpair
    | some r =>
      have hr : r.grainType.grainTypeName = G.grainTypeName ∧ r.messageType = call.messageType := by
        simpa using List.find?_some hpair
      have hserved : ¬∀ r ∈ reg, r.grainType.grainTypeName = G.grainTypeName →
          r.messageType ≠ call.messageType := fun hall =>
        hall r (List.mem_of_find?_eq_some hpair) hr.1 hr.2
      simp only [hserved, false_or]
      cases hdecode : r.decode sender.encoding call.payload <;> simp [hdecode, Except.map]

/-- The version of a message stops it exactly if a `ClusterGrainRef` has sent it. -/
theorem version_gate_iff (sender : Sender) (endpoint : String) (G : GrainType S) (key : String)
    (call : NetworkCall S) (visits : List (Visit S)) (j : Journey S)
    (hrun : exec Journey.step (.start (sender.place endpoint G key call)) visits = some j)
    (node : Node S) (req : InvokeRequest) (hmem : (node, req) ∈ j.dispatches)
    (m : Registration S)
    (hm : node.registry.find? (fun r => r.messageType == call.messageType) = some m)
    (hv : m.messageVersion < call.messageVersion) :
    ((∃ e, node.dispatch req = (.done (.failed e), node.silo)) ↔
      sender = .clusterGrainRef ∨ sender.Unserved node.registry G call) ∧
    (sender = .clusterGrainRef → node.dispatch req =
      (.done (.failed (match node.registry.grainTypeStr G.grainTypeName with
        | none => .unknownGrainType G.grainTypeName
        | some _ => .unsupportedMessageVersion call.messageType call.messageVersion
            m.messageVersion)), node.silo)) := by
  have hcarries := (Journey.carries_start (sender.request_place endpoint G key call)).exec hrun
  have hsame := hcarries.dispatches node req hmem
  rw [hsame.dispatch_eq]
  have hcluster : sender = .clusterGrainRef → node.dispatch (sender.request G key call) =
      (.done (.failed (match node.registry.grainTypeStr G.grainTypeName with
        | none => .unknownGrainType G.grainTypeName
        | some _ => .unsupportedMessageVersion call.messageType call.messageVersion
            m.messageVersion)), node.silo) := by
    rintro rfl
    rw [Node.dispatch_failed_iff]
    simp only [Sender.request, NetworkCall.request]
    rw [MessageRegistry.dispatch_newer hm hv]
    split <;> rfl
  refine ⟨?_, hcluster⟩
  rw [Sender.unserved_iff hm]
  constructor
  · rintro ⟨e, he⟩
    rw [Node.dispatch_failed_iff] at he
    cases sender with
    | clusterGrainRef => exact Or.inl rfl
    | _ => exact Or.inr ⟨e, he⟩
  · rintro (hsender | ⟨e, he⟩)
    · exact ⟨_, hcluster hsender⟩
    · cases sender with
      | clusterGrainRef => exact ⟨_, hcluster rfl⟩
      | _ => exact ⟨e, (node.dispatch_failed_iff _ e).mpr he⟩

open Cluster

def newAdd : NetworkCall UInt8 :=
  { addCall 1 with messageVersion := 1 }

def atOwner : Visit UInt8 where
  node := exampleNode siloB (.init Shared.empty)
  crossCluster := .ok none
  activeElsewhere := none
  connection := .ok ()

theorem exec_atOwner {req} (hsize : req.payload.length ≤ maxPayloadSize)
    (howner : atOwner.node.findOwner req.grainType req.grainKey = none) :
    exec Journey.step (.start (.transport siloB.endpoint req)) [atOwner] =
      some ⟨.dispatched req, 0, 0, [(atOwner.node, req)]⟩ := by
  have hinvoke := atOwner.invoke_of_owner hsize howner rfl rfl
  simp only [exec, Journey.step, Journey.start, hinvoke, Journey.move, Option.bind_some]
  rfl

theorem version_gate_iff_newAdd :
    ∃ j req, exec Journey.step (.start (Sender.clusterGrainRef.place siloB.endpoint counterGrain
        "k" newAdd)) [atOwner] = some j ∧ (atOwner.node, req) ∈ j.dispatches ∧
      ∃ e, atOwner.node.dispatch req = (.done (.failed e), atOwner.node.silo) := by
  have hrun := @exec_atOwner (Sender.clusterGrainRef.request counterGrain "k" newAdd)
    (by decide) (by decide +kernel)
  refine ⟨_, _, hrun, List.mem_singleton_self _, ?_⟩
  exact (version_gate_iff .clusterGrainRef siloB.endpoint counterGrain "k" newAdd [atOwner] _ hrun
    _ _ (List.mem_singleton_self _) addRegistration rfl (by decide)).1.mpr (Or.inl rfl)

/-- The message of a client gets past the gate, and its handler is found. -/
theorem client_passes_gate :
    ∃ j req, exec Journey.step (.start (Sender.client.place siloB.endpoint counterGrain "k"
        newAdd)) [atOwner] = some j ∧ (atOwner.node, req) ∈ j.dispatches ∧
      addRegistration.messageVersion < newAdd.messageVersion ∧
      (atOwner.node.dispatch req).1 = .calling 0 (addMessage 1) := by
  have hrun := @exec_atOwner (Sender.client.request counterGrain "k" newAdd)
    (by decide) (by decide +kernel)
  exact ⟨_, _, hrun, List.mem_singleton_self _, by decide, rfl⟩

end Orlando
