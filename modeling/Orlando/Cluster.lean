import Orlando.HashRing
import Orlando.Silo
import Orlando.Transition

/-!
# A cluster of silos

`Cluster` puts silos side by side : each has an address, a ring, a placement strategy and a
registry, next to its `Silo`. References are handed out by `ctx.get_ref` from the local directory
alone and by `ClusterSilo::get_ref` after a look at the ring.

A call of `GrainTransport::invoke` (`GrainCall`) goes one step at a time through the owner check,
the check for a local activation, the lookup on the other silos, and the dispatch. Every step of the
cluster is on each silo a run of `Silo.step` (`Cluster.step_nodes` in `Routing`).
-/

namespace Orlando

open Option

variable {S : Type} {silo : Silo S}

/-! ## Grain types and the message registry -/

/-- A grain type, as the code that names it sees it. -/
structure GrainType (S : Type) where
  typeName : String
  grainTypeName : String
  placementHint : Option String
  grain : Grain S

def GrainType.id (G : GrainType S) (key : String) : GrainId :=
  ⟨G.grainTypeName, key⟩

inductive Encoding where
  | bincode
  | protobuf
deriving DecidableEq

def Encoding.fromProto (val : ℤ) : Encoding :=
  if val = 1 then protobuf else bincode

inductive ClusterError where
  | deserialization (reason : String)
  | unknownGrainType (grainType : String)
  | unknownMessageType (messageType : String)
  | unsupportedEncoding (messageType reason : String)
  | unsupportedMessageVersion (messageType : String) (version supported : ℕ)
deriving DecidableEq

def ClusterError.message : ClusterError → String
  | deserialization reason => "deserialization error: " ++ reason
  | unknownGrainType grainType => "unknown grain type: " ++ grainType
  | unknownMessageType messageType => "unknown message type: " ++ messageType
  | unsupportedEncoding messageType reason =>
    "unsupported encoding for message " ++ messageType ++ ": " ++ reason
  | unsupportedMessageVersion messageType version supported =>
    "unsupported message version for " ++ messageType ++ ": got v" ++ toString version ++
      ", supported v" ++ toString supported

structure Registration (S : Type) where
  grainType : GrainType S
  messageType : String
  messageVersion : ℕ
  decode : Encoding → Bytes → Except ClusterError (Envelope S)

/-- The registrations, newest first : one replaces those of the same names before it. -/
abbrev MessageRegistry (S : Type) := List (Registration S)

namespace MessageRegistry

variable (reg : MessageRegistry S)

def register (r : Registration S) : Option (MessageRegistry S) :=
  match reg.find? fun q => q.grainType.grainTypeName == r.grainType.grainTypeName with
  | some q => if q.grainType.typeName = r.grainType.typeName then some (r :: reg) else none
  | none => some (r :: reg)

def grainTypeStr (grainType : String) : Option String :=
  (reg.find? fun r => r.grainType.grainTypeName == grainType).map (·.grainType.grainTypeName)

/-- What `dispatch` finds for a call before it looks into the directory : the type of the
grain, and the message with its handler. -/
def dispatch (grainType messageType : String) (messageVersion : ℕ) (payload : Bytes)
    (encoding : Encoding) : Except ClusterError (GrainType S × Envelope S) :=
  match reg.grainTypeStr grainType with
  | none => .error (.unknownGrainType grainType)
  | some typeName =>
    match reg.find? fun r => r.messageType == messageType with
    | none => .error (.unknownMessageType messageType)
    | some m =>
      if m.messageVersion < messageVersion then
        .error (.unsupportedMessageVersion messageType messageVersion m.messageVersion)
      else
        match reg.find? fun r =>
          r.grainType.grainTypeName == typeName && r.messageType == messageType with
        | none => .error (.unknownMessageType (grainType ++ "::" ++ messageType))
        | some r => (r.decode encoding payload).map fun env => (r.grainType, env)

end MessageRegistry

/-! ## Requests -/

/-- A remote call on the wire. -/
structure InvokeRequest where
  grainType : String
  grainKey : String
  messageType : String
  payload : Bytes
  encoding : ℤ
  requestContext : AList fun _ : String => String
  messageVersion : ℕ

def maxHops : ℕ := 3

def hopCountKey : String := "__orlando_hop_count"

def maxPayloadSize : ℕ := 64 * 1024 * 1024

def parseU32 (text : String) : Option ℕ :=
  let digits : List Char := match text.toList with
    | '+' :: rest => rest
    | all => all
  let value := digits.foldl (fun n c => 10 * n + (c.toNat - '0'.toNat)) 0
  if digits ≠ [] ∧ digits.all Char.isDigit ∧ value < 2 ^ 32 then some value else none

namespace InvokeRequest

def hopCount (req : InvokeRequest) : ℕ :=
  ((req.requestContext.lookup hopCountKey).bind parseU32).getD 0

def nextHop (req : InvokeRequest) : InvokeRequest :=
  { req with
    requestContext := req.requestContext.insert hopCountKey (toString (req.hopCount + 1)) }

end InvokeRequest

structure NetworkCall (S : Type) where
  envelope : Envelope S
  messageType : String
  payload : Bytes
  requestContext : AList fun _ : String => String
  messageVersion : ℕ

def NetworkCall.request (call : NetworkCall S) (G : GrainType S) (key : String) :
    InvokeRequest where
  grainType := G.grainTypeName
  grainKey := key
  messageType := call.messageType
  payload := call.payload
  encoding := 0
  requestContext := call.requestContext
  messageVersion := call.messageVersion

inductive Status where
  | invalidArgument (message : String)
  | internal (message : String)
  | unavailable (message : String)
deriving DecidableEq

/-! ## Calls and references -/

inductive CallOutcome where
  | delivered (node task : ℕ)
  | closed
  | failed (error : ClusterError)
  | rejected (status : Status)
deriving DecidableEq

inductive CallPhase (S : Type) where
  | received
  | forwarding (endpoint : String)
  | owned
  /-- The silos whose answer to `lookup_grain` is awaited. -/
  | looking (members : List SiloAddress)
  | dispatching
  | calling (task : ℕ) (env : Envelope S)
  | done (outcome : CallOutcome)

def CallPhase.outcome : CallPhase S → Option CallOutcome
  | .done outcome => some outcome
  | _ => none

structure GrainCall (S : Type) where
  /-- The reference it was made through, if not from outside the cluster. -/
  ref : Option ℕ
  node : ℕ
  req : InvokeRequest
  hops : ℕ
  phase : CallPhase S

/-- What a reference holds : a sender, of a task or of a closed channel, or an endpoint. -/
inductive RefInner where
  | localRef (node : ℕ) (task : Option ℕ)
  | remoteRef (endpoint : String)
deriving DecidableEq

structure Ref (S : Type) where
  grainType : GrainType S
  key : String
  /-- From `ctx.get_ref`, not from `ClusterSilo::get_ref`. -/
  fromHandler : Bool
  inner : RefInner

/-! ## Silos of a cluster -/

/-- `get_or_insert`, with no other step between its own : the task whose sender the
caller gets, none for a closed channel, and the silo after it. -/
def Silo.activate (s : Silo S) (gid : GrainId) (kind : MailboxKind S) : Option ℕ × Silo S :=
  match s.openTask gid with
  | some (i, _) => (some i, s.existing gid)
  | none =>
    if s.draining ∨ (0 < s.maxActivations ∧ s.maxActivations ≤ s.activations.keys.length) then
      (none, s)
    else (some s.tasks.length, s.spawn gid kind)

/-- Whether `get_or_insert` returns the sender of a task. -/
def Silo.accepts (s : Silo S) (gid : GrainId) : Bool :=
  (s.openTask gid).isSome || (!s.draining &&
    (s.maxActivations == 0 || s.activations.keys.length < s.maxActivations))

/-- `ClusterSilo`, with its transport service. -/
structure Node (S : Type) where
  localAddr : SiloAddress
  registry : MessageRegistry S
  ring : HashRing
  placement : PlacementStrategy
  silo : Silo S

namespace Node

variable (node : Node S)

/-- Where `ClusterSilo::get_ref` places a grain : by the hint of its type, or by the
strategy of the silo. -/
def place (G : GrainType S) (key : String) (draw : ℕ) : Option SiloAddress :=
  match G.placementHint with
  | some "prefer_local" =>
    preferLocalPlacement G.grainTypeName key node.localAddr.siloId node.ring
  | some "random" => randomPlacement draw G.grainTypeName key node.localAddr.siloId node.ring
  | _ => node.placement G.grainTypeName key node.localAddr.siloId node.ring

def findOwner (grainType grainKey : String) : Option String :=
  match node.ring.get (ringKey grainType grainKey) with
  | some target =>
    if target.siloId ≠ node.localAddr.siloId then some target.endpoint else none
  | none => none

/-- Whether the directory has an open sender for the grain, as `invoke` checks it for its
own silo and `lookup_grain` for another. -/
def isActive (grainType grainKey : String) : Bool :=
  match node.registry.grainTypeStr grainType with
  | some typeName => (node.silo.openTask ⟨typeName, grainKey⟩).isSome
  | none => false

end Node

/-- The hop check of both forwarding sites. -/
def forwardCall (req : InvokeRequest) (refusal endpoint : String) : CallPhase S :=
  if maxHops ≤ req.hopCount then .done (.rejected (.internal refusal))
  else .forwarding endpoint

def Node.receive (node : Node S) (req : InvokeRequest) : CallPhase S :=
  if maxPayloadSize < req.payload.length then
    .done (.rejected (.invalidArgument ("payload size " ++ toString req.payload.length ++
      " exceeds maximum of " ++ toString maxPayloadSize ++ " bytes")))
  else
    match node.findOwner req.grainType req.grainKey with
    | some endpoint =>
      forwardCall req ("maximum forwarding hops (" ++ toString maxHops ++
        ") exceeded — possible routing loop") endpoint
    | none => .owned

theorem Node.receive_cases (node : Node S) (req) :
    (∃ status, node.receive req = .done (.rejected status)) ∨
      (∃ endpoint, node.findOwner req.grainType req.grainKey = some endpoint ∧
        req.hopCount < maxHops ∧ node.receive req = .forwarding endpoint) ∨
      (node.findOwner req.grainType req.grainKey = none ∧ node.receive req = .owned) := by
  unfold Node.receive
  split
  · exact .inl ⟨_, rfl⟩
  · cases hfind : node.findOwner req.grainType req.grainKey with
    | none => exact .inr (.inr ⟨rfl, rfl⟩)
    | some endpoint =>
      simp only [forwardCall]
      split
      · exact .inl ⟨_, rfl⟩
      · rename_i hhops
        exact .inr (.inl ⟨endpoint, rfl, Nat.not_le.mp hhops, rfl⟩)

def Node.checkLocal (node : Node S) (req : InvokeRequest) : CallPhase S :=
  if node.isActive req.grainType req.grainKey then .dispatching
  else .looking (node.ring.members.filter fun m => m.siloId ≠ node.localAddr.siloId)

theorem Node.checkLocal_cases (node : Node S) (req) :
    node.checkLocal req = .dispatching ∨ node.checkLocal req = .looking
        (node.ring.members.filter fun m => m.siloId ≠ node.localAddr.siloId) := by
  unfold Node.checkLocal
  split
  · exact .inl rfl
  · exact .inr rfl

def Node.dispatch (node : Node S) (req : InvokeRequest) : CallPhase S × Silo S :=
  match node.registry.dispatch req.grainType req.messageType req.messageVersion req.payload
      (.fromProto req.encoding) with
  | .error e => (.done (.failed e), node.silo)
  | .ok (G, env) =>
    match node.silo.activate (G.id req.grainKey) (.plain G.grain) with
    | (some i, silo) => (.calling i env, silo)
    | (none, silo) => (.done .closed, silo)

/-! ## The cluster -/

/-- The silos of a cluster, the references handed out and the calls made, oldest first. -/
structure Cluster (S : Type) where
  nodes : List (Node S)
  refs : List (Ref S)
  calls : List (GrainCall S)

inductive CallEvent where
  | advance
  | fail (reason : String)
  /-- The `j`-th silo asked answers, or its answer is lost or late. -/
  | answer (j : ℕ) (reached : Bool)
deriving DecidableEq

inductive ClusterEvent (S : Type) where
  | silo (n : ℕ) (e : SiloEvent S)
  | setRing (n : ℕ) (ring : HashRing)
  | ctxGetRef (n i : ℕ) (G : GrainType S) (key : String)
  | getRef (n : ℕ) (G : GrainType S) (key : String) (draw : ℕ)
  | ask (k : ℕ) (call : NetworkCall S)
  /-- A client from outside calls silo `n`. -/
  | invoke (n : ℕ) (req : InvokeRequest)
  | call (j : ℕ) (e : CallEvent)

def ClusterEvent.keepsRing : ClusterEvent S → Bool
  | .setRing _ _ => false
  | _ => true

namespace Cluster

variable (u : Cluster S)

def nodeAt (endpoint : String) : Option ℕ :=
  u.nodes.findIdx? fun node => node.localAddr.endpoint == endpoint

def setSilo (n : ℕ) (node : Node S) (silo : Silo S) : Cluster S :=
  { u with nodes := u.nodes.set n { node with silo := silo } }

def localActivate (n : ℕ) (node : Node S) (G : GrainType S) (key : String)
    (fromHandler : Bool) : Cluster S :=
  match node.silo.activate (G.id key) (.plain G.grain) with
  | (task, silo) =>
    { u.setSilo n node silo with
      refs := u.refs ++ [⟨G, key, fromHandler, .localRef n task⟩] }

def lookupGrain (member : SiloAddress) (req : InvokeRequest) : Option String :=
  match (u.nodeAt member.endpoint).bind (u.nodes[·]?) with
  | some node =>
    if node.isActive req.grainType req.grainKey then some node.localAddr.endpoint else none
  | none => none

def callStep (c : GrainCall S) (node : Node S) :
    CallPhase S → CallEvent → Option (Silo S × GrainCall S)
  | .received, .advance => some (node.silo, { c with phase := node.receive c.req })
  | .forwarding endpoint, .advance =>
    (u.nodeAt endpoint).map fun n =>
      (node.silo,
        { c with node := n, req := c.req.nextHop, hops := c.hops + 1, phase := .received })
  | .forwarding _, .fail reason =>
    some (node.silo, { c with phase := .done (.rejected (.unavailable reason)) })
  | .owned, .advance => some (node.silo, { c with phase := node.checkLocal c.req })
  | .looking [], .advance => some (node.silo, { c with phase := .dispatching })
  | .looking members, .answer j reached =>
    members[j]?.map fun member =>
      match if reached then u.lookupGrain member c.req else none with
      | some endpoint =>
        (node.silo, { c with
          phase := forwardCall c.req ("maximum forwarding hops (" ++ toString maxHops ++
            ") exceeded during directory lookup") endpoint })
      | none => (node.silo, { c with phase := .looking (members.eraseIdx j) })
  | .dispatching, .advance =>
    match node.dispatch c.req with
    | (phase, silo) => some (silo, { c with phase := phase })
  | .calling i env, .advance =>
    match node.silo.tasks[i]? with
    | some t =>
      if t.rxDropped then some (node.silo, { c with phase := .done .closed })
      else (node.silo.step (.send i env)).map fun silo =>
        (silo, { c with phase := .done (.delivered c.node i) })
    | none => none
  | _, _ => none

def step : ClusterEvent S → Option (Cluster S)
  | .silo n e =>
    match u.nodes[n]? with
    | some node => (node.silo.step e).map (u.setSilo n node)
    | none => none
  | .setRing n ring =>
    match u.nodes[n]? with
    | some node => some { u with nodes := u.nodes.set n { node with ring := ring } }
    | none => none
  | .ctxGetRef n i G key =>
    match u.nodes[n]? with
    | some node =>
      match node.silo.tasks[i]? with
      | some t => if t.running then some (u.localActivate n node G key true) else none
      | none => none
    | none => none
  | .getRef n G key draw =>
    match u.nodes[n]? with
    | some node =>
      match node.place G key draw with
      | some target =>
        if target.siloId = node.localAddr.siloId then some (u.localActivate n node G key false)
        else some { u with refs := u.refs ++ [⟨G, key, false, .remoteRef target.endpoint⟩] }
      | none => some (u.localActivate n node G key false)
    | none => none
  | .ask k call =>
    match u.refs[k]? with
    | some r =>
      match r.inner with
      | .localRef n (some i) =>
        some { u with calls := u.calls ++
          [⟨some k, n, call.request r.grainType r.key, 0, .calling i call.envelope⟩] }
      | .localRef n none =>
        some { u with calls := u.calls ++
          [⟨some k, n, call.request r.grainType r.key, 0, .done .closed⟩] }
      | .remoteRef endpoint =>
        match u.nodeAt endpoint with
        | some n =>
          some { u with calls := u.calls ++
            [⟨some k, n, call.request r.grainType r.key, 0, .received⟩] }
        | none => some u
    | none => none
  | .invoke n req =>
    match u.nodes[n]? with
    | some _ => some { u with calls := u.calls ++ [⟨none, n, req, 0, .received⟩] }
    | none => none
  | .call j e =>
    match u.calls[j]? with
    | some c =>
      match u.nodes[c.node]? with
      | some node =>
        (u.callStep c node c.phase e).map fun r =>
          { u.setSilo c.node node r.1 with calls := u.calls.set j r.2 }
      | none => none
    | none => none

end Cluster

/-! ## A step of the cluster on one of its silos -/

namespace Silo

variable {s : Silo S} {gid : GrainId} {kind : MailboxKind S}

def withCall (s : Silo S) (gid : GrainId) (kind : MailboxKind S) (stage : CallStage) : Silo S :=
  { s with calls := s.calls ++ [⟨gid, kind, stage⟩] }

theorem getElem?_withCall (stage) :
    (s.withCall gid kind stage).calls[s.calls.length]? = some ⟨gid, kind, stage⟩ := by
  simp [withCall]

theorem eraseIdx_withCall (stage) :
    (s.withCall gid kind stage).calls.eraseIdx s.calls.length = s.calls := by
  simp [withCall, List.eraseIdx_append_of_length_le]

theorem existing_withCall (stage) :
    { (s.withCall gid kind stage).existing gid with
      calls := (s.withCall gid kind stage).calls.eraseIdx s.calls.length } =
      s.existing gid := by
  have hopen : (s.withCall gid kind stage).openTask gid = s.openTask gid := rfl
  rw [eraseIdx_withCall, existing, existing, hopen]
  cases s.openTask gid <;> rfl

theorem step_getOrInsert (hd : s.draining = false) :
    s.step (.getOrInsert gid kind) = some (s.withCall gid kind .limit) := by
  simp [step, withCall, hd]

theorem step_checkLimit
    (hlim : ¬(0 < s.maxActivations ∧ s.maxActivations ≤ s.activations.keys.length)) :
    (s.withCall gid kind .limit).step (.checkLimit s.calls.length) =
      some (s.withCall gid kind .entry) := by
  simp [step, withCall, hlim]

theorem step_checkLimit_full
    (hlim : 0 < s.maxActivations ∧ s.maxActivations ≤ s.activations.keys.length) :
    (s.withCall gid kind .limit).step (.checkLimit s.calls.length) = some (s.existing gid) := by
  simp only [step, getElem?_withCall]
  exact (if_pos hlim).trans (congrArg some (existing_withCall .limit))

theorem step_enter_open {r} (ho : s.openTask gid = some r) :
    (s.withCall gid kind .entry).step (.enter s.calls.length) = some (s.existing gid) := by
  have hopen : (s.withCall gid kind .entry).openTask gid = some r := ho
  simp only [step, getElem?_withCall, hopen]
  rw [existing_withCall]

theorem step_enter_spawn (ho : s.openTask gid = none) :
    (s.withCall gid kind .entry).step (.enter s.calls.length) = some (s.spawn gid kind) := by
  have hopen : (s.withCall gid kind .entry).openTask gid = none := ho
  simp only [step, getElem?_withCall, hopen]
  rw [eraseIdx_withCall]
  rfl

theorem exec_activate (s : Silo S) (gid) (kind) :
    ∃ es, exec step s es = some (s.activate gid kind).2 := by
  cases hd : s.draining with
  | true =>
    refine ⟨[.getOrInsert gid kind], ?_⟩
    cases ho : s.openTask gid <;> simp [exec, step, activate, existing, hd, ho]
  | false =>
    by_cases hlim : 0 < s.maxActivations ∧ s.maxActivations ≤ s.activations.keys.length
    · refine ⟨[.getOrInsert gid kind, .checkLimit s.calls.length], ?_⟩
      rw [exec, step_getOrInsert hd, bind_some, exec, step_checkLimit_full hlim,
        bind_some, exec_nil]
      cases ho : s.openTask gid <;> simp [activate, existing, hlim, ho]
    · refine ⟨[.getOrInsert gid kind, .checkLimit s.calls.length, .enter s.calls.length], ?_⟩
      rw [exec, step_getOrInsert hd, bind_some, exec, step_checkLimit hlim, bind_some, exec]
      cases ho : s.openTask gid with
      | none =>
        rw [step_enter_spawn ho]
        simp [activate, hlim, ho, hd]
      | some r =>
        rw [step_enter_open ho]
        simp [activate, ho]

end Silo

/-- The node before and after a step : its address, its registry and its placement stay,
and its silo takes a run of steps. -/
structure Node.Runs (node node' : Node S) : Prop where
  localAddr : node'.localAddr = node.localAddr
  registry : node'.registry = node.registry
  placement : node'.placement = node.placement
  silo : ∃ es, exec Silo.step node.silo es = some node'.silo

theorem Node.Runs.refl (node : Node S) : node.Runs node :=
  ⟨rfl, rfl, rfl, [], rfl⟩

theorem Node.runs_of_exec {node : Node S} {es}
    (h : exec Silo.step node.silo es = some silo) : node.Runs { node with silo := silo } :=
  ⟨rfl, rfl, rfl, es, h⟩

theorem Node.runs_of_step {node : Node S} {e} (h : node.silo.step e = some silo) :
    node.Runs { node with silo := silo } := by
  have hexec : exec Silo.step node.silo [e] = some silo := by
    rw [exec, h, bind_some, exec_nil]
  exact runs_of_exec hexec

theorem Node.runs_activate (node : Node S) (gid : GrainId) (kind) :
    node.Runs { node with silo := (node.silo.activate gid kind).2 } :=
  let ⟨_, h⟩ := node.silo.exec_activate gid kind
  runs_of_exec h

theorem Node.runs_dispatch (node : Node S) (req) :
    node.Runs { node with silo := (node.dispatch req).2 } := by
  unfold dispatch
  split
  · exact .refl node
  · rename_i G env _
    have hrun := node.runs_activate (G.id req.grainKey) (.plain G.grain)
    split <;> rename_i hact <;> rwa [hact] at hrun

end Orlando
