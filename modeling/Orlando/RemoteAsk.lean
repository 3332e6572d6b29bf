import Mathlib.Data.List.DropRight
import Orlando.HopBudget
import Orlando.Retry

/-!
# Asking a grain from another silo

`ClusterGrainRef::ask` puts a message into the mailbox of a grain that is active here
(`GrainHandler.ask`). To a grain on another silo it sends a request, whose registry decodes the
message and asks the grain in the scope of the context that came with it (`Journey.Answered`,
`ClusterGrainRef.ask`).
-/

namespace Orlando

open List Cluster Journey

variable {S M R : Type} {payload : Bytes} {a : Asking} {msg : M} {key : String}

/-! ## Handlers -/

/-- How values of a type are written for another silo, and read there. -/
structure Wire (α : Type) where
  encode : α → Except String Bytes
  decode : Bytes → Except String α

def Wire.RoundTrips {α : Type} (w : Wire α) (a : α) : Prop :=
  ∃ bytes, w.encode a = .ok bytes ∧ w.decode bytes = .ok a

inductive HandlerEnd (S R : Type) where
  | returned (s : S) (r : R)
  | panicked (s : S)
deriving DecidableEq

structure GrainHandler (S M R : Type) where
  grainType : GrainType S
  messageTypeName : String
  messageVersion : ℕ
  message : Wire M
  result : Wire R
  decodeProto : Bytes → Option M
  encodeResultProto : R → Option Bytes
  askTimeout : ℕ
  handle : RequestContext → M → S → HandlerEnd S R

/-- A message that is asked, and whether the reply comes after the timeout. -/
structure Asking extends Outgoing where
  late : Bool

/-- The message is sent from outside of handlers, into a mailbox that is open. -/
structure Asking.Outside (a : Asking) : Prop where
  callChain : a.current.callChain = none
  isOpen : a.closed = false

/-- What comes of an ask : the result, the state in which the grain is left, and the context in
which the handler ran. -/
structure Answer (S R : Type) where
  result : Except GrainError R
  left : Outcome S
  context : Option RequestContext

namespace GrainHandler

variable (H : GrainHandler S M R)

def recvAskResponse (late : Bool) (reply : Option R) : Except GrainError R :=
  if late then .error (.timeout H.askTimeout)
  else
    match reply with
    | some r => .ok r
    | none => .error .mailboxClosed

def answer (late : Bool) (context : RequestContext) : HandlerEnd S R → Answer S R
  | .returned s' r => ⟨H.recvAskResponse late (some r), .ok s', some context⟩
  | .panicked s' => ⟨H.recvAskResponse late none, .panicked s', some context⟩

/-- `ask` of a `GrainRef` that is made of the sender alone, with the grain in the state `s` when it
gets to the message. -/
def ask (a : Asking) (key : String) (msg : M) (s : S) : Answer S R :=
  match ((GrainRef.new H.grainType (H.grainType.id key)).ask a.toOutgoing).result with
  | .error e => ⟨.error e, .ok s, none⟩
  | .ok context => H.answer a.late context (H.handle context msg s)

def context (ctx : RequestContext) (key : String) : RequestContext :=
  ctx.withCallChainEntry (H.grainType.id key)

end GrainHandler

/-! ## Texts of errors -/

/-- A number of units, with the digits of a fraction of `10 ^ width` parts that are not zeros at
the end. -/
def decimalText (whole fraction width : ℕ) (unit : String) : String :=
  let digits := (toString fraction).toList
  let padded := List.replicate (width - digits.length) '0' ++ digits
  let decimals := String.ofList (padded.rdropWhile (· == '0'))
  toString whole ++ (if fraction = 0 then "" else "." ++ decimals) ++ unit

def durationText (n : ℕ) : String :=
  if nanosPerSecond ≤ n then decimalText (n / nanosPerSecond) (n % nanosPerSecond) 9 "s"
  else if 1000000 ≤ n then decimalText (n / 1000000) (n % 1000000) 6 "ms"
  else if 1000 ≤ n then decimalText (n / 1000) (n % 1000) 3 "µs"
  else decimalText n 0 0 "ns"

example : durationText (30 * nanosPerSecond) = "30s" ∧ durationText 1500000 = "1.5ms" := by
  decide +kernel

def GrainError.message : GrainError → String
  | mailboxClosed => "grain mailbox closed"
  | replyTypeMismatch => "reply type mismatch"
  | remoteCallFailed reason => "remote call failed: " ++ reason
  | handlerFailed reason => "handler failed: " ++ reason
  | timeout duration => "grain call timed out after " ++ durationText duration
  | mailboxFull => "grain mailbox full — backpressure"
  | siloOverloaded => "silo activation limit exceeded"
  | deadlockDetected cycle => "deadlock detected: grain call cycle " ++ cycle

/-- What a call that the registry was given fails with. -/
inductive DispatchError where
  | rejected (e : ClusterError)
  | serialization (reason : String)
  | handlerError (reason : String)

def DispatchError.message : DispatchError → String
  | rejected e => e.message
  | serialization reason => "serialization error: " ++ reason
  | handlerError reason => "handler error: " ++ reason

/-! ## The registry -/

/-- What comes of a dispatch : the response, the state in which the grain is left, and the context
in which the handler ran. -/
structure Dispatched (S : Type) where
  response : Except DispatchError (Bytes × Encoding)
  left : Outcome S
  context : Option RequestContext

abbrev DispatchFn (S : Type) := Asking → String → S → Dispatched S

structure HandlerEntry (S : Type) where
  grainType : GrainType S
  messageType : String
  messageVersion : ℕ
  decode : Encoding → Bytes → Except ClusterError (DispatchFn S)

namespace GrainHandler

variable (H : GrainHandler S M R)

def decodeMessage (payload : Bytes) : Encoding → Except ClusterError M
  | .bincode => (H.message.decode payload).mapError .deserialization
  | .protobuf =>
    match H.decodeProto payload with
    | some msg => .ok msg
    | none => .error (.unsupportedEncoding H.messageTypeName
        "protobuf not supported for this message type")

def encodeResult (r : R) : Encoding → Except DispatchError Bytes
  | .bincode => (H.result.encode r).mapError .serialization
  | .protobuf =>
    match H.encodeResultProto r with
    | some bytes => .ok bytes
    | none => .error (.rejected (.unsupportedEncoding H.messageTypeName
        "protobuf not supported for result type"))

def dispatchFn (encoding : Encoding) (msg : M) : DispatchFn S := fun a key s =>
  let answer := H.ask a key msg s
  { response :=
      match answer.result with
      | .ok r => (H.encodeResult r encoding).map fun bytes => (bytes, encoding)
      | .error e => .error (.handlerError e.message)
    left := answer.left
    context := answer.context }

def entry : HandlerEntry S where
  grainType := H.grainType
  messageType := H.messageTypeName
  messageVersion := H.messageVersion
  decode := fun encoding payload => (H.decodeMessage payload encoding).map (H.dispatchFn encoding)

end GrainHandler

def DispatchFn.envelope (f : DispatchFn S) (a : Asking) (key : String) : Envelope S where
  handleFn := fun s => (f a key s).left
  awaited := true

def HandlerEntry.registration (e : HandlerEntry S) (a : Asking) (key : String) :
    Registration S where
  grainType := e.grainType
  messageType := e.messageType
  messageVersion := e.messageVersion
  decode := fun encoding payload => (e.decode encoding payload).map fun f => f.envelope a key

abbrev Handlers (S : Type) := List (HandlerEntry S)

namespace Handlers

variable (reg : Handlers S)

def dispatch (grainType messageType : String) (messageVersion : ℕ) (payload : Bytes)
    (encoding : Encoding) : Except ClusterError (GrainType S × DispatchFn S) :=
  match reg.find? fun e => e.grainType.grainTypeName == grainType with
  | none => .error (.unknownGrainType grainType)
  | some g =>
    match reg.find? fun e => e.messageType == messageType with
    | none => .error (.unknownMessageType messageType)
    | some v =>
      if v.messageVersion < messageVersion then
        .error (.unsupportedMessageVersion messageType messageVersion v.messageVersion)
      else
        match reg.find? fun e => e.grainType.grainTypeName == g.grainType.grainTypeName &&
          e.messageType == messageType with
        | none => .error (.unknownMessageType (grainType ++ "::" ++ messageType))
        | some e => (e.decode encoding payload).map fun f => (e.grainType, f)

def registry (a : Asking) (key : String) : MessageRegistry S :=
  reg.map fun e => e.registration a key

theorem dispatch_registry (a key grainType messageType messageVersion payload encoding) :
    (reg.registry a key).dispatch grainType messageType messageVersion payload encoding =
      (reg.dispatch grainType messageType messageVersion payload encoding).map
        fun p => (p.1, p.2.envelope a key) := by
  have hfind : ∀ p, (reg.registry a key).find? p =
      (reg.find? fun e => p (e.registration a key)).map fun e => e.registration a key :=
    fun p => find?_map
  simp only [MessageRegistry.dispatch, MessageRegistry.grainTypeStr, hfind, dispatch,
    HandlerEntry.registration, Option.map_map]
  cases reg.find? fun e => e.grainType.grainTypeName == grainType with
  | none => rfl
  | some g =>
    cases reg.find? fun e => e.messageType == messageType with
    | none => rfl
    | some v =>
      simp only [Option.map_some, Function.comp_apply]
      split_ifs with hversion
      · rfl
      · cases reg.find? fun e => e.grainType.grainTypeName == g.grainType.grainTypeName &&
          e.messageType == messageType with
        | none => rfl
        | some e => cases hdecode : e.decode encoding payload <;> simp [hdecode, Except.map]

/-- The handler is registered, and no other of its names, and its version is that of the silo. -/
structure Has (H : GrainHandler S M R) : Prop where
  version : ∃ v, (reg.find? fun e => e.messageType == H.messageTypeName) = some v ∧
    v.messageVersion = H.messageVersion
  entry : (reg.find? fun e => e.grainType.grainTypeName == H.grainType.grainTypeName &&
    e.messageType == H.messageTypeName) = some H.entry

variable {reg}

theorem Has.dispatch_eq {H : GrainHandler S M R} (h : reg.Has H) {payload} {msg}
    {encoding} (hdecode : H.decodeMessage payload encoding = .ok msg) :
    reg.dispatch H.grainType.grainTypeName H.messageTypeName H.messageVersion payload encoding =
      .ok (H.grainType, H.dispatchFn encoding msg) := by
  obtain ⟨v, hfind, hversion⟩ := h.version
  obtain ⟨g, hg, hname⟩ : ∃ g, (reg.find? fun e =>
      e.grainType.grainTypeName == H.grainType.grainTypeName) = some g ∧
      g.grainType.grainTypeName = H.grainType.grainTypeName := by
    have hmem := mem_of_find?_eq_some h.entry
    cases hg : reg.find? fun e => e.grainType.grainTypeName == H.grainType.grainTypeName with
    | none =>
      have hnone := find?_eq_none.mp hg _ hmem
      exact absurd (beq_self_eq_true _) hnone
    | some g => exact ⟨g, rfl, by simpa using find?_some hg⟩
  simp only [dispatch, hg, hfind, hversion, Nat.lt_irrefl, if_false, hname, h.entry,
    GrainHandler.entry, hdecode, Except.map]

end Handlers

/-! ## The way of the message -/

namespace GrainHandler

variable (H : GrainHandler S M R)

/-- The message, as `ClusterGrainRef::ask` sends it. -/
def network (msg : M) : NetworkMessage R where
  messageTypeName := H.messageTypeName
  messageVersion := H.messageVersion
  encoded := H.message.encode msg
  decode := H.result.decode

def request (a : Asking) (key : String) (payload : Bytes) : InvokeRequest where
  grainType := H.grainType.grainTypeName
  grainKey := key
  messageType := H.messageTypeName
  payload := payload
  encoding := Encoding.bincode.toProto
  requestContext := a.current
  messageVersion := H.messageVersion

end GrainHandler

def Asking.scope (a : Asking) (ctx : RequestContext) : Asking :=
  { a with current := ctx }

def Handlers.dispatchRequest (reg : Handlers S) (req : InvokeRequest) :
    Except ClusterError (GrainType S × DispatchFn S) :=
  reg.dispatch req.grainType req.messageType req.messageVersion req.payload
    (.fromProto req.encoding)

def Handlers.serve (reg : Handlers S) (a : Asking) (req : InvokeRequest) (s : S) : Dispatched S :=
  match reg.dispatchRequest req with
  | .error e => ⟨.error (.rejected e), .ok s, none⟩
  | .ok (_, f) => f (a.scope req.requestContext) req.grainKey s

/-- What the caller gets of a dispatch. It goes back as it is through the silos that have sent the
request on. -/
def Dispatched.sendOutcome (d : Dispatched S) : SendOutcome :=
  match d.response with
  | .ok (payload, _) => .answered "" payload
  | .error e => .answered e.message []

/-- What comes of the request at the end of its way, with the handlers of the silos and the grain in
the state `s`. -/
inductive Journey.Answered (handlers : Node S → Handlers S) (a : Asking) (s : S) (j : Journey S) :
    SendOutcome → Outcome S → Option RequestContext → Prop
  | refused {refusal} (reason : String) (h : j.place = .refused refusal) :
    Answered handlers a s j (.failed reason) (.ok s) none
  | dispatched {node req} (h : (node, req) ∈ j.dispatches) :
    Answered handlers a s j ((handlers node).serve a req s).sendOutcome
      ((handlers node).serve a req s).left ((handlers node).serve a req s).context

/-! ## The context on the way -/

def RequestContext.sentOn (ctx : RequestContext) (hops : ℕ) : RequestContext :=
  if hops = 0 then ctx else ctx.insert hopCountKey (toString (ctx.hopCount + hops))

/-- The ask of the silo that a request gets to which was sent on so many times. -/
def Asking.sentOn (a : Asking) (hops : ℕ) : Asking :=
  a.scope (a.current.sentOn hops)

namespace RequestContext

variable {ctx : RequestContext} {hops : ℕ}

theorem hopCount_sentOn (h : hops = 0 ∨ ctx.hopCount + hops ≤ maxHops) :
    (ctx.sentOn hops).hopCount = ctx.hopCount + hops := by
  by_cases hzero : hops = 0
  · simp [sentOn, hzero]
  · have hle := h.resolve_left hzero
    conv_lhs => rw [sentOn, if_neg hzero, hopCount, AList.lookup_insert]
    rw [Option.bind_some, InvokeRequest.parseU32_toString _ hle]
    rfl

theorem lookup_sentOn_ne {key} (h : key ≠ hopCountKey) :
    (ctx.sentOn hops).lookup key = ctx.lookup key := by
  unfold sentOn
  split_ifs
  · rfl
  · exact AList.lookup_insert_ne h

theorem insert_sentOn (h : hops = 0 ∨ ctx.hopCount + hops ≤ maxHops) :
    (ctx.sentOn hops).insert hopCountKey (toString ((ctx.sentOn hops).hopCount + 1)) =
      ctx.sentOn (hops + 1) := by
  rw [hopCount_sentOn h, Nat.add_assoc]
  conv_rhs => rw [sentOn, if_neg (Nat.succ_ne_zero hops)]
  unfold sentOn
  split_ifs
  · rfl
  · exact AList.insert_insert _

end RequestContext

theorem Asking.Outside.sentOn (h : a.Outside) (hops : ℕ) : (a.sentOn hops).Outside :=
  ⟨(RequestContext.lookup_sentOn_ne (by decide)).trans h.callChain, h.isOpen⟩

namespace Journey

def sentOn (req : InvokeRequest) (hops : ℕ) : InvokeRequest :=
  { req with requestContext := RequestContext.sentOn req.requestContext hops }

/-- Wherever the request is, it is the one that set out, sent on so many times. -/
def Conveys (req : InvokeRequest) (j : Journey S) : Prop :=
  (j.hops = 0 ∨ req.hopCount + j.hops ≤ maxHops) ∧
    match j.place with
    | .transport _ req' => req' = sentOn req j.hops ∧ j.dispatches = []
    | .gateway req' => req'.toInvokeRequest = sentOn req j.hops ∧ j.dispatches = []
    | .tcp _ => False
    | .dispatched req' => req' = sentOn req j.hops ∧ ∃ node, j.dispatches = [(node, req')]
    | .refused _ => j.dispatches = []

variable {req : InvokeRequest} {j j' : Journey S} {visits : List (Visit S)}

theorem conveys_start (req endpoint) :
    (start (.transport endpoint req) : Journey S).Conveys req :=
  ⟨.inl rfl, rfl, rfl⟩

theorem nextHop_sentOn {hops} (h : hops = 0 ∨ req.hopCount + hops ≤ maxHops) :
    (sentOn req hops).nextHop = sentOn req (hops + 1) :=
  congrArg (fun ctx => { req with requestContext := ctx }) (RequestContext.insert_sentOn h)

theorem Conveys.step (h : j.Conveys req) {v} (hstep : j.step v = some j') : j'.Conveys req := by
  obtain ⟨hhops, hpl⟩ := h
  obtain ⟨place, rfl, ⟨endpoint, req', hj, hleads⟩ | ⟨req', hj, hto⟩ | ⟨req', hj, -⟩⟩ :=
    step_cases hstep
  · simp only [hj] at hpl
    obtain ⟨rfl, hn⟩ := hpl
    cases hleads with
    | refused refusal => exact ⟨hhops, hn⟩
    | transport endpoint hlt =>
      have hcount : (sentOn req j.hops).hopCount = req.hopCount + j.hops :=
        RequestContext.hopCount_sentOn hhops
      refine ⟨.inr ?_, nextHop_sentOn hhops, hn⟩
      rw [hcount] at hlt
      exact hlt
    | gateway source => exact ⟨hhops, rfl, hn⟩
    | dispatched => exact ⟨hhops, rfl, v.node, by simp [move, hn]⟩
  · simp only [hj] at hpl
    obtain ⟨hreq, hn⟩ := hpl
    rcases hto with ⟨refusal, rfl⟩ | rfl
    · exact ⟨hhops, hn⟩
    · exact ⟨hhops, hreq, v.node, by simp [move, hn]⟩
  · simp only [hj] at hpl

theorem Conveys.exec (h : j.Conveys req) (hrun : exec Journey.step j visits = some j') :
    j'.Conveys req :=
  exec_invariant_of_step (fun _ _ _ h hstep => Conveys.step h hstep) h hrun

theorem Conveys.eq_of_mem (h : j.Conveys req) {node req'} (hm : (node, req') ∈ j.dispatches) :
    j.place = .dispatched req' ∧ req' = sentOn req j.hops := by
  have hpl := h.2
  cases hj : j.place with
  | tcp => simp only [hj] at hpl
  | refused =>
    simp only [hj] at hpl
    simp [hpl] at hm
  | dispatched req'' =>
    simp only [hj] at hpl
    obtain ⟨hreq, node', hone⟩ := hpl
    obtain ⟨-, rfl⟩ : node = node' ∧ req' = req'' := by simpa [hone] using hm
    exact ⟨rfl, hreq⟩
  | _ =>
    simp only [hj] at hpl
    simp [hpl.2] at hm

theorem refused_of_large (req) (hlarge : maxPayloadSize < req.payload.length)
    (endpoint) (hrun : exec step (start (.transport endpoint req)) visits = some j) :
    j = start (.transport endpoint req) ∨ ∃ refusal, j.place = .refused refusal := by
  have hinvoke : ∀ v : Visit S, ∃ refusal, v.invoke req = .refused refusal := fun v => by
    simp only [Visit.invoke, Node.receive, hlarge, if_true]
    exact ⟨_, rfl⟩
  refine exec_invariant_of_step (I := fun j : Journey S => j = start (.transport endpoint req) ∨
    ∃ refusal, j.place = .refused refusal) ?_ (.inl rfl) hrun
  rintro j v j' (rfl | ⟨refusal, hj⟩) hs
  · obtain ⟨refusal, hrefused⟩ := hinvoke v
    simp only [step, start, hrefused, Option.some.injEq] at hs
    exact .inr ⟨refusal, hs ▸ rfl⟩
  · simp [step, hj] at hs

end Journey

/-! ## Both ways -/

namespace ClusterGrainRef

variable {policy : RetryPolicy} {msg : NetworkMessage R} {send : ℕ → SendOutcome} {payload : Bytes}

theorem attempts_ne_nil (left attempt) : (attempts policy msg send left attempt).1 ≠ [] := by
  cases left with
  | zero => simp [attempts]
  | succ left =>
    unfold attempts
    split
    · simp
    · split_ifs <;> simp

theorem remoteInvoke_error {error} (h : error ≠ "") :
    remoteInvoke msg (.answered error payload) = .error (.remoteCallFailed error) := by
  rw [remoteInvoke, if_pos h]

theorem ask_of_once (hencoded : msg.encoded = .ok payload)
    (h : (ask policy msg send).1.length ≤ 1) :
    (ask policy msg send).2 = remoteInvoke msg (send 0) := by
  simp only [ask, hencoded] at h ⊢
  cases hleft : policy.maxRetries with
  | zero => rfl
  | succ left =>
    rw [hleft] at h
    cases hres : remoteInvoke msg (send 0) with
    | ok value => simp only [attempts, hres]
    | error e =>
      simp only [attempts, hres, isRetryable_of_remoteInvoke hres, if_true,
        length_cons, Nat.zero_add] at h
      have hnone : (attempts policy msg send left 1).1.length = 0 := by omega
      exact absurd (length_eq_zero_iff.mp hnone) (attempts_ne_nil left 1)

end ClusterGrainRef

variable {H : GrainHandler S M R} {reg : Handlers S}

namespace GrainHandler

variable {a : Asking} {key : String} {msg : M} {s : S}

section

variable (hout : a.Outside)
include hout

theorem ask_of_outside :
    H.ask a key msg s =
      H.answer a.late (H.context a.current key) (H.handle (H.context a.current key) msg s) := by
  have hchain : ∀ gid, a.current.isInCallChain gid = false := by
    intro gid
    rw [RequestContext.isInCallChain, hout.callChain]
  have hresult : ((GrainRef.new H.grainType (H.grainType.id key)).ask a.toOutgoing).result =
      .ok (H.context a.current key) := by
    simp [GrainRef.ask, GrainRef.new, GrainRef.filtered, FilterChain.runBefore, Outgoing.send,
      Outgoing.askContext, hchain, hout.isOpen, context]
  simp only [ask, hresult]

theorem result_ask_ne_remoteCallFailed (reason) :
    (H.ask a key msg s).result ≠ .error (.remoteCallFailed reason) := by
  rw [ask_of_outside hout]
  cases H.handle (H.context a.current key) msg s <;> simp only [answer, recvAskResponse] <;>
    split_ifs <;> simp

theorem result_ask_eq_ok_iff {r} :
    (H.ask a key msg s).result = .ok r ↔
      a.late = false ∧ ∃ s', H.handle (H.context a.current key) msg s = .returned s' r := by
  rw [ask_of_outside hout]
  cases hlate : a.late <;> cases H.handle (H.context a.current key) msg s <;>
    simp [answer, recvAskResponse]

theorem context_ask : (H.ask a key msg s).context = some (H.context a.current key) := by
  rw [ask_of_outside hout]
  cases H.handle (H.context a.current key) msg s <;> rfl

theorem left_ask {s' r} (h : H.handle (H.context a.current key) msg s = .returned s' r) :
    (H.ask a key msg s).left = .ok s' := by
  rw [ask_of_outside hout, h]
  rfl

end

theorem remoteInvoke_dispatchFn (hresult : ∀ r, H.result.RoundTrips r) :
    ClusterGrainRef.remoteInvoke (H.network msg) (H.dispatchFn .bincode msg a key s).sendOutcome =
      match (H.ask a key msg s).result with
      | .ok r => .ok r
      | .error e => .error (.remoteCallFailed ("handler error: " ++ e.message)) := by
  cases hask : (H.ask a key msg s).result with
  | ok r =>
    obtain ⟨bytes, hencode, hdecode⟩ := hresult r
    simp [Dispatched.sendOutcome, dispatchFn, hask, encodeResult, hencode, Except.mapError,
      Except.map, ClusterGrainRef.remoteInvoke, network, hdecode]
  | error e =>
    have hne : "handler error: " ++ e.message ≠ "" := by
      intro h
      have hlist := congrArg String.toList h
      simp at hlist
    have hresponse : (H.dispatchFn .bincode msg a key s).response =
        .error (.handlerError e.message) := by
      simp only [dispatchFn, hask]
    rw [Dispatched.sendOutcome, hresponse]
    exact ClusterGrainRef.remoteInvoke_error hne

end GrainHandler

theorem Handlers.Has.dispatch_request (h : reg.Has H) (a key) (hops : ℕ)
    (hdecode : H.message.decode payload = .ok msg) :
    reg.dispatchRequest (sentOn (H.request a key payload) hops) =
      .ok (H.grainType, H.dispatchFn .bincode msg) := by
  refine h.dispatch_eq ?_
  simp only [sentOn, GrainHandler.request, Encoding.toProto, Encoding.fromProto,
    zero_ne_one, if_false, GrainHandler.decodeMessage, hdecode, Except.mapError]

theorem Handlers.Has.serve_eq (h : reg.Has H) (hops : ℕ) (s)
    (hdecode : H.message.decode payload = .ok msg) :
    reg.serve a (sentOn (H.request a key payload) hops) s =
      H.dispatchFn .bincode msg (a.sentOn hops) key s := by
  rw [serve, h.dispatch_request a key hops hdecode]
  rfl

def Node.Serves (node : Node S) (reg : Handlers S) (a : Asking) (gid : GrainId) (i : ℕ) : Prop :=
  node.registry = reg.registry a gid.key ∧ ∃ t, node.silo.openTask gid = some (i, t)

namespace Answer

def Sees (answer : Answer S R) (key value : String) : Prop :=
  ∃ context, answer.context = some context ∧ context.lookup key = some value

/-- Both asks have the same result, leave the grain in the same state, and show its handler what
the caller has put into its context. -/
structure Agrees (here remote : Answer S R) (caller : RequestContext) : Prop where
  result : remote.result = here.result
  left : remote.left = here.left
  visible : ∀ key value, caller.lookup key = some value →
    here.Sees key value ∧ remote.Sees key value

end Answer

namespace RequestContext

variable {ctx : RequestContext} {hops : ℕ}

/-- What the caller has put into its context is there on every silo, unless the request was sent
on and the caller had put something in the place of the hop count. -/
theorem visible_sentOn_iff (hhops : hops = 0 ∨ ctx.hopCount + hops ≤ maxHops) :
    (∀ key value, ctx.lookup key = some value → (ctx.sentOn hops).lookup key = some value) ↔
      hops = 0 ∨ ctx.lookup hopCountKey = none := by
  constructor
  · intro h
    rw [or_iff_not_imp_left]
    intro hpos
    cases hvalue : ctx.lookup hopCountKey with
    | none => rfl
    | some value =>
      -- The text would be that of a count and of a higher one.
      have hcount := hopCount_sentOn hhops
      rw [hopCount, h hopCountKey value hvalue, ← hvalue] at hcount
      have hself : ctx.hopCount = ctx.hopCount + hops := hcount
      omega
  · rintro (rfl | hnone) key value hvalue
    · exact hvalue
    · have hne : key ≠ hopCountKey := by
        rintro rfl
        rw [hnone] at hvalue
        cases hvalue
      rw [lookup_sentOn_ne hne, hvalue]

end RequestContext

namespace GrainHandler

variable {a : Asking} {key : String} {msg : M} {s : S}

theorem sees_ask_iff (hout : a.Outside) {k value} (hne : k ≠ callChainKey) :
    (H.ask a key msg s).Sees k value ↔ a.current.lookup k = some value := by
  simp [Answer.Sees, context_ask hout, context, RequestContext.lookup_withCallChainEntry _ hne]

theorem agrees_ask_iff (hout : a.Outside) {hops}
    (hhops : hops = 0 ∨ a.current.hopCount + hops ≤ maxHops) {remote}
    (hres : remote.result =
      match (H.ask (a.sentOn hops) key msg s).result with
      | .ok r => .ok r
      | .error e => .error (.remoteCallFailed ("handler error: " ++ e.message)))
    (hleft : remote.left = (H.ask (a.sentOn hops) key msg s).left)
    (hcontext : remote.context = (H.ask (a.sentOn hops) key msg s).context) :
    (H.ask a key msg s).Agrees remote a.current ↔ a.late = false ∧
      (∃ s' r, H.handle (H.context a.current key) msg s = .returned s' r ∧
        H.handle (H.context (a.current.sentOn hops) key) msg s = .returned s' r) ∧
      (hops = 0 ∨ a.current.lookup hopCountKey = none) := by
  have hout' := hout.sentOn hops
  have hne : ∀ {k value}, a.current.lookup k = some value → k ≠ callChainKey := by
    rintro _ value hvalue rfl
    cases hvalue.symm.trans hout.callChain
  have hsees : ∀ {k value}, a.current.lookup k = some value →
      (remote.Sees k value ↔ (a.current.sentOn hops).lookup k = some value) := fun hvalue => by
    rw [Answer.Sees, hcontext]
    exact sees_ask_iff hout' (hne hvalue)
  constructor
  · rintro ⟨hsame, hsta, hvisible⟩
    rw [hres] at hsame
    cases hremote : (H.ask (a.sentOn hops) key msg s).result with
    | error e =>
      rw [hremote] at hsame
      exact absurd hsame.symm (result_ask_ne_remoteCallFailed hout _)
    | ok r =>
      rw [hremote] at hsame
      obtain ⟨hlate, s₁, hhere⟩ := (result_ask_eq_ok_iff hout).mp hsame.symm
      obtain ⟨-, s₂, hthere⟩ := (result_ask_eq_ok_iff hout').mp hremote
      have hs : s₂ = s₁ := by
        rw [hleft, left_ask hout' hthere, left_ask hout hhere] at hsta
        exact Outcome.ok.inj hsta
      refine ⟨hlate, ⟨s₁, r, hhere, hs ▸ hthere⟩, (RequestContext.visible_sentOn_iff hhops).mp ?_⟩
      intro k value hvalue
      exact (hsees hvalue).mp (hvisible k value hvalue).2
  · rintro ⟨hlate, ⟨s', r, hhere, hthere⟩, hhop⟩
    have hremote := (result_ask_eq_ok_iff hout').mpr ⟨hlate, s', hthere⟩
    refine ⟨?_, ?_, fun k value hvalue => ⟨?_, ?_⟩⟩
    · rw [hres, hremote]
      exact ((result_ask_eq_ok_iff hout).mpr ⟨hlate, s', hhere⟩).symm
    · rw [hleft, left_ask hout' hthere, left_ask hout hhere]
    · exact (sees_ask_iff hout (hne hvalue)).mpr hvalue
    · exact (hsees hvalue).mpr ((RequestContext.visible_sentOn_iff hhops).mpr hhop k value hvalue)

end GrainHandler

theorem Journey.Answered.eq_dispatchFn {s : S} {handlers : Node S → Handlers S} {j : Journey S}
    {outcome} {left : Outcome S} {context : Option RequestContext}
    (h : j.Answered handlers a s outcome left context)
    (hconveys : j.Conveys (H.request a key payload)) (hdecode : H.message.decode payload = .ok msg)
    (hhas : ∀ p ∈ j.dispatches, (handlers p.1).Has H) {req} (hplace : j.place = .dispatched req) :
    outcome = (H.dispatchFn .bincode msg (a.sentOn j.hops) key s).sendOutcome ∧
      left = (H.ask (a.sentOn j.hops) key msg s).left ∧
      context = (H.ask (a.sentOn j.hops) key msg s).context := by
  cases h with
  | refused reason hrefused =>
    rw [hplace] at hrefused
    cases hrefused
  | dispatched hm =>
    obtain ⟨-, rfl⟩ := hconveys.eq_of_mem hm
    rw [(hhas _ hm).serve_eq j.hops s hdecode]
    exact ⟨rfl, rfl, rfl⟩

/-- An active grain answers alike both ways, with the context of the caller, but for what its
handler fails with, the hops of a request that was sent on, and messages that are too large. -/
theorem remote_ask_agrees_iff (H : GrainHandler S M R) (a : Asking) (key : String) (msg : M) (s : S)
    (hout : a.Outside) {payload : Bytes} (hencode : H.message.encode msg = .ok payload)
    (hdecode : H.message.decode payload = .ok msg)
    (hresult : ∀ r, H.result.RoundTrips r) (handlers : Node S → Handlers S) (endpoint : String)
    (visits : List (Visit S)) (j : Journey S)
    (hrun : exec Journey.step (.start (.transport endpoint (H.request a key payload))) visits =
      some j) (hended : j.ended = true)
    (hpass : payload.length ≤ maxPayloadSize → ∃ req, j.place = .dispatched req)
    (hhas : ∀ p ∈ j.dispatches, (handlers p.1).Has H) (policy : RetryPolicy)
    (send : ℕ → SendOutcome) (left : Outcome S) (context : Option RequestContext)
    (hanswer : j.Answered handlers a s (send 0) left context)
    (honce : (ClusterGrainRef.ask policy (H.network msg) send).1.length ≤ 1) :
    (∀ node req i, (node, req) ∈ j.dispatches →
      node.Serves (handlers node) (a.scope req.requestContext) (H.grainType.id key) i →
        ∃ env silo, node.dispatch req = (.calling i env, silo) ∧ env.handleFn s = left) ∧
    ((H.ask a key msg s).Agrees ⟨(ClusterGrainRef.ask policy (H.network msg) send).2, left, context⟩
        a.current ↔
      payload.length ≤ maxPayloadSize ∧ a.late = false ∧
      (∃ s' r, H.handle (H.context a.current key) msg s = .returned s' r ∧
        H.handle (H.context (a.current.sentOn j.hops) key) msg s = .returned s' r) ∧
      (j.hops = 0 ∨ a.current.lookup hopCountKey = none)) := by
  have hconveys := (conveys_start (H.request a key payload) endpoint).exec hrun
  have hone := ClusterGrainRef.ask_of_once hencode honce
  refine ⟨?_, ?_⟩
  · rintro node req i hmem ⟨hregistry, t, htask⟩
    obtain ⟨hplace, rfl⟩ := hconveys.eq_of_mem hmem
    obtain ⟨-, rfl, -⟩ := hanswer.eq_dispatchFn hconveys hdecode hhas hplace
    have hdispatch := (hhas _ hmem).dispatch_request a key j.hops hdecode
    refine ⟨DispatchFn.envelope (H.dispatchFn .bincode msg) (a.sentOn j.hops) key,
      node.silo.existing (H.grainType.id key), ?_, rfl⟩
    rw [Handlers.dispatchRequest] at hdispatch
    rw [Node.dispatch, hregistry, Handlers.dispatch_registry, hdispatch]
    simp only [Except.map]
    rw [show (sentOn (H.request a key payload) j.hops).grainKey = key from rfl,
      activate_of_open (.plain H.grainType.grain) htask]
    rfl
  · by_cases hsize : payload.length ≤ maxPayloadSize
    · obtain ⟨req, hplace⟩ := hpass hsize
      obtain ⟨hsend, hleft, hcontext⟩ := hanswer.eq_dispatchFn hconveys hdecode hhas hplace
      rw [and_iff_right hsize]
      refine GrainHandler.agrees_ask_iff hout hconveys.1 ?_ hleft hcontext
      rw [hone, hsend]
      exact GrainHandler.remoteInvoke_dispatchFn hresult
    · refine iff_of_false ?_ fun h => hsize h.1
      -- The request is refused, and no ask of the grain ends as a remote call that failed.
      rintro ⟨hsame, -, -⟩
      rcases refused_of_large (H.request a key payload) (Nat.not_le.mp hsize) endpoint
        hrun with rfl | ⟨refusal, hrefused⟩
      · cases hended
      · obtain ⟨reason, hsend⟩ : ∃ reason, send 0 = .failed reason := by
          generalize send 0 = outcome at hanswer
          cases hanswer with
          | refused reason => exact ⟨reason, rfl⟩
          | dispatched hmem =>
            have hplace := (hconveys.eq_of_mem hmem).1
            rw [hrefused] at hplace
            cases hplace
        rw [hone, hsend] at hsame
        exact GrainHandler.result_ask_ne_remoteCallFailed hout reason hsame.symm

/-! ## A probe -/

def Place.isDispatched : Place → Bool
  | .dispatched _ => true
  | _ => false

theorem Journey.exists_dispatched (req) (endpoint) (visits : List (Visit S)) (hops : ℕ)
    (h : (exec step (start (.transport endpoint req)) visits).map
      (fun j => (j.hops, j.place.isDispatched)) = some (hops, true)) :
    ∃ j node, exec step (start (.transport endpoint req)) visits = some j ∧ j.hops = hops ∧
      j.place = .dispatched (sentOn req hops) ∧ j.dispatches = [(node, sentOn req hops)] := by
  obtain ⟨j, hr, hview⟩ := Option.map_eq_some_iff.mp h
  obtain ⟨rfl, hpl⟩ := Prod.mk.inj hview
  have hconveys := (conveys_start req endpoint).exec hr
  cases hj : j.place with
  | dispatched req' =>
    have hat := hconveys.2
    simp only [hj] at hat
    obtain ⟨rfl, node, hone⟩ := hat
    exact ⟨j, node, hr, rfl, hj, hone⟩
  | _ =>
    rw [hj] at hpl
    cases hpl

def Wire.byte : Wire UInt8 where
  encode := fun n => .ok [n]
  decode := fun bytes => match bytes with
    | [n] => .ok n
    | _ => .error "not one byte"

/-- A message that adds to the counter, and is answered by the number of entries in the context of
the handler. The handler panics if there is nothing to add. -/
def GrainHandler.probe : GrainHandler UInt8 UInt8 UInt8 where
  grainType := Cluster.counterGrain
  messageTypeName := "Probe"
  messageVersion := 0
  message := .byte
  result := .byte
  decodeProto := fun _ => none
  encodeResultProto := fun _ => none
  askTimeout := 30 * nanosPerSecond
  handle := fun ctx n s =>
    if n = 0 then .panicked s else .returned (s + n) (UInt8.ofNat ctx.keys.length)

def GrainHandler.sum : GrainHandler UInt8 UInt8 UInt8 :=
  { GrainHandler.probe with
    messageTypeName := "Sum"
    handle := fun _ n s => .returned (s + n) (s + n) }

def Asking.tenant : Asking where
  messageType := "app::Message"
  startedAt := 0
  current := (∅ : RequestContext).insert "tenant" "a"
  closed := false
  full := false
  late := false

def Journey.toOwner : List (Visit UInt8) :=
  [⟨Cluster.exampleNode Cluster.siloA (.init Shared.empty), .ok none, none, .ok ()⟩,
    ⟨Cluster.exampleNode Cluster.siloB (.init Shared.empty), .ok none, none, .ok ()⟩]

theorem remote_ask_agrees_sum :
    ∃ j, exec Journey.step (.start (.transport siloA.endpoint
        (GrainHandler.sum.request .tenant "k" [2]))) toOwner = some j ∧ j.hops = 1 ∧
      ∃ context, (GrainHandler.sum.ask .tenant "k" 2 5).Agrees
        ⟨(ClusterGrainRef.ask .default (GrainHandler.sum.network 2) fun _ => .answered "" [7]).2,
          .ok 7, context⟩ Asking.tenant.current := by
  obtain ⟨j, node, hrun, hhops, hplace, hone⟩ :=
    exists_dispatched (GrainHandler.sum.request .tenant "k" [2]) siloA.endpoint
      toOwner 1 (by decide +kernel)
  have hmem := hone ▸ mem_singleton_self _
  have hanswer : j.Answered (fun _ => [GrainHandler.sum.entry]) .tenant 5 _ _ _ :=
    .dispatched hmem
  have hagrees := (remote_ask_agrees_iff GrainHandler.sum .tenant "k" 2 5 ⟨rfl, rfl⟩ rfl rfl
    (fun r => ⟨[r], rfl, rfl⟩) (fun _ => [GrainHandler.sum.entry]) siloA.endpoint
    toOwner j hrun (by rw [ended, hplace]) (fun _ => ⟨_, hplace⟩)
    (fun _ _ => ⟨⟨_, rfl, rfl⟩, rfl⟩) .default (fun _ => .answered "" [7]) _ _ hanswer
    (by decide)).2.mpr ⟨by decide, rfl, ⟨7, 7, rfl, rfl⟩, .inr (by decide)⟩
  exact ⟨j, hrun, hhops, _, hagrees⟩

/-- A handler that panics closes the mailbox on its caller, which on another silo hears of a call
that failed. After one hop a handler has an entry more in its context. -/
theorem remote_ask_differs :
    (∃ j outcome left context, exec Journey.step (.start (.transport siloB.endpoint
        (GrainHandler.probe.request .tenant "k" [0]))) (toOwner.drop 1) = some j ∧
      j.Answered (fun _ => [GrainHandler.probe.entry]) .tenant 5 outcome left context ∧
      (ClusterGrainRef.ask .none (GrainHandler.probe.network 0) fun _ => outcome).2 =
        .error (.remoteCallFailed "handler error: grain mailbox closed") ∧
      (GrainHandler.probe.ask .tenant "k" 0 5).result = .error .mailboxClosed) ∧
    ∃ j outcome left context, exec Journey.step (.start (.transport siloA.endpoint
        (GrainHandler.probe.request .tenant "k" [1]))) toOwner = some j ∧
      j.Answered (fun _ => [GrainHandler.probe.entry]) .tenant 5 outcome left context ∧
      (ClusterGrainRef.ask .none (GrainHandler.probe.network 1) fun _ => outcome).2 = .ok 3 ∧
      (GrainHandler.probe.ask .tenant "k" 1 5).result = .ok 2 := by
  refine ⟨?_, ?_⟩
  · obtain ⟨j, node, hrun, -, -, hone⟩ :=
      exists_dispatched (GrainHandler.probe.request .tenant "k" [0]) siloB.endpoint
        (toOwner.drop 1) 0 (by decide +kernel)
    exact ⟨j, _, _, _, hrun, .dispatched (hone ▸ mem_singleton_self _), by decide +kernel,
      by decide +kernel⟩
  · obtain ⟨j, node, hrun, -, -, hone⟩ :=
      exists_dispatched (GrainHandler.probe.request .tenant "k" [1]) siloA.endpoint
        toOwner 1 (by decide +kernel)
    exact ⟨j, _, _, _, hrun, .dispatched (hone ▸ mem_singleton_self _), by decide +kernel,
      by decide +kernel⟩

end Orlando
