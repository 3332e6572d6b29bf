import Mathlib.Algebra.Ring.Nat
import Orlando.CallTree
import Orlando.Forwarding
import Orlando.RingHistory

/-!
# The hop budget of nested calls

The hop count of a request stands in its context, which a handler passes on to its own calls, and
nothing takes it out again. So a call from inside a handler starts with the hops of all the calls
around it (`Nested`), up to the last that came in a bare envelope.
-/

namespace Orlando

open List Visit Node Journey RequestContext NetworkCall

variable {S : Type} {req : InvokeRequest} {G : GrainType S} {node : Node S}

/-! ## Refusals for the hop count -/

namespace Visit

def hopRefusals : List String :=
  ["maximum forwarding hops (" ++ toString maxHops ++ ") exceeded — possible routing loop",
    "maximum forwarding hops (" ++ toString maxHops ++ ") exceeded during directory lookup"]

def onward (v : Visit S) (req : InvokeRequest) : Option String :=
  if maxPayloadSize < req.payload.length then none
  else
    match v.node.findOwner req.grainType req.grainKey with
    | some endpoint => some endpoint
    | none =>
      match v.crossCluster with
      | .ok none =>
        if v.node.isActive req.grainType req.grainKey then none else v.activeElsewhere
      | _ => none

def Exceeds (v : Visit S) (req : InvokeRequest) : Prop :=
  (v.onward req).isSome = true ∧
    ∃ text ∈ hopRefusals, v.invoke req = .refused (.rpc (.status (.internal text)))

variable {v : Visit S} {req : InvokeRequest} {endpoint : String}

theorem invoke_of_onward (h : v.onward req = some endpoint) :
    (req.hopCount < maxHops ∧ v.invoke req = v.sendOn endpoint req) ∨ (maxHops ≤ req.hopCount ∧
        ∃ text ∈ hopRefusals, v.invoke req = .refused (.rpc (.status (.internal text)))) := by
  have hsize : ¬maxPayloadSize < req.payload.length := fun hlt => by
    rw [onward, if_pos hlt] at h
    cases h
  rw [onward, if_neg hsize] at h
  cases howner : v.node.findOwner req.grainType req.grainKey with
  | some owner =>
    simp only [howner, Option.some.injEq] at h
    subst h
    by_cases hhops : maxHops ≤ req.hopCount
    · refine .inr ⟨hhops, _, mem_cons_self, ?_⟩
      simp [invoke, receive, hsize, howner, forwardCall, hhops]
    · refine .inl ⟨Nat.not_le.mp hhops, ?_⟩
      simp [invoke, receive, hsize, howner, forwardCall, hhops]
  | none =>
    simp only [howner] at h
    have hinvoke : v.invoke req = v.serve req := by
      simp [invoke, receive, hsize, howner]
    rw [hinvoke]
    split at h
    · rename_i hcross
      split_ifs at h with hactive
      simp only [serve, hcross, checkLocal, hactive, Bool.false_eq_true, if_false, h]
      by_cases hhops : maxHops ≤ req.hopCount
      · refine .inr ⟨hhops, _, mem_cons_of_mem _ (mem_singleton_self _), ?_⟩
        rw [if_pos hhops]
      · exact .inl ⟨Nat.not_le.mp hhops, if_neg hhops⟩
    · cases h

theorem sendOn_ne_internal (text) :
    v.sendOn endpoint req ≠ .refused (.rpc (.status (.internal text))) := by
  unfold sendOn
  split <;> simp

theorem exceeds_iff : v.Exceeds req ↔ (v.onward req).isSome = true ∧ maxHops ≤ req.hopCount := by
  refine and_congr_right fun hsome => ?_
  obtain ⟨endpoint, honward⟩ := Option.isSome_iff_exists.mp hsome
  rcases invoke_of_onward honward with ⟨hlt, hsend⟩ | ⟨hle, hrefused⟩
  · refine iff_of_false ?_ (Nat.not_le.mpr hlt)
    rintro ⟨text, -, hrefused⟩
    exact sendOn_ne_internal text (hsend.symm.trans hrefused)
  · exact iff_of_true hrefused hle

end Visit

theorem InvokeRequest.SameCall.payload_eq {req req' : InvokeRequest} (h : req.SameCall req') :
    req'.payload = req.payload := by
  rw [← h.with_eq]

/-! ## Calls inside of calls -/

/-- The handler of a request runs in the context, and its message is sent in the scope of that of
the request. -/
def Node.Handles (node : Node S) (req : InvokeRequest) (handler : RequestContext) : Prop :=
  ∃ G env m, node.registry.dispatch req.grainType req.messageType req.messageVersion req.payload
      (.fromProto req.encoding) = .ok (G, env) ∧
    m.current = req.requestContext ∧
    ((GrainRef.new G (G.id req.grainKey)).ask m).result = .ok handler

variable (S) in
/-- A handler runs in the context, inside of remote calls that were sent on so many times each. A
bare envelope leaves nothing of these. -/
inductive Nested : List ℕ → RequestContext → Prop
  | outside {ctx : RequestContext} : ctx.lookup hopCountKey = none → Nested [] ctx
  /-- A request with the context gets to a registry, which runs its handler. -/
  | remote {hops : List ℕ} {req req' : InvokeRequest} {endpoint : String}
      {visits : List (Visit S)} {j : Journey S} {node : Node S} {handler : RequestContext} :
      Nested hops req.requestContext →
      exec Journey.step (.start (.transport endpoint req)) visits = some j →
      (node, req') ∈ j.dispatches → node.Handles req' handler →
      Nested (hops ++ [j.hops]) handler
  | here {hops : List ℕ} {m : Outgoing} {ref : Reference} {method : CallMethod} {sent : Sent}
      {handler : RequestContext} :
      Nested hops m.current → ref.send m method = some sent → sent.result = .ok handler →
      Nested (if ref.recorded then hops else []) handler

def RequestContext.hopCount (ctx : RequestContext) : ℕ :=
  ((ctx.lookup hopCountKey).bind parseU32).getD 0

theorem RequestContext.hopCount_withCallChainEntry (ctx : RequestContext) (grain) :
    (ctx.withCallChainEntry grain).hopCount = ctx.hopCount := by
  have hkey : hopCountKey ≠ callChainKey := by decide
  rw [hopCount, lookup_withCallChainEntry ctx hkey, hopCount]

theorem Node.Handles.hopCount_eq {handler} (h : node.Handles req handler) :
    handler.hopCount = req.hopCount := by
  obtain ⟨G, env, m, -, hcurrent, hresult⟩ := h
  have hsend : (Reference.grain (.new G (G.id req.grainKey))).send m .ask = some _ := rfl
  have hcontext := CallTree.context_of_send hsend hresult
  rw [hcontext, Reference.recorded, if_pos rfl, hopCount_withCallChainEntry, hcurrent]
  rfl

theorem Nested.hopCount_eq {hops ctx} (h : Nested S hops ctx) :
    ctx.hopCount = hops.sum ∧ hops.sum ≤ maxHops := by
  induction h with
  | outside hnone =>
    refine ⟨?_, Nat.zero_le _⟩
    rw [hopCount, hnone]
    rfl
  | @remote hops req req' endpoint visits j node handler _ hrun hmem hhandles ih =>
    obtain ⟨hcount, hle⟩ := ih
    have hreq : req.hopCount = hops.sum := hcount
    have harrived := (arrived_start endpoint (hreq ▸ hle)).exec hrun
    rw [sum_append, sum_singleton, hhandles.hopCount_eq,
      (harrived.forwarded_of_mem hmem).hopCount, hreq]
    exact ⟨rfl, hreq ▸ harrived.1⟩
  | @here hops m ref method sent handler _ hsend hresult ih =>
    rw [CallTree.context_of_send hsend hresult]
    split_ifs
    · rw [hopCount_withCallChainEntry]
      exact ih
    · exact ⟨rfl, Nat.zero_le _⟩

/-! ## The budget -/

/-- The call is refused for its hops only after it was itself sent on `MAX_HOPS` times. -/
def NetworkCall.OwnBudget (call : NetworkCall S) (G : GrainType S) (key : String) : Prop :=
  ∀ (endpoint : String) (visits : List (Visit S)) (j : Journey S),
    exec Journey.step (.start (.transport endpoint (call.request G key))) visits = some j →
    ∀ (endpoint' : String) (req : InvokeRequest), j.place = .transport endpoint' req →
      ∀ v : Visit S, v.Exceeds req → maxHops ≤ j.hops

namespace Visit

def knowsOther : Visit S where
  node :=
    { localAddr := Cluster.siloA
      registry := []
      ring := (HashRing.new 1).add Cluster.siloB
      placement := hashBasedPlacement
      silo := .init Shared.empty }
  crossCluster := .ok none
  activeElsewhere := none
  connection := .ok ()

theorem onward_knowsOther {req} (h : req.payload.length ≤ maxPayloadSize) :
    ∃ endpoint, (knowsOther : Visit S).onward req = some endpoint := by
  refine ⟨Cluster.siloB.endpoint, ?_⟩
  have howner : (knowsOther : Visit S).node.findOwner req.grainType req.grainKey =
      some Cluster.siloB.endpoint := by
    simp only [findOwner, knowsOther, HashRing.get_add_new Nat.one_pos]
    rfl
  rw [onward, if_neg (Nat.not_lt.mpr h), howner]

end Visit

theorem Journey.exists_forwarded (hsize : req.payload.length ≤ maxPayloadSize) (endpoint n)
    (hn : req.hopCount + n ≤ maxHops) :
    ∃ (visits : List (Visit S)) (j : Journey S) (endpoint' : String) (req' : InvokeRequest),
      exec step (.start (.transport endpoint req)) visits = some j ∧ j.hops = n ∧
      j.place = .transport endpoint' req' ∧ req.Forwarded n req' := by
  induction n with
  | zero =>
    exact ⟨[], .start (.transport endpoint req), endpoint, req, rfl, rfl, rfl, .refl req, rfl⟩
  | succ n ih =>
    obtain ⟨visits, j, endpoint', req', hrun, hhops, hplace, hfwd⟩ :=
      ih ((Nat.le_succ _).trans hn)
    have hlt : req'.hopCount < maxHops := hfwd.hopCount ▸ hn
    obtain ⟨other, honward⟩ := @onward_knowsOther S req' (hfwd.same.payload_eq ▸ hsize)
    have hinvoke : (knowsOther : Visit S).invoke req' = .transport other req'.nextHop := by
      rcases invoke_of_onward honward with ⟨-, hsend⟩ | ⟨hle, -⟩
      · exact hsend
      · exact absurd hlt (Nat.not_lt.mpr hle)
    refine ⟨visits ++ [.knowsOther],
      { j with place := .transport other req'.nextHop, hops := n + 1 }, other, req'.nextHop,
      exec_snoc_eq_some.mpr ⟨j, hrun, ?_⟩, rfl, rfl, hfwd.nextHop hlt⟩
    rw [step, hplace]
    simp only [hinvoke, move, hhops]

theorem NetworkCall.ownBudget_iff {call : NetworkCall S} {key}
    (hcount : (call.request G key).hopCount ≤ maxHops) :
    call.OwnBudget G key ↔
      maxPayloadSize < call.payload.length ∨ (call.request G key).hopCount = 0 := by
  constructor
  · intro hown
    by_contra hnot
    obtain ⟨hsize, hpos⟩ := not_or.mp hnot
    -- Sent on as often as the count allows, the call is refused with hops of its own left.
    obtain ⟨visits, j, endpoint, req, hr, hhops, hpl, hfwd⟩ :=
      exists_forwarded (S := S) (Nat.not_lt.mp hsize) ""
        (maxHops - (call.request G key).hopCount) (Nat.add_sub_of_le hcount).le
    have hfull : maxHops ≤ req.hopCount := by
      rw [hfwd.hopCount, Nat.add_sub_of_le hcount]
    have hpayload : req.payload.length ≤ maxPayloadSize :=
      hfwd.same.payload_eq ▸ Nat.not_lt.mp hsize
    obtain ⟨other, honward⟩ := @onward_knowsOther S req hpayload
    have hexceeds := exceeds_iff.mpr ⟨Option.isSome_iff_exists.mpr ⟨other, honward⟩, hfull⟩
    have hle := hown "" visits j hr endpoint req hpl _ hexceeds
    omega
  · intro hor endpoint visits j hr endpoint' req hpl v hexceeds
    obtain ⟨hs, hfull⟩ := exceeds_iff.mp hexceeds
    have harrived := ((arrived_start endpoint hcount).exec hr).2
    simp only [hpl] at harrived
    have hfwd := harrived.1
    rcases hor with hsize | hzero
    · have hlarge : maxPayloadSize < req.payload.length := by rwa [hfwd.same.payload_eq]
      rw [onward, if_pos hlarge] at hs
      cases hs
    · rw [hfwd.hopCount, hzero, Nat.zero_add] at hfull
      exact hfull

/-- A nested call has `MAX_HOPS` hops of its own exactly if none of the calls around it was sent on.
-/
theorem hop_budget_iff (hops : List ℕ) (ctx : RequestContext) (hnested : Nested S hops ctx)
    (G : GrainType S) (key : String) (call : NetworkCall S) (hcall : call.requestContext = ctx) :
    (call.request G key).hopCount = hops.sum ∧
    ((call.request G key).hopCount = 0 ↔ ∀ n ∈ hops, n = 0) ∧
    (call.OwnBudget G key ↔ maxPayloadSize < call.payload.length ∨ ∀ n ∈ hops, n = 0) := by
  obtain ⟨hsum, hle⟩ := hnested.hopCount_eq
  have hcount : (call.request G key).hopCount = hops.sum := by
    rw [← hsum, ← hcall]
    rfl
  have hzero : (call.request G key).hopCount = 0 ↔ ∀ n ∈ hops, n = 0 := by
    rw [hcount]
    exact List.sum_eq_zero_iff_forall_eq_nat
  refine ⟨hcount, hzero, ?_⟩
  rw [ownBudget_iff (hcount ▸ hle), hzero]

theorem Node.handles_of_found {env}
    (hfound : node.registry.dispatch req.grainType req.messageType req.messageVersion req.payload
      (.fromProto req.encoding) = .ok (G, env))
    (hchain : req.requestContext.lookup callChainKey = none) :
    ∃ handler, node.Handles req handler := by
  let m : Outgoing := ⟨req.messageType, 0, req.requestContext, false, false⟩
  have hnot : m.current.isInCallChain (GrainRef.new G (G.id req.grainKey)).grainId = false := by
    simp only [m, isInCallChain, callChain, hchain]
  refine ⟨m.askContext (G.id req.grainKey), G, env, m, hfound, rfl, ?_⟩
  rw [GrainRef.ask, hnot]
  rfl

open Cluster

theorem nested_roundTrip : ∃ ctx, Nested UInt8 [3] ctx := by
  have hmap : (exec Journey.step (.start (.transport siloA.endpoint
      ((addCall 1).request counterGrain "k"))) roundTrip).map (fun j => (j.hops,
        j.dispatches.map fun d => (d.1.registry.dispatch d.2.grainType d.2.messageType
          d.2.messageVersion d.2.payload (.fromProto d.2.encoding)).isOk)) = some (3, [true]) := by
    decide +kernel
  obtain ⟨j, hr, hj⟩ := Option.map_eq_some_iff.mp hmap
  obtain ⟨hhops, hfound⟩ := Prod.mk.inj hj
  obtain ⟨⟨node, req⟩, hdispatches, hok⟩ := map_eq_singleton_iff.mp hfound
  have hm := hdispatches ▸ mem_singleton_self _
  have hsame := ((arrived_start _ (Nat.zero_le _)).exec hr).forwarded_of_mem hm |>.same
  have hchain := hsame.lookup callChainKey (by decide)
  cases hdispatch : node.registry.dispatch req.grainType req.messageType req.messageVersion
    req.payload (.fromProto req.encoding) with
  | error e => simp [hdispatch, Except.isOk, Except.toBool] at hok
  | ok found =>
    obtain ⟨handler, hhandles⟩ := handles_of_found hdispatch hchain
    refine ⟨handler, ?_⟩
    rw [← hhops]
    exact .remote (.outside rfl) hr hm hhandles

theorem hop_budget_iff_roundTrip :
    ∃ ctx, Nested UInt8 [3] ctx ∧ (request { addCall 1 with requestContext := ctx } counterGrain
        "k2").hopCount = 3 ∧
      ¬NetworkCall.OwnBudget { addCall 1 with requestContext := ctx } counterGrain "k2" := by
  obtain ⟨ctx, hnested⟩ := nested_roundTrip
  obtain ⟨hcount, -, hown⟩ := hop_budget_iff [3] ctx hnested counterGrain "k2"
    { addCall 1 with requestContext := ctx } rfl
  refine ⟨ctx, hnested, hcount, fun h => ?_⟩
  have hsmall : ¬maxPayloadSize < (addCall 1).payload.length := by decide
  rcases hown.mp h with hsize | hzero
  · exact hsmall hsize
  · exact absurd (hzero 3 (mem_singleton_self 3)) (by decide)

/-- The next call of that handler is refused by the first silo that has to send it on. -/
theorem nested_call_refused :
    ∃ ctx, Nested UInt8 [3] ctx ∧ Visit.Exceeds
      ⟨exampleNode siloA (.init Shared.empty), .ok none, none, .ok ()⟩
      (request { addCall 1 with requestContext := ctx } counterGrain "k2") := by
  obtain ⟨ctx, hnested⟩ := nested_roundTrip
  refine ⟨ctx, hnested, exceeds_iff.mpr ⟨?_, hnested.hopCount_eq.1.ge⟩⟩
  have honward : (onward ⟨exampleNode siloA (.init Shared.empty), .ok none, none, .ok ()⟩
      ((addCall 1).request counterGrain "k2")).isSome = true := by
    decide +kernel
  exact honward

end Orlando
