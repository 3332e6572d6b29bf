import Orlando.RemoteAsk

/-!
# The request context along a chain of calls

A handler that is called calls another grain, and so on : each `ChainCall` is made in the context of
the handler before it, with what that one has added. A call may write over what its handler has set
itself, the call chain, and the hop count of a request that was sent on.
-/

namespace Orlando

open List RequestContext Option

variable {S : Type}

/-- How a call gets to its grain. A local `ClusterGrainRef` makes a `GrainRef`, and so does the
silo that a request arrives at, after `hops` others. -/
inductive CallRoute (S : Type) where
  | here (ref : Reference) (method : CallMethod)
  | remote (G : GrainType S) (target : GrainId) (hops : ℕ)

namespace CallRoute

def reference : CallRoute S → Reference
  | here ref _ => ref
  | remote G target _ => .grain (.new G target)

def method : CallRoute S → CallMethod
  | here _ method => method
  | remote .. => .ask

def hops : CallRoute S → ℕ
  | here .. => 0
  | remote _ _ hops => hops

end CallRoute

/-- A call of a handler, with what it has put into the context for it by `with`. -/
structure ChainCall (S : Type) where
  values : List (String × String)
  route : CallRoute S
  message : Outgoing

namespace ChainCall

variable (c : ChainCall S) (ctx : RequestContext)

def scope : RequestContext :=
  c.values.foldl (fun ctx value => ctx.insert value.1 value.2) ctx

def handler (ctx : RequestContext) (c : ChainCall S) : Option RequestContext :=
  let current := (c.scope ctx).sentOn c.route.hops
  (c.route.reference.send { c.message with current := current } c.route.method).bind
    fun sent => sent.result.toOption

def Overrides (key : String) : Prop :=
  key ∈ c.values.map Prod.fst ∨ key = callChainKey ∨ key = hopCountKey ∧ c.route.hops ≠ 0

variable {c ctx} {key value : String} {h : RequestContext}

theorem lookup_scope (hkey : key ∉ c.values.map Prod.fst) :
    (c.scope ctx).lookup key = ctx.lookup key := by
  unfold scope
  generalize c.values = values at hkey
  induction values generalizing ctx with
  | nil => rfl
  | cons v values ih =>
    obtain ⟨hv, hvalues⟩ := not_or.mp (mt mem_cons.mpr hkey)
    exact (ih hvalues).trans (AList.lookup_insert_ne hv)

theorem lookup_handler (hh : handler ctx c = some h) (hkey : ¬c.Overrides key) :
    h.lookup key = if c.route.reference.recorded then ctx.lookup key else none := by
  obtain ⟨hvalues, hrest⟩ := not_or.mp hkey
  obtain ⟨hchain, hhops⟩ := not_or.mp hrest
  obtain ⟨sent, hsend, hresult⟩ := bind_eq_some_iff.mp hh
  have hok : sent.result = .ok h := by
    cases hr : sent.result <;> simp_all [Except.toOption]
  have hsent : ((c.scope ctx).sentOn c.route.hops).lookup key = ctx.lookup key := by
    by_cases hzero : c.route.hops = 0
    · rw [hzero]
      exact lookup_scope hvalues
    · rw [lookup_sentOn_ne fun heq => hhops ⟨heq, hzero⟩, lookup_scope hvalues]
  rw [CallTree.context_of_send hsend hok]
  split_ifs
  · rw [lookup_withCallChainEntry _ hchain, hsent]
  · rfl

variable {cs : List (ChainCall S)}

theorem lookup_exec (hr : exec handler ctx cs = some h) (hkeep : ∀ c ∈ cs, ¬c.Overrides key)
    (hrec : ∀ c ∈ cs, c.route.reference.recorded = true) : h.lookup key = ctx.lookup key := by
  induction cs generalizing ctx with
  | nil =>
    cases hr
    rfl
  | cons c cs ih =>
    obtain ⟨next, hnext, hr⟩ := exec_cons_eq_some.mp hr
    obtain ⟨hc, hkeep⟩ := forall_mem_cons.mp hkeep
    obtain ⟨hrecorded, hrec⟩ := forall_mem_cons.mp hrec
    rw [ih hr hkeep hrec, lookup_handler hnext hc, if_pos hrecorded]

/-- What else is in the context gets to all handlers of a chain exactly if none of the calls is made
through a transactional, journaled or faceted reference. -/
theorem context_reaches_iff (hrun : exec handler ctx cs = some h)
    (hvalue : ctx.lookup key = some value) (hkeep : ∀ c ∈ cs, ¬c.Overrides key) :
    (∀ before after context, cs = before ++ after → exec handler ctx before = some context →
      context.lookup key = some value) ↔ ∀ c ∈ cs, c.route.reference.recorded = true := by
  constructor
  · intro hall c hc
    obtain ⟨before, after, rfl⟩ := append_of_mem hc
    rw [append_cons] at hrun hall
    obtain ⟨context, hcontext⟩ := isSome_iff_exists.mp
      (isSome_of_isSome_bind (by rw [← exec_append, hrun]; rfl))
    have hseen := hall _ _ context rfl hcontext
    obtain ⟨ctx', -, hc'⟩ := exec_snoc_eq_some.mp hcontext
    rw [lookup_handler hc' (hkeep c hc)] at hseen
    by_contra hrec
    rw [if_neg hrec] at hseen
    cases hseen
  · rintro hrec before after context rfl hcontext
    rw [lookup_exec hcontext (fun c hc => hkeep c (mem_append_left after hc))
      fun c hc => hrec c (mem_append_left after hc), hvalue]

def traced : RequestContext :=
  (∅ : RequestContext).insert "trace-id" "t1"

def toCart (route : CallRoute Unit) : ChainCall Unit :=
  ⟨[], route, ⟨"Add", 0, ∅, false, false⟩⟩

def cartChain : List (ChainCall Unit) :=
  [toCart (.remote (exampleType "Cart") ⟨"Cart", "c"⟩ 1),
    toCart (.here (.worker ⟨"Pool", "p"⟩) .ask)]

theorem lookup_traced : traced.lookup "trace-id" = some "t1" :=
  AList.lookup_insert _

theorem context_reaches_worker :
    ∃ h, exec handler traced cartChain = some h ∧ h.lookup "trace-id" = some "t1" :=
  have hrun : exec handler traced cartChain = some _ := rfl
  ⟨_, hrun, (context_reaches_iff hrun lookup_traced
    (by simp [cartChain, toCart, Overrides, callChainKey, hopCountKey])).mpr
    (by simp [cartChain, toCart, CallRoute.reference, Reference.recorded]) cartChain [] _ rfl rfl⟩

/-- The handlers of a transactional, a journaled and a faceted cart have an empty context. -/
theorem trace_lost :
    traced.lookup "trace-id" = some "t1" ∧
    ¬(toCart (.here (.transactional ⟨"Cart", "c"⟩) .ask)).Overrides "trace-id" ∧
    handler traced (toCart (.here (.transactional ⟨"Cart", "c"⟩) .ask)) = some ∅ ∧
    handler traced (toCart (.here (.journaled ⟨"Cart", "c"⟩) .ask)) = some ∅ ∧
    handler traced (toCart (.here (.faceted ⟨"Cart", "c"⟩) .ask)) = some ∅ :=
  ⟨lookup_traced, by simp [toCart, Overrides, callChainKey, CallRoute.hops], rfl, rfl, rfl⟩

end ChainCall

end Orlando
