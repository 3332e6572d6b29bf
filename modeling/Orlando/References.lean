import Orlando.Cluster
import Orlando.RequestContext

/-!
# References and filters

A `GrainRef` has an id and a chain of filters. Its `ask` looks the id up in the call chain, and all
its methods ask the filters before the message is put into the mailbox. The other types of
references have neither, contexts of handlers are made without filters, and references to persistent
grains from the bare sender.
-/

namespace Orlando

variable {S : Type} {m : Outgoing} {method : CallMethod}
  {put : RequestContext → Except GrainError RequestContext} {r : GrainRef} {sent : Sent}
  {ref : Reference}

inductive GrainError where
  | mailboxClosed
  | replyTypeMismatch
  | remoteCallFailed (reason : String)
  | handlerFailed (reason : String)
  | timeout (duration : ℕ)
  | mailboxFull
  | siloOverloaded
  | deadlockDetected (cycle : String)
deriving DecidableEq

/-! ## Filters -/

structure GrainCallInfo where
  grainId : GrainId
  messageType : String
  startedAt : ℕ
deriving DecidableEq

abbrev GrainCallFilter := GrainCallInfo → Except String Unit

abbrev FilterChain := List GrainCallFilter

/-- The filters that are asked, in order, up to the first that rejects the call. -/
def FilterChain.runBefore (info : GrainCallInfo) :
    FilterChain → List GrainCallFilter × Except String Unit
  | [] => ([], .ok ())
  | filter :: filters =>
    match filter info with
    | .ok () =>
      let rest := FilterChain.runBefore info filters
      (filter :: rest.1, rest.2)
    | .error e => ([filter], .error e)

theorem FilterChain.runBefore_eq_ok {info filters}
    (h : (FilterChain.runBefore info filters).2 = .ok ()) :
    (FilterChain.runBefore info filters).1 = filters ∧ ∀ f ∈ filters, f info = .ok () := by
  induction filters with
  | nil => exact ⟨rfl, nofun⟩
  | cons filter filters ih =>
    cases hfilter : filter info with
    | error e => simp [FilterChain.runBefore, hfilter] at h
    | ok =>
      simp only [FilterChain.runBefore, hfilter] at h ⊢
      obtain ⟨hasked, hall⟩ := ih h
      exact ⟨congrArg (filter :: ·) hasked, List.forall_mem_cons.mpr ⟨hfilter, hall⟩⟩

/-! ## Sending -/

/-- What comes of sending a message : what the filters were told and which were asked, and the
context in which the handler will run, once the message is in the mailbox. -/
structure Sent where
  info : GrainCallInfo
  asked : List GrainCallFilter
  result : Except GrainError RequestContext

structure Outgoing where
  messageType : String
  startedAt : ℕ
  current : RequestContext
  closed : Bool
  full : Bool

namespace Outgoing

variable (m : Outgoing)

def info (gid : GrainId) : GrainCallInfo :=
  ⟨gid, m.messageType, m.startedAt⟩

/-- `send` of the mailbox, which waits for room : the handler will run in the context. -/
def send (handler : RequestContext) : Except GrainError RequestContext :=
  if m.closed then .error .mailboxClosed else .ok handler

def trySend (handler : RequestContext) : Except GrainError RequestContext :=
  if m.closed then .error .mailboxClosed
  else if m.full then .error .mailboxFull
  else .ok handler

/-- The context that an envelope of `build_ask_envelope` runs a handler of the grain in. -/
def askContext (grain : GrainId) : RequestContext :=
  m.current.withCallChainEntry grain

variable {m} {handler context : RequestContext}

theorem eq_of_send (h : m.send handler = .ok context) : context = handler := by
  unfold send at h
  split_ifs at h
  exact (Except.ok.inj h).symm

theorem eq_of_trySend (h : m.trySend handler = .ok context) : context = handler := by
  unfold trySend at h
  split_ifs at h
  exact (Except.ok.inj h).symm

theorem send_ne_deadlock (cycle) : m.send handler ≠ .error (.deadlockDetected cycle) := by
  unfold send
  split_ifs <;> simp

theorem trySend_ne_deadlock (cycle) : m.trySend handler ≠ .error (.deadlockDetected cycle) := by
  unfold trySend
  split_ifs <;> simp

end Outgoing

structure GrainRef where
  target : GrainId
  grainId : GrainId
  filters : FilterChain

namespace GrainRef

def new (G : GrainType S) (target : GrainId) : GrainRef where
  target := target
  grainId := G.id ""
  filters := []

def withId (gid : GrainId) (filters : FilterChain) : GrainRef where
  target := gid
  grainId := gid
  filters := filters

variable (r : GrainRef) (m : Outgoing)

def filtered (put : RequestContext → Except GrainError RequestContext) : Sent :=
  match FilterChain.runBefore (m.info r.grainId) r.filters with
  | (asked, .error e) => ⟨m.info r.grainId, asked, .error (.handlerFailed e)⟩
  | (asked, .ok ()) => ⟨m.info r.grainId, asked, put (m.askContext r.target)⟩

def ask : Sent :=
  if m.current.isInCallChain r.grainId then
    ⟨m.info r.grainId, [], .error (.deadlockDetected (m.current.callChain.getD "unknown" ++
      " -> " ++ r.grainId.entry))⟩
  else r.filtered m m.send

def tryAsk : Sent :=
  r.filtered m m.trySend

def tell : Sent :=
  r.filtered m m.send

variable {r m} in
theorem put_of_filtered {put : RequestContext → Except GrainError RequestContext} {handler}
    (h : (r.filtered m put).result = .ok handler) : put (m.askContext r.target) = .ok handler := by
  unfold filtered at h
  split at h
  · cases h
  · exact h

end GrainRef

/-! ## References of every type -/

inductive Reference where
  | grain (r : GrainRef)
  | worker (target : GrainId)
  | transactional (target : GrainId)
  | journaled (target : GrainId)
  | faceted (target : GrainId)

inductive CallMethod where
  | ask
  | tryAsk
  | tell
deriving DecidableEq

namespace Reference

def target : Reference → GrainId
  | .grain r => r.target
  | .worker target | .transactional target | .journaled target | .faceted target => target

/-- The methods that a reference has. Envelopes of the last three kinds do not restore the
context of the sender. -/
def send (m : Outgoing) : Reference → CallMethod → Option Sent
  | .grain r, .ask => some (r.ask m)
  | .grain r, .tryAsk => some (r.tryAsk m)
  | .grain r, .tell => some (r.tell m)
  | .worker target, .ask | .worker target, .tell =>
    some ⟨m.info target, [], m.send (m.askContext target)⟩
  | .transactional target, .ask | .journaled target, .ask | .faceted target, .ask =>
    some ⟨m.info target, [], m.send ∅⟩
  | _, _ => none

end Reference

/-- The call is turned down as one that closes a cycle. -/
def Sent.Deadlock (sent : Sent) : Prop :=
  ∃ cycle, sent.result = .error (.deadlockDetected cycle)

theorem GrainRef.not_deadlock_filtered
    (hput : ∀ handler cycle, put handler ≠ .error (.deadlockDetected cycle)) :
    ¬(r.filtered m put).Deadlock := by
  rintro ⟨cycle, h⟩
  unfold filtered at h
  split at h
  · cases h
  · exact hput _ cycle h

theorem Reference.deadlock_iff (hsend : ref.send m method = some sent) :
    sent.Deadlock ↔ method = .ask ∧ ∃ r, ref = .grain r ∧
      m.current.isInCallChain r.grainId = true := by
  cases ref with
  | grain r =>
    cases method with
    | ask =>
      cases hsend
      unfold GrainRef.ask
      split_ifs with hchain
      · exact ⟨fun _ => ⟨rfl, r, rfl, hchain⟩, fun _ => ⟨_, rfl⟩⟩
      · refine ⟨fun h => absurd h (GrainRef.not_deadlock_filtered fun _ =>
          Outgoing.send_ne_deadlock), ?_⟩
        rintro ⟨-, r', hr', hchain'⟩
        cases hr'
        exact absurd hchain' hchain
    | tryAsk =>
      cases hsend
      exact ⟨fun h => absurd h (GrainRef.not_deadlock_filtered fun _ =>
        Outgoing.trySend_ne_deadlock), fun h => by cases h.1⟩
    | tell =>
      cases hsend
      exact ⟨fun h => absurd h (GrainRef.not_deadlock_filtered fun _ =>
        Outgoing.send_ne_deadlock), fun h => by cases h.1⟩
  | _ =>
    refine ⟨fun ⟨cycle, h⟩ => ?_, fun ⟨_, r, hr, _⟩ => by cases hr⟩
    cases method <;> cases hsend <;> exact absurd h (Outgoing.send_ne_deadlock cycle)

/-! ## Where references come from -/

structure GrainContext where
  grainId : GrainId
  filters : FilterChain

namespace GrainContext

/-- `GrainContext::new`, with which every mailbox makes the context of its handlers. -/
def new (gid : GrainId) : GrainContext where
  grainId := gid
  filters := []

def withFilters (gid : GrainId) (filters : FilterChain) : GrainContext where
  grainId := gid
  filters := filters

variable (ctx : GrainContext)

def getRef (G : GrainType S) (key : String) : GrainRef :=
  .withId (G.id key) ctx.filters

def getWorkerRef (_ctx : GrainContext) (G : GrainType S) (key : String) : Reference :=
  .worker (G.id key)

end GrainContext

/-- The methods of a silo, and of the context of a service on it, that give out references. -/
inductive SiloMethod where
  | getRef
  | getWorkerRef
  | serviceGetRef
  | serviceGetWorkerRef
  | persistentGetRef
  | versionedGetRef
  | transactionalGetRef
  | journaledGetRef
  | facetedGetRef
deriving DecidableEq

/-- Where a reference to a grain comes from : the silo, or the context of a handler, which was
entered through a reference from elsewhere. -/
inductive RefSource (S : Type) where
  | silo (method : SiloMethod) (G : GrainType S) (key : String)
  | handler (entered : RefSource S) (G : GrainType S) (key : String)
  | handlerWorker (entered : RefSource S) (G : GrainType S) (key : String)

def GrainType.persistentId (G : GrainType S) (key : String) : GrainId :=
  ⟨G.typeName, key⟩

def SiloMethod.reference (filters : FilterChain) (G : GrainType S) (key : String) :
    SiloMethod → Reference
  | getRef => .grain ((GrainContext.withFilters ⟨"silo", ""⟩ filters).getRef G key)
  | getWorkerRef => (GrainContext.withFilters ⟨"silo", ""⟩ filters).getWorkerRef G key
  | serviceGetRef =>
    .grain ((GrainContext.withFilters ⟨"silo-service", ""⟩ filters).getRef G key)
  | serviceGetWorkerRef =>
    (GrainContext.withFilters ⟨"silo-service", ""⟩ filters).getWorkerRef G key
  | persistentGetRef | versionedGetRef => .grain (.new G (G.persistentId key))
  | transactionalGetRef => .transactional (G.persistentId key)
  | journaledGetRef => .journaled (G.persistentId key)
  | facetedGetRef => .faceted (G.persistentId key)

namespace RefSource

def reference (filters : FilterChain) : RefSource S → Reference
  | silo method G key => method.reference filters G key
  | handler entered G key =>
    .grain ((GrainContext.new (entered.reference filters).target).getRef G key)
  | handlerWorker entered G key =>
    (GrainContext.new (entered.reference filters).target).getWorkerRef G key

def filtered : RefSource S → Bool
  | silo .getRef _ _ | silo .serviceGetRef _ _ => true
  | _ => false

end RefSource

/-! ## What the filters see -/

/-- Every filter was asked, in order, about a call of the target, and none rejected it. -/
def Sent.Guarded (sent : Sent) (filters : FilterChain) (target : GrainId) : Prop :=
  sent.asked = filters ∧ ∀ f ∈ filters, sent.info.grainId = target ∧ f sent.info = .ok ()

theorem GrainRef.guarded_filtered {handler} (h : (r.filtered m put).result = .ok handler) :
    (r.filtered m put).Guarded r.filters r.grainId := by
  unfold filtered at h ⊢
  split at h
  · cases h
  · rename_i asked hr
    have hok := congrArg Prod.snd hr
    obtain ⟨hasked, hall⟩ := FilterChain.runBefore_eq_ok hok
    simp only [hr] at hasked ⊢
    exact ⟨hasked, fun f hf => ⟨rfl, hall f hf⟩⟩

theorem GrainRef.filtered_of_send (hsend : Reference.send m (.grain r) method = some sent)
    {handler} (h : sent.result = .ok handler) :
    r.filtered m m.send = sent ∨ r.filtered m m.trySend = sent := by
  cases method with
  | tryAsk => exact .inr (Option.some.inj hsend)
  | tell => exact .inl (Option.some.inj hsend)
  | ask =>
    have hask := Option.some.inj hsend
    unfold ask at hask
    split_ifs at hask
    · rw [← hask] at h
      cases h
    · exact .inl hask

theorem GrainRef.guarded_of_send (hsend : Reference.send m (.grain r) method = some sent) {handler}
    (h : sent.result = .ok handler) : sent.Guarded r.filters r.grainId := by
  rcases filtered_of_send hsend h with rfl | rfl <;> exact guarded_filtered h

theorem Reference.asked_of_send (hsend : ref.send m method = some sent)
    (hne : ∀ r, ref ≠ .grain r) :
    sent.asked = [] := by
  cases ref with
  | grain r => exact absurd rfl (hne r)
  | _ => cases method <;> cases hsend <;> rfl

namespace RefSource

variable {filters : FilterChain} {source : RefSource S}

theorem reference_of_filtered (h : source.filtered = true) :
    ∃ gid, source.reference filters = .grain (.withId gid filters) := by
  cases source with
  | silo method G key =>
    cases method with
    | getRef | serviceGetRef => exact ⟨G.id key, rfl⟩
    | getWorkerRef | serviceGetWorkerRef | persistentGetRef | versionedGetRef
    | _ => cases h
  | _ => cases h

theorem filters_of_not_filtered (h : source.filtered = false) {r}
    (hr : source.reference filters = .grain r) : r.filters = [] := by
  cases source with
  | silo method G key => cases method <;> cases h <;> cases hr <;> rfl
  | _ => cases hr <;> rfl

end RefSource

/-- A message gets into a mailbox past every filter, unless the silo has none or has made the
reference itself, for a plain grain. -/
theorem filters_asked_iff (filters : FilterChain) (source : RefSource S) (method : CallMethod)
    (m : Outgoing) (sent : Sent) (hsend : (source.reference filters).send m method = some sent)
    (handler : RequestContext) (henqueued : sent.result = .ok handler) :
    sent.Guarded filters (source.reference filters).target ↔
      filters = [] ∨ source.filtered = true := by
  cases hfiltered : source.filtered with
  | true =>
    obtain ⟨gid, hgid⟩ := @RefSource.reference_of_filtered S filters source hfiltered
    rw [hgid] at hsend ⊢
    exact ⟨fun _ => .inr rfl, fun _ => GrainRef.guarded_of_send hsend henqueued⟩
  | false =>
    have hasked : sent.asked = [] := by
      cases href : source.reference filters with
      | grain r =>
        rw [href] at hsend
        rw [(GrainRef.guarded_of_send hsend henqueued).1]
        exact RefSource.filters_of_not_filtered hfiltered href
      | _ => exact Reference.asked_of_send hsend (by simp [href])
    simp only [Bool.false_eq_true, or_false]
    refine ⟨fun h => h.1.symm.trans hasked, ?_⟩
    rintro rfl
    exact ⟨hasked, nofun⟩

def vaultClosed : GrainCallFilter := fun info =>
  if info.grainId.typeName = "Vault" then .error "the vault is closed" else .ok ()

def exampleType (name : String) : GrainType Unit where
  typeName := "app::" ++ name
  grainTypeName := name
  placementHint := none
  grain := ⟨(), .ok, .ok, false⟩

def openDoor : Outgoing where
  messageType := "app::Open"
  startedAt := 0
  current := ∅
  closed := false
  full := false

theorem filters_asked_iff_front :
    ∃ sent handler, ((RefSource.silo .getRef (exampleType "Front") "f").reference
        [vaultClosed]).send openDoor .ask = some sent ∧ sent.result = .ok handler ∧
      sent.Guarded [vaultClosed] ⟨"Front", "f"⟩ :=
  ⟨_, _, rfl, rfl, (filters_asked_iff [vaultClosed] (.silo .getRef (exampleType "Front") "f") .ask
    openDoor _ rfl _ rfl).mpr (.inr rfl)⟩

/-- The filter rejects a call of the vault that comes from the silo. In a handler the same call
goes through, and the filter is not asked. -/
theorem nested_call_unfiltered :
    let front := RefSource.silo .getRef (exampleType "Front") "f"
    let vault := RefSource.silo .getRef (exampleType "Vault") "v"
    (∃ sent, (vault.reference [vaultClosed]).send openDoor .ask = some sent ∧
      sent.result = .error (.handlerFailed "the vault is closed")) ∧
    ∃ sent handler, ((RefSource.handler front (exampleType "Vault") "v").reference
        [vaultClosed]).send openDoor .ask = some sent ∧ sent.result = .ok handler ∧
      sent.asked = [] :=
  ⟨⟨_, rfl, rfl⟩, _, _, rfl, rfl, rfl⟩

end Orlando
