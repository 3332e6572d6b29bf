import Orlando.Persistence
import Orlando.Transition

/-!
# Transactional grains

`TransactionalGrainRef::ask` clones the state, runs the handler, and puts the clone back if the
handler returns `Err`. What the handler has written to the grain's own entry of the store
(`TransactionContext`) is not undone. A handler is a tree of calls to its context that branches on
their answers (`TxProgram`). `TransactionalGrain.step` is the mailbox of such a grain. A handler at
work is kept with its accepted writes, so that those of the handlers that return `Err` can be told
from the others (`TransactionalGrain.committed`).
-/

namespace Orlando

/-! ## The state store -/

/-- `InMemoryStateStore` : the bytes of a grain with their tag, and the counter the tags
are drawn from. -/
structure InMemoryStateStore where
  data : GrainId → Option (Bytes × String)
  version : ℕ

namespace InMemoryStateStore

def new : InMemoryStateStore where
  data := fun _ => none
  version := 1

/-- `next_etag` : the tag, and the store with its 64-bit counter advanced. -/
def nextEtag (d : InMemoryStateStore) : String × InMemoryStateStore :=
  (toString d.version, { d with version := (d.version + 1) % 2 ^ 64 })

def load (d : InMemoryStateStore) (gid : GrainId) : Option Bytes :=
  (d.data gid).map Prod.fst

def setEntry (d : InMemoryStateStore) (gid : GrainId) (entry : Option (Bytes × String)) :
    InMemoryStateStore :=
  { d with data := Function.update d.data gid entry }

def save (d : InMemoryStateStore) (gid : GrainId) (bytes : Bytes) : InMemoryStateStore :=
  let (etag, d) := d.nextEtag
  d.setEntry gid (some (bytes, etag))

def delete (d : InMemoryStateStore) (gid : GrainId) : InMemoryStateStore :=
  d.setEntry gid none

def loadWithEtag (d : InMemoryStateStore) (gid : GrainId) : Option (Bytes × String) :=
  d.data gid

/-- `save_with_etag`. A conflict uses up a tag too. -/
def saveWithEtag (d : InMemoryStateStore) (gid : GrainId) (bytes : Bytes)
    (expected : Option String) : Except PersistenceError String × InMemoryStateStore :=
  let (etag, d) := d.nextEtag
  let accept := (.ok etag, d.setEntry gid (some (bytes, etag)))
  match expected, d.data gid with
  | none, none => accept
  | none, some (_, actual) => (.error (.etagMismatch none (some actual)), d)
  | some expected, none => (.error (.etagMismatch (some expected) none), d)
  | some expected, some (_, actual) =>
    if expected ≠ actual then (.error (.etagMismatch (some expected) (some actual)), d)
    else accept

theorem load_save (d : InMemoryStateStore) (gid) (bytes) :
    (d.save gid bytes).load gid = some bytes := by
  simp [save, load, setEntry]

theorem load_saveWithEtag (d : InMemoryStateStore) (gid) (bytes expected) :
    (d.saveWithEtag gid bytes expected).2.load gid =
      match (d.saveWithEtag gid bytes expected).1 with
      | .ok _ => some bytes
      | .error _ => d.load gid := by
  cases expected <;> cases hd : d.data gid
  case some.some expected actual =>
    by_cases heq : expected = actual.2 <;>
      simp [saveWithEtag, nextEtag, load, setEntry, hd, heq]
  all_goals simp [saveWithEtag, nextEtag, load, setEntry, hd]

end InMemoryStateStore

/-! ## Handlers -/

/-- What a transactional handler does next : a call to its `TransactionContext` with what
it makes of the answer, or its end, with the state it leaves behind. -/
inductive TxProgram (S : Type) where
  | saveState (s : S) (k : Except PersistenceError Unit → TxProgram S)
  | readState (k : Except PersistenceError (Option S) → TxProgram S)
  | clearState (k : Except PersistenceError Unit → TxProgram S)
  | saveWithEtag (s : S) (expected : Option String)
    (k : Except PersistenceError String → TxProgram S)
  | loadEtag (k : Except PersistenceError (Option String) → TxProgram S)
  | ok (s : S)
  | err (s : S) (e : PersistenceError)
  | panicked (s : S)

structure TxMessage (S : Type) where
  handle : S → TxProgram S

/-- A transactional grain type, with the serializer of its store and with `bincode`, which
`TransactionContext` uses whatever the serializer of the store. -/
structure TransactionalGrain (S : Type) where
  grain : Grain S
  serializer : Serializer S
  bincode : Serializer S

variable {S : Type}

namespace TransactionalGrain

variable (G : TransactionalGrain S)

/-- One call of `TransactionContext`, with the store's answer to it. A call that fails
leaves the store as it is. -/
def call (gid : GrainId) (d : InMemoryStateStore) (fault : Option PersistenceError) :
    TxProgram S → Option (TxProgram S × InMemoryStateStore)
  | .saveState s k =>
    match G.bincode.serialize s, fault with
    | .error e, _ => some (k (.error e), d)
    | .ok _, some e => some (k (.error e), d)
    | .ok bytes, none => some (k (.ok ()), d.save gid bytes)
  | .readState k =>
    match fault, d.load gid with
    | some e, _ => some (k (.error e), d)
    | none, none => some (k (.ok none), d)
    | none, some bytes =>
      match G.bincode.deserialize bytes with
      | .ok s => some (k (.ok (some s)), d)
      | .error e => some (k (.error e), d)
  | .clearState k =>
    match fault with
    | some e => some (k (.error e), d)
    | none => some (k (.ok ()), d.delete gid)
  | .saveWithEtag s expected k =>
    match G.bincode.serialize s, fault with
    | .error e, _ => some (k (.error e), d)
    | .ok _, some e => some (k (.error e), d)
    | .ok bytes, none =>
      let r := d.saveWithEtag gid bytes expected
      some (k r.1, r.2)
  | .loadEtag k =>
    match fault with
    | some e => some (k (.error e), d)
    | none => some (k (.ok ((d.loadWithEtag gid).map Prod.snd)), d)
  | _ => none

/-- What the call has written, if the store has accepted it : the bytes of a save, `none` for a
clear. -/
def accepted (gid : GrainId) (d : InMemoryStateStore) (fault : Option PersistenceError) :
    TxProgram S → List (Option Bytes)
  | .saveState s _ =>
    match G.bincode.serialize s, fault with
    | .ok bytes, none => [some bytes]
    | _, _ => []
  | .clearState _ => if fault = none then [none] else []
  | .saveWithEtag s expected _ =>
    match G.bincode.serialize s, fault with
    | .ok bytes, none =>
      match (d.saveWithEtag gid bytes expected).1 with
      | .ok _ => [some bytes]
      | .error _ => []
    | _, _ => []
  | _ => []

/-- What a new activation starts from, if its loads do not fail : the state the bytes give, or
the default state where there are none that can be read. -/
def loadedOf (bytes : Option Bytes) : S :=
  match loadState G.serializer (.ok bytes) with
  | .ok s => s.getD G.grain.default
  | .error _ => G.grain.default

def loaded (d : InMemoryStateStore) (gid : GrainId) : S :=
  G.loadedOf (d.load gid)

end TransactionalGrain

/-! ## The mailbox -/

/-- Where the task stands. A handler at work is kept with the clone of the state, the bytes it began
with, and its accepted writes. -/
inductive TxPhase (S : Type) where
  | load (attempt : ℕ)
  | activate
  | loop
  | handling (snapshot : S) (before : Option Bytes) (writes : List (Option Bytes))
    (program : TxProgram S)
  | deactivate
  | save (bytes : Bytes) (attempt : ℕ)
  | remove

/-- The task `transactional_get_ref` spawns. -/
structure TxTask (S : Type) where
  phase : TxPhase S
  state : S

structure Transactional (S : Type) where
  store : InMemoryStateStore
  task : Option (TxTask S)

def Transactional.init (store : InMemoryStateStore) : Transactional S where
  store := store
  task := none

def Transactional.move (j : Transactional S) (t : TxTask S) : Transactional S :=
  { j with task := some t }

/-- A step of a transactional grain. `start` is a message that gets the state to itself. -/
inductive TxEvent (S : Type) where
  | spawn
  | load (fault : Option PersistenceError)
  | onActivate
  | start (msg : TxMessage S)
  | call (fault : Option PersistenceError)
  | finish
  | closed
  | idleTimeout
  | onDeactivate
  | save (fault : Option PersistenceError)
  | remove
  | crash

namespace TransactionalGrain

variable (G : TransactionalGrain S)

/-- The handler has ended. `Ok` keeps its state, `Err` puts the clone back, and a panic ends a
sequential activation. -/
def finishTask (snapshot : S) : TxProgram S → Option (TxTask S)
  | .ok s => some ⟨.loop, s⟩
  | .err _ _ => some ⟨.loop, snapshot⟩
  | .panicked s => some ⟨if G.grain.reentrant then .loop else .remove, s⟩
  | _ => none

/-- `on_deactivate`, its panic contained, and the serialization of the final state. -/
def deactivateTask (t : TxTask S) : TxTask S :=
  let s := (G.grain.onDeactivate t.state).state
  match G.serializer.serialize s with
  | .ok bytes => ⟨.save bytes 1, s⟩
  | .error _ => ⟨.remove, s⟩

/-- `persistent_mailbox::run` under `WriteOnDeactivate`, and the envelope closures it runs. -/
def taskStep (gid : GrainId) (j : Transactional S) (t : TxTask S) (e : TxEvent S) :
    Option (Transactional S) :=
  match t.phase, e with
  | .load n, .load fault =>
    match loadState G.serializer (loadAnswer fault (j.store.load gid)) with
    | .ok s => some (j.move ⟨.activate, s.getD G.grain.default⟩)
    | .error _ =>
      if n < 3 then some (j.move { t with phase := .load (n + 1) })
      else some (j.move ⟨.activate, G.grain.default⟩)
  | .activate, .onActivate =>
    match G.grain.onActivate t.state with
    | .ok s => some (j.move ⟨.loop, s⟩)
    | .panicked s => some (j.move ⟨.remove, s⟩)
  | .loop, .start msg =>
    some (j.move { t with phase := .handling t.state (j.store.load gid) [] (msg.handle t.state) })
  | .handling snapshot before writes program, .call fault =>
    let writes := writes ++ G.accepted gid j.store fault program
    (G.call gid j.store fault program).map fun r =>
      { store := r.2, task := some { t with phase := .handling snapshot before writes r.1 } }
  | .handling snapshot _ _ program, .finish => (G.finishTask snapshot program).map j.move
  | .loop, .closed => some (j.move { t with phase := .deactivate })
  | .loop, .idleTimeout => some (j.move { t with phase := .deactivate })
  | .deactivate, .onDeactivate => some (j.move (G.deactivateTask t))
  | .save bytes _, .save none =>
    some { store := j.store.save gid bytes, task := some { t with phase := .remove } }
  | .save bytes n, .save (some _) =>
    if n < 3 then some (j.move { t with phase := .save bytes (n + 1) })
    else some (j.move { t with phase := .remove })
  | .remove, .remove => some { j with task := none }
  | _, _ => none

def step (gid : GrainId) (j : Transactional S) (e : TxEvent S) : Option (Transactional S) :=
  match j.task, e with
  | none, .spawn => some (j.move ⟨.load 1, G.grain.default⟩)
  | some _, .crash => some { j with task := none }
  | some t, e => G.taskStep gid j t e
  | none, _ => none

end TransactionalGrain

/-! ## All or nothing -/

namespace Transactional

/-- The handler at work, with the bytes it began with and its writes. -/
def handler (j : Transactional S) : Option (Option Bytes × List (Option Bytes) × TxProgram S) :=
  match j.task with
  | some ⟨.handling _ before writes program, _⟩ => some (before, writes, program)
  | _ => none

def written (j : Transactional S) : List (Option Bytes) :=
  j.handler.elim [] fun h => h.2.1

/-- What a handler began with and its writes, if this step is its return of `Err`. -/
def aborting (j : Transactional S) (e : TxEvent S) : Option (Option Bytes × List (Option Bytes)) :=
  match j.handler, e with
  | some (before, writes, .err _ _), .finish => some (before, writes)
  | _, _ => none

/-- The writes that outlast the step : those of a handler that ends in another way than by `Err`,
and that of a graceful deactivation. -/
def kept (j : Transactional S) (e : TxEvent S) : List (Option Bytes) :=
  match j.task, e with
  | some ⟨.handling _ _ _ (.err _ _), _⟩, .finish => []
  | some ⟨.handling _ _ writes _, _⟩, .finish | some ⟨.handling _ _ writes _, _⟩, .crash => writes
  | some ⟨.save bytes _, _⟩, .save none => [some bytes]
  | _, _ => []

end Transactional

namespace TransactionalGrain

variable (G : TransactionalGrain S)

/-- The writes accepted in the run, without those of the handlers that have returned `Err`. -/
def committed (gid : GrainId) (store : InMemoryStateStore) (es : List (TxEvent S))
    (j : Transactional S) : List (Option Bytes) :=
  outputs (G.step gid) Transactional.kept (.init store) es ++ j.written

/-- A handler that returns `Err` has had no save and no clear accepted, or the last of them loads
like what it began with. -/
def AbortsUnseen (j : Transactional S) (e : TxEvent S) : Prop :=
  ∀ a ∈ j.aborting e, ∀ w ∈ a.2.getLast?, G.loadedOf w = G.loadedOf a.1

instance AbortsUnseen.decidable [DecidableEq S] (j : Transactional S) (e : TxEvent S) :
    Decidable (G.AbortsUnseen j e) :=
  inferInstanceAs (Decidable (∀ a ∈ j.aborting e, ∀ w ∈ a.2.getLast?, _))

variable {G} {gid : GrainId} {j j' : Transactional S} {e : TxEvent S}
  {first before : Option Bytes} {ws writes : List (Option Bytes)} {program : TxProgram S}

theorem load_of_call {d : InMemoryStateStore} {fault r} (h : G.call gid d fault program = some r) :
    r.2.load gid = (G.accepted gid d fault program).getLast?.getD (d.load gid) := by
  cases program with
  | saveState s k =>
    simp only [call] at h
    unfold accepted
    split at h <;> cases h <;> simp only [*]
    · rfl
    · rfl
    · exact d.load_save gid _
  | readState k =>
    simp only [call] at h
    split at h
    · cases h; rfl
    · cases h; rfl
    · split at h <;> cases h <;> rfl
  | clearState k =>
    simp only [call] at h
    split at h <;> cases h
    · rfl
    · simp [accepted, InMemoryStateStore.delete, InMemoryStateStore.load,
        InMemoryStateStore.setEntry]
  | saveWithEtag s expected k =>
    simp only [call] at h
    unfold accepted
    split at h <;> cases h <;> simp only [*]
    · rfl
    · rfl
    · rw [d.load_saveWithEtag gid]
      split <;> rfl
  | loadEtag k =>
    simp only [call] at h
    split at h <;> cases h <;> rfl
  | _ => cases h

variable (gid j) in
/-- What a step does to the handler at work and to the bytes in the store. -/
inductive Turn (e : TxEvent S) (j' : Transactional S) : Prop
  | idle (hj : j.handler = none) (hj' : j'.handler = none)
    (hload : j'.store.load gid = (j.kept e).getLast?.getD (j.store.load gid))
  | begun (program : TxProgram S) (hj : j.handler = none)
    (hj' : j'.handler = some (j.store.load gid, [], program)) (hstore : j'.store = j.store)
    (hkept : j.kept e = [])
  | called (before : Option Bytes) (writes new : List (Option Bytes))
    (program program' : TxProgram S) (hj : j.handler = some (before, writes, program))
    (hj' : j'.handler = some (before, writes ++ new, program'))
    (hload : j'.store.load gid = new.getLast?.getD (j.store.load gid)) (hkept : j.kept e = [])
  | ended (before : Option Bytes) (writes : List (Option Bytes)) (program : TxProgram S)
    (hj : j.handler = some (before, writes, program)) (hj' : j'.handler = none)
    (hstore : j'.store = j.store) (hkept : j.kept e = writes)
  | aborted (before : Option Bytes) (writes : List (Option Bytes)) (program : TxProgram S)
    (hj : j.handler = some (before, writes, program)) (hj' : j'.handler = none)
    (hstore : j'.store = j.store) (hkept : j.kept e = [])
    (habort : j.aborting e = some (before, writes))

theorem turn_of_handling {store snapshot s}
    (h : G.step gid ⟨store, some ⟨.handling snapshot before writes program, s⟩⟩ e = some j') :
    Turn gid ⟨store, some ⟨.handling snapshot before writes program, s⟩⟩ e j' := by
  cases e with
  | crash =>
    cases h
    exact .ended before writes program rfl rfl rfl (by cases program <;> rfl)
  | call fault =>
    obtain ⟨⟨program', store'⟩, hcall, rfl⟩ := Option.map_eq_some_iff.mp h
    exact .called before writes _ program program' rfl rfl (load_of_call hcall)
      (by cases program <;> rfl)
  | finish =>
    obtain ⟨t', hfinish, rfl⟩ := Option.map_eq_some_iff.mp h
    cases program with
    | ok => cases hfinish; exact .ended before writes _ rfl rfl rfl rfl
    | err => cases hfinish; exact .aborted before writes _ rfl rfl rfl rfl rfl
    | panicked =>
      cases hfinish
      refine .ended before writes _ rfl ?_ rfl rfl
      cases G.grain.reentrant <;> rfl
    | _ => cases hfinish
  | _ => cases h

theorem turn_of_step (h : G.step gid j e = some j') : Turn gid j e j' := by
  obtain ⟨store, _ | ⟨phase, s⟩⟩ := j
  · cases e <;> cases h
    exact .idle rfl rfl rfl
  · cases phase with
    | handling snapshot before writes program => exact turn_of_handling h
    | loop =>
      cases e with
      | start msg => cases h; exact .begun _ rfl rfl rfl rfl
      | closed | idleTimeout | crash => cases h; exact .idle rfl rfl rfl
      | _ => cases h
    | deactivate =>
      cases e with
      | onDeactivate =>
        cases h
        refine .idle rfl ?_ rfl
        rw [Transactional.move, deactivateTask]
        dsimp only
        split <;> rfl
      | crash => cases h; exact .idle rfl rfl rfl
      | _ => cases h
    | save bytes n =>
      cases e with
      | save fault =>
        cases fault with
        | none => cases h; exact .idle rfl rfl (store.load_save gid bytes)
        | some error =>
          simp only [step, taskStep] at h
          split_ifs at h <;> cases h <;> exact .idle rfl rfl rfl
      | crash => cases h; exact .idle rfl rfl rfl
      | _ => cases h
    | load | activate | remove =>
      cases e <;> simp only [step, taskStep, reduceCtorEq] at h <;> (repeat' split at h) <;>
        cases h <;> exact .idle rfl rfl rfl

/-- The last of the writes is what is loaded, with those of the handler at work over it. -/
structure Durable (G : TransactionalGrain S) (gid : GrainId) (first : Option Bytes)
    (j : Transactional S) (ws : List (Option Bytes)) : Prop where
  loaded : G.loaded j.store gid = G.loadedOf ((ws ++ j.written).getLast?.getD first)
  handler : ∀ before writes program, j.handler = some (before, writes, program) →
    j.store.load gid = writes.getLast?.getD before ∧
      G.loadedOf before = G.loadedOf (ws.getLast?.getD first)

theorem getLast?_append_getD (ws ws' : List (Option Bytes)) (first) :
    (ws ++ ws').getLast?.getD first = ws'.getLast?.getD (ws.getLast?.getD first) := by
  cases h : ws'.getLast? <;> simp [List.getLast?_append, h]

theorem written_eq (h : j.handler = some (before, writes, program)) : j.written = writes := by
  rw [Transactional.written, h]
  rfl

theorem written_eq_nil (h : j.handler = none) : j.written = [] := by
  rw [Transactional.written, h]
  rfl

theorem durable_idle (hj : j.handler = none)
    (h : G.loaded j.store gid = G.loadedOf (ws.getLast?.getD first)) :
    G.Durable gid first j ws where
  loaded := by rw [h, written_eq_nil hj, List.append_nil]
  handler _ _ _ hh := by cases hj.symm.trans hh

theorem durable_handling (hj : j.handler = some (before, writes, program))
    (hload : j.store.load gid = writes.getLast?.getD before)
    (hbefore : G.loadedOf before = G.loadedOf (ws.getLast?.getD first)) :
    G.Durable gid first j ws where
  loaded := by
    rw [TransactionalGrain.loaded, hload, written_eq hj, getLast?_append_getD]
    cases writes.getLast? with
    | none => exact hbefore
    | some w => rfl
  handler _ _ _ hh := by
    cases hj.symm.trans hh
    exact ⟨hload, hbefore⟩

theorem Durable.step (h : G.Durable gid first j ws) (hun : G.AbortsUnseen j e)
    (hstep : G.step gid j e = some j') : G.Durable gid first j' (ws ++ j.kept e) := by
  have hld := h.loaded
  cases turn_of_step hstep with
  | idle hj hj' hload =>
    rw [written_eq_nil hj, List.append_nil] at hld
    refine durable_idle hj' ?_
    rw [TransactionalGrain.loaded, hload, getLast?_append_getD]
    cases (j.kept e).getLast? with
    | none => exact hld
    | some w => rfl
  | begun program hj hj' hst hkept =>
    rw [written_eq_nil hj, List.append_nil] at hld
    rw [hkept, List.append_nil]
    exact durable_handling hj' (congrArg (·.load gid) hst) hld
  | called before writes new program program' hj hj' hload hkept =>
    obtain ⟨hwrites, hbefore⟩ := h.handler _ _ _ hj
    rw [hkept, List.append_nil]
    refine durable_handling hj' ?_ hbefore
    rw [hload, hwrites, getLast?_append_getD]
  | ended before writes program hj hj' hst hkept =>
    rw [written_eq hj, ← hkept] at hld
    exact durable_idle hj' (hst ▸ hld)
  | aborted before writes program hj hj' hst hkept habort =>
    obtain ⟨hwrites, hbefore⟩ := h.handler _ _ _ hj
    rw [hkept, List.append_nil]
    refine durable_idle hj' ?_
    rw [hst, TransactionalGrain.loaded, hwrites, ← hbefore]
    cases hlast : writes.getLast? with
    | none => rfl
    | some w => exact hun _ habort w hlast

theorem durable_of_run {store es} (hrun : exec (G.step gid) (.init store) es = some j)
    (hal : Along (G.step gid) G.AbortsUnseen (.init store) es) : G.Durable gid (store.load gid) j
      (outputs (G.step gid) Transactional.kept (.init store) es) := by
  revert hal
  refine exec_induction (I := fun es j => Along (G.step gid) G.AbortsUnseen (.init store) es →
    G.Durable gid (store.load gid) j (outputs (G.step gid) Transactional.kept (.init store) es))
    (fun _ => durable_idle rfl rfl) (fun es u e v hu ih hstep hal => ?_) hrun
  obtain ⟨hal, he⟩ := (along_snoc_iff hu).mp hal
  rw [outputs_snoc hu]
  exact (ih hal).step he hstep

theorem of_aborting (h : j.aborting e = some (before, writes)) (hstep : G.step gid j e = some j') :
    (∃ program, j.handler = some (before, writes, program)) ∧ j'.handler = none ∧
      j'.store = j.store ∧ j.kept e = [] := by
  obtain ⟨store, _ | ⟨phase, s⟩⟩ := j
  · cases h
  · cases phase with
    | handling snapshot before writes program =>
      cases program <;> cases e <;> cases h
      cases hstep
      exact ⟨⟨_, rfl⟩, rfl, rfl, rfl⟩
    | _ => cases h

def account : TransactionalGrain UInt8 where
  grain := ⟨0, .ok, .ok, false⟩
  serializer := ⟨fun s => .ok [s], fun b => match b with
    | [s] => .ok s
    | _ => .error (.deserialization "length")⟩
  bincode := ⟨fun s => .ok [s], fun b => match b with
    | [s] => .ok s
    | _ => .error (.deserialization "length")⟩

def savedDeposit (n : UInt8) : TxMessage UInt8 where
  handle := fun s => .saveState (s + n) fun _ => .ok (s + n)

/-- Add `n`, save if `save` says so, and return `Err`. -/
def refused (save : Bool) (n : UInt8) : TxMessage UInt8 where
  handle := fun s =>
    if save then .saveState (s + n) fun _ => .err (s + n) (.io "limit")
    else .err (s + n) (.io "limit")

/-- A deposit is saved, a second handler fails without having saved. -/
def refusedUnsaved : List (TxEvent UInt8) :=
  [.spawn, .load none, .onActivate, .start (savedDeposit 3), .call none, .finish,
    .start (refused false 5), .finish, .crash]

end TransactionalGrain

end Orlando
