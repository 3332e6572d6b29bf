import Mathlib.Data.List.AList
import Orlando.Mailbox

/-!
# One silo : the directory and its mailbox tasks

`GrainDirectory` maps a grain id to the sender of its mailbox, here the number of a task. A step of
the silo (`Silo.step`) is one atomic operation : a test of the draining flag, a look at the size of
the map, an operation on a map entry, a message put into or taken out of a channel, or a step of one
mailbox task.

`get_or_insert` is three steps (`getOrInsert`, `checkLimit`, `enter`). It replaces an entry whose
receiver is gone; a mailbox task that ends removes whatever entry its id has. `Silo.Move` inverts
the steps (`Silo.move_of_step`), and `Silo.Step` lists the changes to the tasks and the directory
(`Silo.step_sound`).
-/

namespace Orlando

variable {S : Type}

/-- Which mailbox function serves an activation. -/
inductive MailboxKind (S : Type) where
  | plain (g : Grain S)
  | persistent (p : PersistentArgs S)

namespace MailboxKind

def start : MailboxKind S → Activation S
  | plain g => .start .activate .activating g.default
  | persistent p => p.start

def step (gid : GrainId) (a : Activation S) (m : Shared) (e : MailboxEvent S) :
    MailboxKind S → Option (Activation S × Shared)
  | plain g =>
    if g.reentrant then (g.reentrantMailboxStep a e).map fun a => (a, m)
    else (g.mailboxStep a e).map fun a => (a, m)
  | persistent p => p.step gid a m e

end MailboxKind

/-- The loop of a persistent mailbox has returned, and with it its receiver is gone. -/
def Phase.pastLoop : Phase S → Bool
  | deactivate => true
  | serialize => true
  | save _ _ => true
  | finalPublish _ => true
  | saveVersion => true
  | remove => true
  | ended => true
  | _ => false

def Phase.isEnded : Phase S → Bool
  | ended => true
  | _ => false

structure Task (S : Type) where
  gid : GrainId
  kind : MailboxKind S
  act : Activation S
  queue : List (Envelope S)
  /-- Senders of the channel outside the directory. -/
  refs : ℕ
  /-- The entry was taken out of the directory by the rebalancer or by a drain. -/
  detached : Bool
  aborted : Bool

namespace Task

/-- `Sender::is_closed` : the receiver is dropped, by `run_mailbox` when the task ends, by the
persistent loops when they return. -/
def rxDropped (t : Task S) : Bool :=
  t.aborted || match t.kind with
    | .plain _ => t.act.phase.isEnded
    | .persistent _ => t.act.phase.pastLoop

/-- Between its activation and its call to `remove`. -/
def running (t : Task S) : Bool :=
  !t.aborted && !t.act.phase.isEnded

end Task

/-- How far a call of `get_or_insert` has come. -/
inductive CallStage where
  | limit
  | entry
deriving DecidableEq

structure Call (S : Type) where
  gid : GrainId
  kind : MailboxKind S
  stage : CallStage

/-- A silo : its directory, the tasks it has spawned, oldest first, and the state they
share. -/
structure Silo (S : Type) where
  activations : AList fun _ : GrainId => ℕ
  tasks : List (Task S)
  shared : Shared
  draining : Bool
  maxActivations : ℕ
  calls : List (Call S)

inductive SiloEvent (S : Type) where
  | getOrInsert (gid : GrainId) (kind : MailboxKind S)
  | checkLimit (k : ℕ)
  | enter (k : ℕ)
  | send (i : ℕ) (env : Envelope S)
  | dropRef (i : ℕ)
  | recv (i : ℕ)
  | mailbox (i : ℕ) (e : MailboxEvent S)
  | detach (gid : GrainId)
  | abort (i : ℕ)
  | startDrain
  | setMaxActivations (limit : ℕ)
  | restart

namespace Silo

def init (m : Shared) : Silo S where
  activations := ∅
  tasks := []
  shared := m
  draining := false
  maxActivations := 0
  calls := []

variable (s : Silo S)

/-- The task behind the entry of `gid`, if its receiver is still there. -/
def openTask (gid : GrainId) : Option (ℕ × Task S) :=
  match s.activations.lookup gid with
  | none => none
  | some i =>
    match s.tasks[i]? with
    | none => none
    | some t => if t.rxDropped then none else some (i, t)

/-- The caller gets a clone of the sender of the open task of `gid`, or one of a channel
that is closed. -/
def existing (gid : GrainId) : Silo S :=
  match s.openTask gid with
  | some (i, t) => { s with tasks := s.tasks.set i { t with refs := t.refs + 1 } }
  | none => s

/-- `create`, and its entry in the map. The caller gets a sender. -/
def spawn (gid : GrainId) (kind : MailboxKind S) : Silo S :=
  { s with
    activations := s.activations.insert gid s.tasks.length
    tasks := s.tasks ++ [{ gid, kind, act := kind.start, queue := [], refs := 1,
                           detached := false, aborted := false }] }

/-- Whether the channel and the directory let task `i` take the step : an idle timeout
finds no message, and the channel is closed once it is empty and no sender is left. -/
def enabled (i : ℕ) (t : Task S) : MailboxEvent S → Bool
  | .recv _ => false
  | .idleTimeout => t.queue.isEmpty
  | .closed => t.queue.isEmpty && t.refs == 0 && s.activations.lookup t.gid != some i
  | _ => true

/-- What `remove` does to the map : the entry of the id goes, whose ever it is. -/
def afterMailbox (gid : GrainId) : MailboxEvent S → AList fun _ : GrainId => ℕ
  | .remove => s.activations.erase gid
  | _ => s.activations

def mailboxStep (i : ℕ) (t : Task S) (queue : List (Envelope S)) (e : MailboxEvent S) :
    Option (Silo S) :=
  if t.aborted then none
  else
    (t.kind.step t.gid t.act s.shared e).map fun r =>
      { s with
        activations := s.afterMailbox t.gid e
        tasks := s.tasks.set i { t with act := r.1, queue := queue }
        shared := r.2 }

def step : SiloEvent S → Option (Silo S)
  | .getOrInsert gid kind =>
    if s.draining then some (s.existing gid)
    else some { s with calls := s.calls ++ [⟨gid, kind, .limit⟩] }
  | .checkLimit k =>
    match s.calls[k]? with
    | some ⟨gid, kind, .limit⟩ =>
      if 0 < s.maxActivations ∧ s.maxActivations ≤ s.activations.keys.length then
        some { s.existing gid with calls := s.calls.eraseIdx k }
      else some { s with calls := s.calls.set k ⟨gid, kind, .entry⟩ }
    | _ => none
  | .enter k =>
    match s.calls[k]? with
    | some ⟨gid, kind, .entry⟩ =>
      match s.openTask gid with
      | some _ => some { s.existing gid with calls := s.calls.eraseIdx k }
      | none => some { s.spawn gid kind with calls := s.calls.eraseIdx k }
    | _ => none
  | .send i env =>
    match s.tasks[i]? with
    | some t =>
      if t.rxDropped ∨ t.refs = 0 then none
      else some { s with tasks := s.tasks.set i { t with queue := t.queue ++ [env] } }
    | none => none
  | .dropRef i =>
    match s.tasks[i]? with
    | some t =>
      if t.refs = 0 then none
      else some { s with tasks := s.tasks.set i { t with refs := t.refs - 1 } }
    | none => none
  | .recv i =>
    match s.tasks[i]? with
    | some t =>
      match t.queue with
      | env :: queue => s.mailboxStep i t queue (.recv env)
      | [] => none
    | none => none
  | .mailbox i e =>
    match s.tasks[i]? with
    | some t => if s.enabled i t e then s.mailboxStep i t t.queue e else none
    | none => none
  | .detach gid =>
    match s.activations.lookup gid with
    | some i =>
      match s.tasks[i]? with
      | some t =>
        some { s with
          activations := s.activations.erase gid
          tasks := s.tasks.set i { t with detached := true } }
      | none => none
    | none => none
  | .abort i =>
    match s.tasks[i]? with
    | some t =>
      if t.detached then some { s with tasks := s.tasks.set i { t with aborted := true } }
      else none
    | none => none
  | .startDrain => some { s with draining := true }
  | .setMaxActivations limit => some { s with maxActivations := limit }
  | .restart =>
    some
      { init { s.shared with
          sinks := fun gid => { s.shared.sinks gid with nextSequence := 0 } } with
        tasks := s.tasks.map fun t => { t with aborted := true } }

/-- The changes a step can make to the directory, the tasks and the shared state. -/
inductive Step (s s' : Silo S) : SiloEvent S → Prop
  | idle {e : SiloEvent S} (ha : s'.activations = s.activations) (ht : s'.tasks = s.tasks)
    (hm : s'.shared = s.shared) : Step s s' e
  /-- A sender or a message more or less for task `i`. -/
  | channel {e i t} (hi : s.tasks[i]? = some t) (queue : List (Envelope S)) (refs : ℕ)
    (ha : s'.activations = s.activations)
    (ht : s'.tasks = s.tasks.set i { t with queue := queue, refs := refs })
    (hm : s'.shared = s.shared) : Step s s' e
  | mailbox {e : SiloEvent S} {i : ℕ} {t : Task S} {ev : MailboxEvent S}
    (he : e = .recv i ∧ (∃ env, ev = .recv env) ∨ e = .mailbox i ev)
    (hi : s.tasks[i]? = some t) (hab : t.aborted = false) {a : Activation S} {m : Shared}
    (hstep : t.kind.step t.gid t.act s.shared ev = some (a, m)) (queue : List (Envelope S))
    (ha : s'.activations = s.afterMailbox t.gid ev)
    (ht : s'.tasks = s.tasks.set i { t with act := a, queue := queue }) (hm : s'.shared = m) :
    Step s s' e
  /-- A call creates an activation : there is no entry, or one whose receiver is gone. -/
  | spawn {k : ℕ} {gid : GrainId} {kind : MailboxKind S}
    (hk : s.calls[k]? = some ⟨gid, kind, .entry⟩) (ho : s.openTask gid = none)
    (ha : s'.activations = s.activations.insert gid s.tasks.length)
    (ht : s'.tasks = s.tasks ++ [{ gid, kind, act := kind.start, queue := [], refs := 1,
                                   detached := false, aborted := false }])
    (hm : s'.shared = s.shared) : Step s s' (.enter k)
  /-- The rebalancer or a drain takes out the entry of `gid`. -/
  | detach {gid i t} (hl : s.activations.lookup gid = some i) (hi : s.tasks[i]? = some t)
    (ha : s'.activations = s.activations.erase gid)
    (ht : s'.tasks = s.tasks.set i { t with detached := true }) (hm : s'.shared = s.shared) :
    Step s s' (.detach gid)
  | abort {i : ℕ} {t : Task S} (hi : s.tasks[i]? = some t) (hd : t.detached = true)
    (ha : s'.activations = s.activations)
    (ht : s'.tasks = s.tasks.set i { t with aborted := true }) (hm : s'.shared = s.shared) :
    Step s s' (.abort i)
  /-- The process dies and starts again. -/
  | restart (ha : s'.activations = ∅)
    (ht : s'.tasks = s.tasks.map fun t => { t with aborted := true })
    (hm : s'.shared.store = s.shared.store)
    (hsinks : ∀ gid, (s'.shared.sinks gid).entries = (s.shared.sinks gid).entries) :
    Step s s' .restart

variable {s} {s' : Silo S} {e : SiloEvent S} {gid : GrainId} {t : Task S}

theorem openTask_eq_some {i} :
    s.openTask gid = some (i, t) ↔
      s.activations.lookup gid = some i ∧ s.tasks[i]? = some t ∧ t.rxDropped = false := by
  refine ⟨?_, ?_⟩
  · intro h
    unfold openTask at h
    split at h
    · cases h
    · rename_i j hl
      split at h
      · cases h
      · rename_i u hj
        split at h
        · cases h
        · rename_i hu
          cases h
          exact ⟨hl, hj, by simpa using hu⟩
  · rintro ⟨hl, hi, hr⟩
    simp [openTask, hl, hi, hr]

theorem step_existing (calls) : Step s { s.existing gid with calls := calls } e := by
  unfold existing
  cases ho : s.openTask gid with
  | none => exact .idle rfl rfl rfl
  | some r =>
    obtain ⟨-, hi, -⟩ := openTask_eq_some.mp ho
    exact .channel hi r.2.queue (r.2.refs + 1) rfl rfl rfl

theorem mailboxStep_eq_some {i queue ev} (h : s.mailboxStep i t queue ev = some s') :
    t.aborted = false ∧ ∃ a m, t.kind.step t.gid t.act s.shared ev = some (a, m) ∧ s' = { s with
        activations := s.afterMailbox t.gid ev
        tasks := s.tasks.set i { t with act := a, queue := queue }
        shared := m } := by
  unfold mailboxStep at h
  split at h
  · cases h
  · rename_i hab
    obtain ⟨⟨a, m⟩, hstep, rfl⟩ := Option.map_eq_some_iff.mp h
    exact ⟨by simpa using hab, a, m, hstep, rfl⟩

variable (s) in
/-- The steps of a silo, each with what lets it happen and the state it leads to. -/
inductive Move : SiloEvent S → Silo S → Prop
  | draining {gid kind} (hd : s.draining = true) : Move (.getOrInsert gid kind) (s.existing gid)
  | called {gid kind} (hd : s.draining = false) :
    Move (.getOrInsert gid kind) { s with calls := s.calls ++ [⟨gid, kind, .limit⟩] }
  | full {k gid kind} (hk : s.calls[k]? = some ⟨gid, kind, .limit⟩) :
    Move (.checkLimit k) { s.existing gid with calls := s.calls.eraseIdx k }
  | admitted {k gid kind} (hk : s.calls[k]? = some ⟨gid, kind, .limit⟩) :
    Move (.checkLimit k) { s with calls := s.calls.set k ⟨gid, kind, .entry⟩ }
  | found {k gid kind r} (hk : s.calls[k]? = some ⟨gid, kind, .entry⟩)
    (ho : s.openTask gid = some r) :
    Move (.enter k) { s.existing gid with calls := s.calls.eraseIdx k }
  | spawned {k gid kind} (hk : s.calls[k]? = some ⟨gid, kind, .entry⟩)
    (ho : s.openTask gid = none) :
    Move (.enter k) { s.spawn gid kind with calls := s.calls.eraseIdx k }
  | send {i t env} (hi : s.tasks[i]? = some t) (hrx : t.rxDropped = false) (hr : t.refs ≠ 0) :
    Move (.send i env) { s with tasks := s.tasks.set i { t with queue := t.queue ++ [env] } }
  | dropRef {i t} (hi : s.tasks[i]? = some t) (hr : t.refs ≠ 0) :
    Move (.dropRef i) { s with tasks := s.tasks.set i { t with refs := t.refs - 1 } }
  | recv {i t env queue a m} (hi : s.tasks[i]? = some t) (hq : t.queue = env :: queue)
    (hab : t.aborted = false) (hstep : t.kind.step t.gid t.act s.shared (.recv env) = some (a, m)) :
    Move (.recv i) { s with
      activations := s.afterMailbox t.gid (.recv env)
      tasks := s.tasks.set i { t with act := a, queue := queue }
      shared := m }
  | mailbox {i t ev a m} (hi : s.tasks[i]? = some t) (hen : s.enabled i t ev = true)
    (hab : t.aborted = false) (hstep : t.kind.step t.gid t.act s.shared ev = some (a, m)) :
    Move (.mailbox i ev) { s with
      activations := s.afterMailbox t.gid ev
      tasks := s.tasks.set i { t with act := a }
      shared := m }
  | detach {gid i t} (hl : s.activations.lookup gid = some i) (hi : s.tasks[i]? = some t) :
    Move (.detach gid) { s with
      activations := s.activations.erase gid
      tasks := s.tasks.set i { t with detached := true } }
  | abort {i t} (hi : s.tasks[i]? = some t) (hd : t.detached = true) :
    Move (.abort i) { s with tasks := s.tasks.set i { t with aborted := true } }
  | startDrain : Move .startDrain { s with draining := true }
  | setMaxActivations (limit : ℕ) :
    Move (.setMaxActivations limit) { s with maxActivations := limit }
  | restart : Move .restart { init { s.shared with
      sinks := fun gid => { s.shared.sinks gid with nextSequence := 0 } } with
    tasks := s.tasks.map fun t => { t with aborted := true } }

theorem move_of_step (h : s.step e = some s') : Move s e s' := by
  revert h
  fun_cases step s e <;> intro h <;> try cases h
  next hd => exact .draining hd
  next hd => exact .called (by simpa using hd)
  next hk _ => exact .full hk
  next hk _ => exact .admitted hk
  next hk _ ho => exact .found hk ho
  next hk ho => exact .spawned hk ho
  next hi hopen =>
    obtain ⟨hrx, hr⟩ := not_or.mp hopen
    exact .send hi (by simpa using hrx) hr
  next hi hr => exact .dropRef hi hr
  next hi _ _ hq =>
    obtain ⟨hab, a, m, hs, rfl⟩ := mailboxStep_eq_some h
    exact .recv hi hq hab hs
  next hi hen =>
    obtain ⟨hab, a, m, hs, rfl⟩ := mailboxStep_eq_some h
    exact .mailbox hi hen hab hs
  next hl _ hi => exact .detach hl hi
  next hi hd => exact .abort hi hd
  next => exact .startDrain
  next limit => exact .setMaxActivations limit
  next => exact .restart

theorem step_sound (h : s.step e = some s') : Step s s' e := by
  cases move_of_step h with
  | draining => exact @step_existing _ s _ _ (s.existing _).calls
  | full | found => exact step_existing _
  | spawned hk ho => exact .spawn hk ho rfl rfl rfl
  | @send _ t env hi => exact .channel hi (t.queue ++ [env]) t.refs rfl rfl rfl
  | @dropRef _ t hi => exact .channel hi t.queue (t.refs - 1) rfl rfl rfl
  | @recv _ _ env queue _ _ hi hq hab hs =>
    exact .mailbox (Or.inl ⟨rfl, env, rfl⟩) hi hab hs queue rfl rfl rfl
  | @mailbox _ t _ _ _ hi hen hab hs =>
    exact .mailbox (Or.inr rfl) hi hab hs t.queue rfl rfl rfl
  | detach hl hi => exact .detach hl hi rfl rfl rfl
  | abort hi hd => exact .abort hi hd rfl rfl rfl
  | restart => exact .restart rfl rfl rfl fun _ => rfl
  | _ => exact .idle rfl rfl rfl

end Silo

end Orlando
