import Orlando.Cluster
import Orlando.SiloTasks

/-!
# Reminders

The poll loop of `ReminderService` loads the reminders that are due. For each it looks up the
dispatcher of its grain, spawns a task that is to put a `ReminderTick` into the mailbox (`Tick`),
and sets the reminder to its next time, whatever has become of the tick.

Dispatchers are registered under `std::any::type_name`, which is another string for a grain with a
name of its own. A tick that finds its mailbox closed, or is refused an activation, is dropped
(`reminder_skipped`).
-/

namespace Orlando

open List Silo Option

variable {S : Type}

/-! ## The store of reminders -/

structure ReminderRegistration where
  grainId : GrainId
  name : String
  period : ℕ
  dueAt : ℕ
deriving DecidableEq

abbrev InMemoryReminderStore := AList fun _ : GrainId × String => ReminderRegistration

namespace InMemoryReminderStore

def save (r : InMemoryReminderStore) (reg : ReminderRegistration) : InMemoryReminderStore :=
  r.insert (reg.grainId, reg.name) reg

def delete (r : InMemoryReminderStore) (gid : GrainId) (name : String) : InMemoryReminderStore :=
  r.erase (gid, name)

def loadDue (r : InMemoryReminderStore) (now : ℕ) : List ReminderRegistration :=
  (r.entries.map Sigma.snd).filter (·.dueAt ≤ now)

def updateDueAt (r : InMemoryReminderStore) (gid : GrainId) (name : String) (dueAt : ℕ) :
    InMemoryReminderStore :=
  match r.lookup (gid, name) with
  | some entry => r.insert (gid, name) { entry with dueAt := dueAt }
  | none => r

end InMemoryReminderStore

/-! ## Ticks -/

/-- The function that `register_grain_type` registers for a grain type : the mailbox it starts
where there is none, and the message for a reminder. -/
structure ReminderDispatcher (S : Type) where
  grain : Grain S
  envelope : String → Envelope S

/-- How far a spawned dispatch has come, through the three steps of `get_or_insert` to the send. -/
inductive TickStage where
  | spawned
  | limit
  | entry
  | sending (task : Option ℕ)
  | enqueued (task : ℕ)
  | lost
deriving DecidableEq

structure Tick (S : Type) where
  grainId : GrainId
  name : String
  dispatcher : ReminderDispatcher S
  stage : TickStage

namespace Tick

def task (t : Tick S) : Option ℕ :=
  match t.stage with
  | .sending i => i
  | .enqueued i => some i
  | _ => none

/-- It has called `get_or_insert` and has the sender of the open mailbox of its grain, if there is
one. -/
def existing (t : Tick S) (silo : Silo S) : Tick S × Silo S :=
  ({ t with stage := .sending ((silo.openTask t.grainId).map Prod.fst) }, silo.existing t.grainId)

def step (t : Tick S) (silo : Silo S) : Option (Tick S × Silo S) :=
  match t.stage with
  | .spawned =>
    if silo.draining then some (t.existing silo)
    else some ({ t with stage := .limit }, silo)
  | .limit =>
    if 0 < silo.maxActivations ∧ silo.maxActivations ≤ silo.activations.keys.length then
      some (t.existing silo)
    else some ({ t with stage := .entry }, silo)
  | .entry =>
    match silo.openTask t.grainId with
    | some _ => some (t.existing silo)
    | none =>
      some ({ t with stage := .sending (some silo.tasks.length) },
        silo.spawn t.grainId (.plain t.dispatcher.grain))
  | .sending none => some ({ t with stage := .lost }, silo)
  | .sending (some i) =>
    match silo.tasks[i]? with
    | some task =>
      if task.rxDropped then
        some ({ t with stage := .lost },
          { silo with tasks := silo.tasks.set i { task with refs := task.refs - 1 } })
      else
        some ({ t with stage := .enqueued i },
          { silo with tasks := silo.tasks.set i { task with
              queue := task.queue ++ [t.dispatcher.envelope t.name], refs := task.refs - 1 } })
    | none => none
  | .enqueued _ => none
  | .lost => none

/-- Its next step finds the mailbox closed. -/
def Closed (t : Tick S) (silo : Silo S) : Prop :=
  t.stage = .sending none ∨
    ∃ i task, t.stage = .sending (some i) ∧ silo.tasks[i]? = some task ∧ task.rxDropped = true

def Addressed (t : Tick S) (silo : Silo S) : Prop :=
  ∀ i, t.task = some i → silo.gids[i]? = some t.grainId

variable {t t' : Tick S} {silo silo' : Silo S} {stage : TickStage}

theorem Addressed.mono (h : t.Addressed silo) (hk : silo.KeepsGrains silo') :
    t.Addressed silo' := by
  intro i hi
  obtain ⟨more, hmore⟩ := hk.gids
  rw [← hmore, getElem?_append_left (List.getElem?_eq_some_iff.mp (h i hi)).1]
  exact h i hi

structure Moved (t t' : Tick S) (silo silo' : Silo S) : Prop where
  grainId : t'.grainId = t.grainId
  name : t'.name = t.name
  keeps : silo.KeepsGrains silo'
  addressed : t.Addressed silo → t'.Addressed silo'
  lost : t'.stage = .lost ↔ t.Closed silo

theorem not_closed (h : ∀ i, t.stage ≠ .sending i) : ¬t.Closed silo := by
  rintro (hst | ⟨i, -, hst, -⟩)
  · exact h none hst
  · exact h (some i) hst

theorem keepsGrains_existing (t : Tick S) (silo : Silo S) :
    silo.KeepsGrains (t.existing silo).2 :=
  (step_existing (e := .startDrain) (silo.existing t.grainId).calls).keepsGrains

theorem moved_existing (hn : silo.Named) (h : ∀ i, t.stage ≠ .sending i) :
    Moved t (t.existing silo).1 silo (t.existing silo).2 where
  grainId := rfl
  name := rfl
  keeps := keepsGrains_existing t silo
  addressed _ := by
    have haddr : (t.existing silo).1.Addressed silo := by
      intro i hi
      obtain ⟨⟨j, task⟩, ho, rfl⟩ := map_eq_some_iff.mp hi
      exact hn _ _ (openTask_eq_some.mp ho).1
    exact haddr.mono (keepsGrains_existing t silo)
  lost := iff_of_false (by simp [Tick.existing]) (not_closed h)

theorem moved_waiting (h : ∀ i, t.stage ≠ .sending i)
    (htask : ({ t with stage := stage } : Tick S).task = none) (hstage : stage ≠ .lost) :
    Moved t { t with stage := stage } silo silo where
  grainId := rfl
  name := rfl
  keeps := keepsGrains_of_gids_eq rfl fun _ _ hl => hl
  addressed _ i hi := by
    rw [htask] at hi
    cases hi
  lost := iff_of_false hstage (not_closed h)

theorem moved_sending {i task task'} (hst : t.stage = .sending (some i))
    (hi : silo.tasks[i]? = some task) (hgid : task'.gid = task.gid)
    (hstage : ∀ j, ({ t with stage := stage } : Tick S).task = some j → j = i)
    (hlost : stage = .lost ↔ task.rxDropped = true) :
    Moved t { t with stage := stage } silo { silo with tasks := silo.tasks.set i task' } := by
  have hkeeps : silo.KeepsGrains { silo with tasks := silo.tasks.set i task' } :=
    keepsGrains_of_gids_eq (map_set_of_eq hi hgid) fun _ _ hl => hl
  refine ⟨rfl, rfl, hkeeps, fun haddr => ?_, hlost.trans ?_⟩
  · have haddr' : ({ t with stage := stage } : Tick S).Addressed silo := fun j hj =>
      haddr j (by rw [Tick.task, hst, hstage j hj])
    exact haddr'.mono hkeeps
  · refine ⟨fun hrx => .inr ⟨i, task, hst, hi, hrx⟩, ?_⟩
    rintro (hst' | ⟨j, task', hst', hj, hrx⟩)
    · simp [hst] at hst'
    · obtain rfl : i = j := by simpa [hst] using hst'
      cases hi.symm.trans hj
      exact hrx

theorem moved_of_step (hn : silo.Named) (h : t.step silo = some (t', silo')) :
    Moved t t' silo silo' := by
  revert h
  fun_cases Tick.step t silo <;> intro h <;> cases h
  next hst _ => exact moved_existing hn (by simp [hst])
  next hst _ => exact moved_waiting (by simp [hst]) rfl (by simp)
  next hst _ => exact moved_existing hn (by simp [hst])
  next hst _ => exact moved_waiting (by simp [hst]) rfl (by simp)
  next hst _ _ => exact moved_existing hn (by simp [hst])
  next hst _ =>
    refine ⟨rfl, rfl, keepsGrains_of_spawn rfl rfl rfl, fun _ i hi => ?_,
      iff_of_false (by simp) (not_closed (by simp [hst]))⟩
    cases hi
    simp [gids, spawn]
  next hst =>
    refine ⟨rfl, rfl, keepsGrains_of_gids_eq rfl fun _ _ hl => hl, fun _ i hi => ?_,
      iff_of_true rfl (.inl hst)⟩
    cases hi
  next hst _ hi hrx =>
    refine moved_sending hst hi ?_ (fun j hj => ?_) ?_
    · rfl
    · cases hj
    · simp [hrx]
  next hst _ hi hrx =>
    refine moved_sending hst hi ?_ (fun j hj => ?_) ?_
    · rfl
    · exact (some.inj hj).symm
    · simp [hrx]

end Tick

/-! ## The poll loop -/

/-- Where the poll loop is : between two polls, at the next of the due reminders, or at the update
of one, whose dispatch is a tick if a dispatcher was found. -/
inductive PollPhase where
  | idle
  | dispatching (now : ℕ) (due : List ReminderRegistration)
  | updating (now : ℕ) (reg : ReminderRegistration) (tick : Option ℕ)
    (due : List ReminderRegistration)

structure Advance where
  grainId : GrainId
  name : String
  tick : Option ℕ
deriving DecidableEq

structure ReminderRun (S : Type) where
  silo : Silo S
  dispatchers : AList fun _ : String => ReminderDispatcher S
  store : InMemoryReminderStore
  poll : PollPhase
  ticks : List (Tick S)
  /-- What the poll loop has set to its next time, oldest first. -/
  advances : List Advance

inductive ReminderEvent (S : Type) where
  | registerGrainType (G : GrainType S) (envelope : String → Envelope S)
  | registerReminder (gid : GrainId) (name : String) (period now : ℕ)
  | unregisterReminder (gid : GrainId) (name : String)
  /-- The reminders that are due are loaded, in whatever order the store has them. -/
  | poll (now : ℕ) (due : List ReminderRegistration)
  | dispatch
  /-- The store may fail. -/
  | update (ok : Bool)
  | tick (k : ℕ)
  | silo (e : SiloEvent S)

namespace ReminderRun

def init (m : Shared) : ReminderRun S where
  silo := .init m
  dispatchers := ∅
  store := ∅
  poll := .idle
  ticks := []
  advances := []

variable (s : ReminderRun S)

/-- A step of the silo that the dispatches leave to others : nobody else drops their senders, and
the process does not end. -/
def foreign : SiloEvent S → Bool
  | .dropRef i => (s.silo.tasks[i]?).all fun task =>
      s.ticks.countP (·.stage = .sending (some i)) < task.refs
  | .restart => false
  | _ => true

def step : ReminderEvent S → Option (ReminderRun S)
  | .registerGrainType G envelope =>
    some { s with dispatchers := s.dispatchers.insert G.typeName ⟨G.grain, envelope⟩ }
  | .registerReminder gid name period now =>
    some { s with store := s.store.save ⟨gid, name, period, now + period⟩ }
  | .unregisterReminder gid name => some { s with store := s.store.delete gid name }
  | .poll now due =>
    match s.poll with
    | .idle =>
      if due.Perm (s.store.loadDue now) then some { s with poll := .dispatching now due } else none
    | _ => none
  | .dispatch =>
    match s.poll with
    | .dispatching _ [] => some { s with poll := .idle }
    | .dispatching now (reg :: due) =>
      match s.dispatchers.lookup reg.grainId.typeName with
      | some dispatcher =>
        some { s with
          ticks := s.ticks ++ [⟨reg.grainId, reg.name, dispatcher, .spawned⟩]
          poll := .updating now reg (some s.ticks.length) due }
      | none => some { s with poll := .updating now reg none due }
    | _ => none
  | .update ok =>
    match s.poll with
    | .updating now reg tick due =>
      if ok ∧ (s.store.lookup (reg.grainId, reg.name)).isSome then
        some { s with
          store := s.store.updateDueAt reg.grainId reg.name (now + reg.period)
          poll := .dispatching now due
          advances := s.advances ++ [⟨reg.grainId, reg.name, tick⟩] }
      else some { s with poll := .dispatching now due }
    | _ => none
  | .tick k =>
    match s.ticks[k]? with
    | some t => (t.step s.silo).map fun r => { s with ticks := s.ticks.set k r.1, silo := r.2 }
    | none => none
  | .silo e =>
    if s.foreign e then (s.silo.step e).map fun silo => { s with silo := silo } else none

inductive Move : ReminderEvent S → ReminderRun S → Prop
  | registerGrainType (G : GrainType S) (envelope : String → Envelope S) :
    Move (.registerGrainType G envelope)
      { s with dispatchers := s.dispatchers.insert G.typeName ⟨G.grain, envelope⟩ }
  | registerReminder (gid : GrainId) (name : String) (period now : ℕ) :
    Move (.registerReminder gid name period now)
      { s with store := s.store.save ⟨gid, name, period, now + period⟩ }
  | unregisterReminder (gid : GrainId) (name : String) :
    Move (.unregisterReminder gid name) { s with store := s.store.delete gid name }
  | poll {now due} (hp : s.poll = .idle) (hdue : due.Perm (s.store.loadDue now)) :
    Move (.poll now due) { s with poll := .dispatching now due }
  | polled {now} (hp : s.poll = .dispatching now []) : Move .dispatch { s with poll := .idle }
  | dispatched {now reg due dispatcher} (hp : s.poll = .dispatching now (reg :: due))
    (hd : s.dispatchers.lookup reg.grainId.typeName = some dispatcher) :
    Move .dispatch { s with
      ticks := s.ticks ++ [⟨reg.grainId, reg.name, dispatcher, .spawned⟩]
      poll := .updating now reg (some s.ticks.length) due }
  | undispatched {now reg due} (hp : s.poll = .dispatching now (reg :: due))
    (hd : s.dispatchers.lookup reg.grainId.typeName = none) :
    Move .dispatch { s with poll := .updating now reg none due }
  | updated {now reg tick due} (hp : s.poll = .updating now reg tick due)
    (hl : (s.store.lookup (reg.grainId, reg.name)).isSome = true) :
    Move (.update true) { s with
      store := s.store.updateDueAt reg.grainId reg.name (now + reg.period)
      poll := .dispatching now due
      advances := s.advances ++ [⟨reg.grainId, reg.name, tick⟩] }
  | notUpdated {ok now reg tick due} (hp : s.poll = .updating now reg tick due)
    (hl : ¬(ok = true ∧ (s.store.lookup (reg.grainId, reg.name)).isSome = true)) :
    Move (.update ok) { s with poll := .dispatching now due }
  | tick {k t t' silo} (hk : s.ticks[k]? = some t) (ht : t.step s.silo = some (t', silo)) :
    Move (.tick k) { s with ticks := s.ticks.set k t', silo := silo }
  | silo {e silo} (hstep : s.silo.step e = some silo) : Move (.silo e) { s with silo := silo }

variable {s} {s' : ReminderRun S} {e : ReminderEvent S} {gid : GrainId} {name : String} {k : ℕ}

theorem move_of_step (h : s.step e = some s') : Move s e s' := by
  revert h
  fun_cases step s e <;> intro h <;> try cases h
  next G envelope => exact .registerGrainType G envelope
  next gid name period now => exact .registerReminder gid name period now
  next gid name => exact .unregisterReminder gid name
  next hp hdue => exact .poll hp hdue
  next hp => exact .polled hp
  next hp _ hd => exact .dispatched hp hd
  next hp hd => exact .undispatched hp hd
  next hp hl =>
    obtain ⟨rfl, hl⟩ := hl
    exact .updated hp hl
  next hp hl => exact .notUpdated hp hl
  next hk =>
    obtain ⟨⟨t', silo⟩, ht, rfl⟩ := map_eq_some_iff.mp h
    exact .tick hk ht
  next =>
    obtain ⟨silo, hstep, rfl⟩ := map_eq_some_iff.mp h
    exact .silo hstep

/-! ## No reminder is skipped -/

def TickOf (s : ReminderRun S) (gid : GrainId) (name : String) (k : ℕ) : Prop :=
  ∃ t, s.ticks[k]? = some t ∧ t.grainId = gid ∧ t.name = name

def Kept (s : ReminderRun S) (tick : Option ℕ) : Prop :=
  ∃ k t, tick = some k ∧ s.ticks[k]? = some t ∧ t.stage ≠ .lost

/-- Every reminder that was set to its next time has a tick of its own for that, on its way or in
the mailbox of its grain. -/
structure NoneSkipped (s : ReminderRun S) : Prop where
  ticked : ∀ a ∈ s.advances, ∃ k t, a.tick = some k ∧ s.ticks[k]? = some t ∧
    t.grainId = a.grainId ∧ t.name = a.name ∧ t.stage ≠ .lost ∧
    ∀ i, t.stage = .enqueued i → s.silo.gids[i]? = some a.grainId
  own : s.advances.Pairwise fun a b => ∀ i ∈ a.tick, ∀ j ∈ b.tick, i < j

/-- An update finds a tick that is not lost, and no tick is lost once its reminder is set to its
next time. -/
def Delivers (s : ReminderRun S) : ReminderEvent S → Prop
  | .update true => ∀ now reg tick due, s.poll = .updating now reg tick due →
      (s.store.lookup (reg.grainId, reg.name)).isSome → s.Kept tick
  | .tick k => ∀ t, s.ticks[k]? = some t → t.Closed s.silo → ∀ a ∈ s.advances, a.tick ≠ some k
  | _ => True

/-- What holds of every run, whether reminders are skipped or not. -/
structure Inv (s : ReminderRun S) : Prop where
  named : s.silo.Named
  addressed : ∀ t ∈ s.ticks, t.Addressed s.silo
  current : ∀ now reg k due, s.poll = .updating now reg (some k) due →
    s.TickOf reg.grainId reg.name k ∧ ∀ a ∈ s.advances, ∀ j ∈ a.tick, j < k
  advanced : ∀ a ∈ s.advances, ∀ k ∈ a.tick, s.TickOf a.grainId a.name k
  own : s.advances.Pairwise fun a b => ∀ i ∈ a.tick, ∀ j ∈ b.tick, i < j

theorem inv_init (m) : (init m : ReminderRun S).Inv where
  named _ _ hl := by cases hl
  addressed _ ht := by cases ht
  current _ _ _ _ hp := by cases hp
  advanced _ ha := by cases ha
  own := .nil

theorem noneSkipped_iff (h : s.Inv) : s.NoneSkipped ↔ ∀ a ∈ s.advances, s.Kept a.tick := by
  constructor
  · intro hn a ha
    obtain ⟨k, t, htick, hk, -, -, hst, -⟩ := hn.ticked a ha
    exact ⟨k, t, htick, hk, hst⟩
  · refine fun hkept => ⟨fun a ha => ?_, h.own⟩
    obtain ⟨k, t, htick, hk, hst⟩ := hkept a ha
    obtain ⟨t', hk', hgid, hname⟩ := h.advanced a ha k htick
    cases hk.symm.trans hk'
    refine ⟨k, t, htick, hk, hgid, hname, hst, fun i hi => ?_⟩
    rw [← hgid]
    exact h.addressed t (mem_of_getElem? hk) i (by rw [Tick.task, hi])

theorem TickOf.snoc (h : s.TickOf gid name k) {t} (ht : s'.ticks = s.ticks ++ [t]) :
    s'.TickOf gid name k := by
  obtain ⟨u, hu, hgid, hname⟩ := h
  exact ⟨u, ht ▸ getElem?_snoc_of_some hu, hgid, hname⟩

theorem TickOf.lt (h : s.TickOf gid name k) : k < s.ticks.length := by
  obtain ⟨u, hu, -⟩ := h
  exact lt_of_getElem? hu

theorem TickOf.set {j k} (h : s.TickOf gid name j) {t t'} (hk : s.ticks[k]? = some t)
    (hgid : t'.grainId = t.grainId) (hname : t'.name = t.name) (ht : s'.ticks = s.ticks.set k t') :
    s'.TickOf gid name j := by
  obtain ⟨u, hu, rfl, rfl⟩ := h
  by_cases hjk : j = k
  · subst hjk
    cases hk.symm.trans hu
    exact ⟨t', by rw [ht, getElem?_set_of_some hk, if_pos rfl], hgid, hname⟩
  · exact ⟨u, by rw [ht, getElem?_set_of_some hk, if_neg hjk]; exact hu, rfl, rfl⟩

theorem Inv.step (h : s.Inv) (hmove : Move s e s') : s'.Inv := by
  cases hmove with
  | poll | polled | undispatched | notUpdated =>
    exact ⟨h.named, h.addressed, fun _ _ _ _ hp' => (nomatch hp'), h.advanced, h.own⟩
  | dispatched hp hd =>
    refine ⟨h.named, ?_, ?_, fun a ha k hk => (h.advanced a ha k hk).snoc rfl, h.own⟩
    · intro t ht
      rcases mem_append.mp ht with ht | ht
      · exact h.addressed t ht
      · obtain rfl := mem_singleton.mp ht
        exact fun i hi => (nomatch hi)
    · intro now reg k due hp'
      obtain ⟨rfl, rfl, htick, rfl⟩ := PollPhase.updating.inj hp'
      cases htick
      refine ⟨⟨_, getElem?_concat_length, rfl, rfl⟩, fun a ha j hj => ?_⟩
      exact (h.advanced a ha j hj).lt
  | @updated now reg tick due hp hl =>
    refine ⟨h.named, h.addressed, fun _ _ _ _ hp' => (nomatch hp'), ?_, ?_⟩
    · intro a ha k hk
      rcases mem_append.mp ha with ha | ha
      · exact h.advanced a ha k hk
      · obtain rfl := mem_singleton.mp ha
        obtain rfl : tick = some k := hk
        exact (h.current now reg k due hp).1
    · refine pairwise_append.mpr ⟨h.own, pairwise_singleton _ _, ?_⟩
      intro a ha b hb j hj k hk
      obtain rfl := mem_singleton.mp hb
      obtain rfl : tick = some k := hk
      exact (h.current now reg k due hp).2 a ha j hj
  | @tick k t t' silo hk ht =>
    have hmoved := Tick.moved_of_step h.named ht
    refine ⟨hmoved.keeps.named h.named, ?_, ?_, ?_, h.own⟩
    · intro u hu
      rcases mem_or_eq_of_mem_set hu with hu | rfl
      · exact (h.addressed u hu).mono hmoved.keeps
      · exact hmoved.addressed (h.addressed t (mem_of_getElem? hk))
    · intro now reg j due hp
      obtain ⟨hof, hlt⟩ := h.current now reg j due hp
      exact ⟨hof.set hk hmoved.grainId hmoved.name rfl, hlt⟩
    · exact fun a ha j hj => (h.advanced a ha j hj).set hk hmoved.grainId hmoved.name rfl
  | silo hstep =>
    have hkeeps := (step_sound hstep).keepsGrains
    exact ⟨hkeeps.named h.named, fun t ht => (h.addressed t ht).mono hkeeps, h.current,
      h.advanced, h.own⟩
  | _ => exact ⟨h.named, h.addressed, h.current, h.advanced, h.own⟩

theorem kept_step_iff (h : s.Inv) (hkept : ∀ a ∈ s.advances, s.Kept a.tick)
    (hmove : Move s e s') : (∀ a ∈ s'.advances, s'.Kept a.tick) ↔ s.Delivers e := by
  cases hmove with
  | registerGrainType | registerReminder | unregisterReminder | poll | polled | undispatched
  | silo => exact iff_of_true hkept trivial
  | dispatched =>
    refine iff_of_true (fun a ha => ?_) trivial
    obtain ⟨k, t, htick, hk, hst⟩ := hkept a ha
    exact ⟨k, t, htick, getElem?_snoc_of_some hk, hst⟩
  | @updated now reg tick due hp hl =>
    constructor
    · intro hall now' reg' tick' due' hp' _
      obtain ⟨-, -, rfl, -⟩ := PollPhase.updating.inj (hp.symm.trans hp')
      exact hall _ (mem_append_right _ (mem_singleton_self _))
    · intro hdel a ha
      rcases mem_append.mp ha with ha | ha
      · exact hkept a ha
      · obtain rfl := mem_singleton.mp ha
        exact hdel now reg tick due hp hl
  | @notUpdated ok now reg tick due hp hl =>
    refine iff_of_true hkept ?_
    cases ok with
    | false => trivial
    | true =>
      intro now' reg' tick' due' hp' hl'
      obtain ⟨-, rfl, -, -⟩ := PollPhase.updating.inj (hp.symm.trans hp')
      exact absurd ⟨rfl, hl'⟩ hl
  | @tick k t t' silo hk ht =>
    have hlost := (Tick.moved_of_step h.named ht).lost
    constructor
    · intro hall u hu hclosed a ha htick
      cases hk.symm.trans hu
      obtain ⟨j, t'', htick', hj, hst⟩ := hall a ha
      cases htick.symm.trans htick'
      rw [getElem?_set_of_some hk, if_pos rfl] at hj
      cases hj
      exact hst (hlost.mpr hclosed)
    · intro hdel a ha
      obtain ⟨j, u, htick, hj, hst⟩ := hkept a ha
      by_cases hjk : j = k
      · subst hjk
        refine ⟨j, t', htick, by rw [getElem?_set_of_some hk, if_pos rfl], fun hst' => ?_⟩
        exact hdel t hk (hlost.mp hst') a ha htick
      · exact ⟨j, u, htick, by rw [getElem?_set_of_some hk, if_neg hjk]; exact hj, hst⟩

theorem delivers_of_step_eq_none (hn : s.step e = none) : s.Delivers e := by
  cases e with
  | update ok =>
    cases ok with
    | false => trivial
    | true =>
      intro now reg tick due hp hl
      simp [ReminderRun.step, hp] at hn
      split_ifs at hn
  | tick k =>
    intro t hk hclosed
    have hstep : t.step s.silo ≠ none := by
      rcases hclosed with hst | ⟨i, task, hst, hi, hrx⟩
      · simp [Tick.step, hst]
      · simp [Tick.step, hst, hi, hrx]
    simp [ReminderRun.step, hk] at hn
    exact absurd hn hstep
  | _ => trivial

/-- No reminder is skipped in a run exactly if each that is set to its next time has a tick on its
way or in the mailbox, and no such tick finds its mailbox closed. -/
theorem due_not_skipped_iff (m : Shared) (es : List (ReminderEvent S)) :
    Throughout step NoneSkipped (init m) es ↔ Along step Delivers (init m) es := by
  refine throughout_iff_along (I := fun s => s.Inv ∧ s.NoneSkipped) (Q := NoneSkipped)
    (fun s hI => hI.2) (fun s e _ => delivers_of_step_eq_none) (fun s e s' hI hstep => ?_) es _
    ⟨inv_init m, (noneSkipped_iff (inv_init m)).mpr fun a ha => (nomatch ha)⟩
  have hmove := move_of_step hstep
  have hinv := hI.1.step hmove
  have hiff : s'.NoneSkipped ↔ s.Delivers e :=
    (noneSkipped_iff hinv).trans (kept_step_iff hI.1 ((noneSkipped_iff hI.1).mp hI.2) hmove)
  exact ⟨hiff, fun hdel => ⟨hinv, hiff.mpr hdel⟩⟩

def ticker (grainTypeName : String) : GrainType Unit where
  typeName := "app::Ticker"
  grainTypeName := grainTypeName
  placementHint := none
  grain := { default := (), onActivate := .ok, onDeactivate := .ok, reentrant := false }

def registered (grainTypeName : String) : List (ReminderEvent Unit) :=
  [.registerGrainType (ticker grainTypeName) fun _ => ⟨.ok, false⟩,
    .registerReminder ((ticker grainTypeName).id "t") "wake" 5 0]

/-- The reminder is due and is set to its next time. -/
def polled (grainTypeName : String) : List (ReminderEvent Unit) :=
  [.poll 5 [⟨(ticker grainTypeName).id "t", "wake", 5, 5⟩], .dispatch, .update true]

theorem not_noneSkipped {a} (ha : a ∈ s.advances) (hkept : ¬s.Kept a.tick) : ¬s.NoneSkipped := by
  intro hn
  obtain ⟨k, t, htick, hk, -, -, hst, -⟩ := hn.ticked a ha
  exact hkept ⟨k, t, htick, hk, hst⟩

/-- A reminder of a type with a name of its own gets no tick, and the tick of another is lost in a
silo that drains. Both are set to 10. -/
theorem reminder_skipped :
    (∃ s, exec step (init .empty) (registered "Ticker" ++ polled "Ticker") = some s ∧
      (s.store.lookup (⟨"Ticker", "t"⟩, "wake")).map (·.dueAt) = some 10 ∧ ¬s.NoneSkipped) ∧
    ∃ s, exec step (init .empty) (registered "app::Ticker" ++ [.silo .startDrain] ++
        polled "app::Ticker" ++ [.tick 0, .tick 0]) = some s ∧
      (s.store.lookup (⟨"app::Ticker", "t"⟩, "wake")).map (·.dueAt) = some 10 ∧
      ¬s.NoneSkipped := by
  constructor
  · obtain ⟨s, hs, hview⟩ : ∃ s, exec step (init .empty) (registered "Ticker" ++ polled "Ticker") =
        some s ∧ ((s.store.lookup (⟨"Ticker", "t"⟩, "wake")).map (·.dueAt), s.advances) =
          (some 10, [⟨⟨"Ticker", "t"⟩, "wake", none⟩]) :=
      map_eq_some_iff.mp (by decide +kernel)
    obtain ⟨hdue, hadv⟩ := Prod.mk.inj hview
    refine ⟨s, hs, hdue, not_noneSkipped (hadv ▸ mem_singleton_self _) ?_⟩
    rintro ⟨k, -, hnone, -⟩
    cases hnone
  · obtain ⟨s, hs, hview⟩ : ∃ s, exec step (init .empty) (registered "app::Ticker" ++
        [.silo .startDrain] ++ polled "app::Ticker" ++ [.tick 0, .tick 0]) = some s ∧
        ((s.store.lookup (⟨"app::Ticker", "t"⟩, "wake")).map (·.dueAt), s.advances,
          s.ticks.map Tick.stage) =
          (some 10, [⟨⟨"app::Ticker", "t"⟩, "wake", some 0⟩], [.lost]) :=
      map_eq_some_iff.mp (by decide +kernel)
    simp only [Prod.mk.injEq] at hview
    obtain ⟨hdue, hadv, hticks⟩ := hview
    refine ⟨s, hs, hdue, not_noneSkipped (hadv ▸ mem_singleton_self _) ?_⟩
    rintro ⟨k, t, htick, hk, hst⟩
    cases htick
    have hlost : (s.ticks.map Tick.stage)[0]? = some t.stage := by
      rw [getElem?_map, hk]
      rfl
    rw [hticks] at hlost
    exact hst (Option.some.inj hlost).symm

end ReminderRun
end Orlando
