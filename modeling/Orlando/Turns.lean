import Orlando.SiloTasks

/-!
# Turns

What a step of any of the four mailboxes means for the history of an activation : it starts, user
code runs on its state, or no user code runs (`Activation.Ran`). The state is the one the turns lead
to, in every run of a silo (`Silo.replayed_of_run`).
-/

namespace Orlando

open Phase Turn

variable {S : Type}

/-- The task has nothing left to do but to leave the directory. -/
def Phase.leaving : Phase S → Bool
  | remove => true
  | ended => true
  | _ => false

namespace Activation

/-- What a step means for the history, in all four mailboxes. -/
inductive Ran (g : Grain S) (a : Activation S) (e : MailboxEvent S) (a' : Activation S) : Prop
  | start (hl : a.phase.loading = true) (hl' : a'.phase.loading = false)
    (hstate : a'.state = a'.loaded) (hturns : a'.turns = [])
  /-- User code runs. If that is a handler that panics, the task leaves, or it is a task of
  a reentrant grain. -/
  | turn (t : Turn S) (hl : a.phase.loading = false) (hl' : a'.phase.loading = false)
    (hp : a.phase.leaving = false) (hloaded : a'.loaded = a.loaded)
    (hstate : a'.state = t.apply g a.state) (hturns : a'.turns = a.turns ++ [t])
    (ht : t.completed = true ∨ a'.phase.leaving = true ∨
      ∃ k env s, e = .handler k .run ∧ a.handlers[k]? = some (.locked env) ∧
        env.handleFn a.state = .panicked s ∧ t = .panicked env)
  /-- No user code runs. -/
  | quiet (hl : a'.phase.loading = a.phase.loading) (hloaded : a'.loaded = a.loaded)
    (hstate : a'.state = a.state) (hturns : a'.turns = a.turns)
    (hp : a.phase.leaving = true → a'.phase.leaving = true)

variable {g : Grain S} {a a' : Activation S} {e : MailboxEvent S}

theorem Ran.extends (h : a.Ran g e a') (hl : a.phase.loading = false) :
    a'.phase.loading = false ∧ a'.loaded = a.loaded ∧ ∃ ts, a'.turns = a.turns ++ ts := by
  cases h with
  | start hl₀ => cases hl₀.symm.trans hl
  | turn t _ hl' _ hld _ hts => exact ⟨hl', hld, [t], hts⟩
  | quiet hl' hld _ hts => exact ⟨hl'.trans hl, hld, [], by simp [hts]⟩

theorem Ran.state_eq (h : a.Ran g e a')
    (hs : a.phase.loading = false → a.state = replay g a.loaded a.turns)
    (hl' : a'.phase.loading = false) : a'.state = replay g a'.loaded a'.turns := by
  cases h with
  | start _ _ hsta hts => rw [hts, hsta, replay_nil]
  | turn t hl _ _ hld hsta hts => rw [hsta, hld, hts, replay_snoc, hs hl]
  | quiet hl hld hsta hts =>
    rw [hsta, hld, hts]
    exact hs (hl ▸ hl')

end Activation

open Activation

section

variable {gid : GrainId} {a a' : Activation S} {m m' : Shared} {e : MailboxEvent S}
  {reentrant : Bool} {g : Grain S} {env : Envelope S}

theorem Phase.leaving_of_inLoop {ph : Phase S} (h : ph.inLoop = true) :
    ph.leaving = false ∧ ph.loading = false :=
  of_inLoop (P := fun ph => ph.leaving = false ∧ ph.loading = false) h ⟨rfl, rfl⟩ ⟨rfl, rfl⟩

theorem leaving_of_panic (hw : a.WF reentrant) (hp : a.phase.processing = true) (b : Activation S) :
    (b.settle (a.fsm.next .handlerPanicked)).phase.leaving = true := by
  simp [hw.processing hp, ActivationState.next, settle, leaving]

theorem ran_of_handled (hw : a.WF reentrant) {k} {s}
    (hk : a.handlers[k]? = some (.locked env)) (hs : env.handleFn a.state = .ok s)
    (h' : Handler S) : a.Ran g e ((a.complete env s).setHandler k h') := by
  obtain ⟨hleave, hload⟩ := leaving_of_inLoop (hw.inLoop hk (by simp))
  exact .turn (.handled env) hload hload hleave rfl
    (by simp [setHandler, complete, record, apply, hs]) rfl (.inl rfl)

theorem ran_of_panicked (hw : a.WF reentrant) {k} {s}
    (hk : a.handlers[k]? = some (.locked env)) (hs : env.handleFn a.state = .panicked s) :
    a.Ran g (.handler k .run) ((a.record (.panicked env) s).setHandler k .finished) := by
  obtain ⟨hleave, hload⟩ := leaving_of_inLoop (hw.inLoop hk (by simp))
  exact .turn (.panicked env) hload hload hleave rfl (by simp [setHandler, record, apply, hs]) rfl
    (.inr (.inr ⟨k, env, s, rfl, hk, hs, rfl⟩))

theorem Grain.Step.ran (hs : g.Step a e a') (hw : a.WF g.reentrant) : a.Ran g e a' := by
  cases hs with
  | activateOk hp hs | activatePanic hp hs =>
    exact .turn .activate (hp ▸ rfl) (loading_settle _ _) (hp ▸ rfl) rfl
      (by simp [settle, record, apply, hs]) rfl (.inl rfl)
  | recv hp | drain hp | drained hp | remove hp =>
    exact .quiet (hp ▸ rfl) rfl rfl rfl (by rw [hp]; simp [leaving])
  | closed hp | idleTimeout hp =>
    exact .quiet (by rw [loading_settle, hp]; rfl) rfl rfl rfl (by rw [hp]; simp [leaving])
  | handleOk hp hs =>
    exact .turn (.handled _) (hp ▸ rfl) (loading_settle _ _) (hp ▸ rfl) rfl
      (by simp [settle, complete, record, apply, hs]) rfl (.inl rfl)
  | handlePanic hp hs =>
    exact .turn (.panicked _) (hp ▸ rfl) (loading_settle _ _) (hp ▸ rfl) rfl
      (by simp [settle, record, apply, hs]) rfl
      (.inr (.inl (leaving_of_panic hw (hp ▸ rfl) _)))
  | runOk hk hs => exact ran_of_handled hw hk hs _
  | runPanic hk hs => exact ran_of_panicked hw hk hs
  | deactivate hp => exact .turn .deactivate (hp ▸ rfl) rfl (hp ▸ rfl) rfl rfl rfl (.inl rfl)
  | _ => exact .quiet rfl rfl rfl rfl id

theorem PersistentArgs.Step.ran {p : PersistentArgs S} (hs : p.Step gid a m e a' m')
    (hw : a.WF p.grain.reentrant) : a.Ran p.grain e a' := by
  cases hs with
  | loadRun hp | loadVersioned hp =>
    have hl : a.phase.loading = true := by rw [hp]; rfl
    exact .start hl rfl rfl (hw.fresh hl).1
  | loadFailed hl => exact .start hl rfl rfl (hw.fresh hl).1
  | activateOk hp hs | activatePanic hp hs =>
    exact .turn .activate (hp ▸ rfl) rfl (hp ▸ rfl) rfl (by simp [record, apply, hs]) rfl (.inl rfl)
  | closed hp | idleTimeout hp | skip hp | replicate hp | serializeFailed hp | flush hp
  | flushRefused hp | publish hp =>
    exact .quiet (by rw [loading_settle, hp]; rfl) rfl rfl rfl (by rw [hp]; simp [leaving])
  | handleOk hp hs =>
    exact .turn (.handled _) (hp ▸ rfl) rfl (hp ▸ rfl) rfl
      (by simp [complete, record, apply, hs]) rfl (.inl rfl)
  | handlePanic hp hs =>
    exact .turn (.panicked _) (hp ▸ rfl) (loading_settle _ _) (hp ▸ rfl) rfl
      (by simp [settle, record, apply, hs]) rfl
      (.inr (.inl (leaving_of_panic hw (hp ▸ rfl) _)))
  | spawn | acquire | release | handlerSave | handlerSaveRefused | handlerSend | join =>
    exact .quiet rfl rfl rfl rfl id
  | runOk hk hs => exact ran_of_handled hw hk hs _
  | runPanic hk hs => exact ran_of_panicked hw hk hs
  | deactivate hp => exact .turn .deactivate (hp ▸ rfl) rfl (hp ▸ rfl) rfl rfl rfl (.inl rfl)
  | _ hp => exact .quiet (hp ▸ rfl) rfl rfl rfl (by rw [hp]; simp [leaving])

namespace MailboxKind

variable {kind : MailboxKind S}

def grain : MailboxKind S → Grain S
  | plain g => g
  | persistent p => p.grain

theorem Sound.wf (h : kind.Sound a) : a.WF kind.grain.reentrant := by
  cases kind with
  | plain g => exact h
  | persistent p => exact PersistentArgs.Sound.wf h

theorem ran_of_step (h : kind.step gid a m e = some (a', m')) (hs : kind.Sound a) :
    a.Ran kind.grain e a' := by
  rcases step_cases h with ⟨g, rfl, hst, -⟩ | ⟨p, rfl, hst⟩
  · exact hst.ran hs
  · exact hst.ran (PersistentArgs.Sound.wf hs)

structure Replayed (a : Activation S) (kind : MailboxKind S) : Prop where
  sound : kind.Sound a
  state : a.phase.loading = false → a.state = replay kind.grain a.loaded a.turns

theorem start_replayed (kind : MailboxKind S) : kind.Replayed kind.start := by
  refine ⟨kind.start_sound, ?_⟩
  cases kind with
  | plain g => exact fun _ => rfl
  | persistent p => exact PersistentArgs.start_sound.state

theorem Replayed.step (h : kind.step gid a m e = some (a', m')) (ha : kind.Replayed a) :
    kind.Replayed a' :=
  ⟨step_keeps_sound h ha.sound, (ran_of_step h ha.sound).state_eq ha.state⟩

end MailboxKind

end

theorem Silo.replayed_of_run {m} {es} {s : Silo S}
    (hrun : exec Silo.step (.init m) es = some s) : ∀ t ∈ s.tasks, t.kind.Replayed t.act := by
  have hinit : ∀ t ∈ (init (S := S) m).tasks, t.kind.Replayed t.act := by
    intro t ht
    simp [init] at ht
  refine exec_invariant_of_step (I := fun s => ∀ t ∈ s.tasks, t.kind.Replayed t.act)
    (fun s e s' hI hstep => ?_) hinit hrun
  exact (step_sound hstep).forall_tasks (I := fun _ kind a => kind.Replayed a)
    (fun _ kind => kind.start_replayed) (fun _ _ ha h => ha.step h) hI

end Orlando
