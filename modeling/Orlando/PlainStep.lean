import Orlando.MailboxStep

/-!
# What a step of a plain mailbox does

`Grain.Step` lists the steps of `run_mailbox` and of `run_reentrant_mailbox`, as
`PersistentArgs.Step` does for the persistent ones. Both keep a task well formed
(`Grain.Step.wf`).
-/

namespace Orlando

variable {S : Type}

namespace Grain

variable (g : Grain S)

inductive Step (a : Activation S) : MailboxEvent S → Activation S → Prop
  | activateOk {now s} (hp : a.phase = .activate) (hs : g.onActivate a.state = .ok s) :
    Step a (.onActivate now) ((a.record .activate s).settle (a.fsm.next .activateSucceeded))
  | activatePanic {now s} (hp : a.phase = .activate) (hs : g.onActivate a.state = .panicked s) :
    Step a (.onActivate now) ((a.record .activate s).settle (a.fsm.next .activateFailed))
  | recv {env} (hp : a.phase = .loop) (hr : g.reentrant = false) :
    Step a (.recv env) { a with phase := .handling env, fsm := a.fsm.next .messageReceived }
  | spawn {env} (hp : a.phase = .loop) (hr : g.reentrant = true) :
    Step a (.recv env) { a with handlers := a.handlers ++ [.waiting env] }
  | closed (hp : a.phase = .loop) (hr : g.reentrant = false) :
    Step a .closed (a.settle (a.fsm.next .channelClosed))
  | idleTimeout (hp : a.phase = .loop) (hr : g.reentrant = false) :
    Step a .idleTimeout (a.settle (a.fsm.next .idleTimeout))
  | drain {e fsm} (hp : a.phase = .loop) (hr : g.reentrant = true)
    (he : e = .closed ∨ e = .idleTimeout) : Step a e { a with phase := .drain, fsm := fsm }
  | handleOk {env s} (hp : a.phase = .handling env) (hs : env.handleFn a.state = .ok s) :
    Step a .handle ((a.complete env s).settle (a.fsm.next .handlerCompleted))
  | handlePanic {env s} (hp : a.phase = .handling env) (hs : env.handleFn a.state = .panicked s) :
    Step a .handle ((a.record (.panicked env) s).settle (a.fsm.next .handlerPanicked))
  | acquire {k env} (hk : a.handlers[k]? = some (.waiting env)) (hl : a.lockFree = true) :
    Step a (.handler k .acquire) (a.setHandler k (.locked env))
  | runOk {k env s} (hk : a.handlers[k]? = some (.locked env)) (hs : env.handleFn a.state = .ok s) :
    Step a (.handler k .run) ((a.complete env s).setHandler k .finished)
  | runPanic {k env s} (hk : a.handlers[k]? = some (.locked env))
    (hs : env.handleFn a.state = .panicked s) :
    Step a (.handler k .run) ((a.record (.panicked env) s).setHandler k .finished)
  | join {k} (hk : a.handlers[k]? = some .finished) :
    Step a (.handler k .join) (a.setHandler k .joined)
  | drained (hp : a.phase = .drain) (hz : a.inFlight = 0) :
    Step a .drained { a with phase := .deactivate }
  | deactivate {fsm} (hp : a.phase = .deactivate) :
    Step a .onDeactivate
      { a.record .deactivate (g.onDeactivate a.state).state with phase := .remove, fsm := fsm }
  | remove {fsm} (hp : a.phase = .remove) : Step a .remove { a with phase := .ended, fsm := fsm }

variable {g} {a a' : Activation S} {e : MailboxEvent S}

theorem mailboxStep_sound (hr : g.reentrant = false) (h : g.mailboxStep a e = some a') :
    g.Step a e a' := by
  revert h
  fun_cases mailboxStep g a e <;> intro h <;> cases h
  next hp _ hs => simpa [advance, fed, hs] using Step.activateOk hp hs
  next hp _ hs => simpa [advance, fed, hs] using Step.activatePanic hp hs
  next hp => exact .recv hp hr
  next hp => exact .closed hp hr
  next hp => exact .idleTimeout hp hr
  next hp _ hs => simpa [advance, fed, hp, hs] using Step.handleOk hp hs
  next hp _ hs => simpa [advance, fed, hp, hs] using Step.handlePanic hp hs
  next hp => exact .deactivate hp
  next hp => exact .remove hp

theorem reentrantHandlerStep_sound {k e}
    (h : reentrantHandlerStep a k e = some a') : g.Step a (.handler k e) a' := by
  revert h
  fun_cases reentrantHandlerStep a k e <;> intro h <;> cases h
  next hk hl => exact .acquire hk hl
  next hk _ hs => exact .runOk hk hs
  next hk _ hs => exact .runPanic hk hs
  next hk => exact .join hk

theorem reentrantMailboxStep_sound (hr : g.reentrant = true)
    (h : g.reentrantMailboxStep a e = some a') : g.Step a e a' := by
  revert h
  fun_cases reentrantMailboxStep g a e <;> intro h <;> try cases h
  next hp _ hs => exact .activateOk hp hs
  next hp _ hs => exact .activatePanic hp hs
  next hp _ => exact .spawn hp hr
  next hp => exact .drain hp hr (.inl rfl)
  next hp => exact .drain hp hr (.inr rfl)
  next => exact reentrantHandlerStep_sound h
  next hp hz => exact .drained hp hz
  next hp => exact .deactivate hp
  next hp => exact .remove hp

theorem start_wf (g : Grain S) :
    (Activation.start .activate .activating g.default).WF g.reentrant :=
  Activation.start_wf rfl nofun

theorem Step.wf (hs : g.Step a e a') (hw : a.WF g.reentrant) : a'.WF g.reentrant := by
  cases hs with
  | activateOk hp _ | activatePanic hp _ | handleOk hp _ | handlePanic hp _ =>
    exact hw.settle (by rfl) (hw.joined_of_phase hp rfl) _
  | closed _ hr | idleTimeout _ hr => exact hw.settle (by rfl) (hw.joined_of_sequential hr) _
  | recv hp hr =>
    refine hw.next rfl (hw.joined_of_sequential hr) ?_ ?_ ?_
    · rintro ⟨⟩
    · exact fun _ => by simp [hw.idle hp, ActivationState.next]
    · rintro ⟨⟩
  | spawn hp hr => exact hw.spawn hp hr
  | drain hp hr _ => refine ⟨?_, ?_, by simp [hr], ?_, ?_, hw.exclusive⟩ <;> rintro ⟨⟩
  | acquire hk hl => exact hw.setHandler hk (by rintro ⟨⟩) (fun _ => .inr hl) rfl rfl rfl
  | runOk hk _ | runPanic hk _ =>
    exact hw.setHandler hk (by rintro ⟨⟩) (fun _ => .inl rfl) rfl rfl rfl
  | join hk => exact hw.setHandler hk (by rintro ⟨⟩) (by rintro ⟨⟩) rfl rfl rfl
  | drained _ hz => refine hw.next rfl (Activation.joined_of_inFlight hz) ?_ ?_ ?_ <;> rintro ⟨⟩
  | deactivate hp | remove hp =>
    refine hw.next rfl (hw.joined_of_phase hp rfl) ?_ ?_ ?_ <;> rintro ⟨⟩

end Grain

end Orlando
