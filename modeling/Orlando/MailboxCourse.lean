import Orlando.Mailbox
import Orlando.Transition

/-!
# The course of `run_mailbox`

What `run_mailbox` calls is the list of its events : `on_activate`, a handler for each message,
`on_deactivate`, and the removal from the directory. `Grain.Course` lists the whole courses, with
the user code that runs on the state and what it leaves, and every task is on one of them
(`Grain.Reached`). Each event that the loop feeds to its state machine (`Grain.fed`) changes the
state (`Grain.mailbox_lifecycle`).
-/

namespace Orlando

open ActivationState

variable {S : Type}

/-- The state that the handlers of the messages leave, one after the other, if none panics. -/
def handleAll (s : S) (envs : List (Envelope S)) : Option S :=
  envs.foldlM (fun s env => match env.handleFn s with
    | .ok s => some s
    | .panicked _ => none) s

theorem handleAll_snoc {s : S} {envs env} :
    handleAll s (envs ++ [env]) = (handleAll s envs).bind fun s => match env.handleFn s with
      | .ok s => some s
      | .panicked _ => none := by
  simp [handleAll, List.foldlM_append]

/-- Messages are taken from the channel, each after the handler of the one before. -/
def handling (envs : List (Envelope S)) : List (MailboxEvent S) :=
  envs.flatMap fun env => [.recv env, .handle]

theorem handling_snoc (envs) (env : Envelope S) :
    handling (envs ++ [env]) = handling envs ++ [.recv env, .handle] := by
  simp [handling]

def EndsBy (step : Activation S → MailboxEvent S → Option (Activation S)) (a : Activation S)
    (rest : List (MailboxEvent S)) : Prop :=
  ∃ a', exec step a rest = some a' ∧ a'.phase = .ended

section EndsBy

variable {step : Activation S → MailboxEvent S → Option (Activation S)} {a a' : Activation S}
  {e : MailboxEvent S} {past rest : List (MailboxEvent S)}

theorem EndsBy.cons (hstep : step a e = some a') (h : EndsBy step a' rest) :
    EndsBy step a (e :: rest) := by
  obtain ⟨b, hrun, hp⟩ := h
  exact ⟨b, exec_cons_eq_some.mpr ⟨a', hstep, hrun⟩, hp⟩

theorem EndsBy.append (hrun : exec step a past = some a') (h : EndsBy step a' rest) :
    EndsBy step a (past ++ rest) := by
  obtain ⟨b, hrest, hp⟩ := h
  exact ⟨b, by rw [exec_append, hrun, Option.bind_some, hrest], hp⟩

/-- As `EndsBy`, with the user code that has run by then and the state it has left. -/
def EndsWith (step : Activation S → MailboxEvent S → Option (Activation S)) (a : Activation S)
    (rest : List (MailboxEvent S)) (turns : List (Turn S)) (s : S) : Prop :=
  ∃ a', exec step a rest = some a' ∧ a'.phase = .ended ∧ a'.turns = turns ∧ a'.state = s

variable {turns : List (Turn S)} {s : S}

theorem EndsWith.endsBy (h : EndsWith step a rest turns s) : EndsBy step a rest := by
  obtain ⟨b, hrun, hp, -⟩ := h
  exact ⟨b, hrun, hp⟩

theorem EndsWith.append (hrun : exec step a past = some a') (h : EndsWith step a' rest turns s) :
    EndsWith step a (past ++ rest) turns s := by
  obtain ⟨b, hrest, hb⟩ := h
  exact ⟨b, by rw [exec_append, hrun, Option.bind_some, hrest], hb⟩

theorem EndsWith.cons (hstep : step a e = some a') (h : EndsWith step a' rest turns s) :
    EndsWith step a (e :: rest) turns s := by
  obtain ⟨b, hrest, hb⟩ := h
  exact ⟨b, exec_cons_eq_some.mpr ⟨a', hstep, hrest⟩, hb⟩

end EndsBy

def ActivationState.Changes : ActivationState → List ActivationEvent → Prop
  | _, [] => True
  | fsm, e :: es => fsm.next e ≠ fsm ∧ Changes (fsm.next e) es

namespace Grain

variable (g : Grain S)

/-- The courses of `run_mailbox` : `on_activate` panics, a handler panics after some have returned,
or the channel is found empty for good. -/
inductive Course : List (MailboxEvent S) → List (Turn S) → S → Prop
  | activatePanicked {now s} (ha : g.onActivate g.default = .panicked s) :
    Course [.onActivate now, .remove] [.activate] s
  | handlerPanicked {now s₀ s₁ s₂ envs env} (ha : g.onActivate g.default = .ok s₀)
    (hs : handleAll s₀ envs = some s₁) (he : env.handleFn s₁ = .panicked s₂) :
    Course (.onActivate now :: handling (envs ++ [env]) ++ [.remove])
      (.activate :: envs.map .handled ++ [.panicked env]) s₂
  | deactivated {now s₀ s₁ envs stop} (ha : g.onActivate g.default = .ok s₀)
    (hs : handleAll s₀ envs = some s₁) (hstop : stop = .closed ∨ stop = .idleTimeout) :
    Course (.onActivate now :: handling envs ++ [stop, .onDeactivate, .remove])
      (.activate :: envs.map .handled ++ [.deactivate]) (g.onDeactivate s₁).state

/-- Where a task of `run_mailbox` stands after its events. -/
inductive Reached : List (MailboxEvent S) → Activation S → Prop
  | start : Reached [] (.start .activate .activating g.default)
  | loop {now s₀ envs a} (ha : g.onActivate g.default = .ok s₀)
    (hs : handleAll s₀ envs = some a.state) (ht : a.turns = .activate :: envs.map .handled)
    (hp : a.phase = .loop) (hf : a.fsm = .idle) : Reached (.onActivate now :: handling envs) a
  | handling {now s₀ envs env a} (ha : g.onActivate g.default = .ok s₀)
    (hs : handleAll s₀ envs = some a.state) (ht : a.turns = .activate :: envs.map .handled)
    (hp : a.phase = .handling env) (hf : a.fsm = .processing) :
    Reached (.onActivate now :: handling envs ++ [.recv env]) a
  | draining {es : List (MailboxEvent S)} {a : Activation S}
    (hc : g.Course (es ++ [.onDeactivate, .remove]) (a.turns ++ [.deactivate])
      (g.onDeactivate a.state).state) (hp : a.phase = .deactivate) (hf : a.fsm = .draining) :
    Reached es a
  | leaving {es a} (hc : g.Course (es ++ [.remove]) a.turns a.state) (hp : a.phase = .remove)
    (hf : a.fsm = .faulted ∨ a.fsm = .closed) : Reached es a
  | ended {es a} (hc : g.Course es a.turns a.state) (hp : a.phase = .ended) (hf : a.fsm = .closed) :
    Reached es a

/-- Each event that the step feeds to the state machine changes its state. -/
def Feeds (a : Activation S) (e : MailboxEvent S) : Prop :=
  a.fsm.Changes (g.fed a e)

variable {g} {es : List (MailboxEvent S)} {a a' : Activation S} {e : MailboxEvent S}
  {envs : List (Envelope S)} {env : Envelope S} {s : S} {now : ℕ}

theorem fsm_of_exec (h : exec g.mailboxStep (.start .activate .activating g.default) es = some a) :
    a.fsm = (outputs g.mailboxStep g.fed (.start .activate .activating g.default) es).foldl .next
      .activating := by
  refine exec_induction (I := fun es a => a.fsm = (outputs g.mailboxStep g.fed
    (.start .activate .activating g.default) es).foldl .next .activating) rfl
    (fun es u e v hu ih hstep => ?_) h
  rw [outputs_snoc hu, List.foldl_append, ← ih]
  exact fsm_of_step hstep

theorem Feeds.of_fed (fsm evs) (hfsm : a.fsm = fsm) (hfed : g.fed a e = evs)
    (hc : fsm.Changes evs) : g.Feeds a e := by
  rw [Feeds, hfsm, hfed]
  exact hc

theorem Reached.step_start
    (hs : g.mailboxStep (.start .activate .activating g.default) e = some a') :
    g.Reached [e] a' ∧ g.Feeds (.start .activate .activating g.default) e := by
  cases e with
  | onActivate now =>
    simp only [mailboxStep, advance, fed, Activation.start] at hs
    cases ha : g.onActivate g.default with
    | ok s =>
      simp only [ha] at hs
      cases hs
      have hreached : g.Reached (.onActivate now :: Orlando.handling [])
          ((Activation.start .activate .activating g.default).record .activate s |>.settle .idle) :=
        .loop ha rfl rfl rfl rfl
      exact ⟨hreached, .of_fed .activating [.activateSucceeded] rfl
        (by simp [fed, Activation.start, ha]) ⟨by decide, trivial⟩⟩
    | panicked s =>
      simp only [ha] at hs
      cases hs
      exact ⟨.leaving (.activatePanicked ha) rfl (.inl rfl),
        .of_fed .activating [.activateFailed] rfl (by simp [fed, Activation.start, ha])
          ⟨by decide, trivial⟩⟩
  | _ => cases hs

theorem Reached.step_loop {s₀} (ha : g.onActivate g.default = .ok s₀)
    (hs : handleAll s₀ envs = some a.state) (ht : a.turns = .activate :: envs.map .handled)
    (hp : a.phase = .loop) (hf : a.fsm = .idle) (hst : g.mailboxStep a e = some a') :
    g.Reached (.onActivate now :: Orlando.handling envs ++ [e]) a' ∧ g.Feeds a e := by
  have hstop : ∀ {stop}, (stop = .closed ∨ stop = .idleTimeout) →
      g.Reached (.onActivate now :: Orlando.handling envs ++ [stop]) (a.settle .draining) := by
    intro stop hstop
    refine .draining ?_ rfl rfl
    have hturns : (a.settle .draining).turns = .activate :: envs.map .handled := ht
    rw [hturns]
    simpa [Activation.settle] using Course.deactivated ha hs hstop
  cases e with
  | recv env =>
    simp only [mailboxStep, advance, fed, hp, hf] at hst
    cases hst
    exact ⟨.handling ha hs ht rfl rfl, .of_fed .idle _ hf rfl ⟨by decide, trivial⟩⟩
  | closed =>
    simp only [mailboxStep, advance, fed, hp, hf] at hst
    cases hst
    exact ⟨hstop (.inl rfl), .of_fed .idle _ hf rfl ⟨by decide, trivial⟩⟩
  | idleTimeout =>
    simp only [mailboxStep, advance, fed, hp, hf] at hst
    cases hst
    exact ⟨hstop (.inr rfl), .of_fed .idle _ hf rfl ⟨by decide, trivial⟩⟩
  | _ => simp [mailboxStep, hp] at hst

theorem Reached.step_handling {s₀ : S} (ha : g.onActivate g.default = .ok s₀)
    (hs : handleAll s₀ envs = some a.state) (ht : a.turns = .activate :: envs.map .handled)
    (hp : a.phase = .handling env) (hf : a.fsm = .processing) (hst : g.mailboxStep a e = some a') :
    g.Reached (.onActivate now :: Orlando.handling envs ++ [.recv env] ++ [e]) a' ∧
      g.Feeds a e := by
  cases e with
  | handle =>
    have hes : (.onActivate now :: Orlando.handling envs ++ [.recv env] ++ [.handle] :
        List (MailboxEvent S)) = .onActivate now :: Orlando.handling (envs ++ [env]) := by
      simp [handling_snoc]
    rw [hes]
    simp only [mailboxStep, advance, fed, hp, hf] at hst
    cases he : env.handleFn a.state with
    | ok s =>
      simp only [he] at hst
      cases hst
      have hall : handleAll s₀ (envs ++ [env]) = some s := by
        rw [handleAll_snoc, hs, Option.bind_some, he]
      refine ⟨.loop ha hall ?_ rfl rfl, .of_fed .processing [.handlerCompleted] hf
        (by simp [fed, hp, he]) ⟨by decide, trivial⟩⟩
      simp [Activation.settle, Activation.complete, Activation.record, ht]
    | panicked s =>
      simp only [he] at hst
      cases hst
      refine ⟨.leaving ?_ rfl (.inl rfl), .of_fed .processing [.handlerPanicked] hf
        (by simp [fed, hp, he]) ⟨by decide, trivial⟩⟩
      have hturns : ((a.record (.panicked env) s).settle .faulted).turns =
          .activate :: envs.map .handled ++ [.panicked env] := by
        rw [← ht]
        rfl
      exact hturns ▸ .handlerPanicked ha hs he
  | _ => simp [mailboxStep, hp] at hst

theorem Reached.step (h : g.Reached es a) (hst : g.mailboxStep a e = some a') :
    g.Reached (es ++ [e]) a' ∧ g.Feeds a e := by
  cases h with
  | start => exact step_start hst
  | loop ha hs ht hp hf => exact step_loop ha hs ht hp hf hst
  | handling ha hs ht hp hf => exact step_handling ha hs ht hp hf hst
  | draining hc hp hf =>
    cases e with
    | onDeactivate =>
      simp only [mailboxStep, advance, fed, hp, hf] at hst
      cases hst
      exact ⟨.leaving (by simpa [Activation.record] using hc) rfl (.inr rfl),
        .of_fed .draining _ hf rfl ⟨by decide, by decide, trivial⟩⟩
    | _ => simp [mailboxStep, hp] at hst
  | leaving hc hp hf =>
    cases e with
    | remove =>
      simp only [mailboxStep, advance, fed, hp] at hst
      cases hst
      rcases hf with hf | hf
      · exact ⟨.ended hc rfl (by simp [hf, next]), .of_fed .faulted [.deactivateComplete] hf
          (by simp [fed, hf]) ⟨by decide, trivial⟩⟩
      · exact ⟨.ended hc rfl (by simp [hf]), .of_fed .closed [] hf (by simp [fed, hf]) trivial⟩
    | _ => simp [mailboxStep, hp] at hst
  | ended hc hp hf => cases e <;> simp [mailboxStep, hp] at hst

theorem reached_of_exec
    (h : exec g.mailboxStep (.start .activate .activating g.default) es = some a) :
    g.Reached es a :=
  exec_induction .start (fun _ _ _ _ _ hr hstep => (hr.step hstep).1) h

theorem endsWith_of_remove (hp : a.phase = .remove) :
    EndsWith g.mailboxStep a [.remove] a.turns a.state := by
  have hstep : g.mailboxStep a .remove =
      some { a with phase := .ended, fsm := g.advance a .remove } := by
    simp only [mailboxStep, hp]
  exact .cons hstep ⟨_, rfl, rfl, rfl, rfl⟩

theorem endsWith_of_deactivate (hp : a.phase = .deactivate) :
    EndsWith g.mailboxStep a [.onDeactivate, .remove] (a.turns ++ [.deactivate])
      (g.onDeactivate a.state).state := by
  have hstep : g.mailboxStep a .onDeactivate =
      some { a.record .deactivate (g.onDeactivate a.state).state with
        phase := .remove
        fsm := g.advance a .onDeactivate } := by
    simp only [mailboxStep, hp]
  exact .cons hstep (endsWith_of_remove rfl)

theorem endsWith_of_loop {stop} (hp : a.phase = .loop) (hf : a.fsm = .idle)
    (hstop : stop = .closed ∨ stop = .idleTimeout) :
    EndsWith g.mailboxStep a [stop, .onDeactivate, .remove] (a.turns ++ [.deactivate])
      (g.onDeactivate a.state).state := by
  have hstep : g.mailboxStep a stop = some (a.settle .draining) := by
    rcases hstop with rfl | rfl <;> simp [mailboxStep, advance, fed, hp, hf, next]
  exact .cons hstep (endsWith_of_deactivate rfl)

theorem mailboxStep_handle_ok (hp : a.phase = .handling env) (hf : a.fsm = .processing)
    (he : env.handleFn a.state = .ok s) :
    g.mailboxStep a .handle = some ((a.complete env s).settle .idle) := by
  simp [mailboxStep, advance, fed, hp, he, hf, next]

theorem endsWith_of_handlerPanicked (hp : a.phase = .handling env) (hf : a.fsm = .processing)
    (he : env.handleFn a.state = .panicked s) :
    EndsWith g.mailboxStep a [.handle, .remove] (a.turns ++ [.panicked env]) s := by
  have hstep : g.mailboxStep a .handle = some ((a.record (.panicked env) s).settle .faulted) := by
    simp [mailboxStep, advance, fed, hp, he, hf, next]
  exact .cons hstep (endsWith_of_remove rfl)

theorem mailboxStep_onActivate_ok (now) (ha : g.onActivate g.default = .ok s) :
    g.mailboxStep (.start .activate .activating g.default) (.onActivate now) =
      some (((Activation.start .activate .activating g.default).record .activate s).settle
        .idle) := by
  simp [mailboxStep, advance, fed, Activation.start, ha, next]

theorem endsWith_of_activatePanicked (now) (ha : g.onActivate g.default = .panicked s) :
    EndsWith g.mailboxStep (.start .activate .activating g.default) [.onActivate now, .remove]
      [.activate] s := by
  have hstep : g.mailboxStep (.start .activate .activating g.default) (.onActivate now) =
      some (((Activation.start .activate .activating g.default).record .activate s).settle
        .faulted) := by
    simp [mailboxStep, advance, fed, Activation.start, ha, next]
  exact .cons hstep (endsWith_of_remove rfl)

theorem Reached.exists_endsBy (h : g.Reached es a) :
    ∃ rest, (∀ env, .recv env ∉ rest) ∧ EndsBy g.mailboxStep a rest := by
  cases h with
  | start =>
    cases ha : g.onActivate g.default with
    | ok s =>
      exact ⟨_, by simp, .cons (mailboxStep_onActivate_ok 0 ha)
        (endsWith_of_loop rfl rfl (.inl rfl)).endsBy⟩
    | panicked s => exact ⟨_, by simp, (endsWith_of_activatePanicked 0 ha).endsBy⟩
  | loop _ _ _ hp hf => exact ⟨_, by simp, (endsWith_of_loop hp hf (.inl rfl)).endsBy⟩
  | @handling _ _ _ env _ _ _ _ hp hf =>
    cases he : env.handleFn a.state with
    | ok s =>
      exact ⟨_, by simp, .cons (mailboxStep_handle_ok hp hf he)
        (endsWith_of_loop rfl rfl (.inl rfl)).endsBy⟩
    | panicked s => exact ⟨_, by simp, (endsWith_of_handlerPanicked hp hf he).endsBy⟩
  | draining _ hp => exact ⟨_, by simp, (endsWith_of_deactivate hp).endsBy⟩
  | leaving _ hp => exact ⟨_, by simp, (endsWith_of_remove hp).endsBy⟩
  | ended _ hp => exact ⟨[], by simp, a, rfl, hp⟩

theorem Reached.course_of_ended (h : g.Reached es a) (hp : a.phase = .ended) :
    g.Course es a.turns a.state ∧ a.fsm = .closed := by
  cases h with
  | ended hc _ hf => exact ⟨hc, hf⟩
  | start => cases hp
  | loop _ _ _ hq | handling _ _ _ hq | draining _ hq | leaving _ hq => cases hq.symm.trans hp

theorem exec_handling (hp : a.phase = .loop) (hf : a.fsm = .idle)
    (hs : handleAll a.state envs = some s) :
    ∃ a', exec g.mailboxStep a (Orlando.handling envs) = some a' ∧ a'.phase = .loop ∧
      a'.fsm = .idle ∧ a'.state = s ∧ a'.turns = a.turns ++ envs.map .handled := by
  induction envs generalizing a with
  | nil => exact ⟨a, rfl, hp, hf, Option.some.inj hs, (List.append_nil _).symm⟩
  | cons env envs ih =>
    have hrecv : g.mailboxStep a (.recv env) =
        some { a with phase := .handling env, fsm := .processing } := by
      simp [mailboxStep, advance, fed, hp, hf, next]
    cases he : env.handleFn a.state with
    | ok s₁ =>
      have hrest : handleAll s₁ envs = some s := by simpa [handleAll, he] using hs
      let b : Activation S := { a with phase := .handling env, fsm := .processing }
      have hhandle : g.mailboxStep b .handle = some ((b.complete env s₁).settle .idle) :=
        mailboxStep_handle_ok rfl rfl he
      obtain ⟨a', hrun, hp', hf', hs', ht'⟩ :=
        ih (a := (b.complete env s₁).settle .idle) rfl rfl hrest
      refine ⟨a', exec_cons_eq_some.mpr ⟨_, hrecv, exec_cons_eq_some.mpr ⟨_, hhandle, hrun⟩⟩,
        hp', hf', hs', ht'.trans ?_⟩
      simp [b, Activation.settle, Activation.complete, Activation.record]
    | panicked s₁ => simp [handleAll, he] at hs

theorem Course.endsWith {turns} (h : g.Course es turns s) :
    EndsWith g.mailboxStep (.start .activate .activating g.default) es turns s := by
  cases h with
  | @activatePanicked now s ha => exact endsWith_of_activatePanicked now ha
  | @handlerPanicked now s₀ s₁ s₂ envs env ha hs he =>
    obtain ⟨a, hr, hp, hf, rfl, ht⟩ := exec_handling (g := g)
      (a := ((Activation.start .activate .activating g.default).record .activate s₀).settle .idle)
      rfl rfl hs
    have hrecv : g.mailboxStep a (.recv env) =
        some { a with phase := .handling env, fsm := .processing } := by
      simp [mailboxStep, advance, fed, hp, hf, next]
    rw [handling_snoc, List.cons_append, List.append_assoc]
    have hts : .activate :: envs.map .handled ++ [.panicked env] = a.turns ++ [.panicked env] :=
      congrArg (· ++ _) ht.symm
    rw [hts]
    exact .cons (mailboxStep_onActivate_ok now ha)
      (.append hr (.cons hrecv (endsWith_of_handlerPanicked rfl rfl he)))
  | @deactivated now s₀ s₁ envs stop ha hs hstop =>
    obtain ⟨a, hr, hp, hf, rfl, ht⟩ := exec_handling (g := g)
      (a := ((Activation.start .activate .activating g.default).record .activate s₀).settle .idle)
      rfl rfl hs
    rw [List.cons_append]
    have hts : .activate :: envs.map .handled ++ [.deactivate] = a.turns ++ [.deactivate] :=
      congrArg (· ++ _) ht.symm
    rw [hts]
    exact .cons (mailboxStep_onActivate_ok now ha) (.append hr (endsWith_of_loop hp hf hstop))

/-- The courses are the complete runs of `run_mailbox`, with the user code that runs in them and the
state it leaves. Every run gets to such an end once no message comes, its state machine is where
the events fed to it lead, each of them changes it, and it ends in `Closed`. -/
theorem mailbox_lifecycle (g : Grain S) :
    (∀ es turns s, g.Course es turns s ↔
      EndsWith g.mailboxStep (.start .activate .activating g.default) es turns s) ∧
    ∀ es a, exec g.mailboxStep (.start .activate .activating g.default) es = some a →
      (a.phase = .ended → a.fsm = .closed) ∧
      (∃ rest, (∀ env, .recv env ∉ rest) ∧ EndsBy g.mailboxStep a rest) ∧
      a.fsm = (outputs g.mailboxStep g.fed (.start .activate .activating g.default) es).foldl
        .next .activating ∧
      Along g.mailboxStep g.Feeds (.start .activate .activating g.default) es := by
  refine ⟨fun es turns s => ⟨Course.endsWith, ?_⟩,
    fun es a h => ⟨fun hp => ?_, ?_, fsm_of_exec h, ?_⟩⟩
  · rintro ⟨a, h, hp, rfl, rfl⟩
    exact ((reached_of_exec h).course_of_ended hp).1
  · exact ((reached_of_exec h).course_of_ended hp).2
  · exact (reached_of_exec h).exists_endsBy
  · refine along_of_invariant (P := fun _ _ => True) (I := fun b => ∃ es, g.Reached es b)
      (fun b e b' _ ⟨es, hb⟩ hstep => ?_) ⟨[], .start⟩ (along_true _ _) h
    obtain ⟨hb', hfeeds⟩ := hb.step hstep
    exact ⟨⟨es ++ [e], hb'⟩, hfeeds⟩

end Grain

end Orlando
