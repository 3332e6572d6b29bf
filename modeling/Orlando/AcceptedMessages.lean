import Orlando.Delivery

/-!
# Accepted messages

`run_mailbox` leaves its loop with an empty channel, but keeps the receiver through `on_deactivate`
and `remove`. A message sent in between is accepted and never handled (`accepted_and_lost`).
-/

namespace Orlando

open Activation List Phase

variable {S : Type}

/-! ## The course of `run_mailbox` -/

namespace Grain

variable {g : Grain S} {a a' : Activation S} {e : MailboxEvent S}

/-- What holds of every task of `run_mailbox`. -/
structure Orderly (a : Activation S) : Prop where
  course : a.phase = .activate ∧ a.fsm = .activating ∨ a.phase = .loop ∨
    (∃ env, a.phase = .handling env) ∨ a.phase.pastLoop = true
  clean : a.faulted = false → ∀ t ∈ a.turns, t.completed = true
  out : a.faulted = true → a.phase.pastLoop = true

theorem start_orderly (g : Grain S) : Orderly (start .activate .activating g.default) where
  course := .inl ⟨rfl, rfl⟩
  clean := fun _ => nofun
  out := nofun

theorem Orderly.faulted_eq_false (h : Orderly a) (hp : a.phase.pastLoop = false) :
    a.faulted = false := by
  by_contra hf
  rw [h.out (by simpa using hf)] at hp
  cases hp

theorem Orderly.activating (h : Orderly a) (hp : a.phase = .activate) : a.fsm = .activating := by
  rcases h.course with ⟨-, hf⟩ | hl | ⟨env, hl⟩ | hl
  · exact hf
  all_goals rw [hp] at hl; cases hl

theorem Orderly.completed_eq_ran (h : Orderly a) (hf : a.faulted = false) :
    a.completed = a.ran := by
  refine filterMap_congr ?_
  intro t ht
  have := h.clean hf t ht
  cases t <;> first | rfl | cases this

theorem Orderly.clean_snoc (h : Orderly a) (hp : a.phase.pastLoop = false) {t}
    (ht : t.completed = true) : ∀ u ∈ a.turns ++ [t], u.completed = true := by
  intro u hu
  rcases mem_append.mp hu with hu | hu
  · exact h.clean (h.faulted_eq_false hp) u hu
  · exact mem_singleton.mp hu ▸ ht

theorem Step.orderly (hs : g.Step a e a') (hseq : g.reentrant = false)
    (hw : a.WF g.reentrant) (h : Orderly a) : Orderly a' := by
  cases hs with
  | activateOk hp =>
    rw [h.activating hp]
    exact ⟨.inr (.inl rfl), fun _ => h.clean_snoc (hp ▸ rfl) rfl, nofun⟩
  | activatePanic hp =>
    rw [h.activating hp]
    exact ⟨.inr (.inr (.inr rfl)), nofun, fun _ => rfl⟩
  | recv hp =>
    refine ⟨.inr (.inr (.inl ⟨_, rfl⟩)), h.clean, fun hf => ?_⟩
    cases (h.faulted_eq_false (hp ▸ rfl)).symm.trans hf
  | closed hp | idleTimeout hp =>
    rw [hw.idle hp]
    exact ⟨.inr (.inr (.inr rfl)), fun _ => h.clean (h.faulted_eq_false (hp ▸ rfl)), nofun⟩
  | handleOk hp =>
    rw [hw.processing (hp ▸ rfl)]
    exact ⟨.inr (.inl rfl), fun _ => h.clean_snoc (hp ▸ rfl) rfl, nofun⟩
  | handlePanic hp =>
    rw [hw.processing (hp ▸ rfl)]
    exact ⟨.inr (.inr (.inr rfl)), nofun, fun _ => rfl⟩
  | deactivate hp =>
    refine ⟨.inr (.inr (.inr rfl)), fun hf u hu => ?_, fun _ => rfl⟩
    rcases mem_append.mp hu with hu | hu
    · exact h.clean hf u hu
    · exact mem_singleton.mp hu ▸ rfl
  | remove hp => exact ⟨.inr (.inr (.inr rfl)), h.clean, fun _ => rfl⟩
  | spawn _ hr | drain _ hr => rw [hseq] at hr; cases hr
  | acquire hk | runOk hk | runPanic hk | join hk =>
    rw [hw.sequential hseq] at hk
    cases hk
  | drained hp =>
    rcases h.course with ⟨hl, -⟩ | hl | ⟨env, hl⟩ | hl
    all_goals rw [hp] at hl; cases hl

theorem Step.pastLoop (hs : g.Step a e a') (hseq : g.reentrant = false)
    (hw : a.WF g.reentrant) (h : Orderly a) (hf : a'.faulted = false) :
    a.faulted = false ∧
      (a'.phase.pastLoop = a.phase.pastLoop ∨ e = .closed ∨ e = .idleTimeout) := by
  have hin : ∀ {ph}, a.phase = ph → ph.pastLoop = false → a.faulted = false :=
    fun hp hl => h.faulted_eq_false (hp ▸ hl)
  cases hs with
  | activateOk hp =>
    rw [h.activating hp]
    exact ⟨hin hp rfl, .inl (hp ▸ rfl)⟩
  | activatePanic hp =>
    rw [h.activating hp] at hf
    cases hf
  | recv hp => exact ⟨hin hp rfl, .inl (hp ▸ rfl)⟩
  | closed hp => exact ⟨hin hp rfl, .inr (.inl rfl)⟩
  | idleTimeout hp => exact ⟨hin hp rfl, .inr (.inr rfl)⟩
  | handleOk hp =>
    rw [hw.processing (hp ▸ rfl)]
    exact ⟨hin hp rfl, .inl (hp ▸ rfl)⟩
  | handlePanic hp =>
    rw [hw.processing (hp ▸ rfl)] at hf
    cases hf
  | deactivate hp | remove hp => exact ⟨hf, .inl (hp ▸ rfl)⟩
  | spawn _ hr | drain _ hr => rw [hseq] at hr; cases hr
  | acquire hk | runOk hk | runPanic hk | join hk =>
    rw [hw.sequential hseq] at hk
    cases hk
  | drained hp =>
    rcases h.course with ⟨hl, -⟩ | hl | ⟨env, hl⟩ | hl
    all_goals rw [hp] at hl; cases hl

end Grain

/-- The messages a task will still get to : none once its loop has been left. -/
def Task.pending (t : Task S) : List (Envelope S) :=
  if t.aborted || t.act.phase.pastLoop then [] else t.act.held ++ t.queue

def SiloEvent.OfTask (i : ℕ) : SiloEvent S → Prop
  | recv j => j = i
  | mailbox j _ => j = i
  | _ => False

namespace Silo

variable {s s' : Silo S} {e : SiloEvent S} {i : ℕ} {t t' : Task S} {g : Grain S}
  {es : List (SiloEvent S)} {env : Envelope S}

/-- A message accepted by task `i` after it has left its loop. -/
def lateSend (i : ℕ) (s : Silo S) : SiloEvent S → Bool
  | .send j _ => j == i && s.tasks[i]?.any fun t => t.act.phase.pastLoop
  | _ => false

theorem lateSend_of_accepted (h : accepted i [e] = []) : s.lateSend i e = false := by
  cases e with
  | send j env =>
    by_cases hj : j = i
    · simp [accepted, hj] at h
    · simp [lateSend, hj]
  | _ => rfl

theorem lateSend_self (hi : s.tasks[i]? = some t) :
    s.lateSend i (.send i env) = t.act.phase.pastLoop := by
  simp [lateSend, hi]

/-! ## What has become of the accepted messages -/

/-- The account of a task of `run_mailbox` after a run in which it has not faulted. -/
structure Account (m : Shared) (i : ℕ) (es : List (SiloEvent S)) (t : Task S) : Prop where
  ledger : Ledger (accepted i es) t
  orderly : Grain.Orderly t.act
  late : t.act.faulted = false →
    (Along step (fun s e => s.lateSend i e = false) (init m) es ↔
      (t.act.phase.pastLoop = true → t.queue = []))

structure Absent (m : Shared) (i : ℕ) (es : List (SiloEvent S)) : Prop where
  nothing : accepted i es = []
  late : Along step (fun s e => s.lateSend i e = false) (init m) es

variable {m : Shared} {a : Activation S} {ev : MailboxEvent S}

section

variable (hrun : exec step (init m) es = some s)
include hrun

theorem Absent.snoc (h : Absent m i es) (he : accepted i [e] = []) : Absent m i (es ++ [e]) where
  nothing := by
    rw [accepted_snoc, h.nothing, he]
    rfl
  late := (along_snoc_iff hrun).mpr ⟨h.late, lateSend_of_accepted he⟩

theorem Spawned.account (hsp : Spawned s i e t) (hk : t.kind = .plain g) (h : Absent m i es) :
    Account m i (es ++ [e]) t := by
  have hact : t.act = .start .activate .activating g.default := by rw [hsp.act, hk]; rfl
  have habs := h.snoc hrun hsp.accepted
  refine ⟨?_, hact ▸ g.start_orderly, fun _ => ?_⟩
  · rw [habs.nothing]
    exact hsp.ledger
  · rw [hact]
    exact ⟨fun _ => nofun, fun _ => habs.late⟩

theorem TaskStep.account (hs : TaskStep s i e t t') (hi : s.tasks[i]? = some t)
    (hk : t.kind = .plain g) (hseq : g.reentrant = false)
    (h : Account m i es t) : Account m i (es ++ [e]) t' := by
  have hw : t.act.WF g.reentrant := by
    have := h.ledger.sound.wf
    rwa [hk] at this
  have hledger : Ledger (accepted i (es ++ [e])) t' := by
    rw [accepted_snoc]
    refine hs.ledger ?_ h.ledger
    intro k _ j x _ hj
    rw [hw.sequential hseq] at hj
    cases hj
  -- a step that accepts nothing changes the account by what it does to the loop
  have hquiet : accepted i [e] = [] → t.act.faulted = false →
      ((t.act.phase.pastLoop = true → t.queue = []) ↔
        (t'.act.phase.pastLoop = true → t'.queue = [])) →
      (Along step (fun s e => s.lateSend i e = false) (init m) (es ++ [e]) ↔
        (t'.act.phase.pastLoop = true → t'.queue = [])) := by
    intro he hf hiff
    rw [along_snoc_iff hrun, ← hiff, ← h.late hf]
    exact and_iff_left (lateSend_of_accepted he)
  cases hs with
  | kept he hgid hkind hact hq hab =>
    refine ⟨hledger, hact ▸ h.orderly, fun hf => ?_⟩
    rw [hact] at hf
    exact hquiet he.1 hf (by rw [hact, hq])
  | @send env he hrx =>
    refine ⟨hledger, h.orderly, fun hf => ?_⟩
    subst he
    rw [along_snoc_iff hrun, h.late hf, lateSend_self hi]
    cases t.act.phase.pastLoop <;> simp
  | @recv env queue a m' he hq hst =>
    have hgs := (MailboxKind.step_of_plain hk hst).1
    refine ⟨hledger, hgs.orderly hseq hw h.orderly, fun hf => ?_⟩
    obtain ⟨hf₀, -⟩ := hgs.pastLoop hseq hw h.orderly hf
    subst he
    refine hquiet rfl hf₀ ?_
    cases hgs with
    | recv hp => exact iff_of_true (by rw [hp]; nofun) nofun
    | spawn hp hr => rw [hseq] at hr; cases hr
    | drain hp hr => rw [hseq] at hr; cases hr
  | @mailbox ev a m' he hen hst =>
    have hgs := (MailboxKind.step_of_plain hk hst).1
    refine ⟨hledger, hgs.orderly hseq hw h.orderly, fun hf => ?_⟩
    obtain ⟨hf₀, hpast⟩ := hgs.pastLoop hseq hw h.orderly hf
    subst he
    refine hquiet rfl hf₀ ?_
    rcases hpast with hpast | rfl | rfl
    · rw [hpast]
    · have hnil : t.queue = [] := by
        simp only [enabled, Bool.and_eq_true, List.isEmpty_iff] at hen
        exact hen.1.1
      exact iff_of_true (fun _ => hnil) fun _ => hnil
    · have hnil := isEmpty_iff.mp hen
      exact iff_of_true (fun _ => hnil) fun _ => hnil

theorem account_of_run :
    (s.tasks[i]? = none → Absent m i es) ∧
      ∀ t g, s.tasks[i]? = some t → t.kind = .plain g → g.reentrant = false → Account m i es t := by
  refine exec_induction (I := fun es s => (s.tasks[i]? = none → Absent m i es) ∧
    ∀ t g, s.tasks[i]? = some t → t.kind = .plain g → g.reentrant = false →
      Account m i es t) ?_ ?_ hrun
  · refine ⟨fun _ => ⟨rfl, trivial⟩, ?_⟩
    intro t g hi
    simp [init] at hi
  · intro es u e v hu hI hs
    refine ⟨?_, ?_⟩
    · intro hnone
      obtain ⟨hnone', he⟩ := absent_of_step hs hnone
      exact (hI.1 hnone').snoc hu he
    · intro t' g hi hk hseq
      rcases taskStep_of_step hs hi with ⟨t, ht, hts⟩ | hsp
      · have hk' := hts.kind_eq ▸ hk
        exact hts.account hu ht hk' hseq (hI.2 t g ht hk' hseq)
      · exact hsp.account hu hk (hI.1 hsp.absent)

end

/-! ## The task gets to its pending messages -/

def Reaches (i : ℕ) (s : Silo S) (t' : Task S) : Prop :=
  ∃ es s', (∀ e ∈ es, SiloEvent.OfTask i e) ∧ exec step s es = some s' ∧ s'.tasks[i]? = some t'

theorem Reaches.refl (hi : s.tasks[i]? = some t) : Reaches i s t :=
  ⟨[], s, nofun, rfl, hi⟩

theorem Reaches.cons (h : s.step e = some s') (he : e.OfTask i) (hr : Reaches i s' t) :
    Reaches i s t := by
  obtain ⟨es, s₂, hes, hrun, hi⟩ := hr
  refine ⟨e :: es, s₂, ?_, exec_cons_eq_some.mpr ⟨s', h, hrun⟩, hi⟩
  intro e' he'
  rcases mem_cons.mp he' with rfl | he'
  · exact he
  · exact hes e' he'

theorem getElem?_set_task (hi : s.tasks[i]? = some t) (t') : (s.tasks.set i t')[i]? = some t' :=
  getElem?_set_of_lookup hi

theorem mailboxStep_of_step (hab : t.aborted = false)
    (hstep : t.kind.step t.gid t.act s.shared ev = some (a, m)) (queue) :
    s.mailboxStep i t queue ev = some { s with
      activations := s.afterMailbox t.gid ev
      tasks := s.tasks.set i { t with act := a, queue := queue }
      shared := m } := by
  simp [mailboxStep, hab, hstep]

theorem exists_step_mailbox (hi : s.tasks[i]? = some t) (hab : t.aborted = false)
    (hen : s.enabled i t ev = true) (hstep : t.kind.step t.gid t.act s.shared ev = some (a, m)) :
    ∃ s', s.step (.mailbox i ev) = some s' ∧ s'.tasks[i]? = some { t with act := a } := by
  have h : s.step (.mailbox i ev) = s.mailboxStep i t t.queue ev := by simp [step, hi, hen]
  exact ⟨_, h.trans (mailboxStep_of_step hab hstep _), getElem?_set_task hi _⟩

theorem exists_step_recv {queue} (hi : s.tasks[i]? = some t)
    (hab : t.aborted = false) (hq : t.queue = env :: queue)
    (hstep : t.kind.step t.gid t.act s.shared (.recv env) = some (a, m)) :
    ∃ s', s.step (.recv i) = some s' ∧ s'.tasks[i]? = some { t with act := a, queue := queue } := by
  have h : s.step (.recv i) = s.mailboxStep i t queue (.recv env) := by simp [step, hi, hq]
  exact ⟨_, h.trans (mailboxStep_of_step hab hstep _), getElem?_set_task hi _⟩

theorem step_plain (hk : t.kind = .plain g) (hseq : g.reentrant = false)
    (h : g.mailboxStep t.act ev = some a) :
    t.kind.step t.gid t.act s.shared ev = some (a, s.shared) := by
  rw [hk]
  simp [MailboxKind.step, hseq, h]

theorem exists_step_handle (hi : s.tasks[i]? = some t) (hk : t.kind = .plain g)
    (hseq : g.reentrant = false) (hab : t.aborted = false) (hw : t.act.WF g.reentrant)
    (hp : t.act.phase = .handling env) :
    ∃ s' a, s.step (.mailbox i .handle) = some s' ∧ s'.tasks[i]? = some { t with act := a } ∧
      (a.faulted = true ∨ a.phase = .loop ∧ a.WF g.reentrant ∧
        a.completed = t.act.completed ++ [env]) := by
  have hfsm := hw.processing (hp ▸ rfl)
  cases hs : env.handleFn t.act.state with
  | ok x =>
    have hst : g.mailboxStep t.act .handle =
        some ((t.act.complete env x).settle (t.act.fsm.next .handlerCompleted)) := by
      simp [Grain.mailboxStep, Grain.advance, Grain.fed, hp, hs]
    obtain ⟨s', hs', hi'⟩ := exists_step_mailbox hi hab rfl (step_plain hk hseq hst)
    refine ⟨s', _, hs', hi', .inr ⟨by rw [hfsm]; rfl, ?_, ?_⟩⟩
    · exact (Grain.mailboxStep_sound hseq hst).wf hw
    · simp [completed, settle, complete, record]
  | panicked x =>
    have hst : g.mailboxStep t.act .handle =
        some ((t.act.record (.panicked env) x).settle (t.act.fsm.next .handlerPanicked)) := by
      simp [Grain.mailboxStep, Grain.advance, Grain.fed, hp, hs]
    obtain ⟨s', hs', hi'⟩ := exists_step_mailbox hi hab rfl (step_plain hk hseq hst)
    exact ⟨s', _, hs', hi', .inl (hfsm ▸ rfl)⟩

theorem reaches_of_loop (hseq : g.reentrant = false) (queue) :
    ∀ {s t}, s.tasks[i]? = some t → t.kind = .plain g → t.aborted = false →
      t.act.WF g.reentrant → t.act.phase = .loop → t.queue = queue →
      ∃ t', Reaches i s t' ∧
        (t'.act.faulted = true ∨ t'.act.completed = t.act.completed ++ queue) := by
  induction queue with
  | nil =>
    intro s t hi _ _ _ _ _
    exact ⟨t, .refl hi, .inr (append_nil _).symm⟩
  | cons env queue ih =>
    intro s t hi hk hab hw hp hq
    have hs : g.mailboxStep t.act (.recv env) = some { t.act with
        phase := .handling env, fsm := t.act.fsm.next .messageReceived } := by
      simp [Grain.mailboxStep, Grain.advance, Grain.fed, hp]
    obtain ⟨s₁, hs₁, hi₁⟩ := exists_step_recv hi hab hq (step_plain hk hseq hs)
    obtain ⟨s₂, a, hs₂, hi₂, ha⟩ := exists_step_handle hi₁ hk hseq hab
      ((Grain.mailboxStep_sound hseq hs).wf hw) rfl
    rcases ha with hf | ⟨hpl, hwf, hc⟩
    · exact ⟨_, .cons hs₁ rfl (.cons hs₂ rfl (.refl hi₂)), .inl hf⟩
    · obtain ⟨t', hr, ht'⟩ := ih hi₂ hk hab hwf hpl rfl
      refine ⟨t', .cons hs₁ rfl (.cons hs₂ rfl hr), ht'.imp id fun h => ?_⟩
      have hc' := hc
      rw [h, hc', append_assoc]
      rfl

theorem reaches_pending (hi : s.tasks[i]? = some t) (hk : t.kind = .plain g)
    (hseq : g.reentrant = false) (hab : t.aborted = false) (hw : t.act.WF g.reentrant)
    (ho : Grain.Orderly t.act) :
    ∃ t', Reaches i s t' ∧
      (t'.act.faulted = true ∨ t'.act.completed = t.act.completed ++ t.pending) := by
  have hn := hw.sequential hseq
  rcases ho.course with ⟨hp, hfsm⟩ | hp | ⟨env, hp⟩ | hp
  · have hpend : t.pending = t.queue := by
      simp [Task.pending, hab, hp, pastLoop, held, inHand, hn]
    rw [hpend]
    cases hs : g.onActivate t.act.state with
    | ok x =>
      have hst : g.mailboxStep t.act (.onActivate 0) =
          some ((t.act.record .activate x).settle (t.act.fsm.next .activateSucceeded)) := by
        simp [Grain.mailboxStep, Grain.advance, Grain.fed, hp, hs]
      obtain ⟨s₁, hs₁, hi₁⟩ := exists_step_mailbox hi hab rfl (step_plain hk hseq hst)
      obtain ⟨t', hr, ht'⟩ := reaches_of_loop hseq t.queue hi₁ hk hab
        ((Grain.mailboxStep_sound hseq hst).wf hw) (hfsm ▸ rfl) rfl
      refine ⟨t', .cons hs₁ rfl hr, ht'.imp id fun h => ?_⟩
      rw [h]
      simp [completed, settle, record]
    | panicked x =>
      have hst : g.mailboxStep t.act (.onActivate 0) =
          some ((t.act.record .activate x).settle (t.act.fsm.next .activateFailed)) := by
        simp [Grain.mailboxStep, Grain.advance, Grain.fed, hp, hs]
      obtain ⟨s₁, hs₁, hi₁⟩ := exists_step_mailbox hi hab rfl (step_plain hk hseq hst)
      exact ⟨_, .cons hs₁ rfl (.refl hi₁), .inl (hfsm ▸ rfl)⟩
  · have hpend : t.pending = t.queue := by
      simp [Task.pending, hab, hp, pastLoop, held, inHand, hn]
    rw [hpend]
    exact reaches_of_loop hseq t.queue hi hk hab hw hp rfl
  · have hpend : t.pending = env :: t.queue := by
      simp [Task.pending, hab, hp, pastLoop, held, inHand, hn]
    rw [hpend]
    obtain ⟨s₁, a, hs₁, hi₁, ha⟩ := exists_step_handle hi hk hseq hab hw hp
    rcases ha with hf | ⟨hpl, hwf, hc⟩
    · exact ⟨_, .cons hs₁ rfl (.refl hi₁), .inl hf⟩
    · obtain ⟨t', hr, ht'⟩ := reaches_of_loop hseq t.queue hi₁ hk hab hwf hpl rfl
      refine ⟨t', .cons hs₁ rfl hr, ht'.imp id fun h => ?_⟩
      rw [h, hc, append_assoc]
      rfl
  · refine ⟨t, .refl hi, .inr ?_⟩
    simp [Task.pending, hp]

/-! ## No accepted message is lost before the loop is left -/

/-- For a task that neither faulted nor was aborted, the accepted messages are those completed and
those still to come, each once and in order, exactly when none was accepted after the loop. -/
theorem accepted_handled_iff (m : Shared) (es : List (SiloEvent S)) (s : Silo S) (i : ℕ)
    (t : Task S) (g : Grain S) (hrun : exec step (init m) es = some s)
    (hi : s.tasks[i]? = some t) (hk : t.kind = .plain g) (hseq : g.reentrant = false)
    (hab : t.aborted = false) (hf : t.act.faulted = false) :
    (accepted i es = t.act.completed ++ t.pending ↔
      Along step (fun s e => s.lateSend i e = false) (init m) es) ∧
    ∃ es' s' t', (∀ e ∈ es', SiloEvent.OfTask i e) ∧ exec step s es' = some s' ∧
      s'.tasks[i]? = some t' ∧
      (t'.act.faulted = true ∨ t'.act.completed = t.act.completed ++ t.pending) := by
  have h := (account_of_run hrun).2 t g hi hk hseq
  have hw : t.act.WF g.reentrant := by
    have := h.ledger.sound.wf
    rwa [hk] at this
  refine ⟨?_, ?_⟩
  · rw [h.late hf, h.ledger.accepted, h.orderly.completed_eq_ran hf, append_assoc,
      append_cancel_left_eq]
    cases hp : t.act.phase.pastLoop with
    | false => simp [Task.pending, hab, hp]
    | true =>
      have hheld : t.act.held = [] := by
        rw [held, hw.sequential hseq]
        cases hph : t.act.phase <;> first | rfl | (rw [hph] at hp; cases hp)
      simp [Task.pending, hp, hheld]
  · obtain ⟨t', ⟨es', s', hes', hrun', hi'⟩, ht'⟩ :=
      reaches_pending hi hk hseq hab hw h.orderly
    exact ⟨es', s', t', hes', hrun', hi', ht'⟩

def plainCounter : Grain UInt8 where
  default := 0
  onActivate := .ok
  onDeactivate := .ok
  reentrant := false

/-- A call activates the counter, and one message is accepted in its loop. -/
def inTime : List (SiloEvent UInt8) :=
  [.getOrInsert ⟨"Counter", "k"⟩ (.plain plainCounter), .checkLimit 0, .enter 0,
    .mailbox 0 (.onActivate 0), .send 0 (addMessage 5), .recv 0, .mailbox 0 .handle,
    .mailbox 0 .idleTimeout, .mailbox 0 .onDeactivate, .mailbox 0 .remove]

/-- The counter times out first, and the message is accepted during `on_deactivate`. -/
def tooLate : List (SiloEvent UInt8) :=
  [.getOrInsert ⟨"Counter", "k"⟩ (.plain plainCounter), .checkLimit 0, .enter 0,
    .mailbox 0 (.onActivate 0), .mailbox 0 .idleTimeout, .send 0 (addMessage 5),
    .mailbox 0 .onDeactivate, .mailbox 0 .remove]

theorem accepted_handled_iff_in_time :
    ∃ s t, exec step (init Shared.empty) inTime = some s ∧ s.tasks[0]? = some t ∧
      accepted 0 inTime = t.act.completed ++ t.pending := by
  obtain ⟨s, t, hrun, hi, hk, hab, hf⟩ : ∃ s t,
      exec step (init Shared.empty) inTime = some s ∧ s.tasks[0]? = some t ∧
        t.kind = .plain plainCounter ∧ t.aborted = false ∧ t.act.faulted = false :=
    ⟨_, _, rfl, rfl, rfl, rfl, rfl⟩
  refine ⟨s, t, hrun, hi, ?_⟩
  exact (accepted_handled_iff _ inTime s 0 t plainCounter hrun hi hk rfl hab hf).1.mpr
    (by decide +kernel)

/-- The task has ended without a fault, the message was accepted, and no handler ran. -/
theorem accepted_and_lost :
    ∃ s t, exec step (init Shared.empty) tooLate = some s ∧ s.tasks[0]? = some t ∧
      t.kind = .plain plainCounter ∧ t.aborted = false ∧ t.act.faulted = false ∧
      t.act.phase = .ended ∧ accepted 0 tooLate = [addMessage 5] ∧ t.act.completed = [] ∧
      t.pending = [] :=
  ⟨_, _, rfl, rfl, rfl, rfl, rfl, rfl, rfl, rfl, rfl⟩

end Silo

end Orlando
