import Orlando.StoredPrefix

/-!
# A sequential task in its loop

A step of a persistent task that is not reentrant takes a message, runs the handler of the one in
hand, or leaves both alone (`Step.apart`). Without a panic, a failing save or the end of its mailbox
the task does not drop its receiver (`Step.receiving`), and it gets back to its loop
(`exists_step`).
-/

namespace Orlando

open Activation ActivationState Phase

variable {S : Type} {ph : Phase S}

def Phase.receiving : Phase S → Bool
  | load _ | loadVersion | loadState _ | activate => true
  | loop | handling _ | persist | flush _ | publish _ => true
  | _ => false

/-- The steps that take a message or run its handler. -/
def MailboxEvent.ofMessage : MailboxEvent S → Bool
  | recv _ | handle => true
  | _ => false

theorem Phase.receiving_of_starting (h : ph.stage = .starting) : ph.receiving = true := by
  cases ph <;> first | rfl | cases h

theorem Phase.handling_of_busy (h : ph.stage = .busy) : ∃ env, ph = .handling env := by
  cases ph with
  | handling env => exact ⟨env, rfl⟩
  | _ => cases h

/-- A step from `a` to `a'` that is taken between two messages. -/
structure Activation.Apart (a a' : Activation S) : Prop where
  before : a.phase.stage ≠ .busy
  after : a'.phase.stage ≠ .busy
  loaded : a'.loaded = a.loaded ∨ a.phase.stage = .starting
  receiving : a'.phase.receiving = true → a.phase.receiving = true

namespace PersistentArgs

variable (p : PersistentArgs S)

def begun (a : Activation S) : S :=
  (p.grain.onActivate a.loaded).state

def Enters : Phase S → Prop
  | .load _ => ∃ replicated, p.entry = .run replicated
  | .loadVersion | .loadState _ => ∃ V, p.entry = .runVersioned V
  | _ => True

variable {p} {gid : GrainId} {a a' : Activation S} {m m' : Shared} {e : MailboxEvent S}

theorem LoadFails.enters {fault ph} (h : p.LoadFails gid m fault ph) : p.Enters ph := by
  cases ph with
  | load =>
    obtain ⟨replicated, -, he, -⟩ := h
    exact ⟨replicated, he⟩
  | loadVersion | loadState =>
    obtain ⟨V, -, he, -⟩ := h
    exact ⟨V, he⟩
  | _ => exact h.elim

theorem Step.enters (hs : p.Step gid a m e a' m') (h : p.Enters a.phase) : p.Enters a'.phase := by
  cases hs with
  | loadRetry hp hf => exact (hp ▸ hf.enters :)
  | loadTag _ he => exact ⟨_, he⟩
  | closed | idleTimeout | handlePanic | skip | replicate | serializeFailed | flush | flushRefused
  | publish => exact phase_settle (P := p.Enters) True.intro True.intro True.intro _ _
  | spawn | acquire | runOk | runPanic | release | handlerSave | handlerSaveRefused | handlerSend
  | join => exact h
  | _ => exact True.intro

theorem run_enters {m₀ es}
    (hrun : exec (p.transition gid) (p.start, m₀) es = some (a, m)) : p.Enters a.phase := by
  have hstart : p.Enters p.start.phase := by
    unfold start
    cases he : p.entry with
    | run replicated => exact ⟨replicated, he⟩
    | runVersioned V => exact ⟨V, he⟩
  exact exec_invariant_of_step (I := fun s => p.Enters s.1.phase)
    (fun _ _ _ hI hstep => (step_sound hstep).enters hI) hstart hrun

theorem Step.apart (hs : p.Step gid a m e a' m') (hw : a.WF p.grain.reentrant)
    (hseq : p.grain.reentrant = false) (he : e.ofMessage = false) : a.Apart a' := by
  have hload : a.phase.stage = .starting → a'.phase.stage ≠ .busy → a.Apart a' := fun hst hb' =>
    ⟨by rw [hst]; nofun, hb', Or.inr hst, fun _ => receiving_of_starting hst⟩
  have hloop : ∀ {ph}, a.phase = ph → ph.stage ≠ .busy → ph.receiving = true →
      a'.phase.stage ≠ .busy → a'.loaded = a.loaded → a.Apart a' :=
    fun hp hb hr hb' hl => ⟨hp ▸ hb, hb', Or.inl hl, fun _ => hp ▸ hr⟩
  have hleft : ∀ {ph}, a.phase = ph → ph.stage ≠ .busy → a'.phase.receiving = false →
      a'.phase.stage ≠ .busy → a'.loaded = a.loaded → a.Apart a' :=
    fun hp hb hr hb' hl => ⟨hp ▸ hb, hb', Or.inl hl, fun hn => by rw [hr] at hn; cases hn⟩
  have hsettle : ∀ (b : Activation S) (fsm : ActivationState), (b.settle fsm).phase.stage ≠ .busy :=
    phase_settle (P := fun ph => ph.stage ≠ .busy) nofun nofun nofun
  cases hs with
  | loadRetry hp | loadTag hp | loadRun hp | loadVersioned hp => exact hload (hp ▸ rfl) nofun
  | loadFailed hp => exact hload (starting_of_loading hp) nofun
  | activateOk hp | activatePanic hp | write hp | flushReplicated hp =>
    exact hloop hp nofun rfl nofun rfl
  | closed hp | idleTimeout hp | skip hp | replicate hp | serializeFailed hp | flush hp =>
    exact hloop hp nofun rfl (hsettle _ _) rfl
  | flushRefused hp | publish hp => exact hloop hp nofun rfl (hsettle _ _) rfl
  | recv | handleOk | handlePanic => cases he
  | spawn hp hr | drain hp hr => rw [hseq] at hr; cases hr
  | acquire hk | runOk hk | runPanic hk | release hk | handlerSave hk | handlerSaveRefused hk
  | handlerSend hk | join hk => exact (no_handler hw hseq hk).elim
  | _ hp => exact hleft hp nofun rfl nofun rfl

end PersistentArgs

/-- The step ends no loop : the mailbox is neither closed nor idle for too long, and no save
fails. -/
def MailboxEvent.steady : MailboxEvent S → Bool
  | closed | idleTimeout => false
  | save fault => fault.isNone
  | _ => true

/-- A bound on the steps to the end of a round of the loop. -/
def Phase.toGo : Phase S → ℕ
  | load n => 7 + (3 - n)
  | loadVersion => 8
  | loadState _ => 7
  | activate => 6
  | loop => 5
  | handling _ => 4
  | persist => 8
  | flush _ => 7
  | publish _ => 6
  | _ => 0

namespace PersistentArgs

variable {p : PersistentArgs S} {gid : GrainId} {a a' : Activation S} {m m' : Shared}
  {e : MailboxEvent S}

/-- Without a panic or a failing save a sequential task stays in its loop. -/
theorem Step.receiving (hs : p.Step gid a m e a' m') (hw : a.WF p.grain.reentrant)
    (hseq : p.grain.reentrant = false) (he : e.steady = true)
    (hact : ∀ s, (p.grain.onActivate s).returned = true)
    (hser : ∀ s, ∃ bytes, p.serializer.serialize s = .ok bytes)
    (hpanic : ∀ env s, a.phase = .handling env → env.handleFn a.state ≠ .panicked s)
    (hr : a.phase.receiving = true) : a'.phase.receiving = true := by
  cases hs with
  | loadRetry | loadTag | loadRun | loadVersioned | loadFailed | activateOk | recv => rfl
  | handleOk | write | flushReplicated => rfl
  | activatePanic hp hs =>
    have := hact a.state
    rw [hs] at this
    cases this
  | handlePanic hp hs => exact absurd hs (hpanic _ _ hp)
  | serializeFailed hp hb =>
    obtain ⟨bytes, hok⟩ := hser a.state
    rw [hb] at hok
    cases hok
  | skip hp | replicate hp | flush hp | publish hp =>
    rw [hw.processing (hp ▸ rfl)]
    rfl
  | closed | idleTimeout | flushRefused | saveRetry | saveGivenUp | tagRefused => cases he
  | spawn hp hn | drain hp hn => rw [hseq] at hn; cases hn
  | acquire hk | runOk hk | runPanic hk | release hk | handlerSave hk | handlerSaveRefused hk
  | handlerSend hk | join hk => exact (no_handler hw hseq hk).elim
  | _ hp =>
    rw [hp] at hr
    cases hr

theorem exists_loadStep (gid m) (hent : p.Enters a.phase) (hl : a.phase.loading = true) :
    ∃ a', p.loadStep gid a m none = some a' ∧ a'.phase.toGo < a.phase.toGo := by
  unfold loadStep
  split
  · rename_i n replicated hp he
    rw [hp]
    split
    · exact ⟨_, rfl, by simp only [begin, toGo]; omega⟩
    · split
      · exact ⟨_, rfl, by simp only [toGo]; omega⟩
      · exact ⟨_, rfl, by simp only [beginDefault, begin, toGo]; omega⟩
  · rename_i V hp he
    rw [hp]
    split
    · exact ⟨_, rfl, by simp [toGo]⟩
    · exact ⟨_, rfl, by simp [beginDefault, begin, toGo]⟩
  · rename_i v V hp he
    rw [hp]
    split
    · exact ⟨_, rfl, by simp [begin, toGo]⟩
    · exact ⟨_, rfl, by simp [beginDefault, begin, toGo]⟩
  · rename_i hrun hversion hstate
    exfalso
    cases hp : a.phase with
    | load n =>
      obtain ⟨replicated, he⟩ : ∃ r, p.entry = .run r := by rwa [hp] at hent
      exact hrun n replicated hp he
    | loadVersion =>
      obtain ⟨V, he⟩ : ∃ V, p.entry = .runVersioned V := by rwa [hp] at hent
      exact hversion V hp he
    | loadState v =>
      obtain ⟨V, he⟩ : ∃ V, p.entry = .runVersioned V := by rwa [hp] at hent
      exact hstate v V hp he
    | _ => rw [hp] at hl; cases hl

theorem exists_step (gid m) (hw : a.WF p.grain.reentrant)
    (hent : p.Enters a.phase) (hact : ∀ s, (p.grain.onActivate s).returned = true)
    (hser : ∀ s, ∃ bytes, p.serializer.serialize s = .ok bytes) (hr : a.phase.receiving = true)
    (hl : a.phase ≠ .loop) (hb : a.phase.stage ≠ .busy) :
    ∃ e a' m', p.step gid a m e = some (a', m') ∧ e.ofMessage = false ∧ e.steady = true ∧
      a'.phase.toGo < a.phase.toGo := by
  by_cases hload : a.phase.loading = true
  · obtain ⟨a', ha', hlt⟩ := exists_loadStep gid m hent hload
    exact ⟨.load none, a', m, by rw [step, ha']; rfl, rfl, rfl, hlt⟩
  cases hp : a.phase with
  | activate =>
    obtain ⟨s, hs⟩ := Outcome.exists_ok (hact a.state)
    have hst : p.step gid a m (.onActivate 0) = some
        ({ a.record .activate s with phase := .loop, fsm := .idle, lastSave := 0 }, m) := by
      simp only [step, hp, hs]
    exact ⟨_, _, _, hst, rfl, rfl, by simp [toGo]⟩
  | persist =>
    have hfsm := hw.processing (hp ▸ rfl)
    refine ⟨.prepare 0 false, (p.prepareStep gid a m 0 false).1, (p.prepareStep gid a m 0 false).2,
      by simp only [step, hp], rfl, rfl, ?_⟩
    unfold prepareStep
    rcases p.preparePersist_cases a.state a.lastSave 0 with
      ⟨t, hplan, -⟩ | ⟨t, bytes, hplan, -⟩ | ⟨t, err, -, hb⟩ | ⟨t, bytes, hplan, -⟩
    · rw [hplan]
      simp [hfsm, settle, toGo, next]
    · rw [hplan]
      simp [hfsm, settle, toGo, next]
    · obtain ⟨bytes, hok⟩ := hser a.state
      rw [hb] at hok
      cases hok
    · rw [hplan]
      simp [toGo]
  | flush bytes =>
    have hfsm := hw.processing (hp ▸ rfl)
    cases hrep : p.replicated with
    | true =>
      have hst : p.step gid a m (.save none) = some
          ({ a with saved := a.saved ++ [a.turns.length], phase := .publish bytes },
            m.save gid bytes) := by
        simp [step, saveStep, hp, hrep]
      exact ⟨_, _, _, hst, rfl, rfl, by simp [toGo]⟩
    | false =>
      have hst : p.step gid a m (.save none) = some
          ({ a with saved := a.saved ++ [a.turns.length] }.settle
            ((a.fsm.next .persistStarted).next .persistSucceeded), m.save gid bytes) := by
        simp [step, saveStep, hp, hrep]
      refine ⟨_, _, _, hst, rfl, rfl, ?_⟩
      simp [hfsm, settle, toGo, next]
  | publish bytes =>
    have hfsm := hw.processing (hp ▸ rfl)
    have hst : p.step gid a m (.send false) = some
        (a.settle ((a.fsm.next .persistStarted).next .persistSucceeded),
          m.publish gid bytes false) := by
      simp only [step, sendStep, hp]
    refine ⟨_, _, _, hst, rfl, rfl, ?_⟩
    simp [hfsm, settle, toGo, next]
  | loop => exact absurd hp hl
  | handling env => exact absurd (hp ▸ rfl) hb
  | load | loadVersion | loadState => simp [hp, loading] at hload
  | _ => rw [hp] at hr; cases hr

end PersistentArgs

end Orlando
