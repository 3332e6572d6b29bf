import Orlando.WriteOrder

/-!
# What the store of a sequential grain holds

One activation of a grain that is not reentrant, from its load to its last save. `Script` says at
each control point which turns the task has taken.
-/

namespace Orlando

open Activation List Phase

variable {S : Type} {ph : Phase S}

/-- The messages taken from the mailbox along a run. -/
def received (es : List (MailboxEvent S)) : List (Envelope S) :=
  es.filterMap fun
    | .recv env => some env
    | _ => none

def reached (g : Grain S) (s : S) (envs : List (Envelope S)) : S :=
  envs.foldl (fun s env => (env.handleFn s).state) (g.onActivate s).state

theorem replay_handled (g) (s : S) (envs) :
    replay g s (.activate :: envs.map .handled) = reached g s envs := by
  simp [replay, reached, foldl_map, Turn.apply]

def Activation.completed (a : Activation S) : List (Envelope S) :=
  a.turns.filterMap fun
    | .handled env => some env
    | _ => none

inductive Stage where
  | starting
  /-- In the loop, and up to `on_deactivate`, with every message received handled. -/
  | between
  | busy
  | closing
  | leaving
  | draining
deriving DecidableEq

def Phase.stage : Phase S → Stage
  | load _ => .starting
  | loadVersion => .starting
  | loadState _ => .starting
  | activate => .starting
  | loop => .between
  | handling _ => .busy
  | persist => .between
  | flush _ => .between
  | publish _ => .between
  | drain => .draining
  | deactivate => .between
  | serialize => .closing
  | save _ _ => .closing
  | finalPublish _ => .closing
  | saveVersion => .closing
  | remove => .leaving
  | ended => .leaving

/-- The loop waits for a message, or has only the sink to serve before it does. -/
def Phase.waiting : Phase S → Bool
  | loop => true
  | publish _ => true
  | _ => false

theorem Phase.starting_of_loading (h : ph.loading = true) : ph.stage = .starting := by
  cases ph <;> first | rfl | cases h

theorem Phase.inLoop_of_leaving (h : ph.stage = .leaving) : ph.inLoop = false := by
  cases ph <;> first | rfl | cases h

theorem Phase.stage_of_snapshot {replicated n t}
    (h : ph.snapshot replicated n = some t) : ph.stage = .between ∨ ph.stage = .closing := by
  cases ph <;> first | exact .inl rfl | exact .inr rfl | cases h

/-! ## The turns of a sequential task -/

/-- At a control point, the turns taken and the messages received. -/
inductive Script (ph : Phase S) : List (Turn S) → List (Envelope S) → Prop
  | start (h : ph.stage = .starting) : Script ph [] []
  | between {envs} (h : ph.stage = .between ∨ ph.stage = .leaving) :
    Script ph (.activate :: envs.map .handled) envs
  | busy {env envs} (h : ph = .handling env) :
    Script ph (.activate :: envs.map .handled) (envs ++ [env])
  | faulted {env envs} (h : ph.stage = .leaving) :
    Script ph (.activate :: (envs.map .handled ++ [.panicked env])) (envs ++ [env])
  | closing {envs} (h : ph.stage = .closing ∨ ph.stage = .leaving) :
    Script ph (.activate :: (envs.map .handled ++ [.deactivate])) envs

variable {rs : List (Envelope S)}

namespace Script

variable {ph ph' : Phase S} {ts : List (Turn S)}

section

variable (h : Script ph ts rs)
include h

theorem of_starting (hph : ph.stage = .starting) : ts = [] ∧ rs = [] := by
  cases h with
  | start => exact ⟨rfl, rfl⟩
  | between h | closing h => simp [hph] at h
  | busy h => simp [h, stage] at hph
  | faulted h => simp [hph] at h

theorem of_between (hph : ph.stage = .between) : ts = .activate :: rs.map .handled := by
  cases h with
  | between => rfl
  | busy h => simp [h, stage] at hph
  | start h | faulted h | closing h => simp [hph] at h

theorem of_handling {env} (hph : ph = .handling env) :
    ∃ envs, rs = envs ++ [env] ∧ ts = .activate :: envs.map .handled := by
  subst hph
  cases h with
  | busy h =>
    obtain rfl := handling.inj h
    exact ⟨_, rfl, rfl⟩
  | start h | faulted h | between h | closing h => simp [stage] at h

theorem of_closing (hph : ph.stage = .closing) :
    ts = .activate :: (rs.map .handled ++ [.deactivate]) := by
  cases h with
  | closing => rfl
  | busy h => simp [h, stage] at hph
  | start h | faulted h | between h => simp [hph] at h

theorem leave (hph : ph.stage = .leaving) (hph' : ph'.stage = .leaving) : Script ph' ts rs := by
  cases h with
  | start h => simp [hph] at h
  | between => exact .between (.inr hph')
  | busy h => simp [h, stage] at hph
  | faulted => exact .faulted hph'
  | closing => exact .closing (.inr hph')

theorem not_draining : ph.stage ≠ .draining := by
  intro hph
  cases h with
  | busy h => simp [h, stage] at hph
  | start h | faulted h | between h | closing h => simp [hph] at h

theorem completed_of_snapshot {replicated n t}
    (hs : ph.snapshot replicated n = some t) : 1 ≤ ts.length ∧ ∀ u ∈ ts, u.completed = true := by
  rcases stage_of_snapshot hs with hph | hph
  · rw [h.of_between hph]
    simp [Turn.completed]
  · rw [h.of_closing hph]
    refine ⟨by simp, ?_⟩
    intro u hu
    simp only [mem_cons, mem_append, mem_map, not_mem_nil, or_false] at hu
    rcases hu with rfl | ⟨env, -, rfl⟩ | rfl <;> rfl

theorem shape : ts = [] ∨ ∃ envs tail, ts = .activate :: (envs.map .handled ++ tail) ∧ envs <+: rs ∧
      (tail = [] ∨ tail = [.deactivate] ∨ ∃ env, tail = [.panicked env]) := by
  cases h with
  | start => exact .inl rfl
  | between => exact .inr ⟨rs, [], by simp, prefix_rfl, .inl rfl⟩
  | busy => exact .inr ⟨_, [], by simp, prefix_append _ _, .inl rfl⟩
  | faulted => exact .inr ⟨_, _, rfl, prefix_append _ _, .inr (.inr ⟨_, rfl⟩)⟩
  | closing => exact .inr ⟨rs, _, rfl, prefix_rfl, .inr (.inl rfl)⟩

end

end Script

namespace PersistentArgs

variable {p : PersistentArgs S} {gid : GrainId} {a a' : Activation S} {m m' : Shared}
  {e : MailboxEvent S} {old : List Bytes} {es : List (MailboxEvent S)}

theorem no_handler (hw : a.WF p.grain.reentrant) (hseq : p.grain.reentrant = false) {k : ℕ}
    {h} (hk : a.handlers[k]? = some h) : False := by
  rw [hw.sequential hseq] at hk
  cases hk

theorem Step.script (hs : p.Step gid a m e a' m') (hw : a.WF p.grain.reentrant)
    (hseq : p.grain.reentrant = false) (h : Script a.phase a.turns rs) :
    Script a'.phase a'.turns (rs ++ received [e]) := by
  have hquiet : received [e] = [] → Script a'.phase a'.turns rs →
      Script a'.phase a'.turns (rs ++ received [e]) := by
    intro he h'
    rw [he, append_nil]
    exact h'
  -- `on_activate` is the first turn
  have hactivate : ∀ {s}, a.phase = .activate → (a.record .activate s).turns =
      .activate :: ([] : List (Envelope S)).map .handled ∧ rs = [] := by
    intro s hp
    obtain ⟨hts, hrs⟩ := h.of_starting (hp ▸ rfl)
    exact ⟨by simp [record, hts], hrs⟩
  have hbetween : ∀ {ph}, a.phase = ph → ph.stage = .between → a'.turns = a.turns →
      a'.phase.stage = .between ∨ a'.phase.stage = .leaving → Script a'.phase a'.turns rs := by
    intro ph hp hc ht hc'
    rw [ht, h.of_between (hp ▸ hc)]
    exact .between hc'
  have hclosing : ∀ {ph}, a.phase = ph → ph.stage = .closing → a'.turns = a.turns →
      a'.phase.stage = .closing ∨ a'.phase.stage = .leaving → Script a'.phase a'.turns rs := by
    intro ph hp hc ht hc'
    rw [ht, h.of_closing (hp ▸ hc)]
    exact .closing hc'
  have hsettle : ∀ (b : Activation S) (fsm : ActivationState),
      (b.settle fsm).phase.stage = .between ∨ (b.settle fsm).phase.stage = .leaving :=
    phase_settle (P := fun ph => ph.stage = .between ∨ ph.stage = .leaving)
      (.inl rfl) (.inr rfl) (.inl rfl)
  cases hs with
  | loadRetry hp | loadTag hp | loadRun hp | loadVersioned hp =>
    obtain ⟨hts, rfl⟩ := h.of_starting (hp ▸ rfl)
    exact hquiet rfl (hts ▸ .start rfl)
  | loadFailed hp =>
    obtain ⟨hts, rfl⟩ := h.of_starting (starting_of_loading hp)
    exact hquiet rfl (hts ▸ .start rfl)
  | @activateOk _ s hp | @activatePanic _ s hp =>
    obtain ⟨hts, rfl⟩ := hactivate (s := s) hp
    exact hquiet rfl (hts ▸ .between (by simp [stage]))
  | recv hp =>
    have hts := h.of_between (hp ▸ rfl)
    exact hts ▸ .busy rfl
  | closed hp | idleTimeout hp | skip hp | replicate hp | serializeFailed hp | flush hp =>
    exact hquiet rfl (hbetween hp rfl rfl (hsettle _ _))
  | flushRefused hp | publish hp => exact hquiet rfl (hbetween hp rfl rfl (hsettle _ _))
  | write hp | flushReplicated hp => exact hquiet rfl (hbetween hp rfl rfl (.inl rfl))
  | @handleOk env s hp hs =>
    obtain ⟨envs, rfl, hts⟩ := h.of_handling hp
    refine hquiet rfl ?_
    have hts' : (a.complete env s).turns = .activate :: (envs ++ [env]).map .handled := by
      simp [complete, record, hts]
    exact hts' ▸ .between (.inl rfl)
  | @handlePanic env s hp hs =>
    have hfsm := hw.processing (hp ▸ rfl)
    obtain ⟨envs, rfl, hts⟩ := h.of_handling hp
    refine hquiet rfl ?_
    have hts' : (a.record (.panicked env) s).turns =
        .activate :: (envs.map .handled ++ [.panicked env]) := by
      simp [record, hts]
    rw [hfsm]
    exact hts' ▸ .faulted rfl
  | deactivate hp =>
    have hts := h.of_between (hp ▸ rfl)
    refine hquiet rfl ?_
    have hts' : (a.record .deactivate (p.grain.onDeactivate a.state).state).turns =
        .activate :: (rs.map .handled ++ [.deactivate]) := by
      simp [record, hts]
    exact hts' ▸ .closing (.inl rfl)
  | serialize hp | saveReplicated hp | saveVersioned hp | saveRetry hp =>
    exact hquiet rfl (hclosing hp rfl rfl (.inl rfl))
  | serializeRefused hp | save hp | saveGivenUp hp | finalPublish hp | tag hp | tagRefused hp =>
    exact hquiet rfl (hclosing hp rfl rfl (.inr rfl))
  | remove hp => exact hquiet rfl (h.leave (hp ▸ rfl) rfl)
  | spawn hp hr | drain hp hr => rw [hseq] at hr; cases hr
  | drained hp => exact absurd (hp ▸ rfl) h.not_draining
  | acquire hk | runOk hk | runPanic hk | release hk => exact (no_handler hw hseq hk).elim
  | handlerSave hk | handlerSaveRefused hk | handlerSend hk | join hk =>
    exact (no_handler hw hseq hk).elim

/-! ## Saves and their prefixes -/

variable (p) in
/-- `bytes` encodes the state that `on_activate` and the first `n` completed messages lead
to, or the one `on_deactivate` leaves after all of them. -/
def EncodesPrefix (a : Activation S) (n : ℕ) (bytes : Bytes) : Prop :=
  n ≤ a.completed.length ∧
    (p.serializer.serialize (reached p.grain a.loaded (a.completed.take n)) = .ok bytes ∨
      Turn.deactivate ∈ a.turns ∧ n = a.completed.length ∧
        p.serializer.serialize
          (p.grain.onDeactivate (reached p.grain a.loaded a.completed)).state = .ok bytes)

/-- Every save made so far was of completed turns, `on_activate` among them. -/
def SavesCompleted (a : Activation S) : Prop :=
  ∀ n ∈ a.saved, 1 ≤ n ∧ n ≤ a.turns.length ∧ ∀ t ∈ a.turns.take n, t.completed = true

/-- Once a message has been handled, a loop that waits for the next has saved its
state. -/
def Flushed (a : Activation S) : Prop :=
  a.phase.waiting = true → 2 ≤ a.turns.length → a.turns.length ∈ a.saved

section

variable (hw : a.WF p.grain.reentrant)
include hw

theorem snapshot_of_slots (hseq : p.grain.reentrant = false)
    {i t} (h : a.slots p.replicated i = some t) :
    a.phase.snapshot p.replicated a.turns.length = some t ∧ t.turns = a.turns.length := by
  cases i with
  | none =>
    refine ⟨h, ?_⟩
    have hs : a.phase.snapshot p.replicated a.turns.length = some t := h
    cases hph : a.phase <;> rw [hph] at hs <;> first | cases hs; rfl | cases hs
  | some k => simp [slots, hw.sequential hseq] at h

section

variable (hseq : p.grain.reentrant = false)
include hseq

theorem oldestFirst_of_sequential : p.OldestFirst a e := by
  intro _ t ht j u hu
  have hl := (snapshot_of_slots hw hseq ht).2.trans (snapshot_of_slots hw hseq hu).2.symm
  exact ⟨fun _ _ => Nat.le_of_eq hl, fun _ _ => Nat.le_of_eq hl⟩

theorem Step.savesCompleted (hs : p.Step gid a m e a' m') (hscript : Script a.phase a.turns rs)
    (h : SavesCompleted a) : SavesCompleted a' := by
  have hsame : a.SameHistory a' → a'.saved = a.saved → SavesCompleted a' := by
    intro hist hsaved n hn
    rw [hist.turns]
    exact h n (hsaved ▸ hn)
  intro n hn
  cases hs.effect hw with
  | load hl hl' hstate hnil =>
    rw [hnil.2.2.1] at hn
    cases hn
  | turn t hl hl' hfresh hloaded hstate hturns hsaved =>
    obtain ⟨hpos, hle, hall⟩ := h n (hsaved ▸ hn)
    rw [hturns, take_append_of_le_length hle]
    refine ⟨hpos, ?_, hall⟩
    rw [length_append]
    omega
  | save hl hl' hist hacc hheld hsv hsaved =>
    rw [hsaved] at hn
    rw [hist.turns]
    rcases mem_append.mp hn with hn | hn
    · exact h n hn
    · obtain ⟨hsnap, hlen⟩ := snapshot_of_slots hw hseq hheld
      obtain ⟨hpos, hall⟩ := hscript.completed_of_snapshot hsnap
      rw [mem_singleton.mp hn, hlen, take_length]
      exact ⟨hpos, Nat.le_refl _, hall⟩
  | take _ _ hist hsaved | refuse _ _ hist hsaved | send _ _ hist hsaved =>
    exact hsame hist hsaved n hn
  | replicate _ _ hist hsaved | tag _ _ hist hsaved | quiet _ hist hsaved =>
    exact hsame hist hsaved n hn

theorem Step.flushed (hs : p.Step gid a m e a' m') (hwt : p.strategy = .writeThrough)
    (hscript : Script a.phase a.turns rs) (h : Flushed a) : Flushed a' := by
  -- a round of the loop that does not end in a save does not get back to the loop
  have hout : ∀ (b : Activation S) (fsm : ActivationState), fsm ≠ .idle →
      Flushed (b.settle fsm) := by
    intro b fsm hfsm hwait
    have hno : (b.settle fsm).phase.waiting = false := by
      unfold settle
      rw [if_neg hfsm]
      split <;> rfl
    rw [hno] at hwait
    cases hwait
  cases hs with
  | activateOk hp =>
    intro _ hl
    have hts := (hscript.of_starting (hp ▸ rfl)).1
    simp [record, hts] at hl
  | closed hp | idleTimeout hp =>
    refine hout _ _ ?_
    rw [hw.idle hp]
    nofun
  | handlePanic hp | serializeFailed hp | flushRefused hp =>
    refine hout _ _ ?_
    rw [hw.processing (hp ▸ rfl)]
    nofun
  | skip hp hne | replicate hp hne => exact absurd hwt hne
  | flush hp | flushReplicated hp =>
    intro _ _
    exact mem_append_right _ mem_cons_self
  | publish hp =>
    intro _ hl
    exact h (hp ▸ rfl) hl
  | drain hp hr | spawn hp hr => rw [hseq] at hr; cases hr
  | acquire hk | runOk hk | runPanic hk | release hk => exact (no_handler hw hseq hk).elim
  | handlerSave hk | handlerSaveRefused hk | handlerSend hk | join hk =>
    exact (no_handler hw hseq hk).elim
  | _ => nofun

end

end

variable (p) in
/-- What every run of a sequential task keeps. -/
structure Prefixes (gid : GrainId) (old : List Bytes) (rs : List (Envelope S))
    (a : Activation S) (m : Shared) : Prop where
  order : p.SaveOrder gid old a m
  script : Script a.phase a.turns rs
  completed : SavesCompleted a
  flushed : p.strategy = .writeThrough → Flushed a

theorem start_prefixes (gid m) : p.Prefixes gid (m.store.writesTo gid) [] p.start m := by
  refine ⟨start_saveOrder gid m, ?_, ?_, ?_⟩
  · unfold start
    cases p.entry <;> exact .start rfl
  · unfold start
    cases p.entry <;> exact fun n hn => nomatch hn
  · intro _
    unfold start
    cases p.entry <;> exact nofun

theorem Step.prefixes (hs : p.Step gid a m e a' m') (hseq : p.grain.reentrant = false)
    (h : p.Prefixes gid old rs a m) : p.Prefixes gid old (rs ++ received [e]) a' m' := by
  have hw := h.order.sound.wf
  exact ⟨hs.saveOrder (oldestFirst_of_sequential hw hseq) h.order, hs.script hw hseq h.script,
    hs.savesCompleted hw hseq h.script h.completed,
    fun hwt => hs.flushed hw hseq hwt h.script (h.flushed hwt)⟩

theorem completed_of_turns {envs tail} (ht : a.turns = .activate :: (envs.map .handled ++ tail))
    (htail : tail = [] ∨ tail = [.deactivate] ∨ ∃ env, tail = [.panicked env]) :
    a.completed = envs := by
  rcases htail with rfl | rfl | ⟨env, rfl⟩ <;> simp [completed, ht]

theorem Prefixes.encodesPrefix (h : p.Prefixes gid old rs a m) {n} (hn : n ∈ a.saved) {bytes}
    (hs : p.SnapshotOf a n bytes) : p.EncodesPrefix a (min (n - 1) a.completed.length) bytes := by
  obtain ⟨hpos, hle, hall⟩ := h.completed n hn
  obtain ⟨-, hbytes⟩ := hs
  rcases h.script.shape with hnil | ⟨envs, tail, hts, -, htail⟩
  · rw [hnil, length_nil] at hle
    omega
  obtain ⟨k, rfl⟩ : ∃ k, n = k + 1 := ⟨n - 1, by omega⟩
  rw [EncodesPrefix, completed_of_turns hts htail, Nat.add_sub_cancel]
  rw [hts, take_succ_cons] at hbytes hall
  refine ⟨Nat.min_le_right _ _, ?_⟩
  by_cases hk : k ≤ envs.length
  · left
    rw [take_append_of_le_length (by rwa [length_map]), ← map_take, replay_handled] at hbytes
    rw [Nat.min_eq_left hk]
    exact hbytes
  · -- one more turn than the messages account for
    have hlen : k ≤ envs.length + tail.length := by
      rw [hts, length_cons, length_append, length_map] at hle
      omega
    rcases htail with rfl | rfl | ⟨env, rfl⟩
    · simp at hlen
      omega
    · right
      rw [take_of_length_le (by simp; omega)] at hbytes
      refine ⟨by simp [hts], Nat.min_eq_right (by omega), ?_⟩
      have hsplit : Turn.activate :: (envs.map Turn.handled ++ [Turn.deactivate]) =
          (Turn.activate :: envs.map Turn.handled) ++ [Turn.deactivate] := rfl
      rw [hsplit, replay_snoc, replay_handled] at hbytes
      exact hbytes
    · rw [take_of_length_le (by simp; omega)] at hall
      have := hall (.panicked env) (by simp)
      cases this

/-! ## Nothing is written after a fault -/

variable (p) in
/-- The step is a handler's panic or a per-message save that fails, in the serializer or
in the store. -/
def Faults (a : Activation S) : MailboxEvent S → Prop
  | .handle => ∃ env s, a.phase = .handling env ∧ env.handleFn a.state = .panicked s
  | .prepare now _ => a.phase = .persist ∧
      (p.preparePersist a.state a.lastSave now).1 = .serializeFailed
  | .save fault => fault ≠ none ∧ ∃ bytes, a.phase = .flush bytes
  | _ => False

theorem Faults.leaves (h : p.Faults a e) (hw : a.WF p.grain.reentrant)
    (hst : p.step gid a m e = some (a', m')) : a'.phase.stage = .leaving ∧ m' = m := by
  cases e with
  | handle =>
    obtain ⟨env, s, hp, hs⟩ := h
    have hfsm := hw.processing (hp ▸ rfl)
    simp only [step, hp, hs, hfsm] at hst
    cases hst
    exact ⟨rfl, rfl⟩
  | prepare now d =>
    obtain ⟨hp, hplan⟩ := h
    have hfsm := hw.processing (hp ▸ rfl)
    simp only [step, hp] at hst
    unfold prepareStep at hst
    rcases p.preparePersist_cases a.state a.lastSave now with
      ⟨t, hr, -⟩ | ⟨t, bytes, hr, -⟩ | ⟨t, err, hr, -⟩ | ⟨t, bytes, hr, -⟩
    · simp [hr] at hplan
    · simp [hr] at hplan
    · simp only [hr, hfsm] at hst
      cases hst
      exact ⟨rfl, rfl⟩
    · simp [hr] at hplan
  | save fault =>
    obtain ⟨hf, bytes, hp⟩ := h
    have hfsm := hw.processing (hp ▸ rfl)
    cases fault with
    | none => exact absurd rfl hf
    | some err =>
      simp only [step, saveStep, hp, hfsm] at hst
      cases hst
      exact ⟨rfl, rfl⟩
  | _ => exact h.elim

theorem Step.of_leaving (hs : p.Step gid a m e a' m') (hw : a.WF p.grain.reentrant)
    (hl : a.phase.stage = .leaving) : a'.phase.stage = .leaving ∧ m' = m := by
  cases hs with
  | remove => exact ⟨rfl, rfl⟩
  | loadFailed hp => simp [starting_of_loading hp] at hl
  | acquire hk | runOk hk | runPanic hk | release hk | handlerSave hk | handlerSaveRefused hk
  | handlerSend hk | join hk => cases hw.joined (inLoop_of_leaving hl) _ _ hk
  | _ hp =>
    rw [hp] at hl
    cases hl

theorem exec_of_leaving (hw : a.WF p.grain.reentrant) (hl : a.phase.stage = .leaving)
    (hrun : exec (p.transition gid) (a, m) es = some (a', m')) : m' = m := by
  have hinv := exec_invariant_of_step
    (I := fun s => s.1.WF p.grain.reentrant ∧ s.1.phase.stage = .leaving ∧ s.2 = m)
    (fun s e s' hI hs => by
      obtain ⟨hl', hm⟩ := (step_sound hs).of_leaving hI.1 hI.2.1
      exact ⟨(step_sound hs).wf hI.1, hl', hm.trans hI.2.2⟩)
    ⟨hw, hl, rfl⟩ hrun
  exact hinv.2.2

/-! ## The stored state is a completed prefix -/

theorem run_prefixes {m₀} (hseq : p.grain.reentrant = false)
    (hrun : exec (p.transition gid) (p.start, m₀) es = some (a, m)) :
    p.Prefixes gid (m₀.store.writesTo gid) (received es) a m := by
  refine exec_induction
    (I := fun es s => p.Prefixes gid (m₀.store.writesTo gid) (received es) s.1 s.2)
    (start_prefixes gid m₀) ?_ hrun
  intro es u e v _ hI hstep
  have hnext := (step_sound hstep).prefixes hseq hI
  rwa [received, filterMap_append]

theorem no_write_after_fault {m₀ m₁ es₁ es₂ a₁}
    (hrun₁ : exec (p.transition gid) (p.start, m₀) es₁ = some (a₁, m₁)) (hfault : p.Faults a₁ e)
    (hr : exec (p.transition gid) (p.start, m₀) (es₁ ++ e :: es₂) = some (a, m)) : m = m₁ := by
  have hw := (run_sound hrun₁).wf
  rw [exec_append, hrun₁, Option.bind_some, exec_cons_eq_some] at hr
  obtain ⟨⟨a₂, m₂⟩, hs, hrest⟩ := hr
  obtain ⟨hl, rfl⟩ := hfault.leaves hw hs
  exact exec_of_leaving ((step_sound hs).wf hw) hl hrest

theorem Prefixes.stored_of_idle (h : p.Prefixes gid old rs a m) (hwt : p.strategy = .writeThrough)
    (hp : a.phase = .loop) (hrs : rs ≠ []) :
    ∃ bytes, m.store.get gid = some bytes ∧ p.serializer.serialize a.state = .ok bytes := by
  have hts := h.script.of_between (hp ▸ rfl)
  have hlen : 2 ≤ a.turns.length := by
    have := length_pos_iff.mpr hrs
    rw [hts, length_cons, length_map]
    omega
  have hsaved := h.flushed hwt (hp ▸ rfl) hlen
  obtain ⟨bs, hbs, hsnap⟩ := h.order.writes
  obtain ⟨n, bytes, hlast, ⟨hn, hb⟩, hle⟩ :=
    exists_getLast_of_forall₂ hsnap h.order.ordered.inOrder.sorted _ hsaved
  obtain rfl : n = a.turns.length := by omega
  rw [take_length, ← h.order.sound.state (hp ▸ rfl)] at hb
  refine ⟨bytes, ?_, hb⟩
  rw [WriteLog.get, hbs, getLast?_append, hlast]
  rfl

theorem Prefixes.writes (h : p.Prefixes gid old rs a m) :
    ∃ ns bs, m.store.writesTo gid = old ++ bs ∧ ns.Pairwise (· ≤ ·) ∧
      List.Forall₂ (p.EncodesPrefix a) ns bs := by
  obtain ⟨bs, hbs, hsnap⟩ := h.order.writes
  refine ⟨a.saved.map fun n => min (n - 1) a.completed.length, bs, hbs, ?_, ?_⟩
  · rw [pairwise_map]
    refine h.order.ordered.inOrder.sorted.imp ?_
    intro n n' hlt
    omega
  · rw [forall₂_map_left_iff]
    have hmem : List.Forall₂ (fun n b => n ∈ a.saved ∧ p.SnapshotOf a n b) a.saved bs := by
      refine forall₂_iff_get.mpr ⟨hsnap.length_eq, ?_⟩
      intro i hi hi'
      exact ⟨get_mem _ _, (forall₂_iff_get.mp hsnap).2 i hi hi'⟩
    exact hmem.imp fun n b hnb => h.encodesPrefix hnb.1 hnb.2

/-- The stored bytes are those found at activation or of the state after `on_activate` and a prefix
of the completed messages, with `on_deactivate` at the end. The prefixes never get shorter, under
`WriteThrough` an idle loop has stored its state, and nothing is written after a panic or a failed
save. -/
theorem stored_completed_prefix (p : PersistentArgs S) (gid : GrainId) (m₀ : Shared)
    (es : List (MailboxEvent S)) (a : Activation S) (m : Shared) (hseq : p.grain.reentrant = false)
    (hrun : exec (p.transition gid) (p.start, m₀) es = some (a, m)) :
    a.completed <+: received es ∧
    (∃ ns bs, m.store.writesTo gid = m₀.store.writesTo gid ++ bs ∧
      m.store.get gid = bs.getLast?.or (m₀.store.get gid) ∧ ns.Pairwise (· ≤ ·) ∧
      List.Forall₂ (p.EncodesPrefix a) ns bs) ∧
    (p.strategy = .writeThrough → a.phase = .loop → received es ≠ [] →
      ∃ bytes, m.store.get gid = some bytes ∧ p.serializer.serialize a.state = .ok bytes) ∧
    ∀ es₁ e es₂ a₁ m₁, es = es₁ ++ e :: es₂ →
      exec (p.transition gid) (p.start, m₀) es₁ = some (a₁, m₁) → p.Faults a₁ e → m = m₁ := by
  have h := run_prefixes hseq hrun
  refine ⟨?_, ?_, fun hwt hp hrs => h.stored_of_idle hwt hp hrs, ?_⟩
  · rcases h.script.shape with hnil | ⟨envs, tail, hts, henvs, htail⟩
    · rw [Activation.completed, hnil]
      exact nil_prefix
    · rw [completed_of_turns hts htail]
      exact henvs
  · obtain ⟨ns, bs, hbs, hsorted, hns⟩ := h.writes
    refine ⟨ns, bs, hbs, ?_, hsorted, hns⟩
    rw [WriteLog.get, hbs, getLast?_append]
    rfl
  · rintro es₁ e es₂ a₁ m₁ rfl hrun₁ hfault
    exact no_write_after_fault hrun₁ hfault hrun

/-- A message to the counter whose handler panics half way. -/
def crash : Envelope UInt8 where
  handleFn := fun s => .panicked (s + 100)
  awaited := true

/-- A message, its save, and a message whose handler panics. -/
def savedThenCrash : List (MailboxEvent UInt8) :=
  [.load none, .onActivate 0, .recv (addMessage 5), .handle, .prepare 0 false, .save none,
    .recv crash, .handle, .remove]

/-- The first message is stored, and the panic of the second one leaves it so. -/
theorem stored_completed_prefix_counter :
    ∃ a m, exec ((counter false .writeThrough (.run false)).transition ⟨"Counter", "k"⟩)
        ((counter false .writeThrough (.run false)).start, .empty) savedThenCrash = some (a, m) ∧
      m.store.get ⟨"Counter", "k"⟩ = some [5] ∧
      ∃ ns bs, m.store.writesTo ⟨"Counter", "k"⟩ = bs ∧ ns.Pairwise (· ≤ ·) ∧
        List.Forall₂ ((counter false .writeThrough (.run false)).EncodesPrefix a) ns bs := by
  obtain ⟨a, m, hrun, hget⟩ : ∃ a m,
      exec ((counter false .writeThrough (.run false)).transition ⟨"Counter", "k"⟩)
        ((counter false .writeThrough (.run false)).start, .empty) savedThenCrash = some (a, m) ∧
      m.store.get ⟨"Counter", "k"⟩ = some [5] := ⟨_, _, rfl, rfl⟩
  obtain ⟨-, ⟨ns, bs, hbs, -, hrest⟩, -⟩ :=
    stored_completed_prefix _ _ _ savedThenCrash a m rfl hrun
  exact ⟨a, m, hrun, hget, ns, bs, hbs, hrest⟩

end PersistentArgs

end Orlando
