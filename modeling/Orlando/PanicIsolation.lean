import Orlando.Turns

/-!
# Panics of handlers

A handler that panics may leave the state half changed. A sequential mailbox faults and ends,
without a save. A reentrant mailbox only logs the error of the handler task : later handlers go on
with what the handler left, and their saves store it (`panic_leaks`).
-/

namespace Orlando

open List MailboxKind VersionedGrain WriteLog

variable {S : Type}

namespace Activation

/-- After its first `n` turns the activation had the state that they lead to without the
handlers that panicked. -/
def CleanAt (g : Grain S) (a : Activation S) (n : ℕ) : Prop :=
  replay g a.loaded (a.turns.take n) =
    replay g a.loaded ((a.turns.take n).filter Turn.completed)

/-- If the step is one of a handler task of a reentrant grain and the handler panics, it
leaves the state as it found it. -/
def KeepsState (a : Activation S) : MailboxEvent S → Prop
  | .handler k .run =>
    match a.handlers[k]? with
    | some (.locked env) =>
      match env.handleFn a.state with
      | .panicked s => s = a.state
      | .ok _ => True
    | _ => True
  | _ => True

instance [DecidableEq S] (a : Activation S) (e : MailboxEvent S) : Decidable (a.KeepsState e) := by
  unfold KeepsState
  split
  · split
    · split <;> infer_instance
    · infer_instance
  · infer_instance

/-- User code has run on clean states only, and the state is clean unless the task is
about to leave. -/
structure Clean (g : Grain S) (a : Activation S) : Prop where
  state : a.phase.loading = false → a.state = replay g a.loaded a.turns
  before : ∀ n < a.turns.length, a.CleanAt g n
  now : a.phase.leaving = true ∨ a.CleanAt g a.turns.length

variable {g : Grain S} {a a' : Activation S} {e : MailboxEvent S} {n : ℕ}

theorem KeepsState.eq {k env s} (h : a.KeepsState (.handler k .run))
    (hk : a.handlers[k]? = some (.locked env)) (hs : env.handleFn a.state = .panicked s) :
    s = a.state := by
  simpa [KeepsState, hk, hs] using h

theorem cleanAt_of_nil (h : a.turns = []) (n) : a.CleanAt g n := by
  simp [CleanAt, h]

theorem CleanAt.mono (h : a.CleanAt g n) (hn : n ≤ a.turns.length) (hl : a'.loaded = a.loaded)
    {ts} (ht : a'.turns = a.turns ++ ts) : a'.CleanAt g n := by
  rw [CleanAt, hl, ht, take_append_of_le_length hn]
  exact h

theorem CleanAt.turn (h : a.CleanAt g a.turns.length) (hl : a'.loaded = a.loaded) {t}
    (ht : a'.turns = a.turns ++ [t])
    (hc : t.completed = true ∨ t.apply g (replay g a.loaded a.turns) = replay g a.loaded a.turns) :
    a'.CleanAt g a'.turns.length := by
  rw [CleanAt, take_length] at h ⊢
  rw [hl, ht, filter_append, replay_snoc]
  rcases hc with hc | hc
  · rw [filter_cons_of_pos hc, filter_nil, replay_snoc, ← h]
  · by_cases hcomp : t.completed = true
    · rw [filter_cons_of_pos hcomp, filter_nil, replay_snoc, ← h]
    · rw [filter_cons_of_neg hcomp, filter_nil, append_nil, ← h, hc]

theorem Ran.clean (h : a.Ran g e a') (hc : a.Clean g) (hk : a.KeepsState e) : a'.Clean g := by
  have hstate' := h.state_eq hc.state
  cases h with
  | start hl hl' hsta hts =>
    refine ⟨hstate', fun n hn => ?_, .inr ?_⟩
    · exact cleanAt_of_nil hts n
    · exact cleanAt_of_nil hts _
  | turn t hl hl' hp hld hsta hts ht =>
    have hnow := hc.now.resolve_left (by simp [hp])
    refine ⟨hstate', fun n hn => ?_, ?_⟩
    · rw [hts, length_append, length_singleton] at hn
      rcases Nat.lt_succ_iff_lt_or_eq.mp hn with hn | rfl
      · exact (hc.before n hn).mono (Nat.le_of_lt hn) hld hts
      · exact hnow.mono le_rfl hld hts
    · rcases ht with ht | ht | ⟨k, env, s, rfl, hh, hpanic, rfl⟩
      · exact .inr (hnow.turn hld hts (.inl ht))
      · exact .inl ht
      · refine .inr (hnow.turn hld hts (.inr ?_))
        rw [← hc.state hl, Turn.apply, hpanic]
        exact hk.eq hh hpanic
  | quiet hl hld hsta hts hp =>
    have hsame : a'.turns = a.turns ++ [] := by rw [hts, append_nil]
    refine ⟨hstate', fun n hn => ?_, ?_⟩
    · rw [hts] at hn
      exact (hc.before n hn).mono (Nat.le_of_lt hn) hld hsame
    · refine hc.now.imp hp fun hnow => ?_
      rw [hts]
      exact hnow.mono le_rfl hld hsame

end Activation

/-! ## What leaves a persistent task -/

section Mailboxes

variable {gid : GrainId} {a a' : Activation S} {m m' : Shared} {e : MailboxEvent S}

open Activation

theorem leaving_of_fresh {reentrant} (hw : a.WF reentrant) (hf : a.Fresh) :
    a.phase.leaving = false := by
  rcases hf with hp | hp | ⟨k, hk⟩
  · rw [hp]
    rfl
  · rw [hp]
    rfl
  · exact (Phase.leaving_of_inLoop (hw.inLoop hk (by simp))).1

namespace PersistentArgs

variable {p : PersistentArgs S} {fault : Option PersistenceError} {store : WriteLog GrainId Bytes}
  {ser : Serializer S} {bytes : Bytes}

variable (p) in
structure CleanTask (a : Activation S) : Prop where
  sound : p.Sound a
  clean : a.Clean p.grain
  held : ∀ i t, a.slots p.replicated i = some t → a.CleanAt p.grain t.turns

variable (p) in
/-- `bytes` is a serialized state that turns of `a` lead to, without the handlers that
panicked. -/
def CleanSnapshot (a : Activation S) (bytes : Bytes) : Prop :=
  ∃ n ≤ a.turns.length, p.serializer.serialize
    (replay p.grain a.loaded ((a.turns.take n).filter Turn.completed)) = .ok bytes

theorem CleanSnapshot.mono (h : p.CleanSnapshot a bytes) (hl : a'.loaded = a.loaded)
    {ts} (ht : a'.turns = a.turns ++ ts) : p.CleanSnapshot a' bytes := by
  obtain ⟨n, hn, hb⟩ := h
  refine ⟨n, ?_, ?_⟩
  · rw [ht, length_append]
    omega
  · rw [hl, ht, take_append_of_le_length hn]
    exact hb

theorem start_cleanTask : p.CleanTask p.start := by
  have hts : p.start.turns = [] := by
    unfold start
    split <;> rfl
  refine ⟨start_sound, ⟨start_sound.state, fun n _ => cleanAt_of_nil hts n,
    Or.inr (cleanAt_of_nil hts _)⟩, fun _ t _ => cleanAt_of_nil hts t.turns⟩

theorem CleanTask.held_snapshot (h : p.CleanTask a) {i t}
    (ht : a.slots p.replicated i = some t) : p.CleanSnapshot a t.bytes := by
  obtain ⟨hn, hb⟩ := h.sound.held i t ht
  have hclean := h.held i t ht
  exact ⟨t.turns, hn, by rw [← hclean, hb]⟩

theorem CleanTask.fresh (h : p.CleanTask a) (hf : a.Fresh) : a.CleanAt p.grain a.turns.length :=
  h.clean.now.resolve_left (by simp [leaving_of_fresh h.sound.wf hf])

theorem CleanTask.fresh_snapshot (h : p.CleanTask a) (hf : a.Fresh) (hl : a.phase.loading = false)
    (hb : p.serializer.serialize a.state = .ok bytes) : p.CleanSnapshot a bytes := by
  have hclean := h.fresh hf
  rw [CleanAt] at hclean
  refine ⟨a.turns.length, le_rfl, ?_⟩
  rw [← hclean, take_length, ← h.clean.state hl, hb]

section

variable (hs : p.Step gid a m e a' m') (h : p.CleanTask a)
include hs h

theorem Step.cleanTask (hk : a.KeepsState e) : p.CleanTask a' := by
  have heff := hs.effect h.sound.wf
  refine ⟨hs.sound h.sound, (hs.ran h.sound.wf).clean h.clean hk, ?_⟩
  intro i t ht
  obtain ⟨hld, ts, hts⟩ := heff.extends_of_slot ht
  rcases heff.slot_cases ht with ⟨j, u, hu, hn, -⟩ | ⟨hfresh, -, hn, -⟩
  · rw [hn]
    exact (h.held j u hu).mono (h.sound.held j u hu).1 hld hts
  · rw [hn]
    exact (h.fresh hfresh).mono le_rfl hld hts

theorem Step.store_clean {x} (hx : x ∈ m'.store) :
    x ∈ m.store ∨ (x.1 = gid ∧ a.phase.loading = false ∧ p.CleanSnapshot a x.2) ∨
      ∃ V, p.entry = .runVersioned V ∧
        x = (versionGrainId gid, V.encodeVersion V.stateVersion) := by
  have hwrite : ∀ {k b}, x ∈ m.store.write k b → x ∈ m.store ∨ x = (k, b) := by
    intro k b hx
    simpa [WriteLog.write] using hx
  cases hs.effect h.sound.wf with
  | save hl _ _ _ hheld =>
    rcases hwrite hx with hx | rfl
    · exact .inl hx
    · exact .inr (.inl ⟨rfl, hl, h.held_snapshot hheld⟩)
  | tag _ _ _ _ he =>
    rcases hwrite hx with hx | rfl
    · exact .inl hx
    · exact .inr (.inr ⟨_, he, rfl⟩)
  | _ => exact .inl hx

theorem Step.sinks_clean {key x} (hx : x ∈ (m'.sinks key).entries) :
    x ∈ (m.sinks key).entries ∨ (key = gid ∧ a.phase.loading = false ∧ p.CleanSnapshot a x.2) := by
  have hpublish : ∀ {b d}, x ∈ ((m.publish gid b d).sinks key).entries →
      x ∈ (m.sinks key).entries ∨ key = gid ∧ x.2 = b := by
    intro b d hx
    by_cases hk : key = gid
    · subst hk
      rw [Shared.sinks_publish_self] at hx
      cases d with
      | false => exact .inl hx
      | true =>
        rcases mem_append.mp hx with hx | hx
        · exact .inl hx
        · obtain rfl := mem_singleton.mp hx
          exact .inr ⟨rfl, rfl⟩
    · simp only [Shared.publish, Function.update_of_ne hk] at hx
      exact .inl hx
  cases hs.effect h.sound.wf with
  | send hl _ _ _ _ _ hheld =>
    rcases hpublish hx with hx | ⟨hk, hb⟩
    · exact .inl hx
    · exact .inr ⟨hk, hl, hb ▸ h.held_snapshot hheld⟩
  | replicate hl _ _ _ hfresh _ _ _ hb₀ =>
    rcases hpublish hx with hx | ⟨hk, hb⟩
    · exact .inl hx
    · exact .inr ⟨hk, hl, hb ▸ h.fresh_snapshot hfresh hl hb₀⟩
  | _ => exact .inl hx

end

variable (p) in
def Decodes (bytes : Bytes) (s : S) : Prop :=
  match p.entry with
  | .run _ => p.serializer.deserialize bytes = .ok s
  | .runVersioned V => ∃ v migrated, V.migrateChain v bytes = .ok migrated ∧
      p.serializer.deserialize migrated = .ok s

variable (p) in
def StartsFrom (gid : GrainId) (store : WriteLog GrainId Bytes) (a : Activation S) : Prop :=
  a.phase.loading = false → a.loaded = p.grain.default ∨
    ∃ bytes, (gid, bytes) ∈ store ∧ p.Decodes bytes a.loaded

theorem mem_of_loadState {s} (h : loadState ser (loadAnswer fault (store.get gid)) = .ok (some s)) :
    ∃ bytes, (gid, bytes) ∈ store ∧ ser.deserialize bytes = .ok s := by
  cases fault with
  | some err => simp [loadState, loadAnswer, bind, Except.bind] at h
  | none =>
    cases hg : store.get gid with
    | none => simp [loadState, loadAnswer, hg, bind, Except.bind, pure, Except.pure] at h
    | some bytes =>
      refine ⟨bytes, mem_of_get hg, ?_⟩
      cases hd : ser.deserialize bytes with
      | error err => simp [loadState, loadAnswer, hg, hd, bind, Except.bind] at h
      | ok s' =>
        simpa [loadState, loadAnswer, hg, hd, bind, Except.bind, pure, Except.pure] using h

theorem mem_of_migrateLoaded {V : VersionedGrain} {v s}
    (h : V.migrateLoaded ser v (loadAnswer fault (store.get gid)) = .ok (some s)) :
    ∃ bytes migrated, (gid, bytes) ∈ store ∧ V.migrateChain v bytes = .ok migrated ∧
      ser.deserialize migrated = .ok s := by
  cases fault with
  | some err => simp [migrateLoaded, loadAnswer, bind, Except.bind] at h
  | none =>
    cases hg : store.get gid with
    | none => simp [migrateLoaded, loadAnswer, hg, bind, Except.bind, pure, Except.pure] at h
    | some bytes =>
      by_cases hv : V.stateVersion < v
      · simp [migrateLoaded, loadAnswer, hg, hv, bind, Except.bind, throw,
          throwThe, MonadExceptOf.throw] at h
      · cases hm : V.migrateChain v bytes with
        | error err => simp [migrateLoaded, loadAnswer, hg, hv, hm, bind, Except.bind] at h
        | ok migrated =>
          refine ⟨bytes, migrated, mem_of_get hg, hm, ?_⟩
          cases hd : ser.deserialize migrated with
          | error err => simp [migrateLoaded, loadAnswer, hg, hv, hm, hd, bind, Except.bind] at h
          | ok s' =>
            simpa [migrateLoaded, loadAnswer, hg, hv, hm, hd, bind, Except.bind,
              pure, Except.pure] using h

theorem Step.store_mono (hs : p.Step gid a m e a' m') {x} (hx : x ∈ m.store) : x ∈ m'.store := by
  cases hs
  case flush | flushReplicated | save | saveReplicated | saveVersioned | handlerSave | tag =>
    exact mem_append_left _ hx
  all_goals exact hx

theorem Step.startsFrom (hs : p.Step gid a m e a' m') (hw : a.WF p.grain.reentrant)
    (h : p.StartsFrom gid m.store a) : p.StartsFrom gid m'.store a' := by
  intro hl'
  rcases hs.phase_cases hw with ⟨fault, rfl, hl⟩ | ⟨hl, -⟩
  · cases hs with
    | @loadRun _ n r replicated hp he hr =>
      cases r with
      | none => exact .inl rfl
      | some s =>
        obtain ⟨bytes, hmem, hd⟩ := mem_of_loadState hr
        exact .inr ⟨bytes, hmem, by simp [Decodes, he, begin, hd]⟩
    | @loadVersioned _ v r V hp he hr =>
      cases r with
      | none => exact .inl rfl
      | some s =>
        obtain ⟨bytes, migrated, hmem, hm, hd⟩ := mem_of_migrateLoaded hr
        refine .inr ⟨bytes, hmem, ?_⟩
        rw [Decodes, he]
        exact ⟨v, migrated, hm, hd⟩
    | loadFailed => exact .inl rfl
    | drain _ _ hd => exact absurd hd (by simp)
    | _ => simp [Phase.loading] at hl'
  · obtain ⟨-, hloaded, -⟩ := (hs.ran hw).extends hl
    rw [hloaded]
    refine (h hl).imp_right ?_
    rintro ⟨bytes, hmem, hd⟩
    exact ⟨bytes, hs.store_mono hmem, hd⟩

end PersistentArgs

/-! ## Both kinds of mailbox -/

namespace MailboxKind

variable {kind : MailboxKind S}

def Decodes (bytes : Bytes) (s : S) : MailboxKind S → Prop
  | plain _ => False
  | persistent p => p.Decodes bytes s

def StartsFrom (gid : GrainId) (store : WriteLog GrainId Bytes) (a : Activation S)
    (kind : MailboxKind S) : Prop :=
  a.phase.loading = false → a.loaded = kind.grain.default ∨
    ∃ bytes, (gid, bytes) ∈ store ∧ kind.Decodes bytes a.loaded

def CleanTask (a : Activation S) : MailboxKind S → Prop
  | plain g => a.WF g.reentrant ∧ a.phase.loading = false ∧ a.Clean g
  | persistent p => p.CleanTask a

theorem CleanTask.clean (h : kind.CleanTask a) : a.Clean kind.grain := by
  cases kind with
  | plain g => exact h.2.2
  | persistent p => exact PersistentArgs.CleanTask.clean h

theorem start_cleanTask (kind : MailboxKind S) : kind.CleanTask kind.start := by
  cases kind with
  | plain g =>
    exact ⟨g.start_wf, rfl, fun _ => rfl, fun n _ => cleanAt_of_nil rfl n,
      .inr (cleanAt_of_nil rfl _)⟩
  | persistent p => exact PersistentArgs.start_cleanTask

theorem CleanTask.mailboxSound (h : kind.CleanTask a) : kind.Sound a := by
  cases kind with
  | plain g => exact h.1
  | persistent p => exact PersistentArgs.CleanTask.sound h

theorem step_cleanTask (h : kind.step gid a m e = some (a', m')) (hc : kind.CleanTask a)
    (hk : a.KeepsState e) : kind.CleanTask a' := by
  rcases step_cases h with ⟨g, rfl, hst, -⟩ | ⟨p, rfl, hst⟩
  · have hran := hst.ran hc.1
    exact ⟨hst.wf hc.1, (hran.extends hc.2.1).1, hran.clean hc.2.2 hk⟩
  · exact hst.cleanTask hc hk

theorem StartsFrom.mono {store store'} (h : kind.StartsFrom gid store a)
    (hs : ∀ x ∈ store, x ∈ store') : kind.StartsFrom gid store' a := by
  refine fun hl => (h hl).imp_right ?_
  rintro ⟨bytes, hmem, hd⟩
  exact ⟨bytes, hs _ hmem, hd⟩

theorem start_startsFrom (gid store)
    (kind : MailboxKind S) : kind.StartsFrom gid store kind.start := by
  refine fun _ => .inl ?_
  cases kind with
  | plain g => rfl
  | persistent p =>
    change p.start.loaded = p.grain.default
    unfold PersistentArgs.start
    split <;> rfl

theorem step_startsFrom (h : kind.step gid a m e = some (a', m')) (hc : kind.CleanTask a)
    (hs : kind.StartsFrom gid m.store a) : kind.StartsFrom gid m'.store a' := by
  rcases step_cases h with ⟨g, rfl, hst, rfl⟩ | ⟨p, rfl, hst⟩
  · intro _
    rw [((hst.ran hc.1).extends hc.2.1).2.1]
    exact hs hc.2.1
  · exact hst.startsFrom (PersistentArgs.CleanTask.sound hc).wf hs

theorem store_mono (h : kind.step gid a m e = some (a', m')) {x}
    (hx : x ∈ m.store) : x ∈ m'.store := by
  rcases step_cases h with ⟨g, -, -, rfl⟩ | ⟨p, -, hstep⟩
  · exact hx
  · exact hstep.store_mono hx

end MailboxKind

end Mailboxes

/-! ## A silo -/

namespace Silo

/-- If the step is one of a handler task of a reentrant grain and the handler panics, it
leaves the state as it found it. -/
def KeepsState (s : Silo S) : SiloEvent S → Prop
  | .mailbox i ev =>
    match s.tasks[i]? with
    | some t => t.act.KeepsState ev
    | none => True
  | _ => True

instance [DecidableEq S] (s : Silo S) (e : SiloEvent S) : Decidable (s.KeepsState e) := by
  unfold KeepsState
  split
  · split <;> infer_instance
  · infer_instance

/-- `bytes` is a snapshot that an activation of the grain has had, of a state that its
turns led to without the handlers that panicked. -/
def HasSnapshot (s : Silo S) (gid : GrainId) (bytes : Bytes) : Prop :=
  ∃ t ∈ s.tasks, ∃ p, t.kind = .persistent p ∧ t.gid = gid ∧ t.act.phase.loading = false ∧
    p.CleanSnapshot t.act bytes

def HasTag (s : Silo S) (x : GrainId × Bytes) : Prop :=
  ∃ t ∈ s.tasks, ∃ p V, t.kind = .persistent p ∧ p.entry = .runVersioned V ∧
    x = (versionGrainId t.gid, V.encodeVersion V.stateVersion)

/-- No partial mutation of a handler that panicked is seen on the silo, started over `m₀`. -/
structure Isolated (m₀ : Shared) (s : Silo S) : Prop where
  state : ∀ t ∈ s.tasks, t.act.phase.loading = false →
    t.act.state = replay t.kind.grain t.act.loaded t.act.turns
  /-- User code has run on the states that the turns before it lead to without the
  handlers that panicked. -/
  observed : ∀ t ∈ s.tasks, ∀ n < t.act.turns.length, t.act.CleanAt t.kind.grain n
  starts : ∀ t ∈ s.tasks, t.kind.StartsFrom t.gid s.shared.store t.act
  stored : ∀ x ∈ s.shared.store, x ∈ m₀.store ∨ s.HasSnapshot x.1 x.2 ∨ s.HasTag x
  replicated : ∀ gid, ∀ x ∈ (s.shared.sinks gid).entries,
    x ∈ (m₀.sinks gid).entries ∨ s.HasSnapshot gid x.2

variable {m₀ : Shared} {s s' : Silo S} {e : SiloEvent S} {x : GrainId × Bytes}

theorem HasSnapshot.step (h : Step s s' e) (hc : ∀ t ∈ s.tasks, t.kind.CleanTask t.act)
    {gid bytes} (hs : s.HasSnapshot gid bytes) : s'.HasSnapshot gid bytes := by
  obtain ⟨t, ht, p, hkind, hgid, hl, hsnap⟩ := hs
  obtain ⟨t', ht', hgid', hkind', hact⟩ := h.successor ht
  refine ⟨t', ht', p, hkind'.trans hkind, hgid'.trans hgid, ?_⟩
  rcases hact with hact | ⟨ev, m, hstep⟩
  · rw [hact]
    exact ⟨hl, hsnap⟩
  · obtain ⟨hl', hloaded, ts, hturns⟩ :=
      (ran_of_step hstep (hc t ht).mailboxSound).extends hl
    exact ⟨hl', hsnap.mono hloaded hturns⟩

theorem HasTag.step (h : Step s s' e) (hs : s.HasTag x) : s'.HasTag x := by
  obtain ⟨t, ht, p, V, hkind, he, hx⟩ := hs
  obtain ⟨t', ht', hgid', hkind', -⟩ := h.successor ht
  exact ⟨t', ht', p, V, hkind'.trans hkind, he, hgid' ▸ hx⟩

theorem isolated_init (m₀) : (Silo.init m₀ : Silo S).Isolated m₀ where
  state := fun t ht => absurd ht (by simp [Silo.init])
  observed := fun t ht => absurd ht (by simp [Silo.init])
  starts := fun t ht => absurd ht (by simp [Silo.init])
  stored := fun _ hx => .inl hx
  replicated := fun _ _ hx => .inl hx

theorem Step.store_mono (h : Step s s' e) (hx : x ∈ s.shared.store) : x ∈ s'.shared.store := by
  rcases h.shared_cases with ⟨hstore, -⟩ | ⟨t, -, ev, a, hstep⟩
  · rw [hstore]
    exact hx
  · exact MailboxKind.store_mono hstep hx

theorem KeepsState.act {i t ev} (h : s.KeepsState e) (hi : s.tasks[i]? = some t)
    (he : e = .recv i ∧ (∃ env, ev = .recv env) ∨ e = .mailbox i ev) : t.act.KeepsState ev := by
  rcases he with ⟨-, env, rfl⟩ | rfl
  · exact trivial
  · simpa [KeepsState, hi] using h

theorem cleanTask_of_step (hc : ∀ t ∈ s.tasks, t.kind.CleanTask t.act) (hk : s.KeepsState e)
    (hstep : s.step e = some s') : ∀ t ∈ s'.tasks, t.kind.CleanTask t.act :=
  (step_sound hstep).forall_tasks (I := fun _ kind a => kind.CleanTask a)
    (fun _ kind => kind.start_cleanTask)
    (fun hi he hI hmail => step_cleanTask hmail hI (hk.act hi he)) hc

theorem Isolated.step (h : s.Isolated m₀) (hc : ∀ t ∈ s.tasks, t.kind.CleanTask t.act)
    (hk : s.KeepsState e) (hst : s.step e = some s') : s'.Isolated m₀ := by
  have hsilo := step_sound hst
  have hsnap : ∀ {gid bytes}, s.HasSnapshot gid bytes →
      s'.HasSnapshot gid bytes := fun hs => hs.step hsilo hc
  have hc' := cleanTask_of_step hc hk hst
  refine ⟨fun t ht => (hc' t ht).clean.state, fun t ht => (hc' t ht).clean.before,
    fun t' ht' => ?_, fun x hx => ?_, fun gid x hx => ?_⟩
  · cases hsilo.origin ht' with
    | kept ht hgid hkind hact =>
      exact hgid ▸ hkind ▸ hact ▸ (h.starts _ ht).mono fun _ hx => hsilo.store_mono hx
    | moved hi he hgid hkind _ hmail =>
      have ht := mem_of_getElem? hi
      rw [← hgid, ← hkind]
      exact step_startsFrom hmail (hc _ ht) (h.starts _ ht)
    | created _ _ _ hact =>
      rw [hact]
      exact start_startsFrom _ _ _
  · have hold :=  fun hx => (h.stored x hx).imp_right (Or.imp hsnap fun htag => htag.step hsilo)
    rcases hsilo.shared_cases with ⟨hstore, -⟩ | ⟨t, ht, ev, a, hmail⟩
    · exact hold (hstore ▸ hx)
    · have hclean := hc t ht
      rcases step_cases hmail with ⟨g, -, -, hm⟩ | ⟨p, hkind, hp⟩
      · exact hold (hm ▸ hx)
      · rw [hkind] at hclean
        rcases hp.store_clean hclean hx with hx | ⟨hgid, hl, hb⟩ | ⟨V, he, hx⟩
        · exact hold hx
        · exact .inr (.inl (hsnap ⟨t, ht, p, hkind, hgid.symm, hl, hb⟩))
        · exact .inr (.inr (HasTag.step hsilo ⟨t, ht, p, V, hkind, he, hx⟩))
  · have hold :=  fun hx => (h.replicated gid x hx).imp_right hsnap
    rcases hsilo.shared_cases with ⟨-, hsinks⟩ | ⟨t, ht, ev, a, hmail⟩
    · exact hold (hsinks gid ▸ hx)
    · have hclean := hc t ht
      rcases step_cases hmail with ⟨g, -, -, hm⟩ | ⟨p, hkind, hp⟩
      · exact hold (hm ▸ hx)
      · rw [hkind] at hclean
        rcases hp.sinks_clean hclean hx with hx | ⟨hgid, hl, hb⟩
        · exact hold hx
        · exact .inr (hsnap ⟨t, ht, p, hkind, hgid.symm, hl, hb⟩)

/-- Panics are isolated on a whole silo if every handler of a reentrant grain that panics leaves the
state as it found it. -/
theorem panic_isolated (m₀ : Shared) (es : List (SiloEvent S)) (s : Silo S)
    (hrun : exec step (.init m₀) es = some s)
    (hkeeps : Along step (fun u e => u.KeepsState e) (.init m₀) es) : s.Isolated m₀ :=
  (exec_invariant (I := fun u => (∀ t ∈ u.tasks, t.kind.CleanTask t.act) ∧ u.Isolated m₀)
    (fun _ _ _ hk hI hstep => ⟨cleanTask_of_step hI.1 hk hstep, hI.2.step hI.1 hk hstep⟩)
    ⟨fun t ht => absurd ht (by simp [Silo.init]), isolated_init m₀⟩ hkeeps hrun).2

/-! ## Counters whose handlers panic -/

/-- A message that adds `n` to the counter and panics. -/
def tear (n : UInt8) : Envelope UInt8 where
  handleFn := fun s => .panicked (s + n)
  awaited := true

def wake (key : String) (kind : MailboxKind UInt8) (i : ℕ) : List (SiloEvent UInt8) :=
  [.getOrInsert ⟨"Counter", key⟩ kind, .checkLimit 0, .enter 0, .mailbox i (.load none),
    .mailbox i (.onActivate 0)]

/-- Task `i` of a sequential grain gets a message and runs its handler. -/
def serveNext (i : ℕ) (env : Envelope UInt8) : List (SiloEvent UInt8) :=
  [.send i env, .recv i, .mailbox i .handle]

/-- Task `i` of a reentrant grain gets a message, and its handler task `k` runs it. -/
def serveTask (i k : ℕ) (env : Envelope UInt8) : List (SiloEvent UInt8) :=
  [.send i env, .recv i, .mailbox i (.handler k .acquire), .mailbox i (.handler k .run)]

def persistentCounter (reentrant : Bool) : MailboxKind UInt8 :=
  .persistent (counter reentrant .writeThrough (.run false))

/-- A sequential counter is saved, panics after a change and is activated again. A
reentrant one panics before it changes anything and goes on. -/
def isolatedRun : List (SiloEvent UInt8) :=
  wake "a" (persistentCounter false) 0 ++ serveNext 0 (addMessage 1) ++
    [.mailbox 0 (.prepare 0 false), .mailbox 0 (.save none)] ++ serveNext 0 (tear 5) ++
    [.mailbox 0 .remove] ++ wake "a" (persistentCounter false) 1 ++ serveNext 1 (addMessage 2) ++
    [.mailbox 1 (.prepare 0 false), .mailbox 1 (.save none)] ++
    wake "b" (persistentCounter true) 2 ++ serveTask 2 0 (tear 0) ++ serveTask 2 1 (addMessage 4) ++
    [.mailbox 2 (.handler 1 .release), .mailbox 2 (.handler 1 (.save none))]

theorem panic_isolated_counters : ∃ s, exec step (.init Shared.empty) isolatedRun = some s ∧
    s.shared.store = [(⟨"Counter", "a"⟩, [1]), (⟨"Counter", "a"⟩, [3]),
      (⟨"Counter", "b"⟩, [4])] ∧ s.Isolated Shared.empty := by
  refine ⟨_, rfl, rfl, ?_⟩
  refine panic_isolated Shared.empty isolatedRun _ rfl ?_
  decide +kernel

/-- In a reentrant grain a handler adds `5` and panics, and the next adds `1` : it runs on
`5`, and the store gets `6`. In a plain one it runs on `5` just so. -/
theorem panic_leaks :
    (∃ s, exec step (.init Shared.empty) (wake "a" (persistentCounter true) 0 ++
        serveTask 0 0 (tear 5) ++ serveTask 0 1 (addMessage 1) ++
        [.mailbox 0 (.handler 1 .release), .mailbox 0 (.handler 1 (.save none))]) = some s ∧
      s.shared.store = [(⟨"Counter", "a"⟩, [6])] ∧ ¬s.Isolated Shared.empty) ∧
    ∃ s, exec step (.init Shared.empty) ([.getOrInsert ⟨"Counter", "a"⟩
        (.plain (counter true .writeThrough (.run false)).grain), .checkLimit 0, .enter 0,
        .mailbox 0 (.onActivate 0)] ++ serveTask 0 0 (tear 5) ++ serveTask 0 1 (addMessage 1)) =
        some s ∧
      s.shared.store = [] ∧ ¬s.Isolated Shared.empty := by
  refine ⟨⟨_, rfl, rfl, fun h => ?_⟩, _, rfl, rfl, fun h => ?_⟩
  · have hseen : (5 : UInt8) = 0 := h.observed _ (mem_singleton_self _) 2 (by decide)
    exact absurd hseen (by decide)
  · have hseen : (5 : UInt8) = 0 := h.observed _ (mem_singleton_self _) 2 (by decide)
    exact absurd hseen (by decide)

end Silo

end Orlando
