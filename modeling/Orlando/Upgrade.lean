import Orlando.Reactivation
import Orlando.StoredPrefix
import Orlando.VersionTag

/-!
# Upgrades in one step or in two

A stored state of version `s` can be loaded by a deployment of version `c` at once, or by one of
version `m` first, which writes it back under its own tag. `Schemas` are the state types of the
versions with their serializers and migrations, whose results are canonical encodings
(`Schemas.Canonical`).
-/

namespace Orlando

open Activation List PersistentArgs VersionedGrain

/-! ## The calls of `migrate` -/

section Migrations

variable (migrate : ℕ → Bytes → Except PersistenceError Bytes)

/-- The calls of `migrate` for the versions `vs`, with the bytes they get. A step that fails is the
last. -/
def migrations : List ℕ → Bytes → List (ℕ × Bytes)
  | [], _ => []
  | v :: vs, b => (v, b) ::
    match migrate v b with
    | .ok b' => migrations vs b'
    | .error _ => []

def VersionedGrain.loadMigrations (V : VersionedGrain) (store : WriteLog GrainId Bytes)
    (gid : GrainId) : List (ℕ × Bytes) :=
  match V.storedVersion (.ok (store.get (versionGrainId gid))), store.get gid with
  | .ok v, some b => migrations V.migrate (List.range' v (V.stateVersion - v)) b
  | _, _ => []

variable {migrate} {b b' : Bytes}

theorem migrations_append {vs ws} (h : vs.foldlM (fun b v => migrate v b) b = .ok b') :
    migrations migrate (vs ++ ws) b = migrations migrate vs b ++ migrations migrate ws b' := by
  induction vs generalizing b with
  | nil =>
    obtain rfl : b = b' := by simpa [pure, Except.pure] using h
    rfl
  | cons v vs ih =>
    rw [foldlM_cons] at h
    cases hv : migrate v b with
    | error err =>
      rw [hv] at h
      cases h
    | ok b₁ =>
      rw [hv] at h
      simp [migrations, hv, ih h]

theorem versions_migrations (vs b) : (migrations migrate vs b).map Prod.fst <+: vs := by
  induction vs generalizing b with
  | nil => exact prefix_rfl
  | cons v vs ih =>
    rw [migrations, map_cons]
    refine cons_prefix_cons.mpr ⟨rfl, ?_⟩
    cases migrate v b with
    | ok b' => exact ih b'
    | error err => exact nil_prefix

theorem versions_migrations_of_ok {vs} (h : vs.foldlM (fun b v => migrate v b) b = .ok b') :
    (migrations migrate vs b).map Prod.fst = vs := by
  induction vs generalizing b with
  | nil => rfl
  | cons v vs ih =>
    rw [foldlM_cons] at h
    cases hv : migrate v b with
    | error err =>
      rw [hv] at h
      cases h
    | ok b₁ =>
      rw [hv] at h
      simp [migrations, hv, ih h]

end Migrations

/-- No message is taken from the mailbox, and the store does not answer with an error. -/
def MailboxEvent.graceful {S : Type} : MailboxEvent S → Bool
  | recv _ => false
  | e => !e.faulty

/-! ## State types and their migrations -/

/-- The state types of a versioned grain, with their serializers, the migrations between them, and
the codec of the tag, which reads back a version of 32 bits. -/
structure Schemas where
  State : ℕ → Type
  serializer : ∀ v, Serializer (State v)
  migrate : ℕ → Bytes → Except PersistenceError Bytes
  encodeVersion : ℕ → Bytes
  decodeVersion : Bytes → Except PersistenceError ℕ
  decode_encode : ∀ v < 2 ^ 32, decodeVersion (encodeVersion v) = .ok v
  canonical : ∀ v b b', migrate v b = .ok b' → ∃ x : State (v + 1),
    (serializer (v + 1)).serialize x = .ok b' ∧ (serializer (v + 1)).deserialize b' = .ok x

namespace Schemas

variable (D : Schemas)

/-- The bytes the serializer of version `v` writes for a state it reads back. -/
def Canonical (v : ℕ) (b : Bytes) : Prop :=
  ∃ x, (D.serializer v).serialize x = .ok b ∧ (D.serializer v).deserialize b = .ok x

def versioned (v : ℕ) : VersionedGrain where
  stateVersion := v
  migrate := D.migrate
  encodeVersion := D.encodeVersion
  decodeVersion := D.decodeVersion

def load (v : ℕ) (store : WriteLog GrainId Bytes) (gid : GrainId) :
    Except PersistenceError (Option (D.State v)) :=
  (D.versioned v).loadVersionedState (D.serializer v) store gid

def args (v : ℕ) (grain : Grain (D.State v)) (strategy : PersistenceStrategy) :
    PersistentArgs (D.State v) where
  grain := grain
  strategy := strategy
  serializer := D.serializer v
  entry := .runVersioned (D.versioned v)

variable {D} {s m c : ℕ} {gid : GrainId} {b₀ b : Bytes} {store : WriteLog GrainId Bytes}

theorem canonical_of_migrateChain (hsm : s ≤ m) (hb : s < m ∨ D.Canonical s b₀)
    (h : (D.versioned m).migrateChain s b₀ = .ok b) : D.Canonical m b := by
  have hmig : ∀ v b b', v < (D.versioned m).stateVersion → D.Canonical v b →
      (D.versioned m).migrate v b = .ok b' → D.Canonical (v + 1) b' :=
    fun v b b' _ _ hv => D.canonical v b b' hv
  rcases hb with hlt | hb
  · obtain ⟨k, rfl⟩ : ∃ k, m = s + 1 + k := ⟨m - s - 1, by omega⟩
    have hk : (D.versioned (s + 1 + k)).stateVersion - s = k + 1 := by
      simp only [versioned]
      omega
    rw [migrateChain, hk, range'_succ, foldlM_cons] at h
    cases hv : (D.versioned (s + 1 + k)).migrate s b₀ with
    | error err =>
      rw [hv] at h
      cases h
    | ok b₁ =>
      rw [hv] at h
      exact foldlM_migrate_encoding hmig (Nat.le_refl _) (D.canonical s b₀ b₁ hv) h
  · exact migrateChain_encoding hmig hsm hb h

theorem migrateChain_trans (hsm : s ≤ m) (hmc : m ≤ c)
    (h : (D.versioned m).migrateChain s b₀ = .ok b) :
    (D.versioned c).migrateChain s b₀ = (D.versioned c).migrateChain m b ∧
      migrations D.migrate (range' s (m - s)) b₀ ++ migrations D.migrate (range' m (c - m)) b =
          migrations D.migrate (range' s (c - s)) b₀ := by
  have hrange : range' s (c - s) = range' s (m - s) ++ range' m (c - m) := by
    have hsplit := range'_append_1 (s := s) (m := m - s) (n := c - m)
    rw [Nat.add_sub_of_le hsm] at hsplit
    rw [hsplit]
    congr 1
    omega
  have hm : (range' s (m - s)).foldlM (fun b v => D.migrate v b) b₀ = .ok b := h
  refine ⟨?_, ?_⟩
  · simp only [migrateChain, versioned, hrange, foldlM_append, hm]
    rfl
  · rw [hrange, migrations_append hm]

theorem load_eq {v}
    (htag : (D.versioned c).storedVersion (.ok (store.get (versionGrainId gid))) = .ok v)
    (hv : v ≤ c) (hb : store.get gid = some b) :
    D.load c store gid = (do
      let b' ← (D.versioned c).migrateChain v b
      return some (← (D.serializer c).deserialize b')) :=
  loadVersionedState_eq _ htag hv hb

theorem exists_of_load {x} (hsm : s ≤ m) (hcanon : s < m ∨ D.Canonical s b₀)
    (htag : (D.versioned m).storedVersion (.ok (store.get (versionGrainId gid))) = .ok s)
    (hb₀ : store.get gid = some b₀) (hload : D.load m store gid = .ok (some x)) :
    ∃ b, (D.versioned m).migrateChain s b₀ = .ok b ∧ (D.serializer m).serialize x = .ok b := by
  rw [load_eq htag hsm hb₀] at hload
  cases hchain : (D.versioned m).migrateChain s b₀ with
  | error err =>
    rw [hchain] at hload
    cases hload
  | ok b =>
    obtain ⟨y, hser, hdes⟩ := canonical_of_migrateChain hsm hcanon hchain
    simp only [hchain, bind, Except.bind, hdes, pure, Except.pure, Except.ok.injEq,
      Option.some.injEq] at hload
    exact ⟨b, rfl, hload ▸ hser⟩

theorem loadMigrations_eq {v}
    (htag : (D.versioned c).storedVersion (.ok (store.get (versionGrainId gid))) = .ok v)
    (hb : store.get gid = some b) :
    (D.versioned c).loadMigrations store gid = migrations D.migrate (range' v (c - v)) b := by
  simp only [loadMigrations, htag, hb]
  rfl

/-! ## A deployment on the way -/

variable (D) in
/-- How far an activation of version `m` has come that found a state of version `s`, loaded it as
`x`, and gets no message. `b` are the bytes it writes back. -/
def At (gid : GrainId) (s m : ℕ) (m₀ : Shared) (x : D.State m) (b : Bytes)
    (u : Activation (D.State m) × Shared) : Phase (D.State m) → Prop
  | .loadVersion => u.2 = m₀
  | .loadState v => v = s ∧ u.2 = m₀
  | .activate | .loop | .drain | .deactivate | .serialize => u.1.state = x ∧ u.2 = m₀
  | .save bytes _ => bytes = b ∧ u.2 = m₀
  | .saveVersion => u.2 = m₀.save gid b
  | .remove | .ended =>
    u.2 = (m₀.save gid b).save (versionGrainId gid) (D.encodeVersion m)
  | _ => False

variable (D) in
/-- An activation of version `m` over `m₀` ends gracefully, without a message, and leaves `m₁`. -/
def Upgraded (m : ℕ) (grain : Grain (D.State m)) (strategy : PersistenceStrategy) (gid : GrainId)
    (m₀ m₁ : Shared) : Prop :=
  ∃ es a, exec ((D.args m grain strategy).transition gid) ((D.args m grain strategy).start, m₀) es =
    some (a, m₁) ∧ a.phase = .ended ∧ ∀ e ∈ es, e.graceful = true

/-- The phases an activation without messages goes through, counted from its end. -/
def left {S : Type} : Phase S → ℕ
  | .loadVersion => 10
  | .loadState _ => 9
  | .activate => 8
  | .loop => 7
  | .drain => 6
  | .deactivate => 5
  | .serialize => 4
  | .save _ _ => 3
  | .saveVersion => 2
  | .remove => 1
  | _ => 0

/-- The activation is well formed and has no handler task. -/
structure Passing (grain : Grain (D.State m)) (gid : GrainId) (s : ℕ) (m₀ : Shared)
    (x : D.State m) (b : Bytes) (u : Activation (D.State m) × Shared) : Prop where
  wf : u.1.WF grain.reentrant
  handlers : u.1.handlers = []
  place : D.At gid s m m₀ x b u u.1.phase

theorem Passing.start (grain strategy gid s m₀ x b) :
    Passing grain gid s m₀ x b ((D.args m grain strategy).start, m₀) :=
  ⟨start_wf (p := D.args m grain strategy), rfl, rfl⟩

theorem eq_none_of_not_faulty {S : Type} {fault}
    (h : (MailboxEvent.load fault : MailboxEvent S).faulty = false) : fault = none := by
  cases fault with
  | none => rfl
  | some err => cases h

theorem Passing.here {grain m₀ x u} (h : Passing grain gid s m₀ x b u)
    {ph} (hp : u.1.phase = ph) : D.At gid s m m₀ x b u ph :=
  hp ▸ h.place

section Passing

variable {grain : Grain (D.State m)} {strategy : PersistenceStrategy} {m₀ : Shared}
  {x : D.State m}
  (hact : ∀ y, grain.onActivate y = .ok y) (hdeact : ∀ y, (grain.onDeactivate y).state = y)
  (htag : (D.versioned m).storedVersion (.ok (m₀.store.get (versionGrainId gid))) = .ok s)
  (hmig : (D.versioned m).migrateLoaded (D.serializer m) s (.ok (m₀.store.get gid)) =
    .ok (some x))
  (hser : (D.serializer m).serialize x = .ok b)

include hact hdeact htag hmig hser

theorem Passing.step {u v e} (h : Passing grain gid s m₀ x b u) (hgr : e.graceful = true)
    (hstep : (D.args m grain strategy).transition gid u e = some v) :
    Passing grain gid s m₀ x b v := by
  obtain ⟨a, mem⟩ := u
  obtain ⟨a', mem'⟩ := v
  have hs := step_sound hstep
  have hw := hs.wf h.wf
  have hok : e.faulty = false := by
    cases e <;> first | rfl | simpa [MailboxEvent.graceful] using hgr
  have hhandlers : a.handlers = [] := h.handlers
  have hno : ∀ {k : ℕ} {y : Handler (D.State m)}, a.handlers[k]? ≠ some y := by
    intro k y
    simp [hhandlers]
  cases hs with
  | @loadTag fault v V hp he hv =>
    obtain rfl := eq_none_of_not_faulty hok
    have hm : mem = m₀ := h.here hp
    obtain rfl := PersistentEntry.runVersioned.inj he
    rw [loadAnswer, hm, htag] at hv
    exact ⟨hw, hhandlers, (Except.ok.inj hv).symm, hm⟩
  | @loadVersioned fault v r V hp he hr =>
    obtain rfl := eq_none_of_not_faulty hok
    obtain ⟨rfl, hm⟩ := h.here hp
    obtain rfl := PersistentEntry.runVersioned.inj he
    have hm' : mem = m₀ := hm
    have hr' : (D.versioned m).migrateLoaded (D.serializer m) v (.ok (mem.store.get gid)) =
        .ok r := hr
    rw [hm', hmig] at hr'
    obtain rfl := Except.ok.inj hr'
    exact ⟨hw, hhandlers, rfl, hm⟩
  | @loadFailed fault hp hf =>
    obtain rfl := eq_none_of_not_faulty hok
    -- The answers of the store are those the state was loaded from.
    cases hph : a.phase with
    | loadVersion =>
      have hm := h.here hph
      rw [hph] at hf
      obtain ⟨V, err, he, hv⟩ := hf
      obtain rfl := PersistentEntry.runVersioned.inj he
      rw [loadAnswer, hm, htag] at hv
      cases hv
    | loadState v =>
      obtain ⟨rfl, hm⟩ := h.here hph
      have hm' : mem = m₀ := hm
      rw [hph] at hf
      obtain ⟨V, err, he, hv⟩ := hf
      obtain rfl := PersistentEntry.runVersioned.inj he
      have hv' : (D.versioned m).migrateLoaded (D.serializer m) v (.ok (mem.store.get gid)) =
          .error err := hv
      rw [hm', hmig] at hv'
      cases hv'
    | load => exact (h.here hph).elim
    | _ =>
      rw [hph] at hp
      cases hp
  | activateOk hp hs =>
    refine ⟨hw, hhandlers, ?_⟩
    obtain ⟨hx, hm⟩ := h.here hp
    rw [show (D.args m grain strategy).grain = grain from rfl, hact] at hs
    obtain rfl := Outcome.ok.inj hs
    exact ⟨hx, hm⟩
  | activatePanic hp hs =>
    rw [show (D.args m grain strategy).grain = grain from rfl, hact] at hs
    cases hs
  | closed hp | idleTimeout hp =>
    rw [h.wf.idle hp] at hw ⊢
    exact ⟨hw, hhandlers, h.here hp⟩
  | drain hp | drained hp => exact ⟨hw, hhandlers, h.here hp⟩
  | deactivate hp =>
    obtain ⟨hx, hm⟩ := h.here hp
    refine ⟨hw, hhandlers, ?_, hm⟩
    exact (hdeact a.state).trans hx
  | serialize hp hb =>
    obtain ⟨hx, hm⟩ := h.here hp
    refine ⟨hw, hhandlers, ?_, hm⟩
    have hb' : (D.serializer m).serialize a.state = .ok _ := hb
    rw [show a.state = x from hx, hser] at hb'
    exact (Except.ok.inj hb').symm
  | serializeRefused hp hb =>
    obtain ⟨hx, -⟩ := h.here hp
    have hb' : (D.serializer m).serialize a.state = .error _ := hb
    rw [show a.state = x from hx, hser] at hb'
    cases hb'
  | saveVersioned hp =>
    obtain ⟨rfl, hm⟩ := h.here hp
    refine ⟨hw, hhandlers, ?_⟩
    show mem.save gid _ = m₀.save gid _
    rw [show mem = m₀ from hm]
  | tag hp he =>
    refine ⟨hw, hhandlers, ?_⟩
    have hm : mem = m₀.save gid b := h.here hp
    obtain rfl := PersistentEntry.runVersioned.inj he
    show mem.save _ _ = _
    rw [hm]
    rfl
  | remove hp => exact ⟨hw, hhandlers, h.here hp⟩
  | saveRetry | saveGivenUp | tagRefused | flushRefused | handlerSaveRefused => cases hok
  | recv | spawn => cases hgr
  | save hp he | saveReplicated hp he => cases he
  | acquire hk | runOk hk | runPanic hk | release hk | handlerSave hk | handlerSend hk
  | join hk => exact absurd hk hno
  | _ hp => exact (h.here hp).elim

omit hdeact in
theorem Passing.progress {u} (h : Passing grain gid s m₀ x b u) : u.1.phase = .ended ∨ ∃ e v,
      (D.args m grain strategy).transition gid u e = some v ∧ e.graceful = true ∧
        left v.1.phase < left u.1.phase := by
  obtain ⟨a, mem⟩ := u
  have hent : (D.args m grain strategy).entry = .runVersioned (D.versioned m) := rfl
  have hgrain : (D.args m grain strategy).grain = grain := rfl
  have hcodec : (D.args m grain strategy).serializer = D.serializer m := rfl
  rw [or_iff_not_imp_left]
  intro hend
  simp only [transition]
  cases hp : a.phase with
  | loadVersion =>
    have hm : mem = m₀ := h.here hp
    refine ⟨.load none, ({ a with phase := .loadState s }, mem), ?_, rfl, by simp [left]⟩
    simp [PersistentArgs.step, loadStep, hp, hent, loadAnswer, hm, htag]
  | loadState v =>
    obtain ⟨rfl, hm⟩ := h.here hp
    have hm' : mem = m₀ := hm
    refine ⟨.load none, (a.begin x, mem), ?_, rfl, by simp [begin, left]⟩
    simp [PersistentArgs.step, loadStep, hp, hent, hcodec, loadAnswer, hm', hmig]
  | activate =>
    refine ⟨.onActivate 0, ({ a.record .activate a.state with
      phase := .loop, fsm := .idle, lastSave := 0 }, mem), ?_, rfl, by simp [left]⟩
    simp only [PersistentArgs.step, hp, hgrain, hact]
  | loop =>
    cases hr : grain.reentrant with
    | false =>
      have hfsm : a.fsm = .idle := h.wf.idle hp
      refine ⟨.closed, (a.settle (a.fsm.next .channelClosed), mem), ?_, rfl, ?_⟩
      · simp only [PersistentArgs.step, hp, hgrain, hr]
      · simp [hfsm, ActivationState.next, settle, left]
    | true =>
      refine ⟨.closed, ({ a with phase := .drain }, mem), ?_, rfl, by simp [left]⟩
      simp only [PersistentArgs.step, hp, hgrain, hr]
  | drain =>
    have hnone : a.handlers = [] := h.handlers
    refine ⟨.drained, ({ a with phase := .deactivate }, mem), ?_, rfl, by simp [left]⟩
    simp [PersistentArgs.step, hp, inFlight, hnone]
  | deactivate =>
    refine ⟨.onDeactivate, ({ a.record .deactivate (grain.onDeactivate a.state).state with
      phase := .serialize }, mem), ?_, rfl, by simp [left]⟩
    simp only [PersistentArgs.step, hp, hgrain]
  | serialize =>
    have hx : a.state = x := (h.here hp).1
    refine ⟨.serialize, ({ a with phase := .save b 1 }, mem), ?_, rfl, by simp [left]⟩
    simp only [PersistentArgs.step, hp, hcodec, hx, hser]
  | save bytes n =>
    refine ⟨.save none, ({ a with saved := a.saved ++ [a.turns.length], phase := .saveVersion },
      mem.save gid bytes), ?_, rfl, by simp [left]⟩
    simp only [PersistentArgs.step, saveStep, hp, hent]
  | saveVersion =>
    refine ⟨.save none, ({ a with phase := .remove },
      mem.save (versionGrainId gid) (D.encodeVersion m)), ?_, rfl, by simp [left]⟩
    simp only [PersistentArgs.step, saveStep, hp, hent]
    rfl
  | remove =>
    refine ⟨.remove, ({ a with phase := .ended }, mem), ?_, rfl, by simp [left]⟩
    simp only [PersistentArgs.step, hp]
  | ended => exact absurd hp hend
  | _ => exact (h.here hp).elim

theorem eq_of_upgraded {m₁} (h : D.Upgraded m grain strategy gid m₀ m₁) :
    m₁ = (m₀.save gid b).save (versionGrainId gid) (D.encodeVersion m) := by
  obtain ⟨es, a, hrun, hend, hgr⟩ := h
  have hpass := exec_invariant (P := fun _ e => e.graceful = true ∧ True)
    (fun _ _ _ he h hstep => h.step hact hdeact htag hmig hser he.1 hstep)
    (Passing.start grain strategy gid s m₀ x b) (Along.and_forall hgr (along_true es _)) hrun
  have hpl := hpass.place
  rw [show (a, m₁).1.phase = .ended from hend] at hpl
  exact hpl

theorem exists_upgraded : ∃ m₁, D.Upgraded m grain strategy gid m₀ m₁ := by
  obtain ⟨es, u, hrun, hgr, -, hend⟩ : ∃ es u, exec ((D.args m grain strategy).transition gid)
      ((D.args m grain strategy).start, m₀) es = some u ∧ (∀ e ∈ es, e.graceful = true) ∧
      Passing grain gid s m₀ x b u ∧ u.1.phase = .ended := by
    refine exists_exec_of_rank (fun u => left u.1.phase) (fun u hu => ?_)
      (Passing.start grain strategy gid s m₀ x b)
    rcases hu.progress hact htag hmig hser with hend | ⟨e, v, hs, he, hlt⟩
    · exact Or.inl hend
    · exact Or.inr ⟨e, v, hs, he, hu.step hact hdeact htag hmig hser he hs, hlt⟩
  exact ⟨u.2, es, u.1, hrun, hend, hgr⟩

end Passing

/-- What version `m` writes back is what it has read, migrated to `m`, so both ways make the same
calls of `migrate` and load the same state. -/
theorem upgrade_path_independent (D : Schemas) {s m c : ℕ} (hsm : s ≤ m) (hmc : m ≤ c)
    (hm : m < 2 ^ 32) (grain : Grain (D.State m)) (strategy : PersistenceStrategy)
    (hact : ∀ y, grain.onActivate y = .ok y) (hdeact : ∀ y, (grain.onDeactivate y).state = y)
    (gid : GrainId) (m₀ : Shared) {b₀ : Bytes} {x : D.State m}
    (htag : (D.versioned m).storedVersion (.ok (m₀.store.get (versionGrainId gid))) = .ok s)
    (hb₀ : m₀.store.get gid = some b₀) (hcanon : s < m ∨ D.Canonical s b₀)
    (hload : D.load m m₀.store gid = .ok (some x)) :
    (∃ m₁, D.Upgraded m grain strategy gid m₀ m₁) ∧
    ∀ m₁, D.Upgraded m grain strategy gid m₀ m₁ → D.load c m₁.store gid = D.load c m₀.store gid ∧
      (D.versioned m).loadMigrations m₀.store gid ++ (D.versioned c).loadMigrations m₁.store gid =
        (D.versioned c).loadMigrations m₀.store gid ∧
      ((D.versioned c).loadMigrations m₀.store gid).map Prod.fst <+: range' s (c - s) ∧
      ∀ y, D.load c m₀.store gid = .ok (some y) →
        ((D.versioned c).loadMigrations m₀.store gid).map Prod.fst = range' s (c - s) := by
  obtain ⟨b, hchain, hser⟩ := exists_of_load hsm hcanon htag hb₀ hload
  have hmig : (D.versioned m).migrateLoaded (D.serializer m) s (.ok (m₀.store.get gid)) =
      .ok (some x) := by
    simpa only [load, loadVersionedState, htag, bind, Except.bind] using hload
  refine ⟨exists_upgraded hact hdeact htag hmig hser, ?_⟩
  intro m₁ hup
  obtain rfl := eq_of_upgraded hact hdeact htag hmig hser hup
  have htag₀ : (D.versioned c).storedVersion (.ok (m₀.store.get (versionGrainId gid))) = .ok s :=
    htag
  -- What the store holds after the activation of version `m`.
  have htag₁ : (D.versioned c).storedVersion (.ok (((m₀.save gid b).save (versionGrainId gid)
      (D.encodeVersion m)).store.get (versionGrainId gid))) = .ok m := by
    rw [Shared.store_save, WriteLog.get_write_self]
    exact storedVersion_tag _ (D.decode_encode m hm)
  have hb₁ : ((m₀.save gid b).save (versionGrainId gid) (D.encodeVersion m)).store.get gid =
      some b := by
    simp [versionGrainId_ne]
  obtain ⟨hsame, hcalls⟩ := migrateChain_trans hsm hmc hchain
  have hsc := Nat.le_trans hsm hmc
  refine ⟨?_, ?_, ?_, ?_⟩
  · rw [load_eq htag₁ hmc hb₁, load_eq htag₀ hsc hb₀, hsame]
  · rw [loadMigrations_eq htag hb₀, loadMigrations_eq htag₁ hb₁, loadMigrations_eq htag₀ hb₀]
    exact hcalls
  · rw [loadMigrations_eq htag₀ hb₀]
    exact versions_migrations _ _
  · intro y hy
    rw [loadMigrations_eq htag₀ hb₀]
    rw [load_eq htag₀ hsc hb₀] at hy
    cases hc : (D.versioned c).migrateChain s b₀ with
    | ok b' => exact versions_migrations_of_ok hc
    | error err =>
      rw [hc] at hy
      cases hy

def counters : Schemas where
  State := fun _ => UInt8
  serializer := fun _ => (counter false .writeThrough (.run false)).serializer
  migrate := fun _ bytes => match bytes with
    | [n] => .ok [n + 1]
    | _ => .error (.deserialization "not one byte")
  encodeVersion := fun v => [UInt8.ofNat v, UInt8.ofNat (v / 2 ^ 8), UInt8.ofNat (v / 2 ^ 16),
    UInt8.ofNat (v / 2 ^ 24)]
  decodeVersion := fun bytes => match bytes with
    | [a, b, c, d] => .ok (a.toNat + b.toNat * 2 ^ 8 + c.toNat * 2 ^ 16 + d.toNat * 2 ^ 24)
    | _ => .error (.deserialization "not four bytes")
  decode_encode := by
    intro v hv
    simp only [UInt8.toNat_ofNat', Except.ok.injEq]
    omega
  canonical := by
    intro v b b' h
    match b, h with
    | [n], h =>
      obtain rfl := Except.ok.inj h
      exact ⟨n + 1, rfl, rfl⟩

def atZero : Shared where
  store := WriteLog.write [] ⟨"Counter", "k"⟩ [5]
  sinks := fun _ => ⟨0, []⟩

theorem upgrade_path_independent_counters :
    ∃ m₁, counters.Upgraded 1 (counter true .writeThrough (.run false)).grain .writeThrough
        ⟨"Counter", "k"⟩ atZero m₁ ∧
      counters.load 3 m₁.store ⟨"Counter", "k"⟩ = .ok (some (8 : UInt8)) ∧
      (counters.versioned 1).loadMigrations atZero.store ⟨"Counter", "k"⟩ = [(0, [5])] ∧
      (counters.versioned 3).loadMigrations m₁.store ⟨"Counter", "k"⟩ = [(1, [6]), (2, [7])] := by
  obtain ⟨⟨m₁, hup⟩, hall⟩ := upgrade_path_independent counters (s := 0) (m := 1) (c := 3)
    (by decide) (by decide) (by decide) (counter true .writeThrough (.run false)).grain
    .writeThrough (fun _ => rfl) (fun _ => rfl) ⟨"Counter", "k"⟩ atZero (x := (6 : UInt8))
    (by decide) (show _ = some [5] by decide) (Or.inl (by decide)) rfl
  obtain ⟨hload, hcalls, -, -⟩ := hall m₁ hup
  have hfirst : (counters.versioned 1).loadMigrations atZero.store ⟨"Counter", "k"⟩ = [(0, [5])] :=
    by decide
  have hboth : (counters.versioned 3).loadMigrations atZero.store ⟨"Counter", "k"⟩ =
      [(0, [5]), (1, [6]), (2, [7])] := by decide
  rw [hfirst, hboth] at hcalls
  exact ⟨m₁, hup, hload, hfirst, append_cancel_left hcalls⟩

end Schemas

end Orlando
