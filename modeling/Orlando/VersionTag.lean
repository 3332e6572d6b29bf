import Orlando.SiloTasks

/-!
# The version tag of a stored state

A versioned grain keeps two keys : its state, and the schema version that state is in.
`load_versioned_state` applies the migrations from the tag on. The tag is written after the final
save; a flush after a message writes the state alone, and the tag falls behind (`tag_falls_behind`).

A run of a silo under a `Rollout` goes to the next deployment at each restart.
-/

namespace Orlando

open List Silo Activation Option VersionedGrain

variable {S : Type}

/-! ## Loading under a tag -/

namespace VersionedGrain

variable {V : VersionedGrain} {encoding : ℕ → Bytes → Prop}

theorem foldlM_migrate_encoding
    (hmig : ∀ v b b', v < V.stateVersion → encoding v b → V.migrate v b = .ok b' →
      encoding (v + 1) b') :
    ∀ {k v b b'}, v + k ≤ V.stateVersion → encoding v b →
      (List.range' v k).foldlM (fun b v => V.migrate v b) b = .ok b' → encoding (v + k) b'
  | 0, v, b, b', _, hb, h => by
    obtain rfl : b = b' := by simpa [pure, Except.pure] using h
    exact hb
  | k + 1, v, b, b', hk, hb, h => by
    rw [range'_succ, foldlM_cons] at h
    cases hv : V.migrate v b with
    | error err =>
      rw [hv] at h
      simp [bind, Except.bind] at h
    | ok b₁ =>
      rw [hv] at h
      have hb₁ := hmig v b b₁ (by omega) hb hv
      have := foldlM_migrate_encoding hmig (k := k) (v := v + 1) (by omega) hb₁ h
      rwa [show v + (k + 1) = v + 1 + k by omega]

theorem migrateChain_encoding
    (hmig : ∀ v b b', v < V.stateVersion → encoding v b → V.migrate v b = .ok b' →
      encoding (v + 1) b') {v b b'} (hv : v ≤ V.stateVersion) (hb : encoding v b)
    (h : V.migrateChain v b = .ok b') : encoding V.stateVersion b' := by
  have := foldlM_migrate_encoding hmig (k := V.stateVersion - v) (by omega) hb h
  rwa [Nat.add_sub_of_le hv] at this

theorem loadVersionedState_eq (ser : Serializer S) {store gid v b}
    (hv : V.storedVersion (.ok (store.get (versionGrainId gid))) = .ok v)
    (hle : v ≤ V.stateVersion) (hb : store.get gid = some b) :
    V.loadVersionedState ser store gid = (do
      let b' ← V.migrateChain v b
      return some (← ser.deserialize b')) := by
  simp only [loadVersionedState, hv, hb, migrateLoaded, bind, Except.bind]
  rw [if_neg (by omega)]

end VersionedGrain

/-! ## Deployments -/

/-- Deployments of one versioned grain type, in order. `encoding v` holds of the bytes in the format
of schema version `v`. -/
structure Rollout (S : Type) where
  grain : ℕ → Grain S
  serializer : ℕ → Serializer S
  stateVersion : ℕ → ℕ
  migrate : ℕ → ℕ → Bytes → Except PersistenceError Bytes
  encodeVersion : ℕ → Bytes
  decodeVersion : Bytes → Except PersistenceError ℕ
  encoding : ℕ → Bytes → Prop
  increasing : ∀ n, stateVersion n ≤ stateVersion (n + 1)
  decode_encode : ∀ n, decodeVersion (encodeVersion (stateVersion n)) = .ok (stateVersion n)
  serialize_encoding : ∀ n s b, (serializer n).serialize s = .ok b → encoding (stateVersion n) b
  migrate_encoding : ∀ n v b b', v < stateVersion n → encoding v b → migrate n v b = .ok b' →
    encoding (v + 1) b'

inductive RolloutEvent (S : Type) where
  | call (strategy : PersistenceStrategy)
  | other (gid : GrainId) (kind : MailboxKind S)
  | silo (e : SiloEvent S)

/-- The task is between its final save and the tag. -/
def Phase.isTagging : Phase S → Bool
  | saveVersion => true
  | _ => false

/-- A write of the state that no tag follows, or a tag that is given up. -/
def Activation.untagged (a : Activation S) : MailboxEvent S → Bool
  | .handler _ (.save none) => true
  | .save none =>
    match a.phase with
    | .flush _ => true
    | _ => false
  | .save (some _) => a.phase.isTagging
  | _ => false

def Task.tagging (gid : GrainId) (t : Task S) : Bool :=
  t.gid == gid && !t.aborted && t.act.phase.isTagging

def Silo.tagging (gid : GrainId) (s : Silo S) : Bool :=
  s.tasks.any (Task.tagging gid)

variable {gid : GrainId}

namespace Rollout

variable (R : Rollout S)

def versioned (n : ℕ) : VersionedGrain where
  stateVersion := R.stateVersion n
  migrate := R.migrate n
  encodeVersion := R.encodeVersion
  decodeVersion := R.decodeVersion

def args (n : ℕ) (strategy : PersistenceStrategy) : PersistentArgs S where
  grain := R.grain n
  strategy := strategy
  serializer := R.serializer n
  entry := .runVersioned (R.versioned n)

def siloEvent (gid : GrainId) (n : ℕ) : RolloutEvent S → Option (SiloEvent S)
  | .call strategy => some (.getOrInsert gid (.persistent (R.args n strategy)))
  | .other gid' kind => if gid' = gid then none else some (.getOrInsert gid' kind)
  | .silo (.getOrInsert _ _) => none
  | .silo e => some e

/-- The deployment after a step : a restart brings the next one. -/
def next (n : ℕ) : SiloEvent S → ℕ
  | .restart => n + 1
  | _ => n

def step (gid : GrainId) (x : ℕ × Silo S) (e : RolloutEvent S) : Option (ℕ × Silo S) :=
  (R.siloEvent gid x.1 e).bind fun ev => (x.2.step ev).map fun s => (next x.1 ev, s)

def recorded (gid : GrainId) (store : WriteLog GrainId Bytes) : Option ℕ :=
  ((R.versioned 0).storedVersion (.ok (store.get (versionGrainId gid)))).toOption

def current (gid : GrainId) (n : ℕ) (store : WriteLog GrainId Bytes) : Bool :=
  R.recorded gid store == some (R.stateVersion n)

def Agrees (gid : GrainId) (n : ℕ) (store : WriteLog GrainId Bytes) : Prop :=
  ∃ v, v ≤ R.stateVersion n ∧ R.recorded gid store = some v ∧
    ∀ b, store.get gid = some b → R.encoding v b

/-- A load by deployment `n` applies to the stored bytes the migrations from the version
they are in to its own, and no other. -/
def LoadsExactly (gid : GrainId) (n : ℕ) (store : WriteLog GrainId Bytes) : Prop :=
  ∀ b, store.get gid = some b → ∃ v, R.encoding v b ∧
    (R.versioned n).loadVersionedState (R.serializer n) store gid = (do
      let b' ← (R.versioned n).migrateChain v b
      return some (← (R.serializer n).deserialize b')) ∧
    ∀ b', (R.versioned n).migrateChain v b = .ok b' → R.encoding (R.stateVersion n) b'

/-- No other grain uses the two keys, a flush finds its version recorded, and nothing ends a task
between its final save and the tag. -/
def tagged (gid : GrainId) (x : ℕ × Silo S) : RolloutEvent S → Bool
  | .other gid' _ => apart gid gid'
  | .silo (.mailbox i ev) =>
    match x.2.tasks[i]? with
    | some t => t.gid != gid || !t.act.untagged ev || R.current gid x.1 x.2.shared.store
    | none => true
  | .silo (.abort i) =>
    match x.2.tasks[i]? with
    | some t => !t.tagging gid || R.current gid x.1 x.2.shared.store
    | none => true
  | .silo .restart => !x.2.tagging gid || R.current gid x.1 x.2.shared.store
  | _ => true

variable {R} {n : ℕ} {store store' : WriteLog GrainId Bytes}

theorem storedVersion_of_recorded {v} (h : R.recorded gid store = some v) (k) :
    (R.versioned k).storedVersion (.ok (store.get (versionGrainId gid))) = .ok v := by
  have hk : (R.versioned k).storedVersion = (R.versioned 0).storedVersion := rfl
  unfold recorded at h
  rw [hk]
  cases hv : (R.versioned 0).storedVersion (.ok (store.get (versionGrainId gid))) with
  | error err =>
    rw [hv] at h
    simp [Except.toOption] at h
  | ok w =>
    rw [hv] at h
    rw [some.inj h]

theorem stateVersion_mono {k} (h : n ≤ k) : R.stateVersion n ≤ R.stateVersion k := by
  induction h with
  | refl => exact Nat.le_refl _
  | step _ ih => exact Nat.le_trans ih (R.increasing _)

theorem Agrees.loadsExactly (h : R.Agrees gid n store) {k} (hk : n ≤ k) :
    R.LoadsExactly gid k store := by
  intro b hb
  obtain ⟨v, hle, hv, henc⟩ := h
  have hle' := Nat.le_trans hle (stateVersion_mono hk)
  refine ⟨v, henc b hb, ?_, ?_⟩
  · exact loadVersionedState_eq _ (storedVersion_of_recorded hv k) hle' hb
  · intro b' hb'
    exact migrateChain_encoding (V := R.versioned k) (R.migrate_encoding k) hle' (henc b hb) hb'

/-! ## State and tag in the store -/

variable (R) in
/-- State and tag while a final save is, or is not, in the midst of its two writes. -/
structure InStep (gid : GrainId) (n : ℕ) (store : WriteLog GrainId Bytes) (tagging : Bool) :
    Prop where
  recorded : ∃ v, v ≤ R.stateVersion n ∧ R.recorded gid store = some v
  window : tagging = true → ∃ b, store.get gid = some b ∧ R.encoding (R.stateVersion n) b
  agrees : (tagging = true → R.current gid n store = true) →
    ∀ v b, R.recorded gid store = some v → store.get gid = some b → R.encoding v b

namespace InStep

variable {tagging tagging' : Bool}

theorem agrees_iff_current : R.current gid n store = true ↔
    R.recorded gid store = some (R.stateVersion n) := by
  simp [current]

section

variable (h : R.InStep gid n store tagging)
include h

theorem frame (hs : store'.get gid = store.get gid)
    (ht : store'.get (versionGrainId gid) = store.get (versionGrainId gid)) :
    R.InStep gid n store' tagging := by
  have hrec : R.recorded gid store' = R.recorded gid store := by simp [Rollout.recorded, ht]
  refine ⟨hrec ▸ h.recorded, hs ▸ h.window, fun hc v b hv hb => ?_⟩
  refine h.agrees (fun hg => ?_) v b (hrec ▸ hv) (hs ▸ hb)
  simpa [current, hrec] using hc hg

theorem close (hc : tagging = true → tagging' = true ∨ R.current gid n store = true)
    (ht : tagging' = true → tagging = true) : R.InStep gid n store tagging' := by
  refine ⟨h.recorded, fun hg => h.window (ht hg), fun hcur => h.agrees fun hg => ?_⟩
  rcases hc hg with hg' | hcur'
  · exact hcur hg'
  · exact hcur'

theorem save {bytes} (hb : R.encoding (R.stateVersion n) bytes)
    (hc : R.current gid n store = true ∨ tagging' = true) :
    R.InStep gid n (store.write gid bytes) tagging' := by
  have hrec : R.recorded gid (store.write gid bytes) = R.recorded gid store := by
    simp [Rollout.recorded, (versionGrainId_ne gid).symm]
  refine ⟨hrec ▸ h.recorded, fun _ => ⟨bytes, by simp, hb⟩, fun hcur v b hv hget => ?_⟩
  obtain rfl : bytes = b := by simpa using hget
  have hcur' : R.current gid n store = true := by
    rcases hc with hc | ht
    · exact hc
    · simpa [current, hrec] using hcur ht
  rw [hrec, agrees_iff_current.mp hcur'] at hv
  cases hv
  exact hb

end

theorem tag (h : R.InStep gid n store true) :
    R.InStep gid n (store.write (versionGrainId gid) (R.encodeVersion (R.stateVersion n)))
      tagging' := by
  have hrec : R.recorded gid (store.write (versionGrainId gid)
      (R.encodeVersion (R.stateVersion n))) = some (R.stateVersion n) := by
    simp [Rollout.recorded, storedVersion, versioned, R.decode_encode n, bind,
      Except.bind, Except.toOption]
  obtain ⟨b₀, hb₀, henc⟩ := h.window rfl
  have hg : (store.write (versionGrainId gid) (R.encodeVersion (R.stateVersion n))).get gid =
      some b₀ := by
    rw [WriteLog.get_write_ne _ _ (versionGrainId_ne gid), hb₀]
  refine ⟨⟨_, Nat.le_refl _, hrec⟩, fun _ => ⟨b₀, hg, henc⟩, fun _ v b hv hb => ?_⟩
  rw [hrec] at hv
  rw [hg] at hb
  cases hv
  cases hb
  exact henc

theorem restart (h : R.InStep gid n store tagging)
    (hc : tagging = true → R.current gid n store = true) : R.InStep gid (n + 1) store false := by
  obtain ⟨v, hle, hv⟩ := h.recorded
  exact ⟨⟨v, Nat.le_trans hle (R.increasing n), hv⟩, fun ht => absurd ht (by simp),
    fun _ => h.agrees hc⟩

end InStep

end Rollout

/-! ## What a step does to state and tag -/

theorem isTagging_settle (a : Activation S) (fsm) : (a.settle fsm).phase.isTagging = false :=
  phase_settle (P := fun ph => ph.isTagging = false) rfl rfl rfl a fsm

namespace PersistentArgs

variable {p : PersistentArgs S} {a a' : Activation S} {m m' : Shared} {e : MailboxEvent S}
  {V : VersionedGrain}

inductive TagEffect (p : PersistentArgs S) (V : VersionedGrain) (gid : GrainId)
    (a : Activation S) (m : Shared) (e : MailboxEvent S) (a' : Activation S) (m' : Shared) : Prop
  | none (hm : m'.store = m.store) (ht : a'.phase.isTagging = a.phase.isTagging)
  | state {s bytes} (hb : p.serializer.serialize s = .ok bytes)
    (hm : m'.store = m.store.write gid bytes) (ht : a.untagged e = true ∨ a'.phase.isTagging = true)
  | tag (ht : a.phase.isTagging = true)
    (hm : m'.store = m.store.write (versionGrainId gid) (V.encodeVersion V.stateVersion))
  | givenUp (hu : a.untagged e = true) (hm : m'.store = m.store)
    (ht : a'.phase.isTagging = false)

theorem Sound.serialize_phase (h : p.Sound a) {n bytes sv sd}
    (ht : a.slots p.replicated none = some ⟨n, bytes, sv, sd⟩) :
    ∃ s, p.serializer.serialize s = .ok bytes :=
  ⟨_, (h.held none _ ht).2⟩

theorem Step.tagEffect (hs : p.Step gid a m e a' m') (hsd : p.Sound a)
    (hV : p.entry = .runVersioned V) : p.TagEffect V gid a m e a' m' := by
  have hrep : p.replicated = false := by simp [replicated, hV]
  -- The phases other than `saveVersion` write no tag, whatever the next one is.
  have hn : ∀ {ph b}, a.phase = ph → ph.isTagging = false →
      b.phase.isTagging = false → p.TagEffect V gid a m e b m := by
    intro ph b hp hph hb
    exact .none rfl (by rw [hb, hp, hph])
  cases hs with
  | loadFailed hp =>
    have hph : a.phase.isTagging = false :=
      Phase.of_loading (P := fun ph => ph.isTagging = false) hp (fun _ => rfl) rfl fun _ => rfl
    exact hn rfl hph rfl
  | closed hp | idleTimeout hp | handlePanic hp | skip hp | serializeFailed hp | flushRefused hp =>
    exact hn hp rfl (isTagging_settle _ _)
  | replicate _ _ hr | flushReplicated _ hr => cases hrep.symm.trans hr
  | flush hp =>
    obtain ⟨s, hb⟩ := hsd.serialize_phase (by rw [slots, hp]; rfl)
    exact .state hb rfl (.inl (by simp [untagged, hp]))
  | publish hp => exact .none rfl (by rw [isTagging_settle, hp]; rfl)
  | spawn | acquire | runOk | runPanic | release | handlerSaveRefused | handlerSend | join =>
    exact .none rfl rfl
  | handlerSave hk =>
    have hheld := hsd.held _ _ ((slots_some hk).trans rfl)
    exact .state hheld.2 rfl (.inl rfl)
  | save _ he | saveReplicated _ he => cases hV.symm.trans he
  | saveVersioned hp =>
    obtain ⟨s, hb⟩ := hsd.serialize_phase (by rw [slots, hp]; rfl)
    exact .state hb rfl (.inr rfl)
  | finalPublish hp => exact .none rfl (hp ▸ rfl)
  | tag hp he =>
    obtain rfl : V = _ := PersistentEntry.runVersioned.inj (hV.symm.trans he)
    exact .tag (hp ▸ rfl) rfl
  | tagRefused hp => exact .givenUp (by simp [untagged, hp, Phase.isTagging]) rfl rfl
  | _ hp => exact hn hp rfl rfl

end PersistentArgs

/-! ## Final saves in their midst -/

namespace Silo

variable {s s' : Silo S} {i : ℕ} {t u : Task S}

theorem tagging_of_set (hi : s.tasks[i]? = some t) (ht : s'.tasks = s.tasks.set i u)
    (hu : u.tagging gid = true) : s'.tagging gid = true := by
  have hlt := lt_of_getElem? hi
  exact any_eq_true.mpr ⟨u, ht ▸ mem_set hlt u, hu⟩

theorem tagging_before_set (ht : s'.tasks = s.tasks.set i u) (h : s'.tagging gid = true) :
    u.tagging gid = true ∨ s.tagging gid = true := by
  obtain ⟨x, hx, hxt⟩ := any_eq_true.mp h
  rcases mem_or_eq_of_mem_set (ht ▸ hx) with hx | rfl
  · exact .inr (any_eq_true.mpr ⟨x, hx, hxt⟩)
  · exact .inl hxt

theorem tagging_after_set (hi : s.tasks[i]? = some t) (ht : s'.tasks = s.tasks.set i u)
    (h : s.tagging gid = true) : t.tagging gid = true ∨ s'.tagging gid = true := by
  obtain ⟨x, hx, hxt⟩ := any_eq_true.mp h
  obtain ⟨j, hj⟩ := getElem?_of_mem hx
  by_cases hij : i = j
  · subst hij
    cases hi.symm.trans hj
    exact .inl hxt
  · refine .inr (any_eq_true.mpr ⟨x, ht ▸ mem_of_getElem? (i := j) ?_, hxt⟩)
    rw [getElem?_set_ne hij, hj]

theorem tagging_set (hi : s.tasks[i]? = some t) (ht : s'.tasks = s.tasks.set i u)
    (hu : u.tagging gid = t.tagging gid) : s'.tagging gid = s.tagging gid := by
  rw [Bool.eq_iff_iff]
  refine ⟨fun h => ?_, fun h => ?_⟩
  · rcases tagging_before_set ht h with h | h
    · exact any_eq_true.mpr ⟨t, mem_of_getElem? hi, hu ▸ h⟩
    · exact h
  · rcases tagging_after_set hi ht h with h | h
    · exact tagging_of_set hi ht (hu.trans h)
    · exact h

end Silo

namespace Rollout

variable {R : Rollout S} {gid gid' : GrainId} {n : ℕ} {s s' : Silo S} {e : RolloutEvent S}
  {ev : SiloEvent S}

variable (R) in
def Serves (gid : GrainId) (n : ℕ) (gid' : GrainId) (kind : MailboxKind S) : Prop :=
  (gid' = gid ∧ ∃ strategy, kind = .persistent (R.args n strategy)) ∨ apart gid gid' = true

variable (R) in
structure Inv (gid : GrainId) (x : ℕ × Silo S) : Prop where
  sound : x.2.TasksSound
  tasks : ∀ t ∈ x.2.tasks, t.aborted = false → R.Serves gid x.1 t.gid t.kind
  calls : ∀ c ∈ x.2.calls, R.Serves gid x.1 c.gid c.kind
  inStep : R.InStep gid x.1 x.2.shared.store (x.2.tagging gid)

theorem siloEvent_cases (h : R.siloEvent gid n e = some ev) :
    e = .silo ev ∨ (∃ strategy, ev = .getOrInsert gid (.persistent (R.args n strategy))) ∨
      ∃ gid' kind, e = .other gid' kind ∧ ev = .getOrInsert gid' kind := by
  cases e with
  | call strategy =>
    cases h
    exact .inr (.inl ⟨strategy, rfl⟩)
  | other gid' kind =>
    simp only [siloEvent] at h
    split at h
    · cases h
    · cases h
      exact .inr (.inr ⟨gid', kind, rfl, rfl⟩)
  | silo e =>
    cases e with
    | getOrInsert gid' kind => simp [siloEvent] at h
    | _ => exact .inl (congrArg RolloutEvent.silo (some.inj h))

section

variable (h : R.Inv gid (n, s)) {mev : MailboxEvent S} {a : Activation S} {m : Shared}
include h

theorem Inv.calls_step {e ev} (hg : R.tagged gid (n, s) e = true)
    (he : R.siloEvent gid n e = some ev) (hstep : s.step ev = some s') :
    ∀ c ∈ s'.calls, R.Serves gid n c.gid c.kind := by
  intro c hc
  rcases mem_calls_of_step hstep hc with ⟨c₀, hc₀, hgid, hkind⟩ | rfl
  · exact hgid ▸ hkind ▸ h.calls c₀ hc₀
  · rcases siloEvent_cases he with rfl | ⟨strategy, hev⟩ | ⟨gid', kind, rfl, hev⟩
    · simp [siloEvent] at he
    · obtain ⟨hgid, hkind⟩ := SiloEvent.getOrInsert.inj hev
      exact .inl ⟨hgid, strategy, hkind⟩
    · obtain ⟨rfl, rfl⟩ := SiloEvent.getOrInsert.inj hev
      exact .inr hg

theorem Inv.inStep_other {i t u} (hap : apart gid t.gid = true)
    (hi : s.tasks[i]? = some t) (hs : t.kind.step t.gid t.act s.shared mev = some (a, m))
    (hu : u.gid = t.gid) (ht : s'.tasks = s.tasks.set i u) (hm : s'.shared = m) :
    R.InStep gid n s'.shared.store (s'.tagging gid) := by
  obtain ⟨hne, hnv, hvn⟩ := of_apart hap
  have hvv :=  fun hv => hne (versionGrainId_injective hv)
  have hfalse : ∀ x : Task S, x.gid = t.gid → x.tagging gid = false := by
    intro x hx
    simp [Task.tagging, hx, hne]
  rw [tagging_set hi ht ((hfalse u hu).trans (hfalse t rfl).symm), hm]
  exact h.inStep.frame (MailboxKind.store_get_of_ne hs hne hvn)
    (MailboxKind.store_get_of_ne hs hnv hvv)

theorem Inv.inStep_mailbox {i t queue strategy} (hgid : t.gid = gid)
    (hkind : t.kind = .persistent (R.args n strategy)) (hab : t.aborted = false)
    (hi : s.tasks[i]? = some t) (hs : t.kind.step t.gid t.act s.shared mev = some (a, m))
    (hg : t.act.untagged mev = true → R.current gid n s.shared.store = true)
    (ht : s'.tasks = s.tasks.set i { t with act := a, queue := queue }) (hm : s'.shared = m) :
    R.InStep gid n s'.shared.store (s'.tagging gid) := by
  subst hgid hm
  have hsd := h.sound t (mem_of_getElem? hi)
  rw [hkind] at hs hsd
  have htag : ∀ x, ({ t with act := x, queue := queue } : Task S).tagging t.gid =
      x.phase.isTagging := by
    intro x
    simp [Task.tagging, hab]
  have htag' : t.tagging t.gid = t.act.phase.isTagging := by simp [Task.tagging, hab]
  cases (PersistentArgs.step_sound hs).tagEffect hsd rfl with
  | none hst hsame =>
    rw [tagging_set hi ht (by rw [htag, htag', hsame]), hst]
    exact h.inStep
  | state hb hst hu =>
    rw [hst]
    refine h.inStep.save (R.serialize_encoding n _ _ hb) ?_
    rcases hu with hu | hu
    · exact .inl (hg hu)
    · exact .inr (tagging_of_set hi ht ((htag a).trans hu))
  | tag hp hst =>
    have hwin : s.tagging t.gid = true :=
      any_eq_true.mpr ⟨t, mem_of_getElem? hi, htag'.trans hp⟩
    rw [hst]
    exact (hwin ▸ h.inStep).tag
  | givenUp hu hst hp =>
    rw [hst]
    refine h.inStep.close (fun _ => .inr (hg hu)) fun hwin => ?_
    rcases tagging_before_set ht hwin with hself | hbefore
    · rw [htag, hp] at hself
      cases hself
    · exact hbefore

end

theorem isTagging_start (kind : MailboxKind S) : kind.start.phase.isTagging = false := by
  cases kind with
  | plain g => rfl
  | persistent p =>
    simp only [MailboxKind.start, PersistentArgs.start]
    cases p.entry <;> rfl

theorem Inv.restart (h : R.Inv gid (n, s)) (hg : R.tagged gid (n, s) (.silo .restart) = true)
    (hs : s.step .restart = some s') : R.Inv gid (n + 1, s') := by
  have hsound := (step_sound hs).tasksSound h.sound
  cases hs
  have haborted : ∀ t, t ∈ s.tasks.map (fun t => { t with aborted := true }) →
      t.aborted = true := by
    intro t ht
    obtain ⟨t₀, -, rfl⟩ := mem_map.mp ht
    rfl
  have hclosed : tagging gid { Silo.init { s.shared with
      sinks := fun gid => { s.shared.sinks gid with nextSequence := 0 } } with
      tasks := s.tasks.map fun t => { t with aborted := true } } = false := by
    simp [tagging, Task.tagging]
  refine ⟨hsound, fun t ht hab => ?_, fun c hc => absurd hc (by simp [Silo.init]), ?_⟩
  · exact absurd (haborted t ht) (by simp [hab])
  · rw [hclosed]
    exact h.inStep.restart (by simpa [tagged, Bool.or_eq_true, imp_iff_not_or] using hg)

theorem Inv.inStep_step (h : R.Inv gid (n, s)) (hg : R.tagged gid (n, s) e = true)
    (he : R.siloEvent gid n e = some ev) (hev : ev ≠ .restart) (hstep : s.step ev = some s') :
    R.InStep gid n s'.shared.store (s'.tagging gid) := by
  cases step_sound hstep with
  | idle _ ht hm =>
    rw [hm, show s'.tagging gid = s.tagging gid by simp [tagging, ht]]
    exact h.inStep
  | channel hi queue refs _ ht hm =>
    rw [hm, tagging_set hi ht rfl]
    exact h.inStep
  | @mailbox _ i t mev hev hi hab a m hmail queue _ ht hm =>
    rcases h.tasks t (mem_of_getElem? hi) hab with ⟨hgid, strategy, hkind⟩ | hap
    · refine h.inStep_mailbox hgid hkind hab hi hmail (fun hu => ?_) ht hm
      rcases hev with ⟨-, env, rfl⟩ | rfl
      · simp [untagged] at hu
      · rcases siloEvent_cases he with rfl | ⟨_, hev⟩ | ⟨_, _, _, hev⟩
        · simpa [tagged, hi, hgid, hu] using hg
        · cases hev
        · cases hev
    · exact h.inStep_other hap hi hmail (by rfl) ht hm
  | @spawn k gid' kind _ _ _ ht hm =>
    have hnew : s'.tagging gid = s.tagging gid := by
      simp [tagging, ht, Task.tagging, isTagging_start kind]
    rw [hm, hnew]
    exact h.inStep
  | detach _ hi _ ht hm =>
    rw [hm, tagging_set hi ht rfl]
    exact h.inStep
  | @abort i t hi _ _ ht hm =>
    rw [hm]
    rcases siloEvent_cases he with rfl | ⟨_, hev⟩ | ⟨_, _, _, hev⟩
    · simp only [tagged, hi, Bool.or_eq_true, Bool.not_eq_true'] at hg
      refine h.inStep.close (fun hwin => ?_) fun hwin => ?_
      · rcases hg with hg | hg
        · rcases tagging_after_set hi ht hwin with hself | hafter
          · simp [hg] at hself
          · exact .inl hafter
        · exact .inr hg
      · rcases tagging_before_set ht hwin with hself | hbefore
        · simp [Task.tagging] at hself
        · exact hbefore
    · cases hev
    · cases hev
  | restart => exact absurd rfl hev

theorem Inv.step {x x'} (h : R.Inv gid x) (hg : R.tagged gid x e = true)
    (hstep : R.step gid x e = some x') : R.Inv gid x' := by
  obtain ⟨n, s⟩ := x
  obtain ⟨ev, he, hmap⟩ := bind_eq_some_iff.mp hstep
  obtain ⟨s', hs', rfl⟩ := map_eq_some_iff.mp hmap
  by_cases hev : ev = .restart
  · subst hev
    rcases siloEvent_cases he with rfl | ⟨_, hev⟩ | ⟨_, _, _, hev⟩
    · exact h.restart hg hs'
    · cases hev
    · cases hev
  · have hnext : next n ev = n := by
      cases ev <;> first | rfl | exact absurd rfl hev
    have hs := step_sound hs'
    rw [hnext]
    exact ⟨hs.tasksSound h.sound, hs.forall_served h.calls h.tasks, h.calls_step hg he hs',
      h.inStep_step hg he hev hs'⟩

/-- State and tag agree outside final saves, if flushes only happen under the version of the tag and
no final save is cut off before its tag. -/
theorem tag_agrees (R : Rollout S) (gid : GrainId) (m : Shared) (es : List (RolloutEvent S))
    (n : ℕ) (s : Silo S) (hm : R.Agrees gid 0 m.store)
    (hguard : Along (R.step gid) (fun x e => R.tagged gid x e = true) (0, .init m) es)
    (hrun : exec (R.step gid) (0, .init m) es = some (n, s))
    (hquiet : s.tagging gid = true → R.current gid n s.shared.store = true) :
    R.Agrees gid n s.shared.store ∧ ∀ k, n ≤ k → R.LoadsExactly gid k s.shared.store := by
  obtain ⟨v, hle, hv, henc⟩ := hm
  have hinit : R.Inv gid (0, .init m) := by
    refine ⟨?_, ?_, ?_, ⟨v, hle, hv⟩, ?_, fun _ w b hw hb => ?_⟩
    · exact fun t ht => absurd ht (by simp [Silo.init])
    · exact fun t ht => absurd ht (by simp [Silo.init])
    · exact fun c hc => absurd hc (by simp [Silo.init])
    · exact fun ht => absurd ht (by simp [tagging, Silo.init])
    · cases hv.symm.trans hw
      exact henc b hb
  have hinv := exec_invariant (fun _ _ _ hg h hstep => h.step hg hstep) hinit hguard hrun
  have hagrees : R.Agrees gid n s.shared.store := by
    obtain ⟨w, hle, hw⟩ := hinv.inStep.recorded
    exact ⟨w, hle, hw, fun b hb => hinv.inStep.agrees hquiet w b hw hb⟩
  exact ⟨hagrees, fun k hk => hagrees.loadsExactly hk⟩

/-- Deployment `n` has version `n` and pads the byte of the counter with `n` zeros. -/
def paddedCounter : Rollout UInt8 where
  grain := fun _ => (counter false .writeThrough (.run false)).grain
  serializer := fun n =>
    { serialize := fun c => .ok (List.replicate n 0 ++ [c])
      deserialize := fun b =>
        if b.length = n + 1 then .ok (b.getLast?.getD 0)
        else .error (.deserialization "wrong length") }
  stateVersion := fun n => n
  migrate := fun _ _ b => .ok (0 :: b)
  encodeVersion := fun v => List.replicate v 0
  decodeVersion := fun b => .ok b.length
  encoding := fun v b => b.length = v + 1
  increasing := fun n => Nat.le_succ n
  decode_encode := by simp
  serialize_encoding := by
    intro n c b hb
    obtain rfl := Except.ok.inj hb
    simp
  migrate_encoding := by
    intro n v b b' _ hb h
    obtain rfl := Except.ok.inj h
    simpa using hb

def serve (strategy : PersistenceStrategy) (i : ℕ) (k : UInt8) : List (RolloutEvent UInt8) :=
  [.call strategy, .silo (.checkLimit 0), .silo (.enter 0), .silo (.mailbox i (.load none)),
    .silo (.mailbox i (.load none)), .silo (.mailbox i (.onActivate 0)),
    .silo (.send i (addMessage k)), .silo (.recv i), .silo (.mailbox i .handle),
    .silo (.mailbox i (.prepare 0 false))]

/-- Activation `i` leaves its loop and serializes its final state. -/
def leave (i : ℕ) : List (RolloutEvent UInt8) :=
  [.silo (.mailbox i .idleTimeout), .silo (.mailbox i .onDeactivate),
    .silo (.mailbox i .serialize)]

/-- Two deployments, each with an activation that ends in a final save and its tag. -/
def gracefulUpgrade : List (RolloutEvent UInt8) :=
  serve .writeOnDeactivate 0 5 ++ leave 0 ++
    [.silo (.mailbox 0 (.save none)), .silo (.mailbox 0 (.save none)), .silo .restart] ++
    serve .writeOnDeactivate 1 1 ++ leave 1 ++
    [.silo (.mailbox 1 (.save none)), .silo (.mailbox 1 (.save none))]

theorem tag_agrees_counter :
    ∃ s, exec (paddedCounter.step ⟨"Counter", "k"⟩) (0, .init Shared.empty) gracefulUpgrade =
        some (1, s) ∧
      s.shared.store.get ⟨"Counter", "k"⟩ = some [0, 6] ∧
      paddedCounter.Agrees ⟨"Counter", "k"⟩ 1 s.shared.store ∧
      ∀ k, 1 ≤ k → paddedCounter.LoadsExactly ⟨"Counter", "k"⟩ k s.shared.store := by
  refine ⟨_, rfl, by decide, ?_⟩
  exact tag_agrees paddedCounter ⟨"Counter", "k"⟩ Shared.empty gracefulUpgrade 1 _
    ⟨0, by decide, rfl, fun b hb =>
      absurd hb (by simp [Shared.empty, WriteLog.get, WriteLog.writesTo])⟩
    (by decide +kernel) rfl (by decide)

/-- The first flush of deployment 1, and a final save cut off before the tag : the bytes are of
version 1, the tag says 0, and the next load fails. -/
theorem tag_falls_behind :
    (∃ s, exec (paddedCounter.step ⟨"Counter", "k"⟩) (0, .init Shared.empty)
        (serve .writeThrough 0 5 ++ [.silo (.mailbox 0 (.save none)), .silo .restart] ++
          serve .writeThrough 1 1 ++ [.silo (.mailbox 1 (.save none))]) = some (1, s) ∧
      ¬paddedCounter.Agrees ⟨"Counter", "k"⟩ 1 s.shared.store ∧
      (paddedCounter.versioned 1).loadVersionedState (paddedCounter.serializer 1)
        s.shared.store ⟨"Counter", "k"⟩ = .error (.deserialization "wrong length")) ∧
    ∃ s, exec (paddedCounter.step ⟨"Counter", "k"⟩) (0, .init Shared.empty)
        (serve .writeOnDeactivate 0 5 ++ leave 0 ++
          [.silo (.mailbox 0 (.save none)), .silo (.mailbox 0 (.save none)), .silo .restart] ++
          serve .writeOnDeactivate 1 1 ++ leave 1 ++
          [.silo (.mailbox 1 (.save none)), .silo .restart]) = some (2, s) ∧
      ¬paddedCounter.Agrees ⟨"Counter", "k"⟩ 2 s.shared.store := by
  refine ⟨⟨_, rfl, ?_, rfl⟩, _, rfl, ?_⟩
  · rintro ⟨v, -, hv, henc⟩
    obtain rfl : 0 = v := some.inj hv
    have hlen : [(0 : UInt8), 6].length = 0 + 1 := henc [0, 6] rfl
    exact absurd hlen (by decide)
  · rintro ⟨v, -, hv, henc⟩
    obtain rfl : 0 = v := some.inj hv
    have hlen : [(0 : UInt8), 6].length = 0 + 1 := henc [0, 6] rfl
    exact absurd hlen (by decide)

end Rollout

end Orlando
