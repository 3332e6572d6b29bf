import Orlando.PlainStep
import Orlando.Silo
import Orlando.Snapshots

/-!
# What every task of a silo keeps

A mailbox step of a silo is a step of one of the two mailbox relations (`MailboxKind.step_cases`).
`Silo.Step.origin` says where each task of a silo comes from, and what mailbox steps keep holds of
every task (`Silo.Step.forall_tasks`) : each is sound (`Silo.Step.tasksSound`), and none writes
under a key that is not its grain's or its grain's version tag (`MailboxKind.store_get_of_ne`).
-/

namespace Orlando

open List Phase

variable {S : Type} {a a' : Activation S} {e : MailboxEvent S} {gid key : GrainId} {m m' : Shared}
  {ph : Phase S}

theorem Phase.isEnded_of_loading (h : ph.loading = true) : ph.isEnded = false :=
  of_loading (P := fun ph => ph.isEnded = false) h (fun _ => rfl) rfl fun _ => rfl

theorem Phase.isEnded_of_inLoop (h : ph.inLoop = true) : ph.isEnded = false :=
  of_inLoop (P := fun ph => ph.isEnded = false) h rfl rfl

namespace PersistentArgs

variable {p : PersistentArgs S} {gid : GrainId} {a a' : Activation S} {m m' : Shared}
  {e : MailboxEvent S}

theorem Step.phase_cases (hs : p.Step gid a m e a' m') (hw : a.WF p.grain.reentrant) :
    (∃ fault, e = .load fault ∧ a.phase.loading = true) ∨
      (a.phase.loading = false ∧ a.phase.isEnded = false) := by
  cases hs with
  | loadRetry hp | loadTag hp | loadRun hp | loadVersioned hp =>
    exact .inl ⟨_, rfl, by rw [hp]; rfl⟩
  | loadFailed hp => exact .inl ⟨_, rfl, hp⟩
  | acquire hk | runOk hk | runPanic hk | release hk | handlerSave hk | handlerSaveRefused hk
  | handlerSend hk | join hk =>
    have hl := hw.inLoop hk (by simp)
    exact .inr ⟨loading_of_inLoop hl, isEnded_of_inLoop hl⟩
  | _ hp => exact .inr (hp ▸ ⟨rfl, rfl⟩)

theorem Step.running (hs : p.Step gid a m e a' m') (hw : a.WF p.grain.reentrant) :
    a.phase.isEnded = false := by
  rcases hs.phase_cases hw with ⟨fault, -, hl⟩ | ⟨-, he⟩
  · exact isEnded_of_loading hl
  · exact he

end PersistentArgs

namespace MailboxKind

variable {kind : MailboxKind S} {gid : GrainId} {a a' : Activation S} {m m' : Shared}
  {e : MailboxEvent S}

theorem step_cases (h : kind.step gid a m e = some (a', m')) :
    (∃ g, kind = .plain g ∧ g.Step a e a' ∧ m' = m) ∨
      ∃ p, kind = .persistent p ∧ p.Step gid a m e a' m' := by
  cases kind with
  | plain g =>
    simp only [step] at h
    split at h
    · rename_i hr
      obtain ⟨a₁, ha, h'⟩ := Option.map_eq_some_iff.mp h
      cases h'
      exact .inl ⟨g, rfl, Grain.reentrantMailboxStep_sound hr ha, rfl⟩
    · rename_i hr
      obtain ⟨a₁, ha, h'⟩ := Option.map_eq_some_iff.mp h
      cases h'
      exact .inl ⟨g, rfl, Grain.mailboxStep_sound (by simpa using hr) ha, rfl⟩
  | persistent p => exact .inr ⟨p, rfl, PersistentArgs.step_sound h⟩

theorem step_of_plain {g} (hk : kind = .plain g)
    (h : kind.step gid a m e = some (a', m')) : g.Step a e a' ∧ m' = m := by
  rcases step_cases h with ⟨g', hg', hs⟩ | ⟨p, hp, -⟩
  · obtain rfl := plain.inj (hk.symm.trans hg')
    exact hs
  · cases hk.symm.trans hp

/-- A task of this kind is well formed, and if persistent, all it holds is of states it
has had. -/
def Sound (a : Activation S) : MailboxKind S → Prop
  | plain g => a.WF g.reentrant
  | persistent p => p.Sound a

theorem start_sound (kind : MailboxKind S) : kind.Sound kind.start := by
  cases kind with
  | plain g => exact g.start_wf
  | persistent p => exact PersistentArgs.start_sound

theorem step_keeps_sound (h : kind.step gid a m e = some (a', m')) (hs : kind.Sound a) :
    kind.Sound a' := by
  rcases step_cases h with ⟨g, rfl, hst, -⟩ | ⟨p, rfl, hst⟩
  · exact hst.wf hs
  · exact hst.sound hs

end MailboxKind

theorem PersistentArgs.Step.store_get_of_ne {p : PersistentArgs S} (hs : p.Step gid a m e a' m')
    (hk : gid ≠ key) (hv : versionGrainId gid ≠ key) : m'.store.get key = m.store.get key := by
  cases hs
  case flush | flushReplicated | save | saveReplicated | saveVersioned | handlerSave =>
    exact WriteLog.get_write_ne _ _ hk
  case tag => exact WriteLog.get_write_ne _ _ hv
  all_goals rfl

theorem MailboxKind.store_get_of_ne {kind : MailboxKind S} (h : kind.step gid a m e = some (a', m'))
    (hk : gid ≠ key) (hv : versionGrainId gid ≠ key) : m'.store.get key = m.store.get key := by
  rcases step_cases h with ⟨g, -, -, rfl⟩ | ⟨p, -, hstep⟩
  · rfl
  · exact hstep.store_get_of_ne hk hv

/-- Two grains none of whose keys is one of the other's. -/
def apart (gid gid' : GrainId) : Bool :=
  gid' != gid && gid' != versionGrainId gid && versionGrainId gid' != gid

theorem of_apart {gid gid'} (h : apart gid gid' = true) :
    gid' ≠ gid ∧ gid' ≠ versionGrainId gid ∧ versionGrainId gid' ≠ gid := by
  simpa [apart, and_assoc] using h

namespace Silo

variable {s s' : Silo S} {e : SiloEvent S} {t : Task S}

inductive Origin (s s' : Silo S) (e : SiloEvent S) (t' : Task S) : Prop
  /-- It was there and its mailbox function takes no step. -/
  | kept {t : Task S} (ht : t ∈ s.tasks) (hgid : t.gid = t'.gid) (hkind : t.kind = t'.kind)
    (hact : t.act = t'.act) (hab : t'.aborted = false → t.aborted = false)
  | moved {i t ev} (hi : s.tasks[i]? = some t)
    (he : e = .recv i ∧ (∃ env, ev = .recv env) ∨ e = .mailbox i ev) (hgid : t.gid = t'.gid)
    (hkind : t.kind = t'.kind) (hab : t.aborted = false)
    (hstep : t.kind.step t.gid t.act s.shared ev = some (t'.act, s'.shared))
  | created {k} (he : e = .enter k) (hk : s.calls[k]? = some ⟨t'.gid, t'.kind, .entry⟩)
    (ho : s.openTask t'.gid = none) (hact : t'.act = t'.kind.start)

section

variable (h : Step s s' e)
include h

theorem Step.origin {t'} (ht' : t' ∈ s'.tasks) : Origin s s' e t' := by
  cases h with
  | idle _ ht _ => exact .kept (ht ▸ ht') rfl rfl rfl id
  | channel hi _ _ _ ht | detach _ hi _ ht =>
    rcases mem_or_eq_of_mem_set (ht ▸ ht') with ht' | rfl
    · exact .kept ht' rfl rfl rfl id
    · exact .kept (mem_of_getElem? hi) rfl rfl rfl id
  | mailbox he hi hab hstep queue _ ht hm =>
    rcases mem_or_eq_of_mem_set (ht ▸ ht') with ht' | rfl
    · exact .kept ht' rfl rfl rfl id
    · exact .moved hi he rfl rfl hab (hm ▸ hstep)
  | spawn hk ho _ ht _ =>
    rcases mem_append.mp (ht ▸ ht') with ht' | ht'
    · exact .kept ht' rfl rfl rfl id
    · obtain rfl := mem_singleton.mp ht'
      exact .created rfl hk ho rfl
  | abort hi _ _ ht _ =>
    rcases mem_or_eq_of_mem_set (ht ▸ ht') with ht' | rfl
    · exact .kept ht' rfl rfl rfl id
    · exact .kept (mem_of_getElem? hi) rfl rfl rfl fun hab => absurd hab (by simp)
  | restart _ ht _ =>
    obtain ⟨t, ht₀, rfl⟩ := mem_map.mp (ht ▸ ht')
    exact .kept ht₀ rfl rfl rfl fun hab => absurd hab (by simp)

theorem Step.successor (ht : t ∈ s.tasks) :
    ∃ t' ∈ s'.tasks, t'.gid = t.gid ∧ t'.kind = t.kind ∧ (t'.act = t.act ∨
      ∃ ev m, t.kind.step t.gid t.act s.shared ev = some (t'.act, m)) := by
  have hset : ∀ {i u u'}, s.tasks[i]? = some u → s'.tasks = s.tasks.set i u' →
      u'.gid = u.gid → u'.kind = u.kind → (u'.act = u.act ∨
        ∃ ev m, u.kind.step u.gid u.act s.shared ev = some (u'.act, m)) →
      ∃ t' ∈ s'.tasks, t'.gid = t.gid ∧ t'.kind = t.kind ∧ (t'.act = t.act ∨
        ∃ ev m, t.kind.step t.gid t.act s.shared ev = some (t'.act, m)) := by
    intro i u u' hi hs' hgid hkind hact
    obtain ⟨j, hj⟩ := getElem?_of_mem ht
    by_cases hij : i = j
    · obtain rfl := hij
      cases hi.symm.trans hj
      refine ⟨u', ?_, hgid, hkind, hact⟩
      rw [hs']
      exact mem_of_getElem? (getElem?_set_of_lookup hi)
    · refine ⟨t, mem_of_getElem? (i := j) ?_, rfl, rfl, .inl rfl⟩
      rw [hs', getElem?_set_ne hij]
      exact hj
  cases h with
  | idle _ hts _ => exact ⟨t, hts ▸ ht, rfl, rfl, .inl rfl⟩
  | channel hi _ _ _ hts | detach _ hi _ hts | abort hi _ _ hts =>
    exact hset hi hts rfl rfl (.inl rfl)
  | mailbox he hi hab hstep queue _ hts _ => exact hset hi hts rfl rfl (.inr ⟨_, _, hstep⟩)
  | spawn hk ho _ hts _ => exact ⟨t, hts ▸ mem_append_left _ ht, rfl, rfl, .inl rfl⟩
  | restart _ hts _ =>
    refine ⟨{ t with aborted := true }, ?_, rfl, rfl, .inl rfl⟩
    rw [hts]
    exact mem_map_of_mem ht

theorem Step.shared_cases :
    (s'.shared.store = s.shared.store ∧
      ∀ gid, (s'.shared.sinks gid).entries = (s.shared.sinks gid).entries) ∨
    ∃ t ∈ s.tasks, ∃ ev a, t.kind.step t.gid t.act s.shared ev = some (a, s'.shared) := by
  cases h with
  | idle _ _ hm | channel _ _ _ _ _ hm | spawn _ _ _ _ hm | detach _ _ _ _ hm
  | abort _ _ _ _ hm => exact .inl ⟨by rw [hm], fun gid => by rw [hm]⟩
  | mailbox _ hi _ hstep _ _ _ hm => exact .inr ⟨_, mem_of_getElem? hi, _, _, hm ▸ hstep⟩
  | restart _ _ hm hsinks => exact .inl ⟨hm, hsinks⟩

theorem Step.forall_tasks {I : GrainId → MailboxKind S → Activation S → Prop}
    (hstart : ∀ gid kind, I gid kind kind.start)
    (hkeep : ∀ {i t ev a},
      s.tasks[i]? = some t → (e = .recv i ∧ (∃ env, ev = .recv env) ∨ e = .mailbox i ev) →
      I t.gid t.kind t.act → t.kind.step t.gid t.act s.shared ev = some (a, s'.shared) →
      I t.gid t.kind a) (hI : ∀ t ∈ s.tasks, I t.gid t.kind t.act) :
    ∀ t ∈ s'.tasks, I t.gid t.kind t.act := by
  intro t' ht'
  cases h.origin ht' with
  | kept ht hgid hkind hact => exact hgid ▸ hkind ▸ hact ▸ hI _ ht
  | moved hi he hgid hkind _ hstep =>
    exact hgid ▸ hkind ▸ hkeep hi he (hI _ (mem_of_getElem? hi)) hstep
  | created _ _ _ hact => exact hact ▸ hstart _ _

theorem Step.forall_served
    {Q : GrainId → MailboxKind S → Prop} (hcalls : ∀ c ∈ s.calls, Q c.gid c.kind)
    (hQ : ∀ t ∈ s.tasks, t.aborted = false → Q t.gid t.kind) :
    ∀ t ∈ s'.tasks, t.aborted = false → Q t.gid t.kind := by
  intro t' ht' hab
  cases h.origin ht' with
  | kept ht hgid hkind _ hab' => exact hgid ▸ hkind ▸ hQ _ ht (hab' hab)
  | moved hi _ hgid hkind hab' _ => exact hgid ▸ hkind ▸ hQ _ (mem_of_getElem? hi) hab'
  | created _ hk _ _ => exact hcalls _ (mem_of_getElem? hk)

theorem Step.mem_tasks (ht : t ∈ s'.tasks) :
    (∃ t₀ ∈ s.tasks, t₀.gid = t.gid ∧ t₀.kind = t.kind) ∨
      ∃ k, e = .enter k ∧ s.calls[k]? = some ⟨t.gid, t.kind, .entry⟩ ∧ s.openTask t.gid = none := by
  cases h.origin ht with
  | kept ht hgid hkind => exact .inl ⟨_, ht, hgid, hkind⟩
  | moved hi _ hgid hkind => exact .inl ⟨_, mem_of_getElem? hi, hgid, hkind⟩
  | created he hk ho => exact .inr ⟨_, he, hk, ho⟩

end

def TasksSound (s : Silo S) : Prop :=
  ∀ t ∈ s.tasks, t.kind.Sound t.act

theorem Step.tasksSound (h : Step s s' e) (hs : s.TasksSound) : s'.TasksSound :=
  h.forall_tasks (I := fun _ kind a => kind.Sound a) (fun _ kind => kind.start_sound)
    (fun _ _ hsound hstep => MailboxKind.step_keeps_sound hstep hsound) hs

theorem mem_calls_of_step (h : s.step e = some s') {c} (hc : c ∈ s'.calls) :
    (∃ c₀ ∈ s.calls, c₀.gid = c.gid ∧ c₀.kind = c.kind) ∨ e = .getOrInsert c.gid c.kind := by
  have hkept : c ∈ s.calls → (∃ c₀ ∈ s.calls, c₀.gid = c.gid ∧ c₀.kind = c.kind) ∨
      e = .getOrInsert c.gid c.kind := fun hc => .inl ⟨c, hc, rfl, rfl⟩
  cases move_of_step h with
  | @draining gid =>
    have hcalls : (s.existing gid).calls = s.calls := by
      unfold existing
      split <;> rfl
    exact hkept (hcalls ▸ hc)
  | called =>
    rcases mem_append.mp hc with hc | hc
    · exact hkept hc
    · obtain rfl := mem_singleton.mp hc
      exact .inr rfl
  | admitted hk =>
    rcases mem_or_eq_of_mem_set hc with hc | rfl
    · exact hkept hc
    · exact .inl ⟨_, mem_of_getElem? hk, rfl, rfl⟩
  | full | found | spawned => exact hkept (mem_of_mem_eraseIdx hc)
  | restart => simp [init] at hc
  | _ => exact hkept hc

theorem lookup_of_afterMailbox {gid gid' e i}
    (h : (s.afterMailbox gid' e).lookup gid = some i) : s.activations.lookup gid = some i := by
  cases e with
  | remove => exact lookup_of_erase h
  | _ => exact h

def gids (s : Silo S) : List GrainId :=
  s.tasks.map Task.gid

def Named (s : Silo S) : Prop :=
  ∀ gid i, s.activations.lookup gid = some i → s.gids[i]? = some gid

/-- No task changes its grain, and entries are still of tasks of their grains. -/
structure KeepsGrains (s s' : Silo S) : Prop where
  gids : s.gids <+: s'.gids
  named : s.Named → s'.Named

theorem keepsGrains_of_gids_eq (hg : s'.gids = s.gids)
    (ha : ∀ gid i, s'.activations.lookup gid = some i → s.activations.lookup gid = some i) :
    KeepsGrains s s' where
  gids := hg ▸ prefix_refl _
  named h gid i hl := hg ▸ h gid i (ha gid i hl)

theorem keepsGrains_of_spawn {gid} (hgid : t.gid = gid)
    (ha : s'.activations = s.activations.insert gid s.tasks.length)
    (ht : s'.tasks = s.tasks ++ [t]) :
    KeepsGrains s s' := by
  have hgids : s'.gids = s.gids ++ [gid] := by
    rw [Silo.gids, ht, map_append, map_singleton, hgid, Silo.gids]
  refine ⟨hgids ▸ prefix_append _ _, fun h gid' i hl => ?_⟩
  rw [hgids]
  rw [ha] at hl
  rcases lookup_insert_cases hl with ⟨rfl, rfl⟩ | ⟨-, hl⟩
  · simp [Silo.gids]
  · exact getElem?_snoc_of_some (h gid' i hl)

theorem Step.keepsGrains (h : Step s s' e) : KeepsGrains s s' := by
  cases h with
  | idle ha ht =>
    exact keepsGrains_of_gids_eq (congrArg (List.map Task.gid) ht) fun _ _ hl => ha ▸ hl
  | channel hi _ _ ha ht | abort hi _ ha ht =>
    exact keepsGrains_of_gids_eq ((congrArg (List.map _) ht).trans (map_set_of_eq hi rfl))
      fun _ _ hl => ha ▸ hl
  | mailbox _ hi _ _ queue ha ht =>
    exact keepsGrains_of_gids_eq ((congrArg (List.map _) ht).trans (map_set_of_eq hi rfl))
      fun _ _ hl => lookup_of_afterMailbox (ha ▸ hl)
  | spawn _ _ ha ht => exact keepsGrains_of_spawn rfl ha ht
  | detach _ hi ha ht =>
    exact keepsGrains_of_gids_eq ((congrArg (List.map _) ht).trans (map_set_of_eq hi rfl))
      fun _ _ hl => lookup_of_erase (ha ▸ hl)
  | restart ha ht =>
    refine keepsGrains_of_gids_eq ?_ fun gid i hl => ?_
    · rw [Silo.gids, ht, map_map]
      rfl
    · rw [ha] at hl
      cases hl

theorem Step.created_or_kept (h : Step s s' e) :
    (∃ k gid kind, e = .enter k ∧ s.calls[k]? = some ⟨gid, kind, .entry⟩ ∧ s.openTask gid = none) ∨
    s'.tasks.length = s.tasks.length ∧ ∀ gid, gid ∈ s'.activations → gid ∈ s.activations := by
  have hm : (∀ gid i, s'.activations.lookup gid = some i → s.activations.lookup gid = some i) →
      ∀ gid, gid ∈ s'.activations → gid ∈ s.activations := fun hl gid hgid => by
    obtain ⟨i, hi⟩ := Option.isSome_iff_exists.mp (AList.lookup_isSome.mpr hgid)
    exact AList.lookup_isSome.mp (Option.isSome_iff_exists.mpr ⟨i, hl gid i hi⟩)
  cases h with
  | idle ha ht => exact .inr ⟨congrArg _ ht, hm fun _ _ hl => ha ▸ hl⟩
  | channel _ _ _ ha ht | abort _ _ ha ht =>
    exact .inr ⟨by rw [ht, length_set], hm fun _ _ hl => ha ▸ hl⟩
  | mailbox _ _ _ _ _ ha ht =>
    exact .inr ⟨by rw [ht, length_set], hm fun _ _ hl => lookup_of_afterMailbox (ha ▸ hl)⟩
  | spawn hk ho => exact .inl ⟨_, _, _, rfl, hk, ho⟩
  | detach _ _ ha ht =>
    exact .inr ⟨by rw [ht, length_set], hm fun _ _ hl => lookup_of_erase (ha ▸ hl)⟩
  | restart ha ht =>
    refine .inr ⟨by rw [ht, length_map], hm fun gid i hl => ?_⟩
    rw [ha] at hl
    cases hl

@[simp] theorem draining_existing (gid) : (s.existing gid).draining = s.draining := by
  unfold existing
  split <;> rfl

theorem draining_of_step (h : s.step e = some s') (hdrain : e ≠ .startDrain)
    (hrestart : e ≠ .restart) : s'.draining = s.draining := by
  cases move_of_step h with
  | startDrain => exact absurd rfl hdrain
  | restart => exact absurd rfl hrestart
  | called | admitted | spawned | send | dropRef | recv | mailbox | detach | abort
  | setMaxActivations => rfl
  | _ => exact draining_existing _

end Silo

end Orlando
