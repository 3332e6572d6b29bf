import Orlando.SingleActivation

/-!
# Panics that leave an entry behind

A mailbox function ends with a call of `remove`, and gets there after a panic of `on_activate`, a
handler or `on_deactivate`. A panic of the other user code, `State::default` and the hooks around
loads and saves (`Hook`), is not caught : it unwinds the task, and nobody removes its entry
(`Silo.panicStep`).
-/

namespace Orlando

open List

variable {S : Type}

/-- The user code that the mailbox functions run outside `catch_panic`. -/
inductive Hook where
  | default
  | onBeforeLoad
  | onAfterLoad
  | onBeforeSave
  | onAfterSave
deriving DecidableEq

/-- The load leaves the task without a stored state, so that it asks for the default one. -/
def PersistentArgs.fallsBack (p : PersistentArgs S) (gid : GrainId) (a : Activation S) (m : Shared)
    (fault : Option PersistenceError) : Bool :=
  match a.phase, p.entry with
  | .load n, .run _ =>
    match loadState p.serializer (loadAnswer fault (m.store.get gid)) with
    | .ok s => s.isNone
    | .error _ => decide (3 ≤ n)
  | .loadVersion, .runVersioned V =>
    match V.storedVersion (loadAnswer fault (m.store.get (versionGrainId gid))) with
    | .ok _ => false
    | .error _ => true
  | .loadState v, .runVersioned V =>
    match V.migrateLoaded p.serializer v (loadAnswer fault (m.store.get gid)) with
    | .ok s => s.isNone
    | .error _ => true
  | _, _ => false

/-- What a task leaves behind if the hook panics where the task stands, if it runs there. -/
def MailboxKind.unwind (gid : GrainId) (a : Activation S) (m : Shared)
    (fault : Option PersistenceError) : Hook → MailboxKind S → Option (Activation S × Shared)
  | .default, .plain _ =>
    match a.phase with
    | .activate => some (a, m)
    | _ => none
  | _, .plain _ => none
  | .onBeforeLoad, .persistent _ =>
    match a.phase with
    | .load 1 | .loadVersion => some (a, m)
    | _ => none
  | .default, .persistent p => if p.fallsBack gid a m fault then some (a, m) else none
  | .onAfterLoad, .persistent _ =>
    match a.phase with
    | .activate => some (a, m)
    | _ => none
  | .onBeforeSave, .persistent _ =>
    match a.phase with
    | .flush _ | .serialize => some (a, m)
    | _ => none
  | .onAfterSave, .persistent p =>
    match a.phase with
    -- the store has accepted the save
    | .flush _ | .save _ _ => p.step gid a m (.save none)
    | _ => none

/-- A step of a silo, or a panic outside `catch_panic` in task `i`. -/
inductive PanicEvent (S : Type) where
  | silo (e : SiloEvent S)
  | panic (i : ℕ) (hook : Hook) (fault : Option PersistenceError)

namespace Task

def unwind (t : Task S) (m : Shared) (fault : Option PersistenceError) (hook : Hook) :
    Option (Activation S × Shared) :=
  if t.aborted then none else t.kind.unwind t.gid t.act m fault hook

end Task

namespace Silo

/-- One step of a silo whose user code may panic anywhere. A task that unwinds is gone like an
aborted one, its entry stays. -/
def panicStep (s : Silo S) : PanicEvent S → Option (Silo S)
  | .silo e => s.step e
  | .panic i hook fault =>
    match s.tasks[i]? with
    | some t => (t.unwind s.shared fault hook).map fun r =>
      { s with tasks := s.tasks.set i { t with act := r.1, aborted := true }, shared := r.2 }
    | none => none

/-- Every entry is of a task that has not ended, and the limit counts no more entries than there
are such tasks. -/
structure CleanedUp (s : Silo S) : Prop where
  alive : ∀ gid i, s.activations.lookup gid = some i →
    ∃ t, s.tasks[i]? = some t ∧ t.running = true
  counted : s.activations.keys.length ≤ s.tasks.countP Task.running

def Contained (s : Silo S) : PanicEvent S → Prop
  | .silo _ => True
  | .panic i hook fault => ∀ t, s.tasks[i]? = some t → (t.unwind s.shared fault hook).isSome →
      s.activations.lookup t.gid ≠ some i

/-- Every entry is of a task of its grain that is running and has not been taken out. -/
def Listed (s : Silo S) : Prop :=
  ∀ gid i, s.activations.lookup gid = some i →
    ∃ t, s.tasks[i]? = some t ∧ t.gid = gid ∧ t.detached = false ∧ t.running = true

variable {s s' : Silo S}

theorem Listed.cleanedUp (h : s.Listed) : s.CleanedUp := by
  refine ⟨?_, ?_⟩
  · intro gid i hl
    obtain ⟨t, hi, -, -, hr⟩ := h gid i hl
    exact ⟨t, hi, hr⟩
  · -- the grains of the entries are those of different running tasks
    have hsub : s.activations.keys ⊆ (s.tasks.filter Task.running).map Task.gid := by
      intro gid hgid
      obtain ⟨i, hl⟩ := Option.isSome_iff_exists.mp
        (AList.lookup_isSome.mpr (AList.mem_keys.mpr hgid))
      obtain ⟨t, hi, rfl, -, hr⟩ := h gid i hl
      exact mem_map_of_mem (mem_filter.mpr ⟨mem_of_getElem? hi, hr⟩)
    have hle := (subperm_of_subset s.activations.keys_nodup hsub).length_le
    rwa [length_map, ← countP_eq_length_filter] at hle

theorem init_listed (m) : (Silo.init m : Silo S).Listed := by
  intro gid i hl
  simp [init] at hl

theorem Listed.set {i t u} (h : s.Listed) (hi : s.tasks[i]? = some t)
    (ha : ∀ gid j, s'.activations.lookup gid = some j → s.activations.lookup gid = some j)
    (ht : s'.tasks = s.tasks.set i u) (hgid : u.gid = t.gid)
    (hu : s'.activations.lookup t.gid = some i → t.running = true →
      u.detached = t.detached ∧ u.running = true) : s'.Listed := by
  intro gid j hl
  obtain ⟨v, hj, rfl, hd, hr⟩ := h gid j (ha gid j hl)
  by_cases hij : j = i
  · subst hij
    cases hi.symm.trans hj
    obtain ⟨hud, hur⟩ := hu hl hr
    refine ⟨u, ?_, hgid, hud.trans hd, hur⟩
    rw [ht, getElem?_set_of_lookup hi]
  · refine ⟨v, ?_, rfl, hd, hr⟩
    rw [ht, getElem?_set_ne (Ne.symm hij), hj]

/-- What panics inside `catch_panic`, and all else a silo does, leaves no entry behind. -/
theorem Step.listed {e} (hs : Step s s' e) (h : s.Listed) : s'.Listed := by
  cases hs with
  | idle ha ht => rwa [Listed, ha, ht]
  | channel hi queue refs ha ht =>
    exact h.set hi (fun gid j hl => by rwa [ha] at hl) ht rfl fun _ hr => ⟨rfl, hr⟩
  | @mailbox _ i t ev _ hi hab a m hstep queue ha ht =>
    refine h.set hi (fun gid j hl => lookup_of_afterMailbox (ha ▸ hl)) ht rfl fun hl hr => ?_
    refine ⟨rfl, ?_⟩
    rcases MailboxKind.endsByRemove hstep with ⟨rfl, -, -⟩ | ⟨-, hsame⟩
    · -- `remove` takes out the entry of the task that ends
      rw [ha] at hl
      simp [afterMailbox] at hl
    · simpa [Task.running, hsame] using hr
  | @spawn k gid kind _ _ ha ht =>
    intro gid' i hl
    rw [ha] at hl
    rw [ht]
    rcases lookup_insert_cases hl with ⟨rfl, rfl⟩ | ⟨-, hl⟩
    · refine ⟨_, getElem?_concat_length, rfl, rfl, ?_⟩
      simp [Task.running, kind.start_isEnded]
    · obtain ⟨t, hi, hgid, hd, hr⟩ := h gid' i hl
      exact ⟨t, getElem?_snoc_of_some hi, hgid, hd, hr⟩
  | @detach gid i t hl hi ha ht =>
    refine h.set hi (fun gid' j hl' => lookup_of_erase (ha ▸ hl')) ht rfl fun hl' _ => ?_
    obtain ⟨u, hi', rfl, -, -⟩ := h gid i hl
    cases hi.symm.trans hi'
    rw [ha] at hl'
    simp at hl'
  | @abort i t hi hd ha ht =>
    refine h.set hi (fun gid j hl => by rwa [ha] at hl) ht rfl fun hl _ => ?_
    rw [ha] at hl
    obtain ⟨u, hi', -, hd', -⟩ := h t.gid i hl
    cases hi.symm.trans hi'
    rw [hd] at hd'
    cases hd'
  | restart ha =>
    intro gid i hl
    rw [ha] at hl
    simp at hl

theorem panic_cleanedUp_iff {i hook fault}
    (h : s.Listed) (hs : s.panicStep (.panic i hook fault) = some s') :
    (s'.CleanedUp ↔ s.Contained (.panic i hook fault)) ∧
      (s.Contained (.panic i hook fault) → s'.Listed) := by
  simp only [panicStep] at hs
  cases hi : s.tasks[i]? with
  | none => simp [hi] at hs
  | some t =>
    simp only [hi] at hs
    obtain ⟨r, hr, rfl⟩ := Option.map_eq_some_iff.mp hs
    have hlisted : s.Contained (.panic i hook fault) → Listed { s with
        tasks := s.tasks.set i { t with act := r.1, aborted := true }, shared := r.2 } := by
      intro hc
      refine h.set hi (fun _ _ hl => hl) rfl rfl fun hl _ => ?_
      exact absurd hl (hc t hi (hr ▸ rfl))
    refine ⟨⟨?_, fun hc => (hlisted hc).cleanedUp⟩, hlisted⟩
    rintro ⟨halive, -⟩ u hu - hl
    cases hi.symm.trans hu
    obtain ⟨v, hv, hrun⟩ := halive t.gid i hl
    rw [getElem?_set_of_lookup hi] at hv
    cases hv
    cases hrun

/-- Every entry is of a task that goes on, and the limit counts no more entries than there are such
tasks, exactly if each uncaught panic hits a task whose entry is gone already. -/
theorem cleanup_iff (m₀ : Shared) (es : List (PanicEvent S)) :
    Throughout panicStep CleanedUp (.init m₀) es ↔ Along panicStep Contained (.init m₀) es := by
  refine throughout_iff_along (I := Listed) (fun _ h => h.cleanedUp) ?_ ?_ es _ (init_listed m₀)
  · intro s e h hnone
    cases e with
    | silo e => exact True.intro
    | panic i hook fault =>
      intro t hi hsome
      obtain ⟨r, hr⟩ := Option.isSome_iff_exists.mp hsome
      simp [panicStep, hi, hr] at hnone
  · intro s e s' h hstep
    cases e with
    | silo e =>
      have hlisted := (step_sound hstep).listed h
      exact ⟨iff_of_true hlisted.cleanedUp True.intro, fun _ => hlisted⟩
    | panic i hook fault => exact panic_cleanedUp_iff h hstep

def callFor (key : String) : List (PanicEvent UInt8) :=
  [.silo (.getOrInsert ⟨"Counter", key⟩ (.persistent (counter false .writeThrough (.run false)))),
    .silo (.checkLimit 0)]

/-- A silo with room for one activation. The task of the first grain unwinds in `on_after_load`, and
with no task running a call for another grain is refused. -/
theorem dead_entry_fills_silo :
    ∃ s, exec panicStep (.init .empty)
        ([.silo (.setMaxActivations 1)] ++ callFor "a" ++
          [.silo (.enter 0), .silo (.mailbox 0 (.load none)), .panic 0 .onAfterLoad none] ++
          callFor "b") = some s ∧
      s.activations.lookup ⟨"Counter", "a"⟩ = some 0 ∧ s.tasks.countP Task.running = 0 ∧
      s.tasks.length = 1 ∧ s.calls.length = 0 :=
  ⟨_, rfl, by decide +kernel, by decide +kernel, rfl, rfl⟩

end Silo

end Orlando
