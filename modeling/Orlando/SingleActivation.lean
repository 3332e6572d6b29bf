import Orlando.Registry
import Orlando.SiloTasks

/-!
# One activation of a grain on a silo

`get_or_insert` takes a dropped receiver for the end of the grain, and a persistent task drops its
receiver before its final save (`Silo.stale`). And the rebalancer takes out an entry while the task
behind it goes on (`Silo.leaving`). In both cases the next call creates a second task
(`second_activation`).
-/

namespace Orlando

open Function List

variable {S : Type} {e : MailboxEvent S} {a a' : Activation S} {gid : GrainId} {m m' : Shared}
  {t : Task S}

namespace MailboxKind

variable {kind : MailboxKind S} {gid : GrainId} {a a' : Activation S} {m m' : Shared}
  {e : MailboxEvent S} {ph : Phase S}

theorem isEnded_settle (a : Activation S) (fsm) : (a.settle fsm).phase.isEnded = false :=
  Activation.phase_settle (P := fun ph => ph.isEnded = false) rfl rfl rfl a fsm

def EndsByRemove (a : Activation S) (e : MailboxEvent S) (a' : Activation S) : Prop :=
  (e = .remove ∧ a.phase.isEnded = false ∧ a'.phase.isEnded = true) ∨
    (e ≠ .remove ∧ a'.phase.isEnded = a.phase.isEnded)

theorem endsByRemove_settle {b : Activation S} {fsm} (he : e ≠ .remove)
    (hp : a.phase = ph) (hn : ph.isEnded = false) : EndsByRemove a e (b.settle fsm) :=
  Or.inr ⟨he, by rw [isEnded_settle, hp, hn]⟩

theorem endsByRemove_phase (he : e ≠ .remove) (hp : a.phase = ph) (hn : ph.isEnded = false)
    (hn' : a'.phase.isEnded = false) : EndsByRemove a e a' :=
  Or.inr ⟨he, by rw [hn', hp, hn]⟩

theorem endsByRemove_plain {g : Grain S} (hs : g.Step a e a') : EndsByRemove a e a' := by
  cases hs with
  | remove hp => exact .inl ⟨rfl, by rw [hp]; rfl, rfl⟩
  | recv hp | drained hp | deactivate hp => exact endsByRemove_phase (by simp) hp rfl rfl
  | drain hp _ he => exact endsByRemove_phase (by rcases he with rfl | rfl <;> simp) hp rfl rfl
  | spawn | acquire | runOk | runPanic | join => exact .inr ⟨by simp, rfl⟩
  | _ hp => exact endsByRemove_settle (by simp) hp rfl

theorem endsByRemove_persistent {p : PersistentArgs S} (hs : p.Step gid a m e a' m') :
    EndsByRemove a e a' := by
  cases hs with
  | remove hp => exact .inl ⟨rfl, by rw [hp]; rfl, rfl⟩
  | loadFailed hp => exact endsByRemove_phase (by simp) rfl (Phase.isEnded_of_loading hp) rfl
  | drain hp _ he => exact endsByRemove_phase (by rcases he with rfl | rfl <;> simp) hp rfl rfl
  | closed hp | idleTimeout hp | handlePanic hp | skip hp | replicate hp | serializeFailed hp
  | flush hp | flushRefused hp | publish hp => exact endsByRemove_settle (by simp) hp rfl
  | spawn | acquire | runOk | runPanic | release | handlerSave | handlerSaveRefused | handlerSend
  | join => exact .inr ⟨by simp, rfl⟩
  | _ hp => exact endsByRemove_phase (by simp) hp rfl rfl

theorem endsByRemove (h : kind.step gid a m e = some (a', m')) : EndsByRemove a e a' := by
  rcases step_cases h with ⟨g, -, hs, -⟩ | ⟨p, -, hs⟩
  · exact endsByRemove_plain hs
  · exact endsByRemove_persistent hs

theorem start_isEnded (kind : MailboxKind S) : kind.start.phase.isEnded = false := by
  cases kind with
  | plain g => rfl
  | persistent p =>
    simp only [start, PersistentArgs.start]
    cases p.entry <;> rfl

end MailboxKind

/-! ## Closed mailboxes -/

theorem PersistentArgs.Step.pastLoop {p : PersistentArgs S} (hs : p.Step gid a m e a' m')
    (h : a.phase.pastLoop = true) : a'.phase.pastLoop = true := by
  cases hs with
  | loadFailed hp =>
    rw [Phase.of_loading (P := fun ph => ph.pastLoop = false) hp (fun _ => rfl) rfl fun _ => rfl]
      at h
    cases h
  | acquire | runOk | runPanic | release | handlerSave | handlerSaveRefused | handlerSend
  | join => exact h
  | deactivate | serialize | serializeRefused | save | saveReplicated | saveVersioned | saveRetry
  | saveGivenUp | finalPublish | tag | tagRefused | remove => rfl
  | _ hp =>
    rw [hp] at h
    cases h

theorem Grain.Step.pastLoop_of_pastLoop {g : Grain S} (hs : g.Step a e a')
    (h : a.phase.pastLoop = true) : a'.phase.pastLoop = true := by
  cases hs with
  | acquire | runOk | runPanic | join => exact h
  | deactivate | remove => rfl
  | _ hp =>
    rw [hp] at h
    cases h

theorem MailboxKind.pastLoop_of_step {kind : MailboxKind S}
    (h : kind.step gid a m e = some (a', m')) (hpast : a.phase.pastLoop = true) :
    a'.phase.pastLoop = true := by
  rcases step_cases h with ⟨g, -, hs, -⟩ | ⟨p, -, hs⟩
  · exact hs.pastLoop_of_pastLoop hpast
  · exact hs.pastLoop hpast

theorem Task.rxDropped_of_step {a : Activation S} (h : t.kind.step t.gid t.act m e = some (a, m'))
    (hrx : t.rxDropped = true) (queue) :
    ({ t with act := a, queue := queue } : Task S).rxDropped = true := by
  unfold Task.rxDropped at hrx ⊢
  cases hab : t.aborted with
  | true => rfl
  | false =>
    rw [hab, Bool.false_or] at hrx
    rw [Bool.false_or]
    cases hk : t.kind with
    | plain g =>
      rw [hk] at hrx
      rcases MailboxKind.endsByRemove h with ⟨-, -, hend⟩ | ⟨-, hsame⟩
      · exact hend
      · exact hsame.trans hrx
    | persistent p =>
      rw [hk] at hrx h
      rcases MailboxKind.step_cases h with ⟨g, hg, -⟩ | ⟨p', hp', hs⟩
      · cases hg
      · exact hs.pastLoop hrx
/-! ## The directory as a registry -/

/-- What the registry knows of a task : its grain, and whether its entry was never taken
out. -/
def Task.live (t : Task S) : Option (GrainId × Bool) :=
  if t.running then some (t.gid, !t.detached) else none

theorem Task.live_eq_some {b} :
    t.live = some (gid, b) ↔ t.running = true ∧ t.gid = gid ∧ t.detached = !b := by
  unfold Task.live
  split
  · rename_i hr
    cases b <;> simp [hr]
  · rename_i hr
    simp [hr]

namespace Silo

variable {s s' : Silo S} {e : SiloEvent S} {i : ℕ} {t : Task S}

def registry (s : Silo S) : Registry GrainId where
  entry := fun gid => s.activations.lookup gid
  live := fun i => s.tasks[i]?.bind Task.live

theorem live_eq_some {x} :
    s.registry.live i = some x ↔ ∃ t, s.tasks[i]? = some t ∧ t.live = some x :=
  Option.bind_eq_some_iff

theorem live_of_getElem? (hi : s.tasks[i]? = some t) : s.registry.live i = t.live := by
  simp [registry, hi]

theorem live_set (u) (hi : s.tasks[i]? = some t) (ht : s'.tasks = s.tasks.set i u) :
    s'.registry.live = update s.registry.live i u.live := by
  have hlt := lt_of_getElem? hi
  funext j
  by_cases hj : j = i
  · subst hj
    simp [registry, ht, hlt]
  · have hij : i ≠ j := fun h => hj h.symm
    simp [registry, ht, hj, getElem?_set_ne hij]

theorem live_set_eq {t u} (hi : s.tasks[i]? = some t) (hu : u.live = t.live)
    (ht : s'.tasks = s.tasks.set i u) : s'.registry.live = s.registry.live := by
  rw [live_set u hi ht, hu, ← live_of_getElem? hi, update_eq_self]

theorem live_snoc (u) (ht : s'.tasks = s.tasks ++ [u]) :
    s'.registry.live = update s.registry.live s.tasks.length u.live := by
  funext j
  rcases Nat.lt_trichotomy j s.tasks.length with hj | hj | hj
  · simp [registry, ht, getElem?_append_left hj, Nat.ne_of_lt hj]
  · subst hj
    simp [registry, ht]
  · have hout : (s.tasks ++ [u])[j]? = none := getElem?_eq_none_iff.mpr (by simp; omega)
    have hout' : s.tasks[j]? = none := getElem?_eq_none_iff.mpr (by omega)
    simp [registry, ht, hout, hout', Nat.ne_of_gt hj]

theorem entry_insert {gid n} (ha : s'.activations = s.activations.insert gid n) :
    s'.registry.entry = update s.registry.entry gid (some n) := by
  funext k
  by_cases hk : k = gid
  · subst hk
    simp [registry, ha]
  · simp [registry, ha, hk, AList.lookup_insert_ne hk]

theorem entry_erase {gid} (ha : s'.activations = s.activations.erase gid) :
    s'.registry.entry = update s.registry.entry gid none := by
  funext k
  by_cases hk : k = gid
  · subst hk
    simp [registry, ha]
  · simp [registry, ha, hk, AList.lookup_erase_ne hk]

theorem entry_eq (ha : s'.activations = s.activations) : s'.registry.entry = s.registry.entry := by
  simp [registry, ha]

theorem registry_create {gid kind} (ha : s'.activations = s.activations.insert gid s.tasks.length)
    (ht : s'.tasks = s.tasks ++ [{ gid, kind, act := kind.start, queue := [], refs := 1,
                                   detached := false, aborted := false }]) :
    s.registry.Step s'.registry (some gid) := by
  refine .create (n := s.tasks.length) (by simp [registry]) (entry_insert ha) ?_
  rw [live_snoc _ ht]
  simp [Task.live, Task.running, kind.start_isEnded]

theorem Step.registry (h : Step s s' e) :
    ∃ l, s.registry.Step s'.registry l ∧ ∀ gid, l = some gid →
      ∃ k kind, e = .enter k ∧ s.calls[k]? = some ⟨gid, kind, .entry⟩ ∧ s.openTask gid = none := by
  cases h with
  | idle ha ht _ => exact ⟨none, .stay (entry_eq ha) (by simp [Silo.registry, ht]), by simp⟩
  | channel hi queue refs ha ht _ =>
    exact ⟨none, .stay (entry_eq ha) (live_set_eq hi (by rfl) ht), by simp⟩
  | @mailbox _ i t ev _ hi hab a m hstep queue ha ht _ =>
    refine ⟨none, ?_, by simp⟩
    rcases MailboxKind.endsByRemove hstep with ⟨rfl, hrun, hend⟩ | ⟨hev, hsame⟩
    · refine .leave (k := t.gid) (i := i) (b := !t.detached) ?_ (entry_erase ha) ?_
      · rw [live_of_getElem? hi]
        simp [Task.live, Task.running, hab, hrun]
      · rw [live_set _ hi ht]
        simp [Task.live, Task.running, hend]
    · have ha' : s'.activations = s.activations := by
        rw [ha]
        cases ev <;> first | rfl | exact absurd rfl hev
      exact .stay (entry_eq ha') (live_set_eq hi (by simp [Task.live, Task.running, hsame]) ht)
  | spawn hk ho ha ht _ =>
    refine ⟨_, registry_create ha ht, ?_⟩
    rintro _ ⟨⟩
    exact ⟨_, _, rfl, hk, ho⟩
  | @detach gid i t hl hi ha ht _ =>
    refine ⟨none, .unlist (k := gid) hl (entry_erase ha) ?_, by simp⟩
    rw [live_set _ hi ht, live_of_getElem? hi]
    have hlive : ({ t with detached := true } : Task S).live =
        t.live.map fun x => (x.1, false) := by
      cases hr : t.running <;> simp_all [Task.live, Task.running]
    rw [hlive]
  | @abort i t hi hd ha ht _ =>
    refine ⟨none, .kill (i := i) ?_ (entry_eq ha) ?_, by simp⟩
    · intro gid hlive
      rw [live_of_getElem? hi, Task.live_eq_some] at hlive
      cases hd.symm.trans hlive.2.2
    · rw [live_set _ hi ht]
      simp [Task.live, Task.running]
  | restart ha ht _ =>
    refine ⟨none, .clear (fun gid => by simp [Silo.registry, ha]) (fun i => ?_), by simp⟩
    cases hi : s.tasks[i]? <;> simp [Silo.registry, ht, hi, Task.live, Task.running]

/-! ## One activation for each grain -/

def AtMostOne (s : Silo S) : Prop :=
  ∀ (i j : ℕ) (t u : Task S), s.tasks[i]? = some t → s.tasks[j]? = some u → t.gid = u.gid →
    t.running = true → u.running = true → i = j

/-- A task about to call `remove` finds its own entry or none. -/
def RemovesOwn (s : Silo S) : Prop :=
  ∀ (i j : ℕ) (t : Task S), s.tasks[i]? = some t → t.running = true → t.act.phase = .remove →
    s.activations.lookup t.gid = some j → j = i

def stale (s : Silo S) (gid : GrainId) : Bool :=
  match s.activations.lookup gid with
  | none => false
  | some i =>
    match s.tasks[i]? with
    | none => false
    | some t => t.rxDropped

def leaving (s : Silo S) (gid : GrainId) : Bool :=
  s.tasks.any fun t => t.gid == gid && t.detached && t.running

/-- A call that reaches the map finds no stale entry and no task on its way out. -/
def orderly (s : Silo S) : SiloEvent S → Bool
  | .enter k =>
    match s.calls[k]? with
    | some ⟨gid, _, .entry⟩ => !s.stale gid && !s.leaving gid
    | _ => true
  | _ => true

theorem one_iff_atMostOne : (∀ gid, s.registry.One gid) ↔ s.AtMostOne := by
  refine ⟨fun h i j t u hi hj hg ht hu => ?_, fun h gid i j b c hi hj => ?_⟩
  · refine h t.gid i j (!t.detached) (!u.detached) ?_ ?_
    · rw [live_of_getElem? hi, Task.live_eq_some]
      exact ⟨ht, rfl, by simp⟩
    · rw [live_of_getElem? hj, Task.live_eq_some]
      exact ⟨hu, hg.symm, by simp⟩
  · obtain ⟨t, hi, ht⟩ := live_eq_some.mp hi
    obtain ⟨u, hj, hu⟩ := live_eq_some.mp hj
    obtain ⟨ht, htg, -⟩ := Task.live_eq_some.mp ht
    obtain ⟨hu, hug, -⟩ := Task.live_eq_some.mp hu
    exact h i j t u hi hj (htg.trans hug.symm) ht hu

theorem removesOwn_of_one (hs : s.registry.Served) (ho : ∀ gid, s.registry.One gid) :
    s.RemovesOwn := by
  intro i j t hi ht _ hl
  refine (ho t.gid).entry_eq hs (b := !t.detached) ?_ hl
  rw [live_of_getElem? hi, Task.live_eq_some]
  exact ⟨ht, rfl, by simp⟩

theorem leaving_eq_true {gid} :
    s.leaving gid = true ↔ ∃ i, s.registry.live i = some (gid, false) := by
  unfold leaving
  rw [any_eq_true]
  refine ⟨fun ⟨t, hmem, ht⟩ => ?_, fun ⟨i, hi⟩ => ?_⟩
  · obtain ⟨i, hi⟩ := getElem?_of_mem hmem
    simp only [Bool.and_eq_true, beq_iff_eq] at ht
    refine ⟨i, ?_⟩
    rw [live_of_getElem? hi, Task.live_eq_some]
    exact ⟨ht.2, ht.1.1, ht.1.2⟩
  · obtain ⟨t, hi, ht⟩ := live_eq_some.mp hi
    obtain ⟨hrun, hg, hd⟩ := Task.live_eq_some.mp ht
    exact ⟨t, mem_of_getElem? hi, by simp_all⟩

theorem stale_of_entry {gid} (ho : s.openTask gid = none)
    (hl : s.activations.lookup gid = some i) (hi : s.tasks[i]? = some t) : s.stale gid = true := by
  cases hr : t.rxDropped with
  | false => cases ho.symm.trans (openTask_eq_some.mpr ⟨hl, hi, hr⟩)
  | true => simp [stale, hl, hi, hr]

theorem openTask_of_stale {gid} (h : s.stale gid = true) :
    s.openTask gid = none ∧ ∃ i, s.activations.lookup gid = some i := by
  unfold stale at h
  split at h
  · cases h
  · rename_i i hl
    split at h
    · cases h
    · rename_i t hi
      exact ⟨by simp [openTask, hl, hi, h], i, hl⟩

theorem free_of_orderly {gid} (hlist : s.registry.Listed gid) (ho : s.openTask gid = none)
    (hstale : s.stale gid = false) (hleave : s.leaving gid = false) : s.registry.Free gid := by
  intro i b hi
  cases b with
  | true =>
    obtain ⟨t, ht, -⟩ := live_eq_some.mp hi
    exact absurd (stale_of_entry ho (hlist i hi) ht) (by simp [hstale])
  | false => exact absurd (leaving_eq_true.mpr ⟨i, hi⟩) (by simp [hleave])

theorem served_init (m) : (init m : Silo S).registry.Served :=
  fun _ _ h => by simp [registry, init] at h

theorem served_of_run {m es} (hrun : exec step (init m) es = some s) : s.registry.Served :=
  exec_invariant_of_step (I := fun u => u.registry.Served) (fun u e u' hu hstep => by
      obtain ⟨l, hreg, -⟩ := (step_sound hstep).registry
      exact hreg.served hu) (served_init m) hrun

/-- What a silo keeps of `gid` as long as its activations come one after the other. -/
structure Single (s : Silo S) (gid : GrainId) : Prop where
  served : s.registry.Served
  listed : s.registry.Listed gid
  one : s.registry.One gid

theorem single_init (m gid) : (init m : Silo S).Single gid :=
  ⟨served_init m, fun _ h => by simp [registry, init] at h,
    fun _ _ _ _ h => by simp [registry, init] at h⟩

theorem single_step {gid} (hs : s.Single gid)
    (hord : ∀ k kind, e = .enter k → s.calls[k]? = some ⟨gid, kind, .entry⟩ →
      s.stale gid = false ∧ s.leaving gid = false) (h : s.step e = some s') :
    s'.Single gid := by
  obtain ⟨l, hreg, hl⟩ := (step_sound h).registry
  have hfree : l = some gid → s.registry.Free gid := by
    intro hgid
    obtain ⟨k, kind, rfl, hk, ho⟩ := hl gid hgid
    obtain ⟨hstale, hleave⟩ := hord k kind rfl hk
    exact free_of_orderly hs.listed ho hstale hleave
  exact ⟨hreg.served hs.served, hreg.listed hs.served hs.one hs.listed hfree, hreg.one hs.one hfree⟩

theorem of_orderly {gid} (h : s.orderly e = true) :
    ∀ k kind, e = .enter k → s.calls[k]? = some ⟨gid, kind, .entry⟩ →
      s.stale gid = false ∧ s.leaving gid = false := by
  rintro k kind rfl hk
  simpa [orderly, hk] using h

theorem orderly_of_one (hs : s.registry.Served) (ho : ∀ gid, s.registry.One gid)
    (ho' : ∀ gid, s'.registry.One gid) (h : s.step e = some s') : s.orderly e = true := by
  cases e with
  | enter k =>
    simp only [orderly]
    simp only [step] at h
    split
    · rename_i gid kind hk
      have hspawn : s.openTask gid = none → s.registry.Free gid := by
        intro hopen
        simp only [hk, hopen, Option.some.injEq] at h
        subst h
        have hcreate : s.registry.Step
            ({ s.spawn gid kind with calls := s.calls.eraseIdx k } : Silo S).registry
            (some gid) := registry_create rfl rfl
        exact hcreate.free_of_one (ho' gid)
      have hstale : s.stale gid = false := by
        by_contra hst
        obtain ⟨hopen, i, hi⟩ := openTask_of_stale (by simpa using hst)
        exact hspawn hopen i true (hs gid i hi)
      have hleave : s.leaving gid = false := by
        by_contra hlv
        obtain ⟨i, hi⟩ := leaving_eq_true.mp (by simpa using hlv)
        cases hopen : s.openTask gid with
        | none => exact hspawn hopen i false hi
        | some r =>
          have hj := hs gid r.1 (openTask_eq_some.mp hopen).1
          have hij := ho gid i r.1 _ _ hi hj
          rw [hij, hj] at hi
          cases hi
      simp [hstale, hleave]
    · rfl
  | _ => rfl

/-- A grain has one running task exactly as long as no call reaches the map while one is stale or
leaving. -/
theorem single_activation_iff (m : Shared) (es : List (SiloEvent S)) (s : Silo S)
    (hrun : exec step (init m) es = some s) :
    (∀ es₁ es₂ u, es = es₁ ++ es₂ → exec step (init m) es₁ = some u →
      u.AtMostOne ∧ u.RemovesOwn) ↔
    Along step (fun u e => u.orderly e = true) (init m) es := by
  constructor
  · intro h
    by_contra hal
    obtain ⟨es₁, e, es₂, u, v, rfl, hu, hv, -, -, hbad⟩ := exists_of_not_along hrun hal
    have hv' : exec step (init m) (es₁ ++ [e]) = some v := exec_snoc_eq_some.mpr ⟨u, hu, hv⟩
    have ho := one_iff_atMostOne.mpr (h es₁ (e :: es₂) u rfl hu).1
    have ho' := one_iff_atMostOne.mpr (h (es₁ ++ [e]) es₂ v (by simp) hv').1
    exact hbad (orderly_of_one (served_of_run hu) ho ho' hv)
  · rintro hal es₁ es₂ u rfl hu
    have hsingle : ∀ gid, u.Single gid := fun gid =>
      exec_invariant (I := fun v => v.Single gid)
        (fun v e v' hord hv hstep => single_step hv (of_orderly hord) hstep) (single_init m gid)
        hal.of_append hu
    have hone : ∀ gid, u.registry.One gid := fun gid => (hsingle gid).one
    exact ⟨one_iff_atMostOne.mp hone, removesOwn_of_one (served_of_run hu) hone⟩

/-- A call of `get_or_insert` in a silo that is neither draining nor at its limit. -/
def getOrInsert (gid : GrainId) (kind : MailboxKind S) : List (SiloEvent S) :=
  [.getOrInsert gid kind, .checkLimit 0, .enter 0]

def storedKind : MailboxKind UInt8 :=
  .persistent (counter false .writeOnDeactivate (.run false))

def plainKind : MailboxKind UInt8 :=
  .plain (counter false .writeOnDeactivate (.run false)).grain

/-- Task `i` leaves its idle loop and takes its last steps up to `remove`. -/
def storedTeardown (i : ℕ) : List (SiloEvent UInt8) :=
  [.mailbox i .onDeactivate, .mailbox i .serialize, .mailbox i (.save none)]

/-- An activation that is gone before the next call, and then a second one. -/
def orderlyRun : List (SiloEvent UInt8) :=
  getOrInsert ⟨"Counter", "k"⟩ storedKind ++
    [.mailbox 0 (.load none), .mailbox 0 (.onActivate 0), .mailbox 0 .idleTimeout] ++
    storedTeardown 0 ++ [.mailbox 0 .remove] ++ getOrInsert ⟨"Counter", "k"⟩ storedKind

theorem single_activation_iff_counter :
    ∃ s, exec step (init Shared.empty) orderlyRun = some s ∧ s.tasks.length = 2 ∧
      ∀ es₁ es₂ u, orderlyRun = es₁ ++ es₂ → exec step (init Shared.empty) es₁ = some u →
        u.AtMostOne ∧ u.RemovesOwn := by
  refine ⟨_, rfl, rfl, ?_⟩
  exact (single_activation_iff Shared.empty orderlyRun _ rfl).mpr (by decide +kernel)

/-- A call between the end of the loop and the final save, and one after the rebalancer has taken
out the entry : two tasks run. -/
theorem second_activation :
    (∃ s : Silo UInt8, exec step (init Shared.empty)
        (getOrInsert ⟨"Counter", "k"⟩ storedKind ++
          [.mailbox 0 (.load none), .mailbox 0 (.onActivate 0), .mailbox 0 .idleTimeout] ++
          getOrInsert ⟨"Counter", "k"⟩ storedKind ++ storedTeardown 0) = some s ∧
      ¬s.AtMostOne ∧ ¬s.RemovesOwn) ∧
    ∃ s : Silo UInt8, exec step (init Shared.empty)
        (getOrInsert ⟨"Counter", "k"⟩ plainKind ++
          [.mailbox 0 (.onActivate 0), .detach ⟨"Counter", "k"⟩] ++
          getOrInsert ⟨"Counter", "k"⟩ plainKind ++
          [.dropRef 0, .mailbox 0 .closed, .mailbox 0 .onDeactivate]) = some s ∧
      ¬s.AtMostOne ∧ ¬s.RemovesOwn := by
  refine ⟨⟨_, rfl, fun h => ?_, fun h => ?_⟩, _, rfl, fun h => ?_, fun h => ?_⟩
  · exact absurd (h 0 1 _ _ rfl rfl rfl rfl rfl) (by decide)
  · exact absurd (h 0 1 _ rfl rfl rfl rfl) (by decide)
  · exact absurd (h 0 1 _ _ rfl rfl rfl rfl rfl) (by decide)
  · exact absurd (h 0 1 _ rfl rfl rfl rfl) (by decide)

end Silo

end Orlando
