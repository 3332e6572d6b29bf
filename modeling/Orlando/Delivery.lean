import Orlando.StoredPrefix
import Orlando.Turns

/-!
# From the channel to the handlers

The messages a mailbox has taken out of its channel are those its handlers have run and those it
still holds. As long as the lock is taken in the order in which the handler tasks were spawned, the
run ones come before the held ones, and these before the ones still in the channel
(`Activation.Delivery.messages`). So a task runs the messages in the order in which it accepted them
(`Silo.TaskStep.ledger`).
-/

namespace Orlando

open Activation List MailboxKind Phase Handler

variable {S : Type} {a a' : Activation S} {e : MailboxEvent S} {α β : Type*}

def Turn.message : Turn S → Option (Envelope S)
  | handled env => some env
  | panicked env => some env
  | _ => none

def Phase.inHand : Phase S → List (Envelope S)
  | handling env => [env]
  | _ => []

def Handler.pending : Handler S → List (Envelope S)
  | waiting env => [env]
  | locked env => [env]
  | _ => []

/-- The task has not got the lock yet. -/
def Handler.isWaiting : Handler S → Bool
  | waiting _ => true
  | _ => false

namespace Activation

/-- The messages whose handlers have run, in that order. -/
def ran (a : Activation S) : List (Envelope S) :=
  a.turns.filterMap Turn.message

/-- The messages taken out of the channel that have not been run. -/
def held (a : Activation S) : List (Envelope S) :=
  a.phase.inHand ++ a.handlers.flatMap Handler.pending

/-- Handler tasks that wait for the lock were spawned after all that have had it. -/
def InSpawnOrder (a : Activation S) : Prop :=
  ∀ (j k : ℕ) (h h' : Handler S), j < k → a.handlers[j]? = some h → a.handlers[k]? = some h' →
    h.isWaiting = true → h'.isWaiting = true

/-- No handler task spawned before `k` waits for the lock. -/
def Oldest (a : Activation S) (k : ℕ) : Prop :=
  ∀ (j : ℕ) (h : Handler S), j < k → a.handlers[j]? = some h → h.isWaiting = false

end Activation

theorem flatMap_eq_of_getElem? {f : α → List β} :
    ∀ {l : List α} {k : ℕ} {x : α}, l[k]? = some x → (∀ j y, j < k → l[j]? = some y → f y = []) →
      l.flatMap f = f x ++ (l.drop (k + 1)).flatMap f
  | [], _, _, hx, _ => nomatch hx
  | y :: l, 0, x, hx, _ => by
    cases hx
    rfl
  | y :: l, k + 1, x, hx, hnil => by
    have hy : f y = [] := hnil 0 y (Nat.succ_pos k) rfl
    have ih := flatMap_eq_of_getElem? (f := f) (l := l) (k := k) hx
      fun j z hj hz => hnil (j + 1) z (Nat.succ_lt_succ hj) hz
    rw [flatMap_cons, hy, nil_append, ih, drop_succ_cons]

theorem flatMap_set_of_eq {f : α → List β} {l : List α} {k} {x y} (hx : l[k]? = some x)
    (hy : f y = f x) : (l.set k y).flatMap f = l.flatMap f := by
  rw [flatMap_def, flatMap_def, map_set_of_eq hx hy]

namespace Activation

variable {reentrant : Bool} {a a' : Activation S}

theorem inHand_settle (a : Activation S) (fsm) : (a.settle fsm).phase.inHand = [] :=
  phase_settle (P := fun ph => ph.inHand = []) rfl rfl rfl a fsm

theorem ran_snoc {t} (h : a'.turns = a.turns ++ [t]) : a'.ran = a.ran ++ t.message.toList := by
  rw [ran, h, filterMap_append]
  cases t <;> rfl

theorem InSpawnOrder.set (ho : a.InSpawnOrder) {k h h'}
    (hk : a.handlers[k]? = some h) (hh : a'.handlers = a.handlers.set k h')
    (hwait : h'.isWaiting = h.isWaiting ∨ h'.isWaiting = false ∧ a.Oldest k) :
    a'.InSpawnOrder := by
  intro i j x y hij hi hj hx
  rw [hh, getElem?_set] at hi hj
  have hlt := lt_of_getElem? hk
  split at hi <;> split at hj
  · omega
  · rename_i hki hkj
    cases hi
    subst hki
    rcases hwait with hw | ⟨hw, -⟩
    · exact ho k j h y hij hk hj (hw ▸ hx)
    · rw [hw] at hx
      cases hx
  · rename_i hki hkj
    cases hj
    subst hkj
    rcases hwait with hw | ⟨-, hold⟩
    · rw [hw]
      exact ho i k x h hij hi hk hx
    · rw [hold i x hij hi] at hx
      cases hx
  · exact ho i j x y hij hi hj hx

inductive Delivery (a : Activation S) : MailboxEvent S → Activation S → Prop
  /-- No handler runs and no message changes hands. -/
  | same {e : MailboxEvent S} {a'} (he : received [e] = []) (hev : ∀ k, e ≠ .handler k .acquire)
    (hh : a'.handlers = a.handlers) (hp : a'.phase.inHand = a.phase.inHand)
    (hran : a'.ran = a.ran) : Delivery a e a'
  | recv {env a'} (hn : a.handlers = []) (hp : a.phase = .loop) (hh : a'.handlers = a.handlers)
    (hp' : a'.phase = .handling env) (hts : a'.turns = a.turns) : Delivery a (.recv env) a'
  | handled {a' : Activation S} {env : Envelope S} {t : Turn S} (hp : a.phase = .handling env)
    (hh : a'.handlers = a.handlers) (hp' : a'.phase.inHand = []) (ht : t.message = some env)
    (hts : a'.turns = a.turns ++ [t]) : Delivery a .handle a'
  /-- A reentrant loop hands a message to a handler task. -/
  | spawn {env : Envelope S} {a' : Activation S} (hp : a.phase = .loop)
    (hh : a'.handlers = a.handlers ++ [.waiting env]) (hp' : a'.phase = a.phase)
    (hts : a'.turns = a.turns) : Delivery a (.recv env) a'
  /-- Handler task `k` gets the lock. -/
  | acquire {k env a'} (hk : a.handlers[k]? = some (.waiting env))
    (hh : a'.handlers = a.handlers.set k (.locked env)) (hp : a'.phase = a.phase)
    (hts : a'.turns = a.turns) : Delivery a (.handler k .acquire) a'
  | run {k : ℕ} {env : Envelope S} {h' : Handler S} {t : Turn S} {a' : Activation S}
    (hk : a.handlers[k]? = some (.locked env)) (hh : a'.handlers = a.handlers.set k h')
    (hp : a'.phase = a.phase) (hpend : h'.pending = []) (hwait : h'.isWaiting = false)
    (ht : t.message = some env) (hts : a'.turns = a.turns ++ [t]) :
    Delivery a (.handler k .run) a'
  /-- Handler task `k` goes on after its handler has run. -/
  | handler {k ev h h' a'} (hev : ev ≠ .acquire) (hk : a.handlers[k]? = some h)
    (hh : a'.handlers = a.handlers.set k h') (hp : a'.phase = a.phase) (hts : a'.turns = a.turns)
    (hpend : h'.pending = h.pending) (hwait : h.isWaiting = false) (hwait' : h'.isWaiting = false) :
    Delivery a (.handler k ev) a'

variable {e : MailboxEvent S}

theorem Delivery.inSpawnOrder (hd : Delivery a e a') (ho : a.InSpawnOrder)
    (hlock : ∀ k, e = .handler k .acquire → a.Oldest k) : a'.InSpawnOrder := by
  have hsame : a'.handlers = a.handlers → a'.InSpawnOrder := by
    intro hh
    unfold InSpawnOrder
    rw [hh]
    exact ho
  cases hd with
  | same _ _ hh | recv _ _ hh | handled _ hh => exact hsame hh
  | spawn hp hh =>
    intro i j x y hij hi hj hx
    rw [hh, getElem?_append] at hi hj
    split at hj
    · rw [if_pos (by omega)] at hi
      exact ho i j x y hij hi hj hx
    · have hmem := mem_of_getElem? hj
      rw [mem_singleton.mp hmem]
      rfl
  | acquire hk hh => exact ho.set hk hh (.inr ⟨rfl, hlock _ rfl⟩)
  | run hk hh _ _ hwait => exact ho.set hk hh (.inl hwait)
  | handler _ hk hh _ _ _ hwait hwait' => exact ho.set hk hh (.inl (hwait'.trans hwait.symm))

/-- The messages run and held after the handler of task `k` has run : the tasks spawned
before `k` hold none, as none of them waits and `k` has the lock. -/
theorem held_of_run (hw : a.WF reentrant) (ho : a.InSpawnOrder) {k env h'}
    (hk : a.handlers[k]? = some (.locked env))
    (hh : a'.handlers = a.handlers.set k h') (hp : a'.phase = a.phase)
    (hpend : h'.pending = []) : a.held = env :: a'.held := by
  have hloop := hw.inLoop hk nofun
  have hhand := of_inLoop (P := fun ph => ph.inHand = []) hloop rfl rfl
  have hbefore : ∀ j x, j < k → a.handlers[j]? = some x → x.pending = [] := by
    intro j x hj hx
    cases x with
    | waiting env' => cases ho j k _ _ hj hx hk rfl
    | locked env' => exact absurd (hw.exclusive j k _ _ hx hk rfl rfl) (Nat.ne_of_lt hj)
    | _ => rfl
  have hlt := lt_of_getElem? hk
  have hafter : ∀ j x, j < k → (a.handlers.set k h')[j]? = some x → x.pending = [] := by
    intro j x hj hx
    rw [getElem?_set_ne (Nat.ne_of_gt hj)] at hx
    exact hbefore j x hj hx
  rw [held, held, hp, hhand, hh, flatMap_eq_of_getElem? hk hbefore,
    flatMap_eq_of_getElem? (getElem?_set_self hlt) hafter,
    drop_set_of_lt (Nat.lt_succ_self k), hpend]
  rfl

theorem Delivery.messages (hd : Delivery a e a') (hw : a.WF reentrant) (ho : a.InSpawnOrder) :
    a'.ran ++ a'.held = a.ran ++ a.held ++ received [e] := by
  cases hd with
  | same he _ hh hp hran => rw [held, held, hh, hp, hran, he, append_nil]
  | recv hn hp hh hp' hts =>
    rw [held, held, hp, hp', hh, hn, ran, ran, hts]
    simp [inHand, received]
  | handled hp hh hp' ht hts =>
    rw [held, held, hh, hp, hp', ran_snoc hts, ht]
    simp [inHand, received]
  | spawn hp hh hp' hts =>
    rw [held, held, hp', hp, hh, ran, ran, hts]
    simp [inHand, received, pending]
  | @acquire k env _ hk hh hp hts =>
    have hpend : (locked env).pending = (waiting env).pending := rfl
    rw [held, held, hp, hh, flatMap_set_of_eq hk hpend, ran, ran, hts]
    simp [received]
  | run hk hh hp hpend _ ht hts =>
    rw [held_of_run hw ho hk hh hp hpend, ran_snoc hts, ht]
    simp [received]
  | handler _ hk hh hp hts hpend =>
    rw [held, held, hp, hh, flatMap_set_of_eq hk hpend, ran, ran, hts]
    simp [received]

end Activation

/-! ## The steps of a mailbox -/

theorem Grain.Step.delivery {g : Grain S} (hs : g.Step a e a') (hw : a.WF g.reentrant) :
    Delivery a e a' := by
  cases hs with
  | activateOk hp | activatePanic hp =>
    exact .same rfl nofun rfl (by rw [inHand_settle, hp]; rfl) ((ran_snoc rfl).trans (append_nil _))
  | recv hp hr => exact .recv (hw.sequential hr) hp rfl rfl rfl
  | spawn hp hr => exact .spawn hp rfl rfl rfl
  | closed hp | idleTimeout hp => exact .same rfl nofun rfl (by rw [inHand_settle, hp]; rfl) rfl
  | drain hp _ he => rcases he with rfl | rfl <;> exact .same rfl nofun rfl (hp ▸ rfl) rfl
  | handleOk hp | handlePanic hp => exact .handled hp rfl (inHand_settle _ _) rfl rfl
  | acquire hk => exact .acquire hk rfl rfl rfl
  | runOk hk | runPanic hk => exact .run hk rfl rfl rfl rfl rfl rfl
  | join hk => exact .handler nofun hk rfl rfl rfl rfl rfl rfl
  | drained hp | remove hp => exact .same rfl nofun rfl (hp ▸ rfl) rfl
  | deactivate hp => exact .same rfl nofun rfl (hp ▸ rfl) ((ran_snoc rfl).trans (append_nil _))

theorem PersistentArgs.Step.delivery {p : PersistentArgs S} {gid} {m m'}
    (hs : p.Step gid a m e a' m') (hw : a.WF p.grain.reentrant) : Delivery a e a' := by
  have hsame : ∀ {ph}, received [e] = [] → (∀ k, e ≠ .handler k .acquire) →
      a.phase = ph → ph.inHand = [] → a'.handlers = a.handlers → a'.phase.inHand = [] →
      a'.ran = a.ran → Delivery a e a' :=
    fun he hev hp hn hh hn' hran => .same he hev hh (hn'.trans (hp ▸ hn).symm) hran
  have hrelease : ∀ b, (p.afterRelease b).pending = [] ∧ (p.afterRelease b).isWaiting = false := by
    intro b
    unfold PersistentArgs.afterRelease
    split
    · split
      · split <;> exact ⟨rfl, rfl⟩
      · exact ⟨rfl, rfl⟩
    · exact ⟨rfl, rfl⟩
  cases hs with
  | loadFailed hp =>
    have hhand : a.phase.inHand = [] :=
      of_loading (P := fun ph => ph.inHand = []) hp (fun _ => rfl) rfl fun _ => rfl
    exact hsame rfl nofun rfl hhand rfl rfl rfl
  | activateOk hp | activatePanic hp | deactivate hp =>
    exact hsame rfl nofun hp rfl rfl rfl ((ran_snoc rfl).trans (append_nil _))
  | recv hp hr => exact .recv (hw.sequential hr) hp rfl rfl rfl
  | spawn hp hr => exact .spawn hp rfl rfl rfl
  | closed hp | idleTimeout hp | skip hp | replicate hp | serializeFailed hp | flush hp
  | flushRefused hp | publish hp => exact hsame rfl nofun hp rfl rfl (inHand_settle _ _) rfl
  | drain hp _ he => rcases he with rfl | rfl <;> exact hsame rfl nofun hp rfl rfl rfl rfl
  | handleOk hp => exact .handled hp rfl rfl rfl rfl
  | handlePanic hp => exact .handled hp rfl (inHand_settle _ _) rfl rfl
  | acquire hk => exact .acquire hk rfl rfl rfl
  | runOk hk | runPanic hk => exact .run hk rfl rfl rfl rfl rfl rfl
  | release hk => exact .handler nofun hk rfl rfl rfl (hrelease a).1 rfl (hrelease a).2
  | handlerSave hk | handlerSaveRefused hk =>
    refine .handler nofun hk rfl rfl rfl ?_ rfl ?_ <;> split <;> rfl
  | handlerSend hk | join hk => exact .handler nofun hk rfl rfl rfl rfl rfl rfl
  | _ hp => exact hsame rfl nofun hp rfl rfl rfl rfl

namespace MailboxKind

variable {kind : MailboxKind S} {gid : GrainId} {a a' : Activation S} {m m' : Shared}
  {e : MailboxEvent S}

theorem start_delivered (kind : MailboxKind S) : kind.start.handlers = [] ∧
    kind.start.ran = [] ∧ kind.start.held = [] := by
  cases kind with
  | plain g => exact ⟨rfl, rfl, rfl⟩
  | persistent p =>
    simp only [start, PersistentArgs.start]
    cases p.entry <;> exact ⟨rfl, rfl, rfl⟩

theorem delivery_of_step (h : kind.step gid a m e = some (a', m')) (hs : kind.Sound a) :
    Delivery a e a' := by
  rcases step_cases h with ⟨g, rfl, hst, -⟩ | ⟨p, rfl, hst⟩
  · exact hst.delivery hs
  · exact hst.delivery (PersistentArgs.Sound.wf hs)

end MailboxKind

/-! ## The channel of a task -/

namespace Silo

variable {s s' : Silo S} {e : SiloEvent S} {i : ℕ} {t t' : Task S}

/-- The messages accepted into the channel of task `i` along a run. -/
def accepted (i : ℕ) (es : List (SiloEvent S)) : List (Envelope S) :=
  es.filterMap fun
    | .send j env => if j = i then some env else none
    | _ => none

theorem accepted_snoc (i) (es) (e : SiloEvent S) :
    accepted i (es ++ [e]) = accepted i es ++ accepted i [e] := by
  rw [accepted, filterMap_append]
  rfl

/-- The step neither puts a message into the channel of task `i` nor is one of its
mailbox. -/
def Spares (i : ℕ) (e : SiloEvent S) : Prop :=
  accepted i [e] = [] ∧ ∀ ev, e ≠ .mailbox i ev

inductive TaskStep (s : Silo S) (i : ℕ) (e : SiloEvent S) (t : Task S) : Task S → Prop
  | kept {t' : Task S} (he : Spares i e) (hgid : t'.gid = t.gid)
    (hkind : t'.kind = t.kind) (hact : t'.act = t.act) (hq : t'.queue = t.queue)
    (hab : t'.aborted = false → t.aborted = false) : TaskStep s i e t t'
  | send {env} (he : e = .send i env) (hrx : t.rxDropped = false) :
    TaskStep s i e t { t with queue := t.queue ++ [env] }
  | recv {env queue a m} (he : e = .recv i) (hq : t.queue = env :: queue)
    (hstep : t.kind.step t.gid t.act s.shared (.recv env) = some (a, m)) :
    TaskStep s i e t { t with act := a, queue := queue }
  | mailbox {ev a m} (he : e = .mailbox i ev) (hen : s.enabled i t ev = true)
    (hstep : t.kind.step t.gid t.act s.shared ev = some (a, m)) :
    TaskStep s i e t { t with act := a }

structure Spawned (s : Silo S) (i : ℕ) (e : SiloEvent S) (t : Task S) : Prop where
  absent : s.tasks[i]? = none
  accepted : accepted i [e] = []
  act : t.act = t.kind.start
  queue : t.queue = []

theorem TaskStep.refl (he : Spares i e) : TaskStep s i e t t :=
  .kept he rfl rfl rfl rfl id

theorem taskStep_of_set {j u u'} (hj : s.tasks[j]? = some u) (hs' : s'.tasks = s.tasks.set j u')
    (hstep : j = i → TaskStep s i e u u') (hother : j ≠ i → Spares i e)
    (hi : s'.tasks[i]? = some t') : ∃ t, s.tasks[i]? = some t ∧ TaskStep s i e t t' := by
  rw [hs', getElem?_set] at hi
  split at hi
  · rename_i hji
    subst hji
    rw [if_pos (lt_of_getElem? hj)] at hi
    cases hi
    exact ⟨u, hj, hstep rfl⟩
  · rename_i hji
    exact ⟨t', hi, .refl (hother hji)⟩

theorem taskStep_of_step (h : s.step e = some s') (hi : s'.tasks[i]? = some t') :
    (∃ t, s.tasks[i]? = some t ∧ TaskStep s i e t t') ∨ Spawned s i e t' := by
  have hkept : ∀ {u : Silo S}, u.tasks = s.tasks → Spares i e → u.tasks[i]? = some t' →
      (∃ t, s.tasks[i]? = some t ∧ TaskStep s i e t t') ∨ Spawned s i e t' := by
    intro u hu he hi'
    exact .inl ⟨t', hu ▸ hi', .refl he⟩
  have hexisting : ∀ {gid}, Spares i e → (s.existing gid).tasks[i]? = some t' →
      (∃ t, s.tasks[i]? = some t ∧ TaskStep s i e t t') ∨ Spawned s i e t' := by
    intro gid he hi'
    cases ho : s.openTask gid with
    | none =>
      refine hkept (u := s.existing gid) ?_ he hi'
      simp [existing, ho]
    | some r =>
      obtain ⟨j, u⟩ := r
      have hset : (s.existing gid).tasks = s.tasks.set j { u with refs := u.refs + 1 } := by
        simp [existing, ho]
      exact .inl (taskStep_of_set (openTask_eq_some.mp ho).2.1 hset
        (fun _ => .kept he rfl rfl rfl rfl id) (fun _ => he) hi')
  have hset : ∀ {j u u'}, s.tasks[j]? = some u → s'.tasks = s.tasks.set j u' →
      (j = i → TaskStep s i e u u') → (j ≠ i → Spares i e) →
      (∃ t, s.tasks[i]? = some t ∧ TaskStep s i e t t') ∨ Spawned s i e t' :=
    fun hj hs' hst hother => .inl (taskStep_of_set hj hs' hst hother hi)
  cases move_of_step h with
  | draining => exact hexisting ⟨rfl, by simp⟩ hi
  | full | found => exact hexisting ⟨rfl, by simp⟩ hi
  | spawned hk ho =>
    simp only [spawn, getElem?_append] at hi
    split at hi
    · exact hkept rfl ⟨rfl, by simp⟩ hi
    · rename_i hlt
      obtain rfl := mem_singleton.mp (mem_of_getElem? hi)
      exact .inr ⟨getElem?_eq_none_iff.mpr (by omega), rfl, rfl, rfl⟩
  | send hj hrx =>
    refine hset hj rfl ?_ ?_
    · rintro rfl
      exact .send rfl hrx
    · intro hji
      exact ⟨by simp [accepted, hji], by simp⟩
  | dropRef hj | detach _ hj =>
    exact hset hj rfl (fun _ => .kept ⟨rfl, by simp⟩ rfl rfl rfl rfl id) fun _ => ⟨rfl, by simp⟩
  | abort hj =>
    exact hset hj rfl (fun _ => .kept ⟨rfl, by simp⟩ rfl rfl rfl rfl (by simp))
      fun _ => ⟨rfl, by simp⟩
  | recv hj hq _ hst =>
    refine hset hj rfl ?_ fun _ => ⟨rfl, by simp⟩
    rintro rfl
    exact .recv rfl hq hst
  | mailbox hj hen _ hst =>
    refine hset hj rfl ?_ ?_
    · rintro rfl
      exact .mailbox rfl hen hst
    · intro hji
      refine ⟨rfl, ?_⟩
      rintro ev' ⟨⟩
      exact hji rfl
  | restart =>
    rw [getElem?_map] at hi
    obtain ⟨t, ht, rfl⟩ := Option.map_eq_some_iff.mp hi
    exact .inl ⟨t, ht, .kept ⟨rfl, by simp⟩ rfl rfl rfl rfl (by simp)⟩
  | _ => exact hkept rfl ⟨rfl, by simp⟩ hi

theorem TaskStep.kind_eq (h : TaskStep s i e t t') : t'.kind = t.kind := by
  cases h with
  | kept _ _ hkind => exact hkind
  | _ => rfl

theorem absent_of_step (h : s.step e = some s') (hi : s'.tasks[i]? = none) :
    s.tasks[i]? = none ∧ accepted i [e] = [] := by
  have hlen : s.tasks.length ≤ s'.tasks.length := by
    cases step_sound h with
    | idle _ ht | channel _ _ _ _ ht | mailbox _ _ _ _ _ _ ht | spawn _ _ _ ht => simp [ht]
    | detach _ _ _ ht | abort _ _ _ ht | restart _ ht => simp [ht]
  have hn : s.tasks[i]? = none := by
    rw [getElem?_eq_none_iff] at hi ⊢
    omega
  refine ⟨hn, ?_⟩
  cases e with
  | send j env =>
    by_cases hj : j = i
    · subst hj
      simp [step, hn] at h
    · simp [accepted, hj]
  | _ => rfl

/-- The messages accepted by a task are those it has run, those it holds and those in its
channel, in this order. -/
structure Ledger (acc : List (Envelope S)) (t : Task S) : Prop where
  sound : t.kind.Sound t.act
  order : t.act.InSpawnOrder
  accepted : acc = t.act.ran ++ t.act.held ++ t.queue

variable {acc : List (Envelope S)}

theorem Spawned.ledger (h : Spawned s i e t) : Ledger [] t where
  sound := h.act ▸ t.kind.start_sound
  order := by
    intro j k x y _ hj
    rw [h.act, t.kind.start_delivered.1] at hj
    cases hj
  accepted := by
    obtain ⟨-, hran, hheld⟩ := t.kind.start_delivered
    rw [h.act, h.queue, hran, hheld]
    rfl

theorem TaskStep.ledger (h : TaskStep s i e t t')
    (hlock : ∀ k, e = .mailbox i (.handler k .acquire) → t.act.Oldest k) (hL : Ledger acc t) :
    Ledger (acc ++ accepted i [e]) t' := by
  have hw := hL.sound.wf
  cases h with
  | kept he hgid hkind hact hq hab =>
    refine ⟨?_, ?_, ?_⟩
    · rw [hkind, hact]
      exact hL.sound
    · rw [hact]
      exact hL.order
    · rw [he.1, append_nil, hact, hq]
      exact hL.accepted
  | @send env he hrx =>
    refine ⟨hL.sound, hL.order, ?_⟩
    have hacc : accepted i [SiloEvent.send i env] = [env] := by simp [accepted]
    rw [he, hacc, hL.accepted, append_assoc]
  | @recv env queue a m he hq hs =>
    have hd := delivery_of_step hs hL.sound
    refine ⟨step_keeps_sound hs hL.sound, hd.inSpawnOrder hL.order nofun, ?_⟩
    subst he
    rw [hd.messages hw hL.order, hL.accepted, hq]
    simp [accepted, received]
  | @mailbox ev a m he hen hs =>
    have hd := delivery_of_step hs hL.sound
    refine ⟨step_keeps_sound hs hL.sound, hd.inSpawnOrder hL.order ?_, ?_⟩
    · intro k hk
      exact hlock k (he.trans (congrArg _ hk))
    · -- a message reaches the mailbox out of its channel alone
      have hev : received [ev] = [] := by
        cases ev with
        | recv env => cases hen
        | _ => rfl
      subst he
      rw [hd.messages hw hL.order, hL.accepted, hev]
      simp [accepted]

end Silo

end Orlando
