import Mathlib.Algebra.Ring.Nat
import Orlando.MailboxCourse
import Orlando.PlainStep
import Orlando.Serial
import Orlando.Silo
import Orlando.StoredPrefix

/-!
# Reentrant grains are serializable

`run_reentrant_mailbox` spawns a task for each message, up to 256 at a time, and the tasks take
turns at the lock of the state in whatever order. A handler begins when its task gets the lock
(`Grain.begun`) and has the state to itself until it is done, so the run is the serial run of the
messages in the order in which their handlers began (`Grain.Served`).
-/

namespace Orlando

open Activation List Handler ActivationState

variable {S : Type}

def MailboxEvent.ofLoop : MailboxEvent S → Bool
  | recv _ | closed | idleTimeout | handler _ _ | drained => true
  | _ => false

/-- The message a handler task has not begun to handle. -/
def Handler.waits : Handler S → List (Envelope S)
  | waiting env => [env]
  | _ => []

def handlerAct (x : Envelope S × ℕ) (s : S) : S :=
  (x.1.handleFn s).state

theorem Phase.eq_ended {ph : Phase S} (h : ph.isEnded = true) : ph = .ended := by
  cases ph with
  | ended => rfl
  | _ => cases h

namespace Grain

variable (g : Grain S)

def noPanic (a : Activation S) : MailboxEvent S → Bool
  | .onActivate _ => (g.onActivate a.state).returned
  | .handler k .run =>
    match a.handlers[k]? with
    | some (.locked env) => (env.handleFn a.state).returned
    | _ => true
  | .onDeactivate => (g.onDeactivate a.state).returned
  | _ => true

/-- The message whose handler begins in the step, with its number, and the state it finds. -/
def begins (a : Activation S) : MailboxEvent S → List ((Envelope S × ℕ) × S)
  | .handler k .acquire =>
    match a.handlers[k]? with
    | some (.waiting env) => [((env, k), a.state)]
    | _ => []
  | _ => []

/-- The messages whose handlers have begun, in that order, with the states they have found. -/
def begun (es : List (MailboxEvent S)) : List ((Envelope S × ℕ) × S) :=
  outputs g.reentrantMailboxStep begins (.start .activate .activating g.default) es

/-- The replies, where `reply k` is what the handler of message `k` returns for the state it
finds. -/
def replies {ρ : Type*} (reply : ℕ → S → ρ) (es : List (MailboxEvent S)) : List (ℕ × ρ) :=
  (g.begun es).map fun x => (x.1.2, reply x.1.2 x.2)

/-- The handlers have begun one after the other, each from the state that those before have left,
and the messages are the begun ones and those that wait. -/
structure Served (s₀ : S) (es : List (MailboxEvent S)) (a : Activation S) : Prop where
  starts : g.begun es = serialStarts handlerAct s₀ ((g.begun es).map Prod.fst)
  free : a.lockFree = true → a.state = serialState handlerAct s₀ ((g.begun es).map Prod.fst)
  locked : ∀ k env, a.handlers[k]? = some (.locked env) → ∃ done,
    (g.begun es).map Prod.fst = done ++ [(env, k)] ∧ a.state = serialState handlerAct s₀ done
  messages : ((g.begun es).map Prod.fst ++ numberedJobs Handler.waits a.handlers).Perm
    (received es).zipIdx
  spawned : a.handlers.length = (received es).length

variable {g} {s₀ : S} {es : List (MailboxEvent S)} {a a' : Activation S} {e : MailboxEvent S}
  {k : ℕ}

theorem begun_snoc
    (h : exec g.reentrantMailboxStep (.start .activate .activating g.default) es = some a) :
    g.begun (es ++ [e]) = g.begun es ++ begins a e :=
  outputs_snoc h

theorem received_snoc : received (es ++ [e]) = received es ++ received [e] :=
  filterMap_append

section

variable (hs : g.Served s₀ es a)
include hs

theorem Served.keep (hb : g.begun (es ++ [e]) = g.begun es) (he : received [e] = [])
    (hlen : a'.handlers.length = a.handlers.length)
    (hjobs : numberedJobs waits a'.handlers = numberedJobs waits a.handlers)
    (hfree : a'.lockFree = true → a'.state = serialState handlerAct s₀ ((g.begun es).map Prod.fst))
    (hlocked : ∀ (k : ℕ) (env : Envelope S), a'.handlers[k]? = some (.locked env) → a.handlers[k]?
      = some (.locked env) ∧ a'.state = a.state) : g.Served s₀ (es ++ [e]) a' := by
  have hrec : received (es ++ [e]) = received es := by rw [received_snoc, he, append_nil]
  refine ⟨hb ▸ hs.starts, hb ▸ hfree, ?_, ?_, ?_⟩
  · intro k env hk
    obtain ⟨hk, hstate⟩ := hlocked k env hk
    rw [hb, hstate]
    exact hs.locked k env hk
  · rw [hb, hjobs, hrec]
    exact hs.messages
  · rw [hlen, hrec]
    exact hs.spawned

theorem Served.same (hb : g.begun (es ++ [e]) = g.begun es) (he : received [e] = [])
    (hsta : a'.state = a.state) (hh : a'.handlers = a.handlers) : g.Served s₀ (es ++ [e]) a' := by
  refine hs.keep hb he (by rw [hh]) (by rw [hh]) ?_ fun k env hk => ⟨hh ▸ hk, hsta⟩
  rw [lockFree, hh, hsta]
  exact hs.free

theorem Served.spawn {env} (hb : g.begun (es ++ [.recv env]) = g.begun es) :
    g.Served s₀ (es ++ [.recv env]) { a with handlers := a.handlers ++ [.waiting env] } := by
  have hrec : received (es ++ [.recv env]) = received es ++ [env] := received_snoc
  refine ⟨?_, ?_, ?_, ?_, ?_⟩
  · rw [hb]
    exact hs.starts
  · intro hfree
    rw [hb]
    exact hs.free (by simpa [lockFree, holdsLock] using hfree)
  · intro k env' hk
    rw [hb]
    rcases getElem?_snoc hk with hk | ⟨-, hk⟩
    · exact hs.locked k env' hk
    · cases hk
  · have hjobs : numberedJobs waits (a.handlers ++ [.waiting env]) =
        numberedJobs waits a.handlers ++ [(env, (received es).length)] := by
      rw [numberedJobs_snoc, hs.spawned]
      rfl
    have hzip : (received es ++ [env]).zipIdx =
        (received es).zipIdx ++ [(env, (received es).length)] := by simp [zipIdx_append]
    rw [hb, hrec, hjobs, hzip, ← append_assoc]
    exact hs.messages.append_right _
  · simp [hrec, hs.spawned]

end

theorem lockFree_iff : a.lockFree = true ↔ ∀ (k : ℕ) (h : Handler S), a.handlers[k]? = some h →
    h.holdsLock = false := by
  rw [lockFree, all_eq_true]
  constructor
  · intro hall k h hk
    simpa using hall h (mem_of_getElem? hk)
  · intro hall h hmem
    obtain ⟨k, hk⟩ := mem_iff_getElem?.mp hmem
    simpa using hall k h hk

section

variable (hs : g.Served s₀ es a) {k : ℕ} {env : Envelope S}
include hs

theorem Served.acquire (hk : a.handlers[k]? = some (.waiting env)) (hl : a.lockFree = true)
    (hb : g.begun (es ++ [.handler k .acquire]) = g.begun es ++ [((env, k), a.state)]) :
    g.Served s₀ (es ++ [.handler k .acquire]) (a.setHandler k (.locked env)) := by
  have hrec : received (es ++ [.handler k .acquire]) = received es := by
    rw [received_snoc]
    exact append_nil _
  have hmap : (g.begun (es ++ [.handler k .acquire])).map Prod.fst =
      (g.begun es).map Prod.fst ++ [(env, k)] := by
    rw [hb, map_append]
    rfl
  refine ⟨?_, ?_, ?_, ?_, ?_⟩
  · rw [hmap, serialStarts_snoc, ← hs.starts, hb, hs.free hl]
  · intro hfree
    have hlock := lockFree_iff.mp hfree k (.locked env)
      (by simp [setHandler, getElem?_set_of_some hk])
    cases hlock
  · intro j env' hj
    rcases getElem?_set_cases hk hj with ⟨rfl, heq⟩ | ⟨-, hj⟩
    · cases heq
      exact ⟨_, hmap, hs.free hl⟩
    · cases lockFree_iff.mp hl j _ hj
  · rw [hmap, hrec, append_assoc]
    have hperm : (numberedJobs waits a.handlers).Perm
        ((env, k) :: numberedJobs waits (a.handlers.set k (.locked env))) :=
      numberedJobs_perm_set hk rfl rfl
    exact (hperm.symm.append_left _).trans hs.messages
  · rw [hrec, ← hs.spawned]
    simp [setHandler]

theorem Served.run {s} (hw : a.WF g.reentrant) (hk : a.handlers[k]? = some (.locked env))
    (hok : env.handleFn a.state = .ok s) (hb : g.begun (es ++ [.handler k .run]) = g.begun es) :
    g.Served s₀ (es ++ [.handler k .run]) ((a.complete env s).setHandler k .finished) := by
  obtain ⟨done, hdone, hstate⟩ := hs.locked k env hk
  refine hs.keep hb rfl (length_set ..) (numberedJobs_set_of_eq hk rfl) ?_ ?_
  · intro _
    change s = _
    rw [hdone, serialState_snoc, ← hstate]
    simp [handlerAct, hok]
  · intro j env' hj
    rcases getElem?_set_cases hk hj with ⟨-, heq⟩ | ⟨hjk, hj⟩
    · cases heq
    · exact absurd (hw.exclusive j k _ _ hj hk rfl rfl) hjk

theorem Served.join (hk : a.handlers[k]? = some .finished)
    (hb : g.begun (es ++ [.handler k .join]) = g.begun es) :
    g.Served s₀ (es ++ [.handler k .join]) (a.setHandler k .joined) := by
  refine hs.keep hb rfl (length_set ..) (numberedJobs_set_of_eq hk rfl) ?_ ?_
  · intro hfree
    refine hs.free (lockFree_iff.mpr fun j h hj => ?_)
    by_cases hjk : j = k
    · subst hjk
      cases hk.symm.trans hj
      rfl
    · exact lockFree_iff.mp hfree j h (by simp [setHandler, getElem?_set_of_some hk, hjk, hj])
  · intro j env hj
    rcases getElem?_set_cases hk hj with ⟨-, heq⟩ | ⟨-, hj⟩
    · cases heq
    · exact ⟨hj, rfl⟩

end

/-- All messages have been handled, one after the other, and their handlers have left `s`. -/
def Done (g : Grain S) (s₀ : S) (es : List (MailboxEvent S)) (s : S) : Prop :=
  ∃ order : List (Envelope S × ℕ), order.Perm (received es).zipIdx ∧
    g.begun es = serialStarts handlerAct s₀ order ∧ s = serialState handlerAct s₀ order

theorem Served.done (hs : g.Served s₀ es a) (hj : a.AllJoined) : g.Done s₀ es a.state := by
  have hfree : a.lockFree = true := lockFree_iff.mpr fun k h hk => by rw [hj k h hk]; rfl
  have hjobs : numberedJobs waits a.handlers = [] := by
    refine flatMap_eq_nil_iff.mpr fun t ht => ?_
    rw [hj t.2 t.1 (mem_zipIdx_iff_getElem?.mp ht)]
    rfl
  have hperm := hs.messages
  rw [hjobs, append_nil] at hperm
  exact ⟨_, hperm, hs.starts, hs.free hfree⟩

theorem Done.snoc {s} (hd : g.Done s₀ es s) (hb : g.begun (es ++ [e]) = g.begun es)
    (he : received [e] = []) : g.Done s₀ (es ++ [e]) s := by
  obtain ⟨order, hperm, hstarts, hstate⟩ := hd
  refine ⟨order, ?_, hb.trans hstarts, hstate⟩
  rw [received_snoc, he, append_nil]
  exact hperm

/-- Where a task of `run_reentrant_mailbox` stands after its events, if nothing has panicked. -/
inductive Staged (g : Grain S) : List (MailboxEvent S) → Activation S → Prop
  | start : Staged g [] (.start .activate .activating g.default)
  | serving {now past s₀ a} (ha : g.onActivate g.default = .ok s₀)
    (hpast : ∀ e ∈ past, e.ofLoop = true)
    (hp : a.phase = .loop ∨ a.phase = .drain ∨ a.phase = .deactivate)
    (hs : g.Served s₀ (.onActivate now :: past) a) : Staged g (.onActivate now :: past) a
  | leaving {now past s₀ s a} (ha : g.onActivate g.default = .ok s₀)
    (hpast : ∀ e ∈ past, e.ofLoop = true) (hp : a.phase = .remove)
    (hd : g.Done s₀ (.onActivate now :: past ++ [.onDeactivate]) s)
    (hstate : a.state = (g.onDeactivate s).state) :
    Staged g (.onActivate now :: past ++ [.onDeactivate]) a
  | ended {now past s₀ s a} (ha : g.onActivate g.default = .ok s₀)
    (hpast : ∀ e ∈ past, e.ofLoop = true) (hp : a.phase = .ended)
    (hd : g.Done s₀ (.onActivate now :: past ++ [.onDeactivate, .remove]) s)
    (hstate : a.state = (g.onDeactivate s).state) :
    Staged g (.onActivate now :: past ++ [.onDeactivate, .remove]) a

theorem Served.step (hr : g.reentrant = true) (hs : g.Served s₀ es a) (hw : a.WF g.reentrant)
    (hrun : exec g.reentrantMailboxStep (.start .activate .activating g.default) es = some a)
    (hp : a.phase = .loop ∨ a.phase = .drain ∨ a.phase = .deactivate)
    (he : e.ofLoop = true) (hok : g.noPanic a e = true) (hstep : g.Step a e a') :
    g.Served s₀ (es ++ [e]) a' ∧
      (a'.phase = .loop ∨ a'.phase = .drain ∨ a'.phase = .deactivate) := by
  have hb := begun_snoc (e := e) hrun
  cases hstep with
  | spawn => exact ⟨hs.spawn (by simpa [begins] using hb), hp⟩
  | drain _ _ hstop =>
    rcases hstop with rfl | rfl <;>
      exact ⟨hs.same (by simpa [begins] using hb) rfl rfl rfl, .inr (.inl rfl)⟩
  | drained => exact ⟨hs.same (by simpa [begins] using hb) rfl rfl rfl, .inr (.inr rfl)⟩
  | acquire hk hl => exact ⟨hs.acquire hk hl (by simpa [begins, hk] using hb), hp⟩
  | runOk hk hret => exact ⟨hs.run hw hk hret (by simpa [begins] using hb), hp⟩
  | runPanic hk hpanic => simp [noPanic, hk, hpanic, Outcome.returned] at hok
  | join hk => exact ⟨hs.join hk (by simpa [begins] using hb), hp⟩
  | recv _ hn | closed _ hn | idleTimeout _ hn => cases hr.symm.trans hn
  | _ => cases he

theorem served_start {now s fsm} :
    g.Served s [.onActivate now]
      (((start .activate .activating g.default).record .activate s).settle fsm) := by
  have hb : g.begun ([] ++ [.onActivate now]) = [] := begun_snoc rfl
  rw [nil_append] at hb
  refine ⟨by rw [hb]; rfl, fun _ => by rw [hb]; rfl, by simp [settle, record, start], ?_,
    rfl⟩
  rw [hb]
  exact .refl []

section

variable (hr : g.reentrant = true)
include hr

theorem Staged.step (h : g.Staged es a) (hw : a.WF g.reentrant)
    (hrun : exec g.reentrantMailboxStep (.start .activate .activating g.default) es = some a)
    (hok : g.noPanic a e = true) (hst : g.Step a e a') : g.Staged (es ++ [e]) a' := by
  have hb := begun_snoc (e := e) hrun
  -- handler tasks that have been joined take no step
  have hjoined : ∀ {ph : Phase S} {k : ℕ} {x : Handler S}, a.phase = ph → ph.inLoop = false →
      a.handlers[k]? = some x → x = .joined :=
    fun hp hl hk => hw.joined_of_phase hp hl _ _ hk
  cases h with
  | start =>
    cases hst with
    | activateOk _ ha => exact .serving ha (by simp) (.inl rfl) served_start
    | activatePanic _ ha =>
      rw [noPanic, ha] at hok
      cases hok
    | acquire hk | runOk hk | runPanic hk | join hk => simp [Activation.start] at hk
    | _ hp => cases hp
  | @serving now past s₀ _ ha hpast hp hs =>
    by_cases he : e.ofLoop = true
    · obtain ⟨hs', hp'⟩ := hs.step hr hw hrun hp he hok hst
      refine .serving ha (fun e' he' => ?_) hp' hs'
      rcases mem_append.mp he' with he' | he'
      · exact hpast e' he'
      · rw [mem_singleton.mp he']
        exact he
    · cases hst with
      | deactivate hdeact =>
        have hdone := hs.done (hw.joined_of_phase hdeact rfl)
        exact .leaving ha hpast rfl (hdone.snoc (by simpa [begins] using hb) rfl) rfl
      | activateOk hq | activatePanic hq | handleOk hq | handlePanic hq | remove hq =>
        rcases hp with hp | hp | hp <;> cases hp.symm.trans hq
      | drain _ _ hstop => rcases hstop with rfl | rfl <;> exact absurd rfl he
      | _ => exact absurd rfl he
  | @leaving now past s₀ s _ ha hpast hp hd hstate =>
    cases hst with
    | remove =>
      have hdone := hd.snoc (e := .remove) (by simpa [begins] using hb) rfl
      rw [append_assoc] at hdone ⊢
      exact .ended ha hpast rfl hdone hstate
    | acquire hk | runOk hk | runPanic hk | join hk => cases hjoined hp rfl hk
    | _ hq => cases hp.symm.trans hq
  | ended ha hpast hp =>
    cases hst with
    | acquire hk | runOk hk | runPanic hk | join hk => cases hjoined hp rfl hk
    | _ hq => cases hp.symm.trans hq

section

variable (h : exec g.reentrantMailboxStep (.start .activate .activating g.default) es = some a)
include h

theorem wf_of_exec : a.WF g.reentrant :=
  exec_invariant_of_step (I := fun a => a.WF g.reentrant)
    (fun _ _ _ hw hstep => (reentrantMailboxStep_sound hr hstep).wf hw) (Grain.start_wf g) h

theorem staged_of_exec
    (hok : Along g.reentrantMailboxStep (fun a e => g.noPanic a e = true) (.start .activate
      .activating g.default) es) : g.Staged es a := by
  revert hok
  refine exec_induction (I := fun es a =>
    Along g.reentrantMailboxStep (fun a e => g.noPanic a e = true)
      (.start .activate .activating g.default) es →
      g.Staged es a) (fun _ => .start) (fun es u e v hu ih hstep hok => ?_) h
  obtain ⟨hok, he⟩ := (along_snoc_iff hu).mp hok
  exact (ih hok).step hr (wf_of_exec hr hu) hu he (reentrantMailboxStep_sound hr hstep)

/-! ## The number of tasks -/

end

end

theorem inFlight_setHandler_le {h h'} (hk : a.handlers[k]? = some h)
    (hj : h.isJoined = false) : (a.setHandler k h').inFlight ≤ a.inFlight := by
  obtain ⟨before, after, hhandlers, -, hset⟩ := set_eq_append_cons hk h'
  rw [inFlight, inFlight, setHandler, hset, hhandlers, countP_append, countP_append,
    countP_cons, countP_cons, hj]
  cases h'.isJoined <;> simp

theorem inFlight_le_of_step (hr : g.reentrant = true) (h : a.inFlight ≤ maxConcurrent)
    (hst : g.reentrantMailboxStep a e = some a') : a'.inFlight ≤ maxConcurrent := by
  cases reentrantMailboxStep_sound hr hst with
  | @spawn env hp =>
    simp only [reentrantMailboxStep, hp] at hst
    split at hst
    · rename_i hlt
      have hone : [waiting env].countP (fun h => !h.isJoined) = 1 := rfl
      rw [inFlight, countP_append, hone]
      exact hlt
    · cases hst
  | acquire hk | join hk => exact Nat.le_trans (inFlight_setHandler_le hk rfl) h
  | @runOk k env _ hk | @runPanic k env _ hk =>
    have hle : (a.setHandler k .finished).inFlight ≤ a.inFlight := inFlight_setHandler_le hk rfl
    exact Nat.le_trans hle h
  | _ => exact h

/-! ## The drain -/

def stepsLeft : Handler S → ℕ
  | .waiting _ => 3
  | .locked _ => 2
  | .finished => 1
  | _ => 0

/-- What a task of `run_reentrant_mailbox` can be. -/
def IsPlain : Handler S → Prop
  | .waiting _ | .locked _ | .finished | .joined => True
  | _ => False

/-- The steps all handler tasks have still to take. -/
def drainLeft (a : Activation S) : ℕ :=
  (a.handlers.map stepsLeft).sum

theorem drainLeft_setHandler {h h'} (hk : a.handlers[k]? = some h)
    (hlt : stepsLeft h' < stepsLeft h) : drainLeft (a.setHandler k h') < drainLeft a := by
  obtain ⟨before, after, hhandlers, -, hset⟩ := set_eq_append_cons hk h'
  rw [drainLeft, drainLeft, setHandler, hset, hhandlers, map_append, map_append,
    sum_append, sum_append, map_cons, map_cons, sum_cons, sum_cons]
  omega

theorem isPlain_set {l : List (Handler S)} (hl : ∀ h ∈ l, IsPlain h) (h' : Handler S)
    (hh' : IsPlain h') : ∀ h ∈ l.set k h', IsPlain h := fun h hmem =>
  (mem_or_eq_of_mem_set hmem).elim (hl h) fun heq => heq ▸ hh'

theorem exists_handlerStep (hplain : ∀ h ∈ a.handlers, IsPlain h) (hne : a.inFlight ≠ 0) :
    ∃ k e a', reentrantHandlerStep a k e = some a' ∧ drainLeft a' < drainLeft a ∧
      a'.phase = a.phase ∧ ∀ h ∈ a'.handlers, IsPlain h := by
  have hm : ∀ {k h} (e : HandlerEvent) (b : Activation S) (h' : Handler S),
      a.handlers[k]? = some h → b.handlers = a.handlers → b.phase = a.phase →
      stepsLeft h' < stepsLeft h → IsPlain h' →
      reentrantHandlerStep a k e = some (b.setHandler k h') →
      ∃ k e a', reentrantHandlerStep a k e = some a' ∧ drainLeft a' < drainLeft a ∧
        a'.phase = a.phase ∧ ∀ h ∈ a'.handlers, IsPlain h := by
    intro k h e b h' hk hb hp hlt hh' hstep
    refine ⟨k, e, _, hstep, ?_, hp, ?_⟩
    · have hleft : drainLeft (b.setHandler k h') = drainLeft (a.setHandler k h') := by
        simp only [drainLeft, setHandler, hb]
      rw [hleft]
      exact drainLeft_setHandler hk hlt
    · simp only [setHandler, hb]
      exact isPlain_set hplain _ hh'
  by_cases hfree : a.lockFree = true
  · obtain ⟨h, hmem, hj⟩ : ∃ h ∈ a.handlers, h.isJoined = false := by
      by_contra hall
      refine hne (countP_eq_zero.mpr fun h hmem hj => hall ⟨h, hmem, by simpa using hj⟩)
    obtain ⟨k, hk⟩ := mem_iff_getElem?.mp hmem
    cases h with
    | waiting env =>
      exact hm .acquire a (.locked env) hk rfl rfl (by simp [stepsLeft]) trivial
        (by simp [reentrantHandlerStep, hk, hfree])
    | finished =>
      exact hm .join a .joined hk rfl rfl (by simp [stepsLeft]) trivial
        (by simp only [reentrantHandlerStep, hk])
    | locked env => cases lockFree_iff.mp hfree k _ hk
    | joined => cases hj
    | _ => exact (hplain _ hmem).elim
  · obtain ⟨k, h, hk, hl⟩ : ∃ (k : ℕ) (h : Handler S),
        a.handlers[k]? = some h ∧ h.holdsLock = true := by
      by_contra hall
      refine hfree (lockFree_iff.mpr fun k h hk => ?_)
      by_contra hl
      exact hall ⟨k, h, hk, by simpa using hl⟩
    cases h with
    | locked env =>
      cases ho : env.handleFn a.state with
      | ok s =>
        exact hm .run (a.complete env s) .finished hk rfl rfl (by simp [stepsLeft]) trivial
          (by simp only [reentrantHandlerStep, hk, ho])
      | panicked s =>
        exact hm .run (a.record (.panicked env) s) .finished hk rfl rfl (by simp [stepsLeft])
          trivial (by simp only [reentrantHandlerStep, hk, ho])
    | handled => exact (hplain _ (mem_of_getElem? hk)).elim
    | _ => cases hl

theorem isPlain_of_step (hr : g.reentrant = true) (h : ∀ h ∈ a.handlers, IsPlain h)
    (hstep : g.reentrantMailboxStep a e = some a') : ∀ h ∈ a'.handlers, IsPlain h := by
  cases reentrantMailboxStep_sound hr hstep with
  | spawn =>
    intro x hx
    rcases mem_append.mp hx with hx | hx
    · exact h x hx
    · rw [mem_singleton.mp hx]
      trivial
  | acquire | runOk | runPanic | join => exact isPlain_set h _ trivial
  | _ => exact h

theorem exists_drained (g : Grain S) (hplain : ∀ h ∈ a.handlers, IsPlain h) :
    ∃ rest a', (∀ env, .recv env ∉ rest) ∧ exec g.reentrantMailboxStep a rest = some a' ∧
      a'.inFlight = 0 ∧ a'.phase = a.phase := by
  obtain ⟨rest, a', hrun, hrest, ⟨-, hp⟩, hzero⟩ :
      ∃ rest a', exec g.reentrantMailboxStep a rest = some a' ∧
      (∀ e ∈ rest, ∃ k f, e = .handler k f) ∧
      ((∀ h ∈ a'.handlers, IsPlain h) ∧ a'.phase = a.phase) ∧ a'.inFlight = 0 := by
    refine exists_exec_of_rank drainLeft (fun b hb => ?_) ⟨hplain, rfl⟩
    rw [or_iff_not_imp_left]
    intro hne
    obtain ⟨k, e, b', hstep, hlt, hphase, hb'⟩ := exists_handlerStep hb.1 hne
    exact ⟨.handler k e, b', hstep, ⟨k, e, rfl⟩, ⟨hb', hphase.trans hb.2⟩, hlt⟩
  refine ⟨rest, a', ?_, hrun, hzero, hp⟩
  intro env hmem
  obtain ⟨k, f, heq⟩ := hrest _ hmem
  cases heq

theorem reentrant_endsBy_of_remove (hp : a.phase = .remove) :
    EndsBy g.reentrantMailboxStep a [.remove] := by
  have hstep : g.reentrantMailboxStep a .remove =
      some { a with phase := .ended, fsm := a.fsm.next .deactivateComplete } := by
    simp only [reentrantMailboxStep, hp]
  exact .cons hstep ⟨_, rfl, rfl⟩

theorem reentrant_endsBy_of_deactivate (hp : a.phase = .deactivate) :
    EndsBy g.reentrantMailboxStep a [.onDeactivate, .remove] := by
  have hstep : g.reentrantMailboxStep a .onDeactivate =
      some { a.record .deactivate (g.onDeactivate a.state).state with
        phase := .remove
        fsm := (a.fsm.next .drainComplete).next .deactivateComplete } := by
    simp only [reentrantMailboxStep, hp]
  exact .cons hstep (reentrant_endsBy_of_remove rfl)

theorem reentrant_endsBy_of_drain (hp : a.phase = .drain) (hplain : ∀ h ∈ a.handlers, IsPlain h) :
    ∃ rest, (∀ env, .recv env ∉ rest) ∧ EndsBy g.reentrantMailboxStep a rest := by
  obtain ⟨rest, b, hrest, hrun, hzero, hb⟩ := exists_drained g hplain
  have hstep : g.reentrantMailboxStep b .drained = some { b with phase := .deactivate } := by
    simp [reentrantMailboxStep, hb, hp, hzero]
  refine ⟨rest ++ [.drained, .onDeactivate, .remove], fun env => ?_,
    .append hrun (.cons hstep (reentrant_endsBy_of_deactivate rfl))⟩
  simpa using hrest env

theorem reentrant_endsBy_of_loop (hp : a.phase = .loop) (hplain : ∀ h ∈ a.handlers, IsPlain h) :
    ∃ rest, (∀ env, .recv env ∉ rest) ∧ EndsBy g.reentrantMailboxStep a rest := by
  have hstep : g.reentrantMailboxStep a .closed =
      some { a with phase := .drain, fsm := a.fsm.next .channelClosed } := by
    simp only [reentrantMailboxStep, hp]
  obtain ⟨rest, hrest, hends⟩ := reentrant_endsBy_of_drain (g := g)
    (a := { a with phase := .drain, fsm := a.fsm.next .channelClosed }) rfl hplain
  refine ⟨.closed :: rest, fun env => ?_, .cons hstep hends⟩
  simpa using hrest env

theorem Staged.exists_endsBy (h : g.Staged es a) (hplain : ∀ h ∈ a.handlers, IsPlain h) :
    ∃ rest, (∀ env, .recv env ∉ rest) ∧ EndsBy g.reentrantMailboxStep a rest := by
  cases h with
  | start =>
    let a₀ : Activation S := .start .activate .activating g.default
    cases ha : g.onActivate g.default with
    | ok s =>
      have hst : g.reentrantMailboxStep a₀ (.onActivate 0) =
          some ((a₀.record .activate s).settle .idle) := by
        simp only [reentrantMailboxStep, a₀, Activation.start, ha, ActivationState.next]
      obtain ⟨rest, hrest, hends⟩ := reentrant_endsBy_of_loop (g := g)
        (a := (a₀.record .activate s).settle .idle) rfl hplain
      refine ⟨.onActivate 0 :: rest, fun env => ?_, .cons hst hends⟩
      simpa using hrest env
    | panicked s =>
      have hst : g.reentrantMailboxStep a₀ (.onActivate 0) =
          some ((a₀.record .activate s).settle .faulted) := by
        simp only [reentrantMailboxStep, a₀, Activation.start, ha, ActivationState.next]
      exact ⟨_, by simp, .cons hst (reentrant_endsBy_of_remove rfl)⟩
  | serving _ _ hp =>
    rcases hp with hp | hp | hp
    · exact reentrant_endsBy_of_loop hp hplain
    · exact reentrant_endsBy_of_drain hp hplain
    · exact ⟨_, by simp, reentrant_endsBy_of_deactivate hp⟩
  | leaving _ _ hp => exact ⟨_, by simp, reentrant_endsBy_of_remove hp⟩
  | ended _ _ hp => exact ⟨[], by simp, a, rfl, hp⟩

/-! ## Whole runs -/

theorem Staged.of_ended (h : g.Staged es a) (hp : a.phase = .ended) :
    ∃ now past s₀ s, es = .onActivate now :: past ++ [.onDeactivate, .remove] ∧
      (∀ e ∈ past, e.ofLoop = true) ∧ g.onActivate g.default = .ok s₀ ∧ g.Done s₀ es s ∧
      a.state = (g.onDeactivate s).state := by
  cases h with
  | ended ha hpast _ hd hstate => exact ⟨_, _, _, _, rfl, hpast, ha, hd, hstate⟩
  | start => cases hp
  | leaving _ _ hq => cases hq.symm.trans hp
  | serving _ _ hq => rcases hq with hq | hq | hq <;> cases hq.symm.trans hp

/-- Two messages to a reentrant counter, the second of which gets the lock first. -/
def overtaking : List (MailboxEvent UInt8) :=
  [.onActivate 0, .recv (addMessage 1), .recv (addMessage 2), .handler 1 .acquire, .handler 1 .run,
    .handler 0 .acquire, .handler 0 .run, .handler 1 .join, .handler 0 .join, .closed, .drained,
    .onDeactivate, .remove]

end Grain

end Orlando
