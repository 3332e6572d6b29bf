import Orlando.SequentialTask
import Orlando.Throttle

/-!
# What a crash costs under `WriteBack`

Under `WriteBack(d)` the sequential loop saves after a message if at least `d` has passed since its
last save or since it began. A message it does not save at once waits for the next message that
comes late enough. `Timed` is the task with a clock.
-/

namespace Orlando

open Activation List PersistentArgs Phase Throttle Option

variable {S : Type} {ph : Phase S}

/-! ## Time -/

/-- A task with a clock, the time at which its loop began, and the times at which the handlers of
its messages have completed. -/
structure Timed (S : Type) where
  now : ℕ
  act : Activation S
  shared : Shared
  began : ℕ
  done : List ℕ

inductive TimedEvent (S : Type) where
  | tick (n : ℕ)
  | mailbox (e : MailboxEvent S)

/-- The decision about a save, and the save. -/
def Phase.instant : Phase S → Bool
  | persist | flush _ | publish _ => true
  | _ => false

def MailboxEvent.readsClock (now : ℕ) : MailboxEvent S → Bool
  | onActivate t => t == now
  | prepare t _ => t == now
  | _ => true

namespace Timed

def start (p : PersistentArgs S) (m : Shared) (now : ℕ) : Timed S where
  now := now
  act := p.start
  shared := m
  began := now
  done := []

def record (u : Timed S) (e : MailboxEvent S) (r : Activation S × Shared) : Timed S where
  now := u.now
  act := r.1
  shared := r.2
  began :=
    match e with
    | .onActivate _ => u.now
    | _ => u.began
  done :=
    match e, r.1.phase with
    -- a handler that panics does not complete
    | .handle, .persist => u.done ++ [u.now]
    | _, _ => u.done

def step (p : PersistentArgs S) (gid : GrainId) (u : Timed S) : TimedEvent S → Option (Timed S)
  | .tick n => if u.act.phase.instant then none else some { u with now := u.now + n }
  | .mailbox e =>
    if e.readsClock u.now then (p.step gid u.act u.shared e).map (u.record e) else none

end Timed

/-- The messages in the last accepted save. The first turn is `on_activate`. -/
def Activation.lastSaved (a : Activation S) : ℕ :=
  a.saved.getLast?.getD 1 - 1

/-- The store reflects the message `k` : the last save was made after its handler, and the store
holds it. -/
def Timed.Reflects (p : PersistentArgs S) (gid : GrainId) (u : Timed S) (k : ℕ) : Prop :=
  k < u.act.lastSaved ∧ ∃ bytes, u.shared.store.get gid = some bytes ∧
    p.serializer.serialize
      (reached p.grain u.act.loaded (u.act.completed.take u.act.lastSaved)) = .ok bytes

/-! ## The loop as a throttle -/

def Phase.looping : Phase S → Bool
  | loop | handling _ | persist | flush _ | publish _ => true
  | _ => false

theorem Phase.receiving_iff : ph.receiving = true ↔ ph.stage = .starting ∨ ph.looping = true := by
  cases ph <;> simp [receiving, stage, looping]

theorem Phase.not_looping_of_starting (h : ph.stage = .starting) : ph.looping = false := by
  cases ph <;> first | rfl | cases h

namespace PersistentArgs

variable {p : PersistentArgs S} {gid : GrainId} {a a' : Activation S} {m m' : Shared}

theorem step_prepare_writeBack {d now} {delivered} (hd : p.strategy = .writeBack d)
    (hfsm : a.fsm = .processing) (hp : a.phase = .persist)
    (h : p.step gid a m (.prepare now delivered) = some (a', m')) :
    (now - a.lastSave < d ∧ a' = a.settle .idle) ∨
      (d ≤ now - a.lastSave ∧ ∃ bytes, a' = { a with lastSave := now, phase := .flush bytes }) ∨
      a'.phase.receiving = false := by
  simp only [step, hp, some.injEq] at h
  unfold prepareStep preparePersist at h
  simp only [hd] at h
  by_cases ht : now - a.lastSave < d
  · simp only [if_pos ht, hfsm] at h
    obtain ⟨rfl, -⟩ := Prod.mk.inj h
    exact .inl ⟨ht, rfl⟩
  · simp only [if_neg ht] at h
    cases hs : p.serializer.serialize a.state with
    | ok bytes =>
      simp only [hs] at h
      obtain ⟨rfl, -⟩ := Prod.mk.inj h
      exact .inr (.inl ⟨Nat.not_lt.mp ht, bytes, rfl⟩)
    | error err =>
      simp only [hs, hfsm] at h
      obtain ⟨rfl, -⟩ := Prod.mk.inj h
      exact .inr (.inr rfl)

end PersistentArgs

/-- After the messages completed at the times `cs`, a loop that began at `began` has saved what a
throttle of period `d` has let pass. -/
def Activation.Settled (d began : ℕ) (a : Activation S) (cs : List ℕ) : Prop :=
  a.lastSave = (Throttle.after d began cs).last ∧ a.lastSaved = (Throttle.after d began cs).passed

namespace Timed

variable {p : PersistentArgs S} {gid : GrainId} {d : ℕ} {u v : Timed S} {a' : Activation S}
  {m' : Shared} {es : List (TimedEvent S)} {rs : List (Envelope S)} {old : List Bytes}
  {a : Activation S} {m₀ : Shared} {gid : GrainId} {ph : Phase S} {t₀ : ℕ} {m : Shared}

def Round (d : ℕ) (u : Timed S) : Phase S → Prop
  | .loop | .handling _ | .publish _ => u.act.Settled d u.began u.done
  | .persist => ∃ cs, u.done = cs ++ [u.now] ∧ u.act.Settled d u.began cs
  | .flush _ => u.act.lastSave = (Throttle.after d u.began u.done).last ∧
      (Throttle.after d u.began u.done).passed = u.done.length
  | _ => True

variable (p) in
structure Flows (d : ℕ) (u : Timed S) : Prop where
  wf : u.act.WF p.grain.reentrant
  sorted : (u.began :: u.done).Pairwise (· ≤ ·)
  past : ∀ c ∈ u.began :: u.done, c ≤ u.now
  fresh : u.act.phase.stage = .starting → u.done = [] ∧ u.act.turns = [] ∧ u.act.saved = []
  turns : u.act.phase.looping = true → u.act.turns.length = u.done.length + 1
  round : Round d u u.act.phase

theorem Flows.round_of (h : Flows p d u) (hp : u.act.phase = ph) : Round d u ph :=
  hp ▸ h.round

theorem round_outside (h : ph.looping = false) : Round d u ph := by
  cases ph with
  | loop | handling | persist | flush | publish => cases h
  | _ => exact True.intro

theorem start_flows (m) (now) : Flows p d (start p m now) := by
  obtain ⟨hst, hturns, hsaved⟩ :
      p.start.phase.stage = .starting ∧ p.start.turns = [] ∧ p.start.saved = [] := by
    unfold PersistentArgs.start
    cases p.entry <;> exact ⟨rfl, rfl, rfl⟩
  have hl := not_looping_of_starting hst
  exact ⟨start_wf, by simp [start], by simp [start], fun _ => ⟨rfl, hturns, hsaved⟩,
    fun h => absurd h (by simp [start, hl]), round_outside hl⟩

section

variable (h : Flows p d u)
include h

theorem Flows.tick (hi : u.act.phase.instant = false) (n) :
    Flows p d { u with now := u.now + n } := by
  refine ⟨h.wf, h.sorted, fun c hc => Nat.le_add_right_of_le (h.past c hc), h.fresh, h.turns, ?_⟩
  have hround := h.round
  show Round d { u with now := u.now + n } u.act.phase
  generalize u.act.phase = ph at hi hround ⊢
  cases ph with
  | persist => cases hi
  | _ => exact hround

section

variable (hw : a'.WF p.grain.reentrant)
include hw

theorem Flows.move
    (hst : a'.phase.stage = .starting → u.act.phase.stage = .starting ∧ a'.turns = u.act.turns ∧
      a'.saved = u.act.saved)
    (hl : a'.phase.looping = true → u.act.phase.looping = true ∧ a'.turns = u.act.turns)
    (hround : Round d { u with act := a', shared := m' } a'.phase) :
    Flows p d { u with act := a', shared := m' } := by
  refine ⟨hw, h.sorted, h.past, ?_, ?_, hround⟩
  · intro hs
    obtain ⟨hs, ht, hsv⟩ := hst hs
    obtain ⟨hdone, hturns, hsaved⟩ := h.fresh hs
    exact ⟨hdone, ht.trans hturns, hsv.trans hsaved⟩
  · intro hl'
    obtain ⟨hl, ht⟩ := hl hl'
    exact ht ▸ h.turns hl

theorem Flows.left (hr : a'.phase.receiving = false) :
    Flows p d { u with act := a', shared := m' } := by
  have hout : ¬(a'.phase.stage = .starting ∨ a'.phase.looping = true) := by
    rw [← receiving_iff, hr]
    exact Bool.false_ne_true
  rw [not_or, Bool.not_eq_true] at hout
  exact h.move hw (fun hs => absurd hs hout.1) (fun hl => absurd hl (by simp [hout.2]))
    (round_outside hout.2)

theorem Flows.within {ph} (hp : u.act.phase = ph) (hph : ph.looping = true)
    (hl' : a'.phase.looping = true) (ht : a'.turns = u.act.turns)
    (hround : Round d { u with act := a', shared := m' } a'.phase) :
    Flows p d { u with act := a', shared := m' } := by
  refine h.move hw (fun hs => ?_) (fun _ => ⟨hp ▸ hph, ht⟩) hround
  rw [not_looping_of_starting hs] at hl'
  cases hl'

end

theorem Flows.activate {t} (hs : p.Step gid u.act u.shared (.onActivate t) a' m')
    (ht : t = u.now) : Flows p d { u with act := a', shared := m', began := u.now } := by
  have hw := hs.wf h.wf
  cases hs with
  | activateOk hp =>
    obtain ⟨hdone, hturns, hsaved⟩ := h.fresh (hp ▸ rfl)
    refine ⟨hw, by simp [hdone], by simp [hdone], (fun hs => by cases hs), ?_, ?_⟩
    · intro _
      simp [Activation.record, hturns, hdone]
    · simp [Round, Activation.Settled, lastSaved, Activation.record, hdone, hsaved, ht,
        Throttle.after]
  | activatePanic hp =>
    obtain ⟨hdone, -, -⟩ := h.fresh (hp ▸ rfl)
    exact ⟨hw, by simp [hdone], by simp [hdone], (fun hs => by cases hs),
      (fun hl => by cases hl), True.intro⟩
  | drain _ _ he => rcases he with he | he <;> cases he

theorem Flows.handle (hs : p.Step gid u.act u.shared .handle a' m') :
    Flows p d (u.record .handle (a', m')) := by
  have hw := hs.wf h.wf
  cases hs with
  | handleOk hp =>
    have hturns := h.turns (hp ▸ rfl)
    refine ⟨hw, ?_, ?_, (fun hs => by cases hs), ?_, ⟨u.done, rfl, h.round_of hp⟩⟩
    · simp only [record]
      rw [← cons_append, pairwise_append]
      refine ⟨h.sorted, pairwise_singleton _ _, ?_⟩
      intro c hc b hb
      rw [mem_singleton.mp hb]
      exact h.past c hc
    · intro c hc
      simp only [record, mem_cons, mem_append, not_mem_nil, or_false] at hc
      rcases hc with rfl | hc | rfl
      · exact h.past _ mem_cons_self
      · exact h.past c (mem_cons_of_mem _ hc)
      · exact Nat.le_refl _
    · intro _
      simp [record, complete, Activation.record, hturns]
  | @handlePanic env s hp =>
    have hfsm := h.wf.processing (hp ▸ rfl)
    rw [hfsm] at hw ⊢
    exact h.left hw rfl
  | drain _ _ he => rcases he with he | he <;> cases he

end

theorem Flows.prepare {delivered} (hd : p.strategy = .writeBack d) (h : Flows p d u)
    (hs : p.step gid u.act u.shared (.prepare u.now delivered) = some (a', m')) :
    Flows p d { u with act := a', shared := m' } := by
  have hw := (step_sound hs).wf h.wf
  have hp : u.act.phase = .persist := by
    cases hp : u.act.phase with
    | persist => rfl
    | _ => simp [PersistentArgs.step, hp] at hs
  obtain ⟨cs, hdone, hl, hsaved⟩ := h.round_of hp
  have hafter : after d u.began u.done = (after d u.began cs).next d u.now := by
    rw [hdone, after_snoc]
  rcases step_prepare_writeBack hd (h.wf.processing (hp ▸ rfl)) hp hs with
    ⟨hlt, rfl⟩ | ⟨hle, bytes, rfl⟩ | hr
  · rw [hl] at hlt
    refine h.within hw hp rfl rfl rfl ?_
    show Activation.Settled d u.began (u.act.settle .idle) u.done
    rw [Activation.Settled, hafter, next_of_lt hlt]
    exact ⟨hl, hsaved⟩
  · rw [hl] at hle
    refine h.within hw hp rfl rfl rfl ?_
    show u.now = _ ∧ _
    rw [hafter, next_of_le hle]
    exact ⟨rfl, by rw [seen_after, hdone, length_append]; rfl⟩
  · exact h.left hw hr

/-- The steps that neither begin the loop nor end a handler nor decide about a save. -/
theorem Flows.other {e} (hseq : p.grain.reentrant = false) (h : Flows p d u)
    (hs : p.Step gid u.act u.shared e a' m') (ha : ∀ t, e ≠ .onActivate t) (hh : e ≠ .handle)
    (hprep : ∀ t b, e ≠ .prepare t b) : Flows p d { u with act := a', shared := m' } := by
  have hw := hs.wf h.wf
  cases hs with
  | loadRetry hp | loadTag hp | loadRun hp | loadVersioned hp =>
    exact h.move hw (fun _ => ⟨by rw [hp]; rfl, rfl, rfl⟩) (fun hl => by cases hl) True.intro
  | loadFailed hp =>
    exact h.move hw (fun _ => ⟨starting_of_loading hp, rfl, rfl⟩) (fun hl => by cases hl) True.intro
  | recv hp => exact h.within hw hp rfl rfl rfl (h.round_of hp)
  | flush hp =>
    -- the save covers every message so far
    have hfsm := h.wf.processing (hp ▸ rfl)
    have hts := h.turns (hp ▸ rfl)
    obtain ⟨hlast, hpassed⟩ := h.round_of hp
    rw [hfsm] at hw ⊢
    refine h.within hw hp rfl rfl rfl ⟨hlast, ?_⟩
    simp [lastSaved, settle, hts, hpassed]
  | flushReplicated hp =>
    have hts := h.turns (hp ▸ rfl)
    obtain ⟨hlast, hpassed⟩ := h.round_of hp
    refine h.within hw hp rfl rfl rfl ⟨hlast, ?_⟩
    simp [lastSaved, hts, hpassed]
  | publish hp =>
    have hfsm := h.wf.processing (hp ▸ rfl)
    rw [hfsm] at hw ⊢
    exact h.within hw hp rfl rfl rfl (h.round_of hp)
  | flushRefused hp =>
    have hfsm := h.wf.processing (hp ▸ rfl)
    rw [hfsm] at hw ⊢
    exact h.left hw rfl
  | closed hp | idleTimeout hp =>
    rw [h.wf.idle hp] at hw ⊢
    exact h.left hw rfl
  | activateOk | activatePanic => exact absurd rfl (ha _)
  | handleOk | handlePanic => exact absurd rfl hh
  | skip | replicate | serializeFailed | write => exact absurd rfl (hprep _ _)
  | spawn hp hr | drain hp hr => rw [hseq] at hr; cases hr
  | acquire hk | runOk hk | runPanic hk | release hk | handlerSave hk | handlerSaveRefused hk
  | handlerSend hk | join hk => exact (no_handler h.wf hseq hk).elim
  | _ => exact h.left hw rfl

theorem Flows.step {e} (hd : p.strategy = .writeBack d) (hseq : p.grain.reentrant = false)
    (h : Flows p d u) (hst : step p gid u e = some v) : Flows p d v := by
  cases e with
  | tick n =>
    simp only [Timed.step] at hst
    split at hst
    · cases hst
    · rename_i hi
      cases hst
      exact h.tick (Bool.not_eq_true _ ▸ hi) n
  | mailbox e =>
    simp only [Timed.step] at hst
    split at hst
    · rename_i hclock
      obtain ⟨⟨a', m'⟩, hs, rfl⟩ := map_eq_some_iff.mp hst
      have hsd := step_sound hs
      cases e with
      | onActivate t => exact h.activate hsd (by simpa [MailboxEvent.readsClock] using hclock)
      | handle => exact h.handle hsd
      | prepare t delivered =>
        obtain rfl : t = u.now := by simpa [MailboxEvent.readsClock] using hclock
        exact h.prepare hd hs
      | _ => exact h.other hseq hsd (by simp) (by simp) (by simp)
    · cases hst

theorem exec_transition (hrun : exec (step p gid) (start p m₀ t₀) es = some u) :
    ∃ fs, exec (p.transition gid) (p.start, m₀) fs = some (u.act, u.shared) := by
  refine exec_invariant_of_step
    (I := fun u => ∃ fs, exec (p.transition gid) (p.start, m₀) fs = some (u.act, u.shared))
    ?_ ⟨[], rfl⟩ hrun
  rintro v e w ⟨fs, hfs⟩ hst
  cases e with
  | tick n =>
    simp only [Timed.step] at hst
    split at hst
    · cases hst
    · cases hst
      exact ⟨fs, hfs⟩
  | mailbox e =>
    simp only [Timed.step] at hst
    split at hst
    · obtain ⟨r, hs, rfl⟩ := map_eq_some_iff.mp hst
      exact ⟨fs ++ [e], exec_snoc_eq_some.mpr ⟨_, hfs, hs⟩⟩
    · cases hst

theorem run_flows (hd : p.strategy = .writeBack d) (hseq : p.grain.reentrant = false)
    (hrun : exec (step p gid) (start p m₀ t₀) es = some u) : Flows p d u :=
  exec_invariant_of_step (fun _ _ _ hI hstep => hI.step hd hseq hstep) (start_flows m₀ t₀) hrun

/-! ## When the store reflects what is old enough -/

theorem turns_eq (h : p.Prefixes gid old rs a m) (hl : a.phase.looping = true) :
    a.turns = .activate :: a.completed.map .handled := by
  have hcompleted : ∀ envs : List (Envelope S), a.turns = .activate :: envs.map .handled →
      a.turns = .activate :: a.completed.map .handled := by
    intro envs hts
    have henvs := completed_of_turns (by rw [hts, append_nil]) (.inl rfl)
    rw [henvs, hts]
  cases hp : a.phase with
  | loop | persist | flush | publish => exact hcompleted rs (h.script.of_between (hp ▸ rfl))
  | handling env =>
    obtain ⟨envs, -, hts⟩ := h.script.of_handling hp
    exact hcompleted envs hts
  | _ => simp [hp, looping] at hl

theorem stored_lastSaved (h : p.Prefixes gid old rs a m)
    (hturns : a.turns = .activate :: a.completed.map .handled) (hsaved : 0 < a.lastSaved)
    (hle : a.lastSaved ≤ a.completed.length) :
    ∃ bytes, m.store.get gid = some bytes ∧
      p.serializer.serialize (reached p.grain a.loaded (a.completed.take a.lastSaved)) =
        .ok bytes := by
  obtain ⟨n, hn⟩ : ∃ n, a.saved.getLast? = some n := by
    cases hlast : a.saved.getLast? with
    | none => simp [lastSaved, hlast] at hsaved
    | some n => exact ⟨n, rfl⟩
  have hlastSaved : a.lastSaved = n - 1 := by simp [lastSaved, hn]
  obtain ⟨bs, hbs, hsnap⟩ := h.order.writes
  obtain ⟨bytes, hbytes, hR⟩ := exists_getLast_of_getLast hsnap hn
  obtain ⟨-, hprefix⟩ := h.encodesPrefix (mem_of_getLast? hn) hR
  refine ⟨bytes, ?_, ?_⟩
  · rw [WriteLog.get, hbs, getLast?_append, hbytes]
    rfl
  · rw [← hlastSaved, Nat.min_eq_left hle] at hprefix
    rcases hprefix with hprefix | ⟨hdeact, -⟩
    · exact hprefix
    · simp [hturns] at hdeact

/-- The store reflects every message completed at least `d` before a crash exactly if for each a
message not before it has completed at least `d` after the last save before it. -/
theorem writeBack_reflects_iff (p : PersistentArgs S) (d : ℕ) (gid : GrainId) (m₀ : Shared) (t₀ : ℕ)
    (es : List (TimedEvent S)) (u : Timed S) (hd : p.strategy = .writeBack d)
    (hseq : p.grain.reentrant = false) (hrun : exec (step p gid) (start p m₀ t₀) es = some u)
    (hlive : u.act.phase.receiving = true) (hidle : u.act.phase.instant = false) :
    u.done.length = u.act.completed.length ∧
    ((∀ k c, u.done[k]? = some c → c + d ≤ u.now → u.Reflects p gid k) ↔
      ∀ k c, u.done[k]? = some c → c + d ≤ u.now → ∃ i b, k ≤ i ∧ u.done[i]? = some b ∧
          (after d u.began (u.done.take k)).last + d ≤ b) := by
  have hflows := run_flows hd hseq hrun
  obtain ⟨fs, hfs⟩ := exec_transition hrun
  have hpre := run_prefixes hseq hfs
  rcases receiving_iff.mp hlive with hst | hl
  · obtain ⟨hdone, hturns, -⟩ := hflows.fresh hst
    simp [hdone, completed, hturns]
  · have hturns := turns_eq hpre hl
    have hlen : u.done.length = u.act.completed.length := by
      have := hflows.turns hl
      rw [hturns, length_cons, length_map] at this
      omega
    have hsettled : u.act.Settled d u.began u.done := by
      cases hp : u.act.phase with
      | loop | handling => exact hflows.round_of hp
      | persist | flush | publish => simp [hp, instant] at hidle
      | _ => simp [hp, looping] at hl
    have hle : u.act.lastSaved ≤ u.act.completed.length := by
      rw [hsettled.2, ← hlen]
      exact passed_le_length _ _ _
    have hreflects : ∀ k, u.Reflects p gid k ↔ ∃ i b, k ≤ i ∧ u.done[i]? = some b ∧
        (after d u.began (u.done.take k)).last + d ≤ b := by
      intro k
      rw [← lt_passed_iff hflows.sorted, ← hsettled.2]
      refine ⟨fun h => h.1, fun h => ⟨h, ?_⟩⟩
      exact stored_lastSaved hpre hturns (Nat.zero_lt_of_lt h) hle
    refine ⟨hlen, ?_⟩
    simp only [hreflects]

/-- The loop begins at `0`. Two messages are handled, at `1` and at `10`, and the second comes late
enough for a save. -/
def twoMessages : List (TimedEvent UInt8) :=
  [.mailbox (.load none), .mailbox (.onActivate 0), .tick 1, .mailbox (.recv (addMessage 3)),
    .mailbox .handle, .mailbox (.prepare 1 false), .tick 9, .mailbox (.recv (addMessage 4)),
    .mailbox .handle, .mailbox (.prepare 10 false), .mailbox (.save none), .tick 2]

theorem writeBack_reflects_two :
    ∃ u, exec (step (counter false (.writeBack 10) (.run false)) ⟨"Counter", "k"⟩)
        (start (counter false (.writeBack 10) (.run false)) .empty 0) twoMessages = some u ∧
      u.now = 12 ∧ u.done = [1, 10] ∧
      ∀ k c, u.done[k]? = some c → c + 10 ≤ u.now →
        u.Reflects (counter false (.writeBack 10) (.run false)) ⟨"Counter", "k"⟩ k := by
  have hview : (exec (step (counter false (.writeBack 10) (.run false)) ⟨"Counter", "k"⟩)
      (start (counter false (.writeBack 10) (.run false)) .empty 0) twoMessages).map
      (fun u => (u.now, u.began, u.done, u.act.phase.receiving, u.act.phase.instant)) =
        some (12, 0, [1, 10], true, false) := by decide +kernel
  obtain ⟨u, hrun, hu⟩ := map_eq_some_iff.mp hview
  simp only [Prod.mk.injEq] at hu
  obtain ⟨hnow, hbegan, hdone, hlive, hidle⟩ := hu
  refine ⟨u, hrun, hnow, hdone, ?_⟩
  refine (writeBack_reflects_iff _ 10 _ _ _ _ u rfl rfl hrun hlive hidle).2.mpr ?_
  intro k c hk hc
  rw [hdone] at hk
  match k, hk with
  | 0, _ => exact ⟨1, 10, by decide, by rw [hdone]; rfl, by rw [hbegan, hdone]; decide⟩
  | 1, hk =>
    cases hk
    rw [hnow] at hc
    omega

/-- One message, handled a moment after the loop began, and no other. When the interval is over, the
store does not reflect it. -/
theorem writeBack_loses_last :
    ∃ u, exec (step (counter false (.writeBack 10) (.run false)) ⟨"Counter", "k"⟩)
        (start (counter false (.writeBack 10) (.run false)) .empty 0)
        [.mailbox (.load none), .mailbox (.onActivate 0), .tick 1, .mailbox (.recv (addMessage 3)),
          .mailbox .handle, .mailbox (.prepare 1 false), .tick 10] = some u ∧
      u.now = 11 ∧ u.done = [1] ∧ u.act.state = 3 ∧
      u.shared.store.get ⟨"Counter", "k"⟩ = none ∧
      ¬ u.Reflects (counter false (.writeBack 10) (.run false)) ⟨"Counter", "k"⟩ 0 := by
  refine ⟨_, rfl, rfl, rfl, rfl, rfl, ?_⟩
  rintro ⟨hlt, -⟩
  exact absurd hlt (by decide)

end Timed

end Orlando
