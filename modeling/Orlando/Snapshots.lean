import Orlando.InOrder
import Orlando.MailboxStep
import Orlando.Transition

/-!
# Snapshots on their way out

The sequential loop and the final save of a persistent task write one serialized state at a time,
and each handler task of a reentrant grain writes its own. `Activation.slots` lists the snapshots a
task holds, each with the number of turns of the state it was taken from. `PersistentArgs.Effect`
says what a step means for the history, the slots, the store and the sink (`Step.effect`). So the
state is the replay of the turns, and every snapshot held is of a state the activation has had
(`Activation.Sound`).
-/

namespace Orlando

open List Function Phase Turn

variable {S : Type} {replicated : Bool} {ph : Phase S}

/-- A serialized state on its way out : the number of turns before it, and whether it
still goes to the store and to the sink. -/
structure Snapshot where
  turns : ℕ
  bytes : Bytes
  save : Bool
  send : Bool

def Handler.snapshot (replicated : Bool) : Handler S → Option Snapshot
  | saving bytes n => some ⟨n, bytes, true, replicated⟩
  | sending bytes n => some ⟨n, bytes, false, true⟩
  | _ => none

/-- The snapshot the task itself holds, `n` turns into its history. -/
def Phase.snapshot (replicated : Bool) (n : ℕ) : Phase S → Option Snapshot
  | flush bytes => some ⟨n, bytes, true, replicated⟩
  | publish bytes => some ⟨n, bytes, false, true⟩
  | save bytes _ => some ⟨n, bytes, true, replicated⟩
  | finalPublish bytes => some ⟨n, bytes, false, true⟩
  | _ => none

/-- The state the last turn left is still to be serialized by the task itself. -/
def Phase.unserialized : Phase S → Bool
  | persist => true
  | serialize => true
  | _ => false

theorem Phase.of_snapshot {n t} (h : ph.snapshot replicated n = some t) :
    ph.loading = false ∧ ph.unserialized = false := by
  cases ph <;> first | exact ⟨rfl, rfl⟩ | cases h

theorem Phase.snapshot_of_inLoop {n} (h : ph.inLoop = true) : ph.snapshot replicated n = none := by
  cases ph <;> first | rfl | cases h

namespace Activation

/-- The snapshots held, by the task itself and by handler task `k`. -/
def slots (replicated : Bool) (a : Activation S) : Option ℕ → Option Snapshot
  | none => a.phase.snapshot replicated a.turns.length
  | some k => (a.handlers[k]?).bind (Handler.snapshot replicated)

/-- The last turn has left a state that has not been serialized yet. -/
def Fresh (a : Activation S) : Prop :=
  a.phase = .persist ∨ a.phase = .serialize ∨ ∃ k : ℕ, a.handlers[k]? = some .handled

structure SameHistory (a a' : Activation S) : Prop where
  loaded : a'.loaded = a.loaded
  state : a'.state = a.state
  turns : a'.turns = a.turns
  replied : a'.replied = a.replied

end Activation

def MailboxEvent.slot : MailboxEvent S → Option ℕ
  | handler k _ => some k
  | _ => none

def MailboxEvent.refused : MailboxEvent S → Bool
  | save (some _) => true
  | handler _ (.save (some _)) => true
  | _ => false

def MailboxEvent.accepted : MailboxEvent S → Bool
  | save none => true
  | handler _ (.save none) => true
  | _ => false

namespace PersistentArgs

variable (p : PersistentArgs S)

/-- What a step means for the history, the snapshots held, the store and the sink. -/
inductive Effect (gid : GrainId) (a : Activation S) (m : Shared) (e : MailboxEvent S) :
    Activation S → Shared → Prop
  | load {a' : Activation S} (hl : a.phase.loading = true) (hl' : a'.phase.loading = false)
    (hstate : a'.state = a'.loaded)
    (hnil : a'.turns = [] ∧ a'.replied = [] ∧ a'.saved = [] ∧ a.saved = [])
    (hslots : ∀ i, a'.slots p.replicated i = none) (hfresh : ¬a'.Fresh) : Effect gid a m e a' m
  /-- User code runs. -/
  | turn {a' : Activation S} (t : Turn S) (hl : a.phase.loading = false)
    (hl' : a'.phase.loading = false) (hfresh : ¬a.Fresh)
    (hloaded : a'.loaded = a.loaded) (hstate : a'.state = t.apply p.grain a.state)
    (hturns : a'.turns = a.turns ++ [t]) (hsaved : a'.saved = a.saved)
    (hreplied : a'.replied = a.replied ∨ a'.replied = a.replied ++ [a.turns.length] ∧ a'.Fresh)
    (hslots : a'.slots p.replicated = a.slots p.replicated) : Effect gid a m e a' m
  /-- The state the last turn left is serialized. -/
  | take {a'} (hl : a.phase.loading = false) (hl' : a'.phase.loading = false)
    (hist : a.SameHistory a') (hsaved : a'.saved = a.saved) (hfresh : a.Fresh)
    (hfresh' : ¬a'.Fresh) {i t} (hfree : a.slots p.replicated i = none)
    (ht : t.turns = a.turns.length) (hb : p.serializer.serialize a.state = .ok t.bytes)
    (hsend : t.send = true → p.replicated = true)
    (hwt : p.strategy = .writeThrough → t.save = true)
    (hslots : a'.slots p.replicated = Function.update (a.slots p.replicated) i (some t)) :
    Effect gid a m e a' m
  | save {a'} (hl : a.phase.loading = false) (hl' : a'.phase.loading = false)
    (hist : a.SameHistory a') (hacc : e.refused = false) {t}
    (hheld : a.slots p.replicated e.slot = some t) (hs : t.save = true)
    (hsaved : a'.saved = a.saved ++ [t.turns]) (hfresh : a'.Fresh ↔ a.Fresh) {t'}
    (ht' : t' = none ∧ t.send = false ∨ t' = some { t with save := false })
    (hslots : a'.slots p.replicated = Function.update (a.slots p.replicated) e.slot t') :
    Effect gid a m e a' (m.save gid t.bytes)
  | refuse {a'} (hl : a.phase.loading = false) (hl' : a'.phase.loading = false)
    (hist : a.SameHistory a') (hsaved : a'.saved = a.saved) (href : e.refused = true)
    (hfresh : a'.Fresh ↔ a.Fresh) {t} (hheld : a.slots p.replicated e.slot = some t) {t'}
    (ht' : t' = none ∨ t' = some t ∨ t' = some { t with save := false })
    (hslots : a'.slots p.replicated = Function.update (a.slots p.replicated) e.slot t') :
    Effect gid a m e a' m
  | send {a' : Activation S} (hl : a.phase.loading = false) (hl' : a'.phase.loading = false)
    (hist : a.SameHistory a') (hsaved : a'.saved = a.saved) (hfresh : a'.Fresh ↔ a.Fresh)
    (hacc : e.refused = false) {t : Snapshot}
    (hheld : a.slots p.replicated e.slot = some t) (hs : t.save = false)
    (hsend : t.send = true) (d : Bool)
    (hslots : a'.slots p.replicated = Function.update (a.slots p.replicated) e.slot none) :
    Effect gid a m e a' (m.publish gid t.bytes d)
  /-- The state the last turn left goes to the sink at once. -/
  | replicate {a'} (hl : a.phase.loading = false) (hl' : a'.phase.loading = false)
    (hist : a.SameHistory a') (hsaved : a'.saved = a.saved) (hfresh : a.Fresh)
    (hfresh' : ¬a'.Fresh) (hw : p.strategy ≠ .writeThrough) (hr : p.replicated = true) {bytes}
    (hb : p.serializer.serialize a.state = .ok bytes) (d : Bool)
    (hslots : ∀ i, a.slots p.replicated i = none) (hslots' : ∀ i, a'.slots p.replicated i = none) :
    Effect gid a m e a' (m.publish gid bytes d)
  | tag {a' V} (hl : a.phase.loading = false) (hl' : a'.phase.loading = false)
    (hist : a.SameHistory a') (hsaved : a'.saved = a.saved) (he : p.entry = .runVersioned V)
    (hfresh : a'.Fresh ↔ a.Fresh) (hslots : a'.slots p.replicated = a.slots p.replicated) :
    Effect gid a m e a' (m.save (versionGrainId gid) (V.encodeVersion V.stateVersion))
  | quiet {a' : Activation S} (hl : a'.phase.loading = a.phase.loading)
    (hist : a.SameHistory a') (hsaved : a'.saved = a.saved) (hfresh : a'.Fresh → a.Fresh)
    (hkept : a.Fresh → a'.Fresh ∨ p.strategy ≠ .writeThrough ∨
      ∃ err, p.serializer.serialize a.state = .error err)
    (hslots : a'.slots p.replicated = a.slots p.replicated) : Effect gid a m e a' m

end PersistentArgs

/-! ## Slots and freshness along a step -/

namespace Activation

variable {reentrant r : Bool} {a a' : Activation S} {k : ℕ} {h h' : Handler S} {h : Handler S}

theorem snapshot_settle (a : Activation S) (fsm) (n) :
    (a.settle fsm).phase.snapshot r n = none :=
  phase_settle (P := fun ph => ph.snapshot r n = none) rfl rfl rfl a fsm

theorem unserialized_settle (a : Activation S) (fsm) :
    (a.settle fsm).phase.unserialized = false :=
  phase_settle (P := fun ph => ph.unserialized = false) rfl rfl rfl a fsm

theorem slots_phase (hh : a'.handlers = a.handlers) {t}
    (ht : a'.phase.snapshot r a'.turns.length = t) : a'.slots r = update (a.slots r) none t := by
  funext i
  cases i with
  | none => simpa [slots] using ht
  | some k => simp [slots, hh]

theorem slots_phase_same (hh : a'.handlers = a.handlers)
    (ht : a'.phase.snapshot r a'.turns.length = a.phase.snapshot r a.turns.length) :
    a'.slots r = a.slots r := by
  rw [slots_phase hh ht]
  exact update_eq_self none (a.slots r)

theorem slots_handler (hk : a.handlers[k]? = some h) (hh : a'.handlers = a.handlers.set k h')
    (hl : a.phase.inLoop = true) (hp : a'.phase = a.phase) :
    a'.slots r = update (a.slots r) (some k) (h'.snapshot r) := by
  have hlt := lt_of_getElem? hk
  funext i
  cases i with
  | none =>
    have hnone : ∀ n, a.phase.snapshot r n = none := fun n => snapshot_of_inLoop hl
    simp [slots, hp, hnone]
  | some j =>
    by_cases hj : j = k
    · subst hj
      simp [slots, hh, hlt]
    · simp [slots, hh, hj, Ne.symm hj]

theorem slots_some (hk : a.handlers[k]? = some h) : a.slots r (some k) = h.snapshot r := by
  simp [slots, hk]

theorem slots_handler_same (hk : a.handlers[k]? = some h) (hh : a'.handlers = a.handlers.set k h')
    (hl : a.phase.inLoop = true) (hp : a'.phase = a.phase) (hs : h'.snapshot r = h.snapshot r) :
    a'.slots r = a.slots r := by
  rw [slots_handler hk hh hl hp, hs, ← slots_some hk]
  exact update_eq_self (some k) (a.slots r)

theorem not_fresh (hj : a.AllJoined) (hu : a.phase.unserialized = false) : ¬a.Fresh := by
  rintro (h | h | ⟨k, hk⟩)
  · rw [h] at hu
    cases hu
  · rw [h] at hu
    cases hu
  · cases hj k _ hk

theorem slots_none (hj : a.AllJoined) (hp : a.phase.snapshot r a.turns.length = none)
    (i) : a.slots r i = none := by
  cases i with
  | none => exact hp
  | some k =>
    cases hk : a.handlers[k]? with
    | none => simp [slots, hk]
    | some h =>
      rw [slots_some hk, hj k h hk]
      rfl

theorem fresh_iff_handled (hl : a.phase.inLoop = true) : a.Fresh ↔ .handled ∈ a.handlers := by
  rw [Fresh, mem_iff_getElem?, or_iff_right, or_iff_right]
  all_goals
    intro h
    rw [h] at hl
    cases hl

theorem fresh_setHandler (hk : a.handlers[k]? = some h) (hh : a'.handlers = a.handlers.set k h')
    (hl : a.phase.inLoop = true) (hp : a'.phase = a.phase) (hn : h ≠ .handled)
    (hn' : h' ≠ .handled) : a'.Fresh ↔ a.Fresh := by
  rw [fresh_iff_handled hl, fresh_iff_handled (hp ▸ hl), hh, mem_iff_getElem?, mem_iff_getElem?]
  refine exists_congr fun j => ?_
  rw [getElem?_set_of_some hk]
  split_ifs with hj
  · simp [hj, hk, hn, hn']
  · rfl

theorem WF.not_fresh_of_holder (hw : a.WF reentrant) (hk : a.handlers[k]? = some h)
    (hl : h.holdsLock = true) (hn : h ≠ .handled) : ¬a.Fresh := by
  have hj : h ≠ .joined := by
    rintro rfl
    cases hl
  rw [fresh_iff_handled (hw.inLoop hk hj), mem_iff_getElem?]
  rintro ⟨j, hj'⟩
  obtain rfl := hw.exclusive j k _ _ hj' hk rfl hl
  rw [hk] at hj'
  exact hn (Option.some.inj hj')

end Activation

/-! ## The effect of a step -/

/-- The task itself holds neither a snapshot nor a state to serialize. -/
structure Phase.Bare (r : Bool) (ph : Phase S) : Prop where
  snapshot : ∀ n, ph.snapshot r n = none
  unserialized : ph.unserialized = false

namespace PersistentArgs

open Activation

variable {p : PersistentArgs S} {gid : GrainId} {a a' : Activation S} {m m' : Shared}
  {e : MailboxEvent S} {ph ph' : Phase S} {fsm : ActivationState} {faulted : Bool}
  {lastSave k n : ℕ} {bytes : Bytes} {bytes : Bytes}

theorem bare_settle (a : Activation S) (fsm) : (a.settle fsm).phase.Bare p.replicated :=
  ⟨snapshot_settle a fsm, unserialized_settle a fsm⟩

theorem Effect.ofDrop (hj : a.AllJoined) (hp : a.phase = ph) (hl : ph.loading = ph'.loading)
    (hn : ∀ n, ph.snapshot p.replicated n = none) (hb' : ph'.Bare p.replicated)
    (hkept : a.Fresh → p.strategy ≠ .writeThrough ∨
      ∃ err, p.serializer.serialize a.state = .error err) :
    p.Effect gid a m e { a with phase := ph', fsm, faulted, lastSave } m := by
  subst hp
  exact .quiet hl.symm ⟨rfl, rfl, rfl, rfl⟩ rfl (fun h => absurd h (not_fresh hj hb'.unserialized))
    (fun h => .inr (hkept h)) (slots_phase_same rfl ((hb'.snapshot _).trans (hn _).symm))

/-- The task itself moves between phases that hold neither a snapshot nor a state to
serialize. -/
theorem Effect.ofMove (hj : a.AllJoined) (hp : a.phase = ph) (hl : ph.loading = ph'.loading)
    (hb : ph.Bare p.replicated) (hb' : ph'.Bare p.replicated) :
    p.Effect gid a m e { a with phase := ph', fsm, faulted, lastSave } m :=
  .ofDrop hj hp hl hb.snapshot hb' fun hf => absurd hf (not_fresh hj (hp ▸ hb.unserialized))

theorem Effect.ofLoad (hw : a.WF p.grain.reentrant) (hl : a.phase.loading = true) {s loadFailed} :
    p.Effect gid a m e { a with phase := .activate, state := s, loaded := s, loadFailed } m := by
  obtain ⟨h1, h2, h3⟩ := hw.fresh hl
  have hj : ({ a with phase := .activate, state := s, loaded := s, loadFailed } :
      Activation S).AllJoined := hw.joined (inLoop_of_loading hl)
  exact .load hl rfl rfl ⟨h1, h2, h3, h3⟩ (slots_none hj rfl) (not_fresh hj rfl)

theorem Effect.ofTurn {t s replied} (hj : a.AllJoined)
    (hp : a.phase = ph) (hl : ph.loading = false) (hb : ph.Bare p.replicated)
    (hl' : ph'.loading = false) (hn' : ∀ n, ph'.snapshot p.replicated n = none)
    (hs : s = t.apply p.grain a.state)
    (hreplied : replied = a.replied ∨ replied = a.replied ++ [a.turns.length] ∧
      ph'.unserialized = true) :
    p.Effect gid a m e { a.record t s with phase := ph', fsm, faulted, lastSave, replied } m := by
  subst hp
  refine .turn t hl hl' (not_fresh hj hb.unserialized) rfl hs rfl rfl (hreplied.imp_right ?_)
    (slots_phase_same rfl ((hn' _).trans (hb.snapshot _).symm))
  refine And.imp_right fun hu => ?_
  cases ph' with
  | persist => exact .inl rfl
  | serialize => exact .inr (.inl rfl)
  | _ => cases hu

theorem Effect.ofTake (hj : a.AllJoined) (hp : a.phase = ph) (hl : ph.loading = false)
    (hn : ∀ n, ph.snapshot p.replicated n = none) (hfresh : a.Fresh)
    (hb : p.serializer.serialize a.state = .ok bytes)
    (hn' : ∀ n, ph'.snapshot p.replicated n = some ⟨n, bytes, true, p.replicated⟩) :
    p.Effect gid a m e { a with phase := ph', lastSave } m := by
  subst hp
  obtain ⟨hl', hu'⟩ := of_snapshot (hn' a.turns.length)
  exact .take (t := ⟨a.turns.length, bytes, true, p.replicated⟩) hl hl' ⟨rfl, rfl, rfl, rfl⟩ rfl
    hfresh (not_fresh hj hu') (slots_none hj (hn _) none) rfl hb (fun h => h) (fun _ => rfl)
    (slots_phase (by rfl) (hn' _))

section Snapshot

variable {t' : Option Snapshot} (hj : a.AllJoined) (he : e.slot = none)
  (hl' : ph'.loading = false) (hu' : ph'.unserialized = false)
  (hn' : ph'.snapshot p.replicated a.turns.length = t')

include hj he hl' hu' hn'

theorem Effect.ofSave (hacc : e.refused = false)
    (hn : a.phase.snapshot p.replicated a.turns.length =
      some ⟨a.turns.length, bytes, true, p.replicated⟩)
    (ht' : t' = none ∧ p.replicated = false ∨
      t' = some ⟨a.turns.length, bytes, false, p.replicated⟩) :
    p.Effect gid a m e { a with saved := a.saved ++ [a.turns.length], phase := ph', fsm, faulted }
      (m.save gid bytes) := by
  obtain ⟨hl, hu⟩ := of_snapshot hn
  refine .save (t := ⟨a.turns.length, bytes, true, p.replicated⟩) hl ?_ ?_ hacc
    (by rw [he]; exact hn) rfl rfl ?_ ht' ?_
  · exact hl'
  · exact ⟨rfl, rfl, rfl, rfl⟩
  · exact iff_of_false (not_fresh hj hu') (not_fresh hj hu)
  · rw [he]
    exact slots_phase (by rfl) hn'

theorem Effect.ofRefuse {t} (href : e.refused = true)
    (hn : a.phase.snapshot p.replicated a.turns.length = some t) (ht' : t' = none ∨ t' = some t) :
    p.Effect gid a m e { a with phase := ph', fsm, faulted } m := by
  obtain ⟨hl, hu⟩ := of_snapshot hn
  exact .refuse hl hl' ⟨rfl, rfl, rfl, rfl⟩ rfl href
    (iff_of_false (not_fresh hj hu') (not_fresh hj hu)) (by rw [he]; exact hn)
    (ht'.imp_right Or.inl) (by rw [he]; exact slots_phase (by rfl) hn')

theorem Effect.ofSend {d} (hacc : e.refused = false)
    (hn : a.phase.snapshot p.replicated a.turns.length =
      some ⟨a.turns.length, bytes, false, true⟩) (ht' : t' = none) :
    p.Effect gid a m e { a with phase := ph', fsm, faulted } (m.publish gid bytes d) := by
  obtain ⟨hl, hu⟩ := of_snapshot hn
  refine .send (t := ⟨a.turns.length, bytes, false, true⟩) hl ?_ ?_ ?_ ?_ hacc
    (by rw [he]; exact hn) rfl rfl d ?_
  · exact hl'
  · exact ⟨rfl, rfl, rfl, rfl⟩
  · rfl
  · exact iff_of_false (not_fresh hj hu') (not_fresh hj hu)
  · rw [he, ← ht']
    exact slots_phase (by rfl) hn'

end Snapshot

/-! ### Handler tasks -/

/-- A message starts a handler task, which waits for the lock : it has neither a state to
serialize nor a snapshot. -/
theorem Effect.ofSpawn {env} (hp : a.phase = .loop) :
    p.Effect gid a m e { a with handlers := a.handlers ++ [.waiting env] } m := by
  have hl : a.phase.inLoop = true := by rw [hp]; rfl
  have hfr : ({ a with handlers := a.handlers ++ [.waiting env] } : Activation S).Fresh ↔
      a.Fresh := by
    rw [fresh_iff_handled hl, fresh_iff_handled (by exact hl)]
    simp
  refine .quiet rfl ⟨rfl, rfl, rfl, rfl⟩ rfl hfr.mp (fun hf => .inl (hfr.mpr hf)) ?_
  funext i
  cases i with
  | none => rfl
  | some k =>
    simp only [slots, getElem?_append]
    split_ifs with hk
    · rfl
    · rw [getElem?_eq_none (Nat.le_of_not_lt hk)]
      cases hget : [Handler.waiting env][k - a.handlers.length]? with
      | none => rfl
      | some h =>
        obtain rfl := mem_singleton.mp (mem_of_getElem? hget)
        rfl

theorem Effect.ofDrain (hp : a.phase = .loop) :
    p.Effect gid a m e { a with phase := .drain } m := by
  have hfr : ({ a with phase := .drain } : Activation S).Fresh ↔ a.Fresh :=
    (fresh_iff_handled rfl).trans (fresh_iff_handled (by rw [hp]; rfl)).symm
  exact .quiet (hp ▸ rfl) ⟨rfl, rfl, rfl, rfl⟩ rfl hfr.mp
    (fun hf => .inl (hfr.mpr hf)) (slots_phase_same rfl (hp ▸ rfl))

theorem afterRelease_cases (a) :
    (p.afterRelease a = .finished ∧ (p.strategy ≠ .writeThrough ∨
      ∃ err, p.serializer.serialize a.state = .error err)) ∨
    ∃ bytes, p.serializer.serialize a.state = .ok bytes ∧
      (p.afterRelease a = .saving bytes a.turns.length ∨
        p.afterRelease a = .sending bytes a.turns.length ∧ p.strategy ≠ .writeThrough ∧
          p.replicated = true) := by
  unfold afterRelease
  by_cases hc : p.strategy = .writeThrough ∨ p.replicated = true
  · rw [if_pos hc]
    cases hs : p.serializer.serialize a.state with
    | error err => exact .inl ⟨rfl, .inr ⟨err, rfl⟩⟩
    | ok bytes =>
      refine .inr ⟨bytes, rfl, ?_⟩
      by_cases hwt : p.strategy = .writeThrough
      · exact .inl (by simp [hwt])
      · exact .inr ⟨by simp [hwt], hwt, hc.resolve_left hwt⟩
  · rw [if_neg hc]
    exact .inl ⟨rfl, .inl fun h => hc (.inl h)⟩

theorem afterSave_cases {h' : Handler S}
    (hh : h' = if p.replicated then .sending bytes n else .finished) :
    h' ≠ .handled ∧ (h'.snapshot p.replicated = none ∧ p.replicated = false ∨
      h'.snapshot p.replicated = some ⟨n, bytes, false, p.replicated⟩) := by
  subst hh
  cases hr : p.replicated
  · exact ⟨nofun, .inl ⟨rfl, rfl⟩⟩
  · exact ⟨nofun, .inr rfl⟩

section Handler

variable {h h' : Handler S} (hw : a.WF p.grain.reentrant)

include hw

theorem Effect.ofHandler (hk : a.handlers[k]? = some h) (hj : h ≠ .joined) (hn : h ≠ .handled)
    (hn' : h' ≠ .handled) (hs : h'.snapshot p.replicated = h.snapshot p.replicated) :
    p.Effect gid a m e (a.setHandler k h') m := by
  have hl := hw.inLoop hk hj
  have hfr : (a.setHandler k h').Fresh ↔ a.Fresh := fresh_setHandler hk rfl hl rfl hn hn'
  exact .quiet rfl ⟨rfl, rfl, rfl, rfl⟩ rfl hfr.mp (fun hf => .inl (hfr.mpr hf))
    (slots_handler_same hk rfl hl rfl hs)

theorem Effect.ofRun {env t s replied} (hk : a.handlers[k]? = some (.locked env))
    (hn : h'.snapshot p.replicated = none) (hs : s = t.apply p.grain a.state)
    (hreplied : replied = a.replied ∨ replied = a.replied ++ [a.turns.length] ∧ h' = .handled) :
    p.Effect gid a m e { (a.record t s).setHandler k h' with replied } m := by
  have hl := hw.inLoop hk nofun
  have hload := loading_of_inLoop hl
  refine .turn t hload hload (hw.not_fresh_of_holder hk rfl nofun) rfl hs rfl rfl
    (hreplied.imp_right ?_) (slots_handler_same hk rfl hl rfl hn)
  rintro ⟨hr, rfl⟩
  exact ⟨hr, .inr (.inr ⟨k, getElem?_set_of_lookup hk⟩)⟩

theorem Effect.ofRelease (hk : a.handlers[k]? = some .handled) :
    p.Effect gid a m e (a.setHandler k (p.afterRelease a)) m := by
  have hl := hw.inLoop hk nofun
  have hload := loading_of_inLoop hl
  have hfr : a.Fresh := .inr (.inr ⟨k, hk⟩)
  -- the lock was held by `k` alone, so no other state is waiting to be serialized
  have hfresh' : ¬(a.setHandler k (p.afterRelease a)).Fresh := by
    intro hf
    rw [fresh_iff_handled (by exact hl), mem_iff_getElem?] at hf
    obtain ⟨j, hj⟩ := hf
    rcases getElem?_set_cases hk hj with ⟨rfl, heq⟩ | ⟨hne, hj⟩
    · have hlock := p.holdsLock_afterRelease a
      rw [← heq] at hlock
      cases hlock
    · exact hne (hw.exclusive j k _ _ hj hk rfl rfl)
  have hsl : (a.setHandler k (p.afterRelease a)).slots p.replicated =
      update (a.slots p.replicated) (some k) ((p.afterRelease a).snapshot p.replicated) :=
    slots_handler hk rfl hl rfl
  rcases p.afterRelease_cases a with ⟨heq, hlost⟩ | ⟨bytes, hb, heq | ⟨heq, hwt, hr⟩⟩
  · refine .quiet rfl ⟨rfl, rfl, rfl, rfl⟩ rfl (fun h => absurd h hfresh') (fun _ => .inr hlost) ?_
    exact slots_handler_same hk rfl hl rfl (heq ▸ rfl)
  · exact .take (t := ⟨a.turns.length, bytes, true, p.replicated⟩) hload hload
      ⟨rfl, rfl, rfl, rfl⟩ rfl hfr hfresh' (slots_some hk) rfl hb (fun h => h) (fun _ => rfl)
      (hsl.trans (heq ▸ rfl))
  · exact .take (t := ⟨a.turns.length, bytes, false, true⟩) hload hload
      ⟨rfl, rfl, rfl, rfl⟩ rfl hfr hfresh' (slots_some hk) rfl hb (fun _ => hr)
      (fun h => absurd h hwt) (hsl.trans (heq ▸ rfl))

section

variable (hk : a.handlers[k]? = some (.saving bytes n))
  (hh : h' = if p.replicated then .sending bytes n else .finished)
include hk hh

theorem Effect.ofHandlerSave :
    p.Effect gid a m (.handler k (.save none))
      { a.setHandler k h' with saved := a.saved ++ [n] } (m.save gid bytes) := by
  have hl := hw.inLoop hk nofun
  have hload := loading_of_inLoop hl
  obtain ⟨hne, hleft⟩ := afterSave_cases hh
  refine .save (t := ⟨n, bytes, true, p.replicated⟩) hload ?_ ?_ rfl (slots_some hk) rfl ?_ ?_
    hleft ?_
  · exact hload
  · exact ⟨rfl, rfl, rfl, rfl⟩
  · rfl
  · exact fresh_setHandler hk rfl hl rfl nofun hne
  · exact slots_handler hk rfl hl rfl

theorem Effect.ofHandlerRefuse {err : PersistenceError} :
    p.Effect gid a m (.handler k (.save (some err))) (a.setHandler k h') m := by
  have hl := hw.inLoop hk nofun
  have hload := loading_of_inLoop hl
  obtain ⟨hne, hleft⟩ := afterSave_cases hh
  exact .refuse (t := ⟨n, bytes, true, p.replicated⟩) hload hload ⟨rfl, rfl, rfl, rfl⟩ rfl rfl
    (fresh_setHandler hk rfl hl rfl nofun hne) (slots_some hk) (hleft.imp And.left Or.inr)
    (slots_handler hk rfl hl rfl)

end

theorem Effect.ofHandlerSend {d} (hk : a.handlers[k]? = some (.sending bytes n)) :
    p.Effect gid a m (.handler k (.send d)) (a.setHandler k .finished) (m.publish gid bytes d) := by
  have hl := hw.inLoop hk nofun
  have hload := loading_of_inLoop hl
  refine .send (t := ⟨n, bytes, false, true⟩) hload ?_ ?_ ?_ ?_ rfl (slots_some hk) rfl rfl d ?_
  · exact hload
  · exact ⟨rfl, rfl, rfl, rfl⟩
  · rfl
  · exact fresh_setHandler hk rfl hl rfl nofun nofun
  · have hslots : (a.setHandler k .finished).slots p.replicated = _ := slots_handler hk rfl hl rfl
    exact hslots

end Handler

theorem Step.effect (hs : p.Step gid a m e a' m') (hw : a.WF p.grain.reentrant) :
    p.Effect gid a m e a' m' := by
  cases hs with
  | loadRetry hp | loadTag hp | tagRefused hp | remove hp =>
    exact .ofMove (hw.joined_of_phase hp rfl) hp rfl ⟨fun _ => rfl, rfl⟩ ⟨fun _ => rfl, rfl⟩
  | recv hp hr =>
    exact .ofMove (hw.joined_of_sequential hr) hp rfl ⟨fun _ => rfl, rfl⟩ ⟨fun _ => rfl, rfl⟩
  | drained hp hz =>
    exact .ofMove (joined_of_inFlight hz) hp rfl ⟨fun _ => rfl, rfl⟩ ⟨fun _ => rfl, rfl⟩
  | closed hp hr | idleTimeout hp hr =>
    exact .ofMove (hw.joined_of_sequential hr) hp (loading_settle a _).symm ⟨fun _ => rfl, rfl⟩
      (bare_settle a _)
  | loadRun hp | loadVersioned hp => exact .ofLoad hw (hp ▸ rfl)
  | loadFailed hp => exact .ofLoad hw hp
  | activateOk hp hs | activatePanic hp hs =>
    refine .ofTurn (hw.joined_of_phase hp rfl) hp rfl ⟨fun _ => rfl, rfl⟩ rfl (fun _ => rfl) ?_
      (.inl rfl)
    rw [apply, hs]
    rfl
  | @handleOk env s hp hs =>
    refine .ofTurn (hw.joined_of_phase hp rfl) hp rfl ⟨fun _ => rfl, rfl⟩ rfl (fun _ => rfl) ?_ ?_
    · rw [apply, hs]
      rfl
    · cases hawait : env.awaited
      · exact .inl (if_neg (by simp [hawait]))
      · exact .inr ⟨if_pos hawait, rfl⟩
  | handlePanic hp hs =>
    refine .ofTurn (hw.joined_of_phase hp rfl) hp rfl ⟨fun _ => rfl, rfl⟩ (loading_settle a _)
      (snapshot_settle a _) ?_ (.inl rfl)
    rw [apply, hs]
    rfl
  | deactivate hp =>
    exact .ofTurn (hw.joined_of_phase hp rfl) hp rfl ⟨fun _ => rfl, rfl⟩ rfl (fun _ => rfl) rfl
      (.inl rfl)
  | skip hp hwt =>
    exact .ofDrop (hw.joined_of_phase hp rfl) hp (loading_settle a _).symm (fun _ => rfl)
      (bare_settle a _) fun _ => .inl hwt
  | serializeFailed hp hb =>
    exact .ofDrop (hw.joined_of_phase hp rfl) hp (loading_settle a _).symm (fun _ => rfl)
      (bare_settle a _) fun _ => .inr ⟨_, hb⟩
  | serializeRefused hp hb =>
    exact .ofDrop (hw.joined_of_phase hp rfl) hp rfl (fun _ => rfl) ⟨fun _ => rfl, rfl⟩
      fun _ => .inr ⟨_, hb⟩
  | replicate hp hwt hr hb =>
    have hj := hw.joined_of_phase hp rfl
    refine .replicate ?_ ?_ ?_ ?_ (.inl hp) ?_ hwt hr hb _ (slots_none hj (hp ▸ rfl)) ?_
    · rw [hp]
      rfl
    · exact loading_settle _ _
    · exact ⟨rfl, rfl, rfl, rfl⟩
    · rfl
    · exact not_fresh hj (unserialized_settle _ _)
    · exact slots_none hj (snapshot_settle _ _ _)
  | write hp hb =>
    exact .ofTake (hw.joined_of_phase hp rfl) hp rfl (fun _ => rfl) (.inl hp) hb fun _ => rfl
  | serialize hp hb =>
    exact .ofTake (hw.joined_of_phase hp rfl) hp rfl (fun _ => rfl) (.inr (.inl hp)) hb fun _ => rfl
  | flush hp hr =>
    exact .ofSave (hw.joined_of_phase hp rfl) rfl (loading_settle a _) (unserialized_settle a _)
      (snapshot_settle a _ _) rfl (hp ▸ rfl) (.inl ⟨rfl, hr⟩)
  | flushReplicated hp hr =>
    exact .ofSave (hw.joined_of_phase hp rfl) rfl rfl rfl rfl rfl (hp ▸ rfl) (.inr (hr ▸ rfl))
  | save hp he | saveVersioned hp he =>
    exact .ofSave (hw.joined_of_phase hp rfl) rfl rfl rfl rfl rfl (hp ▸ rfl)
      (.inl ⟨rfl, by rw [replicated, he]⟩)
  | saveReplicated hp he =>
    have hr : p.replicated = true := by rw [replicated, he]
    exact .ofSave (hw.joined_of_phase hp rfl) rfl rfl rfl rfl rfl (hp ▸ rfl) (.inr (hr ▸ rfl))
  | flushRefused hp =>
    exact .ofRefuse (hw.joined_of_phase hp rfl) rfl (loading_settle a _) (unserialized_settle a _)
      (snapshot_settle a _ _) rfl (by rw [hp]; rfl) (.inl rfl)
  | saveRetry hp =>
    exact .ofRefuse (hw.joined_of_phase hp rfl) rfl rfl rfl rfl rfl (hp ▸ rfl) (.inr rfl)
  | saveGivenUp hp =>
    exact .ofRefuse (hw.joined_of_phase hp rfl) rfl rfl rfl rfl rfl (by rw [hp]; rfl) (.inl rfl)
  | publish hp =>
    exact .ofSend (hw.joined_of_phase hp rfl) rfl (loading_settle a _) (unserialized_settle a _)
      (snapshot_settle a _ _) rfl (hp ▸ rfl) rfl
  | finalPublish hp => exact .ofSend (hw.joined_of_phase hp rfl) rfl rfl rfl rfl rfl (hp ▸ rfl) rfl
  | tag hp he =>
    have hj := hw.joined_of_phase hp rfl
    exact .tag (hp ▸ rfl) rfl ⟨rfl, rfl, rfl, rfl⟩ rfl he
      (iff_of_false (not_fresh hj rfl) (not_fresh hj (hp ▸ rfl)))
      (slots_phase_same rfl (hp ▸ rfl))
  | spawn hp _ => exact .ofSpawn hp
  | drain hp _ _ => exact .ofDrain hp
  | acquire hk _ | join hk => exact .ofHandler hw hk nofun nofun nofun rfl
  | @runOk k env s hk hs =>
    refine .ofRun hw hk rfl ?_ ?_
    · rw [apply, hs]
      rfl
    · cases hawait : env.awaited
      · exact .inl (if_neg (by simp [hawait]))
      · exact .inr ⟨if_pos hawait, rfl⟩
  | runPanic hk hs =>
    refine .ofRun hw hk rfl ?_ (.inl rfl)
    rw [apply, hs]
    rfl
  | release hk => exact .ofRelease hw hk
  | handlerSave hk => exact .ofHandlerSave hw hk rfl
  | handlerSaveRefused hk => exact .ofHandlerRefuse hw hk rfl
  | handlerSend hk => exact .ofHandlerSend hw hk

theorem Effect.of_loading (h : p.Effect gid a m e a' m') (hl : a'.phase.loading = true) :
    a.phase.loading = true ∧ m' = m := by
  cases h with
  | quiet hl' => exact ⟨hl' ▸ hl, rfl⟩
  | load _ hl' | turn _ _ hl' | take _ hl' | save _ hl' | refuse _ hl' | send _ hl' =>
    rw [hl'] at hl
    cases hl
  | replicate _ hl' | tag _ hl' =>
    rw [hl'] at hl
    cases hl

theorem slots_of_update {r i j t' t} (hslots : a'.slots r = update (a.slots r) i t')
    (ht : a'.slots r j = some t) : t' = some t ∨ a.slots r j = some t := by
  rw [hslots, update_apply] at ht
  split at ht
  · exact .inl ht
  · exact .inr ht

section

variable (h : p.Effect gid a m e a' m') {i : Option ℕ} {t : Snapshot}
include h

/-- A snapshot held after a step was held before it, or is of the state the last turn
left. -/
theorem Effect.slot_cases (ht : a'.slots p.replicated i = some t) :
    (∃ j u, a.slots p.replicated j = some u ∧ t.turns = u.turns ∧ t.bytes = u.bytes) ∨
      (a.Fresh ∧ a.phase.loading = false ∧ t.turns = a.turns.length ∧
        p.serializer.serialize a.state = .ok t.bytes) := by
  cases h with
  | load _ _ _ _ hsl | replicate _ _ _ _ _ _ _ _ _ _ _ hsl => cases (hsl i).symm.trans ht
  | turn _ _ _ _ _ _ _ _ _ hsl | tag _ _ _ _ _ _ hsl | quiet _ _ _ _ _ hsl =>
    exact .inl ⟨i, t, hsl ▸ ht, rfl, rfl⟩
  | take hl _ _ _ hfresh _ _ hn hb _ _ hsl =>
    rcases slots_of_update hsl ht with h | h
    · cases h
      exact .inr ⟨hfresh, hl, hn, hb⟩
    · exact .inl ⟨i, t, h, rfl, rfl⟩
  | @save _ _ _ _ u hu _ _ _ _ ht' hsl =>
    rcases slots_of_update hsl ht with h | h
    · rcases ht' with ⟨hn, -⟩ | hn
      · cases hn.symm.trans h
      · cases hn.symm.trans h
        exact .inl ⟨_, u, hu, rfl, rfl⟩
    · exact .inl ⟨i, t, h, rfl, rfl⟩
  | @refuse _ _ _ _ _ _ u hu _ ht' hsl =>
    rcases slots_of_update hsl ht with h | h
    · rcases ht' with hn | hn | hn
      · cases hn.symm.trans h
      all_goals
        obtain rfl := Option.some.inj (hn.symm.trans h)
        exact .inl ⟨_, u, hu, rfl, rfl⟩
    · exact .inl ⟨i, t, h, rfl, rfl⟩
  | send _ _ _ _ _ _ _ _ _ _ hsl =>
    rcases slots_of_update hsl ht with h | h
    · cases h
    · exact .inl ⟨i, t, h, rfl, rfl⟩

/-- A step keeps the history, unless it ends the load, which leaves no snapshot behind. -/
theorem Effect.extends :
    (a.phase.loading = true ∧ ∀ i, a'.slots p.replicated i = none) ∨
      a'.loaded = a.loaded ∧ ∃ ts, a'.turns = a.turns ++ ts := by
  cases h with
  | load hl _ _ _ hslots => exact .inl ⟨hl, hslots⟩
  | turn t _ _ _ hloaded _ hturns => exact .inr ⟨hloaded, [t], hturns⟩
  | take _ _ hist | save _ _ hist | refuse _ _ hist | send _ _ hist | replicate _ _ hist
  | tag _ _ hist | quiet _ hist => exact .inr ⟨hist.loaded, [], by rw [hist.turns, append_nil]⟩

theorem Effect.extends_of_slot (ht : a'.slots p.replicated i = some t) :
    a'.loaded = a.loaded ∧ ∃ ts, a'.turns = a.turns ++ ts :=
  h.extends.resolve_left fun hload => by cases (hload.2 i).symm.trans ht

/-! ## Snapshots are of states the activation has had -/

end

variable (p) in
def SnapshotOf (a : Activation S) (n : ℕ) (bytes : Bytes) : Prop :=
  n ≤ a.turns.length ∧
    p.serializer.serialize (replay p.grain a.loaded (a.turns.take n)) = .ok bytes

theorem SnapshotOf.mono {n} (h : p.SnapshotOf a n bytes) (hl : a'.loaded = a.loaded)
    {ts} (ht : a'.turns = a.turns ++ ts) : p.SnapshotOf a' n bytes := by
  obtain ⟨hn, hb⟩ := h
  refine ⟨?_, ?_⟩
  · rw [ht, length_append]
    omega
  · rw [hl, ht, take_append_of_le_length hn]
    exact hb

theorem SnapshotOf.same {n} (h : p.SnapshotOf a n bytes) (hist : a.SameHistory a') :
    p.SnapshotOf a' n bytes := by
  have hturns : a'.turns = a.turns ++ [] := by rw [hist.turns, append_nil]
  exact h.mono hist.loaded hturns

variable (p) in
structure Sound (a : Activation S) : Prop where
  wf : a.WF p.grain.reentrant
  state : a.phase.loading = false → a.state = replay p.grain a.loaded a.turns
  held : ∀ i t, a.slots p.replicated i = some t → p.SnapshotOf a t.turns t.bytes

theorem start_sound : p.Sound p.start := by
  refine ⟨start_wf, ?_, ?_⟩
  · intro hl
    unfold start at hl
    cases he : p.entry <;> simp [he, Activation.start, loading] at hl
  · intro i t ht
    unfold start at ht
    cases he : p.entry <;> cases i <;>
      simp [he, Activation.start, slots, snapshot] at ht

theorem Sound.snapshotOf_state (h : p.Sound a) (hl : a.phase.loading = false)
    (hb : p.serializer.serialize a.state = .ok bytes) : p.SnapshotOf a a.turns.length bytes := by
  refine ⟨Nat.le_refl _, ?_⟩
  rw [take_length, ← h.state hl]
  exact hb

theorem Effect.state_eq (h : p.Effect gid a m e a' m')
    (hs : a.phase.loading = false → a.state = replay p.grain a.loaded a.turns)
    (hl' : a'.phase.loading = false) : a'.state = replay p.grain a'.loaded a'.turns := by
  cases h with
  | load _ _ hsta hnil => rw [hnil.1, hsta, replay_nil]
  | turn t hl _ _ hloaded hsta hturns => rw [hsta, hloaded, hturns, replay_snoc, hs hl]
  | take hl _ hist | save hl _ hist | refuse hl _ hist | send hl _ hist | replicate hl _ hist
  | tag hl _ hist =>
    rw [hist.state, hist.loaded, hist.turns]
    exact hs hl
  | quiet hl hist =>
    rw [hist.state, hist.loaded, hist.turns]
    exact hs (hl ▸ hl')

theorem Step.sound (hs : p.Step gid a m e a' m') (h : p.Sound a) : p.Sound a' := by
  have heff := hs.effect h.wf
  refine ⟨hs.wf h.wf, heff.state_eq h.state, ?_⟩
  intro i t ht
  obtain ⟨hloaded, ts, hturns⟩ := heff.extends_of_slot ht
  refine SnapshotOf.mono ?_ hloaded hturns
  rcases heff.slot_cases ht with ⟨j, u, hu, hn, hb⟩ | ⟨-, hl, hn, hb⟩
  · rw [hn, hb]
    exact h.held j u hu
  · rw [hn]
    exact h.snapshotOf_state hl hb

variable (p) in
def transition (gid : GrainId) (s : Activation S × Shared) (e : MailboxEvent S) :
    Option (Activation S × Shared) :=
  p.step gid s.1 s.2 e

theorem run_sound {es} (h : exec (p.transition gid) (p.start, m) es = some (a, m')) : p.Sound a :=
  exec_invariant_of_step (I := fun s => p.Sound s.1)
    (fun _ _ _ hs hstep => (step_sound hstep).sound hs) start_sound h

end PersistentArgs

end Orlando
