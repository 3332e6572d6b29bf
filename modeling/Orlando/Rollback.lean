import Orlando.References
import Orlando.SequentialTask
import Orlando.Serial

/-!
# Rollback in memory

The closure that `TransactionalGrainRef::ask` sends clones the state before the handler runs and
puts the clone back if the handler returns `Err` (`TxAsk.envelope`). `Asked` is one activation of
such a grain with its callers, which give up after `ask_timeout`.
-/

namespace Orlando

open Activation List PersistentArgs Option

variable {S R : Type}

/-! ## Transactional messages -/

/-- How a `TransactionalHandler` ends, with the state it leaves behind. An error is kept as its
text. -/
inductive TxEnd (S R : Type) where
  | ok (s : S) (result : R)
  | err (s : S) (message : String)
  | panicked (s : S)

namespace TxEnd

/-- The state the handler leaves behind, before a rollback. -/
def state : TxEnd S R → S
  | ok s _ => s
  | err s _ => s
  | panicked s => s

def isOk : TxEnd S R → Bool
  | ok _ _ => true
  | _ => false

def isPanic : TxEnd S R → Bool
  | panicked _ => true
  | _ => false

/-- What the caller gets. A handler that panics drops the sender of the reply. -/
def reply : TxEnd S R → Except GrainError R
  | ok _ result => .ok result
  | err _ message => .error (.handlerFailed message)
  | panicked _ => .error .mailboxClosed

end TxEnd

/-- The message of an `ask`, with what its handler makes of the state it gets. -/
structure TxAsk (S R : Type) where
  handle : S → TxEnd S R

namespace TxAsk

def envelope (x : TxAsk S R) : Envelope S where
  handleFn := fun s =>
    let snapshot := s
    match x.handle s with
    | .ok s' _ => .ok s'
    | .err _ _ => .ok snapshot
    | .panicked s' => .panicked s'
  awaited := true

/-- The handler alone, without the rollback. -/
def run (x : TxAsk S R) (s : S) : S :=
  (x.handle s).state

end TxAsk

structure TxCaller (S R : Type) where
  ask : TxAsk S R
  answer : Option (Except GrainError R)

def TxCaller.tell (c : TxCaller S R) (answer : Except GrainError R) : TxCaller S R :=
  match c.answer with
  | none => { c with answer := some answer }
  | some _ => c

/-- The messages whose handlers return `Ok`, when they are handled one after the other from `s` and
those that fail are rolled back. -/
def committed : S → List (TxAsk S R) → List (TxAsk S R)
  | _, [] => []
  | s, x :: xs => if (x.handle s).isOk then x :: committed (x.run s) xs else committed s xs

/-! ## An activation and its callers -/

/-- One activation with the callers whose messages its mailbox has accepted, in that order. The
first `taken` messages have been taken from the mailbox. -/
structure Asked (S R : Type) where
  act : Activation S
  shared : Shared
  callers : List (TxCaller S R)
  taken : ℕ

inductive AskEvent (S R : Type) where
  | ask (x : TxAsk S R)
  | timeout (k : ℕ)
  | recv
  | mailbox (e : MailboxEvent S)

namespace Asked

def asks (j : Asked S R) : List (TxAsk S R) :=
  j.callers.map TxCaller.ask

/-- The task goes on. When it drops its receiver, the callers of the messages left in the mailbox
are told. -/
def goOn (j : Asked S R) (r : Activation S × Shared) : Asked S R :=
  { j with
    act := r.1
    shared := r.2
    callers := j.callers.mapIdx fun i c =>
      if r.1.phase.receiving || decide (i < j.taken) then c else c.tell (.error .mailboxClosed) }

def finish (j : Asked S R) (c : TxCaller S R) : Asked S R :=
  { j with callers := j.callers.set (j.taken - 1) (c.tell (c.ask.handle j.act.state).reply) }

/-- An activation before its first step, without callers. -/
def start (p : PersistentArgs S) (m : Shared) : Asked S R where
  act := p.start
  shared := m
  callers := []
  taken := 0

def step (p : PersistentArgs S) (gid : GrainId) (askTimeout : ℕ) (j : Asked S R) :
    AskEvent S R → Option (Asked S R)
  | .ask x =>
    -- `send` to a mailbox without a receiver fails
    let answer := if j.act.phase.receiving then none else some (.error .mailboxClosed)
    some { j with callers := j.callers ++ [⟨x, answer⟩] }
  | .timeout k =>
    match j.callers[k]? with
    | some ⟨x, none⟩ =>
      some { j with callers := j.callers.set k ⟨x, some (.error (.timeout askTimeout))⟩ }
    | _ => none
  | .recv =>
    match j.callers[j.taken]? with
    | some c =>
      (p.step gid j.act j.shared (.recv c.ask.envelope)).map fun r =>
        { j with act := r.1, shared := r.2, taken := j.taken + 1 }
    | none => none
  | .mailbox (.recv _) => none
  | .mailbox .handle =>
    match j.callers[j.taken - 1]? with
    | some c => (p.step gid j.act j.shared .handle).map (j.finish c).goOn
    | none => none
  | .mailbox e => (p.step gid j.act j.shared e).map j.goOn

/-- How many messages have been handled : those taken, but for the one in hand. -/
def handled (j : Asked S R) : ℕ :=
  if j.act.phase.stage = .busy then j.taken - 1 else j.taken

/-- The state that the committed ones of the first `n` messages lead to. -/
def before (p : PersistentArgs S) (j : Asked S R) (n : ℕ) : S :=
  serialState TxAsk.run (p.begun j.act) (committed (p.begun j.act) (j.asks.take n))

def Returns (j : Asked S R) : Prop :=
  ∀ x ∈ j.asks, ∀ s, (x.handle s).isPanic = false

end Asked

/-! ## The state -/

theorem foldl_envelope {xs : List (TxAsk S R)} (h : ∀ x ∈ xs, ∀ s, (x.handle s).isPanic = false)
    (s) : xs.foldl (fun s x => (x.envelope.handleFn s).state) s =
      serialState TxAsk.run s (committed s xs) := by
  induction xs generalizing s with
  | nil => rfl
  | cons x xs ih =>
    have hx := h x mem_cons_self s
    have hxs := ih fun y hy => h y (mem_cons_of_mem _ hy)
    rw [foldl_cons, hxs]
    cases hend : x.handle s with
    | ok s' result =>
      simp [committed, hend, TxEnd.isOk, TxAsk.envelope, Outcome.state, serialState, TxAsk.run,
        TxEnd.state]
    | err => simp [committed, hend, TxEnd.isOk, TxAsk.envelope, Outcome.state]
    | panicked => simp [hend, TxEnd.isPanic] at hx

@[simp] theorem TxCaller.tell_ask (c : TxCaller S R) (answer) :
    (c.tell answer).ask = c.ask := by
  unfold tell
  split <;> rfl

variable {p : PersistentArgs S} {gid : GrainId} {askTimeout : ℕ} {m₀ : Shared} {j j' : Asked S R}
  {a' : Activation S} {m' : Shared}

namespace Asked

theorem asks_goOn (j : Asked S R) (r) : (j.goOn r).asks = j.asks := by
  refine ext_getElem? ?_
  intro i
  simp only [asks, goOn, getElem?_mapIdx, getElem?_map, Option.map_map]
  refine congrArg (fun f => j.callers[i]?.map f) (funext fun c => ?_)
  simp only [Function.comp_apply]
  split <;> simp

theorem asks_finish {c} (h : j.callers[j.taken - 1]? = some c) : (j.finish c).asks = j.asks :=
  map_set_of_eq h (TxCaller.tell_ask c _)

theorem step_mailbox {f} (hf : f.ofMessage = false) :
    step p gid askTimeout j (.mailbox f) = (p.step gid j.act j.shared f).map j.goOn := by
  cases f <;> first | rfl | cases hf

variable (p gid askTimeout) in
inductive Move (j : Asked S R) : AskEvent S R → Asked S R → Prop
  | ask (x : TxAsk S R) : Move j (.ask x) { j with callers := j.callers ++
      [⟨x, if j.act.phase.receiving then none else some (.error .mailboxClosed)⟩] }
  | timeout {k x} (hk : j.callers[k]? = some ⟨x, none⟩) :
    Move j (.timeout k)
      { j with callers := j.callers.set k ⟨x, some (.error (.timeout askTimeout))⟩ }
  | recv {c a' m'} (hc : j.callers[j.taken]? = some c)
    (hs : p.step gid j.act j.shared (.recv c.ask.envelope) = some (a', m')) :
    Move j .recv { j with act := a', shared := m', taken := j.taken + 1 }
  | handle {c a' m'} (hc : j.callers[j.taken - 1]? = some c)
    (hs : p.step gid j.act j.shared .handle = some (a', m')) :
    Move j (.mailbox .handle) ((j.finish c).goOn (a', m'))
  | mailbox {f a' m'} (hf : f.ofMessage = false)
    (hs : p.step gid j.act j.shared f = some (a', m')) : Move j (.mailbox f) (j.goOn (a', m'))

theorem move_of_step {e} (h : step p gid askTimeout j e = some j') :
    Move p gid askTimeout j e j' := by
  revert h
  fun_cases step p gid askTimeout j e <;> intro h <;> try cases h
  next x _ => exact .ask x
  next hk => exact .timeout hk
  next hc =>
    obtain ⟨⟨a', m'⟩, hs, rfl⟩ := map_eq_some_iff.mp h
    exact .recv hc hs
  next hc =>
    obtain ⟨⟨a', m'⟩, hs, rfl⟩ := map_eq_some_iff.mp h
    exact .handle hc hs
  next f hrecv hhandle =>
    obtain ⟨⟨a', m'⟩, hs, rfl⟩ := map_eq_some_iff.mp h
    refine .mailbox ?_ hs
    cases f with
    | recv env => exact absurd rfl (hrecv env)
    | handle => exact absurd rfl hhandle
    | _ => rfl

theorem asks_timeout {k} {x} {answer} (hk : j.callers[k]? = some ⟨x, none⟩) :
    ({ j with callers := j.callers.set k ⟨x, answer⟩ } : Asked S R).asks = j.asks :=
  map_set_of_eq hk rfl

theorem Move.asks_prefix {e} (h : Move p gid askTimeout j e j') : j.asks <+: j'.asks := by
  cases h with
  | ask => simp [asks]
  | timeout hk => exact ⟨[], by rw [asks_timeout hk, append_nil]⟩
  | recv => exact prefix_rfl
  | handle hc => exact ⟨[], by rw [asks_goOn, asks_finish hc, append_nil]⟩
  | mailbox => exact ⟨[], by rw [asks_goOn, append_nil]⟩

variable (p gid m₀) in
structure Kept (j : Asked S R) : Prop where
  run : ∃ fs, exec (p.transition gid) (p.start, m₀) fs = some (j.act, j.shared) ∧
    received fs = (j.asks.take j.taken).map TxAsk.envelope
  taken_le : j.taken ≤ j.asks.length

theorem start_kept (m₀) : Kept p gid m₀ (start p m₀ : Asked S R) :=
  ⟨⟨[], rfl, rfl⟩, Nat.le_refl 0⟩

section

variable (h : Kept p gid m₀ j)
include h

theorem Kept.of_asks (hact : j'.act = j.act) (hshared : j'.shared = j.shared)
    (htaken : j'.taken = j.taken) (hasks : j.asks <+: j'.asks) : Kept p gid m₀ j' := by
  obtain ⟨⟨fs, hfs, hreceived⟩, hle⟩ := h
  obtain ⟨more, hmore⟩ := hasks
  refine ⟨⟨fs, by rw [hact, hshared, hfs], ?_⟩, ?_⟩
  · rw [hreceived, htaken, ← hmore, take_append_of_le_length hle]
  · rw [htaken, ← hmore, length_append]
    omega

theorem Kept.goOn {e} (hs : p.step gid j.act j.shared e = some (a', m'))
    (hact : j'.act = a') (hshared : j'.shared = m') (htaken : j'.taken = j.taken)
    (hasks : j'.asks = j.asks) (he : received [e] = []) : Kept p gid m₀ j' := by
  obtain ⟨⟨fs, hfs, hreceived⟩, hle⟩ := h
  refine ⟨⟨fs ++ [e], ?_, ?_⟩, by rwa [htaken, hasks]⟩
  · rw [hact, hshared]
    exact exec_snoc_eq_some.mpr ⟨_, hfs, hs⟩
  · rw [htaken, hasks, ← hreceived, received, filterMap_append]
    exact (congrArg _ he).trans (append_nil _)

theorem Kept.step {e} (hm : Move p gid askTimeout j e j') : Kept p gid m₀ j' := by
  cases hm with
  | ask x => exact h.of_asks rfl rfl rfl (by simp [asks])
  | timeout hk => exact h.of_asks rfl rfl rfl ⟨[], by rw [asks_timeout hk, append_nil]⟩
  | @recv c a' m' hc hs =>
    obtain ⟨⟨fs, hfs, hreceived⟩, hle⟩ := h
    have hask : j.asks[j.taken]? = some c.ask := by rw [asks, getElem?_map, hc]; rfl
    refine ⟨⟨fs ++ [.recv c.ask.envelope], ?_, ?_⟩, (lt_of_getElem? hask)⟩
    · exact exec_snoc_eq_some.mpr ⟨_, hfs, hs⟩
    show received (fs ++ [.recv c.ask.envelope]) = (j.asks.take (j.taken + 1)).map TxAsk.envelope
    rw [take_add_one, hask, map_append, ← hreceived, received, filterMap_append]
    rfl
  | handle hc hs => exact h.goOn hs rfl rfl rfl (by rw [asks_goOn, asks_finish hc]) rfl
  | @mailbox f _ _ hf hs =>
    exact h.goOn hs rfl rfl rfl (asks_goOn _ _) (by cases f <;> first | rfl | cases hf)

end

section

variable (hseq : p.grain.reentrant = false) (h : Kept p gid m₀ j)
include hseq h

theorem Kept.prefixes :
    p.Prefixes gid (m₀.store.writesTo gid) ((j.asks.take j.taken).map TxAsk.envelope) j.act
      j.shared := by
  obtain ⟨⟨fs, hfs, hreceived⟩, -⟩ := h
  exact hreceived ▸ run_prefixes hseq hfs

theorem Kept.wf : j.act.WF p.grain.reentrant :=
  (h.prefixes hseq).order.sound.wf

theorem Kept.taken_of_starting (hst : j.act.phase.stage = .starting) : j.taken = 0 := by
  have hnil := congrArg length ((h.prefixes hseq).script.of_starting hst).2
  have hle := h.taken_le
  simp only [length_map, length_take, length_nil] at hnil
  omega

theorem Kept.hand {env} (hp : j.act.phase = .handling env) :
    j.taken = j.handled + 1 ∧ j.act.turns =
      .activate :: ((j.asks.take j.handled).map TxAsk.envelope).map .handled ∧
      ∃ c, j.callers[j.handled]? = some c ∧ env = c.ask.envelope := by
  obtain ⟨envs, hrs, hts⟩ := (h.prefixes hseq).script.of_handling hp
  have hle := h.taken_le
  have hl := congrArg length hrs
  simp only [length_map, length_take, length_append, length_singleton] at hl
  have hhandled : j.handled = j.taken - 1 := by rw [handled, hp]; rfl
  obtain ⟨c, hc⟩ : ∃ c, j.callers[j.handled]? = some c :=
    ⟨_, getElem?_eq_getElem (by rw [asks, length_map] at hle hl; omega)⟩
  have hask : j.asks[j.handled]? = some c.ask := by rw [asks, getElem?_map, hc]; rfl
  have htaken : j.taken = j.handled + 1 := by omega
  rw [htaken, take_add_one, hask, map_append] at hrs
  obtain ⟨hinit, hlast⟩ := append_inj' hrs rfl
  exact ⟨htaken, hinit ▸ hts, c, hc, (singleton_inj.mp hlast).symm⟩

theorem Kept.state (hret : j.Returns) (hr : j.act.phase.receiving = true)
    (hst : j.act.phase.stage ≠ .starting) : j.act.state = j.before p j.handled := by
  have hpre := h.prefixes hseq
  have hturns : j.act.turns =
      .activate :: ((j.asks.take j.handled).map TxAsk.envelope).map .handled := by
    cases hp : j.act.phase with
    | loop | persist | flush | publish =>
      have hhandled : j.handled = j.taken := by rw [handled, hp]; rfl
      rw [hhandled]
      exact hpre.script.of_between (hp ▸ rfl)
    | handling env => exact (h.hand hseq hp).2.1
    | load | loadVersion | loadState | activate => simp [hp, Phase.stage] at hst
    | _ => simp [hp, Phase.receiving] at hr
  have hloading : j.act.phase.loading = false := by
    cases hl : j.act.phase.loading with
    | false => rfl
    | true => exact absurd (Phase.starting_of_loading hl) hst
  rw [hpre.order.sound.state hloading, hturns, replay_handled, reached, foldl_map,
    foldl_envelope fun x hx => hret x (mem_of_mem_take hx)]
  rfl

end

end Asked

/-! ## What the callers are told -/

/-- What a caller has been told : that it has given up, the reply that is due, or nothing yet unless
the task has dropped its receiver. -/
inductive TxCaller.Told (askTimeout : ℕ) (gaveUp : Prop) (due : Option (Except GrainError R))
    (receiving : Bool) (c : TxCaller S R) : Prop
  | gaveUp (h : gaveUp) (ha : c.answer = some (.error (.timeout askTimeout)))
  | replied {r} (h : ¬gaveUp) (hr : due = some r) (ha : c.answer = some r)
  | waits (h : ¬gaveUp) (hr : due = none) (ha : c.answer = none)
  | closed (h : ¬gaveUp) (hr : due = none) (hn : receiving = false)
    (ha : c.answer = some (.error .mailboxClosed))

namespace TxCaller

variable {gaveUp gaveUp' : Prop} {due due' : Option (Except GrainError R)}
  {receiving receiving' : Bool} {c : TxCaller S R}

theorem tell_of_none (h : c.answer = none) (answer) : (c.tell answer).answer = some answer := by
  simp [tell, h]

theorem tell_of_some {old} (h : c.answer = some old) (answer) : c.tell answer = c := by
  simp [tell, h]

theorem Told.of_eq (h : c.Told askTimeout gaveUp due receiving) (hg : gaveUp' ↔ gaveUp)
    (hd : due' = due) (hr : receiving' = true → receiving = true) :
    c.Told askTimeout gaveUp' due' receiving' := by
  obtain rfl := propext hg
  subst hd
  cases h with
  | gaveUp h ha => exact .gaveUp h ha
  | replied h hd ha => exact .replied h hd ha
  | waits h hd ha => exact .waits h hd ha
  | closed h hd hn ha =>
    refine .closed h hd ?_ ha
    cases receiving' with
    | false => rfl
    | true => rw [hr rfl] at hn; cases hn

theorem Told.tell_closed (h : c.Told askTimeout gaveUp due receiving) :
    (c.tell (.error .mailboxClosed)).Told askTimeout gaveUp due false := by
  cases h with
  | gaveUp h ha => exact (tell_of_some ha _).symm ▸ .gaveUp h ha
  | replied h hd ha => exact (tell_of_some ha _).symm ▸ .replied h hd ha
  | waits h hd ha => exact .closed h hd rfl (tell_of_none ha _)
  | closed h hd hn ha => exact (tell_of_some ha _).symm ▸ .closed h hd rfl ha

theorem Told.tell_reply (h : c.Told askTimeout gaveUp none true) (r) :
    (c.tell r).Told askTimeout gaveUp (some r) receiving := by
  cases h with
  | gaveUp h ha => exact (tell_of_some ha _).symm ▸ .gaveUp h ha
  | replied h hd => cases hd
  | waits h hd ha => exact .replied h rfl (tell_of_none ha _)
  | closed h hd hn => cases hn

end TxCaller

namespace Asked

variable {es : List (AskEvent S R)} {e : AskEvent S R}

variable (p) in
def due (j : Asked S R) (i : ℕ) (x : TxAsk S R) : Option (Except GrainError R) :=
  if i < j.handled then some (x.handle (j.before p i)).reply else none

variable (p) in
structure Told (askTimeout : ℕ) (es : List (AskEvent S R)) (j : Asked S R) : Prop where
  known : ∀ k, .timeout k ∈ es → k < j.callers.length
  told : ∀ (i : ℕ) (c : TxCaller S R), j.callers[i]? = some c →
    c.Told askTimeout (.timeout i ∈ es) (j.due p i c.ask) j.act.phase.receiving

theorem handled_le (j : Asked S R) : j.handled ≤ j.taken := by
  unfold handled
  split
  · exact Nat.sub_le _ _
  · exact Nat.le_refl _

theorem handled_of_not_busy (h : j.act.phase.stage ≠ .busy) : j.handled = j.taken :=
  if_neg h

theorem before_eq {n} (hl : j'.act.loaded = j.act.loaded) (ha : j.asks <+: j'.asks)
    (hn : n ≤ j.asks.length) : j'.before p n = j.before p n := by
  obtain ⟨more, hmore⟩ := ha
  rw [before, before, begun, begun, hl, ← hmore, take_append_of_le_length hn]

theorem due_eq (ha : j.asks <+: j'.asks) (hle : j.handled ≤ j.asks.length)
    (hn : j'.handled = j.handled) (hl : j'.act.loaded = j.act.loaded ∨ j.handled = 0) (i)
    (x) : j'.due p i x = j.due p i x := by
  unfold due
  rw [hn]
  split
  · rename_i hi
    obtain hl | hz := hl
    · rw [before_eq hl ha (by omega)]
    · omega
  · rfl

theorem timeout_mem_snoc {i} (he : ∀ k, e ≠ .timeout k) :
    .timeout i ∈ es ++ [e] ↔ .timeout i ∈ es := by
  rw [mem_append, mem_singleton]
  exact or_iff_left fun h => he i h.symm

theorem told_goOn {receiving} (he : ∀ k, e ≠ .timeout k)
    (hknown : ∀ k, .timeout k ∈ es → k < j.callers.length)
    (h : ∀ (i : ℕ) (c : TxCaller S R), j.callers[i]? = some c → c.Told askTimeout (.timeout i ∈ es)
      ((j.goOn (a', m')).due p i c.ask) receiving)
    (hr : a'.phase.receiving = true → receiving = true) :
    Told p askTimeout (es ++ [e]) (j.goOn (a', m')) := by
  refine ⟨?_, ?_⟩
  · intro k hk
    simpa [goOn] using hknown k ((timeout_mem_snoc he).mp hk)
  · intro i c hc
    simp only [goOn, getElem?_mapIdx, map_eq_some_iff] at hc
    obtain ⟨c₀, hc₀, rfl⟩ := hc
    have htold := (h i c₀ hc₀).of_eq (timeout_mem_snoc he) rfl hr
    split
    · exact htold
    · rename_i hn
      simp only [Bool.or_eq_true, not_or, Bool.not_eq_true] at hn
      have hclosed : (j.goOn (a', m')).act.phase.receiving = false := hn.1
      rw [hclosed, TxCaller.tell_ask]
      exact htold.tell_closed

section

variable (hseq : p.grain.reentrant = false)
include hseq

theorem Told.handle {c} {env} (hk : Kept p gid m₀ j) (hret : j.Returns) (h : Told p askTimeout es j)
    (hc : j.callers[j.taken - 1]? = some c) (hp : j.act.phase = .handling env)
    (hb : a'.phase.stage ≠ .busy) (hl : a'.loaded = j.act.loaded) :
    Told p askTimeout (es ++ [.mailbox .handle]) ((j.finish c).goOn (a', m')) := by
  obtain ⟨htaken, -⟩ := hk.hand hseq hp
  have hle := hk.taken_le
  have hr : j.act.phase.receiving = true := by rw [hp]; rfl
  have hlast : j.taken - 1 = j.handled := by omega
  have hhandled : ((j.finish c).goOn (a', m')).handled = j.handled + 1 :=
    (handled_of_not_busy hb).trans htaken
  have hbefore : ∀ n ≤ j.handled, ((j.finish c).goOn (a', m')).before p n = j.before p n := by
    intro n hn
    refine before_eq hl ⟨[], ?_⟩ (by omega)
    rw [asks_goOn, asks_finish hc, append_nil]
  refine told_goOn nofun ?_ ?_ fun _ => hr
  · intro k hk
    simpa [finish] using h.known k hk
  · intro i d hd
    rw [finish, hlast] at hd
    rw [hlast] at hc
    rw [due, hhandled]
    rcases getElem?_set_cases hc hd with ⟨rfl, rfl⟩ | ⟨hne, hd⟩
    · have hwaits := h.told _ c hc
      rw [due, if_neg (Nat.lt_irrefl _), hr] at hwaits
      rw [if_pos (Nat.lt_succ_self _), hbefore _ (Nat.le_refl _), TxCaller.tell_ask,
        ← hk.state hseq hret hr (by rw [hp]; nofun)]
      exact hwaits.tell_reply _
    · refine (h.told i d hd).of_eq Iff.rfl ?_ id
      rw [due]
      by_cases hi : i < j.handled
      · rw [if_pos hi, if_pos (by omega), hbefore i (by omega)]
      · rw [if_neg hi, if_neg (by omega)]

theorem Told.step {e} (hk : Kept p gid m₀ j) (hret : j.Returns) (h : Told p askTimeout es j)
    (hm : Move p gid askTimeout j e j') : Told p askTimeout (es ++ [e]) j' := by
  have hle := Nat.le_trans j.handled_le hk.taken_le
  have hasks := hm.asks_prefix
  cases hm with
  | ask x =>
    have hmem : ∀ {i}, .timeout i ∈ es ++ [.ask x] ↔ .timeout i ∈ es := timeout_mem_snoc nofun
    refine ⟨?_, ?_⟩
    · intro k hk'
      have := h.known k (hmem.mp hk')
      rw [length_append]
      omega
    · intro i c hc
      rw [due_eq hasks hle rfl (.inl rfl), hmem]
      rcases getElem?_snoc hc with hc | ⟨rfl, rfl⟩
      · exact h.told i c hc
      · have hno : .timeout j.callers.length ∉ es := fun hn => Nat.lt_irrefl _ (h.known _ hn)
        have hnone : j.due p j.callers.length x = none := if_neg (by simpa [asks] using hle)
        cases hr : j.act.phase.receiving with
        | true => exact .waits hno hnone (by simp)
        | false => exact .closed hno hnone rfl (by simp)
  | @timeout k x hx =>
    have hmem : ∀ {i}, .timeout i ∈ es ++ [.timeout k] ↔ .timeout i ∈ es ∨ i = k := by
      intro i
      rw [mem_append, mem_singleton, AskEvent.timeout.injEq]
    refine ⟨?_, ?_⟩
    · intro i hi
      rw [length_set]
      rcases hmem.mp hi with hi | rfl
      · exact h.known i hi
      · exact lt_of_getElem? hx
    · intro i c hc
      rw [due_eq hasks hle rfl (.inl rfl), hmem]
      rcases getElem?_set_cases hx hc with ⟨rfl, rfl⟩ | ⟨hne, hc⟩
      · exact .gaveUp (.inr rfl) rfl
      · exact (h.told i c hc).of_eq (or_iff_left hne) rfl id
  | @recv c a' m' hc hs =>
    cases step_sound hs with
    | recv hp hr =>
      have hidle : j.handled = j.taken := handled_of_not_busy (by rw [hp]; nofun)
      have hmem : ∀ {i}, .timeout i ∈ es ++ [.recv] ↔ .timeout i ∈ es := timeout_mem_snoc nofun
      refine ⟨fun k hk' => h.known k (hmem.mp hk'), ?_⟩
      intro i d hd
      refine (h.told i d hd).of_eq hmem ?_ (fun _ => by rw [hp]; rfl)
      exact due_eq hasks hle hidle.symm (.inl rfl) i d.ask
    | spawn hp hr => rw [hseq] at hr; cases hr
    | drain _ _ he => rcases he with he | he <;> cases he
  | @handle c a' m' hc hs =>
    cases step_sound hs with
    | handleOk hp => exact h.handle hseq hk hret hc hp nofun rfl
    | handlePanic hp =>
      refine h.handle hseq hk hret hc hp ?_ rfl
      exact phase_settle (P := fun ph => ph.stage ≠ .busy) nofun nofun nofun _ _
    | drain _ _ he => rcases he with he | he <;> cases he
  | @mailbox f a' m' hf hs =>
    have hapart := (step_sound hs).apart (hk.wf hseq) hseq hf
    have hidle := handled_of_not_busy hapart.before
    refine told_goOn nofun h.known ?_ hapart.receiving
    intro i c hc
    refine (h.told i c hc).of_eq Iff.rfl (due_eq hasks hle ?_ ?_ i c.ask) id
    · rw [hidle]
      exact handled_of_not_busy hapart.after
    · refine hapart.loaded.imp_right fun hst => ?_
      rw [hidle, hk.taken_of_starting hseq hst]

theorem run_told (hret : j.Returns) (hrun : exec (step p gid askTimeout) (start p m₀) es = some j) :
    Kept p gid m₀ j ∧ Told p askTimeout es j := by
  refine exec_induction (I := fun es j => j.Returns → Kept p gid m₀ j ∧ Told p askTimeout es j)
    (fun _ => ⟨start_kept m₀, nofun, nofun⟩) ?_ hrun hret
  intro es u e v _ hI hstep hret'
  have hm := move_of_step hstep
  have hret : u.Returns := fun x hx => hret' x (hm.asks_prefix.subset hx)
  obtain ⟨hk, ht⟩ := hI hret
  exact ⟨hk.step hm, ht.step hseq hk hret hm⟩

end

end Asked

/-! ## Every message is handled -/

def AskEvent.steady : AskEvent S R → Bool
  | mailbox e => e.steady
  | _ => true

namespace Asked

/-- A bound on the steps until every message has been handled. -/
def toGo (j : Asked S R) : ℕ :=
  10 * (j.asks.length - j.handled) + j.act.phase.toGo

theorem Kept.handle_returns (hseq : p.grain.reentrant = false) (h : Kept p gid m₀ j)
    (hret : j.Returns) {env} (hp : j.act.phase = .handling env) :
    ∃ s, env.handleFn j.act.state = .ok s := by
  obtain ⟨-, -, c, hc, rfl⟩ := h.hand hseq hp
  have hno := hret c.ask (mem_map_of_mem (mem_of_getElem? hc)) j.act.state
  cases hx : c.ask.handle j.act.state with
  | ok s => exact ⟨s, by simp [TxAsk.envelope, hx]⟩
  | err => exact ⟨j.act.state, by simp [TxAsk.envelope, hx]⟩
  | panicked => simp [hx, TxEnd.isPanic] at hno

section Progress

variable (hseq : p.grain.reentrant = false)
  (hact : ∀ s, (p.grain.onActivate s).returned = true)
  (hser : ∀ s, ∃ bytes, p.serializer.serialize s = .ok bytes)

include hseq hact hser

theorem Move.receiving {e} (hm : Move p gid askTimeout j e j')
    (hk : Kept p gid m₀ j) (hret : j.Returns) (he : e.steady = true)
    (hr : j.act.phase.receiving = true) : j'.act.phase.receiving = true := by
  have hmail : ∀ {f a' m'}, f.steady = true →
      p.step gid j.act j.shared f = some (a', m') → a'.phase.receiving = true := by
    intro f a' m' hf hs
    refine (step_sound hs).receiving (hk.wf hseq) hseq hf hact hser ?_ hr
    intro env s hp hpanic
    obtain ⟨s', hok⟩ := hk.handle_returns hseq hret hp
    rw [hok] at hpanic
    cases hpanic
  cases hm with
  | recv _ hs | handle _ hs => exact hmail rfl hs
  | mailbox _ hs => exact hmail he hs
  | _ => exact hr

theorem exists_step (gid) (askTimeout : ℕ) (h : Kept p gid m₀ j) (hret : j.Returns)
    (hr : j.act.phase.receiving = true) (hn : j.act.phase ≠ .loop ∨ j.handled < j.asks.length) :
    ∃ e j', step p gid askTimeout j e = some j' ∧ (e = .recv ∨ ∃ f, e = .mailbox f) ∧
      e.steady = true ∧ j'.asks = j.asks ∧ j'.toGo < j.toGo := by
  by_cases hloop : j.act.phase = .loop
  · -- the next message is taken
    have hlt := hn.resolve_left fun hne => hne hloop
    have hidle : j.handled = j.taken := handled_of_not_busy (by rw [hloop]; nofun)
    obtain ⟨c, hc⟩ : ∃ c, j.callers[j.taken]? = some c :=
      ⟨_, getElem?_eq_getElem (by simpa [asks, hidle] using hlt)⟩
    have hs : p.step gid j.act j.shared (.recv c.ask.envelope) = some ({ j.act with
            phase := .handling c.ask.envelope
            fsm := j.act.fsm.next .messageReceived }, j.shared) := by
      simp only [PersistentArgs.step, hloop, hseq]
    have hstep : step p gid askTimeout j .recv = some { j with
        act := { j.act with
          phase := .handling c.ask.envelope
          fsm := j.act.fsm.next .messageReceived }
        taken := j.taken + 1 } := by
      simp [step, hc, hs]
    refine ⟨_, _, hstep, .inl rfl, rfl, rfl, ?_⟩
    simp [toGo, asks, handled, hloop, Phase.toGo, Phase.stage]
  by_cases hb : j.act.phase.stage = .busy
  · -- the handler in hand returns
    obtain ⟨env, hp⟩ := Phase.handling_of_busy hb
    obtain ⟨htaken, -, c, hc, -⟩ := h.hand hseq hp
    obtain ⟨s, hok⟩ := h.handle_returns hseq hret hp
    have hle := h.taken_le
    rw [show j.handled = j.taken - 1 by omega] at hc
    have hs : p.step gid j.act j.shared .handle = some
        ({ j.act.complete env s with phase := .persist }, j.shared) := by
      simp only [PersistentArgs.step, hp, hok]
    have hasks : ((j.finish c).goOn
        ({ j.act.complete env s with phase := .persist }, j.shared)).asks = j.asks := by
      rw [asks_goOn, asks_finish hc]
    refine ⟨.mailbox .handle, _, by simp only [step, hc, hs, map_some],
      .inr ⟨_, rfl⟩, rfl, hasks, ?_⟩
    rw [toGo, toGo, hasks, hp, handled_of_not_busy (by simp [goOn, Phase.stage])]
    simp only [goOn, finish, Phase.toGo]
    omega
  · -- the task gets closer to its loop
    obtain ⟨fs, hfs, -⟩ := h.run
    obtain ⟨f, a', m', hs, hf, hsteady, hlt⟩ := PersistentArgs.exists_step gid j.shared
      (h.wf hseq) (run_enters hfs) hact hser hr hloop hb
    have hapart := (PersistentArgs.step_sound hs).apart (h.wf hseq) hseq hf
    refine ⟨.mailbox f, j.goOn (a', m'), by rw [step_mailbox hf, hs]; rfl, .inr ⟨f, rfl⟩,
      hsteady, asks_goOn _ _, ?_⟩
    have hsame : (j.goOn (a', m')).handled = j.handled :=
      (handled_of_not_busy hapart.after).trans (handled_of_not_busy hb).symm
    rw [toGo, toGo, asks_goOn, hsame]
    exact Nat.add_lt_add_left hlt _

theorem exists_handled (gid) (askTimeout) (h : Kept p gid m₀ j) (hret : j.Returns)
    (hr : j.act.phase.receiving = true) :
    ∃ fs j', exec (step p gid askTimeout) j fs = some j' ∧
      (∀ e ∈ fs, e = .recv ∨ ∃ f, e = .mailbox f) ∧ j'.act.phase = .loop ∧ j'.asks = j.asks ∧
      j'.handled = j.asks.length := by
  have hstep : ∀ k, (Kept p gid m₀ k ∧ k.asks = j.asks ∧ k.act.phase.receiving = true) →
      (k.act.phase = .loop ∧ k.asks.length ≤ k.handled) ∨
      ∃ e k', step p gid askTimeout k e = some k' ∧ (e = .recv ∨ ∃ f, e = .mailbox f) ∧
        (Kept p gid m₀ k' ∧ k'.asks = j.asks ∧ k'.act.phase.receiving = true) ∧
        k'.toGo < k.toGo := by
    rintro k ⟨hk, hasks, hrk⟩
    have hretk : k.Returns := by rwa [Returns, hasks]
    by_cases hdone : k.act.phase = .loop ∧ k.asks.length ≤ k.handled
    · exact .inl hdone
    · have hleft : k.act.phase ≠ .loop ∨ k.handled < k.asks.length := by
        rwa [not_and_or, Nat.not_le] at hdone
      obtain ⟨e, k', hs, he, hsteady, hasks', hlt⟩ :=
        exists_step hseq hact hser gid askTimeout hk hretk hrk hleft
      have hm := move_of_step hs
      exact .inr ⟨e, k', hs, he, ⟨hk.step hm, hasks'.trans hasks,
        hm.receiving hseq hact hser hk hretk hsteady hrk⟩, hlt⟩
  obtain ⟨fs, j', hrun, hfs, ⟨hk', hasks, -⟩, hloop, hle⟩ :=
    exists_exec_of_rank toGo hstep ⟨h, rfl, hr⟩
  refine ⟨fs, j', hrun, hfs, hloop, hasks, ?_⟩
  rw [hasks] at hle
  exact Nat.le_antisymm (hasks ▸ Nat.le_trans j'.handled_le hk'.taken_le) hle

theorem run_receiving (hret : j.Returns)
    (hrun : exec (step p gid askTimeout) (start p m₀) es = some j)
    (hes : ∀ e ∈ es, e.steady = true) : j.act.phase.receiving = true := by
  have hstart : (start p m₀ : Asked S R).act.phase.receiving = true := by
    simp only [start, PersistentArgs.start]
    cases p.entry <;> rfl
  refine (exec_induction (I := fun es (j : Asked S R) => j.Returns →
    (∀ e ∈ es, e.steady = true) → Kept p gid m₀ j ∧ j.act.phase.receiving = true)
    (fun _ _ => ⟨start_kept m₀, hstart⟩) ?_ hrun hret hes).2
  intro es u e v _ hI hstep hret' hes
  have hm := move_of_step hstep
  have hret : u.Returns := fun x hx => hret' x (hm.asks_prefix.subset hx)
  obtain ⟨hk, hr⟩ := hI hret fun f hf => hes f (mem_append_left _ hf)
  exact ⟨hk.step hm, hm.receiving hseq hact hser hk hret (hes e (by simp)) hr⟩

end Progress

/-- The state is that of a run of the committed messages alone, and a caller that still waits when
its handler returns is told how it ended, one that has given up `Timeout`. -/
theorem rollback_in_memory (p : PersistentArgs S) (gid : GrainId) (m₀ : Shared) (askTimeout : ℕ)
    (es : List (AskEvent S R)) (j : Asked S R) (hseq : p.grain.reentrant = false)
    (hret : j.Returns) (hrun : exec (step p gid askTimeout) (start p m₀) es = some j) :
    (j.act.phase.receiving = true → j.act.phase.stage ≠ .starting →
      j.act.state = j.before p j.handled) ∧
    (∀ env, j.act.phase = .handling env →
      ∃ c, j.callers[j.handled]? = some c ∧ env = c.ask.envelope) ∧
    (∀ i c, j.callers[i]? = some c → i < j.handled →
      (.timeout i ∉ es → c.answer = some (c.ask.handle (j.before p i)).reply) ∧
      (.timeout i ∈ es → c.answer = some (.error (.timeout askTimeout)))) ∧
    ((∀ e ∈ es, e.steady = true) → (∀ s, (p.grain.onActivate s).returned = true) →
      (∀ s, ∃ bytes, p.serializer.serialize s = .ok bytes) →
      j.act.phase.receiving = true ∧
      ∃ fs j', exec (step p gid askTimeout) (start p m₀) (es ++ fs) = some j' ∧
        (∀ e ∈ fs, e = .recv ∨ ∃ f, e = .mailbox f) ∧ j'.act.phase = .loop ∧
        j'.asks = j.asks ∧ j'.handled = j.asks.length) := by
  obtain ⟨hk, ht⟩ := run_told hseq hret hrun
  refine ⟨hk.state hseq hret, fun env hp => (hk.hand hseq hp).2.2, ?_, ?_⟩
  · intro i c hc hi
    have hdue : j.due p i c.ask = some (c.ask.handle (j.before p i)).reply := if_pos hi
    have htold := ht.told i c hc
    rw [hdue] at htold
    cases htold with
    | gaveUp h ha => exact ⟨fun hn => absurd h hn, fun _ => ha⟩
    | replied h hr ha => exact ⟨fun _ => hr ▸ ha, fun hn => absurd hn h⟩
    | waits _ hr | closed _ hr => cases hr
  · intro hes hact hser
    have hr := run_receiving hseq hact hser hret hrun hes
    obtain ⟨fs, j', hfs, hrest⟩ := exists_handled hseq hact hser gid askTimeout hk hret hr
    refine ⟨hr, fs, j', ?_, hrest⟩
    rw [exec_append, hrun]
    exact hfs

/-- Add `n` to the counter and answer with the sum. -/
def depositAsk (n : UInt8) : TxAsk UInt8 UInt8 where
  handle := fun s => .ok (s + n) (s + n)

def overdraw (n : UInt8) : TxAsk UInt8 UInt8 where
  handle := fun s => .err (s + n) "limit"

/-- Three messages, sent before the first is handled, the second of which fails. -/
def threeAsks : List (AskEvent UInt8 UInt8) :=
  [.mailbox (.load none), .mailbox (.onActivate 0), .ask (depositAsk 3), .ask (overdraw 5),
    .ask (depositAsk 4), .recv, .mailbox .handle, .mailbox (.prepare 0 false), .recv,
    .mailbox .handle, .mailbox (.prepare 0 false), .recv, .mailbox .handle,
    .mailbox (.prepare 0 false)]

/-- The message that fails leaves no trace in the state, and its caller is told. -/
theorem rollback_in_memory_counter :
    ∃ j, exec (step (counter false .writeOnDeactivate (.run false)) ⟨"Account", "k"⟩ 30)
        (start (counter false .writeOnDeactivate (.run false)) .empty) threeAsks = some j ∧
      j.act.state = 7 ∧
      j.act.state = j.before (counter false .writeOnDeactivate (.run false)) 3 ∧
      ∃ c, j.callers[1]? = some c ∧ c.answer = some (c.ask.handle
        (j.before (counter false .writeOnDeactivate (.run false)) 1)).reply := by
  obtain ⟨j, hrun, hstate, hp, hhandled, hasks⟩ :
      ∃ j, exec (step (counter false .writeOnDeactivate (.run false)) ⟨"Account", "k"⟩ 30)
      (start (counter false .writeOnDeactivate (.run false)) .empty) threeAsks = some j ∧
      j.act.state = 7 ∧ j.act.phase = .loop ∧ j.handled = 3 ∧
      j.asks = [depositAsk 3, overdraw 5, depositAsk 4] := ⟨_, rfl, rfl, rfl, rfl, rfl⟩
  have hret : j.Returns := by
    rw [Returns, hasks]
    simp [depositAsk, overdraw, TxEnd.isPanic]
  obtain ⟨hlive, -, htold, -⟩ := rollback_in_memory _ _ _ _ _ _ rfl hret hrun
  obtain ⟨c, hc⟩ : ∃ c, j.callers[1]? = some c := by
    refine ⟨_, getElem?_eq_getElem ?_⟩
    have hlen := congrArg List.length hasks
    rw [asks, length_map] at hlen
    rw [hlen]
    decide
  refine ⟨j, hrun, hstate, hhandled ▸ hlive (hp ▸ rfl) (by rw [hp]; nofun), c, hc, ?_⟩
  exact (htold 1 c hc (by rw [hhandled]; decide)).1 (by simp [threeAsks])

/-- A caller gives up before its message is handled. The handler returns `Ok` and the state has
changed, but the caller has been told `Timeout`. -/
theorem timeout_after_commit :
    ∃ j c, exec (step (counter false .writeOnDeactivate (.run false)) ⟨"Account", "k"⟩ 30)
        (start (counter false .writeOnDeactivate (.run false)) .empty)
        [.mailbox (.load none), .mailbox (.onActivate 0), .ask (depositAsk 3), .recv, .timeout 0,
          .mailbox .handle, .mailbox (.prepare 0 false)] = some j ∧
      j.act.state = 3 ∧ j.callers[0]? = some c ∧ c.ask.handle 0 = .ok 3 3 ∧
      c.answer = some (.error (.timeout 30)) :=
  ⟨_, _, rfl, rfl, rfl, rfl, rfl⟩

end Asked

end Orlando
