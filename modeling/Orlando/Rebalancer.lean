import Orlando.Services
import Orlando.SingleActivation

/-!
# The rebalancer

After a membership change the rebalancer takes the grains that the ring gives to another silo out of
the directory (`Rebalancer.step`), waits for their tasks, and aborts those left after five seconds.

A pass goes by the ring alone (`Filtered`), placement by the hint and the strategy of the silo.
-/

namespace Orlando

open List Option

variable {S : Type}

/-! ## Tasks that process messages -/

def Task.serving (t : Task S) : Bool :=
  !t.aborted && !t.act.phase.pastLoop

namespace Silo

variable {s s' : Silo S} {e : SiloEvent S} {i : ℕ} {t' : Task S}

theorem serving_of_set {j t₀ t₁} (hj : s.tasks[j]? = some t₀)
    (ht : s'.tasks = s.tasks.set j t₁) (hgid : t₁.gid = t₀.gid)
    (hserving : t₁.serving = true → t₀.serving = true) (hi : s'.tasks[i]? = some t') :
    ∃ t, s.tasks[i]? = some t ∧ t'.gid = t.gid ∧ (t'.serving = true → t.serving = true) := by
  rw [ht, getElem?_set] at hi
  split_ifs at hi with hji hlt
  · subst hji
    cases hi
    exact ⟨t₀, hj, hgid, hserving⟩
  · exact ⟨t', hi, rfl, id⟩

theorem Step.serving (h : Step s s' e) (hlt : i < s.tasks.length) (hi : s'.tasks[i]? = some t') :
    ∃ t, s.tasks[i]? = some t ∧ t'.gid = t.gid ∧ (t'.serving = true → t.serving = true) := by
  cases h with
  | idle _ ht => exact ⟨t', ht ▸ hi, rfl, id⟩
  | channel hj queue refs _ ht => exact serving_of_set hj ht rfl id hi
  | mailbox _ hj hab hstep queue _ ht =>
    refine serving_of_set hj ht rfl (fun hserv => ?_) hi
    simp only [Task.serving, hab, Bool.not_false, Bool.true_and, Bool.not_eq_true'] at hserv ⊢
    by_contra hpast
    rw [MailboxKind.pastLoop_of_step hstep (by simpa using hpast)] at hserv
    cases hserv
  | spawn _ _ _ ht =>
    rw [ht, getElem?_append_left hlt] at hi
    exact ⟨t', hi, rfl, id⟩
  | detach _ hj _ ht => exact serving_of_set hj ht rfl id hi
  | abort hj _ _ ht => exact serving_of_set hj ht rfl (by simp [Task.serving]) hi
  | restart _ ht =>
    rw [ht, getElem?_map] at hi
    obtain ⟨t, ht', rfl⟩ := map_eq_some_iff.mp hi
    exact ⟨t, ht', rfl, by simp [Task.serving]⟩

theorem Step.length_le (h : Step s s' e) : s.tasks.length ≤ s'.tasks.length := by
  cases h with
  | idle _ ht | channel _ _ _ _ ht | mailbox _ _ _ _ _ _ ht | spawn _ _ _ ht | detach _ _ _ ht
  | abort _ _ _ ht | restart _ ht => simp [ht]

end Silo

/-! ## A pass of the rebalancer -/

def HashRing.movesAway (r : HashRing) (localSiloId : String) (gid : GrainId) : Bool :=
  match r.get (ringKey gid.typeName gid.key) with
  | some target => target.siloId != localSiloId
  | none => false

inductive RebalancePhase where
  | removing (todo : List GrainId) (deadline : Instant)
  | removed (i : ℕ) (todo : List GrainId) (deadline : Instant)
  | waiting (i : ℕ) (todo : List GrainId) (deadline : Instant)
  | returned
deriving DecidableEq

structure RebalancePass where
  ring : HashRing
  started : ℕ
  phase : RebalancePhase

structure Rebalancer (S : Type) where
  localSiloId : String
  silo : Silo S
  workerPools : List GrainId
  ring : HashRing
  now : Instant
  pass : Option RebalancePass

inductive RebalanceEvent (S : Type) where
  | silo (e : SiloEvent S)
  | setWorkerPools (ids : List GrainId)
  | setRing (ring : HashRing)
  | tick (d : ℕ)
  /-- A pass begins, with the ids in the order in which `grain_ids` returns them. -/
  | rebalance (grainIds : List GrainId)
  | remove
  | checkDeadline
  | joined
  | timedOut

namespace Rebalancer

variable (b : Rebalancer S) {b' : Rebalancer S}

def grace : ℕ := 5 * nanosPerSecond

def isGrainIds (ids : List GrainId) : Bool :=
  decide ids.Nodup && b.silo.activations.keys.all (· ∈ ids) && b.workerPools.all (· ∈ ids) &&
    ids.all fun gid => gid ∈ b.silo.activations.keys || gid ∈ b.workerPools

def toRemove (ids : List GrainId) : List GrainId :=
  ids.filter (b.ring.movesAway b.localSiloId)

def resting : Bool :=
  match b.pass with
  | none | some ⟨_, _, .returned⟩ => true
  | _ => false

def goOn (p : RebalancePass) (silo : Silo S) (phase : RebalancePhase) : Rebalancer S :=
  { b with silo := silo, pass := some { p with phase := phase } }

def passStep (p : RebalancePass) : RebalancePhase → RebalanceEvent S → Option (Rebalancer S)
  | .removing [] _, .remove => some (b.goOn p b.silo .returned)
  | .removing (gid :: todo) deadline, .remove =>
    match b.silo.activations.lookup gid with
    | some i => (b.silo.step (.detach gid)).map fun s => b.goOn p s (.removed i todo deadline)
    | none => some (b.goOn p b.silo (.removing todo deadline))
  | .removed i todo deadline, .checkDeadline =>
    if deadline ≤ b.now then
      (b.silo.step (.abort i)).map fun s => b.goOn p s (.removing todo deadline)
    else some (b.goOn p b.silo (.waiting i todo deadline))
  | .waiting i todo deadline, .joined =>
    if b.silo.tasks[i]?.any Task.running then none
    else some (b.goOn p b.silo (.removing todo deadline))
  | .waiting i todo deadline, .timedOut =>
    if b.silo.tasks[i]?.any Task.running ∧ deadline ≤ b.now then
      some (b.goOn p b.silo (.removing todo deadline))
    else none
  | _, _ => none

def step : RebalanceEvent S → Option (Rebalancer S)
  | .silo e => (b.silo.step e).map fun s => { b with silo := s }
  | .setWorkerPools ids => some { b with workerPools := ids }
  | .setRing ring => some { b with ring := ring }
  | .tick d => some { b with now := b.now + d }
  | .rebalance ids =>
    if b.resting ∧ b.isGrainIds ids then
      some { b with pass := some ⟨b.ring, b.silo.tasks.length,
        if b.toRemove ids = [] then .returned else .removing (b.toRemove ids) (b.now + grace)⟩ }
    else none
  | e =>
    match b.pass with
    | some p => b.passStep p p.phase e
    | none => none

/-- What a step of a pass can do : the silo afterwards, and how far the pass has come. -/
inductive PassMove : RebalancePhase → RebalanceEvent S → Silo S → RebalancePhase → Prop
  | finished {deadline} : PassMove (.removing [] deadline) .remove b.silo .returned
  | detach {gid todo deadline i s} (hl : b.silo.activations.lookup gid = some i)
    (hs : b.silo.step (.detach gid) = some s) :
    PassMove (.removing (gid :: todo) deadline) .remove s (.removed i todo deadline)
  | gone {gid todo deadline} (hl : b.silo.activations.lookup gid = none) :
    PassMove (.removing (gid :: todo) deadline) .remove b.silo (.removing todo deadline)
  | abort {i todo deadline s} (hs : b.silo.step (.abort i) = some s) :
    PassMove (.removed i todo deadline) .checkDeadline s (.removing todo deadline)
  | wait {i todo deadline} :
    PassMove (.removed i todo deadline) .checkDeadline b.silo (.waiting i todo deadline)
  | joined {i todo deadline} (hended : ¬b.silo.tasks[i]?.any Task.running = true) :
    PassMove (.waiting i todo deadline) .joined b.silo (.removing todo deadline)
  | timedOut {i todo deadline} :
    PassMove (.waiting i todo deadline) .timedOut b.silo (.removing todo deadline)

variable {b} in
theorem passMove_of_passStep {p phase e} (h : b.passStep p phase e = some b') :
    ∃ s phase', b' = b.goOn p s phase' ∧ b.PassMove phase e s phase' := by
  revert h
  fun_cases passStep b p phase e <;> intro h <;> try cases h
  next => exact ⟨_, _, rfl, .finished⟩
  next hen =>
    obtain ⟨s, hs, rfl⟩ := map_eq_some_iff.mp h
    exact ⟨s, _, rfl, .detach hen hs⟩
  next hen => exact ⟨_, _, rfl, .gone hen⟩
  next =>
    obtain ⟨s, hs, rfl⟩ := map_eq_some_iff.mp h
    exact ⟨s, _, rfl, .abort hs⟩
  next => exact ⟨_, _, rfl, .wait⟩
  next hended => exact ⟨_, _, rfl, .joined hended⟩
  next => exact ⟨_, _, rfl, .timedOut⟩

inductive Move : RebalanceEvent S → Rebalancer S → Prop
  | silo {e s} (h : b.silo.step e = some s) : Move (.silo e) { b with silo := s }
  | around {e} (workerPools : List GrainId) (ring : HashRing) (now : Instant) :
    Move e { b with workerPools := workerPools, ring := ring, now := now }
  | rebalance {ids} (hids : b.isGrainIds ids = true) :
    Move (.rebalance ids) { b with pass := some ⟨b.ring, b.silo.tasks.length,
      if b.toRemove ids = [] then .returned else .removing (b.toRemove ids) (b.now + grace)⟩ }
  | pass {e p s phase} (hp : b.pass = some p) (h : b.PassMove p.phase e s phase) :
    Move e (b.goOn p s phase)

variable {b} in
theorem move_of_step {e} (h : b.step e = some b') : b.Move e b' := by
  have hpass : ∀ e, (match b.pass with
      | some p => b.passStep p p.phase e
      | none => none) = some b' → b.Move e b' := by
    intro e h
    split at h
    · rename_i p hp
      obtain ⟨s, phase, rfl, hmove⟩ := passMove_of_passStep h
      exact .pass hp hmove
    · cases h
  cases e with
  | silo e =>
    obtain ⟨s, hs, rfl⟩ := map_eq_some_iff.mp h
    exact .silo hs
  | setWorkerPools | setRing | tick =>
    cases h
    exact .around _ _ _
  | rebalance ids =>
    obtain ⟨⟨-, hids⟩, h⟩ := ite_none_right_eq_some.mp h
    cases h
    exact .rebalance hids
  | _ => exact hpass _ h

/-! ## What a pass leaves behind -/

/-- A pass takes out the entries of the tasks that serve its grains, and does not give up waiting
for one in its loop. -/
def handsOver : RebalanceEvent S → Bool
  | .rebalance _ => b.silo.tasks.all fun t =>
    !(t.serving && b.ring.movesAway b.localSiloId t.gid) || t.gid ∈ b.silo.activations.keys
  | .remove =>
    match b.pass with
    | some ⟨_, started, .removing (gid :: _) _⟩ => (List.range started).all fun i =>
      !(b.silo.tasks[i]?.any fun t => t.serving && t.gid == gid) ||
        b.silo.activations.lookup gid == some i
    | _ => true
  | .timedOut =>
    match b.pass with
    | some ⟨_, _, .waiting i _ _⟩ => !(b.silo.tasks[i]?.any Task.serving)
    | _ => true
  | _ => true

/-- No task from before the last pass serves a grain that the pass was to deactivate, once
it has returned. -/
def HandedOver : Prop :=
  ∀ p, b.pass = some p → p.phase = .returned → ∀ i t, i < p.started →
    b.silo.tasks[i]? = some t → p.ring.movesAway b.localSiloId t.gid = true → t.serving = false

end Rebalancer

/-- The pass has yet to deal with task `i` of the grain. -/
def RebalancePhase.Pending (i : ℕ) (gid : GrainId) : RebalancePhase → Prop
  | .removing todo _ => gid ∈ todo
  | .removed j todo _ | .waiting j todo _ => i = j ∨ gid ∈ todo
  | .returned => False

/-- The pass has yet to deal with the tasks that serve grains it is to deactivate. -/
structure RebalancePass.Covers (p : RebalancePass) (localSiloId : String) (s : Silo S) : Prop where
  started : p.started ≤ s.tasks.length
  tasks : ∀ i t, i < p.started → s.tasks[i]? = some t →
    p.ring.movesAway localSiloId t.gid = true → t.serving = true → p.phase.Pending i t.gid

variable {p : RebalancePass}

namespace RebalancePass.Covers

variable {localSiloId : String} {s s' : Silo S} {phase : RebalancePhase}

theorem step (h : p.Covers localSiloId s) {e} (hs : s.step e = some s')
    (hphase : ∀ i t, i < p.started → s.tasks[i]? = some t → t.serving = true →
      p.phase.Pending i t.gid → ∀ t', s'.tasks[i]? = some t' → t'.serving = true →
      phase.Pending i t.gid) :
    ({ p with phase := phase } : RebalancePass).Covers localSiloId s' where
  started := h.started.trans (Silo.step_sound hs).length_le
  tasks i t' hi ht' haway hserv := by
    obtain ⟨t, ht, hgid, hserved⟩ :=
      (Silo.step_sound hs).serving (hi.trans_le h.started) ht'
    rw [hgid] at haway ⊢
    exact hphase i t hi ht (hserved hserv) (h.tasks i t hi ht haway (hserved hserv)) t' ht'
      hserv

theorem setPhase (h : p.Covers localSiloId s)
    (hphase : ∀ i t, i < p.started → s.tasks[i]? = some t → t.serving = true →
      p.phase.Pending i t.gid → phase.Pending i t.gid) :
    ({ p with phase := phase } : RebalancePass).Covers localSiloId s where
  started := h.started
  tasks i t hi ht haway hserv := hphase i t hi ht hserv (h.tasks i t hi ht haway hserv)

end RebalancePass.Covers

theorem Task.running_of_serving {t : Task S} (h : t.serving = true) : t.running = true := by
  simp only [Task.serving, Task.running, Bool.and_eq_true, Bool.not_eq_true'] at h ⊢
  refine ⟨h.1, ?_⟩
  cases hp : t.act.phase <;> simp_all [Phase.pastLoop, Phase.isEnded]

namespace Rebalancer

variable {b b' : Rebalancer S} {e : RebalanceEvent S}

def Sound (b : Rebalancer S) : Prop :=
  ∀ p, b.pass = some p → p.Covers b.localSiloId b.silo

theorem lookup_of_handsOver {gid todo deadline i t} (h : b.handsOver .remove = true)
    (hp : b.pass = some p)
    (hphase : p.phase = .removing (gid :: todo) deadline) (hi : i < p.started)
    (ht : b.silo.tasks[i]? = some t) (hserving : t.serving = true) (hgid : t.gid = gid) :
    b.silo.activations.lookup gid = some i := by
  obtain ⟨ring, started, phase⟩ := p
  obtain rfl : phase = _ := hphase
  simp only [handsOver, hp, List.all_eq_true, mem_range] at h
  simpa [ht, hserving, hgid] using h i hi

theorem covers_passMove (h : p.Covers b.localSiloId b.silo) (hp : b.pass = some p)
    (hhands : b.handsOver e = true) {phase phase'} (hph : p.phase = phase)
    {s} (hmove : b.PassMove phase e s phase') :
    ({ p with phase := phase' } : RebalancePass).Covers b.localSiloId s := by
  cases hmove with
  | finished =>
    refine h.setPhase fun i t hi ht hserv hpend => ?_
    rw [hph] at hpend
    cases hpend
  | @detach gid todo deadline i s hl hs =>
    refine h.step hs fun j t hj ht hserv hpend _ _ _ => ?_
    rw [hph] at hpend
    refine (mem_cons.mp hpend).imp_left fun hgid => ?_
    exact some.inj ((lookup_of_handsOver hhands hp hph hj ht hserv hgid).symm.trans hl)
  | gone hl =>
    refine h.setPhase fun j t hj ht hserv hpend => ?_
    rw [hph] at hpend
    refine (mem_cons.mp hpend).resolve_left fun hgid => ?_
    rw [lookup_of_handsOver hhands hp hph hj ht hserv hgid] at hl
    cases hl
  | abort hs =>
    refine h.step hs fun j t hj ht _ hpend t' ht' hserv => ?_
    rw [hph] at hpend
    refine hpend.resolve_left ?_
    rintro rfl
    -- The task is aborted.
    cases Silo.move_of_step hs with
    | abort hj' hd =>
      rw [getElem?_set_of_lookup hj'] at ht'
      cases ht'
      cases hserv
  | wait =>
    refine h.setPhase fun j t hj ht _ hpend => ?_
    rw [hph] at hpend
    exact hpend
  | joined hended =>
    refine h.setPhase fun j t hj ht hserv hpend => ?_
    rw [hph] at hpend
    refine hpend.resolve_left ?_
    rintro rfl
    simp [ht, Task.running_of_serving hserv] at hended
  | timedOut =>
    refine h.setPhase fun j t hj ht hserv hpend => ?_
    rw [hph] at hpend
    refine hpend.resolve_left ?_
    rintro rfl
    obtain ⟨ring, started, phase⟩ := p
    obtain rfl : phase = _ := hph
    simp [handsOver, hp, ht, hserv] at hhands

theorem covers_rebalance {ids} (hhands : b.handsOver (.rebalance ids) = true)
    (hids : b.isGrainIds ids = true) :
    (⟨b.ring, b.silo.tasks.length, if b.toRemove ids = [] then .returned
      else .removing (b.toRemove ids) (b.now + grace)⟩ : RebalancePass).Covers b.localSiloId
      b.silo where
  started := le_rfl
  tasks i t _ ht haway hserving := by
    have hkeys : t.gid ∈ b.silo.activations.keys := by
      simp only [handsOver, List.all_eq_true] at hhands
      simpa [hserving, haway] using hhands t (mem_of_getElem? ht)
    have hm : t.gid ∈ b.toRemove ids := by
      simp only [isGrainIds, Bool.and_eq_true, List.all_eq_true, decide_eq_true_eq] at hids
      exact mem_filter.mpr ⟨hids.1.1.2 t.gid hkeys, haway⟩
    have hne := List.ne_nil_of_mem hm
    simp only [hne, if_false]
    exact hm

theorem Sound.step (h : b.Sound) (hhands : b.handsOver e = true) (hstep : b.step e = some b') :
    b'.Sound := by
  cases move_of_step hstep with
  | silo hs =>
    intro p hp
    exact (h p hp).step hs fun i t _ _ _ hpending _ _ _ => hpending
  | around => exact h
  | rebalance hids =>
    rintro p hp
    cases hp
    exact covers_rebalance hhands hids
  | pass hp hmove =>
    rintro q hq
    cases hq
    exact covers_passMove (h _ hp) hp hhands rfl hmove

theorem Sound.handedOver (h : b.Sound) : b.HandedOver := by
  intro p hp hphase i t hi ht haway
  by_contra hserving
  have hpend := (h p hp).tasks i t hi ht haway (by simpa using hserving)
  rw [hphase] at hpend
  exact hpend

/-- Where no wait times out on a task in its loop, and every task that serves a grain is the one in
the directory, no task from before a pass serves a moved grain after it. -/
theorem handed_over_of_run (b b' : Rebalancer S) (es : List (RebalanceEvent S))
    (hb : b.pass = none) (hhands : Along Rebalancer.step (fun c e => c.handsOver e = true) b es)
    (hrun : exec Rebalancer.step b es = some b') : b'.HandedOver := by
  have hsound : b.Sound := by
    intro p hp
    rw [hb] at hp
    cases hp
  exact (exec_invariant (fun _ _ _ he h hstep => Sound.step h he hstep) hsound hhands
    hrun).handedOver

open Cluster in
/-- The first silo, with the counter active, which the ring gives to the second. A caller
holds a reference to it. -/
def callerHolds : Rebalancer UInt8 where
  localSiloId := "silo-a"
  silo := ((Silo.init Shared.empty).activate (counterGrain.id "k") (.plain counterGrain.grain)).2
  workerPools := []
  ring := twoRing
  now := 0
  pass := none

open Cluster in
def passWaits : List (RebalanceEvent UInt8) :=
  [.silo (.mailbox 0 (.onActivate 0)), .rebalance [counterGrain.id "k"], .remove, .checkDeadline]

def referenceDropped : List (RebalanceEvent UInt8) :=
  passWaits ++ [.silo (.dropRef 0), .silo (.mailbox 0 .closed), .silo (.mailbox 0 .onDeactivate),
    .silo (.mailbox 0 .remove), .joined, .remove]

theorem handed_over_of_run_dropped :
    ∃ b', exec Rebalancer.step callerHolds referenceDropped = some b' ∧
      (b'.pass.map fun p => p.started) = some 1 ∧ b'.HandedOver := by
  have hrun : ((exec Rebalancer.step callerHolds referenceDropped).map fun b' =>
      b'.pass.map fun p => p.started) = some (some 1) := by
    decide +kernel
  obtain ⟨b', hb', hstarted⟩ := map_eq_some_iff.mp hrun
  exact ⟨b', hb', hstarted, handed_over_of_run callerHolds b' referenceDropped rfl
    (by decide +kernel) hb'⟩

/-- The caller keeps its reference, and calls once more after the pass. -/
def referenceKept : List (RebalanceEvent UInt8) :=
  passWaits ++ [.tick grace, .timedOut, .remove, .silo (.send 0 (addMessage 1)), .silo (.recv 0),
    .silo (.mailbox 0 .handle)]

open Cluster in
/-- The wait times out and the pass returns, and the task handles the call that comes
afterwards. -/
theorem kept_reference : ∃ b', exec Rebalancer.step callerHolds referenceKept = some b' ∧
    (b'.silo.tasks.map fun t => (t.gid, t.act.turns.length, t.serving)) =
      [(counterGrain.id "k", 2, true)] ∧ ¬b'.HandedOver := by
  have hrun : ((exec Rebalancer.step callerHolds referenceKept).map fun b' =>
      (b'.pass.map fun p =>
        (p.started, p.phase, p.ring.movesAway b'.localSiloId (counterGrain.id "k")),
        b'.silo.tasks.map fun t => (t.gid, t.act.turns.length, t.serving))) =
      some (some (1, .returned, true), [(counterGrain.id "k", 2, true)]) := by
    decide +kernel
  obtain ⟨b', hb', hmap⟩ := map_eq_some_iff.mp hrun
  obtain ⟨hpass, htasks⟩ := Prod.mk.inj hmap
  obtain ⟨p, hp, hp'⟩ := map_eq_some_iff.mp hpass
  obtain ⟨hstarted, hphase, haway⟩ : p.started = 1 ∧ p.phase = .returned ∧
      p.ring.movesAway b'.localSiloId (counterGrain.id "k") = true := by
    simpa using hp'
  have hget := congrArg (·[0]?) htasks
  rw [getElem?_map] at hget
  obtain ⟨t, ht, ht'⟩ := map_eq_some_iff.mp hget
  obtain ⟨hgid, -, hserving⟩ : t.gid = counterGrain.id "k" ∧ t.act.turns.length = 2 ∧
      t.serving = true := by
    simpa using ht'
  refine ⟨b', hb', htasks, fun hover => ?_⟩
  have hover' := hover p hp hphase 0 t (by omega) ht (by rw [hgid]; exact haway)
  rw [hserving] at hover'
  cases hover'

end Rebalancer

/-! ## Deactivation and placement -/

namespace Node

variable (node : Node S)

/-- `ClusterSilo::get_ref` activates the grain on the silo itself : it is placed there, or
nowhere. -/
def placesLocally (G : GrainType S) (key : String) (draw : ℕ) : Prop :=
  ∀ target, node.place G key draw = some target → target.siloId = node.localAddr.siloId

def withStrategy (strategy : ℕ → PlacementStrategy) (draw : ℕ) : Node S :=
  { node with placement := strategy draw }

/-- A grain that the rebalancer deactivates is placed elsewhere, by its hint or by the strategy of
the silo. -/
def Leaves (strategy : ℕ → PlacementStrategy) (G : GrainType S) (key : String) : Prop :=
  match G.placementHint with
  | some "prefer_local" => False
  | some "random" => ∀ m ∈ node.ring.members, m.siloId ≠ node.localAddr.siloId
  | _ => ∀ draw, ∃ target, strategy draw G.grainTypeName key node.localAddr.siloId node.ring =
      some target ∧ target.siloId ≠ node.localAddr.siloId

variable {node} {G : GrainType S}

theorem place_preferLocal (hG : G.placementHint = some "prefer_local") (key draw) :
    node.placesLocally G key draw := by
  intro target htarget
  simp only [place, hG, preferLocalPlacement] at htarget
  simpa using find?_some htarget

theorem place_random (node : Node S) (hG : G.placementHint = some "random") (key)
    (draw) : node.place G key draw = node.ring.members[draw % node.ring.members.length]? := by
  simp only [place, hG, randomPlacement]

theorem leaves_iff {strategy : ℕ → PlacementStrategy} {key}
    (hmembers : node.ring.members ≠ []) : node.Leaves strategy G key ↔
      ∀ draw, ¬(node.withStrategy strategy draw).placesLocally G key draw := by
  unfold Leaves
  split
  · rename_i hG
    exact ⟨False.elim, fun h => h 0 (place_preferLocal hG key 0)⟩
  · rename_i hG
    constructor
    · intro h draw hlocal
      have hlt := Nat.mod_lt draw (length_pos_of_ne_nil hmembers)
      exact h _ (getElem_mem hlt) (hlocal _
        ((place_random _ hG key draw).trans (getElem?_eq_getElem hlt)))
    · intro h m hm hid
      obtain ⟨i, hi⟩ := getElem?_of_mem hm
      refine h i fun target htarget => ?_
      have hpl : node.ring.members[i % node.ring.members.length]? = some target :=
        (place_random (node.withStrategy strategy i) hG key i).symm.trans htarget
      rw [Nat.mod_eq_of_lt (lt_of_getElem? hi), hi] at hpl
      rw [← some.inj hpl]
      exact hid
  · rename_i hlocal hrandom
    have hpl : ∀ draw, (node.withStrategy strategy draw).place G key draw =
        strategy draw G.grainTypeName key node.localAddr.siloId node.ring := by
      intro draw
      unfold place
      split
      · exact absurd ‹_› hlocal
      · exact absurd ‹_› hrandom
      · rfl
    refine forall_congr' fun draw => ?_
    simp only [placesLocally, hpl, not_forall, exists_prop]
    rfl

end Node

theorem HashRing.members_ne_nil_of_movesAway {r : HashRing} {localSiloId} {gid}
    (h : r.movesAway localSiloId gid = true) : r.members ≠ [] := by
  unfold movesAway at h
  split at h
  · rename_i target hget
    obtain ⟨m, hm, -⟩ := exists_mem_members (mem_values_of_get hget)
    exact ne_nil_of_mem hm
  · cases h

def RebalancePhase.todo : RebalancePhase → List GrainId
  | .removing todo _ | .removed _ todo _ | .waiting _ todo _ => todo
  | .returned => []

namespace Rebalancer

variable {b b' : Rebalancer S} {e : RebalanceEvent S} {localSiloId : String}

/-- The pass under way has loaded the ring `r`, and takes the activation of the grain out of
the directory next. -/
def Deactivates (b : Rebalancer S) (r : HashRing) (gid : GrainId) : Prop :=
  ∃ started todo deadline, b.pass = some ⟨r, started, .removing (gid :: todo) deadline⟩ ∧
    gid ∈ b.silo.activations

/-- In a run of the silo, its passes deactivate the grain only if `ClusterSilo::get_ref` on
`node`, with the ring of the pass, cannot place it on the silo again. -/
def Agrees (node : Node S) (strategy : ℕ → PlacementStrategy) (G : GrainType S) (key : String) :
    Prop :=
  ∀ (b b' : Rebalancer S) (es : List (RebalanceEvent S)), b.pass = none →
    b.localSiloId = node.localAddr.siloId → exec Rebalancer.step b es = some b' →
    b'.Deactivates node.ring (G.id key) →
    ∀ draw, ¬(node.withStrategy strategy draw).placesLocally G key draw

theorem PassMove.todo_subset {phase phase' s}
    (h : b.PassMove phase e s phase') : phase'.todo ⊆ phase.todo := by
  cases h with
  | detach | gone => exact subset_cons_self _ _
  | _ => exact List.Subset.refl _

/-- The pass deactivates only grains that have moved on the ring it has loaded. -/
structure Filtered (localSiloId : String) (b : Rebalancer S) : Prop where
  siloId : b.localSiloId = localSiloId
  todo : ∀ p, b.pass = some p → ∀ gid ∈ p.phase.todo, p.ring.movesAway localSiloId gid = true

theorem Filtered.step (h : b.Filtered localSiloId) (hstep : b.step e = some b') :
    b'.Filtered localSiloId := by
  cases move_of_step hstep with
  | @rebalance ids _ =>
    refine ⟨h.siloId, ?_⟩
    rintro p hp gid hgid
    cases hp
    have hmem : gid ∈ b.toRemove ids := by
      dsimp only at hgid
      split_ifs at hgid
      · cases hgid
      · exact hgid
    exact h.siloId ▸ (mem_filter.mp hmem).2
  | pass hp hmove =>
    refine ⟨h.siloId, ?_⟩
    rintro q hq gid hgid
    cases hq
    exact h.todo _ hp gid (hmove.todo_subset hgid)
  | _ => exact ⟨h.siloId, h.todo⟩

theorem Filtered.movesAway (h : b.Filtered localSiloId) {r gid}
    (hgid : b.Deactivates r gid) : r.movesAway localSiloId gid = true := by
  obtain ⟨started, todo, deadline, hp, -⟩ := hgid
  exact h.todo _ hp gid mem_cons_self

def activated (node : Node S) (G : GrainType S) (key : String) : Rebalancer S where
  localSiloId := node.localAddr.siloId
  silo := ((Silo.init Shared.empty).activate (G.id key) (.plain G.grain)).2
  workerPools := []
  ring := node.ring
  now := 0
  pass := none

theorem exists_deactivates (node) (G : GrainType S) (key)
    (haway : node.ring.movesAway node.localAddr.siloId (G.id key) = true) :
    ∃ b', exec Rebalancer.step (activated node G key) [.rebalance [G.id key]] = some b' ∧
      b'.Deactivates node.ring (G.id key) := by
  have hremove : (activated node G key).toRemove [G.id key] = [G.id key] := by
    simp [toRemove, activated, haway]
  have hkeys : (activated node G key).silo.activations.keys = [G.id key] := rfl
  have hids : (activated node G key).isGrainIds [G.id key] = true := by
    simp [isGrainIds, hkeys, show (activated node G key).workerPools = [] from rfl]
  have hstep : (activated node G key).step (.rebalance [G.id key]) =
      some { activated node G key with
        pass := some ⟨node.ring, (activated node G key).silo.tasks.length,
          .removing [G.id key] ((activated node G key).now + grace)⟩ } := by
    simp only [step, hremove, hids]
    rfl
  refine ⟨_, exec_cons_eq_some.mpr ⟨_, hstep, rfl⟩, _, _, _, rfl, ?_⟩
  exact AList.mem_keys.mpr (hkeys ▸ mem_cons_self)

/-- Rebalancer and placement agree on a grain exactly if it stays on the ring, or
`ClusterSilo::get_ref` cannot place it on the silo. -/
theorem agrees_iff (node : Node S) (strategy : ℕ → PlacementStrategy) (G : GrainType S)
    (key : String) : Agrees node strategy G key ↔
      (node.ring.movesAway node.localAddr.siloId (G.id key) = true →
        node.Leaves strategy G key) := by
  constructor
  · intro h haway
    obtain ⟨b', hb', hgid⟩ := exists_deactivates node G key haway
    exact (Node.leaves_iff (HashRing.members_ne_nil_of_movesAway haway)).mpr
      (h _ b' _ rfl rfl hb' hgid)
  · intro h b b' es hb hid hrun hgid
    have hstart : b.Filtered node.localAddr.siloId := by
      refine ⟨hid, fun p hp => ?_⟩
      rw [hb] at hp
      cases hp
    have haway := (exec_invariant_of_step (fun _ _ _ h => h.step) hstart hrun).movesAway hgid
    exact (Node.leaves_iff (HashRing.members_ne_nil_of_movesAway haway)).mp (h haway)

open Cluster in
/-- The ring gives the front grain to the second silo : a pass deactivates it on the first, and
`get_ref` there places it there again. -/
theorem prefer_local_deactivated :
    ¬Agrees (exampleNode siloA (.init Shared.empty)) (fun _ => hashBasedPlacement) frontGrain "f" ∧
    (exec Rebalancer.step (activated (exampleNode siloA (.init Shared.empty)) frontGrain "f")
      [.rebalance [frontGrain.id "f"], .remove]).map (fun b => b.silo.activations.keys) =
      some [] ∧
    ∀ draw, (exampleNode siloA (.init Shared.empty)).place frontGrain "f" draw = some siloA := by
  have hplace : ∀ draw,
      (exampleNode siloA (.init Shared.empty)).place frontGrain "f" draw = some siloA := by
    have hlocal : preferLocalPlacement "Front" "f" "silo-a" twoRing = some siloA := by
      decide +kernel
    exact fun _ => hlocal
  refine ⟨fun h => ?_, by decide +kernel, hplace⟩
  obtain ⟨b', hb', hgid⟩ := exists_deactivates (exampleNode siloA (.init Shared.empty)) frontGrain
    "f" (by decide +kernel)
  exact h _ b' _ rfl rfl hb' hgid 0 (Node.place_preferLocal rfl "f" 0)

end Rebalancer

end Orlando
