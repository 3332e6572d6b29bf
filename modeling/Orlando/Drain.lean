import Orlando.SiloTasks
import Orlando.Sweep

/-!
# Draining a silo

`GrainDirectory::drain` sets a flag, takes every activation out of the directory, waits for their
tasks and aborts those that take too long, and then does away with the worker pools, shard by shard,
while calls go on.

A call of `get_or_insert` that has found the flag unset still creates an activation, and
`get_or_insert_pool` does not look at the flag. What is entered so stays when the drain has returned
(`drain_not_final`).
-/

namespace Orlando

open AList Option

variable {S : Type}

/-- Where `drain` is : not called, at the activations, waiting for their tasks, at the pools, or
over. -/
inductive DrainPhase where
  | running
  | activations (sweep : Sweep GrainId) (tasks : List ℕ)
  | waiting (tasks : List ℕ)
  | pools (sweep : Sweep GrainId) (workers : List ℕ)
  | returned
deriving DecidableEq

/-- What a drain has done when it is there : it will come to every activation, then there is none,
and the same for the pools. -/
def DrainPhase.Swept (A P : Sharding GrainId) (activated pooled : GrainId → Prop) :
    DrainPhase → Prop
  | running => True
  | activations sweep _ => sweep.Covers A activated
  | waiting _ => ∀ gid, ¬activated gid
  | pools sweep _ => (∀ gid, ¬activated gid) ∧ sweep.Covers P pooled
  | returned => (∀ gid, ¬activated gid) ∧ ∀ gid, ¬pooled gid

theorem DrainPhase.Swept.mono {A P}
    {activated activated' pooled pooled' : GrainId → Prop} {phase : DrainPhase}
    (h : phase.Swept A P activated pooled) (ha : ∀ gid, activated' gid → activated gid)
    (hp : ∀ gid, pooled' gid → pooled gid) : phase.Swept A P activated' pooled' := by
  cases phase with
  | running => trivial
  | activations sweep tasks => exact Sweep.Covers.mono h ha
  | waiting tasks => exact fun gid hgid => h gid (ha gid hgid)
  | pools sweep workers => exact ⟨fun gid hgid => h.1 gid (ha gid hgid), Sweep.Covers.mono h.2 hp⟩
  | returned => exact ⟨fun gid hgid => h.1 gid (ha gid hgid), fun gid hgid => h.2 gid (hp gid hgid)⟩

structure PoolWorker where
  gid : GrainId
  closed : Bool

structure DrainRun (S : Type) where
  silo : Silo S
  pools : AList fun _ : GrainId => List ℕ
  workers : List PoolWorker
  /-- Pools that a call of `remove` has found without open workers, and has yet to take out. -/
  dead : List GrainId
  phase : DrainPhase
  /-- How many tasks had been created when the flag was set. -/
  atFlag : Option ℕ

inductive DrainEvent (S : Type) where
  | silo (e : SiloEvent S)
  | getOrInsertPool (gid : GrainId) (poolSize : ℕ)
  | workerEnds (i : ℕ)
  /-- The task of a worker calls `remove`, which begins with the activation of its grain. -/
  | workerRemoves (i : ℕ)
  /-- `remove` finds the pool without open workers. -/
  | findDead (gid : GrainId)
  | removePool (gid : GrainId)
  | startDrain
  | drain
  /-- The next task has not ended in time. -/
  | timeout

namespace DrainRun

def init (m : Shared) : DrainRun S where
  silo := .init m
  pools := ∅
  workers := []
  dead := []
  phase := .running
  atFlag := none

variable (A P : Sharding GrainId) (s : DrainRun S)

def created : ℕ :=
  s.silo.tasks.length + s.workers.length

def anyAlive (pool : List ℕ) : Bool :=
  pool.any fun i => (s.workers[i]?).any fun w => !w.closed

def createPool (gid : GrainId) (poolSize : ℕ) : DrainRun S :=
  { s with
    pools := s.pools.insert gid (List.range' s.workers.length poolSize)
    workers := s.workers ++ List.replicate poolSize ⟨gid, false⟩ }

def taskOver (i : ℕ) : Bool :=
  (s.silo.tasks[i]?).all fun t => !t.running

def endWorker (i : ℕ) : List PoolWorker :=
  s.workers.modify i fun w => { w with closed := true }

def drainStep : Option (DrainRun S) :=
  match s.phase with
  | .running => none
  | .activations (.collecting shard keys) tasks =>
    if shard < A.count then
      let found := s.silo.activations.keys.filter fun gid => (A.shardOf gid : ℕ) = shard
      some { s with phase := .activations (.collecting (shard + 1) (keys ++ found)) tasks }
    else some { s with phase := .activations (.removing keys) tasks }
  | .activations (.removing (gid :: todo)) tasks =>
    match s.silo.activations.lookup gid with
    | some i =>
      (s.silo.step (.detach gid)).map fun silo =>
        { s with silo := silo, phase := .activations (.removing todo) (tasks ++ [i]) }
    | none => some { s with phase := .activations (.removing todo) tasks }
  | .activations (.removing []) tasks => some { s with phase := .waiting tasks }
  | .waiting (i :: tasks) =>
    if s.taskOver i then some { s with phase := .waiting tasks } else none
  | .waiting [] => some { s with phase := .pools (.collecting 0 []) [] }
  | .pools sweep (i :: workers) =>
    some { s with workers := s.endWorker i, phase := .pools sweep workers }
  | .pools (.collecting shard keys) [] =>
    if shard < P.count then
      let found := s.pools.keys.filter fun gid => (P.shardOf gid : ℕ) = shard
      some { s with phase := .pools (.collecting (shard + 1) (keys ++ found)) [] }
    else some { s with phase := .pools (.removing keys) [] }
  | .pools (.removing (gid :: todo)) [] =>
    match s.pools.lookup gid with
    | some pool => some { s with pools := s.pools.erase gid, phase := .pools (.removing todo) pool }
    | none => some { s with phase := .pools (.removing todo) [] }
  | .pools (.removing []) [] => some { s with phase := .returned }
  | .returned => none

def step : DrainEvent S → Option (DrainRun S)
  | .silo .startDrain => none
  | .silo .restart => none
  | .silo e => (s.silo.step e).map fun silo => { s with silo := silo }
  | .getOrInsertPool gid poolSize =>
    match s.pools.lookup gid with
    | some pool => if s.anyAlive pool then some s else some (s.createPool gid poolSize)
    | none => some (s.createPool gid poolSize)
  | .workerEnds i => some { s with workers := s.endWorker i }
  | .workerRemoves i =>
    match s.workers[i]? with
    | some w =>
      if w.closed then none
      else some { s with silo := { s.silo with activations := s.silo.activations.erase w.gid } }
    | none => none
  | .findDead gid =>
    match s.pools.lookup gid with
    | some pool => if s.anyAlive pool then none else some { s with dead := s.dead ++ [gid] }
    | none => none
  | .removePool gid =>
    if gid ∈ s.dead then some { s with pools := s.pools.erase gid, dead := s.dead.erase gid }
    else none
  | .startDrain =>
    match s.phase with
    | .running =>
      some { s with
        silo := { s.silo with draining := true }
        phase := .activations (.collecting 0 []) []
        atFlag := some s.created }
    | _ => none
  | .drain => drainStep A P s
  | .timeout =>
    match s.phase with
    | .waiting (i :: tasks) =>
      (s.silo.step (.abort i)).map fun silo => { s with silo := silo, phase := .waiting tasks }
    | _ => none

/-- No task is created once the flag is set, and nothing is left when the drain has returned. -/
structure Final (s : DrainRun S) : Prop where
  created : ∀ n, s.atFlag = some n → s.created = n
  activations : s.phase = .returned → ∀ gid, gid ∉ s.silo.activations
  pools : s.phase = .returned → ∀ gid, gid ∉ s.pools

/-- Once the flag is set, a call at the entry of its grain finds an open activation there, and a
call for a pool finds one with an open worker. -/
def isSealed : DrainEvent S → Bool
  | .silo (.enter k) => !s.silo.draining || (s.silo.calls[k]?).all fun c =>
      (s.silo.openTask c.gid).isSome
  | .getOrInsertPool gid _ => !s.silo.draining || (s.pools.lookup gid).any s.anyAlive
  | _ => true

/-- What holds of every run that is sealed. -/
structure Inv : Prop where
  named : s.silo.Named
  flag : s.silo.draining = true ∨ s.phase = .running ∧ s.atFlag = none
  created : ∀ n, s.atFlag = some n → s.created = n
  swept : s.phase.Swept A P (· ∈ s.silo.activations) (· ∈ s.pools)

variable {A P} {s} {s' : DrainRun S} {e : DrainEvent S} {gid : GrainId}

theorem Inv.final (h : Inv A P s) : s.Final where
  created := h.created
  activations hp := by
    have hsw := h.swept
    rw [hp] at hsw
    exact hsw.1
  pools hp := by
    have hsw := h.swept
    rw [hp] at hsw
    exact hsw.2

theorem inv_init (m) : Inv A P (init m : DrainRun S) where
  named _ _ hl := by cases hl
  flag := .inr ⟨rfl, rfl⟩
  created _ hn := by cases hn
  swept := trivial

theorem Inv.kept (h : Inv A P s) (hph : s'.phase = s.phase)
    (hdraining : s'.silo.draining = s.silo.draining) (hflag : s'.atFlag = s.atFlag)
    (hnamed : s'.silo.Named) (hcreated : s'.created = s.created)
    (ha : ∀ gid, gid ∈ s'.silo.activations → gid ∈ s.silo.activations)
    (hp : ∀ gid, gid ∈ s'.pools → gid ∈ s.pools) : Inv A P s' where
  named := hnamed
  flag := hdraining ▸ hph ▸ hflag ▸ h.flag
  created n hn := hcreated.trans (h.created n (hflag ▸ hn))
  swept := hph ▸ h.swept.mono ha hp

theorem Inv.running (h : Inv A P s) (hd : s.silo.draining = false) (hp : s'.phase = s.phase)
    (hflag : s'.atFlag = s.atFlag) (hnamed : s'.silo.Named) : Inv A P s' := by
  obtain ⟨hr, hnone⟩ : s.phase = .running ∧ s.atFlag = none :=
    h.flag.resolve_left (by simp [hd])
  refine ⟨hnamed, .inr ⟨hp.trans hr, hflag.trans hnone⟩, fun n hn => ?_, ?_⟩
  · rw [hflag, hnone] at hn
    cases hn
  · rw [hp, hr]
    trivial

theorem length_endWorker (i) : (s.endWorker i).length = s.workers.length :=
  List.length_modify _ _ _

theorem Inv.siloStep (h : Inv A P s) {e silo}
    (hs : s.silo.step e = some silo) (hdrain : e ≠ .startDrain) (hrestart : e ≠ .restart)
    (hsealed : s.isSealed (.silo e) = true) : Inv A P { s with silo := silo } := by
  have hsd := Silo.step_sound hs
  have hnamed := hsd.keepsGrains.named h.named
  have hdraining := Silo.draining_of_step hs hdrain hrestart
  rcases hsd.created_or_kept with ⟨k, gid, kind, rfl, hk, ho⟩ | ⟨hlen, hact⟩
  · refine h.running ?_ rfl rfl hnamed
    simpa [isSealed, hk, ho] using hsealed
  · refine h.kept rfl hdraining rfl hnamed ?_ hact fun _ hgid => hgid
    rw [DrainRun.created, hlen, DrainRun.created]

theorem Inv.createPool (h : Inv A P s) {poolSize}
    (hsealed : s.isSealed (.getOrInsertPool gid poolSize) = true)
    (hpool : (s.pools.lookup gid).any s.anyAlive = false) :
    Inv A P (s.createPool gid poolSize) := by
  refine h.running ?_ rfl rfl h.named
  simpa [isSealed, hpool] using hsealed

theorem Inv.advance (h : Inv A P s) (hd : s'.silo.draining = true) (hflag : s'.atFlag = s.atFlag)
    (hnamed : s'.silo.Named) (hcreated : s'.created = s.created)
    (hswept : s'.phase.Swept A P (· ∈ s'.silo.activations) (· ∈ s'.pools)) : Inv A P s' where
  named := hnamed
  flag := .inl hd
  created n hn := hcreated.trans (h.created n (hflag ▸ hn))
  swept := hswept

theorem mem_filter_shard {d : Sharding GrainId} {keys : List GrainId} {shard}
    (hmem : gid ∈ keys) (hshard : (d.shardOf gid : ℕ) = shard) :
    gid ∈ keys.filter fun gid => (d.shardOf gid : ℕ) = shard :=
  List.mem_filter.mpr ⟨hmem, by simpa using hshard⟩

theorem Inv.draining_of_drainStep (h : Inv A P s) (hstep : drainStep A P s = some s') :
    s.silo.draining = true := by
  refine h.flag.resolve_right fun hrun => ?_
  simp [DrainRun.drainStep, hrun.1] at hstep

theorem Inv.drainStep (h : Inv A P s) (hs : drainStep A P s = some s') : Inv A P s' := by
  have hd := h.draining_of_drainStep hs
  have hsw := h.swept
  unfold DrainRun.drainStep at hs
  split at hs
  next => cases hs
  next shard keys tasks hp =>
    rw [hp] at hsw
    split_ifs at hs with hlt
    · cases hs
      exact h.advance hd rfl h.named rfl (Sweep.Covers.collect hsw fun gid hgid =>
        mem_filter_shard (mem_keys.mp hgid))
    · cases hs
      exact h.advance hd rfl h.named rfl (Sweep.Covers.collected hsw (Nat.le_of_not_lt hlt))
  next gid todo tasks hp =>
    rw [hp] at hsw
    split at hs
    next i hl =>
      obtain ⟨silo, hdetach, rfl⟩ := map_eq_some_iff.mp hs
      have hnamed := (Silo.step_sound hdetach).keepsGrains.named h.named
      cases Silo.move_of_step hdetach with
      | detach =>
        refine h.advance hd rfl hnamed ?_ (Sweep.Covers.remove (d := A) hsw fun gid' hgid' =>
          mem_erase.mp hgid')
        rw [DrainRun.created, List.length_set, DrainRun.created]
    next hl =>
      cases hs
      exact h.advance hd rfl h.named rfl (Sweep.Covers.skip (d := A) hsw (lookup_eq_none.mp hl))
  next tasks hp =>
    rw [hp] at hsw
    cases hs
    exact h.advance hd rfl h.named rfl (Sweep.Covers.done (d := A) hsw)
  next i tasks hp =>
    rw [hp] at hsw
    split_ifs at hs
    cases hs
    exact h.advance hd rfl h.named rfl hsw
  next hp =>
    rw [hp] at hsw
    cases hs
    exact h.advance hd rfl h.named rfl ⟨hsw, Sweep.covers_start⟩
  next sweep i workers hp =>
    rw [hp] at hsw
    cases hs
    refine h.advance hd rfl h.named ?_ hsw
    rw [DrainRun.created, length_endWorker, DrainRun.created]
  next shard keys hp =>
    rw [hp] at hsw
    split_ifs at hs with hlt
    · cases hs
      exact h.advance hd rfl h.named rfl ⟨hsw.1, Sweep.Covers.collect hsw.2 fun gid hgid =>
        mem_filter_shard (mem_keys.mp hgid)⟩
    · cases hs
      exact h.advance hd rfl h.named rfl
        ⟨hsw.1, Sweep.Covers.collected hsw.2 (Nat.le_of_not_lt hlt)⟩
  next gid todo hp =>
    rw [hp] at hsw
    split at hs
    next pool hl =>
      cases hs
      exact h.advance hd rfl h.named rfl ⟨hsw.1, Sweep.Covers.remove hsw.2 fun gid' hgid' =>
        mem_erase.mp hgid'⟩
    next hl =>
      cases hs
      exact h.advance hd rfl h.named rfl
        ⟨hsw.1, Sweep.Covers.skip hsw.2 (lookup_eq_none.mp hl)⟩
  next hp =>
    rw [hp] at hsw
    cases hs
    exact h.advance hd rfl h.named rfl ⟨hsw.1, Sweep.Covers.done hsw.2⟩
  next => cases hs

theorem Inv.step (h : Inv A P s) (hsealed : s.isSealed e = true) (hs : step A P s e = some s') :
    Inv A P s' := by
  cases e with
  | silo e =>
    have hsilo : e ≠ .startDrain → e ≠ .restart →
        (s.silo.step e).map (fun silo => { s with silo := silo }) = some s' → Inv A P s' := by
      intro hdrain hrestart hmap
      obtain ⟨silo, hsilo, rfl⟩ := map_eq_some_iff.mp hmap
      exact h.siloStep hsilo hdrain hrestart hsealed
    cases e with
    | startDrain | restart => cases hs
    | _ => exact hsilo (by simp) (by simp) hs
  | getOrInsertPool gid poolSize =>
    simp only [DrainRun.step] at hs
    split at hs
    next pool hl =>
      split_ifs at hs with halive
      · exact some.inj hs ▸ h
      · exact some.inj hs ▸ h.createPool hsealed (by simp [hl, halive])
    next hl => exact some.inj hs ▸ h.createPool hsealed (by simp [hl])
  | workerEnds i =>
    cases hs
    refine h.kept rfl rfl rfl h.named ?_ (fun _ hgid => hgid) fun _ hgid => hgid
    rw [DrainRun.created, length_endWorker, DrainRun.created]
  | workerRemoves i =>
    simp only [DrainRun.step] at hs
    split at hs
    next w hw =>
      split_ifs at hs
      cases hs
      exact h.kept rfl rfl rfl (fun gid j hl => h.named gid j (lookup_of_erase hl)) rfl
        (fun _ hgid => (mem_erase.mp hgid).2) fun _ hgid => hgid
    next => cases hs
  | findDead gid =>
    simp only [DrainRun.step] at hs
    split at hs
    next pool hl =>
      split_ifs at hs
      cases hs
      exact h.kept rfl rfl rfl h.named rfl (fun _ hgid => hgid) fun _ hgid => hgid
    next => cases hs
  | removePool gid =>
    simp only [DrainRun.step] at hs
    split_ifs at hs
    cases hs
    exact h.kept rfl rfl rfl h.named rfl (fun _ hgid => hgid) fun _ hgid => (mem_erase.mp hgid).2
  | startDrain =>
    simp only [DrainRun.step] at hs
    split at hs
    next =>
      cases hs
      exact ⟨h.named, .inl rfl, fun n hn => some.inj hn, Sweep.covers_start⟩
    next => cases hs
  | drain => exact h.drainStep hs
  | timeout =>
    simp only [DrainRun.step] at hs
    split at hs
    next i tasks hp =>
      obtain ⟨silo, habort, rfl⟩ := map_eq_some_iff.mp hs
      have hnamed := (Silo.step_sound habort).keepsGrains.named h.named
      have hsw := h.swept
      rw [hp] at hsw
      cases Silo.move_of_step habort with
      | abort =>
        refine h.advance (h.flag.resolve_right fun hrun => ?_) rfl hnamed ?_ hsw
        · simp [hp] at hrun
        · rw [DrainRun.created, List.length_set, DrainRun.created]
    next => cases hs

/-- A drain leaves nothing behind in a run in which no call that found the flag unset enters an
activation, and none a pool. -/
theorem drain_final_of_sealed (A P : Sharding GrainId) (m : Shared) (es : List (DrainEvent S))
    (h : Along (step A P) (fun s e => s.isSealed e = true) (init m) es) :
    Throughout (step A P) Final (init m) es :=
  throughout_of_invariant (I := Inv A P) (fun _ hI => hI.final)
    (fun _ _ _ hsealed hI hstep => hI.step hsealed hstep) es _ (inv_init m) h

def oneShard : Sharding GrainId where
  count := 1
  shardOf := fun _ => 0

def idler : Grain Unit where
  default := ()
  onActivate := .ok
  onDeactivate := .ok
  reentrant := false

/-- A drain of one activation, which is aborted, and of one pool, and a call after it. -/
def drained : List (DrainEvent Unit) :=
  [.silo (.getOrInsert ⟨"Idler", "a"⟩ (.plain idler)), .silo (.checkLimit 0), .silo (.enter 0),
    .getOrInsertPool ⟨"Worker", "w"⟩ 2, .startDrain, .drain, .drain, .drain, .drain, .timeout,
    .drain, .drain, .drain, .drain, .drain, .drain, .drain,
    .silo (.getOrInsert ⟨"Idler", "a"⟩ (.plain idler))]

theorem drained_final : ∃ s, exec (step oneShard oneShard) (init .empty) drained = some s ∧
    s.phase = .returned ∧ Throughout (step oneShard oneShard) Final (init .empty) drained := by
  obtain ⟨s, hs, hphase⟩ : ∃ s, exec (step oneShard oneShard) (init .empty) drained = some s ∧
      s.phase = .returned :=
    map_eq_some_iff.mp (by decide +kernel)
  exact ⟨s, hs, hphase, drain_final_of_sealed oneShard oneShard .empty drained (by decide +kernel)⟩

def drainOfNothing : List (DrainEvent Unit) :=
  [.startDrain, .drain, .drain, .drain, .drain, .drain, .drain, .drain]

/-- A call that has passed the test of the flag creates an activation when the drain has returned,
and a call for a pool does so without a test. -/
theorem drain_not_final :
    (∃ s, exec (step oneShard oneShard) (init .empty)
        ([.silo (.getOrInsert ⟨"Idler", "a"⟩ (.plain idler)), .silo (.checkLimit 0)] ++
          drainOfNothing ++ [.silo (.enter 0)]) = some s ∧
      s.phase = .returned ∧ s.silo.activations.keys = [⟨"Idler", "a"⟩] ∧ ¬s.Final) ∧
    ∃ s, exec (step oneShard oneShard) (init .empty)
        (drainOfNothing ++ [.getOrInsertPool ⟨"Worker", "w"⟩ 2]) = some s ∧
      s.phase = .returned ∧ s.pools.keys = [⟨"Worker", "w"⟩] ∧ ¬s.Final := by
  constructor
  · obtain ⟨s, hs, hview⟩ : ∃ s, exec (step oneShard oneShard) (init .empty)
        ([.silo (.getOrInsert ⟨"Idler", "a"⟩ (.plain idler)), .silo (.checkLimit 0)] ++
          drainOfNothing ++ [.silo (.enter 0)]) = some s ∧
        (s.phase, s.silo.activations.keys) = (.returned, [⟨"Idler", "a"⟩]) :=
      map_eq_some_iff.mp (by decide +kernel)
    obtain ⟨hphase, hkeys⟩ := Prod.mk.inj hview
    refine ⟨s, hs, hphase, hkeys, fun hfinal => hfinal.activations hphase ⟨"Idler", "a"⟩ ?_⟩
    exact mem_keys.mpr (hkeys ▸ List.mem_singleton_self _)
  · obtain ⟨s, hs, hview⟩ : ∃ s, exec (step oneShard oneShard) (init .empty)
        (drainOfNothing ++ [.getOrInsertPool ⟨"Worker", "w"⟩ 2]) = some s ∧
        (s.phase, s.pools.keys) = (.returned, [⟨"Worker", "w"⟩]) :=
      map_eq_some_iff.mp (by decide +kernel)
    obtain ⟨hphase, hkeys⟩ := Prod.mk.inj hview
    refine ⟨s, hs, hphase, hkeys, fun hfinal => hfinal.pools hphase ⟨"Worker", "w"⟩ ?_⟩
    exact mem_keys.mpr (hkeys ▸ List.mem_singleton_self _)

end DrainRun
end Orlando
