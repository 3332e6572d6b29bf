import Orlando.Transition

/-!
# Pools whose workers have ended

The task of a worker ends with `remove`, which takes the pool of its grain id out of the directory
if every worker's receiver is gone. Its own receiver goes only when the task returns, so none of the
workers takes the pool out (`pool_left_behind`).
-/

namespace Orlando

open List

/-- Where the task of a worker is : out of its loop, after its look for open receivers, back from
`remove`, or without its receiver. -/
inductive WorkerPhase where
  | serving
  | left
  | looked (allClosed : Bool)
  | removed
  | ended
deriving DecidableEq

/-- What the directory has under a grain id, in `activations` and in `worker_pools`, and the
workers of the pool. -/
structure PoolRun where
  activated : Bool
  pooled : Bool
  workers : List WorkerPhase
deriving DecidableEq

inductive PoolEvent where
  | leave (i : ℕ)
  | look (i : ℕ)
  | remove (i : ℕ)
  | finish (i : ℕ)
  /-- The id is activated as a grain that is no worker. -/
  | activate
  | removeElsewhere

namespace PoolRun

def start (poolSize : ℕ) : PoolRun :=
  ⟨false, true, List.replicate poolSize .serving⟩

variable (s : PoolRun)

def allClosed : Bool :=
  s.workers.all (· = .ended)

def inGrainIds : Bool :=
  s.activated || s.pooled

def step : PoolEvent → Option PoolRun
  | .leave i =>
    if s.workers[i]? = some .serving then some { s with workers := s.workers.set i .left } else none
  | .look i =>
    if s.workers[i]? = some .left then
      some { s with activated := false, workers := s.workers.set i (.looked s.allClosed) }
    else none
  | .remove i =>
    match s.workers[i]? with
    | some (.looked closed) =>
      some { s with pooled := s.pooled && !closed, workers := s.workers.set i .removed }
    | _ => none
  | .finish i =>
    if s.workers[i]? = some .removed then some { s with workers := s.workers.set i .ended }
    else none
  | .activate => some { s with activated := true }
  | .removeElsewhere => some { s with activated := false, pooled := s.pooled && !s.allClosed }

/-- A call of `remove` by another task has found all workers ended. -/
def RemovedAfter (n : ℕ) (es : List PoolEvent) : Prop :=
  ∃ pre post u, es = pre ++ .removeElsewhere :: post ∧ exec step (start n) pre = some u ∧
    u.allClosed = true

variable {s} {s' : PoolRun} {e : PoolEvent} {es : List PoolEvent} {n i : ℕ} {w : WorkerPhase}

theorem removedAfter_snoc (hs : exec step (start n) es = some s) : RemovedAfter n (es ++ [e]) ↔
    RemovedAfter n es ∨ e = .removeElsewhere ∧ s.allClosed = true := by
  constructor
  · rintro ⟨pre, post, u, heq, hu, hcl⟩
    rcases snoc_eq_append_cons.mp heq with ⟨rfl, rfl, -⟩ | ⟨post', -, rfl⟩
    · cases hs.symm.trans hu
      exact Or.inr ⟨rfl, hcl⟩
    · exact Or.inl ⟨pre, post', u, rfl, hu, hcl⟩
  · rintro (⟨pre, post, u, rfl, hu, hcl⟩ | ⟨rfl, hcl⟩)
    · exact ⟨pre, post ++ [e], u, by simp, hu, hcl⟩
    · exact ⟨es, [], s, rfl, hs, hcl⟩

/-- No worker has found all receivers gone. -/
def NoneSeen (s : PoolRun) : Prop :=
  ∀ w ∈ s.workers, w ≠ .looked true

theorem NoneSeen.set (h : s.NoneSeen) (hw : w ≠ .looked true) {activated pooled} :
    NoneSeen ⟨activated, pooled, s.workers.set i w⟩ := by
  intro w' hw'
  rcases mem_or_eq_of_mem_set hw' with hw' | rfl
  · exact h w' hw'
  · exact hw

theorem step_spec (h : s.NoneSeen) (hs : s.step e = some s') : s'.NoneSeen ∧
    (s'.pooled = false ↔ s.pooled = false ∨ e = .removeElsewhere ∧ s.allClosed = true) := by
  revert hs
  fun_cases step s e <;> intro hs <;> cases hs
  next => exact ⟨h.set (by simp), by simp⟩
  next i hi =>
    -- The worker has its own receiver.
    have hopen : s.allClosed = false := by
      rw [allClosed, all_eq_false]
      exact ⟨_, mem_of_getElem? hi, by simp⟩
    exact ⟨h.set (by simp [hopen]), by simp⟩
  next i closed hi =>
    obtain rfl : closed = false := by
      have := h _ (mem_of_getElem? hi)
      simpa using this
    exact ⟨h.set (by simp), by simp⟩
  next => exact ⟨h.set (by simp), by simp⟩
  next => exact ⟨h, by simp⟩
  next => exact ⟨h, by cases s.pooled <;> simp⟩

/-- A pool is taken out exactly if another task calls `remove` for its id once all workers have
ended. -/
theorem pool_unlisted_iff (n : ℕ) (es : List PoolEvent) (s : PoolRun)
    (hrun : exec step (start n) es = some s) :
    (s.pooled = false ↔ RemovedAfter n es) ∧
      (s.inGrainIds = false ↔ RemovedAfter n es ∧ s.activated = false) := by
  have hspec : s.NoneSeen ∧ (s.pooled = false ↔ RemovedAfter n es) := by
    refine exec_induction (I := fun es s => s.NoneSeen ∧ (s.pooled = false ↔ RemovedAfter n es))
      ⟨fun w hw => ?_, ?_⟩ (fun es u e v hu ih hstep => ?_) hrun
    · rw [eq_of_mem_replicate hw]
      nofun
    · simp [start, RemovedAfter]
    · obtain ⟨hseen, hiff⟩ := step_spec ih.1 hstep
      exact ⟨hseen, by rw [hiff, ih.2, removedAfter_snoc hu]⟩
  refine ⟨hspec.2, ?_⟩
  rw [inGrainIds, Bool.or_eq_false_iff, hspec.2, and_comm]

/-- The worker of a pool of one ends, and its id is activated and deactivated. -/
theorem single_unlisted : ∃ s, exec step (start 1) [.leave 0, .look 0, .remove 0, .finish 0,
    .activate, .removeElsewhere] = some s ∧ s.inGrainIds = false := by
  refine ⟨_, rfl, (pool_unlisted_iff 1 _ _ rfl).2.mpr ⟨⟨[.leave 0, .look 0, .remove 0, .finish 0,
    .activate], [], _, rfl, rfl, by decide⟩, rfl⟩⟩

/-- The only worker of a pool ends, and the pool stays. -/
theorem pool_left_behind : exec step (start 1) [.leave 0, .look 0, .remove 0, .finish 0] =
    some ⟨false, true, [.ended]⟩ ∧ inGrainIds ⟨false, true, [.ended]⟩ = true := by
  decide

end PoolRun

end Orlando
