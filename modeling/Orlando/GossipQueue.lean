import Orlando.Swim

/-!
# The queue of gossip

`enqueue_gossip` puts an update at the end of the queue, and lets the oldest go if there are 1024.
`drain_gossip` takes updates off the front.
-/

namespace Orlando

open List Function

inductive QueueCall where
  | enqueue (update : GossipUpdate)
  | drain (n : ℕ)

/-- A silo, with what was enqueued and drained, and what has left the queue, each with whether it
was drained. -/
structure QueueRun where
  swim : SwimState
  enqueued : List GossipUpdate
  drained : List GossipUpdate
  left : List (GossipUpdate × Bool)

namespace QueueRun

def init (localAddr : SiloAddress) : QueueRun :=
  ⟨.new localAddr, [], [], []⟩

variable (r : QueueRun)

/-- A full queue drops its first update. -/
def dropped : List GossipUpdate :=
  if maxPendingGossip ≤ r.swim.pendingGossip.length then r.swim.pendingGossip.take 1 else []

def step : QueueCall → QueueRun
  | .enqueue update =>
    { r with
      swim := r.swim.enqueueGossip update
      enqueued := r.enqueued ++ [update]
      left := r.left ++ r.dropped.map (·, false) }
  | .drain n =>
    let (updates, swim) := r.swim.drainGossip n
    { r with
      swim := swim
      drained := r.drained ++ updates
      left := r.left ++ updates.map (·, true) }

/-- Every update that was enqueued, with whether it was not dropped. -/
def fates : List (GossipUpdate × Bool) :=
  r.left ++ r.swim.pendingGossip.map (·, true)

structure Inv : Prop where
  bounded : r.swim.pendingGossip.length ≤ maxPendingGossip
  enqueued : r.fates.map Prod.fst = r.enqueued
  drained : (r.left.filter Prod.snd).map Prod.fst = r.drained

variable {r}

theorem pendingGossip_enqueue (update) :
    r.dropped ++ (r.step (.enqueue update)).swim.pendingGossip =
      r.swim.pendingGossip ++ [update] := by
  simp only [step, SwimState.enqueueGossip, dropped, ge_iff_le]
  split_ifs
  · rw [← append_assoc, ← drop_one, take_append_drop]
  · rfl

theorem length_enqueue (h : r.swim.pendingGossip.length ≤ maxPendingGossip)
    (update) : (r.step (.enqueue update)).swim.pendingGossip.length =
      if r.dropped = [] then r.swim.pendingGossip.length + 1 else maxPendingGossip := by
  have hlength := congrArg List.length (pendingGossip_enqueue (r := r) update)
  rw [length_append, length_append, length_singleton] at hlength
  split_ifs with hnil
  · simpa [hnil] using hlength
  · have hfull : maxPendingGossip ≤ r.swim.pendingGossip.length := by
      by_contra hlt
      exact hnil (if_neg hlt)
    have hone : r.dropped.length = 1 := by
      rw [dropped, if_pos hfull, length_take, h.antisymm hfull]
      rfl
    omega

theorem Inv.enqueue (h : r.Inv) (update) : (r.step (.enqueue update)).Inv where
  bounded := by
    rw [length_enqueue h.bounded]
    split_ifs with hnil
    · have htake : r.swim.pendingGossip.length < maxPendingGossip ∨ r.swim.pendingGossip = [] := by
        simpa [dropped, imp_iff_not_or] using hnil
      rcases htake with hlt | hempty
      · exact hlt
      · rw [hempty]
        decide
    · exact le_rfl
  enqueued := by
    have henqueued := h.enqueued
    simp only [fates, map_append, map_map, comp_def, map_id'] at henqueued
    simp only [fates, QueueRun.step, map_append, map_map, comp_def, map_id', append_assoc]
    rw [← henqueued, append_assoc]
    exact congrArg _ (pendingGossip_enqueue update)
  drained := by
    refine Eq.trans ?_ h.drained
    simp [QueueRun.step, filter_map, comp_def]

theorem Inv.drain (h : r.Inv) (n) : (r.step (.drain n)).Inv where
  bounded := length_drop.trans_le ((Nat.sub_le _ _).trans h.bounded)
  enqueued := by
    refine Eq.trans ?_ h.enqueued
    simp [fates, QueueRun.step, SwimState.drainGossip]
  drained := by
    refine Eq.trans ?_ (congrArg (· ++ (r.swim.drainGossip n).1) h.drained)
    simp [QueueRun.step, filter_map, comp_def]

theorem inv_foldl (localAddr) (calls : List QueueCall) :
    (calls.foldl step (init localAddr)).Inv := by
  refine List.foldlRecOn calls _ ⟨Nat.zero_le _, rfl, rfl⟩ fun r h call _ => ?_
  cases call with
  | enqueue update => exact h.enqueue update
  | drain n => exact h.drain n

/-- What was drained and what is queued is what was enqueued, in order, without what was dropped,
and whenever an update is dropped there are 1024 newer ones. -/
theorem gossip_queue_fifo (localAddr : SiloAddress) (calls : List QueueCall) :
    let r := calls.foldl step (init localAddr)
    r.swim.pendingGossip.length ≤ 1024 ∧ r.fates.map Prod.fst = r.enqueued ∧
      (r.fates.filter Prod.snd).map Prod.fst = r.drained ++ r.swim.pendingGossip ∧
      ∀ call, ∃ gone, (r.step call).left = r.left ++ gone ∧ ∀ x ∈ gone, x.2 = false →
        (r.step call).swim.pendingGossip.length = 1024 := by
  intro r
  have h : r.Inv := inv_foldl localAddr calls
  refine ⟨h.bounded, h.enqueued, ?_, fun call => ?_⟩
  · rw [← h.drained]
    simp [fates, filter_map, comp_def]
  · cases call with
    | enqueue update =>
      refine ⟨_, rfl, fun x hx _ => (length_enqueue h.bounded update).trans (if_neg ?_)⟩
      exact ne_nil_of_mem (mem_map.mp hx).choose_spec.1
    | drain n =>
      refine ⟨_, rfl, fun x hx hfalse => ?_⟩
      obtain ⟨y, -, rfl⟩ := mem_map.mp hx
      cases hfalse

end QueueRun

end Orlando
