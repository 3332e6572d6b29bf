import Mathlib.Data.Int.CardIntervalMod
import Orlando.Drain

/-!
# Messages to a pool of workers

`get_worker_ref` hands out the senders of a pool as long as one of them is open, and makes a new
pool otherwise. The reference sends its messages in turns that a counter gives out, and does not
look whether the receiver is gone. `ask` takes the turn modulo the size of the pool, which panics if
there is no worker; `tell` tests for that first.
-/

namespace Orlando

open List

variable {S : Type}

/-- `WorkerGrainRef`. Its clones share the counter. -/
structure WorkerGrainRef where
  senders : List ℕ
  next : ℕ

inductive WorkerMethod where
  | ask
  | tell
deriving DecidableEq

/-- What comes of a message : it is in the mailbox of a worker, by its place in the pool. -/
inductive WorkerSend where
  | panicked
  | mailboxClosed
  | enqueued (idx : ℕ)
deriving DecidableEq

namespace WorkerGrainRef

def new (senders : List ℕ) : WorkerGrainRef :=
  ⟨senders, 0⟩

variable (alive : ℕ → Bool)

/-- The message of a turn. Without senders the remainder panics. -/
def turn (senders : List ℕ) (n : ℕ) : WorkerSend :=
  let idx := n % senders.length
  match senders[idx]? with
  | some i => if alive i then .enqueued idx else .mailboxClosed
  | none => .panicked

def send (r : WorkerGrainRef) : WorkerMethod → WorkerSend × WorkerGrainRef
  | .ask => (turn alive r.senders r.next, { r with next := (r.next + 1) % 2 ^ 64 })
  | .tell =>
    if r.senders.isEmpty then (.mailboxClosed, r)
    else (turn alive r.senders r.next, { r with next := (r.next + 1) % 2 ^ 64 })

def sendAll : WorkerGrainRef → List WorkerMethod → List WorkerSend
  | _, [] => []
  | r, m :: ms => (r.send alive m).1 :: sendAll (r.send alive m).2 ms

variable {alive} {senders : List ℕ} {ms : List WorkerMethod} {n : ℕ}

theorem send_of_ne_nil (h : senders ≠ []) (m) : send alive ⟨senders, n⟩ m =
    (turn alive senders n, ⟨senders, (n + 1) % 2 ^ 64⟩) := by
  cases m with
  | ask => rfl
  | tell => exact if_neg (by simpa using h)

theorem sendAll_of_ne_nil (h : senders ≠ []) (hn : n < 2 ^ 64) :
    sendAll alive ⟨senders, n⟩ ms =
      (List.range ms.length).map fun k => turn alive senders ((n + k) % 2 ^ 64) := by
  induction ms generalizing n with
  | nil => rfl
  | cons m ms ih =>
    rw [sendAll, send_of_ne_nil h, ih (Nat.mod_lt _ (by decide)), length_cons,
      range_succ_eq_map, map_cons, map_map]
    refine congrArg₂ _ ?_ (map_congr_left fun k _ => ?_)
    · simp only [Nat.add_zero, Nat.mod_eq_of_lt hn]
    · simp only [Function.comp, Nat.mod_add_mod, Nat.succ_eq_add_one, Nat.add_right_comm n,
        Nat.add_assoc]

theorem sendAll_nil (ms) : sendAll alive ⟨[], n⟩ ms =
    ms.map fun m => if m = .ask then .panicked else .mailboxClosed := by
  induction ms generalizing n with
  | nil => rfl
  | cons m ms ih => cases m <;> exact congrArg _ ih

theorem turn_eq (h : senders ≠ []) : ∃ i, senders[n % senders.length]? = some i ∧
    turn alive senders n = if alive i then .enqueued (n % senders.length) else .mailboxClosed := by
  have hlt := Nat.mod_lt n (length_pos_of_ne_nil h)
  have hi := getElem?_eq_getElem hlt
  exact ⟨_, hi, by simp only [turn, hi]⟩

theorem count_sendAll_le (hms : ms.length < 2 ^ 64) (hall : ∀ i ∈ senders, alive i = true)
    {a b} (ha : a < senders.length) (hb : b < senders.length) :
    (sendAll alive (.new senders) ms).count (.enqueued a) ≤
      (sendAll alive (.new senders) ms).count (.enqueued b) + 1 := by
  have hne : senders ≠ [] := ne_nil_of_length_pos (Nat.zero_lt_of_lt ha)
  have hturn : ∀ k < ms.length, turn alive senders ((0 + k) % 2 ^ 64) =
      .enqueued (k % senders.length) := fun k hk => by
    rw [Nat.zero_add, Nat.mod_eq_of_lt (hk.trans hms)]
    obtain ⟨i, hi, heq⟩ : ∃ i, _ ∧ turn alive senders k = _ := turn_eq hne
    rw [heq, if_pos (hall i (mem_of_getElem? hi))]
  have hcount : ∀ c < senders.length, (sendAll alive (.new senders) ms).count (.enqueued c) =
      ms.length.count (· ≡ c [MOD senders.length]) := fun c hc => by
    rw [new, sendAll_of_ne_nil hne (by decide), count_eq_countP, countP_map, Nat.count]
    refine countP_congr fun k hk => ?_
    rw [Function.comp, hturn k (mem_range.mp hk)]
    simp [Nat.ModEq, Nat.mod_eq_of_lt hc]
  have hpos := length_pos_of_ne_nil hne
  rw [hcount a ha, hcount b hb, Nat.count_modEq_card _ hpos, Nat.count_modEq_card _ hpos]
  split_ifs <;> omega

end WorkerGrainRef

namespace DrainRun

variable (s : DrainRun S) (gid : GrainId) (poolSize : ℕ)

def alive (i : ℕ) : Bool :=
  (s.workers[i]?).any fun w => !w.closed

def getWorkerRef : DrainRun S × WorkerGrainRef :=
  let created :=
    (s.createPool gid poolSize, .new (List.range' s.workers.length poolSize))
  match s.pools.lookup gid with
  | some pool => if s.anyAlive pool then (s, .new pool) else created
  | none => created

theorem getWorkerRef_spec : ∃ senders, (s.getWorkerRef gid poolSize).2 = .new senders ∧
    (senders = [] ∨ senders.any (s.getWorkerRef gid poolSize).1.alive = true) := by
  have hcreated : ∃ senders, WorkerGrainRef.new (List.range' s.workers.length poolSize) =
      .new senders ∧ (senders = [] ∨ senders.any (s.createPool gid poolSize).alive = true) := by
    refine ⟨_, rfl, ?_⟩
    cases poolSize with
    | zero => exact Or.inl rfl
    | succ n => simp [range'_succ, createPool, alive, replicate_succ]
  unfold getWorkerRef
  split
  · split_ifs with hany
    · exact ⟨_, rfl, Or.inr hany⟩
    · exact hcreated
  · exact hcreated

/-- The message was put into the mailbox of an open worker, if there is one, and did not panic. -/
def Serves (senders : List ℕ) (sent : WorkerSend) : Prop :=
  sent ≠ .panicked ∧ (senders.any s.alive = true →
    ∃ idx i, sent = .enqueued idx ∧ senders[idx]? = some i ∧ s.alive i = true)

variable {s} in
theorem serves_turn_iff {senders} (hne : senders ≠ []) (hany : senders.any s.alive = true)
    {n} : s.Serves senders (WorkerGrainRef.turn s.alive senders n) ↔
      ∀ i ∈ senders[n % senders.length]?, s.alive i = true := by
  obtain ⟨i, hi, heq⟩ : ∃ i, _ ∧ WorkerGrainRef.turn s.alive senders n = _ :=
    WorkerGrainRef.turn_eq hne
  rw [heq, hi, Serves]
  by_cases hal : s.alive i = true
  · simp [hal, hi]
  · simp [hal, hany]

/-- Which messages get to a worker. If all are open, the turns are even. -/
theorem worker_ref_serves_iff (ms : List WorkerMethod) :
    let t := (s.getWorkerRef gid poolSize).1
    let ref := (s.getWorkerRef gid poolSize).2
    ((∀ sent ∈ ref.sendAll t.alive ms, t.Serves ref.senders sent) ↔
      (ref.senders = [] → .ask ∉ ms) ∧ ∀ k < ms.length,
        ∀ i ∈ ref.senders[k % 2 ^ 64 % ref.senders.length]?, t.alive i = true) ∧
    (ms.length < 2 ^ 64 → (∀ i ∈ ref.senders, t.alive i = true) →
      ∀ a < ref.senders.length, ∀ b < ref.senders.length,
        (ref.sendAll t.alive ms).count (.enqueued a) ≤
          (ref.sendAll t.alive ms).count (.enqueued b) + 1) := by
  obtain ⟨senders, hnew, hpool⟩ := s.getWorkerRef_spec gid poolSize
  intro t ref
  have href : ref = .new senders := hnew
  rw [href]
  refine ⟨?_, fun hms hall a ha b hb => WorkerGrainRef.count_sendAll_le hms hall ha hb⟩
  rcases hpool with rfl | hany
  · rw [WorkerGrainRef.new, WorkerGrainRef.sendAll_nil]
    have hserves : ∀ m : WorkerMethod,
        t.Serves [] (if m = .ask then .panicked else .mailboxClosed) ↔ m ≠ .ask := fun m => by
      cases m <;> simp [Serves]
    rw [forall_mem_map]
    refine ⟨fun h => ⟨fun _ hmem => (hserves _).mp (h _ hmem) rfl, fun _ _ i hi => by cases hi⟩,
      fun h m hm => (hserves m).mpr ?_⟩
    rintro rfl
    exact h.1 rfl hm
  · have hne : senders ≠ [] := by
      rintro rfl
      cases hany
    rw [WorkerGrainRef.new, WorkerGrainRef.sendAll_of_ne_nil hne (by decide)]
    simp only [forall_mem_map, mem_range, Nat.zero_add, hne, false_imp_iff, true_and]
    exact forall₂_congr fun k _ => serves_turn_iff hne hany

/-- A pool of two workers, the first of which may be gone. -/
def hashers (closed : Bool) : DrainRun Unit :=
  { init .empty with
    pools := (∅ : AList fun _ : GrainId => List ℕ).insert ⟨"Hasher", "h"⟩ [0, 1]
    workers := [⟨⟨"Hasher", "h"⟩, closed⟩, ⟨⟨"Hasher", "h"⟩, false⟩] }

theorem hashers_even :
    let sends := WorkerGrainRef.sendAll (hashers false).alive (.new [0, 1]) [.ask, .tell, .ask]
    sends = [.enqueued 0, .enqueued 1, .enqueued 0] ∧
      sends.count (.enqueued 0) ≤ sends.count (.enqueued 1) + 1 :=
  ⟨rfl, ((hashers false).worker_ref_serves_iff ⟨"Hasher", "h"⟩ 2 [.ask, .tell, .ask]).2
    (by decide) (by decide +kernel) 0 (by decide +kernel) 1 (by decide +kernel)⟩

/-- The first message goes to a worker that is gone, while the other waits for messages. And an
`ask` to a pool of no workers panics. -/
theorem first_worker_gone :
    (hashers true).getWorkerRef ⟨"Hasher", "h"⟩ 2 = (hashers true, .new [0, 1]) ∧
    (hashers true).alive 1 = true ∧
    WorkerGrainRef.sendAll (hashers true).alive (.new [0, 1]) [.ask] = [.mailboxClosed] ∧
    WorkerGrainRef.sendAll (hashers true).alive
      ((hashers true).getWorkerRef ⟨"Empty", "e"⟩ 0).2 [.ask] = [.panicked] :=
  ⟨rfl, rfl, rfl, rfl⟩

end DrainRun

end Orlando
