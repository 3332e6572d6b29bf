import Mathlib.Data.List.Perm.Basic
import Orlando.SingleActivation

/-!
# The limit of activations

`get_or_insert` looks at the size of the map, and then at the entry of the grain. Calls that have
looked and not yet entered (`admitted`) may all find room, and enter.
-/

namespace Orlando

open List Option AList

variable {S : Type}

namespace Silo

/-- The calls that have looked at the limit and are about to enter. -/
def admitted (s : Silo S) : ℕ :=
  s.calls.countP (·.stage == .entry)

/-- The limit is not set again, and a call looks at it while at most `w` others are about to
enter. -/
def Spaced (w : ℕ) (s : Silo S) : SiloEvent S → Prop
  | .checkLimit _ => s.admitted ≤ w
  | .setMaxActivations _ | .restart => False
  | _ => True

instance (w : ℕ) (s : Silo S) : (e : SiloEvent S) → Decidable (s.Spaced w e)
  | .checkLimit _ => inferInstanceAs (Decidable (_ ≤ _))
  | .setMaxActivations _ | .restart => isFalse id
  | .getOrInsert .. | .enter _ | .send .. | .dropRef _ | .recv _ | .mailbox .. | .detach _
  | .abort _ | .startDrain => isTrue trivial

def Refused (s : Silo S) (k : ℕ) : Prop :=
  s.step (.checkLimit k) = some { s with calls := s.calls.eraseIdx k }

variable {s s' : Silo S} {e : SiloEvent S} {k : ℕ} {gid : GrainId} {c : Call S}
  {kind : MailboxKind S}

variable (s) in
theorem existing_eq (gid) : ∃ tasks, s.existing gid = { s with tasks := tasks } := by
  unfold existing
  split
  · exact ⟨_, rfl⟩
  · exact ⟨s.tasks, rfl⟩

theorem countP_eraseIdx (hk : s.calls[k]? = some c) :
    (s.calls.eraseIdx k).countP (·.stage == .entry) + (if c.stage == .entry then 1 else 0) =
      s.admitted := by
  obtain ⟨hlt, rfl⟩ := List.getElem?_eq_some_iff.mp hk
  rw [admitted, ← (getElem_cons_eraseIdx_perm hlt).countP_eq, countP_cons]

variable (s) in
theorem length_afterMailbox (gid ev) :
    (s.afterMailbox gid ev).keys.length ≤ s.activations.keys.length := by
  cases ev with
  | remove => exact (keys_erase gid s.activations ▸ length_erase_le)
  | _ => exact Nat.le_refl _

theorem step_checkLimit_eq (hk : s.calls[k]? = some ⟨gid, kind, .limit⟩) :
    s.step (.checkLimit k) =
      if 0 < s.maxActivations ∧ s.maxActivations ≤ s.activations.keys.length then
        some { s.existing gid with calls := s.calls.eraseIdx k }
      else some { s with calls := s.calls.set k ⟨gid, kind, .entry⟩ } := by
  simp only [step, hk]

/-- The limit, and the entries with the calls that may add to them. -/
structure Room (n w : ℕ) (s : Silo S) : Prop where
  limit : s.maxActivations = n
  room : s.activations.keys.length + s.admitted ≤ n + w

theorem Room.step {n w} (hn : 0 < n) (h : s.Room n w) (he : s.Spaced w e)
    (hs : s.step e = some s') : s'.Room n w := by
  obtain ⟨hmax, hroom⟩ := h
  cases move_of_step hs with
  | @draining gid kind hd =>
    obtain ⟨tasks, heq⟩ := s.existing_eq gid
    rw [heq]
    exact ⟨hmax, hroom⟩
  | called hd =>
    refine ⟨hmax, ?_⟩
    simpa [admitted] using hroom
  | @full k gid kind hk | @found k gid kind r hk ho =>
    obtain ⟨tasks, heq⟩ := s.existing_eq gid
    rw [heq]
    have hcount := countP_eraseIdx hk
    refine ⟨hmax, ?_⟩
    change s.activations.keys.length + (s.calls.eraseIdx k).countP _ ≤ _
    omega
  | @admitted k gid kind hk =>
    rw [step_checkLimit_eq hk] at hs
    split_ifs at hs with hfull
    · have hlen := congrArg (fun u : Silo S => u.calls.length) (some.inj hs)
      have hlt := lt_of_getElem? hk
      simp [length_eraseIdx_of_lt hlt] at hlen
      omega
    · have hlt := lt_of_getElem? hk
      have hcount := countP_eraseIdx hk
      refine ⟨hmax, ?_⟩
      change s.activations.keys.length + (s.calls.set k _).countP _ ≤ _
      rw [(set_perm_cons_eraseIdx hlt _).countP_eq, countP_cons]
      simp only [Spaced] at he
      simp at hcount ⊢
      omega
  | @spawned k gid kind hk ho =>
    have hcount := countP_eraseIdx hk
    have hkeys : (s.activations.insert gid s.tasks.length).keys.length ≤
        s.activations.keys.length + 1 := by
      rw [keys_insert, length_cons]
      exact Nat.succ_le_succ length_erase_le
    refine ⟨hmax, ?_⟩
    change (s.activations.insert gid s.tasks.length).keys.length + (s.calls.eraseIdx k).countP _ ≤ _
    simp only [BEq.rfl, if_true] at hcount
    omega
  | @mailbox i t ev a m hi hen hab hev =>
    have hle := s.length_afterMailbox t.gid ev
    exact ⟨hmax, Nat.le_trans (Nat.add_le_add_right hle _) hroom⟩
  | @detach gid i t hl hi =>
    have hle := s.length_afterMailbox gid .remove
    exact ⟨hmax, Nat.le_trans (Nat.add_le_add_right hle _) hroom⟩
  | setMaxActivations | restart => cases he
  | _ => exact ⟨hmax, hroom⟩

theorem refused_iff (hk : s.calls[k]? = some ⟨gid, kind, .limit⟩) :
    s.Refused k ↔ (0 < s.maxActivations ∧ s.maxActivations ≤ s.activations.keys.length) ∧
      s.openTask gid = none := by
  have hlt := lt_of_getElem? hk
  rw [Refused, step_checkLimit_eq hk]
  split_ifs with hfull
  · rw [and_iff_right hfull, some.injEq]
    constructor
    · intro heq
      cases ho : s.openTask gid with
      | none => rfl
      | some r =>
        obtain ⟨-, hi, -⟩ := openTask_eq_some.mp ho
        obtain ⟨hl, hr⟩ := List.getElem?_eq_some_iff.mp hi
        have htasks := congrArg (fun u : Silo S => u.tasks[r.1]?.map Task.refs) heq
        simp [existing, ho, hl, hr] at htasks
    · intro ho
      simp only [existing, ho]
  · refine iff_of_false (fun heq => ?_) fun h => hfull h.1
    have hl := congrArg (fun u : Silo S => u.calls.length) (some.inj heq)
    simp [length_eraseIdx_of_lt hlt] at hl
    omega

/-- The limit is exceeded by no more than the calls that are between their two looks at a time,
beyond one. -/
theorem activation_limit {n w : ℕ} (hn : 0 < n) {m : Shared} {es : List (SiloEvent S)}
    (hrun : exec step { init m with maxActivations := n } es = some s)
    (hspaced : Along step (Spaced w) { init m with maxActivations := n } es) :
    s.activations.keys.length ≤ n + w ∧
      ∀ k gid kind, s.calls[k]? = some ⟨gid, kind, .limit⟩ → gid ∈ s.activations →
        (s.Refused k ↔ n ≤ s.activations.keys.length ∧ s.stale gid = true) := by
  have hinit : Room n w { (init m : Silo S) with maxActivations := n } := ⟨rfl, Nat.zero_le _⟩
  have hroom := exec_invariant (fun _ _ _ he hI hstep => hI.step hn he hstep) hinit hspaced hrun
  refine ⟨Nat.le_trans (Nat.le_add_right _ _) hroom.room, fun k gid kind hk hmem => ?_⟩
  obtain ⟨i, hl⟩ := isSome_iff_exists.mp (lookup_isSome.mpr hmem)
  have hinit' : exec step (init m) (.setMaxActivations n :: es) = some s := hrun
  obtain ⟨t, hi, -⟩ := live_eq_some.mp (served_of_run hinit' gid i hl)
  have hstale : s.openTask gid = none ↔ s.stale gid = true :=
    ⟨fun ho => stale_of_entry ho hl hi, fun h => (openTask_of_stale h).1⟩
  rw [refused_iff hk, hroom.limit, and_iff_right hn, hstale]

/-- Calls for two counters one after the other, in a silo with room for one. -/
def inTurn : List (SiloEvent UInt8) :=
  getOrInsert ⟨"Counter", "a"⟩ plainKind ++ [.getOrInsert ⟨"Counter", "b"⟩ plainKind, .checkLimit 0]

theorem activation_limit_inTurn :
    ∃ s, exec step { init Shared.empty with maxActivations := 1 } inTurn = some s ∧
      s.activations.keys.length ≤ 1 :=
  have hrun : exec step { init Shared.empty with maxActivations := 1 } inTurn = some _ := rfl
  ⟨_, hrun, (activation_limit Nat.one_pos hrun (by decide +kernel : Along step (Spaced 0) _ _)).1⟩

/-- Two calls look at the limit of one before either enters, and a call for a grain that holds the
last entry is refused. -/
theorem limit_exceeded :
    (∃ s : Silo UInt8, exec step { init Shared.empty with maxActivations := 1 }
        [.getOrInsert ⟨"Counter", "a"⟩ plainKind, .getOrInsert ⟨"Counter", "b"⟩ plainKind,
          .checkLimit 0, .checkLimit 1, .enter 0, .enter 0] = some s ∧
      s.activations.keys.length = 2) ∧
    ∃ s : Silo UInt8, exec step { init Shared.empty with maxActivations := 1 }
        (getOrInsert ⟨"Counter", "a"⟩ storedKind ++
          [.mailbox 0 (.load none), .mailbox 0 (.onActivate 0), .mailbox 0 .idleTimeout,
            .getOrInsert ⟨"Counter", "a"⟩ storedKind]) = some s ∧
      ⟨"Counter", "a"⟩ ∈ s.activations ∧ s.Refused 0 :=
  ⟨⟨_, rfl, rfl⟩, _, rfl, by decide +kernel, rfl⟩

end Silo

end Orlando
