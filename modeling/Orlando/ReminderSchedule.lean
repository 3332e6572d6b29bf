import Orlando.Reminders

/-!
# When reminders fire

A poll loads copies of the registrations that are due, comes to one after the other, and then sets
each to its next time.
-/

namespace Orlando

open List Option AList InMemoryReminderStore

variable {S : Type}

def ReminderRegistration.key (r : ReminderRegistration) : GrainId × String :=
  (r.grainId, r.name)

namespace PollPhase

def due : PollPhase → List ReminderRegistration
  | idle => []
  | dispatching _ due | updating _ _ _ due => due

/-- The copy that the poll has come to and is still to set to its next time. -/
def pending : PollPhase → List ReminderRegistration
  | updating _ reg _ _ => [reg]
  | _ => []

def now : PollPhase → ℕ
  | idle => 0
  | dispatching now _ | updating now _ _ _ => now

end PollPhase

/-! ## The course of one reminder -/

/-- What the store has under a key, the poll loop, how many polls have begun, and which of them
have come to the key, each with its reading of the clock, newest first. -/
structure Course where
  stored : Option ReminderRegistration
  poll : PollPhase
  polls : ℕ
  turns : List (ℕ × ℕ)

namespace Course

/-- The steps without a registration under the key, and with a removal only if `removal` holds. -/
inductive Shift (key : GrainId × String) (removal : Prop) : Course → Course → Prop
  | keep {c} : Shift key removal c c
  | remove {c} (h : removal) : Shift key removal c { c with stored := none }
  | load {r k ts now due} (hdue : ∀ x ∈ due, x.key = key → r = some x ∧ x.dueAt ≤ now)
    (hd : (due.map ReminderRegistration.key).Nodup) :
    Shift key removal ⟨r, .idle, k, ts⟩ ⟨r, .dispatching now due, k + 1, ts⟩
  | done {r k ts now} : Shift key removal ⟨r, .dispatching now [], k, ts⟩ ⟨r, .idle, k, ts⟩
  | come {r k ts now reg tick due} :
    Shift key removal ⟨r, .dispatching now (reg :: due), k, ts⟩
      ⟨r, .updating now reg tick due, k, (if reg.key = key then [(k, now)] else []) ++ ts⟩
  | set {r k ts now reg tick due} :
    Shift key removal ⟨r, .updating now reg tick due, k, ts⟩
      ⟨if reg.key = key then r.map ({ · with dueAt := now + reg.period }) else r,
        .dispatching now due, k, ts⟩

structure Gone (key : GrainId × String) (n : Option ℕ) (old : List (ℕ × ℕ)) (c : Course) :
    Prop where
  absent : c.stored = none
  held : ∀ x ∈ c.poll.pending ++ c.poll.due, x.key = key → some c.polls = n
  turned : ∀ a ∈ c.turns, a ∈ old ∨ some a.1 = n

structure Spaced (key : GrainId × String) (t p : ℕ) (c : Course) : Prop where
  single : ((c.poll.pending ++ c.poll.due).map ReminderRegistration.key).count key ≤ 1
  turned : c.turns.Pairwise fun b a => a.1 < b.1 ∧ a.2 + p ≤ b.2
  since : ∀ a ∈ c.turns, a.1 ≤ c.polls ∧ t + p ≤ a.2
  stored : ∀ r, c.stored = some r → r.period = p ∧ t + p ≤ r.dueAt ∧
    ((∀ x ∈ c.poll.pending, x.key ≠ key) → ∀ a ∈ c.turns, a.2 + p ≤ r.dueAt)
  due : ∀ x ∈ c.poll.due, x.key = key → x.period = p ∧ t + p ≤ c.poll.now ∧
    ∀ a ∈ c.turns, a.1 < c.polls ∧ a.2 + p ≤ c.poll.now
  pending : ∀ x ∈ c.poll.pending, x.key = key → x.period = p ∧ t + p ≤ c.poll.now ∧
    ∀ a ∈ c.turns, a.2 ≤ c.poll.now

structure Stands (r : ReminderRegistration) (n : ℕ) (c : Course) : Prop where
  stored : c.stored = some r
  le : n ≤ c.polls
  pending : ∀ x ∈ c.poll.pending, x.key ≠ r.key
  due : ∀ x ∈ c.poll.due, x.key = r.key → n < c.polls

variable {key : GrainId × String} {removal : Prop} {c c' : Course} {t p n : ℕ}

theorem Shift.turns_subset (hs : Shift key removal c c') : c.turns ⊆ c'.turns := by
  cases hs with
  | come => exact subset_append_right _ _
  | _ => exact List.Subset.refl _

theorem Gone.shift {n old} (hs : Shift key removal c c')
    (h : Gone key n old c) : Gone key n old c' := by
  obtain ⟨absent, held, turned⟩ := h
  cases hs with
  | keep => exact ⟨absent, held, turned⟩
  | remove => exact ⟨rfl, held, turned⟩
  | load hdue =>
    refine ⟨absent, fun x hx hk => ?_, turned⟩
    cases absent.symm.trans (hdue x hx hk).1
  | done => exact ⟨absent, nofun, turned⟩
  | @come r k ts now reg tick due =>
    refine ⟨absent, held, fun a ha => (mem_append.mp ha).elim (fun ha => ?_) (turned a)⟩
    split_ifs at ha with hk
    · rw [mem_singleton.mp ha]
      exact Or.inr (held reg mem_cons_self hk)
    · cases ha
  | @set r =>
    refine ⟨?_, fun x hx => held x (mem_cons_of_mem _ hx), turned⟩
    change r = none at absent
    rw [absent]
    split_ifs <;> rfl

theorem Stands.shift {r} (hs : Shift r.key False c c') (h : Stands r n c)
    (hts : ∀ a ∈ c'.turns, a.1 ≤ n) : Stands r n c' := by
  obtain ⟨stored, le, pending, due⟩ := h
  cases hs with
  | keep => exact ⟨stored, le, pending, due⟩
  | remove h => exact h.elim
  | load => exact ⟨stored, le.trans (Nat.le_succ _), nofun, fun _ _ _ => Nat.lt_succ_of_le le⟩
  | done => exact ⟨stored, le, nofun, nofun⟩
  | @come _ k ts now reg tick rest =>
    refine ⟨stored, le, fun x hx hk => ?_, fun x hx => due x (mem_cons_of_mem _ hx)⟩
    rw [mem_singleton.mp hx] at hk
    rw [if_pos hk] at hts
    exact absurd (hts _ mem_cons_self) (Nat.not_le.mpr (due reg mem_cons_self hk))
  | @set _ k ts now reg tick rest =>
    refine ⟨?_, le, nofun, due⟩
    rw [if_neg (pending reg mem_cons_self)]
    exact stored

theorem Spaced.come {r k ts now reg tick rest}
    (h : Spaced key t p ⟨r, .dispatching now (reg :: rest), k, ts⟩) : Spaced key t p
      ⟨r, .updating now reg tick rest, k, (if reg.key = key then [(k, now)] else []) ++ ts⟩ := by
  obtain ⟨single, turned, since, stored, due, -⟩ := h
  split_ifs with hk
  · -- The reminder comes up, and there is no other copy of it.
    obtain ⟨hperiod, hnow, hts⟩ := due reg mem_cons_self hk
    refine ⟨single, pairwise_cons.mpr ⟨hts, turned⟩,
      forall_mem_cons.mpr ⟨⟨le_rfl, hnow⟩, since⟩, fun r hr => ⟨(stored r hr).1,
        (stored r hr).2.1, fun hne => absurd hk (hne reg mem_cons_self)⟩,
      fun x hx hxk => ?_, fun x hx _ => ?_⟩
    · have hpos : 0 < (rest.map ReminderRegistration.key).count key :=
        count_pos_iff.mpr (mem_map.mpr ⟨x, hx, hxk⟩)
      have hcount : (reg.key :: rest.map ReminderRegistration.key).count key ≤ 1 := single
      rw [hk, count_cons_self] at hcount
      omega
    · rw [mem_singleton.mp hx]
      refine ⟨hperiod, hnow, forall_mem_cons.mpr ⟨le_rfl, fun a ha => ?_⟩⟩
      exact (Nat.le_add_right _ _).trans (hts a ha).2
  · refine ⟨single, turned, since, fun r hr => ⟨(stored r hr).1, (stored r hr).2.1,
      fun _ => (stored r hr).2.2 nofun⟩, fun x hx => due x (mem_cons_of_mem _ hx),
      fun x hx hxk => ?_⟩
    exact absurd (mem_singleton.mp hx ▸ hxk) hk

theorem Spaced.shift (hs : Shift key removal c c') (h : Spaced key t p c) : Spaced key t p c' := by
  cases hs with
  | come => exact h.come
  | keep => exact h
  | remove => exact ⟨h.single, h.turned, h.since, nofun, h.due, h.pending⟩
  | load hdue hd =>
    refine ⟨nodup_iff_count_le_one.mp hd key, h.turned,
      fun a ha => (h.since a ha).imp_left fun hle => hle.trans (Nat.le_succ _),
      h.stored, fun x hx hk => ?_, nofun⟩
    obtain ⟨hr, hle⟩ := hdue x hx hk
    obtain ⟨hperiod, hdueAt, hts⟩ := h.stored x hr
    refine ⟨hperiod, hdueAt.trans hle, fun a ha => ⟨Nat.lt_succ_of_le (h.since a ha).1, ?_⟩⟩
    exact (hts nofun a ha).trans hle
  | done => exact ⟨Nat.zero_le _, h.turned, h.since, h.stored, nofun, nofun⟩
  | @set r k ts now reg tick rest =>
    obtain ⟨single, turned, since, stored, due, pending⟩ := h
    refine ⟨(count_le_count_cons).trans single, turned, since, fun x hx => ?_, due, nofun⟩
    change (if reg.key = key then _ else r) = some x at hx
    split_ifs at hx with hk
    · obtain ⟨y, hy, rfl⟩ := map_eq_some_iff.mp hx
      obtain ⟨hperiod, hnow, hts⟩ := pending reg mem_cons_self hk
      refine ⟨(stored y hy).1, hnow.trans (Nat.le_add_right _ _), fun _ a ha => ?_⟩
      rw [← hperiod]
      exact Nat.add_le_add_right (hts a ha) _
    · refine ⟨(stored x hx).1, (stored x hx).2.1, fun _ => (stored x hx).2.2 fun y hy => ?_⟩
      rwa [mem_singleton.mp hy]

end Course

/-! ## A reminder that is watched -/

structure Watched (S : Type) where
  run : ReminderRun S
  polls : ℕ
  turns : List (ℕ × ℕ)

namespace Watched

def init (m : Shared) : Watched S :=
  ⟨.init m, 0, []⟩

variable (key : GrainId × String) (w : Watched S)

def begun : ReminderEvent S → ℕ
  | .poll _ _ => 1
  | _ => 0

def turn (e : ReminderEvent S) : List (ℕ × ℕ) :=
  match e, w.run.poll with
  | .dispatch, .dispatching now (reg :: _) => if reg.key = key then [(w.polls, now)] else []
  | _, _ => []

def step (e : ReminderEvent S) : Option (Watched S) :=
  (w.run.step e).map fun run => ⟨run, w.polls + begun e, w.turn key e ++ w.turns⟩

def course : Course :=
  ⟨w.run.store.lookup key, w.run.poll, w.polls, w.turns⟩

def Unregistered (e : ReminderEvent S) : Prop :=
  e ≠ .update false ∧ ∀ p t, e ≠ .registerReminder key.1 key.2 p t

def Filed : Prop :=
  ∀ k r, w.run.store.lookup k = some r → r.key = k

variable {key} {w} {u v w' : Watched S} {e : ReminderEvent S} {es : List (ReminderEvent S)}
  {t p : ℕ}

theorem lookup_updateDueAt (r : InMemoryReminderStore) (reg : ReminderRegistration) (d)
    (key) : (r.updateDueAt reg.grainId reg.name d).lookup key =
      if reg.key = key then (r.lookup key).map ({ · with dueAt := d }) else r.lookup key := by
  unfold updateDueAt
  split_ifs with hk
  · subst hk
    cases hl : r.lookup (reg.grainId, reg.name) <;> simp [ReminderRegistration.key, hl]
  · cases r.lookup (reg.grainId, reg.name) with
    | none => rfl
    | some y => exact lookup_insert_ne fun h => hk h.symm

theorem filed_init (m) : (init m : Watched S).Filed := by
  intro k r hl
  cases hl

theorem Filed.step (h : w.Filed) (hstep : w.step key e = some w') : w'.Filed := by
  obtain ⟨run, hrun, rfl⟩ := map_eq_some_iff.mp hstep
  intro k r hl
  cases ReminderRun.move_of_step hrun with
  | registerReminder gid name period now =>
    rcases lookup_insert_cases hl with ⟨rfl, rfl⟩ | ⟨-, hl⟩
    · rfl
    · exact h k r hl
  | unregisterReminder => exact h k r (lookup_of_erase hl)
  | @updated now reg =>
    change (updateDueAt _ reg.grainId reg.name _).lookup k = _ at hl
    rw [lookup_updateDueAt] at hl
    split_ifs at hl
    · obtain ⟨y, hy, rfl⟩ := map_eq_some_iff.mp hl
      exact h k y hy
    · exact h k r hl
  | _ => exact h k r hl

theorem Filed.loadDue (h : w.Filed) (now) :
    ((w.run.store.loadDue now).map ReminderRegistration.key).Nodup ∧
      ∀ x ∈ w.run.store.loadDue now, w.run.store.lookup x.key = some x ∧ x.dueAt ≤ now := by
  have hkeys : (w.run.store.entries.map Sigma.snd).map ReminderRegistration.key =
      w.run.store.keys := by
    rw [List.map_map]
    exact map_congr_left fun x hx => h x.1 x.2 (mem_lookup_iff.mpr hx)
  refine ⟨(hkeys ▸ w.run.store.keys_nodup).sublist (filter_sublist.map _), fun x hx => ?_⟩
  obtain ⟨hmem, hle⟩ := mem_filter.mp hx
  obtain ⟨⟨k, y⟩, hy, rfl⟩ := List.mem_map.mp hmem
  have hl : w.run.store.lookup k = some y := mem_lookup_iff.mpr hy
  exact ⟨h k y hl ▸ hl, of_decide_eq_true hle⟩

open Course in
theorem shift_of_step {removal} (hf : w.Filed) (he : Unregistered key e)
    (hremoval : e = .unregisterReminder key.1 key.2 → removal) (hstep : w.step key e = some w') :
    Shift key removal (w.course key) (w'.course key) := by
  obtain ⟨⟨silo, dispatchers, store, poll, ticks, advances⟩, polls, turns⟩ := w
  obtain ⟨run, hrun, rfl⟩ := map_eq_some_iff.mp hstep
  cases ReminderRun.move_of_step hrun with
  | registerReminder gid name period now =>
    have hne : key ≠ (gid, name) := by
      rintro rfl
      exact he.2 period now rfl
    have hl : (store.save ⟨gid, name, period, now + period⟩).lookup key = store.lookup key :=
      lookup_insert_ne hne
    simp only [course, hl]
    exact .keep
  | unregisterReminder gid name =>
    by_cases hk : key = (gid, name)
    · subst hk
      have hl : (store.delete gid name).lookup (gid, name) = none := lookup_erase _ _
      simp only [course, hl]
      exact .remove (hremoval rfl)
    · have hl : (store.delete gid name).lookup key = store.lookup key := lookup_erase_ne hk
      simp only [course, hl]
      exact .keep
  | poll hp hdue =>
    cases hp
    refine .load (fun x hx hk => ?_) ((hdue.map _).nodup_iff.mpr (hf.loadDue _).1)
    exact hk ▸ (hf.loadDue _).2 x (hdue.mem_iff.mp hx)
  | polled hp =>
    cases hp
    exact .done
  | dispatched hp | undispatched hp =>
    cases hp
    exact .come
  | @updated now reg tick due hp =>
    cases hp
    simp only [course, lookup_updateDueAt]
    exact .set
  | @notUpdated ok now reg tick due hp hl =>
    cases hp
    -- There is nothing stored to be set.
    have hn : store.lookup (reg.grainId, reg.name) = none := by
      cases ok with
      | false => exact absurd rfl he.1
      | true => simpa using hl
    have hset : (if reg.key = key then (store.lookup key).map ({ · with dueAt := now + reg.period })
        else store.lookup key) = store.lookup key := by
      split_ifs with hk
      · subst hk
        exact (congrArg _ hn).trans hn.symm
      · rfl
    change Shift key _ _ ⟨store.lookup key, _, _, _⟩
    rw [← hset]
    exact .set
  | _ => exact .keep

theorem run_invariant {I : Course → Prop} {r} (hI : ∀ c c', Course.Shift key r c c' → I c → I c')
    (hes : ∀ e ∈ es, Unregistered key e ∧ (e = .unregisterReminder key.1 key.2 → r))
    (h : u.Filed ∧ I (u.course key)) (hw : exec (step key) u es = some w) :
    w.Filed ∧ I (w.course key) := by
  refine exec_invariant (I := fun w => w.Filed ∧ I (w.course key)) ?_ h
    (Along.and_forall hes (along_true _ _)) hw
  rintro w e w' ⟨⟨he, hremoval⟩, -⟩ ⟨hf, h⟩ hs
  exact ⟨hf.step hs, hI _ _ (shift_of_step hf he hremoval hs) h⟩

section
variable {gid : GrainId} {name : String} {m : Shared}

/-- A second registration stands if no poll has a copy of the first, whose next time is otherwise
written over it (`reregistration_lost`). -/
theorem registration_stands {fs : List (ReminderEvent S)}
    (hu : exec (step (gid, name)) (init m) es = some u)
    (hheld : ∀ x ∈ u.run.poll.pending ++ u.run.poll.due, x.key ≠ (gid, name))
    (hv : u.step (gid, name) (.registerReminder gid name p t) = some v)
    (hw : exec (step (gid, name)) v fs = some w)
    (hfs : ∀ e ∈ fs, Unregistered (gid, name) e ∧ e ≠ .unregisterReminder gid name)
    (hturns : ∀ a ∈ w.turns, a.1 ≤ u.polls) :
    w.run.store.lookup (gid, name) = some ⟨gid, name, p, t + p⟩ := by
  have hfirst : Course.Stands ⟨gid, name, p, t + p⟩ u.polls (v.course (gid, name)) := by
    cases hv
    exact ⟨lookup_insert _, le_rfl, fun x hx => hheld x (mem_append_left _ hx),
      fun x hx hk => absurd hk (hheld x (mem_append_right _ hx))⟩
  refine ((run_invariant (I := fun c => (∀ a ∈ c.turns, a.1 ≤ u.polls) →
    Course.Stands ⟨gid, name, p, t + p⟩ u.polls c) (fun c c' hs h hturns => ?_) hfs
    ⟨(exec_invariant_of_step (fun _ _ _ h hs => h.step hs) (filed_init m) hu).step hv,
      fun _ => hfirst⟩ hw).2 hturns).stored
  exact (h fun a ha => hturns a (hs.turns_subset ha)).shift hs hturns

theorem spaced_register (hu : exec (step (gid, name)) (init m) es = some u)
    (hes : ∀ e ∈ es, Unregistered (gid, name) e)
    (hv : u.step (gid, name) (.registerReminder gid name p t) = some v) :
    v.Filed ∧ Course.Spaced (gid, name) t p (v.course (gid, name)) := by
  obtain ⟨hf, hg⟩ := run_invariant (r := True) (I := Course.Gone (gid, name) none [])
    (fun c c' => Course.Gone.shift) (fun e he => ⟨hes e he, fun _ => trivial⟩)
    ⟨filed_init m, rfl, fun _ hx => (nomatch hx), fun _ ha => (nomatch ha)⟩ hu
  refine ⟨hf.step hv, ?_⟩
  cases hv
  have hturns : u.turns = [] := eq_nil_iff_forall_not_mem.mpr fun a ha =>
    (hg.turned a ha).elim not_mem_nil nofun
  have hheld : ∀ x ∈ u.run.poll.pending ++ u.run.poll.due, x.key ≠ (gid, name) :=
    fun x hx hk => (nomatch hg.held x hx hk)
  change Course.Spaced _ t p ⟨_, u.run.poll, u.polls, u.turns⟩
  rw [hturns]
  refine ⟨(count_eq_zero.mpr fun hmem => ?_).trans_le (Nat.zero_le _), .nil,
    fun _ ha => (nomatch ha), fun r hr => ?_,
    fun x hx hk => absurd hk (hheld x (mem_append_right _ hx)),
    fun x hx hk => absurd hk (hheld x (mem_append_left _ hx))⟩
  · obtain ⟨x, hx, hk⟩ := mem_map.mp hmem
    exact hheld x hx hk
  · cases (lookup_insert _).symm.trans hr
    exact ⟨rfl, le_rfl, fun _ _ ha => (nomatch ha)⟩

/-- A reminder that is registered once comes up at most once in a poll, its periods apart, and not
after a removal. -/
theorem reminder_spacing {pre post : List (ReminderEvent S)}
    (hrun : exec (step (gid, name)) (init m) (pre ++ .registerReminder gid name p t :: post) = some
      w) (honce : ∀ e ∈ pre ++ post, Unregistered (gid, name) e) :
    w.turns.Pairwise (fun b a => a.1 < b.1 ∧ a.2 + p ≤ b.2) ∧ (∀ a ∈ w.turns, t + p ≤ a.2) ∧
      ∀ mid rest u, post = mid ++ .unregisterReminder gid name :: rest →
        exec (step (gid, name)) (init m) (pre ++ .registerReminder gid name p t ::
          (mid ++ [.unregisterReminder gid name])) = some u →
        w.run.store.lookup (gid, name) = none ∧ ∀ a ∈ w.turns, a ∈ u.turns ∨ a.1 = u.polls := by
  obtain ⟨hpre, hpost⟩ := forall_mem_append.mp honce
  rw [exec_append] at hrun
  obtain ⟨s, hs, hrun⟩ := bind_eq_some_iff.mp hrun
  obtain ⟨v, hv, hw⟩ := exec_cons_eq_some.mp hrun
  have hspaced {es : List (ReminderEvent S)} {w : Watched S}
      (hes : ∀ e ∈ es, Unregistered (gid, name) e) (hw : exec (step (gid, name)) v es = some w) :=
    run_invariant (r := True) (fun c c' => Course.Spaced.shift)
      (fun e he => ⟨hes e he, fun _ => trivial⟩) (spaced_register hs hpre hv) hw
  have h := (hspaced hpost hw).2
  refine ⟨h.turned, fun a ha => (h.since a ha).2, ?_⟩
  rintro mid rest u rfl hu
  -- The run up to the removal, the removal, and the rest.
  rw [exec_append, hs, bind_some] at hu
  obtain ⟨v', hv', hu⟩ := exec_cons_eq_some.mp hu
  cases hv.symm.trans hv'
  obtain ⟨x, hx, hu⟩ := exec_snoc_eq_some.mp hu
  rw [exec_append, hx, bind_some] at hw
  obtain ⟨u', hu', hw⟩ := exec_cons_eq_some.mp hw
  cases hu.symm.trans hu'
  obtain ⟨hmid, hrest⟩ := forall_mem_append.mp hpost
  have hgone : Course.Gone (gid, name) (some u.polls) u.turns (u.course (gid, name)) := by
    cases hu
    exact ⟨lookup_erase _ _, fun _ _ _ => rfl, fun a ha => Or.inl ha⟩
  obtain ⟨-, hg⟩ := run_invariant (r := True) (fun c c' => Course.Gone.shift)
    (fun e he => ⟨hrest e (mem_cons_of_mem _ he), fun _ => trivial⟩)
    ⟨(hspaced hmid hx).1.step hu, hgone⟩ hw
  exact ⟨hg.absent, fun a ha => (hg.turned a ha).imp_right Option.some.inj⟩

end

/-- A poll comes to a reminder of period 5 and sets it to its next time. -/
def firing (now : ℕ) : List (ReminderEvent Unit) :=
  [.poll now [⟨⟨"Ticker", "t"⟩, "wake", 5, now⟩], .dispatch, .update true]

theorem firing_spacing : ∃ w, exec (step (⟨"Ticker", "t"⟩, "wake")) (init .empty)
    ([] ++ .registerReminder ⟨"Ticker", "t"⟩ "wake" 5 0 :: (firing 5 ++ .dispatch :: firing 10 ++
      [.unregisterReminder ⟨"Ticker", "t"⟩ "wake"])) = some w ∧
    w.turns = [(2, 10), (1, 5)] ∧ w.turns.Pairwise fun b a => a.1 < b.1 ∧ a.2 + 5 ≤ b.2 := by
  obtain ⟨w, hw, hturns⟩ : ∃ w, exec (step (⟨"Ticker", "t"⟩, "wake")) (init .empty)
      ([] ++ .registerReminder ⟨"Ticker", "t"⟩ "wake" 5 0 :: (firing 5 ++ .dispatch :: firing 10 ++
        [.unregisterReminder ⟨"Ticker", "t"⟩ "wake"])) = some w ∧ w.turns = [(2, 10), (1, 5)] :=
    map_eq_some_iff.mp (by decide +kernel)
  exact ⟨w, hw, hturns, (reminder_spacing hw (by simp [firing, Unregistered])).1⟩

/-- A poll has another reminder of the grain in hand. -/
def pollingOther : List (ReminderEvent Unit) :=
  [.registerReminder ⟨"Ticker", "t"⟩ "wake" 5 3, .registerReminder ⟨"Ticker", "t"⟩ "other" 5 0,
    .poll 5 [⟨⟨"Ticker", "t"⟩, "other", 5, 5⟩]]

theorem loaded_stands : ∃ w : Watched Unit, exec (step (⟨"Ticker", "t"⟩, "wake")) (init .empty)
    (pollingOther ++ .registerReminder ⟨"Ticker", "t"⟩ "wake" 100 5 :: [.dispatch, .update true]) =
      some w ∧
    w.run.store.lookup (⟨"Ticker", "t"⟩, "wake") =
      some ⟨⟨"Ticker", "t"⟩, "wake", 100, 5 + 100⟩ := by
  obtain ⟨u, hu, hheld⟩ : ∃ u, exec (step (⟨"Ticker", "t"⟩, "wake")) (init .empty) pollingOther =
      some u ∧ u.run.poll.pending ++ u.run.poll.due = [⟨⟨"Ticker", "t"⟩, "other", 5, 5⟩] :=
    map_eq_some_iff.mp (by decide +kernel)
  obtain ⟨w, hw, hturns⟩ : ∃ w, exec (step (⟨"Ticker", "t"⟩, "wake")) (init .empty)
      (pollingOther ++ .registerReminder ⟨"Ticker", "t"⟩ "wake" 100 5 ::
        [.dispatch, .update true]) = some w ∧ w.turns = [] := map_eq_some_iff.mp (by decide +kernel)
  refine ⟨w, hw, ?_⟩
  rw [exec_append, hu, bind_some] at hw
  obtain ⟨v, hv, hw⟩ := exec_cons_eq_some.mp hw
  exact registration_stands hu (by simp [hheld, ReminderRegistration.key]) hv hw
    (by simp [Unregistered]) (by simp [hturns])

/-- The poll has loaded the reminder when it is registered again at 5, with a period of 100, and
writes the next time of the first registration. -/
theorem reregistration_lost : (exec (step (⟨"Ticker", "t"⟩, "wake")) (init .empty)
    (.registerReminder ⟨"Ticker", "t"⟩ "wake" 5 0 :: (firing 5).insertIdx 1
      (.registerReminder ⟨"Ticker", "t"⟩ "wake" 100 5))).map
        (fun w => (w.turns, w.run.store.lookup (⟨"Ticker", "t"⟩, "wake"))) =
    some ([(1, 5)], some ⟨⟨"Ticker", "t"⟩, "wake", 100, 10⟩) := by
  decide +kernel

end Watched

end Orlando
