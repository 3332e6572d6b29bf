import Orlando.Delivery

/-!
# The order of one caller's messages

A caller's messages reach the channel in the order of its calls, and a sequential loop runs them so.
A reentrant loop spawns a task for each, which the runtime starts in any order, and the lock is
granted in the order of the calls of `lock` (`LockedSilo`). So an ask can miss the effect of an
earlier tell (`ask_overtakes_tell`).
-/

namespace Orlando

open Activation List Function Silo

variable {S : Type}

/-- A silo with the locks of its reentrant activations : for each task the handler tasks
that have called `lock`, oldest call first. -/
structure LockedSilo (S : Type) where
  silo : Silo S
  waiters : ℕ → List ℕ

/-- A step of a silo, or the start of handler task `k` of task `i`. -/
inductive LockEvent (S : Type) where
  | start (i k : ℕ)
  | silo (e : SiloEvent S)

variable {es : List (LockEvent S)}

namespace LockedSilo

def init (m : Shared) : LockedSilo S where
  silo := .init m
  waiters := fun _ => []

def startStep (s : LockedSilo S) (i k : ℕ) : Option (LockedSilo S) :=
  match s.silo.tasks[i]? with
  | some t =>
    match t.act.handlers[k]? with
    | some (.waiting _) =>
      if t.aborted ∨ k ∈ s.waiters i then none
      else some { s with waiters := Function.update s.waiters i (s.waiters i ++ [k]) }
    | _ => none
  | none => none

/-- The lock is granted to the task that called first. -/
def acquireStep (s : LockedSilo S) (i k : ℕ) : Option (LockedSilo S) :=
  match s.waiters i with
  | j :: ws =>
    if j = k then
      (s.silo.step (.mailbox i (.handler k .acquire))).map fun silo =>
        ⟨silo, Function.update s.waiters i ws⟩
    else none
  | [] => none

def step (s : LockedSilo S) : LockEvent S → Option (LockedSilo S)
  | .start i k => s.startStep i k
  | .silo (.mailbox i (.handler k .acquire)) => s.acquireStep i k
  | .silo e => (s.silo.step e).map fun silo => { s with silo := silo }

def siloEvents (es : List (LockEvent S)) : List (SiloEvent S) :=
  es.filterMap fun
    | .silo e => some e
    | _ => none

def startsInOrder (i : ℕ) (s : LockedSilo S) : LockEvent S → Bool
  | .start j k => j != i || s.silo.tasks[i]?.all fun t =>
      (List.range k).all fun l =>
        !t.act.handlers[l]?.any Handler.isWaiting || (s.waiters i).contains l
  | .silo _ => true

variable {s s' : LockedSilo S} {e : LockEvent S} {i : ℕ} {t t' : Task S} {m : Shared}

theorem startStep_eq_some {k} (h : s.startStep i k = some s') :
    ∃ t env, s.silo.tasks[i]? = some t ∧ t.act.handlers[k]? = some (.waiting env) ∧
      k ∉ s.waiters i ∧
      s' = { s with waiters := update s.waiters i (s.waiters i ++ [k]) } := by
  unfold startStep at h
  split at h
  · rename_i t ht
    split at h
    · rename_i env hk
      split at h
      · cases h
      · rename_i hno
        exact ⟨t, env, ht, hk, (not_or.mp hno).2, (Option.some.inj h).symm⟩
    · cases h
  · cases h

theorem acquireStep_eq_some {k} (h : s.acquireStep i k = some s') :
    ∃ ws, s.waiters i = k :: ws ∧ s.silo.step (.mailbox i (.handler k .acquire)) = some s'.silo ∧
      s'.waiters = update s.waiters i ws := by
  unfold acquireStep at h
  split at h
  · rename_i j ws hws
    split at h
    · rename_i hj
      subst hj
      obtain ⟨silo, hsilo, rfl⟩ := Option.map_eq_some_iff.mp h
      exact ⟨ws, hws, hsilo, rfl⟩
    · cases h
  · cases h

theorem step_cases (h : s.step e = some s') :
    (∃ j k t env, e = .start j k ∧ s.silo.tasks[j]? = some t ∧
      t.act.handlers[k]? = some (.waiting env) ∧ k ∉ s.waiters j ∧ s'.silo = s.silo ∧
      s'.waiters = update s.waiters j (s.waiters j ++ [k])) ∨
    (∃ j k ws, e = .silo (.mailbox j (.handler k .acquire)) ∧ s.waiters j = k :: ws ∧
      s.silo.step (.mailbox j (.handler k .acquire)) = some s'.silo ∧
      s'.waiters = update s.waiters j ws) ∨
    ∃ e', e = .silo e' ∧ (∀ j k, e' ≠ .mailbox j (.handler k .acquire)) ∧
      s.silo.step e' = some s'.silo ∧ s'.waiters = s.waiters := by
  unfold step at h
  split at h
  · rename_i j k
    obtain ⟨t, env, ht, hk, hno, rfl⟩ := startStep_eq_some h
    exact .inl ⟨j, k, t, env, rfl, ht, hk, hno, rfl, rfl⟩
  · rename_i j k
    obtain ⟨ws, hws, hsilo, hw⟩ := acquireStep_eq_some h
    exact .inr (.inl ⟨j, k, ws, rfl, hws, hsilo, hw⟩)
  · rename_i e' hne
    obtain ⟨silo, hsilo, rfl⟩ := Option.map_eq_some_iff.mp h
    exact .inr (.inr ⟨e', rfl, fun j k he => hne j k he, hsilo, rfl⟩)

theorem silo_of_step (h : s.step e = some s') :
    exec Silo.step s.silo (siloEvents [e]) = some s'.silo := by
  rcases step_cases h with ⟨j, k, t, env, rfl, -, -, -, hs, -⟩ | ⟨j, k, ws, rfl, -, hs, -⟩ |
    ⟨e', rfl, -, hs, -⟩
  · exact congrArg some hs.symm
  · exact exec_cons_eq_some.mpr ⟨_, hs, rfl⟩
  · exact exec_cons_eq_some.mpr ⟨_, hs, rfl⟩

theorem silo_of_run (h : exec step (init m) es = some s) :
    exec Silo.step (.init m) (siloEvents es) = some s.silo := by
  refine exec_induction
    (I := fun es s => exec Silo.step (.init m) (siloEvents es) = some s.silo) rfl ?_ h
  intro es u e v _ hI hstep
  rw [siloEvents, filterMap_append, exec_append]
  exact Option.bind_eq_some_iff.mpr ⟨u.silo, hI, silo_of_step hstep⟩

end LockedSilo

/-! ## The queue of the lock -/

/-- The handler tasks that have called `lock` did so in the order in which they were
spawned, and before those that have not started. -/
structure WaitersInOrder (ws : List ℕ) (hs : List (Handler S)) : Prop where
  sorted : ws.Pairwise (· < ·)
  waiting : ∀ k ∈ ws, ∃ h, hs[k]? = some h ∧ h.isWaiting = true
  later : ∀ j h, hs[j]? = some h → h.isWaiting = true → j ∉ ws → ∀ k ∈ ws, k < j

namespace WaitersInOrder

variable {ws : List ℕ} {hs : List (Handler S)} {k : ℕ} {h h' : Handler S}

theorem nil (hs : List (Handler S)) : WaitersInOrder [] hs :=
  ⟨List.Pairwise.nil, nofun, fun _ _ _ _ _ => nofun⟩

theorem of_set (hh' : h'.isWaiting = false) {j x}
    (hj : (hs.set k h')[j]? = some x) (hx : x.isWaiting = true) : k ≠ j ∧ hs[j]? = some x := by
  rw [getElem?_set] at hj
  split at hj
  · split at hj
    · rw [← Option.some.inj hj, hh'] at hx
      cases hx
    · cases hj
  · exact ⟨‹_›, hj⟩

theorem start (hw : WaitersInOrder ws hs) (hk : hs[k]? = some h) (hh : h.isWaiting = true)
    (hno : k ∉ ws) (hold : ∀ j x, j < k → hs[j]? = some x → x.isWaiting = true → j ∈ ws) :
    WaitersInOrder (ws ++ [k]) hs where
  sorted := by
    refine pairwise_append.mpr ⟨hw.sorted, pairwise_singleton _ _, ?_⟩
    intro j hj l hl
    rw [mem_singleton.mp hl]
    exact hw.later k h hk hh hno j hj
  waiting := by
    intro j hj
    rcases mem_append.mp hj with hj | hj
    · exact hw.waiting j hj
    · exact mem_singleton.mp hj ▸ ⟨h, hk, hh⟩
  later := by
    intro j x hj hx hnj l hl
    obtain ⟨hnj, hjk⟩ := not_or.mp (mt mem_append.mpr hnj)
    rcases mem_append.mp hl with hl | hl
    · exact hw.later j x hj hx hnj l hl
    · rw [mem_singleton.mp hl]
      have hne : j ≠ k := fun he => hjk (mem_singleton.mpr he)
      have hnlt : ¬j < k := fun hlt => hnj (hold j x hlt hj hx)
      omega

theorem oldest (hw : WaitersInOrder (k :: ws) hs) :
    ∀ j x, j < k → hs[j]? = some x → x.isWaiting = false := by
  intro j x hj hx
  by_contra hwait
  have hwait : x.isWaiting = true := by simpa using hwait
  by_cases hm : j ∈ k :: ws
  · rcases mem_cons.mp hm with rfl | hm
    · omega
    · have := (pairwise_cons.mp hw.sorted).1 j hm
      omega
  · have := hw.later j x hx hwait hm k mem_cons_self
    omega

theorem grant (hw : WaitersInOrder (k :: ws) hs) (hh' : h'.isWaiting = false) :
    WaitersInOrder ws (hs.set k h') := by
  obtain ⟨hlt, hsorted⟩ := pairwise_cons.mp hw.sorted
  refine ⟨hsorted, ?_, ?_⟩
  · intro j hj
    rw [getElem?_set_ne (Nat.ne_of_lt (hlt j hj))]
    exact hw.waiting j (mem_cons_of_mem _ hj)
  · intro j x hj hx hno l hl
    obtain ⟨hne, hj⟩ := of_set hh' hj hx
    refine hw.later j x hj hx ?_ l (mem_cons_of_mem _ hl)
    exact fun hmem => (mem_cons.mp hmem).elim (fun he => hne he.symm) hno

theorem set (hw : WaitersInOrder ws hs) (hk : hs[k]? = some h) (hh : h.isWaiting = false)
    (hh' : h'.isWaiting = false) : WaitersInOrder ws (hs.set k h') := by
  refine ⟨hw.sorted, ?_, fun j x hj hx => hw.later j x (of_set hh' hj hx).2 hx⟩
  intro j hj
  obtain ⟨x, hx, hxw⟩ := hw.waiting j hj
  have hne : k ≠ j := by
    rintro rfl
    rw [hk] at hx
    rw [← Option.some.inj hx, hh] at hxw
    cases hxw
  exact ⟨x, by rwa [getElem?_set_ne hne], hxw⟩

theorem spawn (hw : WaitersInOrder ws hs) (h : Handler S) : WaitersInOrder ws (hs ++ [h]) := by
  have hlt : ∀ k ∈ ws, k < hs.length := by
    intro k hk
    obtain ⟨x, hx, -⟩ := hw.waiting k hk
    exact lt_of_getElem? hx
  refine ⟨hw.sorted, ?_, ?_⟩
  · intro k hk
    rw [getElem?_append_left (hlt k hk)]
    exact hw.waiting k hk
  · intro j x hj hx hno k hk
    by_cases hjl : j < hs.length
    · rw [getElem?_append_left hjl] at hj
      exact hw.later j x hj hx hno k hk
    · have := hlt k hk
      omega

theorem of_delivery {a a' : Activation S} {e} (hd : Delivery a e a')
    (he : ∀ k, e ≠ .handler k .acquire) (hw : WaitersInOrder ws a.handlers) :
    WaitersInOrder ws a'.handlers := by
  cases hd with
  | same _ _ hh | recv _ _ hh | handled _ hh => exact hh ▸ hw
  | spawn _ hh => exact hh ▸ hw.spawn _
  | acquire => exact absurd rfl (he _)
  | run hk hh _ _ hwait => exact hh ▸ hw.set hk rfl hwait
  | handler _ hk hh _ _ _ hwait hwait' => exact hh ▸ hw.set hk hwait hwait'

end WaitersInOrder

namespace LockedSilo

variable {s s' : LockedSilo S} {e : LockEvent S} {i : ℕ} {t t' : Task S} {m : Shared}

/-- The messages accepted by task `i` along a run. -/
def accepted (i : ℕ) (es : List (LockEvent S)) : List (Envelope S) :=
  Silo.accepted i (siloEvents es)

theorem accepted_snoc (i) (es) (e : LockEvent S) :
    accepted i (es ++ [e]) = accepted i es ++ Silo.accepted i (siloEvents [e]) := by
  rw [accepted, siloEvents, filterMap_append, Silo.accepted, filterMap_append]
  rfl

theorem of_startsInOrder {k} (h : s.startsInOrder i (.start i k) = true)
    (hi : s.silo.tasks[i]? = some t) :
    ∀ j x, j < k → t.act.handlers[j]? = some x → x.isWaiting = true → j ∈ s.waiters i := by
  intro j x hj hx hw
  simp only [startsInOrder, hi, bne_self_eq_false, Bool.false_or, Option.all_some,
    all_eq_true, mem_range] at h
  have := h j hj
  rw [hx] at this
  simpa [hw] using this

/-- What a run whose handler tasks start in order keeps of task `i`. -/
structure Scheduled (i : ℕ) (es : List (LockEvent S)) (s : LockedSilo S) (t : Task S) :
    Prop where
  ledger : Silo.Ledger (accepted i es) t
  waiters : WaitersInOrder (s.waiters i) t.act.handlers

structure Unborn (i : ℕ) (es : List (LockEvent S)) (s : LockedSilo S) : Prop where
  nothing : accepted i es = []
  waiters : s.waiters i = []

theorem Scheduled.silo {e' : SiloEvent S} (h : Scheduled i es s t)
    (hts : s.silo.TaskStep i e' t t') (he : ∀ k, e' ≠ .mailbox i (.handler k .acquire))
    (hw : s'.waiters i = s.waiters i) : Scheduled i (es ++ [.silo e']) s' t' := by
  refine ⟨?_, ?_⟩
  · rw [accepted_snoc]
    exact hts.ledger (fun k hk => absurd hk (he k)) h.ledger
  · rw [hw]
    cases hts with
    | kept _ _ _ hact => exact hact ▸ h.waiters
    | send => exact h.waiters
    | recv _ _ hstep =>
      exact .of_delivery (MailboxKind.delivery_of_step hstep h.ledger.sound) nofun h.waiters
    | mailbox hev _ hstep =>
      refine .of_delivery (MailboxKind.delivery_of_step hstep h.ledger.sound) ?_ h.waiters
      intro k hk
      exact he k (hev.trans (congrArg _ hk))

theorem Scheduled.grant {k ws} (h : Scheduled i es s t)
    (hts : s.silo.TaskStep i (.mailbox i (.handler k .acquire)) t t')
    (hws : s.waiters i = k :: ws) (hw : s'.waiters i = ws) :
    Scheduled i (es ++ [.silo (.mailbox i (.handler k .acquire))]) s' t' := by
  have hwaiters := hws ▸ h.waiters
  refine ⟨?_, ?_⟩
  · rw [accepted_snoc]
    refine hts.ledger ?_ h.ledger
    intro k' hk'
    obtain rfl : k = k' := by
      injection hk' with _ hev
      injection hev
    exact hwaiters.oldest
  · rw [hw]
    cases hts with
    | kept he => exact absurd rfl (he.2 _)
    | send he => cases he
    | recv he => cases he
    | mailbox hev _ hstep =>
      injection hev with _ hev
      subst hev
      cases MailboxKind.delivery_of_step hstep h.ledger.sound with
      | acquire hk hh => exact hh ▸ hwaiters.grant rfl
      | same _ hne => exact absurd rfl (hne _)
      | handler hne => exact absurd rfl hne

theorem waiters_update_of_ne {j} (hj : j ≠ i) (ws)
    (h : s'.waiters = update s.waiters j ws) : s'.waiters i = s.waiters i := by
  rw [h, update_of_ne (Ne.symm hj)]

theorem not_acquire_of_ne {j k l} (hj : j ≠ i) :
    SiloEvent.mailbox (S := S) j (.handler k .acquire) ≠ .mailbox i (.handler l .acquire) := by
  rintro ⟨⟩
  exact hj rfl

section

variable (hstep : s.step e = some s')
include hstep

theorem scheduled_of_step (hguard : t.kind.grain.reentrant = false ∨ s.startsInOrder i e = true)
    (hi : s.silo.tasks[i]? = some t) (hi' : s'.silo.tasks[i]? = some t') (h : Scheduled i es s t) :
    Scheduled i (es ++ [e]) s' t' := by
  rcases step_cases hstep with ⟨j, k, u, env, rfl, hu, hk, hno, hs, hw⟩ |
    ⟨j, k, ws, rfl, hws, hs, hw⟩ | ⟨e', rfl, hne, hs, hw⟩
  · rw [hs] at hi'
    cases hi.symm.trans hi'
    have hacc : accepted i (es ++ [.start j k]) = accepted i es := by
      rw [accepted_snoc]
      exact append_nil _
    refine ⟨hacc ▸ h.ledger, ?_⟩
    by_cases hj : j = i
    · subst hj
      cases hi.symm.trans hu
      have horder : s.startsInOrder j (.start j k) = true := by
        refine hguard.resolve_left fun hseq => ?_
        rw [h.ledger.sound.wf.sequential hseq] at hk
        cases hk
      rw [hw, update_self]
      exact h.waiters.start hk rfl hno (of_startsInOrder horder hi)
    · rw [waiters_update_of_ne hj _ hw]
      exact h.waiters
  · rcases taskStep_of_step hs hi' with ⟨u, hu, hts⟩ | hsp
    · cases hi.symm.trans hu
      by_cases hj : j = i
      · subst hj
        exact h.grant hts hws (by rw [hw, update_self])
      · exact h.silo hts (fun l => not_acquire_of_ne hj) (waiters_update_of_ne hj ws hw)
    · rw [hsp.absent] at hi
      cases hi
  · rcases taskStep_of_step hs hi' with ⟨u, hu, hts⟩ | hsp
    · cases hi.symm.trans hu
      exact h.silo hts (fun l => hne i l) (by rw [hw])
    · rw [hsp.absent] at hi
      cases hi

theorem kind_of_step (hi : s.silo.tasks[i]? = some t) (hi' : s'.silo.tasks[i]? = some t') :
    t'.kind = t.kind := by
  have hsilo : ∀ {e'}, s.silo.step e' = some s'.silo → t'.kind = t.kind := by
    intro e' hs
    rcases taskStep_of_step hs hi' with ⟨u, hu, hts⟩ | hsp
    · cases hi.symm.trans hu
      exact hts.kind_eq
    · rw [hsp.absent] at hi
      cases hi
  rcases step_cases hstep with ⟨j, k, u, env, rfl, hu, hk, hno, hs, hw⟩ |
    ⟨j, k, ws, -, -, hs, -⟩ | ⟨e', -, -, hs, -⟩
  · rw [hs] at hi'
    cases hi.symm.trans hi'
    rfl
  · exact hsilo hs
  · exact hsilo hs

theorem unborn_of_step (hi' : s'.silo.tasks[i]? = none)
    (h : s.silo.tasks[i]? = none → Unborn i es s) : Unborn i (es ++ [e]) s' := by
  rcases step_cases hstep with ⟨j, k, u, env, rfl, hu, hk, hno, hs, hw⟩ |
    ⟨j, k, ws, rfl, hws, hs, hw⟩ | ⟨e', rfl, hne, hs, hw⟩
  · rw [hs] at hi'
    obtain ⟨hacc, hnil⟩ := h hi'
    have hj : j ≠ i := by
      rintro rfl
      rw [hi'] at hu
      cases hu
    refine ⟨?_, by rw [waiters_update_of_ne hj _ hw, hnil]⟩
    rw [accepted_snoc, hacc]
    rfl
  · obtain ⟨hi, hacc'⟩ := absent_of_step hs hi'
    obtain ⟨hacc, hnil⟩ := h hi
    have hj : j ≠ i := by
      rintro rfl
      rw [hnil] at hws
      cases hws
    refine ⟨?_, by rw [waiters_update_of_ne hj _ hw, hnil]⟩
    rw [accepted_snoc, hacc]
    rfl
  · obtain ⟨hi, hacc'⟩ := absent_of_step hs hi'
    obtain ⟨hacc, hnil⟩ := h hi
    refine ⟨?_, by rw [hw, hnil]⟩
    rw [accepted_snoc, hacc]
    exact hacc'

theorem scheduled_of_spawn (hi : s.silo.tasks[i]? = none) (hi' : s'.silo.tasks[i]? = some t')
    (h : Unborn i es s) : Scheduled i (es ++ [e]) s' t' := by
  have hspawn : ∀ {e'}, e = .silo e' → s.silo.step e' = some s'.silo →
      s'.waiters i = s.waiters i → Scheduled i (es ++ [e]) s' t' := by
    rintro e' rfl hs hw
    rcases taskStep_of_step hs hi' with ⟨u, hu, -⟩ | hsp
    · rw [hi] at hu
      cases hu
    · refine ⟨?_, ?_⟩
      · rw [accepted_snoc, h.nothing]
        have hacc : Silo.accepted i (siloEvents [LockEvent.silo e']) = [] := hsp.accepted
        rw [hacc]
        exact hsp.ledger
      · rw [hw, h.waiters]
        exact .nil _
  rcases step_cases hstep with ⟨j, k, u, env, rfl, hu, hk, hno, hs, hw⟩ |
    ⟨j, k, ws, he, hws, hs, hw⟩ | ⟨e', he, hne, hs, hw⟩
  · rw [hs, hi] at hi'
    cases hi'
  · have hj : j ≠ i := by
      rintro rfl
      rw [h.waiters] at hws
      cases hws
    exact hspawn he hs (waiters_update_of_ne hj ws hw)
  · exact hspawn he hs (by rw [hw])

end

theorem scheduled_of_run (hrun : exec step (init m) es = some s) :
    (s.silo.tasks[i]? = none → Unborn i es s) ∧
      ∀ t, s.silo.tasks[i]? = some t → (t.kind.grain.reentrant = false ∨
        Along step (fun s e => s.startsInOrder i e = true) (init m) es) → Scheduled i es s t := by
  refine exec_induction (I := fun es s => (s.silo.tasks[i]? = none → Unborn i es s) ∧
    ∀ t, s.silo.tasks[i]? = some t → (t.kind.grain.reentrant = false ∨
      Along step (fun s e => s.startsInOrder i e = true) (init m) es) → Scheduled i es s t)
    ?_ ?_ hrun
  · refine ⟨fun _ => ⟨rfl, rfl⟩, ?_⟩
    intro t hi
    simp [init, Silo.init] at hi
  · intro es u e v hu hI hstep
    refine ⟨fun hi' => unborn_of_step hstep hi' hI.1, ?_⟩
    intro t' hi' hguard
    cases hi : u.silo.tasks[i]? with
    | none => exact scheduled_of_spawn hstep hi hi' (hI.1 hi)
    | some t =>
      have hkind := kind_of_step hstep hi hi'
      rw [hkind, along_snoc_iff hu] at hguard
      have ht := hI.2 t hi (hguard.imp_right And.left)
      exact scheduled_of_step hstep (hguard.imp_right And.right) hi hi' ht

end LockedSilo

/-! ## Messages are run in the order in which they were sent -/

def Activation.Handling (a : Activation S) (env : Envelope S) : Prop :=
  a.phase = .handling env ∨ ∃ k : ℕ, a.handlers[k]? = some (.locked env)

theorem Activation.Handling.held {reentrant} {a : Activation S} {env} (h : a.Handling env)
    (hw : a.WF reentrant) (ho : a.InSpawnOrder) : ∃ rest, a.held = env :: rest := by
  rcases h with hp | ⟨k, hk⟩
  · exact ⟨_, by rw [Activation.held, hp]; rfl⟩
  · have hheld : a.held = env :: (a.setHandler k .finished).held :=
      held_of_run hw ho hk rfl rfl rfl
    exact ⟨_, hheld⟩

namespace LockedSilo

/-- The messages of a caller run in the order of its calls if handler tasks start in the order in
which they were spawned. -/
theorem handlers_in_send_order (m : Shared) (es : List (LockEvent S)) (s : LockedSilo S)
    (i : ℕ) (t : Task S) (hrun : exec step (init m) es = some s)
    (hi : s.silo.tasks[i]? = some t)
    (hguard : t.kind.grain.reentrant = false ∨
      Along step (fun s e => s.startsInOrder i e = true) (init m) es) :
    t.act.ran <+: accepted i es ∧
    (∀ env, t.act.Handling env → t.act.ran ++ [env] <+: accepted i es) ∧
    (t.act.phase.loading = false → t.act.state = replay t.kind.grain t.act.loaded t.act.turns) := by
  have h := ((scheduled_of_run hrun).2 t hi hguard).ledger
  refine ⟨?_, ?_, ?_⟩
  · rw [h.accepted, append_assoc]
    exact prefix_append _ _
  · intro env henv
    obtain ⟨rest, hrest⟩ := henv.held h.sound.wf h.order
    rw [h.accepted, hrest]
    exact ⟨rest ++ t.queue, by simp⟩
  · exact (replayed_of_run (silo_of_run hrun) t (mem_of_getElem? hi)).state

def reentrantCounter : Grain UInt8 where
  default := 0
  onActivate := .ok
  onDeactivate := .ok
  reentrant := true

/-- A message that sets the counter, sent with `tell`. -/
def put (n : UInt8) : Envelope UInt8 where
  handleFn := fun _ => .ok n
  awaited := false

/-- A caller tells the counter `5` and then asks it to add `1`. Of the two handler tasks,
`j` starts and runs first and then `k`. -/
def tellThenAsk (j k : ℕ) : List (LockEvent UInt8) :=
  [.silo (.getOrInsert ⟨"Counter", "k"⟩ (.plain reentrantCounter)), .silo (.checkLimit 0),
    .silo (.enter 0), .silo (.mailbox 0 (.onActivate 0)), .silo (.send 0 (put 5)),
    .silo (.send 0 (addMessage 1)), .silo (.recv 0), .silo (.recv 0), .start 0 j, .start 0 k,
    .silo (.mailbox 0 (.handler j .acquire)), .silo (.mailbox 0 (.handler j .run)),
    .silo (.mailbox 0 (.handler k .acquire)), .silo (.mailbox 0 (.handler k .run))]

/-- With the handler tasks started in order, the ask finds what the tell has set. -/
theorem handlers_in_send_order_counter :
    ∃ s t, exec step (init Shared.empty) (tellThenAsk 0 1) = some s ∧
      s.silo.tasks[0]? = some t ∧ t.act.state = 6 ∧
      t.act.ran <+: accepted 0 (tellThenAsk 0 1) := by
  obtain ⟨s, t, hrun, hi, hstate⟩ : ∃ s t,
      exec step (init Shared.empty) (tellThenAsk 0 1) = some s ∧
        s.silo.tasks[0]? = some t ∧ t.act.state = 6 := ⟨_, _, rfl, rfl, rfl⟩
  refine ⟨s, t, hrun, hi, hstate, ?_⟩
  exact (handlers_in_send_order _ (tellThenAsk 0 1) s 0 t hrun hi (.inr (by decide +kernel))).1

/-- The task of the ask starts first : it gets the lock first, and the ask is run without
the effect of the tell sent before it. -/
theorem ask_overtakes_tell :
    ∃ s t, exec step (init Shared.empty) (tellThenAsk 1 0) = some s ∧
      s.silo.tasks[0]? = some t ∧ t.aborted = false ∧ t.act.faulted = false ∧
      accepted 0 (tellThenAsk 1 0) = [put 5, addMessage 1] ∧ t.act.ran = [addMessage 1, put 5] ∧
      t.act.state = 5 ∧ ¬t.act.ran <+: accepted 0 (tellThenAsk 1 0) := by
  refine ⟨_, _, rfl, rfl, rfl, rfl, rfl, rfl, rfl, ?_⟩
  intro hprefix
  have hprefix := hprefix
  obtain ⟨heq, -⟩ := cons_prefix_cons.mp hprefix
  exact absurd (congrArg Envelope.awaited heq) (by decide)

end LockedSilo

end Orlando
