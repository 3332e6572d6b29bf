import Orlando.Snapshots

/-!
# The order of saves and of replication entries

A reentrant grain serializes its state under the lock and writes it after the lock is released, so
the scheduler decides in which order the snapshots reach the store and the sink
(`PersistentArgs.StoreInOrder`, `PersistentArgs.SinkInOrder`). Two handler tasks can store the newer
state first (`newer_state_stored_first`).
-/

namespace Orlando

open Activation List Function Snapshot Option

variable {S : Type}

namespace Activation

def tickets (r : Bool) (sel : Snapshot → Bool) (a : Activation S) (i : Option ℕ) : Option ℕ :=
  (a.slots r i).bind fun t => if sel t then some t.turns else none

theorem tickets_eq_some {r} {sel : Snapshot → Bool} {a : Activation S} {i}
    {n} : a.tickets r sel i = some n ↔ ∃ t, a.slots r i = some t ∧ sel t = true ∧ t.turns = n := by
  unfold tickets
  cases a.slots r i with
  | none => simp
  | some t => by_cases ht : sel t = true <;> simp [ht]

end Activation

namespace PersistentArgs

variable (p : PersistentArgs S)

/-- The writes made so far came in the order of the turns, and the state the last turn
left, while it is not serialized yet, is newer than all of them. -/
structure Ordered (sel : Snapshot → Bool) (a : Activation S) (done : List ℕ) : Prop where
  inOrder : InOrder (a.tickets p.replicated sel) done a.turns.length
  fresh_done : a.Fresh → ∀ d ∈ done, d < a.turns.length
  fresh_held : a.Fresh → ∀ i n, a.tickets p.replicated sel i = some n → n < a.turns.length

variable {p} {sel : Snapshot → Bool} {gid : GrainId} {a a' : Activation S} {m m' : Shared}
  {e : MailboxEvent S} {done : List ℕ} {ns : List ℕ} {β : Type} {f : β → Bytes} {i : Option ℕ}

theorem Ordered.drop (h : p.Ordered sel a done) (hist : a.SameHistory a')
    (hsub : ∀ i n, a'.tickets p.replicated sel i = some n → a.tickets p.replicated sel i = some n)
    (hfr : a'.Fresh → a.Fresh) : p.Ordered sel a' done := by
  have hl : a'.turns.length = a.turns.length := by rw [hist.turns]
  refine ⟨h.inOrder.drop hsub (by omega), ?_, ?_⟩
  · intro hf d hd
    rw [hl]
    exact h.fresh_done (hfr hf) d hd
  · intro hf i n hn
    rw [hl]
    exact h.fresh_held (hfr hf) i n (hsub i n hn)

theorem Ordered.turn (h : p.Ordered sel a done) {t} (hturns : a'.turns = a.turns ++ [t])
    (hslots : a'.slots p.replicated = a.slots p.replicated) : p.Ordered sel a' done := by
  have hlen : a'.turns.length = a.turns.length + 1 := by simp [hturns]
  have htickets : a'.tickets p.replicated sel = a.tickets p.replicated sel := by
    funext i
    simp only [tickets, hslots]
  refine ⟨h.inOrder.drop (fun i n hn => htickets ▸ hn) (by omega), ?_, ?_⟩
  · intro _ d hd
    have := h.inOrder.done_le d hd
    omega
  · intro _ i n hn
    have := h.inOrder.pending_le i n (htickets ▸ hn)
    omega

variable (sel) in
theorem tickets_of_update {t'}
    (hsl : a'.slots p.replicated = update (a.slots p.replicated) i t') :
    (∀ j, j ≠ i → a'.tickets p.replicated sel j = a.tickets p.replicated sel j) ∧
      a'.tickets p.replicated sel i = t'.bind fun t => if sel t then some t.turns else none := by
  refine ⟨?_, ?_⟩
  · intro j hj
    simp only [tickets, hsl, update_of_ne hj]
  · simp [tickets, hsl]

theorem tickets_sub_of_update {t t₁ : Option Snapshot} (hheld : a.slots p.replicated i = t)
    (ht : ∀ u, t₁ = some u → sel u = true → ∃ v, t = some v ∧ sel v = true ∧ v.turns = u.turns)
    (hsl : a'.slots p.replicated = update (a.slots p.replicated) i t₁) :
    ∀ j n, a'.tickets p.replicated sel j = some n → a.tickets p.replicated sel j = some n := by
  intro j n hn
  by_cases hj : j = i
  · subst hj
    obtain ⟨u, hu, hsel, rfl⟩ := tickets_eq_some.mp hn
    rw [hsl, update_self] at hu
    obtain ⟨v, hv, hselv, hvu⟩ := ht u hu hsel
    exact tickets_eq_some.mpr ⟨v, hheld.trans hv, hselv, hvu⟩
  · rw [← (tickets_of_update sel hsl).1 j hj]
    exact hn

section

variable (h : p.Ordered sel a done) (hist : a.SameHistory a') {i : Option ℕ} {t : Snapshot}
include h hist

theorem Ordered.take (hfr : a.Fresh) (hfresh' : ¬a'.Fresh)
    (hfree : a.slots p.replicated i = none) (ht : t.turns = a.turns.length)
    (hsl : a'.slots p.replicated = update (a.slots p.replicated) i (some t)) :
    p.Ordered sel a' done := by
  by_cases hsel : sel t = true
  · obtain ⟨hrest, hnew⟩ := tickets_of_update sel hsl
    refine ⟨?_, fun hf => absurd hf hfresh', fun hf => absurd hf hfresh'⟩
    rw [hist.turns]
    exact h.inOrder.draw (Nat.le_of_eq ht) (fun d hd => ht ▸ h.fresh_done hfr d hd)
      (fun j k hk => ht ▸ h.fresh_held hfr j k hk) (by simpa [hsel] using hnew) hrest
  · refine h.drop hist (tickets_sub_of_update hfree ?_ hsl) fun hf => absurd hf hfresh'
    intro u hu hselu
    exact absurd (some.inj hu ▸ hselu) hsel

theorem Ordered.finish (hfr : a'.Fresh → a.Fresh) {t' : Option Snapshot}
    (hheld : a.slots p.replicated i = some t) (hsel : sel t = true)
    (hmin : ∀ j u, a.slots p.replicated j = some u → sel u = true → t.turns ≤ u.turns)
    (ht' : ∀ u, t' = some u → sel u = false)
    (hslots : a'.slots p.replicated = update (a.slots p.replicated) i t') :
    p.Ordered sel a' (done ++ [t.turns]) := by
  obtain ⟨hrest, hgone⟩ := tickets_of_update sel hslots
  have hi := tickets_eq_some.mpr ⟨t, hheld, hsel, rfl⟩
  have hgone' : a'.tickets p.replicated sel i = none := by
    rw [hgone]
    cases ht : t' with
    | none => rfl
    | some u => simp [ht' u ht]
  have hl : a'.turns.length = a.turns.length := by rw [hist.turns]
  refine ⟨?_, ?_, ?_⟩
  · rw [hl]
    refine h.inOrder.finish hi ?_ hgone' hrest
    intro j k hk
    obtain ⟨u, hu, hselu, rfl⟩ := tickets_eq_some.mp hk
    exact hmin j u hu hselu
  · intro hf d hd
    rw [hl]
    rcases mem_append.mp hd with hd | hd
    · exact h.fresh_done (hfr hf) d hd
    · rw [mem_singleton.mp hd]
      exact h.fresh_held (hfr hf) i t.turns hi
  · intro hf j n hn
    rw [hl]
    by_cases hj : j = i
    · rw [hj, hgone'] at hn
      cases hn
    · exact h.fresh_held (hfr hf) j n (hrest j hj ▸ hn)

theorem Ordered.finishFresh (hfresh : a.Fresh) (hfresh' : ¬a'.Fresh)
    (hslots' : ∀ i, a'.slots p.replicated i = none) :
    p.Ordered sel a' (done ++ [a.turns.length]) := by
  have hnone : ∀ i, a'.tickets p.replicated sel i = none := by
    intro i
    simp [tickets, hslots' i]
  refine ⟨⟨?_, ?_, ?_, ?_, ?_⟩, fun hf => absurd hf hfresh', fun hf => absurd hf hfresh'⟩
  · refine pairwise_append.mpr ⟨h.inOrder.sorted, pairwise_singleton _ _, ?_⟩
    intro d hd k hk
    rw [mem_singleton.mp hk]
    exact h.fresh_done hfresh d hd
  · intro d _ i n hn
    simp [hnone i] at hn
  · intro i j n hn
    simp [hnone i] at hn
  · intro d hd
    rw [hist.turns]
    rcases mem_append.mp hd with hd | hd
    · exact h.inOrder.done_le d hd
    · exact Nat.le_of_eq (mem_singleton.mp hd)
  · intro i n hn
    simp [hnone i] at hn

end

/-- Whatever a step does to the snapshots held, the writes made before it stay in order. -/
theorem Effect.ordered (heff : p.Effect gid a m e a' m') (h : p.Ordered sel a done)
    (hload : a.phase.loading = true → done = [])
    (hsel : ∀ t, sel { t with save := false } = true → sel t = true) : p.Ordered sel a' done := by
  cases heff with
  | load hl _ _ _ hsl hfr =>
    obtain rfl := hload hl
    exact ⟨InOrder.init (fun i => by simp [tickets, hsl i]) _, by simp,
      fun hf => absurd hf hfr⟩
  | turn _ _ _ _ _ _ hturns _ _ hsl => exact h.turn hturns hsl
  | take _ _ hist _ hfr hfresh' hfree ht _ _ _ hsl =>
    exact h.take hist hfr hfresh' hfree ht hsl
  | @save _ _ hist _ t hheld _ _ hfr t' ht' hsl =>
    refine h.drop hist (tickets_sub_of_update hheld ?_ hsl) hfr.mp
    rintro u rfl hu
    obtain rfl : u = { t with save := false } := by simpa using ht'
    exact ⟨t, rfl, hsel t hu, rfl⟩
  | @refuse _ _ hist _ _ hfr t hheld t' ht' hsl =>
    refine h.drop hist (tickets_sub_of_update hheld ?_ hsl) hfr.mp
    rintro u rfl hu
    rcases ht' with hn | hn | hn
    · cases hn
    · exact ⟨t, rfl, some.inj hn ▸ hu, by rw [some.inj hn]⟩
    · cases hn
      exact ⟨t, rfl, hsel t hu, rfl⟩
  | send _ _ hist _ hfr _ hheld _ _ _ hsl =>
    exact h.drop hist (tickets_sub_of_update hheld (by simp) hsl) hfr.mp
  | replicate _ _ hist _ _ hfresh' _ _ _ _ _ hslots' =>
    exact h.drop hist (fun i n hn => by simp [tickets, hslots' i] at hn) fun hf => absurd hf hfresh'
  | tag _ _ hist _ _ hfr hsl =>
    exact h.drop hist (fun i n hn => by simpa [tickets, hsl] using hn) hfr.mp
  | quiet _ hist _ hfr _ hsl =>
    exact h.drop hist (fun i n hn => by simpa [tickets, hsl] using hn) hfr

theorem Effect.snapshots {bs} (heff : p.Effect gid a m e a' m')
    (hload : a.phase.loading = true → done = [])
    (h : List.Forall₂ (fun n x => p.SnapshotOf a n (f x)) done bs) :
    List.Forall₂ (fun n x => p.SnapshotOf a' n (f x)) done bs := by
  rcases heff.extends with ⟨hl, -⟩ | ⟨hloaded, ts, hturns⟩
  · obtain rfl := hload hl
    obtain rfl := forall₂_nil_left_iff.mp h
    exact .nil
  · exact h.imp fun _ _ hn => hn.mono hloaded hturns

/-! ## Runs that write oldest first -/

variable (p) in
/-- The writer that takes the step holds the oldest of the snapshots that still go where
its own goes next : to the store, or to the sink. A refused save is free. -/
def OldestFirst (a : Activation S) (e : MailboxEvent S) : Prop :=
  e.refused = false → ∀ t, a.slots p.replicated e.slot = some t →
    ∀ j u, a.slots p.replicated j = some u →
      (t.save = true → u.save = true → t.turns ≤ u.turns) ∧
        (t.save = false → u.send = true → t.turns ≤ u.turns)

theorem mem_of_slots {r j u} (h : a.slots r j = some u) :
    j ∈ none :: (range a.handlers.length).map some := by
  cases j with
  | none => exact mem_cons_self
  | some k =>
    have hk : k < a.handlers.length := by
      by_contra hk
      simp [slots, getElem?_eq_none_iff.mpr (Nat.le_of_not_lt hk)] at h
    exact mem_cons_of_mem _ (mem_map_of_mem (mem_range.mpr hk))

instance (a : Activation S) (e : MailboxEvent S) : Decidable (p.OldestFirst a e) :=
  decidable_of_iff
    (e.refused = false → ∀ t ∈ a.slots p.replicated e.slot,
      ∀ j ∈ none :: (List.range a.handlers.length).map some, ∀ u ∈ a.slots p.replicated j,
        (t.save = true → u.save = true → t.turns ≤ u.turns) ∧
          (t.save = false → u.send = true → t.turns ≤ u.turns))
    ⟨fun h href t ht j u hu => h href t ht j (mem_of_slots hu) u hu,
      fun h href t ht j _ u hu => h href t ht j u hu⟩

variable (p) in
structure SaveOrder (gid : GrainId) (old : List Bytes) (a : Activation S) (m : Shared) :
    Prop where
  sound : p.Sound a
  ordered : p.Ordered Snapshot.save a a.saved
  writes : ∃ bs, m.store.writesTo gid = old ++ bs ∧ List.Forall₂ (p.SnapshotOf a) a.saved bs

theorem start_saveOrder (gid m) : p.SaveOrder gid (m.store.writesTo gid) p.start m := by
  have hslots : ∀ i, p.start.slots p.replicated i = none := by
    intro i
    unfold start
    cases p.entry <;> cases i <;> simp [Activation.start, slots, Phase.snapshot]
  have hsv : p.start.saved = [] := by
    unfold start
    cases p.entry <;> rfl
  have hnone : ∀ i, p.start.tickets p.replicated save i = none := by
    intro i
    simp [tickets, hslots i]
  refine ⟨start_sound, ⟨hsv ▸ InOrder.init hnone _, ?_, ?_⟩, [], by simp, by simp [hsv]⟩
  · intro _ d hd
    simp [hsv] at hd
  · intro _ i n hn
    simp [hnone i] at hn

theorem Step.saveOrder {old} (hs : p.Step gid a m e a' m')
    (hguard : p.OldestFirst a e) (h : p.SaveOrder gid old a m) : p.SaveOrder gid old a' m' := by
  have hsd := hs.sound h.sound
  have heff := hs.effect h.sound.wf
  have hn : a.phase.loading = true → a.saved = [] := fun hl => (h.sound.wf.fresh hl).2.2
  obtain ⟨bs, hbs, hsnap⟩ := h.writes
  have hsnap' := heff.snapshots (f := id) hn hsnap
  have hkeep : a'.saved = a.saved → m'.store.writesTo gid = m.store.writesTo gid →
      p.SaveOrder gid old a' m' := by
    intro hsaved hm
    have hord := heff.ordered h.ordered hn nofun
    exact ⟨hsd, hsaved ▸ hord, bs, hm ▸ hbs, hsaved ▸ hsnap'⟩
  cases heff with
  | load _ _ _ hnil => exact hkeep (hnil.2.2.1.trans hnil.2.2.2.symm) rfl
  | @save _ _ hist hacc t hheld hsv hsaved hfresh t' ht' hslots =>
    have hmin :=  fun j u hu hus => (hguard hacc t hheld j u hu).1 hsv hus
    refine ⟨hsd, ?_, bs ++ [t.bytes], ?_, ?_⟩
    · rw [hsaved]
      refine h.ordered.finish hist hfresh.mp hheld hsv hmin ?_ hslots
      rintro u rfl
      obtain rfl : u = { t with save := false } := by simpa using ht'
      rfl
    · simp [hbs]
    · rw [hsaved]
      exact rel_append hsnap' (.cons ((h.sound.held _ _ hheld).same hist) .nil)
  | tag _ _ _ hsaved =>
    refine hkeep hsaved ?_
    rw [Shared.store_save, WriteLog.writesTo_write_ne _ _ (versionGrainId_ne gid)]
  | turn _ _ _ _ _ _ _ hsaved => exact hkeep hsaved rfl
  | take _ _ _ hsaved | refuse _ _ _ hsaved | send _ _ _ hsaved | replicate _ _ _ hsaved
  | quiet _ _ hsaved => exact hkeep hsaved rfl

variable (p) in
/-- The task is sound and the entries of the sink were sent in order, with increasing
numbers. -/
structure SendOrder (gid : GrainId) (old : List (ℕ × Bytes)) (a : Activation S) (m : Shared) :
    Prop where
  sound : p.Sound a
  sends : ∃ ns new, (m.sinks gid).entries = old ++ new ∧ p.Ordered Snapshot.send a ns ∧
    List.Forall₂ (fun n x => p.SnapshotOf a n x.2) ns new ∧
    new.Pairwise (fun x y => x.1 < y.1) ∧ (∀ x ∈ new, x.1 < (m.sinks gid).nextSequence) ∧
    (a.phase.loading = true → new = [])

def NumbersLeft (gid : GrainId) (m : Shared) : Prop :=
  (m.sinks gid).nextSequence + 1 < 2 ^ 64

instance (gid : GrainId) (m : Shared) : Decidable (NumbersLeft gid m) :=
  inferInstanceAs (Decidable (_ < _))

theorem start_sendOrder (gid m) : p.SendOrder gid (m.sinks gid).entries p.start m := by
  have hnone : ∀ i, p.start.tickets p.replicated send i = none := by
    intro i
    unfold start
    cases p.entry <;> cases i <;> simp [tickets, Activation.start, slots, Phase.snapshot]
  refine ⟨start_sound, [], [], by simp, ⟨InOrder.init hnone _, by simp, ?_⟩, .nil, .nil, by simp,
    fun _ => rfl⟩
  intro _ i n hn
  simp [hnone i] at hn

theorem sendOrder_publish {old new n bytes} (hsd : p.Sound a') (hl : a'.phase.loading = false)
    (hnum : NumbersLeft gid m) (hnew : (m.sinks gid).entries = old ++ new)
    (hsnaps : List.Forall₂ (fun n x => p.SnapshotOf a' n x.2) ns new)
    (hsrt : new.Pairwise fun x y => x.1 < y.1)
    (hlt : ∀ x ∈ new, x.1 < (m.sinks gid).nextSequence) (hsnap : p.SnapshotOf a' n bytes)
    (hdropped : p.Ordered send a' ns) (hsent : p.Ordered send a' (ns ++ [n])) (d) :
    p.SendOrder gid old a' (m.publish gid bytes d) := by
  have hnext : ((m.publish gid bytes d).sinks gid).nextSequence =
      (m.sinks gid).nextSequence + 1 := by
    rw [Shared.sinks_publish_self]
    exact Nat.mod_eq_of_lt hnum
  cases d with
  | false =>
    refine ⟨hsd, ns, new, by simpa [Sink.send] using hnew, hdropped, hsnaps, hsrt, ?_,
      fun hl' => absurd hl' (by simp [hl])⟩
    intro x hx
    have := hlt x hx
    omega
  | true =>
    refine ⟨hsd, ns ++ [n], new ++ [((m.sinks gid).nextSequence, bytes)], ?_, hsent,
      rel_append hsnaps (.cons hsnap .nil), ?_, ?_, fun hl' => absurd hl' (by simp [hl])⟩
    · simp [Sink.send, hnew]
    · refine pairwise_append.mpr ⟨hsrt, pairwise_singleton _ _, ?_⟩
      intro x hx y hy
      rw [mem_singleton.mp hy]
      exact hlt x hx
    · intro x hx
      rw [hnext]
      rcases mem_append.mp hx with hx | hx
      · have := hlt x hx
        omega
      · rw [mem_singleton.mp hx]
        exact Nat.lt_succ_self _

theorem Step.sendOrder {old} (hs : p.Step gid a m e a' m') (hguard : p.OldestFirst a e)
    (hnum : NumbersLeft gid m) (h : p.SendOrder gid old a m) : p.SendOrder gid old a' m' := by
  have hsd := hs.sound h.sound
  have heff := hs.effect h.sound.wf
  obtain ⟨ns, new, hnew, hord, hsnap, hsrt, hlt, hload⟩ := h.sends
  have hn : a.phase.loading = true → ns = [] := by
    intro hl
    rw [hload hl] at hsnap
    exact forall₂_nil_right_iff.mp hsnap
  have hord' := heff.ordered hord hn fun _ hsend => hsend
  have hsnap' := heff.snapshots hn hsnap
  have hkeep : (a'.phase.loading = true → a.phase.loading = true) →
      m'.sinks gid = m.sinks gid → p.SendOrder gid old a' m' := fun hl hm =>
    ⟨hsd, ns, new, hm ▸ hnew, hord', hsnap', hsrt, hm ▸ hlt, fun h => hload (hl h)⟩
  cases heff with
  | load hl => exact hkeep (fun _ => hl) rfl
  | @send _ hl' hist _ hfr hacc t hheld hsv hsend d hslots =>
    have hmin :=  fun j u hu hus => (hguard hacc t hheld j u hu).2 hsv hus
    exact sendOrder_publish hsd hl' hnum hnew hsnap' hsrt hlt
      ((h.sound.held _ _ hheld).same hist) hord'
      (hord.finish hist hfr.mp hheld hsend hmin (by simp) hslots) d
  | replicate hl hl' hist _ hfr hfresh' _ _ hb d _ hslots' =>
    exact sendOrder_publish hsd hl' hnum hnew hsnap' hsrt hlt
      ((h.sound.snapshotOf_state hl hb).same hist) hord'
      (hord.finishFresh hist hfr hfresh' hslots') d
  | quiet hl => exact hkeep (fun h' => hl ▸ h') rfl
  | turn _ _ hl' => exact hkeep (by simp [hl']) rfl
  | take _ hl' | save _ hl' | refuse _ hl' | tag _ hl' => exact hkeep (by simp [hl']) rfl

/-! ## The order of a whole run -/

variable (p) in
/-- The states written to the store since `m₀` are those after an increasing number of
turns. -/
def StoreInOrder (gid : GrainId) (m₀ : Shared) (a : Activation S) (m : Shared) : Prop :=
  ∃ ns bs, m.store.writesTo gid = m₀.store.writesTo gid ++ bs ∧ ns.Pairwise (· < ·) ∧
    List.Forall₂ (p.SnapshotOf a) ns bs

variable (p) in
/-- The entries the sink has taken since `m₀` carry increasing numbers, and the states
after an increasing number of turns. -/
def SinkInOrder (gid : GrainId) (m₀ : Shared) (a : Activation S) (m : Shared) : Prop :=
  ∃ ns new, (m.sinks gid).entries = (m₀.sinks gid).entries ++ new ∧
    new.Pairwise (fun x y => x.1 < y.1) ∧ ns.Pairwise (· < ·) ∧
    List.Forall₂ (fun n x => p.SnapshotOf a n x.2) ns new

/-- Saves and entries arrive in the order in which the handlers ran if none is accepted while a
handler that ran earlier still has its own to do. -/
theorem writes_in_lock_order (p : PersistentArgs S) (gid : GrainId) (m₀ : Shared)
    (es : List (MailboxEvent S)) (a : Activation S) (m : Shared)
    (hguard : Along (p.transition gid)
      (fun s e => p.OldestFirst s.1 e ∧ NumbersLeft gid s.2) (p.start, m₀) es)
    (hrun : exec (p.transition gid) (p.start, m₀) es = some (a, m)) :
    p.StoreInOrder gid m₀ a m ∧ p.SinkInOrder gid m₀ a m := by
  have hinv := exec_invariant (I := fun s => p.SaveOrder gid (m₀.store.writesTo gid) s.1 s.2 ∧
      p.SendOrder gid (m₀.sinks gid).entries s.1 s.2)
    (fun s e s' hg hI hstep => ⟨(step_sound hstep).saveOrder hg.1 hI.1,
      (step_sound hstep).sendOrder hg.1 hg.2 hI.2⟩)
    ⟨start_saveOrder gid m₀, start_sendOrder gid m₀⟩ hguard hrun
  obtain ⟨bs, hbs, hsnap⟩ := hinv.1.writes
  obtain ⟨ns, new, hnew, hord, hsnap', hsorted, -, -⟩ := hinv.2.sends
  exact ⟨⟨a.saved, bs, hbs, hinv.1.ordered.inOrder.sorted, hsnap⟩,
    ns, new, hnew, hsorted, hord.inOrder.sorted, hsnap'⟩

/-- Two messages to a reentrant counter, whose handler tasks run in order. Once both have
given up the lock, task `j` saves and sends, and then task `k`. -/
def twoMessages (j k : ℕ) : List (MailboxEvent UInt8) :=
  [.load none, .onActivate 0, .recv (addMessage 1), .recv (addMessage 2),
    .handler 0 .acquire, .handler 0 .run, .handler 0 .release,
    .handler 1 .acquire, .handler 1 .run, .handler 1 .release,
    .handler j (.save none), .handler j (.send true),
    .handler k (.save none), .handler k (.send true)]

def replicatedCounter : PersistentArgs UInt8 :=
  counter true .writeThrough (.run true)

/-- Saved and sent in the order of the lock, both arrive in order. -/
theorem writes_in_lock_order_counter :
    ∃ a m, exec (replicatedCounter.transition ⟨"Counter", "k"⟩)
        (replicatedCounter.start, .empty) (twoMessages 0 1) = some (a, m) ∧
      m.store.writesTo ⟨"Counter", "k"⟩ = [[1], [3]] ∧
      replicatedCounter.StoreInOrder ⟨"Counter", "k"⟩ .empty a m ∧
      replicatedCounter.SinkInOrder ⟨"Counter", "k"⟩ .empty a m := by
  refine ⟨_, _, rfl, rfl, writes_in_lock_order _ _ _ (twoMessages 0 1) _ _ ?_ rfl⟩
  decide +kernel

theorem turns_of_snapshotOf {a} (hl : a.loaded = 0)
    (ht : a.turns = [.activate, .handled (addMessage 1), .handled (addMessage 2)]) {x y}
    (hx : replicatedCounter.SnapshotOf a x [3])
    (hy : replicatedCounter.SnapshotOf a y [1]) : y < x := by
  obtain ⟨hxle, hx⟩ := hx
  obtain ⟨hyle, hy⟩ := hy
  rw [hl, ht] at hx hy
  rw [ht] at hxle hyle
  have hx3 : x = 3 := by
    have hcases : x = 0 ∨ x = 1 ∨ x = 2 ∨ x = 3 := by
      simp at hxle
      omega
    rcases hcases with rfl | rfl | rfl | rfl
    · exact absurd hx (by decide)
    · exact absurd hx (by decide)
    · exact absurd hx (by decide)
    · rfl
  have hy3 : y ≠ 3 := by
    rintro rfl
    exact absurd hy (by decide)
  simp at hyle
  omega

theorem not_pairwise_of_snapshotOf {a} (hl : a.loaded = 0)
    (ht : a.turns = [.activate, .handled (addMessage 1), .handled (addMessage 2)]) {b c}
    (h : List.Forall₂ (fun n x => replicatedCounter.SnapshotOf a n (f x)) ns [b, c])
    (hb : f b = [3]) (hc : f c = [1]) : ¬ns.Pairwise (· < ·) := by
  intro hsorted
  obtain ⟨x, _, hx, hrest, rfl⟩ := forall₂_cons_right_iff.mp h
  obtain ⟨y, _, hy, -, rfl⟩ := forall₂_cons_right_iff.mp hrest
  have hlt := turns_of_snapshotOf hl ht (hb ▸ hx) (hc ▸ hy)
  have := (pairwise_cons.mp hsorted).1 y mem_cons_self
  omega

/-- The handler that ran second saves and sends first : the store and the sink end with
the older state. -/
theorem newer_state_stored_first :
    ∃ a m, exec (replicatedCounter.transition ⟨"Counter", "k"⟩)
        (replicatedCounter.start, .empty) (twoMessages 1 0) = some (a, m) ∧
      ¬replicatedCounter.StoreInOrder ⟨"Counter", "k"⟩ .empty a m ∧
      ¬replicatedCounter.SinkInOrder ⟨"Counter", "k"⟩ .empty a m := by
  obtain ⟨a, m, hrun, hl, ht, hstore, hsink⟩ : ∃ a m,
      exec (replicatedCounter.transition ⟨"Counter", "k"⟩)
        (replicatedCounter.start, .empty) (twoMessages 1 0) = some (a, m) ∧
      a.loaded = 0 ∧ a.turns = [.activate, .handled (addMessage 1), .handled (addMessage 2)] ∧
      m.store.writesTo ⟨"Counter", "k"⟩ = [[3], [1]] ∧
      (m.sinks ⟨"Counter", "k"⟩).entries = [(0, [3]), (1, [1])] :=
    ⟨_, _, rfl, rfl, rfl, rfl, rfl⟩
  refine ⟨a, m, hrun, ?_, ?_⟩
  · rintro ⟨ns, bs, hbs, hsorted, hsnap⟩
    obtain rfl : bs = [[3], [1]] := hbs.symm.trans hstore
    exact not_pairwise_of_snapshotOf (f := id) hl ht hsnap rfl rfl hsorted
  · rintro ⟨ns, new, hnew, -, hsorted, hsnap⟩
    obtain rfl : new = [(0, [3]), (1, [1])] := hnew.symm.trans hsink
    exact not_pairwise_of_snapshotOf hl ht hsnap rfl rfl hsorted

end PersistentArgs

end Orlando
