import Orlando.Cluster
import Orlando.SingleActivation

/-!
# The gauge of active grains

`orlando.grain.activations_active` is meant to count the entries of the directory for each grain
type. `get_or_insert` increments it for a vacant entry, `drain` and both `remove`s decrement it for
each entry they take out, and `register` enters an activation without a look at it.
-/

namespace Orlando

open AList Silo List

variable {S : Type}

inductive GaugedCall (S : Type) where
  | register (gid : GrainId) (task : Task S)
  | getOrInsert (gid : GrainId) (kind : MailboxKind S)
  /-- `GrainDirectory::remove`, and that of `GrainActivator`, which goes on to the worker pools. -/
  | remove (gid : GrainId)
  | drain
  | setMaxActivations (limit : ℕ)
  /-- Between two calls the tasks receive, end and close their channels. -/
  | tasks (tasks : List (Task S))

structure GaugedDirectory (S : Type) where
  silo : Silo S
  gauge : String → ℤ
  /-- The ids that `register` found vacant. -/
  uncounted : List GrainId

namespace GaugedDirectory

def init (m : Shared) : GaugedDirectory S where
  silo := .init m
  gauge := fun _ => 0
  uncounted := []

variable (d : GaugedDirectory S)

def adjust (gid : GrainId) (delta : ℤ) : String → ℤ :=
  Function.update d.gauge gid.typeName (d.gauge gid.typeName + delta)

def remove (gid : GrainId) : GaugedDirectory S :=
  { d with
    silo := { d.silo with activations := d.silo.activations.erase gid }
    gauge := if gid ∈ d.silo.activations then d.adjust gid (-1) else d.gauge }

def step : GaugedCall S → GaugedDirectory S
  | .register gid task =>
    { d with
      silo := { d.silo with
        activations := d.silo.activations.insert gid d.silo.tasks.length
        tasks := d.silo.tasks ++ [task] }
      uncounted := if gid ∈ d.silo.activations then d.uncounted else gid :: d.uncounted }
  | .getOrInsert gid kind =>
    { d with
      silo := (d.silo.activate gid kind).2
      gauge := if gid ∉ d.silo.activations ∧ d.silo.accepts gid then d.adjust gid 1
        else d.gauge }
  | .remove gid => d.remove gid
  | .drain =>
    d.silo.activations.keys.foldl remove { d with silo := { d.silo with draining := true } }
  | .setMaxActivations limit => { d with silo := { d.silo with maxActivations := limit } }
  | .tasks tasks => { d with silo := { d.silo with tasks := tasks } }

def ofType (ty : String) (gids : List GrainId) : ℤ :=
  gids.countP fun gid => gid.typeName = ty

def entries (ty : String) : ℤ :=
  ofType ty d.silo.activations.keys

variable {d} {gid : GrainId} {ty : String}

theorem ofType_cons (gids) :
    ofType ty (gid :: gids) = ofType ty gids + if gid.typeName = ty then 1 else 0 := by
  simp only [ofType, countP_cons, decide_eq_true_eq]
  split_ifs <;> simp

theorem ofType_erase {gids} (h : gid ∈ gids) :
    ofType ty (gids.erase gid) = ofType ty gids - if gid.typeName = ty then 1 else 0 := by
  have hperm : ofType ty gids = ofType ty (gid :: gids.erase gid) := by
    rw [ofType, ofType, (perm_cons_erase h).countP_eq]
  rw [hperm, ofType_cons, Int.add_sub_cancel]

theorem ofType_insert (a : AList fun _ : GrainId => ℕ) (i) :
    ofType ty (a.insert gid i).keys =
      ofType ty a.keys + if gid ∉ a ∧ gid.typeName = ty then 1 else 0 := by
  rw [keys_insert, ofType_cons]
  by_cases h : gid ∈ a
  · rw [ofType_erase (mem_keys.mp h)]
    simp [h]
  · rw [erase_of_not_mem (mt mem_keys.mpr h)]
    simp [h]

theorem adjust_apply (delta) :
    d.adjust gid delta ty = d.gauge ty + if gid.typeName = ty then delta else 0 := by
  by_cases h : gid.typeName = ty
  · subst h
    simp [adjust]
  · simp [adjust, Function.update_of_ne (Ne.symm h), h]

/-- Every entry is counted, but for those that filled a vacant place by `register`. -/
def Counted (d : GaugedDirectory S) : Prop :=
  ∀ ty, d.entries ty = d.gauge ty + ofType ty d.uncounted

theorem Counted.remove (h : d.Counted) (gid) : (d.remove gid).Counted := by
  intro ty
  have hty := h ty
  by_cases hm : gid ∈ d.silo.activations
  · simp only [GaugedDirectory.remove, entries, keys_erase, if_pos hm,
      ofType_erase (mem_keys.mp hm), adjust_apply] at hty ⊢
    split_ifs <;> omega
  · simp only [GaugedDirectory.remove, entries, keys_erase, if_neg hm,
      erase_of_not_mem (mt mem_keys.mpr hm)] at hty ⊢
    exact hty

theorem Counted.register (h : d.Counted) (gid task) : (d.step (.register gid task)).Counted := by
  intro ty
  have hty := h ty
  simp only [step, entries, ofType_insert] at hty ⊢
  by_cases hm : gid ∈ d.silo.activations
  · simpa [hm] using hty
  · simp only [hm, not_false_eq_true, true_and, if_false, ofType_cons]
    omega

/-- `get_or_insert` keeps the map, for a grain that has an entry or one it turns away, or it enters
the grain. -/
theorem activate_cases {s : Silo S} (gid kind) :
    ((s.activate gid kind).2.activations = s.activations ∧
      (gid ∈ s.activations ∨ s.accepts gid = false)) ∨
    s.accepts gid = true ∧
      ∃ i, (s.activate gid kind).2.activations = s.activations.insert gid i := by
  cases ho : s.openTask gid with
  | some r =>
    obtain ⟨i, t⟩ := r
    have hmem : gid ∈ s.activations :=
      lookup_isSome.mp (Option.isSome_of_eq_some (openTask_eq_some.mp ho).1)
    exact .inl ⟨by simp [activate, existing, ho], .inl hmem⟩
  | none =>
    by_cases hfull : s.draining ∨ 0 < s.maxActivations ∧
        s.maxActivations ≤ s.activations.keys.length
    · refine .inl ⟨by simp [activate, ho, hfull], .inr ?_⟩
      simp only [accepts, ho]
      grind
    · refine .inr ⟨?_, s.tasks.length, by simp [activate, spawn, ho, hfull]⟩
      simp only [accepts, ho]
      grind

theorem Counted.getOrInsert (h : d.Counted) (gid kind) :
    (d.step (.getOrInsert gid kind)).Counted := by
  intro ty
  have hty := h ty
  simp only [step, entries] at hty ⊢
  rcases activate_cases (s := d.silo) gid kind with ⟨hkept, hm | hfull⟩ | ⟨hroom, i, hnew⟩
  · simpa only [hkept, hm, not_true_eq_false, false_and, if_false] using hty
  · simpa only [hkept, hfull, Bool.false_eq_true, and_false, if_false] using hty
  · rw [hnew, ofType_insert]
    by_cases hm : gid ∈ d.silo.activations
    · simpa only [hm, not_true_eq_false, false_and, if_false, Int.add_zero] using hty
    · simp only [hm, hroom, not_false_eq_true, true_and, if_true, adjust_apply]
      omega

theorem Counted.step (h : d.Counted) (call) : (d.step call).Counted := by
  cases call with
  | register gid task => exact h.register gid task
  | getOrInsert gid kind => exact h.getOrInsert gid kind
  | remove gid => exact h.remove gid
  | drain => exact foldlRecOn _ _ h fun _ hd gid _ => hd.remove gid
  | setMaxActivations limit => exact h
  | tasks tasks => exact h

theorem ofType_eq_zero_iff (gids) : (∀ ty, ofType ty gids = 0) ↔ gids = [] := by
  refine ⟨fun h => ?_, fun h ty => h ▸ rfl⟩
  cases gids with
  | nil => rfl
  | cons gid gids =>
    have hgid := h gid.typeName
    have hpos : (0 : ℤ) ≤ ofType gid.typeName gids := Int.natCast_nonneg _
    rw [ofType_cons, if_pos rfl] at hgid
    omega

/-- The gauge is right as long as no `register` has filled a vacant entry, and then too low by one
for each that did. -/
theorem gauge_matches_iff (m : Shared) (calls : List (GaugedCall S)) :
    (∀ ty, (calls.foldl step (init m)).entries ty =
      (calls.foldl step (init m)).gauge ty + ofType ty (calls.foldl step (init m)).uncounted) ∧
    ((∀ ty, (calls.foldl step (init m)).gauge ty = (calls.foldl step (init m)).entries ty) ↔
      (calls.foldl step (init m)).uncounted = []) := by
  have hcounted : (calls.foldl step (init m)).Counted :=
    foldlRecOn calls _ (fun _ => rfl) fun _ h call _ => h.step call
  refine ⟨hcounted, ?_⟩
  rw [← ofType_eq_zero_iff]
  refine forall_congr' fun ty => ?_
  have hty := hcounted ty
  omega

theorem gauge_misses_register :
    ∃ d : GaugedDirectory UInt8,
      (init Shared.empty).step (.register ⟨"Counter", "k"⟩
        ⟨⟨"Counter", "k"⟩, plainKind, plainKind.start, [], 1, false, false⟩) = d ∧
      d.gauge "Counter" = 0 ∧ d.entries "Counter" = 1 :=
  ⟨_, rfl, rfl, rfl⟩

end GaugedDirectory

end Orlando
