import Mathlib.Data.List.Induction

/-!
# Runs of a partial step function

A system is a step function `σ → ε → Option σ` : an event is refused in the states where it cannot
happen. A run is a list of events (`exec`), and `Along` says that every event of a run meets a
condition in the state it is taken from. What a step keeps under that condition, a run keeps
(`exec_invariant`), and a condition that fails along a run fails at a definite step
(`exists_of_not_along`).
-/

namespace Orlando

open List Option

variable {σ ε : Type*} {step : σ → ε → Option σ} {P Q : σ → ε → Prop} {es : List ε} {I : σ → Prop}
  {s t : σ} {R : ε → Prop} {α : Type*} {out : σ → ε → List α}

/-- The state after the events, if none of them is refused. -/
def exec (step : σ → ε → Option σ) : σ → List ε → Option σ
  | s, [] => some s
  | s, e :: es => (step s e).bind fun s' => exec step s' es

/-- Every event of the run meets `P` in the state it is taken from. -/
def Along (step : σ → ε → Option σ) (P : σ → ε → Prop) : σ → List ε → Prop
  | _, [] => True
  | s, e :: es => P s e ∧ ∀ s', step s e = some s' → Along step P s' es

instance Along.decidable [∀ s e, Decidable (P s e)] :
    (s : σ) → (es : List ε) → Decidable (Along step P s es)
  | _, [] => isTrue trivial
  | s, e :: es =>
    match hs : step s e with
    | none => decidable_of_iff (P s e) (by simp [Along, hs])
    | some s' =>
      have := Along.decidable s' es
      decidable_of_iff (P s e ∧ Along step P s' es) (by simp [Along, hs])

/-- A cut of a run before one of its events : before the last, or before one that the last
comes after. -/
theorem snoc_eq_append_cons {es past recent} {e a : ε} :
    es ++ [e] = past ++ a :: recent ↔ (past = es ∧ a = e ∧ recent = []) ∨
        ∃ recent', recent = recent' ++ [e] ∧ es = past ++ a :: recent' := by
  constructor
  · intro h
    rcases eq_nil_or_concat recent with rfl | ⟨recent', y, rfl⟩
    · obtain ⟨rfl, hl⟩ := append_inj' h rfl
      exact Or.inl ⟨rfl, (singleton_inj.mp hl).symm, rfl⟩
    · have h' : es ++ [e] = (past ++ a :: recent') ++ [y] := by simpa using h
      obtain ⟨rfl, hl⟩ := append_inj' h' rfl
      obtain rfl := singleton_inj.mp hl
      exact Or.inr ⟨recent', by simp, rfl⟩
  · rintro (⟨rfl, rfl, rfl⟩ | ⟨recent', rfl, rfl⟩)
    · rfl
    · simp

@[simp] theorem exec_nil (s) : exec step s [] = some s :=
  rfl

theorem exec_cons_eq_some {e} :
    exec step s (e :: es) = some t ↔ ∃ s', step s e = some s' ∧ exec step s' es = some t := by
  rw [exec, bind_eq_some_iff]

theorem exec_append (s es fs) :
    exec step s (es ++ fs) = (exec step s es).bind fun t => exec step t fs := by
  induction es generalizing s with
  | nil => rfl
  | cons e es ih =>
    rw [cons_append, exec, exec, bind_assoc]
    exact bind_congr fun s' _ => ih s'

theorem exec_snoc_eq_some {e} :
    exec step s (es ++ [e]) = some t ↔ ∃ u, exec step s es = some u ∧ step u e = some t := by
  rw [exec_append, bind_eq_some_iff]
  refine exists_congr fun u => and_congr Iff.rfl ?_
  rw [exec_cons_eq_some]
  simp

theorem exec_map {ε' : Type*} {step' : σ → ε' → Option σ} {f : ε → ε'}
    (hf : ∀ s e, step' s (f e) = step s e) (es s) : exec step' s (es.map f) = exec step s es := by
  induction es generalizing s with
  | nil => rfl
  | cons e es ih =>
    rw [map_cons, exec, exec, hf]
    exact bind_congr fun s' _ => ih s'

theorem Along.of_append :
    ∀ {es fs s}, Along step P s (es ++ fs) → Along step P s es
  | [], _, _, _ => trivial
  | _ :: _, _, _, h => ⟨h.1, fun s' hs' => (h.2 s' hs').of_append⟩

theorem Along.after :
    ∀ {es fs s t}, Along step P s (es ++ fs) → exec step s es = some t → Along step P t fs
  | [], _, _, _, h, ht => some.inj ht ▸ h
  | _ :: _, _, _, _, h, ht => by
    obtain ⟨s', hs', ht'⟩ := exec_cons_eq_some.mp ht
    exact (h.2 s' hs').after ht'

theorem exec_invariant (hst : ∀ s e s', P s e → I s → step s e = some s' → I s') :
    ∀ {es s t}, I s → Along step P s es → exec step s es = some t → I t
  | [], s, t, hI, _, ht => by
    obtain rfl : s = t := by simpa using ht
    exact hI
  | e :: es, s, t, hI, hP, ht => by
    obtain ⟨s', hs', ht'⟩ := exec_cons_eq_some.mp ht
    exact exec_invariant hst (hst s e s' hP.1 hI hs') (hP.2 s' hs') ht'

theorem along_true : ∀ es s, Along step (fun _ _ => True) s es
  | [], _ => trivial
  | _ :: es, _ => ⟨trivial, fun s' _ => along_true es s'⟩

theorem exec_invariant_of_step (hstep : ∀ s e s', I s → step s e = some s' → I s') (hI : I s)
    (ht : exec step s es = some t) : I t :=
  exec_invariant (P := fun _ _ => True) (fun s e s' _ => hstep s e s') hI (along_true es s) ht

theorem exec_countP_add_le {rank : σ → ℕ} {p : ε → Bool}
    (hst : ∀ s e s', P s e → I s → step s e = some s' → I s' ∧ rank s' + (if p e then 1 else 0) ≤
      rank s) :
    ∀ {es s t}, I s → Along step P s es → exec step s es = some t → es.countP p + rank t ≤ rank s
  | [], s, t, _, _, ht => by
    obtain rfl : s = t := by simpa using ht
    simp
  | e :: es, s, t, hI, hP, ht => by
    obtain ⟨s', hs', ht'⟩ := exec_cons_eq_some.mp ht
    obtain ⟨hI', hle⟩ := hst s e s' hP.1 hI hs'
    have ih := exec_countP_add_le hst hI' (hP.2 s' hs') ht'
    rw [countP_cons]
    omega

/-- What holds before a run, and is kept when a run gets one step longer, holds of a run
and the state it ends in. -/
theorem exec_induction {I : List ε → σ → Prop} {s} (hnil : I [] s)
    (hsnoc : ∀ es u e v, exec step s es = some u → I es u → step u e = some v → I (es ++ [e]) v) :
    ∀ {t}, exec step s es = some t → I es t := by
  induction es using List.reverseRecOn with
  | nil =>
    intro t ht
    exact some.inj ht ▸ hnil
  | append_singleton es e ih =>
    intro t ht
    obtain ⟨u, hu, hstep⟩ := exec_snoc_eq_some.mp ht
    exact hsnoc es u e t hu (ih hu) hstep

theorem exists_exec_of_rank (rank : σ → ℕ) {I G : σ → Prop}
    (h : ∀ s, I s → G s ∨ ∃ e t, step s e = some t ∧ R e ∧ I t ∧ rank t < rank s) {s} (hs : I s) :
    ∃ es t, exec step s es = some t ∧ (∀ e ∈ es, R e) ∧ I t ∧ G t := by
  induction hn : rank s using Nat.strongRecOn generalizing s with
  | _ n ih =>
    rcases h s hs with hG | ⟨e, t, hstep, he, ht, hlt⟩
    · exact ⟨[], s, rfl, nofun, hs, hG⟩
    · obtain ⟨es, u, hrun, hes, hu, hG⟩ := ih (rank t) (hn ▸ hlt) ht rfl
      exact ⟨e :: es, u, exec_cons_eq_some.mpr ⟨t, hstep, hrun⟩,
        forall_mem_cons.mpr ⟨he, hes⟩, hu, hG⟩

theorem Along.and_forall :
    ∀ {es s}, (∀ e ∈ es, R e) → Along step P s es → Along step (fun s e => R e ∧ P s e) s es
  | [], _, _, _ => trivial
  | e :: _, _, hR, h => ⟨⟨hR e (by simp), h.1⟩, fun s' hs' =>
      Along.and_forall (fun e' he' => hR e' (by simp [he'])) (h.2 s' hs')⟩

theorem along_snoc_iff {e} :
    ∀ {es s t}, exec step s es = some t → (Along step P s (es ++ [e]) ↔ Along step P s es ∧ P t e)
  | [], s, t, ht => by
    cases ht
    exact ⟨fun h => ⟨trivial, h.1⟩, fun h => ⟨h.2, fun _ _ => trivial⟩⟩
  | e' :: es, s, t, ht => by
    obtain ⟨s', hs', ht'⟩ := exec_cons_eq_some.mp ht
    have hiff := along_snoc_iff (e := e) ht'
    refine ⟨fun h => ?_, fun h => ⟨h.1.1, fun s'' hs'' => ?_⟩⟩
    · obtain ⟨hal, hP⟩ := hiff.mp (h.2 s' hs')
      exact ⟨⟨h.1, fun s'' hs'' => some.inj (hs'.symm.trans hs'') ▸ hal⟩, hP⟩
    · cases hs'.symm.trans hs''
      exact hiff.mpr ⟨h.1.2 s' hs', h.2⟩

theorem along_of_invariant (hst : ∀ s e s', P s e → I s → step s e = some s' → I s' ∧ Q s e) :
    ∀ {es s t}, I s → Along step P s es → exec step s es = some t → Along step Q s es
  | [], _, _, _, _, _ => trivial
  | e :: es, s, t, hI, hP, ht => by
    obtain ⟨s', hs', ht'⟩ := exec_cons_eq_some.mp ht
    obtain ⟨hI', hQ⟩ := hst s e s' hP.1 hI hs'
    refine ⟨hQ, fun s'' hs'' => ?_⟩
    cases hs'.symm.trans hs''
    exact along_of_invariant hst hI' (hP.2 s' hs') ht'

/-- Every state of the run meets `P`, from the first to the last. -/
def Throughout (step : σ → ε → Option σ) (P : σ → Prop) : σ → List ε → Prop
  | s, [] => P s
  | s, e :: es => P s ∧ ∀ s', step s e = some s' → Throughout step P s' es

theorem Throughout.head {P : σ → Prop} :
    ∀ {es s}, Throughout step P s es → P s
  | [], _, h => h
  | _ :: _, _, h => h.1

theorem Throughout.single {P : σ → Prop} {s s' e} (hs : P s)
    (hstep : step s e = some s') (hs' : P s') : Throughout step P s [e] :=
  ⟨hs, fun _ h => some.inj (hstep.symm.trans h) ▸ hs'⟩

theorem Throughout.snoc {P : σ → Prop} {e t'} :
    ∀ {es s t}, Throughout step P s es → exec step s es = some t →
      step t e = some t' → P t' → Throughout step P s (es ++ [e])
  | [], s, t, h, ht, hst, ht' => by
    cases ht
    exact .single h hst ht'
  | e' :: es, s, t, h, ht, hst, ht' => by
    obtain ⟨s', hs', ht⟩ := exec_cons_eq_some.mp ht
    refine ⟨h.1, fun s'' hs'' => ?_⟩
    cases hs'.symm.trans hs''
    exact (h.2 s' hs').snoc ht hst ht'

theorem throughout_of_invariant {I Q : σ → Prop} (hQ : ∀ s, I s → Q s)
    (hst : ∀ s e s', P s e → I s → step s e = some s' → I s') :
    ∀ es s, I s → Along step P s es → Throughout step Q s es
  | [], s, hI, _ => hQ s hI
  | e :: es, s, hI, hP => ⟨hQ s hI, fun s' hs' =>
      throughout_of_invariant hQ hst es s' (hst s e s' hP.1 hI hs') (hP.2 s' hs')⟩

/-- Where a step leads to a state that meets `Q` exactly if it meets `P`, a run never leaves the
states that meet `Q` exactly if all its steps meet `P`. -/
theorem throughout_iff_along {I Q : σ → Prop} (hQ : ∀ s, I s → Q s)
    (hn : ∀ s e, I s → step s e = none → P s e)
    (hst : ∀ s e s', I s → step s e = some s' → (Q s' ↔ P s e) ∧ (P s e → I s')) :
    ∀ es s, I s → (Throughout step Q s es ↔ Along step P s es)
  | [], s, hI => iff_of_true (hQ s hI) trivial
  | e :: es, s, hI => by
    cases hs : step s e with
    | none => simp [Throughout, Along, hs, hQ s hI, hn s e hI hs]
    | some s' =>
      obtain ⟨hiff, hI'⟩ := hst s e s' hI hs
      have hes : P s e → (Throughout step Q s' es ↔ Along step P s' es) := fun hP =>
        throughout_iff_along hQ hn hst es s' (hI' hP)
      simp only [Throughout, Along, hs, some.injEq, forall_eq']
      exact ⟨fun h => ⟨hiff.mp h.2.head, (hes (hiff.mp h.2.head)).mp h.2⟩,
        fun h => ⟨hQ s hI, (hes h.1).mpr h.2⟩⟩

/-- What a step between states that meet `Q` keeps, a run keeps that never leaves them. -/
theorem exec_invariant_throughout {I Q : σ → Prop}
    (hst : ∀ s e s', P s e → Q s' → I s → step s e = some s' → I s') :
    ∀ {es s t}, I s → Along step P s es → Throughout step Q s es → exec step s es = some t → I t
  | [], s, t, hI, _, _, ht => some.inj ht ▸ hI
  | e :: es, s, t, hI, hP, hQ, ht => by
    obtain ⟨s', hs', ht'⟩ := exec_cons_eq_some.mp ht
    have hQ' := hQ.2 s' hs'
    exact exec_invariant_throughout hst (hst s e s' hP.1 hQ'.head hI hs') (hP.2 s' hs') hQ' ht'

/-- What the steps of a run give out, in order. -/
def outputs {α : Type*} (step : σ → ε → Option σ) (out : σ → ε → List α) : σ → List ε → List α
  | _, [] => []
  | s, e :: es => out s e ++ (step s e).elim [] fun s' => outputs step out s' es

theorem outputs_append {fs} :
    ∀ {es s t}, exec step s es = some t →
      outputs step out s (es ++ fs) = outputs step out s es ++ outputs step out t fs
  | [], s, t, ht => by
    cases ht
    rfl
  | e :: es, s, t, ht => by
    obtain ⟨s', hs', ht'⟩ := exec_cons_eq_some.mp ht
    rw [cons_append, outputs, outputs, hs', elim_some, elim_some, outputs_append ht', append_assoc]

theorem outputs_snoc {e} (ht : exec step s es = some t) :
    outputs step out s (es ++ [e]) = outputs step out s es ++ out t e := by
  rw [outputs_append ht, outputs]
  cases step t e <;> simp [outputs]

theorem exists_of_not_along :
    ∀ {es s t}, exec step s es = some t → ¬Along step P s es →
      ∃ es₁ e es₂ u v, es = es₁ ++ e :: es₂ ∧ exec step s es₁ = some u ∧
        step u e = some v ∧ exec step v es₂ = some t ∧ Along step P s es₁ ∧ ¬P u e
  | [], _, _, _, h => (h trivial).elim
  | e :: es, s, t, hrun, h => by
    obtain ⟨s', hs', hrun'⟩ := exec_cons_eq_some.mp hrun
    have hcons : ∀ {fs}, P s e → Along step P s' fs → Along step P s (e :: fs) :=
      fun he hal => ⟨he, fun s'' hs'' => some.inj (hs'.symm.trans hs'') ▸ hal⟩
    by_cases he : P s e
    · obtain ⟨es₁, e', es₂, u, v, rfl, hu, hv, hrest, hal, hP⟩ :=
        exists_of_not_along hrun' fun hal => h (hcons he hal)
      exact ⟨e :: es₁, e', es₂, u, v, rfl, exec_cons_eq_some.mpr ⟨s', hs', hu⟩, hv, hrest,
        hcons he hal, hP⟩
    · exact ⟨[], e, es, s, s', rfl, rfl, hs', hrun', trivial, he⟩

end Orlando
