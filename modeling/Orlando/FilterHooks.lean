import Orlando.References

/-!
# The hooks of the filters of a call

`ask` and `try_ask` of a `GrainRef` run `on_before` of the filters in order, and `on_after` of all
of them at the end. But a call that a filter rejects returns at once, and the filters that have
accepted it are told nothing more.
-/

namespace Orlando

open List FilterChain GrainRef

inductive HookCall where
  | before (i : ℕ) (accepted : Bool)
  | after (i : ℕ) (resultOk : Bool)
deriving DecidableEq

namespace HookCall

def isAfter (i : ℕ) : HookCall → Bool
  | before _ _ => false
  | after j _ => j == i

end HookCall

/-- What a call of a `GrainRef` has its filters do, and what it returns. -/
structure HookedCall (R : Type) where
  hooks : List HookCall
  result : Except GrainError R

namespace FilterChain

def beforeHooks (info : GrainCallInfo) (asked : FilterChain) : List HookCall :=
  asked.mapIdx fun i filter => .before i (filter info).isOk

def runAfter (filters : FilterChain) (resultOk : Bool) : List HookCall :=
  filters.mapIdx fun i _ => .after i resultOk

theorem runBefore_eq_error {info filters e} (h : (runBefore info filters).2 = .error e) :
    ∃ accepting filter rest, filters = accepting ++ filter :: rest ∧
      (runBefore info filters).1 = accepting ++ [filter] ∧
      (∀ f ∈ accepting, f info = .ok ()) ∧ filter info = .error e := by
  induction filters with
  | nil => cases h
  | cons filter filters ih =>
    cases hfilter : filter info with
    | error e' =>
      simp only [runBefore, hfilter] at h ⊢
      cases h
      exact ⟨[], filter, filters, rfl, rfl, by simp, hfilter⟩
    | ok =>
      simp only [runBefore, hfilter] at h ⊢
      obtain ⟨accepting, last, rest, hfilters, hasked, hall, hlast⟩ := ih h
      exact ⟨filter :: accepting, last, rest, congrArg _ hfilters, congrArg _ hasked,
        forall_mem_cons.mpr ⟨hfilter, hall⟩, hlast⟩

def RejectsAtFirst (info : GrainCallInfo) (filters : FilterChain) : Prop :=
  ∀ first ∈ filters.head?, first info = .ok () → ∀ f ∈ filters, f info = .ok ()

end FilterChain

namespace GrainRef

variable {R : Type} (r : GrainRef) (m : Outgoing) (response : Except GrainError R)

def hooked (put : RequestContext → Except GrainError RequestContext) : HookedCall R :=
  let info := m.info r.grainId
  match FilterChain.runBefore info r.filters with
  | (asked, .error e) => ⟨FilterChain.beforeHooks info asked, .error (.handlerFailed e)⟩
  | (asked, .ok ()) =>
    let result := (put (m.askContext r.target)).bind fun _ => response
    ⟨FilterChain.beforeHooks info asked ++ r.filters.runAfter result.isOk, result⟩

def askHooked : HookedCall R :=
  if m.current.isInCallChain r.grainId then
    ⟨[], .error (.deadlockDetected (m.current.callChain.getD "unknown" ++
      " -> " ++ r.grainId.entry))⟩
  else r.hooked m response m.send

def tryAskHooked : HookedCall R :=
  r.hooked m response m.trySend

variable (put : RequestContext → Except GrainError RequestContext)

theorem hooked_result :
    (r.hooked m response put).result = (r.filtered m put).result.bind fun _ => response := by
  rcases hrun : runBefore (m.info r.grainId) r.filters with ⟨asked, _ | _⟩ <;>
    simp [hooked, filtered, hrun, Except.bind]

theorem askHooked_result :
    (r.askHooked m response).result = (r.ask m).result.bind fun _ => response := by
  unfold askHooked ask
  split_ifs
  · rfl
  · exact hooked_result r m response m.send

end GrainRef

/-- Exactly the filters that have accepted the call are told of its end, once each. -/
def HookedCall.Paired {R : Type} (c : HookedCall R) : Prop :=
  ∀ i, c.hooks.countP (·.isAfter i) = if .before i true ∈ c.hooks then 1 else 0

namespace FilterChain

variable {info : GrainCallInfo} {asked filters : FilterChain} {i : ℕ}

theorem before_mem_iff : .before i true ∈ beforeHooks info asked ↔
    ∃ f, asked[i]? = some f ∧ f info = .ok () := by
  have hok : ∀ f : GrainCallFilter, (f info).isOk = true ↔ f info = .ok () := fun f => by
    cases f info <;> simp [Except.isOk, Except.toBool]
  simp [beforeHooks, mem_mapIdx, getElem?_eq_some_iff, hok]

theorem countP_beforeHooks : (beforeHooks info asked).countP (·.isAfter i) = 0 := by
  rw [countP_eq_zero]
  intro c hc
  obtain ⟨j, hj, rfl⟩ := mem_mapIdx.mp hc
  exact Bool.false_ne_true

theorem countP_runAfter (resultOk) :
    (runAfter filters resultOk).countP (·.isAfter i) = if i < filters.length then 1 else 0 := by
  induction filters using reverseRecOn with
  | nil => rfl
  | append_singleton filters filter ih =>
    have hcons : runAfter (filters ++ [filter]) resultOk =
        runAfter filters resultOk ++ [.after filters.length resultOk] := mapIdx_concat
    rw [hcons, countP_append, ih, countP_singleton, length_append, length_singleton]
    simp only [HookCall.isAfter, beq_iff_eq]
    split_ifs <;> omega

end FilterChain

theorem GrainRef.hooked_paired_iff {R : Type} {r : GrainRef} {m}
    {response : Except GrainError R} {put : RequestContext → Except GrainError RequestContext} :
    (r.hooked m response put).Paired ↔ r.filters.RejectsAtFirst (m.info r.grainId) := by
  rcases hr : runBefore (m.info r.grainId) r.filters with ⟨asked, e | _⟩
  · obtain ⟨accepting, filter, rest, hfilters, hasked, hall, hl⟩ :=
      runBefore_eq_error (congrArg Prod.snd hr)
    rw [hr] at hasked
    change asked = _ at hasked
    have hhooks : (r.hooked m response put).hooks =
        beforeHooks (m.info r.grainId) (accepting ++ [filter]) := by
      simp only [hooked, hr, hasked]
    cases accepting with
    | nil =>
      have hcond : r.filters.RejectsAtFirst (m.info r.grainId) := by
        rintro first hfirst hok
        rw [hfilters] at hfirst
        cases hfirst
        rw [hl] at hok
        cases hok
      refine iff_of_true (fun i => ?_) hcond
      rw [hhooks, countP_beforeHooks, if_neg]
      rw [before_mem_iff]
      rintro ⟨f, hf, hok⟩
      cases i with
      | zero =>
        cases hf
        rw [hl] at hok
        cases hok
      | succ i => cases hf
    | cons first accepting =>
      have hok := hall first mem_cons_self
      refine iff_of_false (fun h => ?_) fun h => ?_
      · have hcount := h 0
        rw [hhooks, countP_beforeHooks, if_pos (before_mem_iff.mpr ⟨first, rfl, hok⟩)] at hcount
        cases hcount
      · have hfilter := h first (by rw [hfilters]; rfl) hok filter (by simp [hfilters])
        rw [hl] at hfilter
        cases hfilter
  · obtain ⟨hasked, hall⟩ := runBefore_eq_ok (congrArg Prod.snd hr)
    rw [hr] at hasked
    change asked = _ at hasked
    have hhooks : (r.hooked m response put).hooks = beforeHooks (m.info r.grainId) r.filters ++
          r.filters.runAfter ((put (m.askContext r.target)).bind fun _ => response).isOk := by
      simp only [hooked, hr, hasked]
    refine iff_of_true (fun i => ?_) fun _ _ _ => hall
    rw [hhooks, countP_append, countP_beforeHooks, countP_runAfter, Nat.zero_add]
    refine if_congr ?_ rfl rfl
    rw [mem_append, before_mem_iff, or_iff_left (by simp [runAfter, List.mem_mapIdx])]
    constructor
    · intro hi
      exact ⟨_, List.getElem?_eq_getElem hi, hall _ (List.getElem_mem hi)⟩
    · rintro ⟨f, hf, -⟩
      exact (List.getElem?_eq_some_iff.mp hf).1

/-- The hooks of a call are paired exactly if its first filter rejects it or none does. -/
theorem filter_hooks_paired_iff {R : Type} (r : GrainRef) (m : Outgoing)
    (response : Except GrainError R) :
    ((r.askHooked m response).Paired ↔ m.current.isInCallChain r.grainId = true ∨
      r.filters.RejectsAtFirst (m.info r.grainId)) ∧
    ((r.tryAskHooked m response).Paired ↔ r.filters.RejectsAtFirst (m.info r.grainId)) := by
  refine ⟨?_, hooked_paired_iff⟩
  unfold askHooked
  split_ifs with hchain
  · exact iff_of_true (fun _ => rfl) (Or.inl hchain)
  · rw [hooked_paired_iff, or_iff_right hchain]

/-- A vault behind two filters, the second of which rejects all calls of vaults. -/
def guardedVault : GrainRef :=
  .withId ⟨"Vault", "v"⟩ [fun _ => .ok (), vaultClosed]

/-- The first filter has accepted the call, and is not told that it is over. -/
theorem accepted_never_told :
    let c := guardedVault.askHooked ⟨"Open", 0, ∅, false, false⟩ (.ok ())
    c.hooks = [.before 0 true, .before 1 false] ∧ ¬c.Paired := by
  refine ⟨rfl, fun h => ?_⟩
  have hcount := h 0
  cases hcount

end Orlando
