import Orlando.SiloTasks

/-!
# The entry points of a persistent grain

Five entry points lead to an activation of a persistent grain, and each builds the id and chooses
the mailbox for itself. `persistent_get_ref` and the reminder service go by the Rust type name, the
others by the grain's own name; and all but `persistent_get_ref` create a plain mailbox, which never
sees the store (`plain_mailbox_first`).
-/

namespace Orlando

open Option List

variable {S : Type}

/-- A grain type that implements `PersistentGrain`, on a silo with its store. -/
structure PersistentType (S : Type) where
  typeName : String
  customName : Option String
  grain : Grain S
  serializer : Serializer S

inductive EntryPoint where
  | persistentGetRef (strategy : PersistenceStrategy)
  | getRef
  | ctxGetRef
  /-- A message registered for remote calls. -/
  | networkDispatch
  /-- A due reminder, with the type name in the id it was registered for. -/
  | reminderTick (registered : String)
deriving DecidableEq

def EntryPoint.byTypeName : EntryPoint → Bool
  | persistentGetRef _ => true
  | reminderTick _ => true
  | _ => false

inductive EntryEvent (S : Type) where
  | use (entry : EntryPoint)
  | other (gid : GrainId) (kind : MailboxKind S)
  | silo (e : SiloEvent S)

namespace PersistentType

variable (T : PersistentType S) (key : String)

def grainTypeName : String :=
  T.customName.getD T.typeName

def args (strategy : PersistenceStrategy) : PersistentArgs S where
  grain := T.grain
  strategy := strategy
  serializer := T.serializer
  entry := .run false

/-- `GrainContext::get_ref` : the mailbox is plain, reentrant or not as the type says. -/
def contextRef : GrainId × MailboxKind S :=
  (⟨T.grainTypeName, key⟩, .plain T.grain)

/-- The id an entry point looks up, and the mailbox it creates if it finds none. -/
def resolve : EntryPoint → Option (GrainId × MailboxKind S)
  | .persistentGetRef strategy => some (⟨T.typeName, key⟩, .persistent (T.args strategy))
  | .getRef => some (T.contextRef key)
  | .ctxGetRef => some (T.contextRef key)
  | .networkDispatch => some (T.contextRef key)
  | .reminderTick registered =>
    if registered = T.typeName then
      some (⟨registered, key⟩, .plain { T.grain with reentrant := false })
    else none

/-- An id that an entry point of the grain can look up. -/
def isOwn (gid : GrainId) : Bool :=
  gid == ⟨T.typeName, key⟩ || gid == ⟨T.grainTypeName, key⟩

def step (s : Silo S) : EntryEvent S → Option (Silo S)
  | .use entry =>
    match T.resolve key entry with
    | some (gid, kind) => s.step (.getOrInsert gid kind)
    | none => some s
  | .other gid kind => if T.isOwn key gid then none else s.step (.getOrInsert gid kind)
  | .silo (.getOrInsert _ _) => none
  | .silo e => s.step e

/-- Every entry point used leads to the same id. -/
def OneIdentity (es : List (EntryEvent S)) : Prop :=
  ∃ gid, ∀ entry, .use entry ∈ es → ∃ kind, T.resolve key entry = some (gid, kind)

def FromStore (kind : MailboxKind S) : Prop :=
  ∃ strategy, kind = .persistent (T.args strategy)

def ServedFromStore (s : Silo S) : Prop :=
  ∀ t ∈ s.tasks, T.isOwn key t.gid = true → T.FromStore t.kind

/-- The names used agree : the grain has no name of its own, or only one of its names is
used, and reminders are registered under the Rust name. -/
def NamesAgree (es : List (EntryEvent S)) : Prop :=
  (∀ registered, .use (.reminderTick registered) ∈ es → registered = T.typeName) ∧
    (T.grainTypeName = T.typeName ∨ (∀ entry, .use entry ∈ es → entry.byTypeName = true) ∨
      ∀ entry, .use entry ∈ es → entry.byTypeName = false)

/-- A call that would create a plain mailbox finds the grain active. -/
def findsActive (s : Silo S) : EntryEvent S → Bool
  | .silo (.enter k) =>
    match s.calls[k]? with
    | some ⟨gid, .plain _, .entry⟩ => !T.isOwn key gid || (s.openTask gid).isSome
    | _ => true
  | _ => true

variable {T key} {entry : EntryPoint}

theorem resolve_of_byTypeName (h : entry.byTypeName = true)
    (hr : ∀ registered, entry = .reminderTick registered → registered = T.typeName) :
    ∃ kind, T.resolve key entry = some (⟨T.typeName, key⟩, kind) := by
  cases entry with
  | persistentGetRef strategy => exact ⟨_, rfl⟩
  | reminderTick registered =>
    obtain rfl := hr registered rfl
    exact ⟨_, if_pos rfl⟩
  | _ => simp [EntryPoint.byTypeName] at h

theorem resolve_of_not_byTypeName (h : entry.byTypeName = false) :
    T.resolve key entry = some (⟨T.grainTypeName, key⟩, .plain T.grain) := by
  cases entry with
  | persistentGetRef | reminderTick => simp [EntryPoint.byTypeName] at h
  | _ => rfl

theorem eq_typeName_of_resolve {registered r}
    (h : T.resolve key (.reminderTick registered) = some r) : registered = T.typeName := by
  by_contra hne
  simp [resolve, hne] at h

theorem oneIdentity_iff {es} : T.OneIdentity key es ↔ T.NamesAgree es := by
  constructor
  · rintro ⟨gid, hgid⟩
    have hrem : ∀ registered, .use (.reminderTick registered) ∈ es → registered = T.typeName := by
      intro registered hm
      obtain ⟨kind, hkind⟩ := hgid _ hm
      exact eq_typeName_of_resolve hkind
    refine ⟨hrem, ?_⟩
    by_contra hno
    obtain ⟨hname, hmixed⟩ := not_or.mp hno
    obtain ⟨htype, hown⟩ := not_or.mp hmixed
    obtain ⟨entry, hm, hen⟩ : ∃ entry, .use entry ∈ es ∧ entry.byTypeName = false := by
      simpa using htype
    obtain ⟨entry', hmem', hentry'⟩ : ∃ entry, .use entry ∈ es ∧ entry.byTypeName = true := by
      simpa using hown
    -- One use goes by the grain's own name and one by the Rust name, to the same id.
    obtain ⟨kind, hkind⟩ := hgid entry hm
    obtain ⟨kind', hkind'⟩ := hgid entry' hmem'
    obtain ⟨kind₀, hkind₀⟩ :
        ∃ kind, T.resolve key entry' = some (⟨T.typeName, key⟩, kind) :=
      resolve_of_byTypeName hentry' fun registered he => hrem registered (he ▸ hmem')
    rw [resolve_of_not_byTypeName hen] at hkind
    rw [hkind₀] at hkind'
    have h₁ := (Prod.mk.inj (some.inj hkind)).1
    have h₂ := (Prod.mk.inj (some.inj hkind')).1
    exact hname (GrainId.mk.inj (h₁.trans h₂.symm)).1
  · rintro ⟨hrem, hsame⟩
    have htype : ∀ entry, .use entry ∈ es → entry.byTypeName = true →
        ∃ kind, T.resolve key entry = some (⟨T.typeName, key⟩, kind) :=
      fun entry hm hen =>
        resolve_of_byTypeName hen fun registered he => hrem registered (he ▸ hm)
    rcases hsame with hname | htype' | hown
    · refine ⟨⟨T.typeName, key⟩, fun entry hm => ?_⟩
      cases hen : entry.byTypeName with
      | true => exact htype entry hm hen
      | false => exact ⟨_, hname ▸ resolve_of_not_byTypeName hen⟩
    · exact ⟨⟨T.typeName, key⟩, fun entry hm => htype entry hm (htype' entry hm)⟩
    · exact ⟨⟨T.grainTypeName, key⟩, fun entry hm =>
        ⟨_, resolve_of_not_byTypeName (hown entry hm)⟩⟩

variable {s s' : Silo S} {e : EntryEvent S}

/-- A pending call of the grain came through one of its entry points. -/
def Called (T : PersistentType S) (key : String) (s : Silo S) : Prop :=
  ∀ c ∈ s.calls, T.isOwn key c.gid = true → T.FromStore c.kind ∨ ∃ g, c.kind = .plain g

theorem resolve_kind {gid kind}
    (h : T.resolve key entry = some (gid, kind)) : T.FromStore kind ∨ ∃ g, kind = .plain g := by
  cases entry with
  | persistentGetRef strategy =>
    obtain ⟨-, rfl⟩ := Prod.mk.inj (some.inj h)
    exact .inl ⟨strategy, rfl⟩
  | reminderTick registered =>
    simp only [resolve] at h
    split at h
    · obtain ⟨-, rfl⟩ := Prod.mk.inj (some.inj h)
      exact .inr ⟨_, rfl⟩
    · cases h
  | _ =>
    obtain ⟨-, rfl⟩ := Prod.mk.inj (some.inj h)
    exact .inr ⟨_, rfl⟩

theorem step_cases (h : T.step key s e = some s') :
    s' = s ∨ ∃ ev, s.step ev = some s' ∧ ((e = .silo ev ∧ ∀ gid kind, ev ≠ .getOrInsert gid kind) ∨
        ∃ gid kind, ev = .getOrInsert gid kind ∧
          (T.isOwn key gid = true → T.FromStore kind ∨ ∃ g, kind = .plain g)) := by
  cases e with
  | use entry =>
    simp only [step] at h
    split at h
    · rename_i gid kind hr
      exact .inr ⟨_, h, .inr ⟨gid, kind, rfl, fun _ => resolve_kind hr⟩⟩
    · exact .inl (some.inj h).symm
  | other gid kind =>
    simp only [step] at h
    split at h
    · cases h
    · rename_i hown
      exact .inr ⟨_, h, .inr ⟨gid, kind, rfl, fun hgid => absurd hgid hown⟩⟩
  | silo ev =>
    cases ev with
    | getOrInsert gid kind => simp [step] at h
    | _ =>
      refine .inr ⟨_, ?_, .inl ⟨rfl, by simp⟩⟩
      exact h

theorem called_step (hc : T.Called key s) (h : T.step key s e = some s') : T.Called key s' := by
  rcases step_cases h with rfl | ⟨ev, hev, hcall⟩
  · exact hc
  · intro c hmem hown
    rcases Silo.mem_calls_of_step hev hmem with ⟨c₀, hc₀, hgid, hkind⟩ | hnew
    · exact hkind ▸ hc c₀ hc₀ (hgid ▸ hown)
    · rcases hcall with ⟨-, hno⟩ | ⟨gid, kind, hev', hkind⟩
      · exact absurd hnew (hno _ _)
      · obtain ⟨rfl, rfl⟩ := SiloEvent.getOrInsert.inj (hnew.symm.trans hev')
        exact hkind hown

theorem servedFromStore_step (hc : T.Called key s) (hs : T.ServedFromStore key s)
    (hg : T.findsActive key s e = true) (h : T.step key s e = some s') :
    T.ServedFromStore key s' := by
  rcases step_cases h with rfl | ⟨ev, hev, hcall⟩
  · exact hs
  · intro t ht hown
    rcases (Silo.step_sound hev).mem_tasks ht with ⟨t₀, ht₀, hgid, hkind⟩ | ⟨k, rfl, hk, ho⟩
    · exact hkind ▸ hs t₀ ht₀ (hgid ▸ hown)
    · rcases hc _ (mem_of_getElem? hk) hown with hstore | ⟨g, hplain⟩
      · exact hstore
      · rcases hcall with ⟨rfl, -⟩ | ⟨gid, kind, hev', -⟩
        · have hkind : t.kind = .plain g := hplain
          rw [hkind] at hk
          simp [findsActive, hk, hown, ho] at hg
        · cases hev'

theorem findsActive_of_served (hs' : T.ServedFromStore key s') (h : T.step key s e = some s') :
    T.findsActive key s e = true := by
  by_contra hg
  cases e with
  | use | other => exact hg rfl
  | silo ev =>
    cases ev with
    | enter k =>
      simp only [findsActive] at hg
      split at hg
      · rename_i gid g hk
        obtain ⟨hown, hopen⟩ : T.isOwn key gid = true ∧ s.openTask gid = none := by
          simpa [not_or] using hg
        simp only [step, Silo.step, hk, hopen, some.injEq] at h
        subst h
        obtain ⟨strategy, hkind⟩ :=
          hs' _ (mem_append_right s.tasks (mem_singleton_self _)) hown
        cases hkind
      · exact hg rfl
    | _ => exact hg rfl

/-- A run serves a grain under one id and from the store exactly if its names agree and each call
that has to create the activation is one of `persistent_get_ref`. -/
theorem one_identity_iff (T : PersistentType S) (key : String) (m : Shared)
    (es : List (EntryEvent S)) (s : Silo S) (hrun : exec (T.step key) (.init m) es = some s) :
    (T.OneIdentity key es ∧ ∀ es₁ es₂ u, es = es₁ ++ es₂ →
      exec (T.step key) (.init m) es₁ = some u → T.ServedFromStore key u) ↔
    (T.NamesAgree es ∧
      Along (T.step key) (fun u e => T.findsActive key u e = true) (.init m) es) := by
  rw [oneIdentity_iff]
  refine and_congr_right fun _ => ⟨fun h => ?_, ?_⟩
  · by_contra hal
    obtain ⟨es₁, e, es₂, u, v, rfl, hu, hv, -, -, hbad⟩ := exists_of_not_along hrun hal
    have hserved := h (es₁ ++ [e]) es₂ v (by simp) (exec_snoc_eq_some.mpr ⟨u, hu, hv⟩)
    exact hbad (findsActive_of_served hserved hv)
  · rintro hal es₁ es₂ u rfl hu
    have hinv := exec_invariant (I := fun v => T.Called key v ∧ T.ServedFromStore key v)
      (fun v e v' hg hv hstep =>
        ⟨called_step hv.1 hstep, servedFromStore_step hv.1 hv.2 hg hstep⟩)
      ⟨fun c hc => absurd hc (by simp [Silo.init]), fun t ht => absurd ht (by simp [Silo.init])⟩
      hal.of_append hu
    exact hinv.2

def counterType (customName : Option String) : PersistentType UInt8 where
  typeName := "app::Counter"
  customName := customName
  grain := (counter false .writeThrough (.run false)).grain
  serializer := (counter false .writeThrough (.run false)).serializer

def useEntry (entry : EntryPoint) : List (EntryEvent UInt8) :=
  [.use entry, .silo (.checkLimit 0), .silo (.enter 0)]

def persistentFirst : List (EntryEvent UInt8) :=
  useEntry (.persistentGetRef .writeThrough) ++ useEntry .getRef ++ useEntry .ctxGetRef ++
    useEntry .networkDispatch ++ useEntry (.reminderTick "app::Counter")

theorem one_identity_iff_counter :
    ∃ s, exec ((counterType none).step "k") (.init Shared.empty) persistentFirst = some s ∧
      s.tasks.length = 1 ∧ (counterType none).OneIdentity "k" persistentFirst ∧
      ∀ es₁ es₂ u, persistentFirst = es₁ ++ es₂ →
        exec ((counterType none).step "k") (.init Shared.empty) es₁ = some u →
        (counterType none).ServedFromStore "k" u := by
  refine ⟨_, rfl, rfl, ?_⟩
  refine (one_identity_iff (counterType none) "k" Shared.empty persistentFirst _ rfl).mpr ⟨?_, ?_⟩
  · refine ⟨fun registered h => ?_, .inl rfl⟩
    have hreg : registered = "app::Counter" := by simpa [persistentFirst, useEntry] using h
    exact hreg
  · decide +kernel

/-- `get_ref` before `persistent_get_ref` : a plain mailbox handles the message, and nothing is
stored. With a name of its own, the grain has two activations. -/
theorem plain_mailbox_first :
    (∃ s, exec ((counterType none).step "k") (.init Shared.empty)
        (useEntry .getRef ++ useEntry (.persistentGetRef .writeThrough) ++
          [.silo (.mailbox 0 (.onActivate 0)), .silo (.send 0 (addMessage 5)), .silo (.recv 0),
            .silo (.mailbox 0 .handle), .silo (.mailbox 0 .idleTimeout),
            .silo (.mailbox 0 .onDeactivate), .silo (.mailbox 0 .remove)]) = some s ∧
      ¬(counterType none).ServedFromStore "k" s ∧
      s.tasks.length = 1 ∧ s.shared.store.get ⟨"app::Counter", "k"⟩ = none) ∧
    ∃ s, exec ((counterType (some "Counter")).step "k") (.init Shared.empty)
        (useEntry (.persistentGetRef .writeThrough) ++ useEntry .getRef) = some s ∧
      ¬(counterType (some "Counter")).OneIdentity "k"
        (useEntry (.persistentGetRef .writeThrough) ++ useEntry .getRef) ∧
      s.tasks.map Task.gid = [⟨"app::Counter", "k"⟩, ⟨"Counter", "k"⟩] := by
  refine ⟨⟨_, rfl, fun h => ?_, rfl, rfl⟩, _, rfl, ?_, rfl⟩
  · obtain ⟨strategy, hkind⟩ := h _ (mem_of_getElem? (i := 0) rfl) rfl
    cases hkind
  · rintro ⟨gid, hgid⟩
    obtain ⟨_, hp⟩ := hgid (.persistentGetRef .writeThrough) (by simp [useEntry])
    obtain ⟨_, hr⟩ := hgid .getRef (by simp [useEntry])
    have hp' := (Prod.mk.inj (some.inj hp)).1
    have hr' := (Prod.mk.inj (some.inj hr)).1
    exact absurd (hp'.trans hr'.symm) (by decide)

end PersistentType

end Orlando
