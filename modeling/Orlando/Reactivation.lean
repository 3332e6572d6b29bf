import Orlando.SingleActivation

/-!
# From one activation of a persistent grain to the next

A new activation is to start from the state the one before it ended with. Under `get_or_insert` the
predecessor's receiver is gone before its final save, and the successor may load first
(`successor_loads_early`).
-/

namespace Orlando

open List Function Silo Phase Activation VersionedGrain

variable {S : Type}

/-- The store answers this step with an error. -/
def MailboxEvent.faulty : MailboxEvent S → Bool
  | load (some _) => true
  | save (some _) => true
  | handler _ (.save (some _)) => true
  | _ => false

def Phase.stateSaved : Phase S → Bool
  | finalPublish _ => true
  | saveVersion => true
  | remove => true
  | ended => true
  | _ => false

/-- The final save and the tag are over. A grain with a replication sink has no tag. -/
def Phase.tagSaved : Phase S → Bool
  | finalPublish _ => true
  | remove => true
  | ended => true
  | _ => false

theorem Phase.stateSaved_of_tagSaved {ph : Phase S} (h : ph.tagSaved = true) :
    ph.stateSaved = true := by
  cases ph with
  | finalPublish | remove | ended => rfl
  | _ => cases h

variable {gid : GrainId} {p : PersistentArgs S}

namespace PersistentArgs

variable {a a' : Activation S} {m m' : Shared} {e : MailboxEvent S} {store : WriteLog GrainId Bytes}

def Lossless (p : PersistentArgs S) : Prop :=
  ∀ s, ∃ b, p.serializer.serialize s = .ok b ∧ p.serializer.deserialize b = .ok s

def HoldsState (p : PersistentArgs S) (gid : GrainId) (store : WriteLog GrainId Bytes) (x : S) :
    Prop :=
  ∃ b, store.get gid = some b ∧ p.serializer.deserialize b = .ok x

def HoldsTag (p : PersistentArgs S) (gid : GrainId) (store : WriteLog GrainId Bytes) : Prop :=
  ∀ V, p.entry = .runVersioned V →
    store.get (versionGrainId gid) = some (V.encodeVersion V.stateVersion)

/-- What a non-faulted activation that is past its final save has left in the store. -/
structure Saved (p : PersistentArgs S) (gid : GrainId) (store : WriteLog GrainId Bytes)
    (a : Activation S) : Prop where
  state : a.faulted = false → a.phase.stateSaved = true → p.HoldsState gid store a.state
  tag : a.faulted = false → a.phase.tagSaved = true → p.HoldsTag gid store

theorem Saved.of_not_saved (h : a.phase.stateSaved = false) : p.Saved gid store a := by
  have hns : ¬a.phase.stateSaved = true := by simp [h]
  exact ⟨fun _ hs => absurd hs hns, fun _ ht => absurd (stateSaved_of_tagSaved ht) hns⟩

theorem Saved.of_faulted (h : a.faulted = true) : p.Saved gid store a :=
  ⟨fun hf => absurd hf (by simp [h]), fun hf => absurd hf (by simp [h])⟩

theorem Saved.settle (b : Activation S) (fsm) : p.Saved gid store (b.settle fsm) := by
  by_cases hf : fsm = .faulted
  · exact .of_faulted (by simp [Activation.settle, hf])
  · refine .of_not_saved ?_
    by_cases hi : fsm = .idle <;> simp [Activation.settle, hi, hf, stateSaved]

theorem Sound.holdsState_save (h : p.Sound a) (hser : p.Lossless) {bytes n}
    (hp : a.phase = .save bytes n) : p.HoldsState gid (m.store.write gid bytes) a.state := by
  have hheld := h.held none ⟨a.turns.length, bytes, true, p.replicated⟩ (by rw [slots, hp]; rfl)
  have hstate := h.state (hp ▸ rfl)
  obtain ⟨b, hb, hd⟩ := hser a.state
  have hbytes : b = bytes := by
    have := hheld.2
    rw [take_length, ← hstate, hb] at this
    exact Except.ok.inj this
  exact ⟨bytes, by simp, hbytes ▸ hd⟩

theorem Saved.of_inLoop (h : a.phase.inLoop = true) : p.Saved gid store a :=
  .of_not_saved (Phase.of_inLoop (P := fun ph => ph.stateSaved = false) h rfl rfl)

theorem Step.saved (hs : p.Step gid a m e a' m') (hsd : p.Sound a) (hser : p.Lossless)
    (he : e.faulty = false) (h : p.Saved gid m.store a) : p.Saved gid m'.store a' := by
  cases hs with
  | activatePanic => exact .of_faulted rfl
  | closed | idleTimeout | handlePanic | skip | replicate | serializeFailed | flush | flushRefused
  | publish => exact .settle _ _
  | spawn hp => exact .of_inLoop (by simp [hp, inLoop])
  | acquire hk | runOk hk | runPanic hk | release hk | handlerSave hk | handlerSaveRefused hk
  | handlerSend hk | join hk => exact .of_inLoop (hsd.wf.inLoop hk (by simp))
  | serializeRefused _ hb =>
    obtain ⟨b, hb', -⟩ := hser a.state
    cases hb.symm.trans hb'
  | save hp hent | saveReplicated hp hent =>
    refine ⟨fun _ _ => hsd.holdsState_save hser hp, fun _ _ V hV => ?_⟩
    cases hent.symm.trans hV
  | saveVersioned hp =>
    refine ⟨fun _ _ => hsd.holdsState_save hser hp, fun _ ht => ?_⟩
    simp [tagSaved] at ht
  | saveRetry | saveGivenUp | tagRefused => simp [MailboxEvent.faulty] at he
  | tag hp hent =>
    refine ⟨fun hf _ => ?_, fun _ _ V hV => ?_⟩
    · obtain ⟨b, hb, hd⟩ := h.state hf (hp ▸ rfl)
      exact ⟨b, by simpa [versionGrainId_ne] using hb, hd⟩
    · obtain rfl := PersistentEntry.runVersioned.inj (hent.symm.trans hV)
      simp
  | finalPublish hp | remove hp =>
    exact ⟨fun hf _ => h.state hf (hp ▸ rfl), fun hf _ => h.tag hf (hp ▸ rfl)⟩
  | _ => exact .of_not_saved rfl

/-! ## Loading what the predecessor left -/

def ReadsTag (p : PersistentArgs S) : Prop :=
  ∀ V, p.entry = .runVersioned V →
    V.decodeVersion (V.encodeVersion V.stateVersion) = .ok V.stateVersion

/-- A task that has read the tag has read the present version. -/
def AtVersion (p : PersistentArgs S) (a : Activation S) : Prop :=
  ∀ v V, a.phase = .loadState v → p.entry = .runVersioned V → v = V.stateVersion

section

variable (hs : p.Step gid a m e a' m') (hw : a.WF p.grain.reentrant) (hl : a.phase.loading = true)
include hs hw hl

theorem Step.eq_load (he : e.faulty = false) : e = .load none := by
  rcases hs.phase_cases hw with ⟨fault, rfl, -⟩ | ⟨hl', -⟩
  · cases fault with
    | none => rfl
    | some err => simp [MailboxEvent.faulty] at he
  · simp [hl'] at hl

theorem Step.atVersion (he : e.faulty = false) (htag : p.HoldsTag gid m.store)
    (hread : p.ReadsTag) :
    p.AtVersion a' := by
  intro v V hv hV
  obtain rfl := hs.eq_load hw hl he
  cases hs with
  | loadTag hp hent hstored =>
    obtain rfl := PersistentEntry.runVersioned.inj (hent.symm.trans hV)
    rw [loadAnswer, htag _ hV, storedVersion_tag _ (hread _ hV)] at hstored
    rw [← loadState.inj hv]
    exact (Except.ok.inj hstored).symm
  | loadRetry => cases hv
  | loadFailed => simp [beginDefault, begin] at hv
  | drain _ _ hd => exact absurd hd (by simp)
  | _ => simp [begin] at hv

theorem Step.loaded (hl' : a'.phase.loading = false) (he : e.faulty = false) {x}
    (hstate : p.HoldsState gid m.store x) (htag : p.HoldsTag gid m.store) (hread : p.ReadsTag)
    (hver : p.AtVersion a) : a'.loaded = x := by
  obtain ⟨b, hb, hd⟩ := hstate
  obtain rfl := hs.eq_load hw hl he
  cases hs with
  | loadRun hp hent hr =>
    rw [loadAnswer, hb, loadState_some, hd] at hr
    obtain rfl := Except.ok.inj hr
    rfl
  | loadVersioned hp hent hr =>
    obtain rfl := hver _ _ hp hent
    rw [loadAnswer, hb, migrateLoaded_current, hd] at hr
    obtain rfl := Except.ok.inj hr
    rfl
  | loadFailed _ hf =>
    cases hp : a.phase with
    | load n =>
      rw [hp] at hf
      obtain ⟨replicated, err, -, hr⟩ := hf
      rw [loadAnswer, hb, loadState_some, hd] at hr
      simp [Except.map] at hr
    | loadVersion =>
      rw [hp] at hf
      obtain ⟨V, err, hV, hr⟩ := hf
      rw [loadAnswer, htag V hV, storedVersion_tag _ (hread V hV)] at hr
      cases hr
    | loadState v =>
      rw [hp] at hf
      obtain ⟨V, err, hV, hr⟩ := hf
      obtain rfl := hver _ _ hp hV
      rw [loadAnswer, hb, migrateLoaded_current, hd] at hr
      simp [Except.map] at hr
    | _ =>
      rw [hp] at hf
      exact hf.elim
  | drain _ _ hd => exact absurd hd (by simp)
  | _ => simp [loading] at hl'

end

end PersistentArgs

theorem PersistentArgs.Step.loaded_eq {p : PersistentArgs S} {gid}
    {a a'} {m m'} {e} (hs : p.Step gid a m e a' m')
    (hw : a.WF p.grain.reentrant) (hl : a.phase.loading = false) : a'.loaded = a.loaded := by
  cases hs.effect hw with
  | load hl₀ => simp [hl] at hl₀
  | turn _ _ _ _ hloaded => exact hloaded
  | quiet _ hist => exact hist.loaded
  | _ _ _ hist => exact hist.loaded

/-! ## Activations in succession -/

def Follows (f : ℕ → Option (Activation S)) (j i : ℕ) : Prop :=
  j < i ∧ ∀ k, j < k → k < i → f k = none

structure Succession (p : PersistentArgs S) (gid : GrainId) (f : ℕ → Option (Activation S))
    (store : WriteLog GrainId Bytes) : Prop where
  ended : ∀ {i j a b}, i < j → f i = some a → f j = some b → a.phase.isEnded = true
  saved : ∀ {j u}, f j = some u → (∀ i a, j < i → f i = some a → a.phase.loading = true) →
    p.Saved gid store u
  atVersion : ∀ {j i u t}, Follows f j i → f j = some u → f i = some t → u.faulted = false →
    t.phase.loading = true → p.AtVersion t
  loaded : ∀ {j i u t}, Follows f j i → f j = some u → f i = some t → u.faulted = false →
    t.phase.loading = false → t.loaded = u.state

namespace Succession

variable {f f' : ℕ → Option (Activation S)} {store store' : WriteLog GrainId Bytes} {m m' : Shared}
  {a a' : Activation S} {e : MailboxEvent S} {i n : ℕ} {x : Activation S}

theorem frame (h : Succession p gid f store) (hs : store'.get gid = store.get gid)
    (ht : store'.get (versionGrainId gid) = store.get (versionGrainId gid)) :
    Succession p gid f store' := by
  refine ⟨h.ended, fun hj hlate => ?_, h.atVersion, h.loaded⟩
  have hsv := h.saved hj hlate
  refine ⟨fun hf hp => ?_, fun hf hp V hV => ?_⟩
  · obtain ⟨b, hb, hd⟩ := hsv.state hf hp
    exact ⟨b, hs.trans hb, hd⟩
  · exact ht.trans (hsv.tag hf hp V hV)

theorem eq_none_of_running (h : Succession p gid f store) (hi : f i = some a)
    (hrun : a.phase.isEnded = false) {j} (hj : i < j) : f j = none := by
  by_contra hne
  obtain ⟨b, hb⟩ := Option.ne_none_iff_exists'.mp hne
  exact absurd (h.ended hj hi hb) (by simp [hrun])

theorem follows_of_update {j i} (h : Follows (update f n (some x)) j i) : Follows f j i := by
  refine ⟨h.1, fun k hjk hki => ?_⟩
  have hk := h.2 k hjk hki
  by_cases hkn : k = n
  · subst hkn
    exact absurd hk (by simp)
  · rwa [update_of_ne hkn] at hk

theorem put (h : Succession p gid f store) (hlast : ∀ {k}, n < k → f k = none)
    (hended : ∀ {j u}, j < n → f j = some u → u.phase.isEnded = true)
    (hsaved : p.Saved gid store' x)
    (hload : x.phase.loading = true → store' = store ∧ ∀ b, f n = some b → b.phase.loading = true)
    (hat : ∀ {j u}, Follows f j n → f j = some u → u.faulted = false → x.phase.loading = true →
      p.AtVersion x)
    (hfrom : ∀ {j u}, Follows f j n → f j = some u → u.faulted = false → x.phase.loading = false →
      x.loaded = u.state) : Succession p gid (update f n (some x)) store' := by
  have hnew : ∀ {j u}, update f n (some x) j = some u → j < n ∧ f j = some u ∨ j = n ∧ u = x := by
    intro j u hj
    by_cases hjn : j = n
    · rw [hjn, update_self] at hj
      exact .inr ⟨hjn, (Option.some.inj hj).symm⟩
    · rw [update_of_ne hjn] at hj
      refine .inl ⟨lt_of_le_of_ne (not_lt.mp fun hlt => ?_) hjn, hj⟩
      exact absurd (hlast hlt) (by simp [hj])
  have hpair : ∀ {i j a b}, i < j → update f n (some x) i = some a →
      update f n (some x) j = some b →
      (i < n ∧ f i = some a) ∧ (f j = some b ∨ j = n ∧ b = x) := by
    intro i j a b hij hi hj
    have hj' := hnew hj
    exact ⟨(hnew hi).resolve_right (by omega), hj'.imp_left And.right⟩
  refine ⟨fun {i j a b} hij hi hj => ?_, fun {j u} hj hlate => ?_,
    fun {j i u t} hfol hj hi hf hl => ?_, fun {j i u t} hfol hj hi hf hl => ?_⟩
  · obtain ⟨⟨hin, hi'⟩, -⟩ := hpair hij hi hj
    exact hended hin hi'
  · rcases hnew hj with ⟨hjn, hj'⟩ | ⟨rfl, rfl⟩
    · obtain ⟨rfl, hbefore⟩ := hload (hlate n x hjn (update_self ..))
      refine h.saved hj' fun k b hjk hk => ?_
      by_cases hkn : k = n
      · exact hbefore b (hkn ▸ hk)
      · exact hlate k b hjk (by rwa [update_of_ne hkn])
    · exact hsaved
  · have hfol' := follows_of_update hfol
    obtain ⟨⟨-, hj'⟩, hi' | ⟨rfl, rfl⟩⟩ := hpair hfol.1 hj hi
    · exact h.atVersion hfol' hj' hi' hf hl
    · exact hat hfol' hj' hf hl
  · have hfol' := follows_of_update hfol
    obtain ⟨⟨-, hj'⟩, hi' | ⟨rfl, rfl⟩⟩ := hpair hfol.1 hj hi
    · exact h.loaded hfol' hj' hi' hf hl
    · exact hfrom hfol' hj' hf hl

theorem spawn (h : Succession p gid f store) (hfree : ∀ k, n ≤ k → f k = none)
    (hended : ∀ i a, f i = some a → a.phase.isEnded = true) (hx : x.phase.loading = true)
    (hver : ∀ v, x.phase ≠ .loadState v) : Succession p gid (update f n (some x)) store := by
  refine h.put (fun hk => hfree _ (Nat.le_of_lt hk)) (fun _ hj => hended _ _ hj) (.of_not_saved ?_)
    (fun _ => ⟨rfl, fun b hb => absurd (hfree n le_rfl) (by simp [hb])⟩)
    (fun _ _ _ _ v V hv => absurd hv (hver v)) (fun _ _ _ hl => absurd hx (by simp [hl]))
  exact of_loading (P := fun ph => ph.stateSaved = false) hx (fun _ => rfl) rfl fun _ => rfl

theorem move (h : Succession p gid f m.store) (hi : f i = some a) (hsd : p.Sound a)
    (hs : p.Step gid a m e a' m') (he : e.faulty = false) (hser : p.Lossless)
    (hread : p.ReadsTag) : Succession p gid (update f i (some a')) m'.store := by
  have hlast : ∀ {j}, i < j → f j = none := h.eq_none_of_running hi (hs.running hsd.wf)
  -- While `a` is loading, its predecessor's state is what the store holds.
  have hprev : ∀ {j u}, Follows f j i → f j = some u → u.faulted = false →
      a.phase.loading = true → p.HoldsState gid m.store u.state ∧ p.HoldsTag gid m.store := by
    intro j u hfol hj hf hl
    have hsv : p.Saved gid m.store u := by
      refine h.saved hj fun k b hjk hk => ?_
      rcases Nat.lt_trichotomy k i with hki | rfl | hki
      · exact absurd (hfol.2 k hjk hki) (by simp [hk])
      · cases hi.symm.trans hk
        exact hl
      · exact absurd (hlast hki) (by simp [hk])
    have hend := h.ended hfol.1 hj hi
    cases hp : u.phase with
    | ended => exact ⟨hsv.state hf (hp ▸ rfl), hsv.tag hf (hp ▸ rfl)⟩
    | _ =>
      rw [hp] at hend
      cases hend
  have hloading : a'.phase.loading = true → a.phase.loading = true ∧ m'.store = m.store := by
    intro hl
    obtain ⟨hl₀, rfl⟩ := (hs.effect hsd.wf).of_loading hl
    exact ⟨hl₀, rfl⟩
  refine h.put hlast (fun hj hu => h.ended hj hu hi) ?_ (fun hl => ?_) (fun hfol hj hf hl => ?_)
    fun hfol hj hf hl => ?_
  · refine hs.saved hsd hser he (h.saved hi fun k b hjk hk => ?_)
    exact absurd (hlast hjk) (by simp [hk])
  · refine ⟨(hloading hl).2, fun b hb => ?_⟩
    cases hi.symm.trans hb
    exact (hloading hl).1
  · have hl₀ := (hloading hl).1
    exact hs.atVersion hsd.wf hl₀ he (hprev hfol hj hf hl₀).2 hread
  · cases hl₀ : a.phase.loading with
    | true =>
      obtain ⟨hstate, htag⟩ := hprev hfol hj hf hl₀
      exact hs.loaded hsd.wf hl₀ hl he hstate htag hread (h.atVersion hfol hj hi hf hl₀)
    | false =>
      rw [hs.loaded_eq hsd.wf hl₀]
      exact h.loaded hfol hj hi hf hl₀

end Succession

/-! ## The activations of a grain on a silo -/

namespace Silo

variable {s s' : Silo S} {i : ℕ} {t u : Task S}

def actOf (gid : GrainId) (s : Silo S) (i : ℕ) : Option (Activation S) :=
  (s.tasks[i]?).bind fun t => if t.gid = gid then some t.act else none

theorem actOf_of_getElem? (hi : s.tasks[i]? = some t) (hg : t.gid = gid) :
    s.actOf gid i = some t.act := by
  simp [actOf, hi, hg]

theorem actOf_eq_some {a} :
    s.actOf gid i = some a ↔ ∃ t, s.tasks[i]? = some t ∧ t.gid = gid ∧ t.act = a := by
  unfold actOf
  rw [Option.bind_eq_some_iff]
  refine exists_congr fun t => and_congr Iff.rfl ?_
  split <;> simp_all

theorem actOf_set (hi : s.tasks[i]? = some t) (ht : s'.tasks = s.tasks.set i u) (hu : u.gid = gid) :
    s'.actOf gid = update (s.actOf gid) i (some u.act) := by
  have hlt := lt_of_getElem? hi
  funext j
  by_cases hj : j = i
  · subst hj
    simp [actOf, ht, hlt, hu]
  · have hij : i ≠ j := fun h => hj h.symm
    simp [actOf, ht, hj, getElem?_set_ne hij]

theorem actOf_set_same (hi : s.tasks[i]? = some t) (ht : s'.tasks = s.tasks.set i u)
    (hg : u.gid = t.gid) (ha : u.gid = gid → u.act = t.act) : s'.actOf gid = s.actOf gid := by
  have hlt := lt_of_getElem? hi
  funext j
  by_cases hj : j = i
  · subst hj
    have hu : s'.tasks[j]? = some u := by rw [ht, getElem?_set_self hlt]
    by_cases hug : u.gid = gid
    · rw [actOf_of_getElem? hu hug, actOf_of_getElem? hi (hg ▸ hug), ha hug]
    · simp [actOf, hu, hi, hug, hg ▸ hug]
  · have hij : i ≠ j := fun h => hj h.symm
    simp [actOf, ht, getElem?_set_ne hij]

theorem actOf_eq_none (h : s.tasks.length ≤ i) : s.actOf gid i = none := by
  simp [actOf, getElem?_eq_none_iff.mpr h]

theorem actOf_snoc (ht : s'.tasks = s.tasks ++ [u]) :
    s'.actOf gid = if u.gid = gid
      then update (s.actOf gid) s.tasks.length (some u.act) else s.actOf gid := by
  funext j
  rcases Nat.lt_trichotomy j s.tasks.length with hj | hj | hj
  · have : s'.actOf gid j = s.actOf gid j := by
      simp [actOf, ht, getElem?_append_left hj]
    rw [this]
    split
    · rw [update_of_ne (Nat.ne_of_lt hj)]
    · rfl
  · subst hj
    by_cases hu : u.gid = gid
    · simp [actOf, ht, hu]
    · simp [actOf, ht, hu]
  · have hout : s'.actOf gid j = none := actOf_eq_none (by rw [ht]; simp; omega)
    rw [hout]
    split
    · rw [update_of_ne (Nat.ne_of_gt hj), actOf_eq_none (Nat.le_of_lt hj)]
    · rw [actOf_eq_none (Nat.le_of_lt hj)]

/-- A call for `gid` that reaches the map does not find an entry whose receiver is gone. -/
def unhurried (gid : GrainId) (s : Silo S) : SiloEvent S → Bool
  | .enter k =>
    match s.calls[k]? with
    | some ⟨gid', _, .entry⟩ => gid' != gid || !s.stale gid
    | _ => true
  | _ => true

/-- Every activation of `gid` that follows a non-faulted one has started from the state
that one ended with. -/
def Continuous (gid : GrainId) (s : Silo S) : Prop :=
  ∀ j i u t, Follows (s.actOf gid) j i → s.actOf gid j = some u → s.actOf gid i = some t →
    u.faulted = false → t.phase.loading = false → t.loaded = u.state

/-- A save of an activation of `gid` comes before all saves of its successors. -/
def KeepsOrder (gid : GrainId) (s : Silo S) (e : SiloEvent S) : Prop :=
  ∀ i ev a, e = .mailbox i ev → ev.accepted = true → s.actOf gid i = some a →
    ∀ j b, i < j → s.actOf gid j = some b → b.saved = []

end Silo

namespace PersistentArgs

/-- Calls of the grain `gid` run `p`, under any strategy, other grains have other keys;
the store answers, and neither a crash nor the rebalancer ends an activation of `gid`. -/
def Reliable (p : PersistentArgs S) (gid : GrainId) : SiloEvent S → Prop
  | .getOrInsert gid' kind =>
    (gid' = gid ∧ ∃ strategy, kind = .persistent { p with strategy := strategy }) ∨
      apart gid gid' = true
  | .mailbox _ ev => ev.faulty = false
  | .detach gid' => gid' ≠ gid
  | .restart => False
  | _ => True

structure Continuity (p : PersistentArgs S) (gid : GrainId) (s : Silo S) : Prop where
  single : s.Single gid
  sound : s.TasksSound
  tasks : ∀ t ∈ s.tasks, t.aborted = false → p.Reliable gid (.getOrInsert t.gid t.kind)
  calls : ∀ c ∈ s.calls, p.Reliable gid (.getOrInsert c.gid c.kind)
  attached : ∀ t ∈ s.tasks, t.gid = gid → t.detached = false ∧ t.aborted = false
  succession : Succession p gid (s.actOf gid) s.shared.store

variable {s s' : Silo S} {e : SiloEvent S}

namespace Continuity

theorem leaving_eq_false (h : p.Continuity gid s) : s.leaving gid = false := by
  by_contra hlv
  obtain ⟨i, hi⟩ := leaving_eq_true.mp (by simpa using hlv)
  obtain ⟨t, ht, hlive⟩ := live_eq_some.mp hi
  obtain ⟨-, hg, hd⟩ := Task.live_eq_some.mp hlive
  exact absurd (h.attached t (mem_of_getElem? ht) hg).1 (by simp [hd])

theorem ended_of_free (h : p.Continuity gid s) (hfree : s.registry.Free gid) (i a)
    (hi : s.actOf gid i = some a) : a.phase.isEnded = true := by
  obtain ⟨t, ht, hg, rfl⟩ := actOf_eq_some.mp hi
  by_contra hend
  refine hfree i (!t.detached) ?_
  rw [live_of_getElem? ht, Task.live_eq_some]
  have hab := (h.attached t (mem_of_getElem? ht) hg).2
  exact ⟨by simp [Task.running, hab, hend], hg, by simp⟩

theorem orderly (h : p.Continuity gid s) (hun : s.unhurried gid e = true) :
    ∀ k kind, e = .enter k → s.calls[k]? = some ⟨gid, kind, .entry⟩ →
      s.stale gid = false ∧ s.leaving gid = false := by
  rintro k kind rfl hk
  refine ⟨?_, h.leaving_eq_false⟩
  simpa [unhurried, hk] using hun

variable {t : Task S}

theorem kind_eq (h : p.Continuity gid s) (hm : t ∈ s.tasks) (hg : t.gid = gid) :
    ∃ strategy, t.kind = .persistent { p with strategy := strategy } := by
  rcases h.tasks t hm (h.attached t hm hg).2 with ⟨-, hkind⟩ | hap
  · exact hkind
  · exact absurd hg (of_apart hap).1

variable {queue : List (Envelope S)} {ev : MailboxEvent S} {a : Activation S} {m : Shared}

section

variable (h : p.Continuity gid s)
include h

theorem succession_mailbox {i} (hser : p.Lossless) (hread : p.ReadsTag)
    (hg : t.gid = gid) (hi : s.tasks[i]? = some t) (he : ev.faulty = false)
    (hst : t.kind.step t.gid t.act s.shared ev = some (a, m))
    (ht : s'.tasks = s.tasks.set i { t with act := a, queue := queue }) (hm : s'.shared = m) :
    Succession p gid (s'.actOf gid) s'.shared.store := by
  have hmem := mem_of_getElem? hi
  obtain ⟨strategy, hkind⟩ := h.kind_eq hmem hg
  have hsd := h.sound t hmem
  rw [hkind] at hsd hst
  rw [hg] at hst
  have hold : Succession { p with strategy := strategy } gid (s.actOf gid) s.shared.store :=
    ⟨h.succession.ended,
      fun hj hl => ⟨(h.succession.saved hj hl).state, (h.succession.saved hj hl).tag⟩,
      h.succession.atVersion, h.succession.loaded⟩
  have hnew := hold.move (actOf_of_getElem? hi hg) hsd (step_sound hst) he hser hread
  rw [actOf_set hi ht hg, hm]
  exact ⟨hnew.ended, fun hj hl => ⟨(hnew.saved hj hl).state, (hnew.saved hj hl).tag⟩,
    hnew.atVersion, hnew.loaded⟩

theorem succession_other {i} (hap : apart gid t.gid = true)
    (hi : s.tasks[i]? = some t) (hst : t.kind.step t.gid t.act s.shared ev = some (a, m))
    (ht : s'.tasks = s.tasks.set i { t with act := a, queue := queue }) (hm : s'.shared = m) :
    Succession p gid (s'.actOf gid) s'.shared.store := by
  obtain ⟨hne, hnv, hvn⟩ := of_apart hap
  rw [actOf_set_same hi ht rfl fun hg => absurd hg hne, hm]
  exact h.succession.frame (MailboxKind.store_get_of_ne hst hne hvn)
    (MailboxKind.store_get_of_ne hst hnv fun hv => hne (versionGrainId_injective hv))

theorem succession_spawn {k : ℕ} {gid'} {kind} (hfree : gid' = gid → s.registry.Free gid)
    (hk : s.calls[k]? = some ⟨gid', kind, .entry⟩)
    (ht : s'.tasks = s.tasks ++ [{ gid := gid', kind, act := kind.start, queue := [], refs := 1,
                                   detached := false, aborted := false }])
    (hm : s'.shared = s.shared) : Succession p gid (s'.actOf gid) s'.shared.store := by
  rw [actOf_snoc ht, hm]
  split
  · rename_i hg
    obtain ⟨strategy, hkind⟩ : ∃ strategy, kind = .persistent { p with strategy := strategy } := by
      rcases h.calls _ (mem_of_getElem? hk) with ⟨-, hkind⟩ | hap
      · exact hkind
      · exact absurd hg (of_apart hap).1
    have hstart : kind.start.phase = .load 1 ∨ kind.start.phase = .loadVersion := by
      rw [hkind]
      simp only [MailboxKind.start, PersistentArgs.start]
      cases p.entry with
      | run => exact .inl rfl
      | runVersioned => exact .inr rfl
    refine h.succession.spawn (fun k hk => actOf_eq_none hk) (h.ended_of_free (hfree hg)) ?_ ?_
    · rcases hstart with hp | hp <;> rw [hp] <;> rfl
    · intro v
      rcases hstart with hp | hp <;> rw [hp] <;> simp
  · exact h.succession

theorem succession_step (hrel : p.Reliable gid e)
    (hun : s.unhurried gid e = true) (hser : p.Lossless) (hread : p.ReadsTag)
    (hstep : s.step e = some s') : Succession p gid (s'.actOf gid) s'.shared.store := by
  have hact : s'.tasks = s.tasks → s'.actOf gid = s.actOf gid := by
    intro ht
    funext i
    simp [actOf, ht]
  cases Silo.step_sound hstep with
  | idle _ ht hm =>
    rw [hact ht, hm]
    exact h.succession
  | channel hi _ _ _ ht hm | detach _ hi _ ht hm | abort hi _ _ ht hm =>
    rw [actOf_set_same hi ht rfl fun _ => rfl, hm]
    exact h.succession
  | @mailbox _ i t ev hev hi hab a m hmail queue _ ht hm =>
    have he : ev.faulty = false := by
      rcases hev with ⟨-, env, rfl⟩ | rfl
      · rfl
      · exact hrel
    rcases h.tasks t (mem_of_getElem? hi) hab with ⟨hg, -⟩ | hap
    · exact h.succession_mailbox hser hread hg hi he hmail ht hm
    · exact h.succession_other hap hi hmail ht hm
  | @spawn k gid' kind hk ho _ ht hm =>
    refine h.succession_spawn (fun hg => ?_) hk ht hm
    subst hg
    obtain ⟨hstale, hleave⟩ := h.orderly hun k kind rfl hk
    exact free_of_orderly h.single.listed ho hstale hleave
  | restart => simp [Reliable] at hrel

theorem attached_step (hrel : p.Reliable gid e) (hstep : s.step e = some s') :
    ∀ t ∈ s'.tasks, t.gid = gid → t.detached = false ∧ t.aborted = false := by
  intro u hu hg
  cases Silo.step_sound hstep with
  | idle _ ht _ => exact h.attached u (ht ▸ hu) hg
  | channel hi _ _ _ ht | mailbox _ hi _ _ _ _ ht =>
    have hi' := h.attached _ (mem_of_getElem? hi)
    rcases mem_or_eq_of_mem_set (ht ▸ hu) with hu | rfl
    · exact h.attached u hu hg
    · exact hi' hg
  | spawn _ _ _ ht _ =>
    rcases mem_append.mp (ht ▸ hu) with hu | hu
    · exact h.attached u hu hg
    · obtain rfl := mem_singleton.mp hu
      exact ⟨rfl, rfl⟩
  | @detach gid' i t hl hi _ ht _ =>
    rcases mem_or_eq_of_mem_set (ht ▸ hu) with hu | rfl
    · exact h.attached u hu hg
    · have hlive := h.single.served gid' i hl
      rw [live_of_getElem? hi, Task.live_eq_some] at hlive
      exact absurd (hlive.2.1.symm.trans hg) hrel
  | @abort i t hi hd _ ht _ =>
    have hi' := h.attached t (mem_of_getElem? hi)
    rcases mem_or_eq_of_mem_set (ht ▸ hu) with hu | rfl
    · exact h.attached u hu hg
    · exact absurd (hi' hg).1 (by simp [hd])
  | restart => simp [Reliable] at hrel

theorem step (hrel : p.Reliable gid e)
    (hun : s.unhurried gid e = true) (hser : p.Lossless) (hread : p.ReadsTag)
    (hst : s.step e = some s') : p.Continuity gid s' where
  single := single_step h.single (h.orderly hun) hst
  sound := (Silo.step_sound hst).tasksSound h.sound
  tasks := (Silo.step_sound hst).forall_served
    (Q := fun gid' kind => p.Reliable gid (.getOrInsert gid' kind)) h.calls h.tasks
  calls := by
    intro c hc
    rcases mem_calls_of_step hst hc with ⟨c₀, hc₀, hgid, hkind⟩ | rfl
    · exact hgid ▸ hkind ▸ h.calls c₀ hc₀
    · exact hrel
  attached := h.attached_step hrel hst
  succession := h.succession_step hrel hun hser hread hst

theorem keepsOrder (hst : s.step e = some s') : s.KeepsOrder gid e := by
  rintro i ev a rfl - hi j b hij hj
  obtain ⟨t, ht, hg, rfl⟩ := actOf_eq_some.mp hi
  have hm := mem_of_getElem? ht
  simp only [Silo.step, ht] at hst
  split at hst
  · obtain ⟨-, a', m', hmail, -⟩ := mailboxStep_eq_some hst
    obtain ⟨strategy, hkind⟩ := h.kind_eq hm hg
    have hsd := h.sound t hm
    rw [hkind] at hmail hsd
    have hrun := (step_sound hmail).running hsd.wf
    exact absurd (h.succession.eq_none_of_running hi hrun hij) (by simp [hj])
  · cases hst

end

theorem init (m) : p.Continuity gid (.init m) where
  single := single_init m gid
  sound := fun t ht => absurd ht (by simp [Silo.init])
  tasks := fun t ht => absurd ht (by simp [Silo.init])
  calls := fun c hc => absurd hc (by simp [Silo.init])
  attached := fun t ht => absurd ht (by simp [Silo.init])
  succession := by
    have hn : ∀ i, actOf gid (.init m : Silo S) i = none := fun i => rfl
    refine ⟨fun _ hi => ?_, fun hj => ?_, fun _ hj => ?_, fun _ hj => ?_⟩
    · simp [hn] at hi
    · simp [hn] at hj
    · simp [hn] at hj
    · simp [hn] at hj

end Continuity

/-- Without a call between a loop and its final save, every activation of a grain but the last has
ended, a non-faulted one leaves its last state for its successor, and only the newest writes. -/
theorem state_continuity (p : PersistentArgs S) (gid : GrainId) (m : Shared)
    (es : List (SiloEvent S)) (s : Silo S) (hser : p.Lossless) (hread : p.ReadsTag)
    (hrel : ∀ e ∈ es, p.Reliable gid e)
    (hguard : Along Silo.step (fun u e => u.unhurried gid e = true) (.init m) es)
    (hrun : exec Silo.step (.init m) es = some s) :
    s.Continuous gid ∧ Along Silo.step (fun u e => u.KeepsOrder gid e) (.init m) es := by
  have hboth := hguard.and_forall hrel
  refine ⟨?_, along_of_invariant (I := p.Continuity gid) ?_ (.init m) hboth hrun⟩
  · have hinv : p.Continuity gid s :=
      exec_invariant (fun _ _ _ hg h hstep => h.step hg.1 hg.2 hser hread hstep) (.init m) hboth
        hrun
    intro j i u t hfol hj hi hf hl
    exact hinv.succession.loaded hfol hj hi hf hl
  · intro u e u' hg h hstep
    exact ⟨h.step hg.1 hg.2 hser hread hstep, h.keepsOrder hstep⟩

def lazyCounter : PersistentArgs UInt8 :=
  counter false .writeOnDeactivate (.run false)

/-- A call for the counter, and the first steps of its activation `i` up to the end of
the handler of `addMessage k`. -/
def serveCounter (i : ℕ) (k : UInt8) : List (SiloEvent UInt8) :=
  Silo.getOrInsert ⟨"Counter", "k"⟩ (.persistent lazyCounter) ++
    [.mailbox i (.load none), .mailbox i (.onActivate 0), .send i (addMessage k), .recv i,
      .mailbox i .handle, .mailbox i (.prepare 0 false)]

/-- The first activation is gone before the second is called for. -/
def inTurn : List (SiloEvent UInt8) :=
  serveCounter 0 5 ++ [.mailbox 0 .idleTimeout] ++ Silo.storedTeardown 0 ++
    [.mailbox 0 .remove] ++ serveCounter 1 1

theorem lazyCounter_lossless : lazyCounter.Lossless :=
  fun s => ⟨[s], rfl, rfl⟩

theorem state_continuity_counter :
    ∃ s, exec Silo.step (.init Shared.empty) inTurn = some s ∧
      (s.actOf ⟨"Counter", "k"⟩ 1).map state = some 6 ∧
      s.Continuous ⟨"Counter", "k"⟩ ∧
      Along Silo.step (fun u e => u.KeepsOrder ⟨"Counter", "k"⟩ e) (.init Shared.empty) inTurn := by
  have hcall : ∃ strategy, lazyCounter = { lazyCounter with strategy := strategy } := ⟨_, rfl⟩
  refine ⟨_, rfl, by decide, ?_⟩
  exact state_continuity lazyCounter ⟨"Counter", "k"⟩ Shared.empty inTurn _ lazyCounter_lossless
    (fun V hV => absurd hV (by simp [lazyCounter, counter]))
    (by simp [inTurn, serveCounter, getOrInsert, storedTeardown, Reliable,
      MailboxEvent.faulty, hcall]) (by decide +kernel) rfl

/-- A call between the end of the loop and the final save of the first activation : the
second starts from the default and saves 1, then the first saves 5 over it. -/
theorem successor_loads_early :
    ∃ s s' : Silo UInt8, exec Silo.step (.init Shared.empty)
        (serveCounter 0 5 ++ [.mailbox 0 .idleTimeout] ++ serveCounter 1 1 ++
          [.mailbox 1 .idleTimeout] ++ storedTeardown 1 ++
          [.mailbox 0 .onDeactivate, .mailbox 0 .serialize]) = some s ∧
      ¬s.Continuous ⟨"Counter", "k"⟩ ∧
      s.shared.store.get ⟨"Counter", "k"⟩ = some [1] ∧
      ¬s.KeepsOrder ⟨"Counter", "k"⟩ (.mailbox 0 (.save none)) ∧
      s.step (.mailbox 0 (.save none)) = some s' ∧
      s'.shared.store.get ⟨"Counter", "k"⟩ = some [5] := by
  refine ⟨_, _, rfl, fun h => ?_, rfl, fun h => ?_, rfl, rfl⟩
  · have hfol : ∀ k, 0 < k → k < 1 → False := fun k hk hk' => by omega
    exact absurd (h 0 1 _ _ ⟨by decide, fun k hk hk' => (hfol k hk hk').elim⟩ rfl rfl rfl rfl)
      (by decide)
  · exact absurd (h 0 _ _ rfl rfl rfl 1 _ (by decide) rfl) (by decide)

end PersistentArgs

end Orlando
