import Mathlib.Algebra.Group.Nat.Defs
import Orlando.DirectoryEpochs
import Orlando.Slots

/-!
# Promotion

When a cluster has failed, the others list the grains it owns and register themselves for each at
the epoch after the one they have listed (`promote_grain`). The listings may be old by then, several
clusters promote the same grain, and transports go on claiming grains at epoch 1 (`Promotions`).
-/

namespace Orlando

open Option List CrossClusterDirectory

namespace CrossClusterDirectory

variable (d : CrossClusterDirectory)

def listOwnedBy (c : ClusterId) : List (GrainId × GrainOwnership) :=
  (d.entries.map Sigma.snd).filter fun r => r.2.clusterId = c

def promoteGrain (localClusterId : ClusterId) (gid : GrainId) (current : GrainOwnership) :
    CrossClusterDirectory × GrainOwnership :=
  d.register gid localClusterId ((current.epoch + 1) % 2 ^ 64)

end CrossClusterDirectory

structure Promotions where
  directory : CrossClusterDirectory
  listed : List (ClusterId × GrainId × GrainOwnership)

inductive PromotionEvent
  /-- A transport registers its cluster for a grain that it has found without owner. -/
  | claim (c : ClusterId) (gid : GrainId)
  | list (c : ClusterId)
  | promote (c : ClusterId) (gid : GrainId) (current : GrainOwnership)
deriving DecidableEq

def PromotionEvent.Below : PromotionEvent → Prop
  | .promote _ _ current => current.epoch < 2 ^ 64 - 1
  | .claim _ _ | .list _ => True

instance instDecidablePromotionBelow : (e : PromotionEvent) → Decidable e.Below
  | .promote _ _ current => inferInstanceAs (Decidable (current.epoch < 2 ^ 64 - 1))
  | .claim _ _ | .list _ => inferInstanceAs (Decidable True)

def DirectoryCall.Positive : DirectoryCall → Prop
  | .register _ _ epoch => 1 ≤ epoch
  | .lookup _ | .deregister _ _ => True

instance instDecidablePositive : (e : DirectoryCall) → Decidable e.Positive
  | .register _ _ epoch => inferInstanceAs (Decidable (1 ≤ epoch))
  | .lookup _ | .deregister _ _ => inferInstanceAs (Decidable True)

namespace Promotions

def init (d : CrossClusterDirectory) : Promotions where
  directory := d
  listed := []

def step (failed : ClusterId) (s : Promotions) : PromotionEvent → Option Promotions
  | .claim c gid => some { s with directory := (s.directory.register gid c 1).1 }
  | .list c =>
    if c = failed then none
    else some { s with
      listed := s.listed ++ (s.directory.listOwnedBy failed).map fun r => (c, r) }
  | .promote c gid current =>
    if (c, gid, current) ∈ s.listed then
      some { s with directory := (s.directory.promoteGrain c gid current).1 }
    else none

/-- Among the events, the cluster `c` promotes the grain after `es₁`, is answered with `o`
and leaves the state `t`. -/
def Returns (failed : ClusterId) (d : CrossClusterDirectory) (es es₁ : List PromotionEvent)
    (c : ClusterId) (gid : GrainId) (current o : GrainOwnership) (t : Promotions) : Prop :=
  es₁ ++ [.promote c gid current] <+: es ∧ ∃ s, exec (step failed) (init d) es₁ = some s ∧
    s.step failed (.promote c gid current) = some t ∧
    (s.directory.promoteGrain c gid current).2 = o

end Promotions

variable {d : CrossClusterDirectory}

namespace CrossClusterDirectory

variable {gid gid' : GrainId} {c : ClusterId} {epoch : ℕ} {o : GrainOwnership}

theorem owner_register_self (d : CrossClusterDirectory) (gid) (c)
    (epoch) : (d.register gid c epoch).1.owner gid = some (d.register gid c epoch).2 ∧
      epoch ≤ (d.register gid c epoch).2.epoch := by
  rcases register_eq d gid c epoch with ⟨o, ho, hle, heq⟩ | ⟨-, heq⟩
  · rw [heq]
    exact ⟨ho, hle⟩
  · rw [heq]
    exact ⟨owner_insert_self, Nat.le_refl _⟩

theorem owner_register_of_some (ho : d.owner gid = some o) (gid') (c)
    (epoch) : (d.register gid' c epoch).1.owner gid = some o ∨
      ((d.register gid' c epoch).1.owner gid = some ⟨c, epoch⟩ ∧ o.epoch < epoch) := by
  rcases register_eq d gid' c epoch with ⟨_, -, -, heq⟩ | ⟨hlt, heq⟩
  · rw [heq]
    exact .inl ho
  · rw [heq, owner_insert]
    split_ifs with hk
    · exact .inr ⟨rfl, hlt o (owner_congr hk ▸ ho)⟩
    · exact .inl ho

def Keyed (d : CrossClusterDirectory) : Prop :=
  ∀ k r, d.lookup k = some r → key r.1 = k

theorem Keyed.register (h : d.Keyed) (gid) (c) (epoch) : (d.register gid c epoch).1.Keyed := by
  rcases register_eq d gid c epoch with ⟨_, -, -, heq⟩ | ⟨-, heq⟩
  · rwa [heq]
  · rw [heq]
    intro k r hr
    rcases lookup_insert_cases hr with ⟨rfl, rfl⟩ | ⟨-, hr⟩
    · rfl
    · exact h k r hr

theorem Epochs.register_of_pos (h : d.Epochs) (gid) (c) (he : 1 ≤ epoch) :
    (d.register gid c epoch).1.Epochs := by
  rcases register_eq d gid c epoch with ⟨_, -, -, heq⟩ | ⟨-, heq⟩
  · rwa [heq]
  · rw [heq]
    intro gid' o ho
    rw [owner_insert] at ho
    split_ifs at ho
    · exact some.inj ho ▸ he
    · exact h gid' o ho

theorem lookup_deregister_of_some {k} {r}
    (h : (d.deregister gid c).lookup k = some r) : d.lookup k = some r := by
  unfold deregister at h
  split at h
  · split_ifs at h
    · exact lookup_of_erase h
    · exact h
  · exact h

theorem keyed_epochs_after {cs} (hcs : ∀ e ∈ cs, e.Positive) :
    (after ∅ cs).Keyed ∧ (after ∅ cs).Epochs := by
  induction cs using List.reverseRecOn with
  | nil => exact ⟨fun k r h => (by cases h), fun gid o h => (by cases h)⟩
  | append_singleton cs e ih =>
    obtain ⟨hkeyed, hepochs⟩ := ih fun e' he' => hcs e' (by simp [he'])
    rw [after_snoc]
    cases e with
    | lookup gid => exact ⟨hkeyed, hepochs⟩
    | register gid c epoch =>
      have he := hcs (.register gid c epoch) (by simp)
      exact ⟨hkeyed.register gid c epoch, hepochs.register_of_pos gid c he⟩
    | deregister gid c =>
      refine ⟨fun k r hr => hkeyed k r (lookup_deregister_of_some hr), fun gid' o ho => ?_⟩
      obtain ⟨r, hr, rfl⟩ := map_eq_some_iff.mp ho
      exact hepochs gid' r.2 (by rw [owner, lookup_deregister_of_some hr, map_some])

end CrossClusterDirectory

namespace Promotions

variable {failed : ClusterId} {s t : Promotions} {es : List PromotionEvent} {c : ClusterId}
  {gid : GrainId} {current o : GrainOwnership} {e : PromotionEvent} {epoch : ℕ}

variable (failed s) in
inductive Move : PromotionEvent → Promotions → Prop
  | claim (c : ClusterId) (gid : GrainId) :
    Move (.claim c gid) { s with directory := (s.directory.register gid c 1).1 }
  | list {c : ClusterId} (hc : c ≠ failed) :
    Move (.list c) { s with
      listed := s.listed ++ (s.directory.listOwnedBy failed).map fun r => (c, r) }
  | promote {c : ClusterId} {gid current} (hmem : (c, gid, current) ∈ s.listed) :
    Move (.promote c gid current)
      { s with directory := (s.directory.promoteGrain c gid current).1 }

theorem move_of_step (h : s.step failed e = some t) : s.Move failed e t := by
  cases e with
  | claim c gid =>
    cases h
    exact .claim c gid
  | list c =>
    obtain ⟨hc, h⟩ := ite_none_left_eq_some.mp h
    cases h
    exact .list hc
  | promote c gid current =>
    obtain ⟨hmem, h⟩ := ite_none_right_eq_some.mp h
    cases h
    exact .promote hmem

def Listed (failed : ClusterId) (d : CrossClusterDirectory) (gid : GrainId)
    (current : GrainOwnership) : Prop :=
  ∃ o, d.owner gid = some o ∧
    (o = current ∨ (current.epoch < o.epoch ∧ o.clusterId ≠ failed))

theorem Listed.register (h : Listed failed d gid current) (hd : d.Epochs) {gid'}
    (hc : c ≠ failed ∨ epoch = 1) : Listed failed (d.register gid' c epoch).1 gid current := by
  obtain ⟨o, ho, hcur⟩ := h
  rcases owner_register_of_some ho gid' c epoch with hsame | ⟨hnew, hlt⟩
  · exact ⟨o, hsame, hcur⟩
  · refine ⟨_, hnew, .inr ⟨?_, ?_⟩⟩
    · rcases hcur with rfl | ⟨hcur, -⟩
      · exact hlt
      · exact Nat.lt_trans hcur hlt
    · refine hc.resolve_right fun hone => ?_
      exact absurd (hone ▸ hlt) (Nat.not_lt.mpr (hd gid o ho))

variable (failed s) in
/-- Listings are those of clusters that have not failed, and may have been overtaken. -/
structure Sound : Prop where
  keyed : s.directory.Keyed
  epochs : s.directory.Epochs
  contender : ∀ c gid current, (c, gid, current) ∈ s.listed → c ≠ failed
  listed : ∀ c gid current, (c, gid, current) ∈ s.listed → Listed failed s.directory gid current

theorem Sound.register (h : s.Sound failed) {gid} (he : 1 ≤ epoch) (hc : c ≠ failed ∨ epoch = 1) :
    Sound failed { s with directory := (s.directory.register gid c epoch).1 } where
  keyed := h.keyed.register gid c epoch
  epochs := h.epochs.register_of_pos gid c he
  contender := h.contender
  listed c' gid' current hmem := (h.listed c' gid' current hmem).register h.epochs hc

theorem promoteGrain_eq (hmax : current.epoch < 2 ^ 64 - 1) :
    d.promoteGrain c gid current = d.register gid c (current.epoch + 1) := by
  rw [promoteGrain, Nat.mod_eq_of_lt (by omega)]

theorem Sound.mem_listed (h : s.Sound failed) {c'} (hmem : (c', gid, current) ∈
      s.listed ++ (s.directory.listOwnedBy failed).map fun r => (c, r)) :
    (c', gid, current) ∈ s.listed ∨ (c' = c ∧ s.directory.owner gid = some current) := by
  rcases mem_append.mp hmem with hold | hnew
  · exact .inl hold
  · obtain ⟨r, hr, heq⟩ := mem_map.mp hnew
    cases heq
    obtain ⟨⟨k, r⟩, hentry, rfl⟩ := mem_map.mp (mem_filter.mp hr).1
    have hlook : s.directory.lookup k = some (gid, current) := AList.mem_lookup_iff.mpr hentry
    obtain rfl := h.keyed k _ hlook
    exact .inr ⟨rfl, by rw [owner, hlook, map_some]⟩

theorem Sound.step (h : s.Sound failed) (he : e.Below) (hstep : s.step failed e = some t) :
    t.Sound failed := by
  cases move_of_step hstep with
  | claim c gid => exact h.register (Nat.le_refl 1) (.inr rfl)
  | list hc =>
    refine ⟨h.keyed, h.epochs, fun c' gid current hm => ?_, fun c' gid current hm => ?_⟩
    · rcases h.mem_listed hm with hold | ⟨rfl, -⟩
      · exact h.contender c' gid current hold
      · exact hc
    · rcases h.mem_listed hm with hold | ⟨-, ho⟩
      · exact h.listed c' gid current hold
      · exact ⟨current, ho, .inl rfl⟩
  | @promote c gid current hm =>
    rw [promoteGrain_eq he]
    exact h.register (Nat.le_add_left ..) (.inl (h.contender c gid current hm))

theorem fences_of_run (hrun : exec (step failed) s es = some t)
    (ho : s.directory.owner gid = some o) :
    ∃ o', t.directory.owner gid = some o' ∧ o.Fences o' := by
  refine exec_invariant_of_step
    (I := fun w : Promotions => ∃ o', w.directory.owner gid = some o' ∧ o.Fences o')
    (fun w e w' hI hstep => ?_) ⟨o, ho, .refl o⟩ hrun
  obtain ⟨o', ho', hfences⟩ := hI
  have hreg : ∀ gid' c epoch, ∃ o'',
      (w.directory.register gid' c epoch).1.owner gid = some o'' ∧ o.Fences o'' := by
    intro gid' c epoch
    rcases owner_register_of_some ho' gid' c epoch with h | ⟨h, hlt⟩
    · exact ⟨o', h, hfences⟩
    · exact ⟨_, h, hfences.trans_lt hlt⟩
  cases move_of_step hstep with
  | claim c gid' => exact hreg gid' c 1
  | list => exact ⟨o', ho', hfences⟩
  | promote => exact hreg _ _ _

theorem listed_of_run (hrun : exec (step failed) s es = some t)
    (hmem : (c, gid, current) ∈ s.listed) : (c, gid, current) ∈ t.listed := by
  refine exec_invariant_of_step (I := fun w : Promotions => (c, gid, current) ∈ w.listed)
    (fun w e w' hI hstep => ?_) hmem hrun
  cases move_of_step hstep with
  | list => exact mem_append_left _ hI
  | _ => exact hI

theorem sound_of_run {setup} (hsetup : ∀ e ∈ setup, e.Positive) (hmax : ∀ e ∈ es, e.Below)
    (hrun : exec (step failed) (init (after ∅ setup)) es = some s) : s.Sound failed := by
  obtain ⟨hkeyed, hepochs⟩ := keyed_epochs_after hsetup
  have hinit : (init (after ∅ setup)).Sound failed :=
    ⟨hkeyed, hepochs, fun _ _ _ h => (by cases h), fun _ _ _ h => (by cases h)⟩
  exact exec_invariant (P := fun _ e => e.Below ∧ True) (fun _ _ _ he h hstep => h.step he.1 hstep)
    hinit ((along_true _ _).and_forall hmax) hrun

namespace Returns

variable {es₁ : List PromotionEvent}

section

variable (h : Returns failed d es es₁ c gid current o t)
include h

theorem exec_eq : exec (step failed) (init d) (es₁ ++ [.promote c gid current]) = some t := by
  obtain ⟨-, s, hs, hstep, -⟩ := h
  exact exec_snoc_eq_some.mpr ⟨s, hs, hstep⟩

theorem mem_listed : (c, gid, current) ∈ t.listed := by
  obtain ⟨-, s, -, hstep, -⟩ := h
  cases move_of_step hstep with
  | promote hmem => exact hmem

theorem owner_eq (hmax : current.epoch < 2 ^ 64 - 1) :
    t.directory.owner gid = some o ∧ current.epoch + 1 ≤ o.epoch := by
  obtain ⟨-, s, -, hstep, rfl⟩ := h
  cases move_of_step hstep with
  | promote hmem =>
    rw [promoteGrain_eq hmax]
    exact owner_register_self ..

theorem fences_of_prefix (hmax : current.epoch < 2 ^ 64 - 1) {es₂} {u}
    (hpre : es₁ ++ [.promote c gid current] <+: es₂)
    (hu : exec (step failed) (init d) es₂ = some u) :
    (∃ o', u.directory.owner gid = some o' ∧ o.Fences o') ∧ (c, gid, current) ∈ u.listed := by
  obtain ⟨es₃, rfl⟩ := hpre
  rw [exec_append, h.exec_eq, bind_some] at hu
  exact ⟨fences_of_run hu (h.owner_eq hmax).1, listed_of_run hu h.mem_listed⟩

end

variable {es₁' : List PromotionEvent} {c' : ClusterId} {current' o' : GrainOwnership}
  {t' : Promotions}

section

variable (h : Returns failed d es es₁ c gid current o t)
include h

section

variable (h' : Returns failed d es es₁' c' gid current' o' t') (hmax : current.epoch < 2 ^ 64 - 1)
  (hmax' : current'.epoch < 2 ^ 64 - 1)
include h' hmax hmax'

theorem fences_or_fences : o.Fences o' ∨ o'.Fences o := by
  rcases prefix_or_prefix_of_prefix h.1 h'.1 with hpre | hpre
  · obtain ⟨⟨o'', ho'', hfences⟩, -⟩ := h.fences_of_prefix hmax hpre h'.exec_eq
    exact .inl (some.inj (ho''.symm.trans (h'.owner_eq hmax').1) ▸ hfences)
  · obtain ⟨⟨o'', ho'', hfences⟩, -⟩ := h'.fences_of_prefix hmax' hpre h.exec_eq
    exact .inr (some.inj (ho''.symm.trans (h.owner_eq hmax).1) ▸ hfences)

theorem eq_of_epoch (he : o.epoch = o'.epoch) : o = o' := by
  obtain ⟨cluster, epoch⟩ := o
  obtain ⟨cluster', epoch'⟩ := o'
  obtain rfl : epoch = epoch' := he
  rcases h.fences_or_fences h' hmax hmax' with hf | hf
  · obtain rfl : cluster = cluster' := hf.cluster rfl
    rfl
  · obtain rfl : cluster' = cluster := hf.cluster rfl
    rfl

end

theorem below (hmax : ∀ e ∈ es, e.Below) : current.epoch < 2 ^ 64 - 1 :=
  hmax (.promote c gid current) (h.1.subset (by simp))

end

end Returns

/-- For a grain listed at an epoch, one cluster at most is ever returned as the owner at the next,
and from the first call on the failed cluster is not the owner. -/
theorem one_winner (failed : ClusterId) (setup : List DirectoryCall) (es : List PromotionEvent)
    (hsetup : ∀ e ∈ setup, e.Positive) (hmax : ∀ e ∈ es, e.Below) :
    let d := after ∅ setup
    (∀ es₁ c gid current o t, Returns failed d es es₁ c gid current o t →
      t.directory.owner gid = some o) ∧
    (∀ es₁ c gid current o t es₁' c' current' o' t', Returns failed d es es₁ c gid current o t →
      Returns failed d es es₁' c' gid current' o' t' →
      (o.epoch = o'.epoch → o.clusterId = o'.clusterId) ∧
      (o'.epoch = current.epoch + 1 → o = o' ∨ o'.epoch < o.epoch)) ∧
    (∀ es₁ c gid current o t es₂ u, Returns failed d es es₁ c gid current o t →
      es₁ ++ [.promote c gid current] <+: es₂ → es₂ <+: es →
      exec (step failed) (init d) es₂ = some u →
      ∃ o', u.directory.owner gid = some o' ∧ o'.clusterId ≠ failed) := by
  refine ⟨fun _ _ _ _ _ _ h => (h.owner_eq (h.below hmax)).1, ?_, ?_⟩
  · intro es₁ c gid current o t es₁' c' current' o' t' h h'
    have hsame := h.eq_of_epoch h' (h.below hmax) (h'.below hmax)
    refine ⟨fun he => hsame he ▸ rfl, fun he => ?_⟩
    have hle := (h.owner_eq (h.below hmax)).2
    rcases Nat.eq_or_lt_of_le (he ▸ hle) with heq | hlt
    · exact .inl (hsame heq.symm)
    · exact .inr hlt
  · intro es₁ c gid current o t es₂ u h hpre hes hu
    obtain ⟨⟨o', ho', hfences⟩, hmem⟩ := h.fences_of_prefix (h.below hmax) hpre hu
    have hsound := sound_of_run hsetup (fun e he => hmax e (hes.subset he)) hu
    obtain ⟨o'', ho'', hcur⟩ := hsound.listed c gid current hmem
    cases ho'.symm.trans ho''
    refine ⟨o', ho', ?_⟩
    -- The record is above the listed epoch, and so not the listed one.
    have hlt := Nat.lt_of_lt_of_le (h.owner_eq (h.below hmax)).2 hfences.epoch
    rcases hcur with rfl | ⟨-, hne⟩
    · exact absurd hlt (Nat.lt_irrefl _)
    · exact hne

/-- Two clusters list a grain of the failed one and promote it, which claims it in
between. -/
def race : List PromotionEvent :=
  [.list ⟨"us"⟩, .list ⟨"asia"⟩, .promote ⟨"us"⟩ ⟨"Counter", "k"⟩ ⟨⟨"eu"⟩, 1⟩,
    .claim ⟨"eu"⟩ ⟨"Counter", "k"⟩, .promote ⟨"asia"⟩ ⟨"Counter", "k"⟩ ⟨⟨"eu"⟩, 1⟩]

theorem one_winner_race :
    ∃ t, Returns ⟨"eu"⟩ (after ∅ [.register ⟨"Counter", "k"⟩ ⟨"eu"⟩ 1]) race
        (race.take 4) ⟨"asia"⟩ ⟨"Counter", "k"⟩ ⟨⟨"eu"⟩, 1⟩ ⟨⟨"us"⟩, 2⟩ t ∧
      t.directory.owner ⟨"Counter", "k"⟩ = some ⟨⟨"us"⟩, 2⟩ := by
  obtain ⟨t, ht⟩ : ∃ t, Returns ⟨"eu"⟩
      (after ∅ [.register ⟨"Counter", "k"⟩ ⟨"eu"⟩ 1]) race (race.take 4)
      ⟨"asia"⟩ ⟨"Counter", "k"⟩ ⟨⟨"eu"⟩, 1⟩ ⟨⟨"us"⟩, 2⟩ t :=
    ⟨_, prefix_refl _, _, rfl, rfl, rfl⟩
  exact ⟨t, ht, (one_winner ⟨"eu"⟩ [.register ⟨"Counter", "k"⟩ ⟨"eu"⟩ 1] race (by decide)
    (by decide)).1 _ _ _ _ _ _ ht⟩

end Promotions

end Orlando
