import Orlando.CrossCluster

/-!
# Epochs in the directory of grain owners

A cluster with an old epoch should not become the owner again, and no two clusters should own a
grain at one epoch (`EpochsFenced`). `register` keeps to that as long as there is a record to
compare with, and `deregister` removes it.
-/

namespace Orlando

open List Option AList

inductive DirectoryCall
  | lookup (gid : GrainId)
  | register (gid : GrainId) (c : ClusterId) (epoch : ℕ)
  | deregister (gid : GrainId) (c : ClusterId)
deriving DecidableEq

/-- The later record `o'` has a higher epoch, or is of the same cluster. -/
structure GrainOwnership.Fences (o o' : GrainOwnership) : Prop where
  epoch : o.epoch ≤ o'.epoch
  cluster : o.epoch = o'.epoch → o.clusterId = o'.clusterId

namespace GrainOwnership.Fences

variable {o o' o'' : GrainOwnership}

theorem refl (o : GrainOwnership) : o.Fences o :=
  ⟨Nat.le_refl _, fun _ => rfl⟩

theorem trans_lt (h : o.Fences o') (hlt : o'.epoch < o''.epoch) : o.Fences o'' where
  epoch := Nat.le_trans h.epoch (Nat.le_of_lt hlt)
  cluster heq := absurd heq (Nat.ne_of_lt (Nat.lt_of_le_of_lt h.epoch hlt))

end GrainOwnership.Fences

namespace CrossClusterDirectory

variable (d : CrossClusterDirectory)

/-- Release a grain. Only its owner can. -/
def deregister (gid : GrainId) (c : ClusterId) : CrossClusterDirectory :=
  match d.lookup (key gid) with
  | some (_, existing) => if existing.clusterId = c then d.erase (key gid) else d
  | none => d

def call (d : CrossClusterDirectory) : DirectoryCall → CrossClusterDirectory
  | .lookup _ => d
  | .register gid c epoch => (d.register gid c epoch).1
  | .deregister gid c => d.deregister gid c

def after (cs : List DirectoryCall) : CrossClusterDirectory :=
  cs.foldl call d

/-- Among the calls, every record of a grain fences the later ones. -/
def EpochsFenced (cs : List DirectoryCall) : Prop :=
  ∀ cs₁ cs₂ gid o o', cs₁ <+: cs₂ → cs₂ <+: cs → (d.after cs₁).owner gid = some o →
    (d.after cs₂).owner gid = some o' → o.Fences o'

/-- A registration that finds no record is fenced by the records the grain has had. -/
def FreshEpochs (cs : List DirectoryCall) : Prop :=
  ∀ cs₁ cs₂ gid c epoch o, cs₁ <+: cs₂ → cs₂ ++ [.register gid c epoch] <+: cs →
    (d.after cs₂).owner gid = none → (d.after cs₁).owner gid = some o → o.Fences ⟨c, epoch⟩

variable {d} {gid gid' : GrainId} {o : GrainOwnership}

theorem register_eq (d : CrossClusterDirectory) (gid) (c) (epoch) :
    (∃ o, d.owner gid = some o ∧ epoch ≤ o.epoch ∧ d.register gid c epoch = (d, o)) ∨
    ((∀ o, d.owner gid = some o → o.epoch < epoch) ∧
      d.register gid c epoch = (d.insert (key gid) (gid, ⟨c, epoch⟩), ⟨c, epoch⟩)) := by
  unfold register owner
  cases hl : d.lookup (key gid) with
  | none => exact .inr ⟨fun o ho => (by cases ho), rfl⟩
  | some r =>
    obtain ⟨gid', existing⟩ := r
    by_cases hle : epoch ≤ existing.epoch
    · refine .inl ⟨existing, rfl, hle, ?_⟩
      by_cases hc : existing.clusterId = c <;> simp [hc, hle]
    · refine .inr ⟨fun o ho => ?_, by simp [hle]⟩
      cases ho
      exact Nat.lt_of_not_le hle

theorem owner_insert (d : CrossClusterDirectory) (gid gid') (o) :
    owner (d.insert (key gid) (gid, o)) gid' =
      if key gid' = key gid then some o else d.owner gid' := by
  split_ifs with hk
  · rw [owner_congr hk, owner_insert_self]
  · rw [owner, lookup_insert_ne hk, owner]

theorem deregister_eq (d : CrossClusterDirectory) (gid) (c) :
    d.deregister gid c = d ∨ d.deregister gid c = d.erase (key gid) := by
  unfold deregister
  split
  · split_ifs
    · exact .inr rfl
    · exact .inl rfl
  · exact .inl rfl

theorem owner_deregister (d : CrossClusterDirectory) (gid gid') (c) :
    (d.deregister gid c).owner gid' = d.owner gid' ∨ (d.deregister gid c).owner gid' = none := by
  rcases deregister_eq d gid c with heq | heq <;> rw [heq]
  · exact .inl rfl
  · by_cases hk : key gid' = key gid
    · right
      rw [owner, hk, lookup_erase, map_none]
    · left
      rw [owner, lookup_erase_ne hk, owner]

theorem owner_call (d : CrossClusterDirectory) (e) (gid) :
    (d.call e).owner gid = d.owner gid ∨ (d.call e).owner gid = none ∨
    ∃ gid' c epoch, e = .register gid' c epoch ∧ key gid' = key gid ∧
      (d.call e).owner gid = some ⟨c, epoch⟩ ∧ ∀ o, d.owner gid = some o → o.epoch < epoch := by
  cases e with
  | lookup => exact .inl rfl
  | register gid' c epoch =>
    rcases register_eq d gid' c epoch with ⟨o, -, -, heq⟩ | ⟨hlt, heq⟩
    · left
      rw [call, heq]
    · rw [call, heq, owner_insert]
      split_ifs with hk
      · exact .inr (.inr ⟨gid', c, epoch, rfl, hk.symm, rfl, fun o ho =>
          hlt o (owner_congr hk ▸ ho)⟩)
      · exact .inl rfl
  | deregister gid' c =>
    rcases owner_deregister d gid' gid c with h | h
    · exact .inl h
    · exact .inr (.inl h)

theorem after_snoc (d : CrossClusterDirectory) (cs) (e) :
    d.after (cs ++ [e]) = (d.after cs).call e := by
  rw [after, foldl_append]
  rfl

theorem FreshEpochs.fences {cs} (h : d.FreshEpochs cs) :
    ∀ {cs₂ cs₁} {o'}, cs₁ <+: cs₂ → cs₂ <+: cs →
      (d.after cs₁).owner gid = some o → (d.after cs₂).owner gid = some o' → o.Fences o' := by
  intro cs₂
  induction cs₂ using reverseRecOn with
  | nil =>
    intro cs₁ o' hpre _ ho ho'
    obtain rfl := prefix_nil.mp hpre
    exact some.inj (ho.symm.trans ho') ▸ .refl o
  | append_singleton cs₂ e ih =>
    intro cs₁ o' hpre hcs ho ho'
    rcases prefix_concat_iff.mp hpre with rfl | hpre'
    · exact some.inj (ho.symm.trans ho') ▸ .refl o
    · have hcs₂ := (prefix_append _ _).trans hcs
      rw [after_snoc] at ho'
      rcases owner_call (d.after cs₂) e gid with hsame | hnone | ⟨gid', c, epoch, rfl, hk, heq, hlt⟩
      · exact ih hpre' hcs₂ ho (hsame ▸ ho')
      · rw [hnone] at ho'
        cases ho'
      · cases heq.symm.trans ho'
        cases hold : (d.after cs₂).owner gid with
        | none =>
          exact h cs₁ cs₂ gid' c epoch o hpre' hcs (owner_congr hk ▸ hold) (owner_congr hk ▸ ho)
        | some old => exact (ih hpre' hcs₂ ho hold).trans_lt (hlt old hold)

/-- The epochs are fenced exactly when a registration that finds no record is fenced by
the records the grain has had. -/
theorem epochsFenced_iff (d : CrossClusterDirectory) (cs : List DirectoryCall) :
    d.EpochsFenced cs ↔ d.FreshEpochs cs := by
  constructor
  · intro h cs₁ cs₂ gid c epoch o hpre hcs hnone ho
    refine h cs₁ _ gid o ⟨c, epoch⟩ (hpre.trans (prefix_append _ _)) hcs ho ?_
    rw [after_snoc, call]
    rcases register_eq (d.after cs₂) gid c epoch with ⟨o', ho', -, -⟩ | ⟨-, heq⟩
    · rw [hnone] at ho'
      cases ho'
    · rw [heq, owner_insert_self]
  · intro h cs₁ cs₂ gid o o' hpre hcs ho ho'
    exact h.fences hpre hcs ho ho'

/-- A grain is taken over at epoch 2, released, and the first owner comes back with
epoch 1. -/
def released : List DirectoryCall :=
  [.register ⟨"Counter", "k"⟩ ⟨"eu"⟩ 1, .register ⟨"Counter", "k"⟩ ⟨"us"⟩ 2,
    .deregister ⟨"Counter", "k"⟩ ⟨"us"⟩, .register ⟨"Counter", "k"⟩ ⟨"eu"⟩ 1]

theorem stale_epoch_after_release :
    (after ∅ (released.take 2)).owner ⟨"Counter", "k"⟩ = some ⟨⟨"us"⟩, 2⟩ ∧
    (after ∅ released).owner ⟨"Counter", "k"⟩ = some ⟨⟨"eu"⟩, 1⟩ ∧
    ¬EpochsFenced ∅ released := by
  refine ⟨rfl, rfl, fun h => ?_⟩
  have hfences := h (released.take 2) released ⟨"Counter", "k"⟩ ⟨⟨"us"⟩, 2⟩ ⟨⟨"eu"⟩, 1⟩
    (List.take_prefix _ _) (prefix_refl _) rfl rfl
  exact absurd hfences.epoch (by decide)

end CrossClusterDirectory

end Orlando
