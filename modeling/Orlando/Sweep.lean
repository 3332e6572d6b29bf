import Mathlib.Data.Nat.Notation

/-!
# Clearing a map shard by shard

A sweep of a map that is kept in shards collects the keys of one shard after the other, and then
removes the keys it has. As long as nobody puts one in, the keys that are still there are among
those it has or in a shard it has not come to (`Sweep.Covers`), so in the end there is none
(`Sweep.Covers.done`).
-/

namespace Orlando

structure Sharding (κ : Type) where
  count : ℕ
  shardOf : κ → Fin count

inductive Sweep (κ : Type) where
  | collecting (shard : ℕ) (keys : List κ)
  | removing (todo : List κ)
deriving DecidableEq

namespace Sweep

variable {κ : Type} {d : Sharding κ} {present present' : κ → Prop} {todo : List κ} {shard : ℕ}

def Covers (d : Sharding κ) (present : κ → Prop) : Sweep κ → Prop
  | collecting shard keys => ∀ k, present k → k ∈ keys ∨ shard ≤ d.shardOf k
  | removing todo => ∀ k, present k → k ∈ todo

theorem covers_start : (collecting 0 []).Covers d present :=
  fun _ _ => .inr (Nat.zero_le _)

theorem Covers.mono {w : Sweep κ} (h : w.Covers d present) (hp : ∀ k, present' k → present k) :
    w.Covers d present' := by
  cases w with
  | collecting shard keys => exact fun k hk => h k (hp k hk)
  | removing todo => exact fun k hk => h k (hp k hk)

theorem Covers.collect {keys found} (h : (collecting shard keys).Covers d present)
    (hfound : ∀ k, present k → (d.shardOf k : ℕ) = shard → k ∈ found) :
    (collecting (shard + 1) (keys ++ found)).Covers d present := by
  intro k hk
  rcases h k hk with hmem | hle
  · exact .inl (List.mem_append_left _ hmem)
  · rcases Nat.eq_or_lt_of_le hle with heq | hlt
    · exact .inl (List.mem_append_right _ (hfound k hk heq.symm))
    · exact .inr hlt

theorem Covers.collected {keys} (h : (collecting shard keys).Covers d present)
    (hshard : d.count ≤ shard) : (removing keys).Covers d present := by
  intro k hk
  rcases h k hk with hmem | hle
  · exact hmem
  · exact absurd (d.shardOf k).isLt (Nat.not_lt.mpr (Nat.le_trans hshard hle))

theorem Covers.remove {k} (h : (removing (k :: todo)).Covers d present)
    (hp : ∀ j, present' j → j ≠ k ∧ present j) : (removing todo).Covers d present' := by
  intro j hj
  obtain ⟨hne, hpj⟩ := hp j hj
  exact (List.mem_cons.mp (h j hpj)).resolve_left hne

theorem Covers.skip {k} (h : (removing (k :: todo)).Covers d present) (hk : ¬present k) :
    (removing todo).Covers d present :=
  h.remove fun _ hj => ⟨fun heq => hk (heq ▸ hj), hj⟩

theorem Covers.done (h : (removing []).Covers d present) (k) : ¬present k :=
  fun hk => (nomatch h k hk)

end Sweep

end Orlando
