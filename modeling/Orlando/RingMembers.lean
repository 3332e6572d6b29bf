import Mathlib.Data.Finset.Dedup
import Orlando.HashRing

/-!
# The silos on a ring

A ring on which every silo has all its points is the ring of an assignment of silos to ids
(`HashRing.IsRingOf`). As long as no two ids have a point in common, adding a silo sets its id and
removing one clears it (`IsRingOf.add`, `IsRingOf.remove`).
-/

namespace Orlando

open List Function

namespace HashRing

def hashes (vnodes : ℕ) (siloId : String) : List UInt64 :=
  (List.range vnodes).map fun i => hashKey (siloId ++ ":" ++ toString i)

theorem points_eq (r : HashRing) (silo) : r.points silo = hashes r.virtualNodes silo.siloId :=
  rfl

def DistinctHashes (vnodes : ℕ) (ids : Finset String) : Prop :=
  ∀ a ∈ ids, ∀ b ∈ ids, ∀ key ∈ hashes vnodes a, key ∈ hashes vnodes b → a = b

instance (vnodes : ℕ) (ids : Finset String) :
    Decidable (DistinctHashes vnodes ids) :=
  -- The points are looked through one by one, not all of `UInt64`.
  have (a b : String) : Decidable (∀ key ∈ hashes vnodes a,
      key ∈ hashes vnodes b → a = b) :=
    List.decidableBAll (fun key => key ∈ hashes vnodes b → a = b) _
  inferInstanceAs (Decidable (∀ a ∈ ids, ∀ b ∈ ids, ∀ key ∈ hashes vnodes a,
    key ∈ hashes vnodes b → a = b))

variable {vnodes : ℕ}

theorem exists_mem_hashes (h : 0 < vnodes) (siloId) :
    ∃ key, key ∈ hashes vnodes siloId :=
  ⟨_, mem_map_of_mem (mem_range.mpr h)⟩

def siloIds (r : HashRing) : Finset String :=
  (r.members.map SiloAddress.siloId).toFinset

structure IsRingOf (ids : Finset String) (silos : String → Option SiloAddress)
    (r : HashRing) : Prop where
  distinct : DistinctHashes r.virtualNodes ids
  siloId_eq : ∀ {id a}, silos id = some a → a.siloId = id
  mem_ids : ∀ {id a}, silos id = some a → id ∈ ids
  lookup : ∀ {key a}, r.ring.lookup key = some a ↔ silos a.siloId = some a ∧ key ∈ r.points a

variable {r r' : HashRing} {ids ids' : Finset String} {silos : String → Option SiloAddress}
  {silo a : SiloAddress}

theorem isRingOf_new (hd : DistinctHashes vnodes ids) :
    (new vnodes).IsRingOf ids fun _ => none where
  distinct := hd
  siloId_eq := nofun
  mem_ids := nofun
  lookup := by simp [new]

theorem mem_foldl_members (silos : List SiloAddress) :
    ∀ result, ∃ members,
      silos.foldl (fun result silo => if result.any fun s => s.siloId == silo.siloId then result
        else result ++ [silo]) result = members ∧
      (∀ a ∈ members, a ∈ result ∨ a ∈ silos) ∧
      ∀ a, a ∈ result ∨ a ∈ silos → ∃ b ∈ members, b.siloId = a.siloId := by
  induction silos with
  | nil => exact fun result => ⟨result, rfl, by simp, by simpa using fun a ha => ⟨a, ha, rfl⟩⟩
  | cons silo silos ih =>
    intro result
    rw [foldl_cons]
    split_ifs with hany
    · -- One with the id of `silo` is listed already.
      obtain ⟨members, heq, hfrom, hlisted⟩ := ih result
      refine ⟨members, heq, fun a ha => (hfrom a ha).imp_right (mem_cons_of_mem silo), ?_⟩
      rintro a (ha | ha)
      · exact hlisted a (.inl ha)
      · rcases mem_cons.mp ha with rfl | ha
        · obtain ⟨s, hs, hid⟩ := any_eq_true.mp hany
          obtain ⟨b, hb, hbs⟩ := hlisted s (.inl hs)
          exact ⟨b, hb, hbs.trans (beq_iff_eq.mp hid)⟩
        · exact hlisted a (.inr ha)
    · obtain ⟨members, heq, hfrom, hlisted⟩ := ih (result ++ [silo])
      simp only [mem_append, mem_singleton, or_assoc] at hfrom hlisted
      refine ⟨members, heq, fun a ha => ?_, fun a ha => hlisted a ?_⟩
      · simpa using hfrom a ha
      · simpa using ha

theorem mem_values_of_mem_members (h : a ∈ r.members) : a ∈ r.ring.values := by
  obtain ⟨listed, heq, hfrom, -⟩ := mem_foldl_members r.ring.values []
  rw [members, heq] at h
  exact (hfrom a h).resolve_left not_mem_nil

theorem exists_mem_members (h : a ∈ r.ring.values) : ∃ b ∈ r.members, b.siloId = a.siloId := by
  obtain ⟨listed, heq, -, hlisted⟩ := mem_foldl_members r.ring.values []
  rw [members, heq]
  exact hlisted a (.inr h)

namespace IsRingOf

section

variable (h : r.IsRingOf ids silos) {id : String}
include h

theorem mono (hsub : ids ⊆ ids') (hd : DistinctHashes r.virtualNodes ids') :
    r.IsRingOf ids' silos :=
  ⟨hd, h.siloId_eq, fun hid => hsub (h.mem_ids hid), h.lookup⟩

theorem add (hsilo : silo.siloId ∈ ids) :
    (r.add silo).IsRingOf ids (update silos silo.siloId (some silo)) where
  distinct := h.distinct
  siloId_eq {id a} hid := by
    rw [update_apply] at hid
    split_ifs at hid with heq
    · rw [← Option.some.inj hid, heq]
    · exact h.siloId_eq hid
  mem_ids {id a} hid := by
    rw [update_apply] at hid
    split_ifs at hid with heq
    · exact heq ▸ hsilo
    · exact h.mem_ids hid
  lookup {key a} := by
    rw [lookup_add, update_apply]
    split_ifs with hkey heq heq
    · refine ⟨fun ha => ⟨ha, Option.some.inj ha ▸ hkey⟩, And.left⟩
    · -- A point of the new silo is no other silo's.
      refine ⟨fun ha => absurd (congrArg SiloAddress.siloId (Option.some.inj ha)).symm heq, ?_⟩
      rintro ⟨ha, hkey'⟩
      exact absurd (h.distinct _ (h.mem_ids ha) _ hsilo key hkey' hkey) heq
    · rw [h.lookup]
      have hkey' : key ∉ r.points a := by
        rwa [points_eq, heq, ← points_eq]
      exact ⟨fun ha => absurd ha.2 hkey', fun ha => absurd ha.2 hkey'⟩
    · exact h.lookup

theorem remove (hsilo : silo.siloId ∈ ids) :
    (r.remove silo).IsRingOf ids (update silos silo.siloId none) where
  distinct := h.distinct
  siloId_eq {id a} hid := by
    rw [update_apply] at hid
    split_ifs at hid
    exact h.siloId_eq hid
  mem_ids {id a} hid := by
    rw [update_apply] at hid
    split_ifs at hid
    exact h.mem_ids hid
  lookup {key a} := by
    rw [lookup_remove, update_apply]
    split_ifs with hkey heq heq
    · simp
    · refine ⟨nofun, ?_⟩
      rintro ⟨ha, hkey'⟩
      exact absurd (h.distinct _ (h.mem_ids ha) _ hsilo key hkey' hkey) heq
    · rw [h.lookup]
      have hkey' : key ∉ r.points a := by
        rwa [points_eq, heq, ← points_eq]
      exact ⟨fun ha => absurd ha.2 hkey', nofun⟩
    · exact h.lookup

theorem addAll {adds : List SiloAddress} (hm : ∀ silo ∈ adds, silo.siloId ∈ ids) :
    (adds.foldl HashRing.add r).IsRingOf ids fun id =>
      (adds.reverse.find? fun a => a.siloId == id).or (silos id) := by
  induction adds generalizing r silos with
  | nil => exact h
  | cons a adds ih =>
    have hrest := ih (h.add (hm a mem_cons_self))
      fun silo hsilo => hm silo (mem_cons_of_mem a hsilo)
    rw [foldl_cons]
    convert hrest using 2 with id
    rw [reverse_cons, find?_append, Option.or_assoc, update_apply]
    congr 1
    by_cases hid : a.siloId = id
    · simp [hid]
    · simp [hid, Ne.symm hid]

theorem removeAll {removes : List SiloAddress} (hm : ∀ silo ∈ removes, silo.siloId ∈ ids) :
    (removes.foldl HashRing.remove r).IsRingOf ids fun id =>
      if id ∈ removes.map SiloAddress.siloId then none else silos id := by
  induction removes generalizing r silos with
  | nil => simpa using h
  | cons a removes ih =>
    have hrest := ih (h.remove (hm a mem_cons_self))
      fun silo hsilo => hm silo (mem_cons_of_mem a hsilo)
    rw [foldl_cons]
    convert hrest using 2 with id
    rw [update_apply, map_cons]
    by_cases hid : id = a.siloId <;> simp [hid]

theorem unique (h' : r'.IsRingOf ids' silos) (hns : r.virtualNodes = r'.virtualNodes) :
    r = r' := by
  have hring : r.ring = r'.ring := by
    ext key a
    rw [h.lookup, h'.lookup, points_eq, points_eq, hns]
  cases r
  cases r'
  cases hring
  cases hns
  rfl

theorem mem_values (hnodes : 0 < r.virtualNodes) : a ∈ r.ring.values ↔ silos a.siloId = some a := by
  rw [OrderedMap.mem_values]
  constructor
  · rintro ⟨key, hkey⟩
    exact (h.lookup.mp hkey).1
  · intro ha
    obtain ⟨key, hkey⟩ := exists_mem_hashes hnodes a.siloId
    exact ⟨key, h.lookup.mpr ⟨ha, hkey⟩⟩

theorem mem_members (hns : 0 < r.virtualNodes) : a ∈ r.members ↔ silos a.siloId = some a := by
  rw [← h.mem_values hns]
  refine ⟨mem_values_of_mem_members, fun ha => ?_⟩
  obtain ⟨b, hb, heq⟩ := exists_mem_members ha
  have hb' := (h.mem_values hns).mp (mem_values_of_mem_members hb)
  rw [heq, (h.mem_values hns).mp ha] at hb'
  exact Option.some.inj hb' ▸ hb

theorem nodes_pos (hid : id ∈ r.siloIds) : 0 < r.virtualNodes := by
  obtain ⟨a, ha, -⟩ := mem_map.mp (mem_toFinset.mp hid)
  obtain ⟨key, hkey⟩ := OrderedMap.mem_values.mp (mem_values_of_mem_members ha)
  obtain ⟨i, hi, -⟩ := mem_map.mp (h.lookup.mp hkey).2
  exact Nat.zero_lt_of_lt (mem_range.mp hi)

theorem mem_siloIds (hns : 0 < r.virtualNodes) : id ∈ r.siloIds ↔ (silos id).isSome := by
  rw [siloIds, mem_toFinset, mem_map]
  constructor
  · rintro ⟨a, ha, rfl⟩
    rw [(h.mem_members hns).mp ha]
    rfl
  · intro hid
    obtain ⟨a, ha⟩ := Option.isSome_iff_exists.mp hid
    have hsilo := h.siloId_eq ha
    exact ⟨a, (h.mem_members hns).mpr (hsilo ▸ ha), hsilo⟩

theorem narrow (hns : 0 < r.virtualNodes) : r.IsRingOf r.siloIds silos := by
  have hm : ∀ {id}, id ∈ r.siloIds → id ∈ ids := by
    intro id hid
    obtain ⟨a, ha⟩ := Option.isSome_iff_exists.mp ((h.mem_siloIds hns).mp hid)
    exact h.mem_ids ha
  exact ⟨fun a ha b hb => h.distinct a (hm ha) b (hm hb), h.siloId_eq,
    fun hid => (h.mem_siloIds hns).mpr (Option.isSome_iff_exists.mpr ⟨_, hid⟩), h.lookup⟩

end

end IsRingOf

end HashRing

end Orlando
