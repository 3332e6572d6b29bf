import Orlando.MembershipTable
import Orlando.RingMembers

/-!
# Rings over their history

The owner of a key is the silo of the point that comes first on the way round from the hash of the
key (`HashRing.get_eq_some_iff`).

`HashRing.after` is the ring after a sequence of calls, and `silosAfter` what they leave under each
id.
-/

namespace Orlando

open List Option SiloAddress Function HashRing

variable {silos : String → Option SiloAddress}

namespace HashRing

open OrderedMap

variable {r : HashRing} {ids : Finset String} {key : String} {silo a : SiloAddress}

theorem get_eq_next (r : HashRing) (key) :
    r.get key = (r.ring.next (hashKey key)).map Prod.snd := by
  unfold get
  split_ifs with hempty
  · have hnone := next_eq_none_iff (k := hashKey key).mpr (lookup_of_isEmpty hempty)
    rw [hnone, map_none]
  · rfl

theorem get_eq_some_iff : r.get key = some a ↔ ∃ p, r.ring.lookup p = some a ∧
    ∀ q, r.ring.lookup q ≠ none → wayFrom (hashKey key) p ≤ wayFrom (hashKey key) q := by
  rw [get_eq_next, map_eq_some_iff]
  constructor
  · rintro ⟨⟨p, b⟩, hnext, rfl⟩
    exact ⟨p, next_eq_some_iff.mp hnext⟩
  · rintro ⟨p, hp⟩
    exact ⟨(p, a), next_eq_some_iff.mpr hp, rfl⟩

theorem get_eq_none_iff : r.get key = none ↔ ∀ p, r.ring.lookup p = none := by
  rw [get_eq_next, map_eq_none_iff, next_eq_none_iff]

theorem get_add (r : HashRing) (silo) (key) :
    (r.add silo).get key = r.get key ∨ (r.add silo).get key = some silo := by
  have hstay : ∀ q, r.ring.lookup q ≠ none → (r.add silo).ring.lookup q ≠ none := by
    intro q hq
    rw [lookup_add]
    split_ifs <;> simp [hq]
  cases hg : (r.add silo).get key with
  | none =>
    refine Or.inl (Eq.symm (get_eq_none_iff.mpr fun p => ?_))
    by_contra hp
    exact hstay p hp (get_eq_none_iff.mp hg p)
  | some a =>
    obtain ⟨p, hp, hfirst⟩ := get_eq_some_iff.mp hg
    rw [lookup_add] at hp
    split_ifs at hp
    · exact Or.inr hp.symm
    · exact Or.inl (get_eq_some_iff.mpr ⟨p, hp, fun q hq => hfirst q (hstay q hq)⟩).symm

theorem get_add_new {vnodes} (h : 0 < vnodes) (silo) (key : String) :
    ((new vnodes).add silo).get key = some silo := by
  rcases get_add (new vnodes) silo key with hnew | hsilo
  · have hempty : (new vnodes).get key = none :=
      get_eq_none_iff.mpr fun p => lookup_empty p
    obtain ⟨p, hp⟩ := exists_mem_hashes h silo.siloId
    have hn := get_eq_none_iff.mp (hnew.trans hempty) p
    rw [lookup_add, points_eq, new, if_pos hp] at hn
    cases hn
  · exact hsilo

namespace IsRingOf

theorem get_remove (h : r.IsRingOf ids silos) (hsilo : silo.siloId ∈ ids)
    (hother : ∀ a, r.get key = some a → a.siloId ≠ silo.siloId) :
    (r.remove silo).get key = r.get key := by
  have hfrom : ∀ q, (r.remove silo).ring.lookup q ≠ none → r.ring.lookup q ≠ none := by
    intro q hq
    rw [lookup_remove] at hq
    split_ifs at hq
    · exact absurd rfl hq
    · exact hq
  cases hg : r.get key with
  | none =>
    refine get_eq_none_iff.mpr fun p => ?_
    by_contra hp
    exact hfrom p hp (get_eq_none_iff.mp hg p)
  | some a =>
    obtain ⟨p, hp, hfirst⟩ := get_eq_some_iff.mp hg
    refine get_eq_some_iff.mpr ⟨p, ?_, fun q hq => hfirst q (hfrom q hq)⟩
    rw [lookup_remove, if_neg, hp]
    -- The point is that of `a`, and not one of the silo's.
    intro hpoint
    obtain ⟨ha, hpa⟩ := h.lookup.mp hp
    exact hother a hg (h.distinct _ (h.mem_ids ha) _ hsilo p hpa hpoint)

theorem get_eq_none (h : r.IsRingOf ids silos) :
    r.get key = none ↔ (∀ id, silos id = none) ∨ r.virtualNodes = 0 := by
  rw [get_eq_none_iff]
  constructor
  · intro hn
    by_contra hne
    obtain ⟨hsome, hns⟩ := not_or.mp hne
    obtain ⟨id, hid⟩ := not_forall.mp hsome
    obtain ⟨a, ha⟩ := ne_none_iff_exists'.mp hid
    obtain ⟨p, hp⟩ := exists_mem_hashes (Nat.pos_of_ne_zero hns) a.siloId
    have hl := h.lookup.mpr ⟨(h.siloId_eq ha).symm ▸ ha, hp⟩
    rw [hn] at hl
    cases hl
  · intro hn p
    by_contra hp
    obtain ⟨a, ha⟩ := ne_none_iff_exists'.mp hp
    obtain ⟨hsilo, hpoint⟩ := h.lookup.mp ha
    rcases hn with hn | hns
    · rw [hn] at hsilo
      cases hsilo
    · simp [points, hns] at hpoint

end IsRingOf

end HashRing

inductive RingCall where
  | add (silo : SiloAddress)
  | remove (silo : SiloAddress)
deriving DecidableEq

namespace RingCall

def silo : RingCall → SiloAddress
  | add silo | remove silo => silo

def apply (r : HashRing) : RingCall → HashRing
  | add silo => r.add silo
  | remove silo => r.remove silo

def leaves : RingCall → Option SiloAddress
  | add silo => some silo
  | remove _ => none

end RingCall

namespace HashRing

open OrderedMap

variable {vnodes : ℕ} {calls : List RingCall} {r : HashRing} {ids : Finset String}
  {call : RingCall} {key : String} {a : SiloAddress}

def after (vnodes : ℕ) (calls : List RingCall) : HashRing :=
  calls.foldl RingCall.apply (new vnodes)

/-- The silos that the calls leave : under each id the one that was added last, if it was
not removed since. -/
def silosAfter (calls : List RingCall) : String → Option SiloAddress :=
  calls.foldl (fun silos call => Function.update silos call.silo.siloId call.leaves) fun _ => none

def callIds (calls : List RingCall) : Finset String :=
  (calls.map fun call => call.silo.siloId).toFinset

theorem mem_callIds (h : call ∈ calls) : call.silo.siloId ∈ callIds calls :=
  mem_toFinset.mpr (mem_map_of_mem h)

theorem IsRingOf.apply (h : r.IsRingOf ids silos) (hid : call.silo.siloId ∈ ids) :
    (call.apply r).IsRingOf ids (update silos call.silo.siloId call.leaves) := by
  cases call with
  | add silo => exact h.add hid
  | remove silo => exact h.remove hid

theorem isRingOf_after (hd : DistinctHashes vnodes (callIds calls)) :
    (after vnodes calls).IsRingOf (callIds calls) (silosAfter calls) := by
  have hrun : ∀ rest {r silos}, rest ⊆ calls → r.IsRingOf (callIds calls) silos →
      (rest.foldl RingCall.apply r).IsRingOf (callIds calls) (rest.foldl
        (fun silos call => update silos call.silo.siloId call.leaves) silos) := by
    intro rest
    induction rest with
    | nil => exact fun _ h => h
    | cons call rest ih =>
      intro r silos hsub h
      obtain ⟨hcall, hrest⟩ := cons_subset.mp hsub
      exact ih hrest (h.apply (mem_callIds hcall))
  exact hrun calls (List.Subset.refl calls) (isRingOf_new hd)

theorem foldl_add_eq_after (vnodes) (silos : List SiloAddress) :
    silos.foldl add (new vnodes) = after vnodes (silos.map .add) := by
  rw [after, foldl_map]
  rfl

theorem virtualNodes_after (vnodes calls) :
    (after vnodes calls).virtualNodes = vnodes := by
  have hrun : ∀ r, (calls.foldl RingCall.apply r).virtualNodes = r.virtualNodes := by
    induction calls with
    | nil => exact fun _ => rfl
    | cons call calls ih =>
      intro r
      rw [foldl_cons, ih]
      cases call <;> rfl
  exact hrun (new vnodes)

theorem after_remove (vnodes calls silo) :
    after vnodes (calls ++ [.remove silo]) = (after vnodes calls).remove silo := by
  rw [after, foldl_append]
  rfl

theorem silosAfter_remove (calls silo) :
    silosAfter (calls ++ [.remove silo]) = update (silosAfter calls) silo.siloId none := by
  rw [silosAfter, foldl_append]
  rfl

theorem callIds_subset_append (calls calls') : callIds calls ⊆ callIds (calls ++ calls') := by
  intro id hid
  obtain ⟨call, hcall, rfl⟩ := mem_map.mp (mem_toFinset.mp hid)
  exact mem_callIds (mem_append_left _ hcall)

/-- A silo that is added to any ring takes keys for itself only, and one that is removed after any
history gives away its own only. -/
theorem minimal_disruption :
    (∀ (r : HashRing) (silo : SiloAddress) (key : String),
      (r.add silo).get key = r.get key ∨ (r.add silo).get key = some silo) ∧
    ∀ (vnodes : ℕ) (calls : List RingCall) (silo : SiloAddress),
      DistinctHashes vnodes (callIds (calls ++ [.remove silo])) → ∀ key : String,
        ((∀ a, (after vnodes calls).get key = some a → a.siloId ≠ silo.siloId) →
          ((after vnodes calls).remove silo).get key = (after vnodes calls).get key) ∧
        (∀ a, ((after vnodes calls).remove silo).get key = some a → a.siloId ≠ silo.siloId) ∧
        (((after vnodes calls).remove silo).get key = none ↔
          (∀ id, silosAfter (calls ++ [.remove silo]) id = none) ∨ vnodes = 0) := by
  refine ⟨get_add, fun vnodes calls silo hd key => ?_⟩
  have hsilo : silo.siloId ∈ callIds (calls ++ [.remove silo]) := by
    have hcall : RingCall.remove silo ∈ calls ++ [.remove silo] :=
      mem_append_right _ mem_cons_self
    exact mem_callIds hcall
  have hbefore : (after vnodes calls).IsRingOf (callIds (calls ++ [.remove silo]))
      (silosAfter calls) := by
    have hsub := callIds_subset_append calls [.remove silo]
    refine (isRingOf_after fun a ha b hb => hd a (hsub ha) b (hsub hb)).mono hsub ?_
    rwa [virtualNodes_after]
  have hring := isRingOf_after hd
  refine ⟨hbefore.get_remove hsilo, fun a ha hid => ?_, ?_⟩
  · -- Nothing is left under the id.
    rw [← after_remove] at ha
    obtain ⟨p, hp, -⟩ := get_eq_some_iff.mp ha
    have hleft := (hring.lookup.mp hp).1
    rw [silosAfter_remove, hid, update_self] at hleft
    cases hleft
  · rw [← after_remove, hring.get_eq_none, virtualNodes_after]

def comeback : List RingCall :=
  [.add ⟨"10.0.0.1", 1, "b"⟩, .add ⟨"10.0.0.1", 0, "a"⟩, .remove ⟨"10.0.0.1", 1, "b"⟩,
    .add ⟨"10.0.0.1", 2, "b"⟩]

theorem minimal_disruption_comeback :
    DistinctHashes 1 (callIds (comeback ++ [.remove ⟨"10.0.0.1", 0, "a"⟩])) ∧
      ∀ key, ((after 1 comeback).remove ⟨"10.0.0.1", 0, "a"⟩).get key ≠ none := by
  have hd : DistinctHashes 1 (callIds (comeback ++ [.remove ⟨"10.0.0.1", 0, "a"⟩])) := by
    decide +kernel
  refine ⟨hd, fun key hnone => ?_⟩
  obtain ⟨-, -, hiff⟩ := minimal_disruption.2 1 comeback ⟨"10.0.0.1", 0, "a"⟩ hd key
  rcases hiff.mp hnone with hleft | hnodes
  · exact absurd (hleft "b") (by decide)
  · cases hnodes

theorem nodup_members (r : HashRing) : (r.members.map siloId).Nodup := by
  have hrun : ∀ silos result : List SiloAddress, (result.map siloId).Nodup →
      ((silos.foldl (fun result silo => if result.any fun s => s.siloId == silo.siloId then result
        else result ++ [silo]) result).map siloId).Nodup := by
    intro silos
    induction silos with
    | nil => exact fun _ h => h
    | cons silo silos ih =>
      intro result h
      rw [foldl_cons]
      split_ifs with hany
      · exact ih result h
      · refine ih _ ?_
        rw [map_append, nodup_append]
        refine ⟨h, by simp, fun id hid id' hid' heq => hany ?_⟩
        obtain ⟨a, ha, rfl⟩ := mem_map.mp hid
        obtain rfl : id' = silo.siloId := by simpa using hid'
        exact any_eq_true.mpr ⟨a, ha, by simpa using heq⟩
  exact hrun r.ring.values [] nodup_nil

theorem find?_siloId {silos : List SiloAddress} (hnd : (silos.map siloId).Nodup) {id} :
    silos.reverse.find? (fun b => b.siloId == id) = some a ↔ a ∈ silos ∧ a.siloId = id := by
  constructor
  · intro h
    exact ⟨mem_reverse.mp (mem_of_find?_eq_some h), by simpa using find?_some h⟩
  · rintro ⟨ha, rfl⟩
    have hsome : (silos.reverse.find? fun b => b.siloId == a.siloId).isSome :=
      find?_isSome.mpr ⟨a, mem_reverse.mpr ha, beq_self_eq_true _⟩
    obtain ⟨b, hb⟩ := isSome_iff_exists.mp hsome
    have hmem := mem_reverse.mp (mem_of_find?_eq_some hb)
    have hid : b.siloId = a.siloId := by simpa using find?_some hb
    rw [hb, inj_on_of_nodup_map hnd hmem ha hid]

theorem IsRingOf.of_no_nodes (h : r.IsRingOf ids silos) (hnodes : r.virtualNodes = 0) :
    r.IsRingOf ids fun _ => none where
  distinct := h.distinct
  siloId_eq := nofun
  mem_ids := nofun
  lookup := by simp [h.lookup, points, hnodes]

theorem IsRingOf.foldl_members (h : r.IsRingOf ids silos) :
    r.members.foldl HashRing.add (new r.virtualNodes) = r := by
  have hnodes_eq : (r.members.foldl HashRing.add (new r.virtualNodes)).virtualNodes =
      r.virtualNodes := by
    rw [foldl_add_eq_after, virtualNodes_after]
  rcases Nat.eq_zero_or_pos r.virtualNodes with hns | hns
  · have hadd : (r.members.foldl HashRing.add (new r.virtualNodes)).IsRingOf
        (callIds (r.members.map .add)) (silosAfter (r.members.map .add)) := by
      rw [foldl_add_eq_after]
      exact isRingOf_after (by simp [DistinctHashes, hashes, hns])
    exact (hadd.of_no_nodes (hnodes_eq.trans hns)).unique (h.of_no_nodes hns) hnodes_eq
  · have hmem : ∀ a ∈ r.members, a.siloId ∈ ids := fun a ha =>
      h.mem_ids ((h.mem_members hns).mp ha)
    have hadd : (r.members.foldl HashRing.add (new r.virtualNodes)).IsRingOf ids silos := by
      convert (isRingOf_new h.distinct).addAll hmem using 1
      ext id a
      rw [or_none, find?_siloId r.nodup_members, h.mem_members hns]
      refine ⟨fun ha => ?_, fun ⟨ha, hid⟩ => hid ▸ ha⟩
      have hid := h.siloId_eq ha
      exact ⟨hid.symm ▸ ha, hid⟩
    exact hadd.unique h hnodes_eq

theorem members_eq_nil (h : ∀ p, r.ring.lookup p = none) : r.members = [] := by
  refine eq_nil_iff_forall_not_mem.mpr fun a ha => ?_
  obtain ⟨p, hp⟩ := mem_values.mp (mem_values_of_mem_members ha)
  rw [h] at hp
  cases hp

/-- Of the points of the silos the first on the way round from the hash of the key is one of
`a`. Where silos share that point, `a` is the last of them. -/
def Nearest (vnodes : ℕ) (silos : List SiloAddress) (key : String) (a : SiloAddress) :
    Prop :=
  ∃ p, (silos.reverse.find? fun b => decide (p ∈ hashes vnodes b.siloId)) = some a ∧
    ∀ b ∈ silos, ∀ q ∈ hashes vnodes b.siloId,
      wayFrom (hashKey key) p ≤ wayFrom (hashKey key) q

theorem nearest_of_all {vnodes silos} (p)
    (hfind : (silos.reverse.find? fun b => decide (p ∈ hashes vnodes b.siloId)) = some a)
    (hall : (silos.all fun b => (hashes vnodes b.siloId).all fun q => decide (wayFrom
      (hashKey key) p ≤ wayFrom (hashKey key) q)) = true) : Nearest vnodes silos key a := by
  refine ⟨p, hfind, fun b hb q hq => ?_⟩
  exact of_decide_eq_true (all_eq_true.mp (all_eq_true.mp hall b hb) q hq)

theorem lookup_foldl_add (silos : List SiloAddress) (r) (p) :
    (silos.foldl add r).ring.lookup p =
      (silos.reverse.find? fun b => decide (p ∈ hashes r.virtualNodes b.siloId)).or
        (r.ring.lookup p) := by
  induction silos generalizing r with
  | nil => rfl
  | cons silo silos ih =>
    have hnodes : (r.add silo).virtualNodes = r.virtualNodes := rfl
    rw [foldl_cons, ih, hnodes, reverse_cons, find?_append, Option.or_assoc,
      lookup_add, points_eq]
    congr 1
    by_cases hp : p ∈ hashes r.virtualNodes silo.siloId <;> simp [hp]

theorem get_foldl_add {silos} :
    (silos.foldl add (new vnodes)).get key = some a ↔ Nearest vnodes silos key a := by
  have hlookup : ∀ p, (silos.foldl add (new vnodes)).ring.lookup p =
      silos.reverse.find? fun b => decide (p ∈ hashes vnodes b.siloId) := by
    intro p
    rw [lookup_foldl_add, new, lookup_empty, or_none]
  rw [get_eq_some_iff]
  simp only [hlookup, Nearest]
  refine exists_congr fun p => and_congr_right fun _ => ?_
  constructor
  · intro h b hb q hq
    refine h q fun hnone => ?_
    exact find?_eq_none.mp hnone b (mem_reverse.mpr hb) (decide_eq_true hq)
  · intro h q hq
    obtain ⟨b, hb⟩ := ne_none_iff_exists'.mp hq
    have hpoint : q ∈ hashes vnodes b.siloId := by simpa using find?_some hb
    exact h b (mem_reverse.mp (mem_of_find?_eq_some hb)) q hpoint

/-- Histories that leave the same silos lead to the same ring. -/
theorem same_ring (vnodes : ℕ) (calls calls' : List RingCall)
    (hd : DistinctHashes vnodes (callIds calls))
    (hd' : DistinctHashes vnodes (callIds calls'))
    (hsame : silosAfter calls = silosAfter calls') :
    (∀ key, (after vnodes calls).get key = (after vnodes calls').get key) ∧
    (after vnodes calls).members = (after vnodes calls').members ∧
    ((after vnodes calls).members.map siloId).Nodup ∧
    (∀ view : MembershipView, calls' = view.activeSilos.map .add →
      after vnodes calls = view.buildRing vnodes) ∧
    (after vnodes calls).members.foldl HashRing.add (new vnodes) =
      after vnodes calls ∧
    (0 < vnodes → ∀ a, a ∈ (after vnodes calls).members ↔
      silosAfter calls a.siloId = some a) := by
  have hring := isRingOf_after hd
  have hnodes := virtualNodes_after vnodes calls
  have hring' := isRingOf_after hd'
  rw [← hsame] at hring'
  have heq := hring.unique hring' (hnodes.trans (virtualNodes_after vnodes calls').symm)
  refine ⟨fun key => by rw [heq], by rw [heq], nodup_members _, ?_, ?_, ?_⟩
  · rintro view rfl
    rw [heq, MembershipView.buildRing, foldl_add_eq_after]
  · have hmembers := hring.foldl_members
    rwa [hnodes] at hmembers
  · intro hpos a
    exact hring.mem_members (hnodes.symm ▸ hpos)

theorem same_ring_comeback :
    (∀ key, (after 1 comeback).get key =
      (after 1 [.add ⟨"10.0.0.1", 2, "b"⟩, .add ⟨"10.0.0.1", 0, "a"⟩]).get key) ∧
    ((after 1 comeback).members.map siloId).Nodup := by
  have hsame : silosAfter comeback =
      silosAfter [.add ⟨"10.0.0.1", 2, "b"⟩, .add ⟨"10.0.0.1", 0, "a"⟩] := by
    funext id
    simp only [silosAfter, comeback, List.foldl, RingCall.silo, RingCall.leaves, update_apply]
    split_ifs <;> simp_all
  obtain ⟨hget, -, hnodup, -⟩ := same_ring 1 comeback _ (by decide +kernel) (by decide +kernel)
    hsame
  exact ⟨hget, hnodup⟩

/-- A silo that takes no points is not among the members of the ring it was added to. -/
theorem not_mem_members_of_no_nodes :
    DistinctHashes 0 (callIds comeback) ∧ silosAfter comeback "b" = some ⟨"10.0.0.1", 2, "b"⟩ ∧
      (after 0 comeback).members = [] := by
  refine ⟨by decide, by decide, by decide⟩

end HashRing

end Orlando
