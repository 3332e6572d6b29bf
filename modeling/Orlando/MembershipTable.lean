import Mathlib.Data.Finmap
import Mathlib.Data.String.Basic
import Orlando.HashRing
import Orlando.Transition

/-!
# The membership table in memory

A table of the silos of a cluster, agreed on by compare-and-swap : `try_update` puts an entry in if
the caller names the version the table is at, and raises the version. The heartbeat `i_am_alive` is
no part of what is agreed on (`MemberEntry.agreed`). Each call holds the mutex, so that clients
interleave call by call.
-/

namespace Orlando

open List Option OrderedMap

inductive MembershipStatus
  | joining
  | active
  | suspect
  | dead
deriving DecidableEq, Repr

/-- Milliseconds since the epoch. -/
abbrev SystemTime := ℕ

structure MemberEntry where
  addr : SiloAddress
  status : MembershipStatus
  generation : UInt64
  suspectors : List String
  iAmAlive : SystemTime
deriving DecidableEq, Repr

def MemberEntry.agreed (e : MemberEntry) : MemberEntry :=
  { e with iAmAlive := 0 }

structure MembershipView where
  version : ℕ
  members : List MemberEntry
deriving DecidableEq, Repr

namespace MembershipView

variable (view : MembershipView)

def activeSilos : List SiloAddress :=
  (view.members.filter fun m => m.status = .active).map MemberEntry.addr

def member (siloId : String) : Option MemberEntry :=
  view.members.find? fun m => m.addr.siloId = siloId

def buildRing (vnodes : ℕ) : HashRing :=
  view.activeSilos.foldl HashRing.add (HashRing.new vnodes)

end MembershipView

inductive MembershipError
  | versionConflict (expected actual : ℕ)
  | notFound (siloId : String)
deriving DecidableEq, Repr

structure InMemoryMembershipTable where
  version : UInt64
  members : Finmap fun _ : String => MemberEntry

namespace InMemoryMembershipTable

def new : InMemoryMembershipTable where
  version := 0
  members := ∅

variable (t : InMemoryMembershipTable)

def values : Multiset MemberEntry :=
  t.members.entries.map Sigma.snd

def snapshot (order : List MemberEntry) : Option MembershipView :=
  if (order : Multiset MemberEntry) = t.values then
    some
      { version := t.version.toNat
        members := order.insertionSort fun a b => a.addr.siloId ≤ b.addr.siloId }
  else none

def readAll (order : List MemberEntry) : Option MembershipView :=
  t.snapshot order

def put (entry : MemberEntry) : InMemoryMembershipTable where
  version := t.version + 1
  members := t.members.insert entry.addr.siloId entry

def tryUpdate (entry : MemberEntry) (expectedVersion : ℕ) (order : List MemberEntry) :
    Option (Except MembershipError MembershipView × InMemoryMembershipTable) :=
  if t.version.toNat ≠ expectedVersion then
    some (.error (.versionConflict expectedVersion t.version.toNat), t)
  else ((t.put entry).snapshot order).map fun view => (.ok view, t.put entry)

def beat (siloId : String) (entry : MemberEntry) (now : SystemTime) : InMemoryMembershipTable :=
  { t with members := t.members.insert siloId { entry with iAmAlive := now } }

def updateIAmAlive (siloId : String) (now : SystemTime) :
    Except MembershipError Unit × InMemoryMembershipTable :=
  match t.members.lookup siloId with
  | some entry => (.ok (), t.beat siloId entry now)
  | none => (.error (.notFound siloId), t)

end InMemoryMembershipTable

/-! ## Calls -/

inductive TableCall
  | readAll (order : List MemberEntry)
  | tryUpdate (entry : MemberEntry) (expectedVersion : ℕ) (order : List MemberEntry)
  | updateIAmAlive (siloId : String) (now : SystemTime)
deriving DecidableEq

namespace InMemoryMembershipTable

def respond (t : InMemoryMembershipTable) : TableCall →
    Option (Except MembershipError (Option MembershipView) × InMemoryMembershipTable)
  | .readAll order => (t.readAll order).map fun view => (.ok (some view), t)
  | .tryUpdate entry expectedVersion order =>
    (t.tryUpdate entry expectedVersion order).map fun r => (r.1.map some, r.2)
  | .updateIAmAlive siloId now =>
    let r := t.updateIAmAlive siloId now
    some (r.1.map fun _ => none, r.2)

def step (t : InMemoryMembershipTable) (c : TableCall) : Option InMemoryMembershipTable :=
  (t.respond c).map Prod.snd

def accepted (t : InMemoryMembershipTable) : TableCall → List MemberEntry
  | .tryUpdate entry expectedVersion _ => if t.version.toNat = expectedVersion then [entry] else []
  | .readAll _ | .updateIAmAlive _ _ => []

def updates (cs : List TableCall) : List MemberEntry :=
  outputs step accepted new cs

def Answers (cs cs₁ : List TableCall) (t : InMemoryMembershipTable) (c : TableCall)
    (r : Except MembershipError (Option MembershipView)) (t' : InMemoryMembershipTable) : Prop :=
  ∃ cs₂, cs = cs₁ ++ c :: cs₂ ∧ exec step new cs₁ = some t ∧ t.respond c = some (r, t')

end InMemoryMembershipTable

/-! ## What the updates make of the table -/

def foldUpdates (us : List MemberEntry) : OrderedMap String MemberEntry :=
  us.foldl (fun members e => members.insert e.addr.siloId e) .empty

structure MembershipView.IsAfter (view : MembershipView) (us : List MemberEntry) : Prop where
  version : view.version = us.length
  sorted : view.members.Pairwise fun a b => a.addr.siloId < b.addr.siloId
  members : view.members.map MemberEntry.agreed = (foldUpdates us).values.map MemberEntry.agreed

theorem foldUpdates_snoc (us e) :
    foldUpdates (us ++ [e]) = (foldUpdates us).insert e.addr.siloId e := by
  rw [foldUpdates, foldl_append]
  rfl

theorem siloId_of_lookup_foldUpdates {us id e}
    (h : (foldUpdates us).lookup id = some e) : e.addr.siloId = id := by
  induction us using reverseRecOn with
  | nil => cases h
  | append_singleton us e' ih =>
    rw [foldUpdates_snoc, lookup_insert] at h
    split_ifs at h with hid
    · exact some.inj h ▸ hid.symm
    · exact ih h

theorem sorted_foldUpdates (us) :
    (foldUpdates us).values.Pairwise fun a b => a.addr.siloId < b.addr.siloId := by
  refine pairwise_map.mpr ((foldUpdates us).sorted.imp_of_mem fun {a b} ha hb hlt => ?_)
  rw [siloId_of_lookup_foldUpdates (lookup_eq_some.mpr ha),
    siloId_of_lookup_foldUpdates (lookup_eq_some.mpr hb)]
  exact hlt

theorem eq_of_sorted {l l' : List MemberEntry}
    (hl : l.Pairwise fun a b => a.addr.siloId < b.addr.siloId)
    (hl' : l'.Pairwise fun a b => a.addr.siloId < b.addr.siloId) (h : ∀ e, e ∈ l ↔ e ∈ l') :
    l = l' := by
  have hnodup : ∀ {l : List MemberEntry},
      (l.Pairwise fun a b => a.addr.siloId < b.addr.siloId) → l.Nodup :=
    fun hl => hl.imp fun {a b} hlt (heq : a = b) => hlt.ne (congrArg (·.addr.siloId) heq)
  exact List.Perm.eq_of_pairwise (fun _ _ _ _ h h' => absurd h h'.not_gt) hl hl'
    ((perm_ext_iff_of_nodup (hnodup hl) (hnodup hl')).mpr h)

theorem MembershipView.buildRing_congr {view view' : MembershipView}
    (h : view.members.map MemberEntry.agreed = view'.members.map MemberEntry.agreed)
    (vnodes) : view.buildRing vnodes = view'.buildRing vnodes := by
  have hactive : ∀ view : MembershipView, view.activeSilos =
      ((view.members.map MemberEntry.agreed).filter fun m => m.status = .active).map
        MemberEntry.addr := fun view => by
    rw [activeSilos, List.filter_map, List.map_map]
    rfl
  rw [buildRing, buildRing, hactive, hactive, h]

namespace InMemoryMembershipTable

variable {t t' : InMemoryMembershipTable} {us : List MemberEntry} {order : List MemberEntry}
  {view : MembershipView} {c : TableCall} {r : Except MembershipError (Option MembershipView)}

variable (t us) in
/-- The table is what the updates make of the empty one, heartbeats apart. -/
structure Holds : Prop where
  version : t.version = UInt64.ofNat us.length
  keyed : ∀ id e, t.members.lookup id = some e → e.addr.siloId = id
  members : ∀ id, (t.members.lookup id).map MemberEntry.agreed =
    ((foldUpdates us).lookup id).map MemberEntry.agreed

theorem mem_values {e} : e ∈ t.values ↔ ∃ id, t.members.lookup id = some e := by
  rw [values, Multiset.mem_map]
  refine ⟨fun ⟨⟨id, e'⟩, hmem, heq⟩ => ⟨id, ?_⟩, fun ⟨id, h⟩ => ⟨⟨id, e⟩, ?_, rfl⟩⟩
  · exact Finmap.lookup_eq_some_iff.mpr (heq ▸ hmem)
  · exact Finmap.lookup_eq_some_iff.mp h

theorem Holds.nodup_siloIds (h : t.Holds us) : (t.values.map fun e => e.addr.siloId).Nodup := by
  have hkeys : t.values.map (fun e => e.addr.siloId) = t.members.entries.keys := by
    rw [values, Multiset.map_map]
    exact Multiset.map_congr rfl fun e he => h.keyed e.1 e.2 (Finmap.lookup_eq_some_iff.mpr he)
  rw [hkeys]
  exact Multiset.nodup_keys.mpr t.members.nodupKeys

theorem Holds.toNat_version (h : t.Holds us) (hus : us.length < 2 ^ 64) :
    t.version.toNat = us.length := by
  rw [h.version, UInt64.toNat_ofNat_of_lt' hus]

theorem Holds.snapshot (h : t.Holds us) (hs : t.snapshot order = some view) :
    view.version = t.version.toNat ∧
      (view.members.Pairwise fun a b => a.addr.siloId < b.addr.siloId) ∧
      view.members.map MemberEntry.agreed = (foldUpdates us).values.map MemberEntry.agreed := by
  obtain ⟨horder, hs⟩ := ite_none_right_eq_some.mp hs
  cases hs
  have hperm :=
    perm_insertionSort (fun a b : MemberEntry => a.addr.siloId ≤ b.addr.siloId) order
  have hsrt : (order.insertionSort fun a b => a.addr.siloId ≤ b.addr.siloId).Pairwise
      fun a b => a.addr.siloId < b.addr.siloId := by
    have hnodup : (order.map fun e => e.addr.siloId).Nodup := by
      have hids := h.nodup_siloIds
      rwa [← horder, Multiset.map_coe, Multiset.coe_nodup] at hids
    have hne := pairwise_map.mp ((hperm.map _).nodup_iff.mpr hnodup)
    have : Std.Total fun a b : MemberEntry => a.addr.siloId ≤ b.addr.siloId :=
      ⟨fun _ _ => le_total _ _⟩
    have : IsTrans MemberEntry fun a b => a.addr.siloId ≤ b.addr.siloId :=
      ⟨fun _ _ _ => le_trans⟩
    exact ((List.pairwise_insertionSort _ order).and hne).imp fun h => lt_of_le_of_ne h.1 h.2
  refine ⟨rfl, hsrt, eq_of_sorted ?_ ?_ fun e => ?_⟩
  · exact List.pairwise_map.mpr hsrt
  · exact List.pairwise_map.mpr (sorted_foldUpdates us)
  · -- Both lists have the entries that some id leads to.
    rw [List.mem_map, List.mem_map]
    have hleft : ∀ e', e' ∈ order.insertionSort (fun a b => a.addr.siloId ≤ b.addr.siloId) ↔
        ∃ id, t.members.lookup id = some e' := fun e' => by
      rw [hperm.mem_iff, ← Multiset.mem_coe, horder, mem_values]
    constructor
    · rintro ⟨e', he', rfl⟩
      obtain ⟨id, hid⟩ := (hleft e').mp he'
      have hfold := h.members id
      rw [hid, map_some] at hfold
      obtain ⟨e'', he'', heq⟩ := map_eq_some_iff.mp hfold.symm
      exact ⟨e'', OrderedMap.mem_values.mpr ⟨id, he''⟩, heq⟩
    · rintro ⟨e', he', rfl⟩
      obtain ⟨id, hid⟩ := OrderedMap.mem_values.mp he'
      have hfold := h.members id
      rw [hid, map_some] at hfold
      obtain ⟨e'', he'', heq⟩ := map_eq_some_iff.mp hfold
      exact ⟨e'', (hleft e'').mpr ⟨id, he''⟩, heq⟩

theorem Holds.isAfter (h : t.Holds us) (hus : us.length < 2 ^ 64)
    (hs : t.snapshot order = some view) : view.IsAfter us := by
  obtain ⟨hversion, hsorted, hmembers⟩ := h.snapshot hs
  exact ⟨hversion.trans (h.toNat_version hus), hsorted, hmembers⟩

theorem holds_new : new.Holds [] where
  version := rfl
  keyed _ _ h := by cases h
  members _ := rfl

theorem Holds.put (h : t.Holds us) (entry) : (t.put entry).Holds (us ++ [entry]) where
  version := by
    rw [InMemoryMembershipTable.put, h.version, length_append]
    exact (UInt64.ofNat_add us.length 1).symm
  keyed id e he := by
    rw [InMemoryMembershipTable.put] at he
    by_cases hid : id = entry.addr.siloId
    · rw [hid, Finmap.lookup_insert] at he
      exact some.inj he ▸ hid.symm
    · rw [Finmap.lookup_insert_of_ne _ hid] at he
      exact h.keyed id e he
  members id := by
    rw [InMemoryMembershipTable.put, foldUpdates_snoc, lookup_insert]
    split_ifs with hid
    · rw [hid, Finmap.lookup_insert]
    · rw [Finmap.lookup_insert_of_ne _ hid, h.members id]

theorem Holds.beat (h : t.Holds us) {siloId entry}
    (he : t.members.lookup siloId = some entry) (now) : (t.beat siloId entry now).Holds us where
  version := h.version
  keyed id e hid := by
    rw [InMemoryMembershipTable.beat] at hid
    by_cases heq : id = siloId
    · rw [heq, Finmap.lookup_insert] at hid
      cases hid
      exact heq ▸ h.keyed siloId entry he
    · rw [Finmap.lookup_insert_of_ne _ heq] at hid
      exact h.keyed id e hid
  members id := by
    rw [InMemoryMembershipTable.beat, ← h.members id]
    by_cases heq : id = siloId
    · rw [heq, Finmap.lookup_insert, he]
      rfl
    · rw [Finmap.lookup_insert_of_ne _ heq]

variable (t) in
inductive Responds : TableCall → Except MembershipError (Option MembershipView) →
    InMemoryMembershipTable → Prop
  | read {order : List MemberEntry} {view} (h : t.snapshot order = some view) :
    Responds (.readAll order) (.ok (some view)) t
  | updated {entry order view} (h : (t.put entry).snapshot order = some view) :
    Responds (.tryUpdate entry t.version.toNat order) (.ok (some view)) (t.put entry)
  | conflict {entry expectedVersion order} (hne : t.version.toNat ≠ expectedVersion) :
    Responds (.tryUpdate entry expectedVersion order)
      (.error (.versionConflict expectedVersion t.version.toNat)) t
  | beat {siloId now entry} (he : t.members.lookup siloId = some entry) :
    Responds (.updateIAmAlive siloId now) (.ok none) (t.beat siloId entry now)
  | notFound {siloId now} (he : t.members.lookup siloId = none) :
    Responds (.updateIAmAlive siloId now) (.error (.notFound siloId)) t

theorem responds_of_respond (h : t.respond c = some (r, t')) : Responds t c r t' := by
  cases c with
  | readAll order =>
    obtain ⟨view, hview, heq⟩ := map_eq_some_iff.mp h
    cases heq
    exact .read hview
  | tryUpdate entry expectedVersion order =>
    obtain ⟨res, hres, heq⟩ := map_eq_some_iff.mp h
    cases heq
    unfold tryUpdate at hres
    split_ifs at hres with hne
    · cases hres
      exact .conflict hne
    · obtain ⟨view, hview, rfl⟩ := map_eq_some_iff.mp hres
      obtain rfl := not_not.mp hne
      exact .updated hview
  | updateIAmAlive siloId now =>
    cases h
    unfold updateIAmAlive
    cases he : t.members.lookup siloId with
    | some entry => exact .beat he
    | none => exact .notFound he

theorem Responds.holds (hr : t.Responds c r t') (h : t.Holds us) :
    t'.Holds (us ++ t.accepted c) := by
  cases hr with
  | updated => rw [accepted, if_pos rfl]; exact h.put _
  | conflict hne => rwa [accepted, if_neg hne, append_nil]
  | beat he => rw [accepted, append_nil]; exact h.beat he _
  | _ => rwa [accepted, append_nil]

theorem step_of_respond (h : t.respond c = some (r, t')) : t.step c = some t' := by
  rw [step, h, map_some]

theorem holds_updates {cs} (h : exec step new cs = some t) : t.Holds (updates cs) := by
  refine exec_induction (I := fun cs t => t.Holds (updates cs)) holds_new
    (fun cs u c v hu ih hstep => ?_) h
  obtain ⟨⟨r, v'⟩, hr, rfl⟩ := map_eq_some_iff.mp hstep
  rw [updates, outputs_snoc hu]
  exact (responds_of_respond hr).holds ih

namespace Answers

variable {cs cs₁ : List TableCall}

section

variable (h : Answers cs cs₁ t c r t')
include h

theorem responds : t.Responds c r t' := by
  obtain ⟨-, -, -, hr⟩ := h
  exact responds_of_respond hr

theorem holds : t.Holds (updates cs₁) := by
  obtain ⟨-, -, ht, -⟩ := h
  exact holds_updates ht

theorem updates_eq : updates (cs₁ ++ [c]) = updates cs₁ ++ t.accepted c := by
  obtain ⟨-, -, ht, -⟩ := h
  exact outputs_snoc ht

theorem updates_isPrefix : updates (cs₁ ++ [c]) <+: updates cs := by
  obtain ⟨cs₂, rfl, ht, hr⟩ := h
  have ht' := exec_snoc_eq_some.mpr ⟨t, ht, step_of_respond hr⟩
  refine ⟨outputs step accepted t' cs₂, ?_⟩
  rw [updates, updates, ← outputs_append ht', append_assoc]
  rfl

end

section

variable (hfew : (updates cs).length < 2 ^ 64)
include hfew

theorem isAfter (h : Answers cs cs₁ t c (.ok (some view)) t') :
    view.IsAfter (updates (cs₁ ++ [c])) := by
  have hl := h.updates_isPrefix.length_le.trans_lt hfew
  rw [h.updates_eq] at hl ⊢
  cases h.responds with
  | read hs =>
    rw [accepted, append_nil] at hl ⊢
    exact h.holds.isAfter hl hs
  | updated hs =>
    rw [accepted, if_pos rfl] at hl ⊢
    exact (h.holds.put _).isAfter hl hs

theorem tryUpdate_cases {entry expectedVersion}
    (h : Answers cs cs₁ t (.tryUpdate entry expectedVersion order) r t') :
    (expectedVersion = (updates cs₁).length ∧
      updates (cs₁ ++ [.tryUpdate entry expectedVersion order]) = updates cs₁ ++ [entry] ∧
      ∃ view, r = .ok (some view) ∧ view.version = expectedVersion + 1) ∨
    (expectedVersion ≠ (updates cs₁).length ∧
      r = .error (.versionConflict expectedVersion (updates cs₁).length)) := by
  have hupd := h.updates_eq
  have hlen := h.updates_isPrefix.length_le.trans_lt hfew
  rw [hupd, length_append] at hlen
  have hver := h.holds.toNat_version (by omega)
  cases h.responds with
  | @updated _ _ view hs =>
    have hupd' := hupd
    rw [accepted, if_pos rfl] at hupd'
    refine Or.inl ⟨hver, hupd', view, rfl, ?_⟩
    rw [(h.isAfter hfew).version, hupd', length_append, hver]
    rfl
  | conflict hne => exact Or.inr ⟨hver ▸ hne.symm, hver ▸ rfl⟩

end

theorem eq_of_error {error} (h : Answers cs cs₁ t c (.error error) t') : t' = t := by
  cases h.responds with
  | conflict | notFound => rfl

variable {cs₁' : List TableCall} {u u' : InMemoryMembershipTable} {c' : TableCall}
  {view' : MembershipView}

section

variable (hfew : (updates cs).length < 2 ^ 64) (h : Answers cs cs₁ t c (.ok (some view)) t')
include hfew h

theorem members_eq_of_version (h' : Answers cs cs₁' u c' (.ok (some view')) u')
    (hv : view.version = view'.version) :
    view.members.map MemberEntry.agreed = view'.members.map MemberEntry.agreed := by
  have hl : (updates (cs₁ ++ [c])).length = (updates (cs₁' ++ [c'])).length := by
    rw [← (h.isAfter hfew).version, hv, (h'.isAfter hfew).version]
  rw [(h.isAfter hfew).members, (h'.isAfter hfew).members,
    (prefix_of_prefix_length_le h.updates_isPrefix h'.updates_isPrefix hl.le).eq_of_length hl]

theorem updates_eq_of_expected {entry}
    (h' : Answers cs cs₁' u (.tryUpdate entry view.version order) (.ok (some view')) u') :
    updates cs₁' = updates (cs₁ ++ [c]) := by
  rcases h'.tryUpdate_cases hfew with ⟨hexp, hupd, -⟩ | ⟨-, hr⟩
  · have hpre := (prefix_append _ [entry]).trans (hupd ▸ h'.updates_isPrefix)
    have hl : (updates cs₁').length = (updates (cs₁ ++ [c])).length := by
      rw [← hexp, (h.isAfter hfew).version]
    exact (prefix_of_prefix_length_le hpre h.updates_isPrefix hl.le).eq_of_length hl
  · cases hr

end

end Answers

/-- With fewer than `2 ^ 64` updates, they form one sequence with the versions from 1 upwards, each
view is the fold of the updates up to its version, and no read-modify-write is lost. -/
theorem views_ordered (cs : List TableCall) (hfew : (updates cs).length < 2 ^ 64) :
    (∀ cs₁ t c view t', Answers cs cs₁ t c (.ok (some view)) t' →
      view.IsAfter (updates (cs₁ ++ [c]))) ∧
    (∀ cs₁ t entry expectedVersion order r t',
      Answers cs cs₁ t (.tryUpdate entry expectedVersion order) r t' →
      (expectedVersion = (updates cs₁).length ∧
        updates (cs₁ ++ [.tryUpdate entry expectedVersion order]) = updates cs₁ ++ [entry] ∧
        ∃ view, r = .ok (some view) ∧ view.version = expectedVersion + 1) ∨
      (expectedVersion ≠ (updates cs₁).length ∧
        r = .error (.versionConflict expectedVersion (updates cs₁).length))) ∧
    (∀ cs₁ t c error t', Answers cs cs₁ t c (.error error) t' → t' = t) ∧
    (∀ cs₁ t c view t' cs₁' u c' view' u', Answers cs cs₁ t c (.ok (some view)) t' →
      Answers cs cs₁' u c' (.ok (some view')) u' → view.version = view'.version →
      view.members.map MemberEntry.agreed = view'.members.map MemberEntry.agreed ∧
      ∀ vnodes key,
        (view.buildRing vnodes).get key = (view'.buildRing vnodes).get key) ∧
    (∀ cs₁ t c view t' cs₁' u entry order view' u', Answers cs cs₁ t c (.ok (some view)) t' →
      Answers cs cs₁' u (.tryUpdate entry view.version order) (.ok (some view')) u' →
      updates cs₁' = updates (cs₁ ++ [c]) ∧ view'.IsAfter (updates (cs₁ ++ [c]) ++ [entry])) := by
  refine ⟨fun _ _ _ _ _ h => h.isAfter hfew, fun _ _ _ _ _ _ _ h => h.tryUpdate_cases hfew,
    fun _ _ _ _ _ h => h.eq_of_error, ?_, ?_⟩
  · intro cs₁ t c view t' cs₁' u c' view' u' h h' hv
    have hmembers := h.members_eq_of_version hfew h' hv
    refine ⟨hmembers, fun vnodes key => ?_⟩
    rw [MembershipView.buildRing_congr hmembers]
  · intro cs₁ t c view t' cs₁' u entry order view' u' h h'
    have hsame := h.updates_eq_of_expected hfew h'
    refine ⟨hsame, ?_⟩
    rcases h'.tryUpdate_cases hfew with ⟨-, hupd, -⟩ | ⟨-, hr⟩
    · rw [← hsame, ← hupd]
      exact h'.isAfter hfew
    · cases hr

def entryOf (siloId : String) (status : MembershipStatus) (generation : UInt64) : MemberEntry where
  addr := ⟨"10.0.0.1", 7000, siloId⟩
  status := status
  generation := generation
  suspectors := []
  iAmAlive := 0

/-- Two clients read the empty table and both try to update it. The second is refused,
reads again, and succeeds. -/
def twoClients : List TableCall :=
  [.readAll [], .readAll [], .tryUpdate (entryOf "b" .active 1) 0 [entryOf "b" .active 1],
    .tryUpdate (entryOf "a" .active 1) 0 [], .readAll [entryOf "b" .active 1],
    .tryUpdate (entryOf "a" .active 1) 1 [entryOf "b" .active 1, entryOf "a" .active 1],
    .updateIAmAlive "b" 9]

theorem views_ordered_twoClients :
    updates twoClients = [entryOf "b" .active 1, entryOf "a" .active 1] ∧
    ∃ t t', Answers twoClients (twoClients.take 5) t
        (.tryUpdate (entryOf "a" .active 1) 1 [entryOf "b" .active 1, entryOf "a" .active 1])
        (.ok (some ⟨2, [entryOf "a" .active 1, entryOf "b" .active 1]⟩)) t' ∧
      MembershipView.IsAfter ⟨2, [entryOf "a" .active 1, entryOf "b" .active 1]⟩
        [entryOf "b" .active 1, entryOf "a" .active 1] := by
  obtain ⟨t, t', ht, hr⟩ : ∃ t t', exec step new (twoClients.take 5) = some t ∧ t.respond
      (.tryUpdate (entryOf "a" .active 1) 1 [entryOf "b" .active 1, entryOf "a" .active 1]) =
        some (.ok (some ⟨2, [entryOf "a" .active 1, entryOf "b" .active 1]⟩), t') :=
    ⟨_, _, rfl, rfl⟩
  have hans : Answers twoClients (twoClients.take 5) t
      (.tryUpdate (entryOf "a" .active 1) 1 [entryOf "b" .active 1, entryOf "a" .active 1])
      (.ok (some ⟨2, [entryOf "a" .active 1, entryOf "b" .active 1]⟩)) t' := ⟨_, rfl, ht, hr⟩
  exact ⟨rfl, t, t', hans, (views_ordered twoClients (by decide +kernel)).1 _ _ _ _ _ hans⟩

/-- One silo updates its entry, naming the version each time. -/
def updatesOf (e : MemberEntry) (n : ℕ) : List TableCall :=
  (List.range n).map fun k => .tryUpdate e (k % 2 ^ 64) [e]

def holding (version : UInt64) (e : MemberEntry) : InMemoryMembershipTable :=
  ⟨version, (∅ : Finmap _).insert e.addr.siloId e⟩

theorem snapshot_holding (version e) :
    (holding version e).snapshot [e] = some ⟨version.toNat, [e]⟩ :=
  if_pos rfl

theorem step_tryUpdate_self {e} (h : t.put e = holding (t.version + 1) e) :
    t.step (.tryUpdate e t.version.toNat [e]) = some (holding (t.version + 1) e) := by
  rw [step, respond, tryUpdate, if_neg (not_not.mpr rfl), h, snapshot_holding]
  rfl

theorem exec_updatesOf (e n) :
    exec step new (updatesOf e (n + 1)) = some (holding (UInt64.ofNat (n + 1)) e) := by
  induction n with
  | zero =>
    refine exec_cons_eq_some.mpr ⟨_, step_tryUpdate_self ?_, rfl⟩
    rfl
  | succ n ih =>
    rw [updatesOf, range_succ, map_append]
    refine exec_snoc_eq_some.mpr ⟨_, ih, ?_⟩
    have hs := step_tryUpdate_self (t := holding (UInt64.ofNat (n + 1)) e) (e := e) <| by
      rw [InMemoryMembershipTable.put, holding, Finmap.insert_insert]
      rfl
    rw [holding, UInt64.toNat_ofNat'] at hs
    rw [UInt64.ofNat_add (n + 1) 1]
    exact hs

/-- After `2 ^ 64` updates the version is 0 again, and the table is not empty as it was. -/
theorem version_reused :
    ∃ cs cs₁ t t' view cs₁' u u' view', Answers cs cs₁ t (.readAll []) (.ok (some view)) t' ∧
      Answers cs cs₁' u (.readAll [entryOf "a" .active 1]) (.ok (some view')) u' ∧
      view.version = view'.version ∧
      view.members.map MemberEntry.agreed ≠ view'.members.map MemberEntry.agreed := by
  obtain ⟨us, hrun⟩ : ∃ us, exec step new us = some (holding 0 (entryOf "a" .active 1)) :=
    ⟨_, exec_updatesOf _ (2 ^ 64 - 1)⟩
  refine ⟨.readAll [] :: (us ++ [.readAll [entryOf "a" .active 1]]), [], new, new, ⟨0, []⟩,
    .readAll [] :: us, holding 0 (entryOf "a" .active 1), holding 0 (entryOf "a" .active 1),
    ⟨0, [entryOf "a" .active 1]⟩, ⟨_, rfl, rfl, rfl⟩, ⟨[], rfl, hrun, ?_⟩, rfl, by decide⟩
  rw [respond, readAll, snapshot_holding]
  rfl

end InMemoryMembershipTable

end Orlando
