import Orlando.StateStore

/-!
# Where a grain keeps its data

A grain has up to three kinds of entries in a store : its state, the tag of its version, and its
facets. The identities of the last two are made from the key of the grain (`versionGrainId`,
`facetGrainId`), in the key space of the grains of the type.
-/

namespace Orlando

open List InMemoryStateStore

/-! ## Words around a mark -/

section Words

variable {α : Type*} {c : α} {k v w n : List α}

theorem append_cons_eq_iff : k ++ c :: v = w ++ c :: n ↔ k = w ∧ v = n ∨
    (∃ m, w = k ++ c :: m ∧ v = m ++ c :: n) ∨ ∃ m, k = w ++ c :: m ∧ n = m ++ c :: v := by
  constructor
  · intro h
    rcases append_eq_append_iff.mp h with ⟨u, rfl, hu⟩ | ⟨u, rfl, hu⟩
    · cases u with
      | nil => exact .inl ⟨by simp, by simpa using hu⟩
      | cons d u =>
        obtain ⟨rfl, hv⟩ := cons.inj hu
        exact .inr (.inl ⟨u, rfl, hv⟩)
    · cases u with
      | nil => exact .inl ⟨by simp, by simpa using hu.symm⟩
      | cons d u =>
        obtain ⟨rfl, hn⟩ := cons.inj hu
        exact .inr (.inr ⟨u, rfl, hn⟩)
  · rintro (⟨rfl, rfl⟩ | ⟨m, rfl, rfl⟩ | ⟨m, rfl, rfl⟩) <;> simp

/-- Cut at the last mark : the word on the right is cut there too, or at its first mark. -/
theorem append_cons_eq_iff_of_right (hv : c ∉ v) :
    k ++ c :: v = w ++ c :: n ↔ k = w ∧ v = n ∨ ∃ m, k = w ++ c :: m ∧ n = m ++ c :: v := by
  refine append_cons_eq_iff.trans (or_congr_right (or_iff_right ?_))
  rintro ⟨m, -, rfl⟩
  exact hv (by simp)

theorem append_cons_eq_iff_of_left (hk : c ∉ k) :
    k ++ c :: v = w ++ c :: n ↔ k = w ∧ v = n ∨ ∃ m, w = k ++ c :: m ∧ v = m ++ c :: n := by
  refine append_cons_eq_iff.trans (or_congr_right (or_iff_left ?_))
  rintro ⟨m, rfl, -⟩
  exact hk (by simp)

theorem marked_eq_append_iff {f u n'} (hf : c ∉ f) :
    c :: (f ++ c :: n) = u ++ c :: (f ++ c :: n') ↔
      u = [] ∧ n = n' ∨ u = c :: f ∧ n = f ++ c :: n' ∨
        ∃ m, u = c :: (f ++ c :: m) ∧ n = m ++ c :: (f ++ c :: n') := by
  constructor
  · intro h
    cases u with
    | nil => exact .inl ⟨rfl, by simpa using h⟩
    | cons d u =>
      obtain ⟨rfl, hrest⟩ := cons.inj h
      rcases (append_cons_eq_iff_of_left hf).mp hrest with ⟨rfl, rfl⟩ | ⟨m, rfl, rfl⟩
      · exact .inr (.inl ⟨rfl, rfl⟩)
      · exact .inr (.inr ⟨m, rfl, rfl⟩)
  · rintro (⟨rfl, rfl⟩ | ⟨rfl, rfl⟩ | ⟨m, rfl, rfl⟩)
    · rfl
    · rfl
    · simp

/-- Two words with the same marked word in them : it stands in both at the same place, or again
in what comes after it in one of them. -/
theorem append_marked_eq_iff {f k₂ n₂} (hf : c ∉ f) :
    k ++ c :: (f ++ c :: n) = k₂ ++ c :: (f ++ c :: n₂) ↔ (k = k₂ ∧ n = n₂) ∨
      (k = k₂ ++ c :: f ∧ n₂ = f ++ c :: n ∨
        ∃ m, k = k₂ ++ c :: (f ++ c :: m) ∧ n₂ = m ++ c :: (f ++ c :: n)) ∨
      (k₂ = k ++ c :: f ∧ n = f ++ c :: n₂ ∨
        ∃ m, k₂ = k ++ c :: (f ++ c :: m) ∧ n = m ++ c :: (f ++ c :: n₂)) := by
  constructor
  · intro h
    rcases append_eq_append_iff.mp h with ⟨u, rfl, hu⟩ | ⟨u, rfl, hu⟩
    · rcases (marked_eq_append_iff hf).mp hu with ⟨rfl, rfl⟩ | ⟨rfl, rfl⟩ | ⟨m, rfl, rfl⟩
      · exact .inl ⟨by simp, rfl⟩
      · exact .inr (.inr (.inl ⟨rfl, rfl⟩))
      · exact .inr (.inr (.inr ⟨m, rfl, rfl⟩))
    · rcases (marked_eq_append_iff hf).mp hu with ⟨rfl, rfl⟩ | ⟨rfl, rfl⟩ | ⟨m, rfl, rfl⟩
      · exact .inl ⟨by simp, rfl⟩
      · exact .inr (.inl (.inl ⟨rfl, rfl⟩))
      · exact .inr (.inl (.inr ⟨m, rfl, rfl⟩))
  · rintro (⟨rfl, rfl⟩ | (⟨rfl, rfl⟩ | ⟨m, rfl, rfl⟩) | (⟨rfl, rfl⟩ | ⟨m, rfl, rfl⟩)) <;> simp

end Words

/-! ## Slots -/

def facetGrainId (gid : GrainId) (name : String) : GrainId :=
  { gid with key := gid.key ++ "/__facet/" ++ name }

inductive SlotKind where
  | primary
  | version
  | facet (name : String)
deriving DecidableEq, Repr

/-- An entry of a grain of some type, by the key of the grain. -/
structure StorageSlot where
  key : String
  kind : SlotKind
deriving DecidableEq, Repr

namespace StorageSlot

def grainId (typeName : String) (x : StorageSlot) : GrainId :=
  match x.kind with
  | .primary => ⟨typeName, x.key⟩
  | .version => versionGrainId ⟨typeName, x.key⟩
  | .facet name => facetGrainId ⟨typeName, x.key⟩ name

/-- The key of the grain of `x` goes on like that of `y` and of its entry, so that the slots are
one entry. -/
def Continues : StorageSlot → StorageSlot → Prop
  | ⟨key, .primary⟩, ⟨key', .version⟩ => key = key' ++ "/__v"
  | ⟨key, .primary⟩, ⟨key', .facet name'⟩ => key = key' ++ "/__facet/" ++ name'
  | ⟨key, .version⟩, ⟨key', .facet name'⟩ =>
    key = key' ++ "/__facet" ∧ name' = "__v" ∨
      ∃ m, key = key' ++ "/__facet/" ++ m ∧ name' = m ++ "/__v"
  | ⟨key, .facet name⟩, ⟨key', .facet name'⟩ =>
    key = key' ++ "/__facet" ∧ name' = "__facet/" ++ name ∨
      ∃ m, key = key' ++ "/__facet/" ++ m ∧ name' = m ++ "/__facet/" ++ name
  | _, _ => False

def Overlaps (x y : StorageSlot) : Prop :=
  x.Continues y ∨ y.Continues x

theorem exists_string_iff {P : List Char → Prop} : (∃ m : String, P m.toList) ↔ ∃ m, P m :=
  ⟨fun ⟨m, hm⟩ => ⟨m.toList, hm⟩, fun ⟨m, hm⟩ => ⟨String.ofList m, by simpa using hm⟩⟩

variable {key key' name name' : String} {x y : StorageSlot}

theorem version_eq_facet_iff :
    key ++ "/__v" = key' ++ "/__facet/" ++ name' ↔
      (⟨key, .version⟩ : StorageSlot).Continues ⟨key', .facet name'⟩ := by
  have hword := append_cons_eq_iff_of_right (k := key.toList)
    (w := key'.toList ++ "/__facet".toList) (n := name'.toList) (show '/' ∉ "__v".toList by decide)
  have hleft : (key ++ "/__v").toList = key.toList ++ '/' :: "__v".toList := by simp
  have hright : (key' ++ "/__facet/" ++ name').toList =
      key'.toList ++ "/__facet".toList ++ '/' :: name'.toList := by simp
  rw [← String.toList_inj, hleft, hright, hword]
  simp only [Continues, ← String.toList_inj, String.toList_append]
  rw [exists_string_iff (P := fun m => key.toList = key'.toList ++ "/__facet/".toList ++ m ∧
    name'.toList = m ++ "/__v".toList)]
  simp [eq_comm]

theorem continues_facet_iff :
    (⟨key, .facet name⟩ : StorageSlot).Continues ⟨key', .facet name'⟩ ↔
      key.toList = key'.toList ++ '/' :: "__facet".toList ∧
          name'.toList = "__facet".toList ++ '/' :: name.toList ∨
        ∃ m, key.toList = key'.toList ++ '/' :: ("__facet".toList ++ '/' :: m) ∧
          name'.toList = m ++ '/' :: ("__facet".toList ++ '/' :: name.toList) := by
  simp only [Continues, ← String.toList_inj, String.toList_append]
  rw [exists_string_iff (P := fun m => key.toList = key'.toList ++ "/__facet/".toList ++ m ∧
    name'.toList = m ++ "/__facet/".toList ++ name.toList)]
  simp

theorem facet_eq_facet_iff :
    key ++ "/__facet/" ++ name = key' ++ "/__facet/" ++ name' ↔
      (key = key' ∧ name = name') ∨
        (⟨key, .facet name⟩ : StorageSlot).Overlaps ⟨key', .facet name'⟩ := by
  have htext : ∀ k n, (k ++ "/__facet/" ++ n).toList =
      k.toList ++ '/' :: ("__facet".toList ++ '/' :: n.toList) := by simp
  rw [← String.toList_inj, htext, htext, append_marked_eq_iff (by decide), Overlaps,
    continues_facet_iff, continues_facet_iff, String.toList_inj, String.toList_inj]

theorem grainId_eq_iff {typeName} :
    x.grainId typeName = y.grainId typeName ↔ x = y ∨ x.Overlaps y := by
  obtain ⟨key, kind⟩ := x
  obtain ⟨key', kind'⟩ := y
  cases kind with
  | primary =>
    cases kind' with
    | primary => simp [grainId, Overlaps, Continues]
    | version => simp [grainId, versionGrainId, Overlaps, Continues]
    | facet name' => simp [grainId, facetGrainId, Overlaps, Continues]
  | version =>
    cases kind' with
    | primary => simp [grainId, versionGrainId, Overlaps, Continues, eq_comm]
    | version => simp [grainId, versionGrainId, Overlaps, Continues]
    | facet name' =>
      simp only [grainId, versionGrainId, facetGrainId, GrainId.mk.injEq, true_and, Overlaps]
      rw [version_eq_facet_iff]
      simp [Continues]
  | facet name =>
    cases kind' with
    | primary => simp [grainId, facetGrainId, Overlaps, Continues, eq_comm]
    | version =>
      simp only [grainId, versionGrainId, facetGrainId, GrainId.mk.injEq, true_and, Overlaps]
      rw [eq_comm, version_eq_facet_iff]
      simp [Continues]
    | facet name' =>
      simp only [grainId, facetGrainId, GrainId.mk.injEq, true_and, mk.injEq, SlotKind.facet.injEq]
      exact facet_eq_facet_iff

theorem not_continues_self (x : StorageSlot) : ¬x.Continues x := by
  obtain ⟨key, kind⟩ := x
  have hlong : ∀ text, text ≠ "" → key ≠ key ++ text := fun text htext h =>
    htext (by simpa using h.symm)
  cases kind with
  | facet name =>
    rintro (⟨h, -⟩ | ⟨m, h, -⟩)
    · exact hlong "/__facet" (by decide) h
    · rw [String.append_assoc] at h
      exact hlong _ (fun hempty => by simpa using congrArg String.length hempty) h
  | _ => exact id

theorem ne_of_overlaps (h : x.Overlaps y) : x ≠ y := by
  rintro rfl
  rcases h with h | h
  · exact x.not_continues_self h
  · exact x.not_continues_self h

end StorageSlot

/-! ## Uses of the store -/

namespace InMemoryStateStore

def call (d : InMemoryStateStore) : StoreCall → StoreAnswer × InMemoryStateStore
  | .load gid => (.loaded (d.load gid), d)
  | .save gid bytes => (.done, d.save gid bytes)
  | .delete gid => (.done, d.delete gid)
  | .loadWithEtag gid => (.loadedWithEtag (d.loadWithEtag gid), d)
  | .saveWithEtag gid bytes expected => (d.saveWithEtag gid bytes expected).map .ofSaved id

def callAll (d : InMemoryStateStore) : List StoreCall → List StoreAnswer × InMemoryStateStore
  | [] => ([], d)
  | c :: cs => ((d.call c).1 :: ((d.call c).2.callAll cs).1, ((d.call c).2.callAll cs).2)

variable {d : InMemoryStateStore} {key : GrainId} {c : StoreCall} {cs : List StoreCall}

theorem saveWithEtag_eq (gid bytes expected) :
    d.saveWithEtag gid bytes expected =
      if (d.data gid).map Prod.snd = expected then (.ok d.nextEtag.1, d.save gid bytes)
      else (.error (.etagMismatch expected ((d.data gid).map Prod.snd)), d.nextEtag.2) :=
  saveWithEtagLocked_eq (d := d.nextEtag.2) d.nextEtag.1

theorem call_data_of_ne (h : c.gid ≠ key) : (d.call c).2.data key = d.data key := by
  have hset : ∀ (d : InMemoryStateStore) entry, (d.setEntry c.gid entry).data key = d.data key :=
    fun d entry => by rw [setEntry_data, if_neg h.symm]
  cases c with
  | load gid | loadWithEtag gid => rfl
  | save gid bytes => exact hset d.nextEtag.2 _
  | delete gid => exact hset d _
  | saveWithEtag gid bytes expected =>
    change (d.saveWithEtag gid bytes expected).2.data key = d.data key
    rw [saveWithEtag_eq]
    split_ifs with haccept
    · exact hset d.nextEtag.2 _
    · rfl

theorem call_setEntry_of_ne (h : c.gid ≠ key) (entry) :
    (d.setEntry key entry).call c = ((d.call c).1, (d.call c).2.setEntry key entry) := by
  have hdata : (d.setEntry key entry).data c.gid = d.data c.gid := by
    rw [setEntry_data, if_neg h]
  have hcomm : ∀ (d : InMemoryStateStore) entry', (d.setEntry key entry).setEntry c.gid entry' =
      (d.setEntry c.gid entry').setEntry key entry := fun d entry' => by
    rw [setEntry, setEntry, setEntry, setEntry, Function.update_comm h.symm]
  cases c with
  | load gid => exact congrArg (fun held => (StoreAnswer.loaded (held.map Prod.fst), _)) hdata
  | loadWithEtag gid => exact congrArg (fun held => (StoreAnswer.loadedWithEtag held, _)) hdata
  | save gid bytes => exact congrArg (StoreAnswer.done, ·) (hcomm d.nextEtag.2 _)
  | delete gid => exact congrArg (StoreAnswer.done, ·) (hcomm d _)
  | saveWithEtag gid bytes expected =>
    have hsave : (d.setEntry key entry).save gid bytes = (d.save gid bytes).setEntry key entry :=
      hcomm d.nextEtag.2 _
    change Prod.map _ _ ((d.setEntry key entry).saveWithEtag gid bytes expected) =
      ((Prod.map _ _ (d.saveWithEtag gid bytes expected)).1,
        (d.saveWithEtag gid bytes expected).2.setEntry key entry)
    rw [saveWithEtag_eq, saveWithEtag_eq, hsave]
    change (d.setEntry key entry).data gid = d.data gid at hdata
    rw [hdata]
    split_ifs with haccept
    · rfl
    · rfl

theorem callAll_data_of_ne (h : ∀ c ∈ cs, c.gid ≠ key) :
    (d.callAll cs).2.data key = d.data key := by
  induction cs generalizing d with
  | nil => rfl
  | cons c cs ih =>
    rw [forall_mem_cons] at h
    rw [callAll, ih h.2, call_data_of_ne h.1]

theorem callAll_setEntry_of_ne (h : ∀ c ∈ cs, c.gid ≠ key) (entry) :
    ((d.setEntry key entry).callAll cs).1 = (d.callAll cs).1 := by
  induction cs generalizing d with
  | nil => rfl
  | cons c cs ih =>
    rw [forall_mem_cons] at h
    rw [callAll, call_setEntry_of_ne h.1, callAll, ih h.2]

end InMemoryStateStore

/-- What is done in a store on behalf of one grain. -/
inductive StorageOp where
  | readState
  | saveState (bytes : Bytes)
  | saveWithEtag (bytes : Bytes) (expected : Option String)
  | loadEtag
  | clearState
  | loadVersionedState (V : VersionedGrain)
  | saveVersioned (bytes : Bytes) (V : VersionedGrain)
  | facetLoad (name : String)
  | facetSave (name : String) (bytes : Bytes)
  | facetClear (name : String)

namespace StorageOp

/-- The calls on the store. A facet that is not among those of the grain is not resolved, and
without a readable tag the state is not loaded. -/
def calls (facets : List String) (gid : GrainId) (d : InMemoryStateStore) :
    StorageOp → List StoreCall
  | readState => [.load gid]
  | saveState bytes => [.save gid bytes]
  | saveWithEtag bytes expected => [.saveWithEtag gid bytes expected]
  | loadEtag => [.loadWithEtag gid]
  | clearState => [.delete gid]
  | loadVersionedState V =>
    match V.storedVersion (.ok (d.load (versionGrainId gid))) with
    | .error _ => [.load (versionGrainId gid)]
    | .ok _ => [.load (versionGrainId gid), .load gid]
  | saveVersioned bytes V =>
    [.save gid bytes, .save (versionGrainId gid) (V.encodeVersion V.stateVersion)]
  | facetLoad name => if name ∈ facets then [.load (facetGrainId gid name)] else []
  | facetSave name bytes => if name ∈ facets then [.save (facetGrainId gid name) bytes] else []
  | facetClear name => if name ∈ facets then [.delete (facetGrainId gid name)] else []

def perform (facets : List String) (gid : GrainId) (d : InMemoryStateStore) (op : StorageOp) :
    List StoreAnswer × InMemoryStateStore :=
  d.callAll (op.calls facets gid d)

end StorageOp

def slotKinds (facets : List String) : List SlotKind :=
  .primary :: .version :: facets.map .facet

/-! ## Privacy -/

section Privacy

variable {typeName key : String} {facets : List String}

theorem StorageOp.exists_slot_of_mem_calls {op : StorageOp} {d} {c}
    (h : c ∈ op.calls facets ⟨typeName, key⟩ d) :
    ∃ kind ∈ slotKinds facets, c.gid = (⟨key, kind⟩ : StorageSlot).grainId typeName := by
  have hprimary : SlotKind.primary ∈ slotKinds facets := by simp [slotKinds]
  have hver : SlotKind.version ∈ slotKinds facets := by simp [slotKinds]
  have hfacet : ∀ {name}, name ∈ facets → SlotKind.facet name ∈ slotKinds facets := fun h => by
    simp [slotKinds, h]
  cases op with
  | readState | saveState bytes | saveWithEtag bytes expected | loadEtag | clearState =>
    obtain rfl := mem_singleton.mp h
    exact ⟨_, hprimary, rfl⟩
  | loadVersionedState V =>
    simp only [calls] at h
    split at h
    · obtain rfl := mem_singleton.mp h
      exact ⟨_, hver, rfl⟩
    · rcases mem_pair.mp h with rfl | rfl
      · exact ⟨_, hver, rfl⟩
      · exact ⟨_, hprimary, rfl⟩
  | saveVersioned bytes V =>
    rcases mem_pair.mp h with rfl | rfl
    · exact ⟨_, hprimary, rfl⟩
    · exact ⟨_, hver, rfl⟩
  | facetLoad name | facetSave name bytes | facetClear name =>
    simp only [calls] at h
    split_ifs at h with hname
    · obtain rfl := mem_singleton.mp h
      exact ⟨_, hfacet hname, rfl⟩
    · cases h

/-- No use of the store by the grain of `key` changes the entry `held` or is answered otherwise for
what is in it. -/
structure LeavesAlone (typeName : String) (facets : List String) (key : String) (held : GrainId) :
    Prop where
  unchanged : ∀ (op : StorageOp) d, (op.perform facets ⟨typeName, key⟩ d).2.data held = d.data held
  unread : ∀ (op : StorageOp) d entry,
    (op.perform facets ⟨typeName, key⟩ (d.setEntry held entry)).1 =
      (op.perform facets ⟨typeName, key⟩ d).1

theorem leavesAlone_of_ne {held : GrainId}
    (h : ∀ kind ∈ slotKinds facets, (⟨key, kind⟩ : StorageSlot).grainId typeName ≠ held) :
    LeavesAlone typeName facets key held where
  unchanged op d := by
    refine callAll_data_of_ne fun c hc => ?_
    obtain ⟨kind, hkind, hgid⟩ := StorageOp.exists_slot_of_mem_calls hc
    exact hgid ▸ h kind hkind
  unread op d entry := by
    have hversion : versionGrainId ⟨typeName, key⟩ ≠ held := h .version (by simp [slotKinds])
    have hload : (d.setEntry held entry).load (versionGrainId ⟨typeName, key⟩) =
        d.load (versionGrainId ⟨typeName, key⟩) := by
      rw [load, setEntry_data, if_neg hversion]
      rfl
    -- Only the tag decides which calls are made.
    have hcalls : op.calls facets ⟨typeName, key⟩ (d.setEntry held entry) =
        op.calls facets ⟨typeName, key⟩ d := by
      cases op with
      | loadVersionedState V => simp only [StorageOp.calls, hload]
      | _ => rfl
    rw [StorageOp.perform, hcalls]
    refine callAll_setEntry_of_ne (fun c hc => ?_) entry
    obtain ⟨kind, hkind, hgid⟩ := StorageOp.exists_slot_of_mem_calls hc
    exact hgid ▸ h kind hkind

/-- The grains of two keys leave each other's data alone exactly if no slot of the one is a slot of
the other (`StorageSlot.grainId_eq_iff`). -/
theorem storage_private_iff (typeName : String) (facets : List String) (key key' : String) :
    ((∀ kind ∈ slotKinds facets, ∀ kind' ∈ slotKinds facets,
        (⟨key, kind⟩ : StorageSlot) ≠ ⟨key', kind'⟩ →
        (⟨key, kind⟩ : StorageSlot).grainId typeName ≠
          (⟨key', kind'⟩ : StorageSlot).grainId typeName) ∧
      (key ≠ key' → ∀ kind ∈ slotKinds facets,
        LeavesAlone typeName facets key ((⟨key', kind⟩ : StorageSlot).grainId typeName) ∧
        LeavesAlone typeName facets key' ((⟨key, kind⟩ : StorageSlot).grainId typeName))) ↔
    ∀ kind ∈ slotKinds facets, ∀ kind' ∈ slotKinds facets,
      ¬(⟨key, kind⟩ : StorageSlot).Overlaps ⟨key', kind'⟩ := by
  constructor
  · rintro ⟨hapart, -⟩ kind hkind kind' hkind' hoverlap
    exact hapart kind hkind kind' hkind' (StorageSlot.ne_of_overlaps hoverlap)
      (StorageSlot.grainId_eq_iff.mpr (.inr hoverlap))
  · intro hno
    have hapart : ∀ kind ∈ slotKinds facets, ∀ kind' ∈ slotKinds facets,
        (⟨key, kind⟩ : StorageSlot) ≠ ⟨key', kind'⟩ →
        (⟨key, kind⟩ : StorageSlot).grainId typeName ≠
          (⟨key', kind'⟩ : StorageSlot).grainId typeName := by
      intro kind hkind kind' hkind' hne heq
      rcases StorageSlot.grainId_eq_iff.mp heq with hsame | hoverlap
      · exact hne hsame
      · exact hno kind hkind kind' hkind' hoverlap
    refine ⟨hapart, fun hkey kind hkind => ?_⟩
    have hne : ∀ kind kind', (⟨key, kind⟩ : StorageSlot) ≠ ⟨key', kind'⟩ := fun _ _ h =>
      hkey (congrArg StorageSlot.key h)
    exact ⟨leavesAlone_of_ne fun kind' hkind' => hapart kind' hkind' kind hkind (hne _ _),
      leavesAlone_of_ne fun kind' hkind' =>
        (hapart kind hkind kind' hkind' (hne _ _)).symm⟩

/-- The key `a/__v` saves its state where `a` has its tag, and the state of `a/__facet/b` is the
facet `b` of `a`. -/
theorem storage_slots_shared :
    ((StorageOp.saveState [7]).perform [] ⟨"Cart", "a/__v"⟩
        (InMemoryStateStore.new.save (versionGrainId ⟨"Cart", "a"⟩) [1])).2.load
          (versionGrainId ⟨"Cart", "a"⟩) = some [7] ∧
      ((StorageOp.facetClear "b").perform ["b"] ⟨"Cart", "a"⟩
        (InMemoryStateStore.new.save ⟨"Cart", "a/__facet/b"⟩ [1])).2.load
          ⟨"Cart", "a/__facet/b"⟩ = none := by
  decide +kernel

end Privacy

end Orlando
