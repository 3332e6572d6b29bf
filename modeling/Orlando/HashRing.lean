import Orlando.OrderedMap

/-!
# The hash ring and placement

A silo takes `virtual_nodes` points on the ring, the FNV-1a hashes of its id with a number, and a
key belongs to the silo of the first point at or after the key's hash, the first of all points if
there is none (`HashRing.get`).
-/

namespace Orlando

open OrderedMap Option

instance instLinearOrderUInt64 : LinearOrder UInt64 where
  le_refl := UInt64.le_refl
  le_trans _ _ _ := UInt64.le_trans
  lt_iff_le_not_ge _ _ := Std.LawfulOrderLT.lt_iff _ _
  le_antisymm _ _ := UInt64.le_antisymm
  le_total := UInt64.le_total
  toDecidableLE := inferInstance

@[ext]
structure SiloAddress where
  host : String
  port : UInt16
  siloId : String
deriving DecidableEq, Repr

def SiloAddress.endpoint (a : SiloAddress) : String :=
  a.host ++ ":" ++ toString a.port

/-- FNV-1a over the bytes of the key. -/
def hashKey (key : String) : UInt64 :=
  key.toUTF8.data.toList.foldl
    (fun hash byte => (hash ^^^ byte.toUInt64) * 0x100000001b3) 0xcbf29ce484222325

structure HashRing where
  ring : OrderedMap UInt64 SiloAddress
  virtualNodes : ℕ

namespace HashRing

def new (vnodes : ℕ) : HashRing where
  ring := .empty
  virtualNodes := vnodes

variable (r : HashRing)

def points (silo : SiloAddress) : List UInt64 :=
  (List.range r.virtualNodes).map fun i => hashKey (silo.siloId ++ ":" ++ toString i)

def add (silo : SiloAddress) : HashRing :=
  { r with ring := (r.points silo).foldl (fun ring key => ring.insert key silo) r.ring }

def remove (silo : SiloAddress) : HashRing :=
  { r with ring := (r.points silo).foldl (fun ring key => ring.erase key) r.ring }

def get (grainKey : String) : Option SiloAddress :=
  if r.ring.isEmpty then none
  else ((r.ring.ceiling (hashKey grainKey)).or r.ring.first).map Prod.snd

/-- The silos on the ring, each once, in the order of their first points. -/
def members : List SiloAddress :=
  r.ring.values.foldl
    (fun result silo => if result.any fun s => s.siloId == silo.siloId then result
      else result ++ [silo]) []

def isEmpty : Bool :=
  r.ring.isEmpty

variable {r}

theorem mem_values_of_get {key a} (h : r.get key = some a) : a ∈ r.ring.values := by
  unfold get at h
  split at h
  · cases h
  · obtain ⟨e, he, rfl⟩ := map_eq_some_iff.mp h
    rcases or_eq_some_iff.mp he with he | ⟨-, he⟩
    · exact mem_values_of_ceiling he
    · exact mem_values_of_first he

theorem lookup_add (r : HashRing) (silo) (key) :
    (r.add silo).ring.lookup key =
      if key ∈ r.points silo then some silo else r.ring.lookup key := by
  rw [add, lookup_foldl_insert]
  split_ifs <;> rfl

theorem lookup_remove (r : HashRing) (silo) (key) :
    (r.remove silo).ring.lookup key =
      if key ∈ r.points silo then none else r.ring.lookup key := by
  rw [remove, lookup_foldl_erase]
  split_ifs <;> rfl

theorem mem_values_of_add {silo a} (h : a ∈ (r.add silo).ring.values) :
    a = silo ∨ a ∈ r.ring.values := by
  obtain ⟨key, hkey⟩ := mem_values.mp h
  rw [lookup_add] at hkey
  split_ifs at hkey
  · exact Or.inl (some.inj hkey).symm
  · exact Or.inr (mem_values.mpr ⟨key, hkey⟩)

end HashRing

/-- Which silo is to host a grain, from its type, its key, the id of the local silo and
the ring. -/
abbrev PlacementStrategy := String → String → String → HashRing → Option SiloAddress

def ringKey (grainType grainKey : String) : String :=
  grainType ++ "/" ++ grainKey

def hashBasedPlacement : PlacementStrategy :=
  fun grainType grainKey _ ring => ring.get (ringKey grainType grainKey)

def preferLocalPlacement : PlacementStrategy :=
  fun _ _ localSiloId ring => ring.members.find? fun s => s.siloId == localSiloId

def randomPlacement (draw : ℕ) : PlacementStrategy :=
  fun _ _ _ ring => ring.members[draw % ring.members.length]?

end Orlando
