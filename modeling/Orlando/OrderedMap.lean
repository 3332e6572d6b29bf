import Mathlib.Data.List.Sort
import Mathlib.Data.Prod.Lex

/-!
# Maps with ordered keys

A map kept as the list of its entries in the order of their keys, no key twice (`OrderedMap`). It
answers which entry is the first at or after a key (`ceiling`), and which is the first of all
(`first`).
-/

namespace Orlando

open List

structure OrderedMap (K V : Type*) [LinearOrder K] where
  entries : List (K × V)
  sorted : entries.Pairwise fun a b => a.1 < b.1

namespace OrderedMap

variable {K V : Type*} [LinearOrder K] {k : K} {v : V}

def insertEntry (k : K) (v : V) : List (K × V) → List (K × V)
  | [] => [(k, v)]
  | e :: es =>
    if k < e.1 then (k, v) :: e :: es
    else if e.1 < k then e :: insertEntry k v es
    else (k, v) :: es

theorem mem_insertEntry {x} :
    ∀ {es}, x ∈ insertEntry k v es → x = (k, v) ∨ x ∈ es
  | [], h => by simpa [insertEntry] using h
  | e :: es, h => by
    rw [insertEntry] at h
    split_ifs at h
    · simpa using h
    · rcases mem_cons.mp h with rfl | h
      · exact .inr mem_cons_self
      · exact (mem_insertEntry h).imp_right (mem_cons_of_mem e)
    · exact (mem_cons.mp h).imp_right (mem_cons_of_mem e)

theorem sorted_insertEntry (k v) :
    ∀ {es : List (K × V)}, (es.Pairwise fun a b => a.1 < b.1) →
      (insertEntry k v es).Pairwise fun a b => a.1 < b.1
  | [], _ => pairwise_singleton _ _
  | e :: es, h => by
    obtain ⟨hhead, htail⟩ := pairwise_cons.mp h
    rw [insertEntry]
    split_ifs with hlt hgt
    · refine pairwise_cons.mpr ⟨fun x hx => ?_, h⟩
      rcases mem_cons.mp hx with rfl | hx
      · exact hlt
      · exact lt_trans hlt (hhead x hx)
    · refine pairwise_cons.mpr ⟨fun x hx => ?_, sorted_insertEntry k v htail⟩
      rcases mem_insertEntry hx with rfl | hx
      · exact hgt
      · exact hhead x hx
    · -- The key is that of the head, which the new entry replaces.
      have hk := le_antisymm (not_lt.mp hgt) (not_lt.mp hlt)
      exact pairwise_cons.mpr ⟨fun x hx => hk ▸ hhead x hx, htail⟩

theorem lookup_cons (k) (e : K × V) (es) :
    (e :: es).lookup k = if k = e.1 then some e.2 else es.lookup k := by
  rw [List.lookup_cons]
  by_cases h : k = e.1
  · simp [h]
  · simp [h, beq_eq_false_iff_ne.mpr h]

theorem lookup_insertEntry (k k') (v : V) :
    ∀ es : List (K × V), (insertEntry k v es).lookup k' = if k' = k then some v else es.lookup k'
  | [] => by rw [insertEntry, lookup_cons]
  | e :: es => by
    rw [insertEntry]
    rcases lt_trichotomy k e.1 with hlt | heq | hgt
    · rw [if_pos hlt, lookup_cons]
    · rw [if_neg heq.not_lt, if_neg heq.not_gt, lookup_cons, lookup_cons, heq]
      split_ifs <;> rfl
    · rw [if_neg hgt.not_gt, if_pos hgt, lookup_cons, lookup_insertEntry k k' v es, lookup_cons]
      split_ifs with he hk <;> first | rfl | exact absurd (he.symm.trans hk) hgt.ne

theorem lookup_filter_ne (k k' : K) :
    ∀ es : List (K × V),
      (es.filter fun e => e.1 ≠ k).lookup k' = if k' = k then none else es.lookup k'
  | [] => by simp
  | e :: es => by
    have ih := lookup_filter_ne k k' es
    by_cases he : e.1 = k
    · rw [filter_cons_of_neg (by simpa using he), ih, lookup_cons, he]
      split_ifs <;> rfl
    · rw [filter_cons_of_pos (by simpa using he), lookup_cons, ih, lookup_cons]
      split_ifs with hk hk' <;> first | rfl | exact absurd (hk.symm.trans hk') he

theorem lookup_eq_some_iff_mem {es : List (K × V)} (h : es.Pairwise fun a b => a.1 < b.1) :
    es.lookup k = some v ↔ (k, v) ∈ es := by
  induction es with
  | nil => simp
  | cons e es ih =>
    obtain ⟨hhead, htail⟩ := pairwise_cons.mp h
    rw [lookup_cons, mem_cons]
    split_ifs with hk
    · -- The key is that of the head, and no later entry has it.
      constructor
      · intro hv
        exact .inl (Prod.ext hk (Option.some.inj hv).symm)
      · rintro (rfl | hm)
        · rfl
        · exact absurd hk (hhead _ hm).ne'
    · rw [ih htail]
      refine ⟨.inr, ?_⟩
      rintro (rfl | hm)
      · exact absurd rfl hk
      · exact hm

def empty : OrderedMap K V where
  entries := []
  sorted := List.Pairwise.nil

variable (m : OrderedMap K V)

def insert (k : K) (v : V) : OrderedMap K V where
  entries := insertEntry k v m.entries
  sorted := sorted_insertEntry k v m.sorted

def erase (k : K) : OrderedMap K V where
  entries := m.entries.filter fun e => e.1 ≠ k
  sorted := m.sorted.filter _

def lookup (k : K) : Option V :=
  m.entries.lookup k

def isEmpty : Bool :=
  m.entries.isEmpty

/-- The first entry whose key is at least `k`. -/
def ceiling (k : K) : Option (K × V) :=
  m.entries.find? fun e => k ≤ e.1

def first : Option (K × V) :=
  m.entries.head?

def values : List V :=
  m.entries.map Prod.snd

variable {m} {m' : OrderedMap K V} {e : K × V} {W : Type*} {p q : K}

theorem lookup_eq_some : m.lookup k = some v ↔ (k, v) ∈ m.entries :=
  lookup_eq_some_iff_mem m.sorted

@[simp]
theorem lookup_empty (k) : (empty : OrderedMap K V).lookup k = none :=
  rfl

theorem lookup_of_isEmpty (h : m.isEmpty = true) (k) : m.lookup k = none := by
  rw [lookup, isEmpty_iff.mp h, lookup_nil]

theorem lookup_insert (m : OrderedMap K V) (k k') (v) :
    (m.insert k v).lookup k' = if k' = k then some v else m.lookup k' :=
  lookup_insertEntry k k' v m.entries

theorem lookup_erase (m : OrderedMap K V) (k k') :
    (m.erase k).lookup k' = if k' = k then none else m.lookup k' :=
  lookup_filter_ne k k' m.entries

theorem mem_values : v ∈ m.values ↔ ∃ k, m.lookup k = some v := by
  simp [values, lookup_eq_some]

@[ext]
theorem ext_lookup (h : ∀ k, m.lookup k = m'.lookup k) : m = m' := by
  have hnodup : ∀ m : OrderedMap K V, m.entries.Nodup := fun m =>
    m.sorted.imp fun hlt heq => hlt.ne (congrArg Prod.fst heq)
  have hperm : m.entries.Perm m'.entries := by
    refine (perm_ext_iff_of_nodup (hnodup m) (hnodup m')).mpr fun e => ?_
    rw [← lookup_eq_some (k := e.1), ← lookup_eq_some (k := e.1), h]
  have heq : m.entries = m'.entries :=
    List.Perm.eq_of_pairwise (fun _ _ _ _ h h' => absurd h h'.not_gt) m.sorted m'.sorted hperm
  cases m
  cases m'
  cases heq
  rfl

theorem lookup_foldl_insert (keys : List K) (v) (k) :
    ∀ m : OrderedMap K V, (keys.foldl (fun m key => m.insert key v) m).lookup k =
      if k ∈ keys then some v else m.lookup k := by
  induction keys with
  | nil => simp
  | cons key keys ih =>
    intro m
    rw [foldl_cons, ih, lookup_insert]
    by_cases hk : k ∈ keys <;> by_cases hkey : k = key <;> simp [hk, hkey]

theorem lookup_foldl_erase (keys : List K) (k) :
    ∀ m : OrderedMap K V, (keys.foldl (fun m key => m.erase key) m).lookup k =
      if k ∈ keys then none else m.lookup k := by
  induction keys with
  | nil => simp
  | cons key keys ih =>
    intro m
    rw [foldl_cons, ih, lookup_erase]
    by_cases hk : k ∈ keys <;> by_cases hkey : k = key <;> simp [hk, hkey]

def mapValues {W : Type*} (f : V → W) (m : OrderedMap K V) : OrderedMap K W where
  entries := m.entries.map fun e => (e.1, f e.2)
  sorted := pairwise_map.mpr m.sorted

theorem lookup_mapValues (f : V → W) (m : OrderedMap K V) (k : K) :
    (m.mapValues f).lookup k = (m.lookup k).map f := by
  have hentries : ∀ es : List (K × V),
      (es.map fun e => (e.1, f e.2)).lookup k = (es.lookup k).map f := by
    intro es
    induction es with
    | nil => rfl
    | cons e es ih =>
      rw [map_cons, lookup_cons, lookup_cons, ih]
      split_ifs <;> rfl
  exact hentries m.entries

theorem values_mapValues (f : V → W) (m : OrderedMap K V) :
    (m.mapValues f).values = m.values.map f := by
  rw [values, values, mapValues, map_map, map_map]
  rfl

theorem map_values_congr {V' : Type*} {m' : OrderedMap K V'} {f : V → W} {g : V' → W}
    (h : ∀ k, (m.lookup k).map f = (m'.lookup k).map g) : m.values.map f = m'.values.map g := by
  have heq : m.mapValues f = m'.mapValues g := by
    ext k : 1
    rw [lookup_mapValues, lookup_mapValues, h]
  rw [← values_mapValues, ← values_mapValues, heq]

theorem mem_values_of_ceiling (h : m.ceiling k = some e) : e.2 ∈ m.values :=
  mem_map_of_mem (mem_of_find?_eq_some h)

theorem mem_values_of_first (h : m.first = some e) : e.2 ∈ m.values :=
  mem_map_of_mem (mem_of_mem_head? h)

def wayFrom (k p : K) : Bool ×ₗ K :=
  toLex (decide (p < k), p)

theorem wayFrom_injective (k : K) : Function.Injective (wayFrom k) := fun _ _ h =>
  congrArg Prod.snd (toLex.injective h)

theorem wayFrom_le_of_le (hp : k ≤ p) (h : k ≤ q → p ≤ q) : wayFrom k p ≤ wayFrom k q := by
  rw [wayFrom, wayFrom, Prod.Lex.toLex_le_toLex]
  by_cases hq : k ≤ q
  · exact .inr ⟨by simp [hp.not_gt, hq.not_gt], h hq⟩
  · exact .inl (by simp [hp.not_gt, not_le.mp hq])

theorem wayFrom_le_of_lt (hq : q < k) (h : p ≤ q) : wayFrom k p ≤ wayFrom k q := by
  rw [wayFrom, wayFrom, Prod.Lex.toLex_le_toLex]
  exact .inr ⟨by simp [hq, h.trans_lt hq], h⟩

def next (m : OrderedMap K V) (k : K) : Option (K × V) :=
  (m.ceiling k).or m.first

theorem wayFrom_le_of_next {e e'} (h : m.next k = some e) (he' : e' ∈ m.entries) :
    wayFrom k e.1 ≤ wayFrom k e'.1 := by
  rcases Option.or_eq_some_iff.mp h with hceil | ⟨hnone, hfirst⟩
  · obtain ⟨hle, before, after, hsplit, hbefore⟩ := find?_eq_some_iff_append.mp hceil
    refine wayFrom_le_of_le (by simpa using hle) fun hk => ?_
    have hsrt := m.sorted
    rw [hsplit, pairwise_append, pairwise_cons] at hsrt
    rcases mem_append.mp (hsplit ▸ he') with hm | hm
    · exact absurd hk (by simpa using hbefore e' hm)
    · rcases mem_cons.mp hm with rfl | hm
      · exact le_rfl
      · exact (hsrt.2.1.1 e' hm).le
  · -- All keys are before `k`.
    have hlt : e'.1 < k := by simpa using find?_eq_none.mp hnone e' he'
    refine wayFrom_le_of_lt hlt ?_
    obtain ⟨rest, hrest⟩ := head?_eq_some_iff.mp hfirst
    have hsrt := m.sorted
    rw [hrest, pairwise_cons] at hsrt
    rcases mem_cons.mp (hrest ▸ he') with rfl | hm
    · exact le_rfl
    · exact (hsrt.1 e' hm).le

theorem mem_of_next (h : m.next k = some e) : e ∈ m.entries := by
  rcases Option.or_eq_some_iff.mp h with he | ⟨-, he⟩
  · exact mem_of_find?_eq_some he
  · exact mem_of_mem_head? he

theorem next_eq_none_iff : m.next k = none ↔ ∀ p, m.lookup p = none := by
  constructor
  · intro h p
    have hfirst := (Option.or_eq_none_iff.mp h).2
    rw [lookup, head?_eq_none_iff.mp hfirst, lookup_nil]
  · intro h
    by_contra hne
    obtain ⟨e, he⟩ := Option.ne_none_iff_exists'.mp hne
    have hl := lookup_eq_some.mpr (mem_of_next he)
    rw [h] at hl
    cases hl

theorem next_eq_some_iff {k p} : m.next k = some (p, v) ↔
    m.lookup p = some v ∧ ∀ q, m.lookup q ≠ none → wayFrom k p ≤ wayFrom k q := by
  have hfirst : ∀ {e}, m.next k = some e → ∀ q, m.lookup q ≠ none →
      wayFrom k e.1 ≤ wayFrom k q := by
    intro e h q hq
    obtain ⟨w, hw⟩ := Option.ne_none_iff_exists'.mp hq
    exact wayFrom_le_of_next h (lookup_eq_some.mp hw)
  constructor
  · exact fun h => ⟨lookup_eq_some.mpr (mem_of_next h), hfirst h⟩
  · rintro ⟨hp, hle⟩
    cases hnext : m.next k with
    | none =>
      rw [next_eq_none_iff.mp hnext] at hp
      cases hp
    | some e =>
      have he := lookup_eq_some.mpr (mem_of_next hnext)
      have hkey : e.1 = p := by
        refine wayFrom_injective k (le_antisymm (hfirst hnext p (by simp [hp])) ?_)
        exact hle e.1 (by simp [he])
      rw [hkey, hp] at he
      exact congrArg some (Prod.ext hkey (Option.some.inj he).symm)

end OrderedMap

end Orlando
