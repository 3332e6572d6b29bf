import Mathlib.Algebra.Group.Nat.Defs
import Mathlib.Tactic.SplitIfs

/-!
# A binary format without names or types

`Codec` is a way to write values as bytes, with a reader that takes a value from the front of the
bytes. Nothing in the bytes says what type they were written at. Integers are written as in the
standard configuration of bincode (`Codec.u64`). A record is its fields one after the other
(`Codec.prod`), so the bytes of the first field begin those of the record
(`Codec.begins_encode_prod`).
-/

namespace Orlando

/-- Values as bytes. More bytes may stand for a value than are written for it. The reader takes the
bytes of a value from the front of any bytes that begin with them. -/
structure Codec (α : Type) where
  Spells : List UInt8 → α → Prop
  encode : α → List UInt8
  decode : List UInt8 → Option (α × List UInt8)
  spells_encode : ∀ a, Spells (encode a) a
  decode_eq_some : ∀ bs a rest, decode bs = some (a, rest) ↔
    ∃ used, Spells used a ∧ bs = used ++ rest

/-- The last `k` bytes of a number, the lowest first. -/
def littleEndian : ℕ → ℕ → List UInt8
  | 0, _ => []
  | k + 1, n => n.toUInt8 :: littleEndian k (n / 256)

/-- A number of `k` bytes, the lowest first. -/
def readLittleEndian : ℕ → List UInt8 → Option (ℕ × List UInt8)
  | 0, bs => some (0, bs)
  | _ + 1, [] => none
  | k + 1, b :: bs => (readLittleEndian k bs).map fun r => (b.toNat + 256 * r.1, r.2)

theorem readLittleEndian_eq_some {k bs n rest} :
    readLittleEndian k bs = some (n, rest) ↔ n < 256 ^ k ∧ bs = littleEndian k n ++ rest := by
  induction k generalizing bs n rest with
  | zero => simp [readLittleEndian, littleEndian, eq_comm]
  | succ k ih =>
    cases bs with
    | nil => simp [readLittleEndian, littleEndian]
    | cons b bs =>
      simp only [readLittleEndian, littleEndian, Option.map_eq_some_iff, Prod.mk.injEq,
        Prod.exists, ih, List.cons_append, List.cons.injEq]
      have hb := b.toNat_lt
      rw [Nat.pow_succ]
      constructor
      · rintro ⟨m, _, ⟨hm, rfl⟩, rfl, rfl⟩
        refine ⟨by omega, ?_, by rw [show (b.toNat + 256 * m) / 256 = m by omega]⟩
        exact UInt8.toNat_inj.mp (by simp)
      · rintro ⟨hn, rfl, rfl⟩
        refine ⟨n / 256, rest, ⟨Nat.div_lt_of_lt_mul (by omega), rfl⟩, ?_, rfl⟩
        simp
        omega

/-- The variable-length encoding of an unsigned integer. -/
def encodeVarint (n : UInt64) : List UInt8 :=
  if n.toNat < 251 then [n.toNat.toUInt8]
  else if n.toNat < 2 ^ 16 then 251 :: littleEndian 2 n.toNat
  else if n.toNat < 2 ^ 32 then 252 :: littleEndian 4 n.toNat
  else 253 :: littleEndian 8 n.toNat

/-- The byte 254 stands before integers of sixteen bytes, and 255 before none. -/
def decodeVarint : List UInt8 → Option (ℕ × List UInt8)
  | [] => none
  | b :: bs =>
    if b.toNat < 251 then some (b.toNat, bs)
    else if b = 251 then readLittleEndian 2 bs
    else if b = 252 then readLittleEndian 4 bs
    else if b = 253 then readLittleEndian 8 bs
    else none

/-- The bytes that are read as an integer. It may be given wider than it has to be. -/
inductive VarintSpells : List UInt8 → ℕ → Prop
  | byte {n} (h : n < 251) : VarintSpells [n.toUInt8] n
  | wide {n} (b : UInt8) (k : ℕ) (hb : (b, k) ∈ [((251 : UInt8), 2), (252, 4), (253, 8)])
    (h : n < 256 ^ k) : VarintSpells (b :: littleEndian k n) n

theorem decodeVarint_eq_some {bs n rest} :
    decodeVarint bs = some (n, rest) ↔ ∃ used, VarintSpells used n ∧ bs = used ++ rest := by
  constructor
  · intro h
    cases bs with
    | nil => cases h
    | cons b bs =>
      have hwide : ∀ k, (b, k) ∈ [((251 : UInt8), 2), (252, 4), (253, 8)] →
          readLittleEndian k bs = some (n, rest) →
          ∃ used, VarintSpells used n ∧ b :: bs = used ++ rest := by
        intro k hb h
        obtain ⟨hn, rfl⟩ := readLittleEndian_eq_some.mp h
        exact ⟨_, .wide b k hb hn, rfl⟩
      simp only [decodeVarint] at h
      split_ifs at h with h0 h1 h2 h3
      · cases h
        exact ⟨_, .byte h0, by simp⟩
      · exact hwide 2 (by simp [h1]) h
      · exact hwide 4 (by simp [h2]) h
      · exact hwide 8 (by simp [h3]) h
  · rintro ⟨used, hused, rfl⟩
    cases hused with
    | byte hn =>
      have hbyte : n.toUInt8.toNat = n := by
        simp
        omega
      rw [List.singleton_append, decodeVarint, hbyte, if_pos hn]
    | wide b k hb hn =>
      have hread : readLittleEndian k (littleEndian k n ++ rest) = some (n, rest) :=
        readLittleEndian_eq_some.mpr ⟨hn, rfl⟩
      simp only [List.mem_cons, Prod.mk.injEq, List.not_mem_nil, or_false] at hb
      rcases hb with ⟨rfl, rfl⟩ | ⟨rfl, rfl⟩ | ⟨rfl, rfl⟩ <;> exact hread

theorem varintSpells_encodeVarint (n) : VarintSpells (encodeVarint n) n.toNat := by
  have hn := n.toNat_lt
  unfold encodeVarint
  split_ifs with h1 h2 h3
  · exact .byte h1
  · exact .wide 251 2 (by simp) (by omega)
  · exact .wide 252 4 (by simp) (by omega)
  · exact .wide 253 8 (by simp) (by omega)

namespace Codec

def u64 : Codec UInt64 where
  Spells := fun bs n => VarintSpells bs n.toNat
  encode := encodeVarint
  decode := fun bs => (decodeVarint bs).map fun r => (r.1.toUInt64, r.2)
  spells_encode := varintSpells_encodeVarint
  decode_eq_some := fun bs a rest => by
    simp only [Option.map_eq_some_iff, Prod.mk.injEq, Prod.exists, decodeVarint_eq_some]
    constructor
    · rintro ⟨n, _, ⟨used, hused, rfl⟩, rfl, rfl⟩
      refine ⟨used, ?_, rfl⟩
      have hn : n < 2 ^ 64 := by
        cases hused with
        | byte h => omega
        | wide b k hb h =>
          simp only [List.mem_cons, Prod.mk.injEq, List.not_mem_nil, or_false] at hb
          rcases hb with ⟨-, rfl⟩ | ⟨-, rfl⟩ | ⟨-, rfl⟩ <;> omega
      rwa [Nat.toUInt64_eq, UInt64.toNat_ofNat', Nat.mod_eq_of_lt hn]
    · rintro ⟨used, hused, rfl⟩
      exact ⟨a.toNat, rest, ⟨used, hused, rfl⟩, by simp, rfl⟩

variable {α β : Type} (c : Codec α) (d : Codec β)

def prod : Codec (α × β) where
  Spells := fun bs p => ∃ us vs, bs = us ++ vs ∧ c.Spells us p.1 ∧ d.Spells vs p.2
  encode := fun p => c.encode p.1 ++ d.encode p.2
  decode := fun bs => (c.decode bs).bind fun r => (d.decode r.2).map fun q => ((r.1, q.1), q.2)
  spells_encode := fun p => ⟨_, _, rfl, c.spells_encode p.1, d.spells_encode p.2⟩
  decode_eq_some := fun bs p rest => by
    simp only [Option.bind_eq_some_iff, Option.map_eq_some_iff, Prod.exists, Prod.mk.injEq,
      c.decode_eq_some, d.decode_eq_some]
    constructor
    · rintro ⟨a, _, ⟨us, hus, rfl⟩, b, _, ⟨vs, hvs, rfl⟩, rfl, rfl⟩
      exact ⟨us ++ vs, ⟨us, vs, rfl, hus, hvs⟩, by simp⟩
    · rintro ⟨_, ⟨us, vs, rfl, hus, hvs⟩, rfl⟩
      exact ⟨p.1, vs ++ rest, ⟨us, hus, by simp⟩, p.2, rest, ⟨vs, hvs, rfl⟩, rfl, rfl⟩

/-- Bytes of the value stand at the front. -/
def Begins (bs : List UInt8) (a : α) : Prop :=
  ∃ used, c.Spells used a ∧ used <+: bs

theorem begins_iff {bs a} : c.Begins bs a ↔ ∃ rest, c.decode bs = some (a, rest) := by
  simp only [c.decode_eq_some]
  constructor
  · rintro ⟨used, hused, rest, rfl⟩
    exact ⟨rest, used, hused, rfl⟩
  · rintro ⟨rest, used, hused, rfl⟩
    exact ⟨used, hused, rest, rfl⟩

theorem begins_encode (a rest) : c.Begins (c.encode a ++ rest) a :=
  ⟨_, c.spells_encode a, List.prefix_append _ _⟩

theorem begins_encode_prod (p) : c.Begins ((c.prod d).encode p) p.1 :=
  c.begins_encode p.1 (d.encode p.2)

/-- The bytes of two values are not at the front of the same bytes. -/
theorem begins_unique {bs a a'} (h : c.Begins bs a) (h' : c.Begins bs a') : a = a' := by
  obtain ⟨rest, hrest⟩ := c.begins_iff.mp h
  obtain ⟨rest', hrest'⟩ := c.begins_iff.mp h'
  cases hrest.symm.trans hrest'
  rfl

end Codec

end Orlando
