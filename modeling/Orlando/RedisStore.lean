import Mathlib.Data.Set.Function
import Orlando.SqlStore

/-!
# The state store in Redis

`RedisStateStore` keeps a hash for each grain, under a key made of its type and key, and each call
is one command or one script, which Redis runs alone.
-/

namespace Orlando

open List

/-- The field `version` holds the decimal form of a number that the store has written. -/
structure RedisHash where
  data : Bytes
  version : Int64

abbrev RedisStateStore := String → Option RedisHash

namespace RedisStateStore

def keyFor (gid : GrainId) : String :=
  "grain:" ++ gid.typeName ++ ":" ++ gid.key

def save (bytes : Bytes) : Option RedisHash → StoreAnswer × Option RedisHash
  | none => (.done, some ⟨bytes, 1⟩)
  | some ⟨_, version⟩ =>
    -- `HSET` stays done when `HINCRBY` fails.
    if version = Int64.maxValue then
      (.failed (.io "ERR increment or decrement would overflow"), some ⟨bytes, version⟩)
    else (.done, some ⟨bytes, version + 1⟩)

def saveWithEtag (bytes : Bytes) (hash : Option RedisHash) :
    Option String → StoreAnswer × Option RedisHash
  | none =>
    match hash with
    | none => (.saved "1", some ⟨bytes, 1⟩)
    | some h => (.failed (.etagMismatch none (some (toString h.version))), hash)
  | some expected =>
    match parseI64 expected with
    | .error e => (.failed (.serialization ("invalid etag: " ++ e.message)), hash)
    | .ok version =>
      match hash with
      | none => (.failed (.etagMismatch (some expected) none), hash)
      | some h =>
        if toString h.version ≠ expected then
          (.failed (.etagMismatch (some expected) (some (toString h.version))), hash)
        else (.saved (toString (version + 1)), some ⟨bytes, version + 1⟩)

/-- A call reads and changes only the hash under the key of its grain. -/
def onHash (hash : Option RedisHash) : StoreCall → StoreAnswer × Option RedisHash
  | .load _ => (.loaded (hash.map RedisHash.data), hash)
  | .save _ bytes => save bytes hash
  | .delete _ => (.done, none)
  | .loadWithEtag _ => (.loadedWithEtag (hash.map fun h => (h.data, toString h.version)), hash)
  | .saveWithEtag _ bytes expected => saveWithEtag bytes hash expected

def call (d : RedisStateStore) (c : StoreCall) : StoreAnswer × RedisStateStore :=
  (onHash (d (keyFor c.gid)) c).map id (Function.update d (keyFor c.gid))

end RedisStateStore

namespace StoreCall

/-- The tag a call expects, if it is a number at all, is in the form in which it was given out. -/
def Canonical : StoreCall → Prop
  | saveWithEtag _ _ (some e) => ∀ v, parseI64 e = .ok v → e = toString v
  | _ => True

/-- The answers of a store to calls that are made one after the other. -/
def answers {D : Type} (call : D → StoreCall → StoreAnswer × D) : D → List StoreCall →
    List StoreAnswer
  | _, [] => []
  | d, c :: calls => (call d c).1 :: answers call (call d c).2 calls

end StoreCall

def RedisHash.row (h : RedisHash) : GrainRow :=
  ⟨h.data, .integer h.version⟩

/-- The row and the hash of a grain have the same entry, of a version up to `n`. -/
structure RedisHash.Agrees (n : ℕ) (row : Option GrainRow) (hash : Option RedisHash) : Prop where
  row : row = hash.map RedisHash.row
  bounded : ∀ h ∈ hash, 0 < h.version.toInt ∧ h.version.toInt ≤ n

/-- A call has one answer on the row and on the hash, and leaves the other rows as they were. -/
def RedisHash.Alike (n : ℕ) (d : SqlStateStore) (gid : GrainId) (x : StoreAnswer × SqlStateStore)
    (y : StoreAnswer × Option RedisHash) : Prop :=
  x.1 = y.1 ∧ ∃ row, x.2 = d.setRow gid row ∧ Agrees (n + 1) row y.2

namespace RedisHash.Agrees

open RedisStateStore

variable {n : ℕ} {d : SqlStateStore} {gid : GrainId} {hash : Option RedisHash} {bytes : Bytes}

theorem mono {row} (h : Agrees n row hash) : Agrees (n + 1) row hash :=
  ⟨h.row, fun x hx => (h.bounded x hx).imp_right (by omega)⟩

theorem first : Agrees (n + 1) (some ⟨bytes, .integer 1⟩) (some ⟨bytes, 1⟩) := by
  refine ⟨rfl, fun x hx => ?_⟩
  cases hx
  change 0 < (1 : ℤ) ∧ (1 : ℤ) ≤ (n + 1 : ℕ)
  omega

theorem next {row} {x : RedisHash} (h : Agrees n row (some x)) (hn : n < 2 ^ 63 - 1) :
    x.version ≠ Int64.maxValue ∧
      Agrees (n + 1) (some ⟨bytes, .integer (x.version + 1)⟩) (some ⟨bytes, x.version + 1⟩) := by
  have hb := h.bounded x rfl
  have hnext : (x.version + 1).toInt = x.version.toInt + 1 := by
    rw [Int64.toInt_add, Int.bmod_eq_of_le] <;> simp <;> omega
  refine ⟨fun hmax => ?_, rfl, by simp [hnext]; omega⟩
  have hlast : Int64.maxValue.toInt = 2 ^ 63 - 1 := rfl
  rw [hmax] at hb
  omega

theorem kept (h : Agrees n (d.rows gid) hash) (a) : Alike n d gid (a, d) (a, hash) :=
  ⟨rfl, d.rows gid, by rw [SqlStateStore.setRow, Function.update_eq_self], h.mono⟩

theorem save (h : Agrees n (d.rows gid) hash) (hn : n < 2 ^ 63 - 1) :
    Alike n d gid (d.call (.save gid bytes)) (save bytes hash) := by
  simp only [SqlStateStore.call, SqlStateStore.save, h.row]
  cases hash with
  | none => exact ⟨rfl, _, rfl, first⟩
  | some x =>
    obtain ⟨hmax, hnext⟩ := h.next hn
    simp only [Option.map_some, RedisHash.row, Dialect.succ, RedisStateStore.save, if_neg hmax]
    exact ⟨rfl, _, rfl, hnext⟩

theorem saveWithEtag {expected} (h : Agrees n (d.rows gid) hash) (hn : n < 2 ^ 63 - 1)
    (hc : (StoreCall.saveWithEtag gid bytes expected).Canonical) :
    Alike n d gid (d.call (.saveWithEtag gid bytes expected))
      (saveWithEtag bytes hash expected) := by
  have hrejected : ∀ e, d.mismatch gid e =
      .etagMismatch e (hash.map fun x => toString x.version) := by
    intro e
    rw [SqlStateStore.mismatch, SqlStateStore.loadWithEtag, h.row]
    cases hash <;> rfl
  cases expected with
  | none =>
    simp only [SqlStateStore.call, SqlStateStore.saveWithEtag, h.row, hrejected]
    cases hash with
    | none => exact ⟨rfl, _, rfl, first⟩
    | some x => exact h.kept _
  | some expected =>
    simp only [SqlStateStore.call, SqlStateStore.saveWithEtag, RedisStateStore.saveWithEtag, h.row,
      hrejected]
    cases hparse : parseI64 expected with
    | error e => exact h.kept _
    | ok v =>
      obtain rfl := hc v hparse
      cases hash with
      | none => exact h.kept _
      | some x =>
        by_cases hv : x.version = v
        · subst hv
          simp only [Option.map_some, RedisHash.row, ne_eq, not_true_eq_false, if_true, if_false]
          exact ⟨rfl, _, rfl, (h.next hn).2⟩
        · have htext : toString x.version ≠ toString v := fun heq =>
            hv (Except.ok.inj ((heq ▸ parseI64_toString x.version).symm.trans hparse))
          simp only [Option.map_some, RedisHash.row, ne_eq, htext, not_false_eq_true, if_true,
            Option.some.injEq, SqlNumber.integer.injEq, hv, if_false]
          exact h.kept _

theorem onHash {c : StoreCall} (h : Agrees n (d.rows c.gid) hash) (hn : n < 2 ^ 63 - 1)
    (hc : c.Canonical) : Alike n d c.gid (d.call c) (onHash hash c) := by
  cases c with
  | load gid | loadWithEtag gid =>
    rw [StoreCall.gid] at h
    simp only [SqlStateStore.call, SqlStateStore.loadWithEtag, h.row]
    cases hash <;> exact h.kept _
  | delete gid => exact ⟨rfl, _, rfl, rfl, fun _ h => absurd h (Option.not_mem_none _)⟩
  | save gid bytes => exact save h hn
  | saveWithEtag gid bytes expected => exact saveWithEtag h hn hc

end RedisHash.Agrees

namespace RedisStateStore

open StoreCall (answers)

/-- The Redis store gives the answers of the SQL stores. -/
theorem answers_agree (dialect : Dialect) (calls : List StoreCall)
    (hinj : Set.InjOn keyFor {gid | ∃ c ∈ calls, c.gid = gid}) (hlen : calls.length < 2 ^ 63)
    (htags : ∀ c ∈ calls, c.Canonical) :
    answers call (fun _ => none) calls =
      answers SqlStateStore.call ⟨dialect, fun _ => none⟩ calls := by
  suffices hrun : ∀ rest n d r, rest ⊆ calls → n + rest.length < 2 ^ 63 →
      (∀ c ∈ calls, RedisHash.Agrees n (d.rows c.gid) (r (keyFor c.gid))) →
        answers call r rest = answers SqlStateStore.call d rest by
    exact hrun calls 0 _ _ (fun _ h => h) (by omega) fun _ _ => ⟨rfl, nofun⟩
  intro rest
  induction rest with
  | nil => exact fun _ _ _ _ _ _ => rfl
  | cons c rest ih =>
    intro n d r hsub hn h
    obtain ⟨hc, hsub⟩ := cons_subset.mp hsub
    rw [length_cons] at hn
    obtain ⟨hanswer, row, hset, hrow⟩ := (h c hc).onHash (by omega) (htags c hc)
    rw [answers, answers, hanswer, ih (n + 1) _ _ hsub (by omega) fun c' hc' => ?_]
    · rfl
    rw [hset]
    change RedisHash.Agrees _ (Function.update d.rows c.gid row c'.gid)
      (Function.update r (keyFor c.gid) _ (keyFor c'.gid))
    by_cases hgid : c'.gid = c.gid
    · rw [hgid, Function.update_self, Function.update_self]
      exact hrow
    · have hkey : keyFor c'.gid ≠ keyFor c.gid :=
        fun heq => hgid (hinj ⟨c', hc', rfl⟩ ⟨c, hc, rfl⟩ heq)
      rw [Function.update_of_ne hgid, Function.update_of_ne hkey]
      exact (h c' hc').mono

/-- The keys of the grains of one type are apart. -/
theorem injOn_keyFor (typeName : String) : {gid | gid.typeName = typeName}.InjOn keyFor := by
  rintro ⟨_, key⟩ rfl ⟨_, key'⟩ rfl hkey
  simpa [keyFor] using hkey

def counters : List StoreCall :=
  [.save ⟨"Counter", "a"⟩ [1], .saveWithEtag ⟨"Counter", "a"⟩ [2] (some "1"),
    .saveWithEtag ⟨"Counter", "b"⟩ [3] none, .loadWithEtag ⟨"Counter", "a"⟩]

theorem counters_agree : answers call (fun _ => none) counters =
    answers SqlStateStore.call ⟨.sqlite, fun _ => none⟩ counters := by
  refine answers_agree .sqlite counters ?_ (by decide) ?_
  · have htype : ∀ c ∈ counters, c.gid.typeName = "Counter" := by decide
    exact (injOn_keyFor "Counter").mono fun _ ⟨c, hc, hgid⟩ => hgid ▸ htype c hc
  · have htag : parseI64 "1" = .ok 1 := parseI64_toString 1
    simp [counters, StoreCall.Canonical, htag]
    rfl

end RedisStateStore

end Orlando
