import Mathlib.Algebra.Group.Int.Defs
import Orlando.CrossCluster
import Orlando.Persistence
import Orlando.Sequenced

/-!
# Replication logs

A primary cluster appends the states of a grain to a log under increasing sequence numbers, and the
replicas read it from the number they have got to. `LogBackend` is the trait `ReplicationLog`, with
two implementations : `LogBackend.inMemory`, a list of entries under a key made of type and key of
the grain, and `LogBackend.sqlite`, a table with the sequence as an `i64`, so that one from `2 ^ 63`
on counts as less than the small ones (`LogBackend.key`).
-/

namespace Orlando

open List UInt64 Function

inductive ReplicationEntryType where
  | fullState
  | delta
deriving DecidableEq, Repr

structure ReplicationEntry where
  grainType : String
  grainKey : String
  sequence : UInt64
  timestampMillis : Int64
  sourceCluster : ClusterId
  entryType : ReplicationEntryType
  payload : Bytes
deriving DecidableEq

inductive ReplicationError where
  | unavailable (msg : String)
  | serialization (msg : String)
  | deserialization (msg : String)
  | sequenceConflict (expected actual : UInt64)
  | backend (msg : String)
deriving DecidableEq

/-- The trait `ReplicationLog`. `sequences` are those a log has for a grain, oldest first, and from
`limit` on they are not compared as numbers. -/
structure LogBackend (L : Type) where
  empty : L
  append : L → ReplicationEntry → Except ReplicationError UInt64 × L
  readFrom : L → String → String → UInt64 → ℕ → Except ReplicationError (List ReplicationEntry)
  latestSequence : L → String → String → UInt64
  truncate : L → String → String → UInt64 → ℕ × L
  sequences : L → String → String → List UInt64
  limit : ℕ

/-! ## In memory -/

abbrev InMemoryReplicationLog := AList fun _ : String => List ReplicationEntry

variable {ty gk : String}

namespace InMemoryReplicationLog

def key (grainType grainKey : String) : String :=
  grainType ++ "/" ++ grainKey

def entries (m : InMemoryReplicationLog) (ty gk : String) : List ReplicationEntry :=
  (m.lookup (key ty gk)).getD []

def append (m : InMemoryReplicationLog) (entry : ReplicationEntry) :
    Except ReplicationError UInt64 × InMemoryReplicationLog :=
  let log := m.entries entry.grainType entry.grainKey
  let push : Except ReplicationError UInt64 × InMemoryReplicationLog :=
    (.ok entry.sequence, m.insert (key entry.grainType entry.grainKey) (log ++ [entry]))
  match log.getLast? with
  | some last =>
    if entry.sequence ≤ last.sequence then
      (.error (.sequenceConflict (last.sequence + 1) entry.sequence), m)
    else push
  | none => push

def readFrom (m : InMemoryReplicationLog) (ty gk : String) (afterSequence : UInt64)
    (limit : ℕ) : Except ReplicationError (List ReplicationEntry) :=
  .ok (((m.entries ty gk).filter (afterSequence < ·.sequence)).take limit)

def latestSequence (m : InMemoryReplicationLog) (ty gk : String) : UInt64 :=
  ((m.entries ty gk).getLast?.map (·.sequence)).getD 0

def truncate (m : InMemoryReplicationLog) (ty gk : String) (beforeSequence : UInt64) :
    ℕ × InMemoryReplicationLog :=
  match m.lookup (key ty gk) with
  | none => (0, m)
  | some log =>
    let kept := log.filter (beforeSequence ≤ ·.sequence)
    (log.length - kept.length, m.insert (key ty gk) kept)

variable {m : InMemoryReplicationLog} {e : ReplicationEntry}

theorem entries_insert_self (es) :
    entries (m.insert (key ty gk) es) ty gk = es := by
  simp [entries]

theorem append_of_lt
    (h : ∀ last ∈ (m.entries e.grainType e.grainKey).getLast?, last.sequence < e.sequence) :
    append m e = (.ok e.sequence,
      m.insert (key e.grainType e.grainKey) (m.entries e.grainType e.grainKey ++ [e])) := by
  cases hl : (m.entries e.grainType e.grainKey).getLast? with
  | none => simp only [append, hl]
  | some last =>
    have hlt := UInt64.not_le.mpr (h last hl)
    simp only [append, hl, if_neg hlt]

theorem append_of_not_lt
    (h : ¬ ∀ last ∈ (m.entries e.grainType e.grainKey).getLast?, last.sequence < e.sequence) :
    ∃ err, append m e = (.error err, m) := by
  cases hl : (m.entries e.grainType e.grainKey).getLast? with
  | none => simp [hl] at h
  | some last =>
    have hle : e.sequence ≤ last.sequence := by simpa [hl] using h
    exact ⟨.sequenceConflict (last.sequence + 1) e.sequence, by
      simp only [append, hl, if_pos hle]⟩

theorem entries_truncate (b) :
    entries (truncate m ty gk b).2 ty gk =
      (entries m ty gk).filter (b ≤ ·.sequence) := by
  unfold truncate
  cases hl : m.lookup (key ty gk) with
  | none => simp [entries, hl]
  | some log => simp [entries, hl]

end InMemoryReplicationLog

def LogBackend.inMemory : LogBackend InMemoryReplicationLog where
  empty := ∅
  append := InMemoryReplicationLog.append
  readFrom := InMemoryReplicationLog.readFrom
  latestSequence := InMemoryReplicationLog.latestSequence
  truncate := InMemoryReplicationLog.truncate
  sequences := fun m ty gk => (m.entries ty gk).map (·.sequence)
  limit := 2 ^ 64

/-! ## In SQLite -/

def entryTypeToI64 : ReplicationEntryType → Int64
  | .fullState => 0
  | .delta => 1

def entryTypeFromI64 (v : Int64) : Except ReplicationError ReplicationEntryType :=
  if v = 0 then .ok .fullState
  else if v = 1 then .ok .delta
  else .error (.deserialization ("unknown entry_type discriminant: " ++ toString v))

theorem entryTypeFromI64_toI64 (t : ReplicationEntryType) :
    entryTypeFromI64 (entryTypeToI64 t) = .ok t := by
  cases t <;> rfl

/-- A row of `replication_log`. `append` writes no other discriminants than those of the entry
types. -/
structure ReplicationRow where
  grainType : String
  grainKey : String
  sequence : Int64
  timestampMillis : Int64
  sourceCluster : String
  entryType : Int64
  payload : Bytes
  entryType_valid : ∃ t, entryTypeToI64 t = entryType

abbrev SqliteReplicationLog := List ReplicationRow

def sqlMax : List Int64 → Option Int64
  | [] => none
  | v :: vs => some (vs.foldl (fun m w => if m < w then w else m) v)

theorem sqlMax_of_pairwise {l} (h : l.Pairwise (· < ·)) : sqlMax l = l.getLast? := by
  cases l with
  | nil => rfl
  | cons v vs =>
    rw [sqlMax]
    induction vs generalizing v with
    | nil => rfl
    | cons w vs ih =>
      obtain ⟨hv, hvs⟩ := pairwise_cons.mp h
      rw [foldl_cons, if_pos (hv w (by simp)), ih w hvs, getLast?_cons_cons]

variable {l : SqliteReplicationLog}

namespace SqliteReplicationLog

def rows (l : SqliteReplicationLog) (ty gk : String) : List ReplicationRow :=
  l.filter fun r => r.grainType = ty ∧ r.grainKey = gk

def row (e : ReplicationEntry) : ReplicationRow where
  grainType := e.grainType
  grainKey := e.grainKey
  sequence := e.sequence.toInt64
  timestampMillis := e.timestampMillis
  sourceCluster := e.sourceCluster.name
  entryType := entryTypeToI64 e.entryType
  payload := e.payload
  entryType_valid := ⟨e.entryType, rfl⟩

def append (l : SqliteReplicationLog) (entry : ReplicationEntry) :
    Except ReplicationError UInt64 × SqliteReplicationLog :=
  let insert := (.ok entry.sequence, l ++ [row entry])
  match sqlMax ((rows l entry.grainType entry.grainKey).map (·.sequence)) with
  | some last =>
    if entry.sequence.toInt64 ≤ last then
      (.error (.sequenceConflict (last.toUInt64 + 1) entry.sequence), l)
    else insert
  | none => insert

def entry (grainType grainKey : String) (r : ReplicationRow) :
    Except ReplicationError ReplicationEntry := do
  let entryType ← entryTypeFromI64 r.entryType
  pure { grainType := grainType
         grainKey := grainKey
         sequence := r.sequence.toUInt64
         timestampMillis := r.timestampMillis
         sourceCluster := ⟨r.sourceCluster⟩
         entryType := entryType
         payload := r.payload }

def readFrom (l : SqliteReplicationLog) (ty gk : String) (afterSequence : UInt64)
    (limit : ℕ) : Except ReplicationError (List ReplicationEntry) :=
  let found := (rows l ty gk).filter (afterSequence.toInt64 < ·.sequence)
  ((found.mergeSort (·.sequence ≤ ·.sequence)).take limit).mapM (entry ty gk)

def latestSequence (l : SqliteReplicationLog) (ty gk : String) : UInt64 :=
  ((sqlMax ((rows l ty gk).map (·.sequence))).map Int64.toUInt64).getD 0

def truncate (l : SqliteReplicationLog) (ty gk : String) (beforeSequence : UInt64) :
    ℕ × SqliteReplicationLog :=
  let kept := l.filter fun r =>
    ¬ (r.grainType = ty ∧ r.grainKey = gk ∧ r.sequence < beforeSequence.toInt64)
  (l.length - kept.length, kept)

variable {e : ReplicationEntry}

theorem append_of_lt (h : ∀ last ∈ sqlMax ((rows l e.grainType e.grainKey).map (·.sequence)),
      last < e.sequence.toInt64) :
    append l e = (.ok e.sequence, l ++ [row e]) := by
  cases hl : sqlMax ((rows l e.grainType e.grainKey).map (·.sequence)) with
  | none => simp only [append, hl]
  | some last =>
    have hlt := Int64.not_le.mpr (h last hl)
    simp only [append, hl, if_neg hlt]

theorem append_of_not_lt (h : ¬ ∀ last ∈ sqlMax ((rows l e.grainType e.grainKey).map (·.sequence)),
      last < e.sequence.toInt64) : ∃ err, append l e = (.error err, l) := by
  cases hl : sqlMax ((rows l e.grainType e.grainKey).map (·.sequence)) with
  | none => simp [hl] at h
  | some last =>
    have hle : e.sequence.toInt64 ≤ last := by simpa [hl] using h
    exact ⟨.sequenceConflict (last.toUInt64 + 1) e.sequence, by
      simp only [append, hl, if_pos hle]⟩

theorem rows_append_row :
    rows (l ++ [row e]) e.grainType e.grainKey = rows l e.grainType e.grainKey ++ [row e] := by
  simp [rows, row]

theorem rows_truncate (b) :
    rows (truncate l ty gk b).2 ty gk =
      (rows l ty gk).filter (b.toInt64 ≤ ·.sequence) := by
  unfold truncate rows
  rw [filter_filter, filter_filter]
  refine filter_congr fun r _ => ?_
  by_cases hr : r.grainType = ty ∧ r.grainKey = gk
  · simp [hr]
  · simp [hr]

theorem exists_entry (r) :
    ∃ x, entry ty gk r = .ok x ∧ x.sequence = r.sequence.toUInt64 := by
  obtain ⟨t, ht⟩ := r.entryType_valid
  have hentry : entry ty gk r = .ok
      ⟨ty, gk, r.sequence.toUInt64, r.timestampMillis, ⟨r.sourceCluster⟩, t,
        r.payload⟩ := by
    rw [entry, ← ht, entryTypeFromI64_toI64]
    rfl
  exact ⟨_, hentry, rfl⟩

theorem exists_mapM_entry (rs : List ReplicationRow) :
    ∃ es, rs.mapM (entry ty gk) = .ok es ∧
      es.map (·.sequence) = rs.map (·.sequence.toUInt64) := by
  induction rs with
  | nil => exact ⟨[], rfl, rfl⟩
  | cons r rs ih =>
    obtain ⟨es, hes, hmap⟩ := ih
    obtain ⟨x, hx, hseq⟩ := @exists_entry ty gk r
    refine ⟨x :: es, ?_, ?_⟩
    · rw [mapM_cons, hx, hes]
      rfl
    · rw [map_cons, map_cons, hseq, hmap]

end SqliteReplicationLog

def LogBackend.sqlite : LogBackend SqliteReplicationLog where
  empty := []
  append := SqliteReplicationLog.append
  readFrom := SqliteReplicationLog.readFrom
  latestSequence := SqliteReplicationLog.latestSequence
  truncate := SqliteReplicationLog.truncate
  sequences := fun l ty gk => (l.rows ty gk).map (·.sequence.toUInt64)
  limit := 2 ^ 63

/-! ## What the two have in common -/

namespace LogBackend

variable {L : Type} (B : LogBackend L) (ty gk : String)

def key (s : UInt64) : ℤ :=
  if s.toNat < B.limit then s.toNat else (s.toNat : ℤ) - 2 ^ 64

def Ordered (l : L) : Prop :=
  ((B.sequences l ty gk).map B.key).Pairwise (· < ·)

/-- The backend keeps the sequences of the grain as a log that is checked against its last
entry. -/
structure Lawful : Prop where
  limit_pos : 0 < B.limit
  sequences_empty : B.sequences B.empty ty gk = []
  append_of_accepts : ∀ l e, B.Ordered ty gk l → e.grainType = ty →
    e.grainKey = gk →
    Sequenced.Accepts ((B.sequences l ty gk).map B.key) (B.key e.sequence) →
      (B.append l e).1 = .ok e.sequence ∧ B.sequences (B.append l e).2 ty gk =
        B.sequences l ty gk ++ [e.sequence]
  append_of_not_accepts : ∀ l e, B.Ordered ty gk l → e.grainType = ty →
    e.grainKey = gk →
    ¬ Sequenced.Accepts ((B.sequences l ty gk).map B.key) (B.key e.sequence) →
      (∀ n, (B.append l e).1 ≠ .ok n) ∧ (B.append l e).2 = l
  sequences_truncate : ∀ l b, B.sequences (B.truncate l ty gk b).2 ty gk =
    (B.sequences l ty gk).filter fun s => B.key b ≤ B.key s
  latestSequence_eq : ∀ l, B.Ordered ty gk l →
    B.latestSequence l ty gk = (B.sequences l ty gk).getLast?.getD 0
  /-- Where the batch is large enough, every entry after `n` is read. -/
  readFrom_eq : ∀ l n k, B.Ordered ty gk l →
    (B.sequences l ty gk).length ≤ k →
      ∃ es, B.readFrom l ty gk n k = .ok es ∧ es.map (·.sequence) =
        (B.sequences l ty gk).filter fun s => B.key n < B.key s

variable {ty gk} {a : UInt64}

theorem key_inMemory (s) : inMemory.key s = s.toNat := by
  have hs : s.toNat < inMemory.limit := s.toNat_lt
  rw [key, if_pos hs]

theorem key_sqlite (s) : sqlite.key s = s.toInt64.toInt := by
  have hbv : s.toInt64.toInt = s.toBitVec.toInt := rfl
  have hnat : s.toBitVec.toNat = s.toNat := rfl
  have hlimit : sqlite.limit = 2 ^ 63 := rfl
  rw [hbv, BitVec.toInt_eq_toNat_cond, hnat, key, hlimit]
  split_ifs <;> omega

theorem accepts_inMemory_iff {m} :
    Sequenced.Accepts ((inMemory.sequences m ty gk).map inMemory.key)
        (inMemory.key a) ↔
      ∀ last ∈ (m.entries ty gk).getLast?, last.sequence < a := by
  have hmap : (inMemory.sequences m ty gk).map inMemory.key =
      (m.entries ty gk).map fun e => inMemory.key e.sequence := map_map
  rw [hmap, Sequenced.accepts_map_iff]
  simp [key_inMemory, lt_iff_toNat_lt]

theorem lawful_inMemory : inMemory.Lawful ty gk where
  limit_pos := by decide
  sequences_empty := rfl
  append_of_accepts := by
    rintro m e - rfl rfl hacc
    have happ := InMemoryReplicationLog.append_of_lt (accepts_inMemory_iff.mp hacc)
    change (m.append e).1 = _ ∧ ((m.append e).2.entries _ _).map (·.sequence) = _
    rw [happ, InMemoryReplicationLog.entries_insert_self, map_append]
    exact ⟨rfl, rfl⟩
  append_of_not_accepts := by
    rintro m e - rfl rfl hacc
    obtain ⟨err, happ⟩ :=
      InMemoryReplicationLog.append_of_not_lt (mt accepts_inMemory_iff.mpr hacc)
    change (∀ n, (m.append e).1 ≠ .ok n) ∧ (m.append e).2 = m
    rw [happ]
    exact ⟨fun n => by simp, rfl⟩
  sequences_truncate := fun m b => by
    change ((m.truncate ty gk b).2.entries _ _).map (·.sequence) =
      ((m.entries ty gk).map (·.sequence)).filter _
    rw [InMemoryReplicationLog.entries_truncate, filter_map]
    congr 1
    refine filter_congr fun e _ => ?_
    simp [comp, key_inMemory, le_iff_toNat_le]
  latestSequence_eq := fun m _ => by
    change ((m.entries ty gk).getLast?.map (·.sequence)).getD 0 =
      (((m.entries ty gk).map (·.sequence)).getLast?).getD 0
    rw [getLast?_map]
  readFrom_eq := fun m n k _ hk => by
    refine ⟨_, rfl, ?_⟩
    change _ = ((m.entries ty gk).map (·.sequence)).filter _
    have hlen : (m.entries ty gk).length ≤ k := by
      simpa [inMemory] using hk
    rw [take_of_length_le ((length_filter_le _ _).trans hlen), filter_map]
    congr 1
    refine filter_congr fun e _ => ?_
    simp [comp, key_inMemory, lt_iff_toNat_lt]

theorem map_key_sqlite (l) :
    (sqlite.sequences l ty gk).map sqlite.key =
      ((l.rows ty gk).map (·.sequence)).map Int64.toInt := by
  simp only [sqlite, map_map]
  exact map_congr_left fun r _ => key_sqlite r.sequence.toUInt64

theorem pairwise_rows (h : sqlite.Ordered ty gk l) :
    ((l.rows ty gk).map (·.sequence)).Pairwise (· < ·) := by
  rw [Ordered, map_key_sqlite, pairwise_map] at h
  exact h.imp Int64.lt_iff_toInt_lt.mpr

theorem accepts_sqlite_iff (h : sqlite.Ordered ty gk l) :
    Sequenced.Accepts ((sqlite.sequences l ty gk).map sqlite.key) (sqlite.key a) ↔
      ∀ last ∈ sqlMax ((l.rows ty gk).map (·.sequence)), last < a.toInt64 := by
  rw [sqlMax_of_pairwise (pairwise_rows h), map_key_sqlite, Sequenced.accepts_map_iff, key_sqlite]
  simp only [Int64.lt_iff_toInt_lt]

theorem lawful_sqlite : sqlite.Lawful ty gk where
  limit_pos := by decide
  sequences_empty := rfl
  append_of_accepts := by
    rintro l e hord rfl rfl hacc
    have happ := SqliteReplicationLog.append_of_lt ((accepts_sqlite_iff hord).mp hacc)
    change (l.append e).1 = _ ∧ ((l.append e).2.rows _ _).map (·.sequence.toUInt64) = _
    rw [happ, SqliteReplicationLog.rows_append_row, map_append]
    exact ⟨rfl, rfl⟩
  append_of_not_accepts := by
    rintro l e hord rfl rfl hacc
    obtain ⟨err, happ⟩ :=
      SqliteReplicationLog.append_of_not_lt (mt (accepts_sqlite_iff hord).mpr hacc)
    change (∀ n, (l.append e).1 ≠ .ok n) ∧ (l.append e).2 = l
    rw [happ]
    exact ⟨fun n => by simp, rfl⟩
  sequences_truncate := fun l b => by
    change ((l.truncate ty gk b).2.rows _ _).map (·.sequence.toUInt64) =
      ((l.rows ty gk).map (·.sequence.toUInt64)).filter _
    rw [SqliteReplicationLog.rows_truncate, filter_map]
    congr 1
    refine filter_congr fun r _ => ?_
    simp only [comp, key_sqlite, Int64.le_iff_toInt_le]
    rfl
  latestSequence_eq := fun l hord => by
    change ((sqlMax ((l.rows ty gk).map (·.sequence))).map Int64.toUInt64).getD 0 =
      (((l.rows ty gk).map (·.sequence.toUInt64)).getLast?).getD 0
    rw [sqlMax_of_pairwise (pairwise_rows hord), getLast?_map, getLast?_map, Option.map_map]
    rfl
  readFrom_eq := fun l n k hord hk => by
    have hlen : (l.rows ty gk).length ≤ k := by simpa [sqlite] using hk
    -- The rows are in order, so that sorting them changes nothing.
    have hsorted : ((l.rows ty gk).filter
        (n.toInt64 < ·.sequence)).Pairwise fun r r' => decide (r.sequence ≤ r'.sequence) = true :=
      ((pairwise_map.mp (pairwise_rows hord)).filter _).imp fun h => by
        simpa using Int64.le_of_lt h
    obtain ⟨es, hes, hmap⟩ := @SqliteReplicationLog.exists_mapM_entry ty gk
      ((l.rows ty gk).filter (n.toInt64 < ·.sequence))
    refine ⟨es, ?_, ?_⟩
    · change ((((l.rows ty gk).filter _).mergeSort _).take k).mapM _ = _
      rw [mergeSort_of_pairwise hsorted, take_of_length_le ((length_filter_le _ _).trans hlen), hes]
    · change _ = ((l.rows ty gk).map (·.sequence.toUInt64)).filter _
      rw [hmap, filter_map]
      congr 1
      refine filter_congr fun r _ => ?_
      simp only [comp, key_sqlite, Int64.lt_iff_toInt_lt]
      rfl

variable {B} {s t : UInt64}

theorem key_of_lt (h : s.toNat < B.limit) : B.key s = s.toNat :=
  if_pos h

theorem toInt64_lt_iff {a b : UInt64} (ha : a.toNat < 2 ^ 63) (hb : b.toNat < 2 ^ 63) :
    a.toInt64 < b.toInt64 ↔ a < b := by
  rw [Int64.lt_iff_toInt_lt, ← key_sqlite, ← key_sqlite, key_of_lt (B := sqlite) ha,
    key_of_lt (B := sqlite) hb, Int.ofNat_lt, UInt64.lt_iff_toNat_lt]

theorem key_neg_of_le (h : B.limit ≤ s.toNat) : B.key s < 0 := by
  have := s.toNat_lt
  rw [key, if_neg (by omega)]
  omega

theorem key_injective : Function.Injective B.key := by
  intro s t h
  have hs := s.toNat_lt
  have ht := t.toNat_lt
  apply UInt64.toNat_inj.mp
  unfold key at h
  split_ifs at h <;> omega

theorem lt_of_key_lt (hs : s.toNat < B.limit) (h : B.key s < B.key t) : s < t := by
  rw [lt_iff_toNat_lt]
  by_cases ht : t.toNat < B.limit
  · rw [key_of_lt hs, key_of_lt ht] at h
    omega
  · have := key_neg_of_le (Nat.le_of_not_lt ht)
    rw [key_of_lt hs] at h
    omega

theorem key_lt_of_lt (ht : t.toNat < B.limit) (h : s < t) : B.key s < B.key t := by
  have hst := lt_iff_toNat_lt.mp h
  rw [key_of_lt (hst.trans ht), key_of_lt ht]
  omega

end LogBackend

end Orlando
