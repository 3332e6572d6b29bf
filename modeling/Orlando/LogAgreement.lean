import Orlando.ReplicationLog

/-!
# The two replication logs

A grain's entries in the table of `SqliteReplicationLog` are the rows of those in the list of
`InMemoryReplicationLog`, as long as the sequences stay below `2 ^ 63` (`LogBackend.Agree`).
-/

namespace Orlando

open List SqliteReplicationLog

/-- A call of the trait `ReplicationLog`, for one grain. -/
inductive LogRequest where
  | append (e : ReplicationEntry)
  | readFrom (afterSequence : UInt64) (limit : ℕ)
  | latestSequence
  | truncate (beforeSequence : UInt64)

inductive LogReply where
  | appended (result : Except ReplicationError UInt64)
  | entries (result : Except ReplicationError (List ReplicationEntry))
  | sequence (n : UInt64)
  | truncated (count : ℕ)

def LogRequest.InRange (grainType grainKey : String) : LogRequest → Prop
  | append e => e.grainType = grainType ∧ e.grainKey = grainKey ∧ e.sequence.toNat < 2 ^ 63
  | readFrom afterSequence limit => afterSequence.toNat < 2 ^ 63 ∧ limit < 2 ^ 63
  | latestSequence => True
  | truncate beforeSequence => beforeSequence.toNat < 2 ^ 63

theorem length_sub_length_filter {α : Type} (p : α → Bool) (l : List α) :
    l.length - (l.filter p).length = l.countP fun x => !p x := by
  have hlen := l.length_eq_countP_add_countP p
  rw [← countP_eq_length_filter, hlen]
  simp

variable {ty gk : String}

theorem InMemoryReplicationLog.truncate_fst {m : InMemoryReplicationLog} (b) :
    (m.truncate ty gk b).1 =
      (m.entries ty gk).countP (·.sequence < b) := by
  unfold truncate entries
  cases m.lookup (key ty gk) with
  | none => rfl
  | some log => simp [length_sub_length_filter, ← decide_not]

theorem SqliteReplicationLog.truncate_fst {l : SqliteReplicationLog} (b) :
    (l.truncate ty gk b).1 =
      (l.rows ty gk).countP (·.sequence < b.toInt64) := by
  rw [truncate, rows, countP_filter]
  dsimp only
  rw [length_sub_length_filter]
  refine countP_congr fun r _ => ?_
  simp only [decide_not, Bool.not_not, decide_eq_true_eq, Bool.and_eq_true]
  tauto

namespace LogBackend

section

variable {L : Type} (B : LogBackend L) (ty gk : String)

def handle (l : L) : LogRequest → LogReply × L
  | .append e => (.appended (B.append l e).1, (B.append l e).2)
  | .readFrom afterSequence limit =>
    (.entries (B.readFrom l ty gk afterSequence limit), l)
  | .latestSequence => (.sequence (B.latestSequence l ty gk), l)
  | .truncate beforeSequence =>
    (.truncated (B.truncate l ty gk beforeSequence).1,
      (B.truncate l ty gk beforeSequence).2)

def replies (l : L) : List LogRequest → List LogReply
  | [] => []
  | r :: rs => (B.handle ty gk l r).1 ::
      replies (B.handle ty gk l r).2 rs

end

structure Agree (ty gk : String) (l : SqliteReplicationLog)
    (m : InMemoryReplicationLog) : Prop where
  rows_eq : l.rows ty gk =
    (m.entries ty gk).map SqliteReplicationLog.row
  ofGrain : ∀ e ∈ m.entries ty gk, e.grainType = ty ∧ e.grainKey = gk
  inRange : ∀ e ∈ m.entries ty gk, e.sequence.toNat < 2 ^ 63
  increasing : ((m.entries ty gk).map (·.sequence.toNat)).Pairwise (· < ·)

namespace Agree

variable {ty gk : String} {l : SqliteReplicationLog} {m : InMemoryReplicationLog}
  {e : ReplicationEntry}

theorem empty : Agree ty gk sqlite.empty inMemory.empty where
  rows_eq := rfl
  ofGrain := fun _ h => by cases h
  inRange := fun _ h => by cases h
  increasing := List.Pairwise.nil

section

variable (h : Agree ty gk l m)
include h

theorem pairwise_rows :
    (l.rows ty gk).Pairwise (·.sequence < ·.sequence) := by
  rw [h.rows_eq, pairwise_map]
  refine (pairwise_map.mp h.increasing).imp_of_mem fun {a b} ha hb hab => ?_
  exact (toInt64_lt_iff (h.inRange a ha) (h.inRange b hb)).mpr (UInt64.lt_iff_toNat_lt.mpr hab)

theorem sqlMax_eq :
    sqlMax ((l.rows ty gk).map (·.sequence)) =
      (m.entries ty gk).getLast?.map (·.sequence.toInt64) := by
  rw [sqlMax_of_pairwise (pairwise_map.mpr h.pairwise_rows), h.rows_eq, map_map, getLast?_map]
  rfl

theorem latestSequence :
    sqlite.latestSequence l ty gk = inMemory.latestSequence m ty gk := by
  change ((sqlMax ((l.rows ty gk).map (·.sequence))).map Int64.toUInt64).getD 0 = _
  rw [h.sqlMax_eq, Option.map_map]
  rfl

theorem push (hgt : e.grainType = ty)
    (hgk : e.grainKey = gk) (he : e.sequence.toNat < 2 ^ 63)
    (hlt : ∀ last ∈ (m.entries ty gk).getLast?, last.sequence < e.sequence) :
    Agree ty gk (l ++ [row e])
      (m.insert (InMemoryReplicationLog.key ty gk)
        (m.entries ty gk ++ [e])) := by
  subst hgt hgk
  refine ⟨?_, ?_, ?_, ?_⟩ <;> rw [InMemoryReplicationLog.entries_insert_self]
  · rw [rows_append_row, h.rows_eq, map_append]
    rfl
  · exact forall_mem_append.mpr ⟨h.ofGrain, by simp⟩
  · exact forall_mem_append.mpr ⟨h.inRange, by simpa using he⟩
  · rw [map_append]
    refine Sequenced.pairwise_snoc_of_accepts h.increasing (Sequenced.accepts_map_iff.mpr ?_)
    exact fun last hlast => UInt64.lt_iff_toNat_lt.mp (hlt last hlast)

/-- Both logs take the entry, or report a conflict with the same numbers. -/
theorem append (hgt : e.grainType = ty)
    (hgk : e.grainKey = gk) (he : e.sequence.toNat < 2 ^ 63) :
    (l.append e).1 = (m.append e).1 ∧ Agree ty gk (l.append e).2 (m.append e).2 := by
  have hmax := h.sqlMax_eq
  have hpush := h.push hgt hgk he
  subst hgt hgk
  cases hl : (m.entries e.grainType e.grainKey).getLast? with
  | none =>
    rw [hl] at hmax hpush
    simp only [SqliteReplicationLog.append, InMemoryReplicationLog.append, hmax, hl,
      Option.map_none]
    exact ⟨trivial, hpush (by simp)⟩
  | some last =>
    have hiff := toInt64_lt_iff (h.inRange last (mem_of_getLast? hl)) he
    rw [hl] at hmax hpush
    simp only [SqliteReplicationLog.append, InMemoryReplicationLog.append, hmax, hl,
      Option.map_some, ← Int64.not_lt, ← UInt64.not_lt, hiff]
    by_cases hlt : last.sequence < e.sequence
    · simp only [hlt, not_true_eq_false, if_false]
      exact ⟨trivial, hpush (by simpa using hlt)⟩
    · simp only [hlt, not_false_eq_true, if_true]
      exact ⟨rfl, h⟩

theorem filter_rows {n : UInt64} (hn : n.toNat < 2 ^ 63) :
    (l.rows ty gk).filter (n.toInt64 < ·.sequence) =
      ((m.entries ty gk).filter (n < ·.sequence)).map row := by
  rw [h.rows_eq, filter_map]
  congr 1
  refine filter_congr fun e he => ?_
  simp [row, toInt64_lt_iff hn (h.inRange e he)]

end

theorem entry_row (hgt : e.grainType = ty) (hgk : e.grainKey = gk) :
    entry ty gk (row e) = .ok e := by
  subst hgt hgk
  rw [entry, row, entryTypeFromI64_toI64]
  rfl

theorem mapM_entry_row {es : List ReplicationEntry}
    (h : ∀ e ∈ es, e.grainType = ty ∧ e.grainKey = gk) :
    (es.map row).mapM (entry ty gk) = .ok es := by
  induction es with
  | nil => rfl
  | cons e es ih =>
    obtain ⟨he, hes⟩ := forall_mem_cons.mp h
    rw [map_cons, mapM_cons, entry_row he.1 he.2, ih hes]
    rfl

section

variable (h : Agree ty gk l m)
include h

theorem readFrom {n : UInt64} (hn : n.toNat < 2 ^ 63) (k) :
    l.readFrom ty gk n k = m.readFrom ty gk n k := by
  have hsorted : ((l.rows ty gk).filter (n.toInt64 < ·.sequence)).Pairwise
      fun r r' => decide (r.sequence ≤ r'.sequence) = true :=
    (h.pairwise_rows.filter _).imp fun h => decide_eq_true (Int64.le_of_lt h)
  rw [SqliteReplicationLog.readFrom, mergeSort_of_pairwise hsorted, h.filter_rows hn, ← map_take]
  refine mapM_entry_row fun e he => h.ofGrain e ?_
  exact mem_of_mem_filter (mem_of_mem_take he)

theorem truncate {b : UInt64} (hb : b.toNat < 2 ^ 63) :
    (l.truncate ty gk b).1 = (m.truncate ty gk b).1 ∧
      Agree ty gk (l.truncate ty gk b).2
        (m.truncate ty gk b).2 := by
  constructor
  · rw [truncate_fst, InMemoryReplicationLog.truncate_fst, h.rows_eq, countP_map]
    refine countP_congr fun e he => ?_
    simp [row, toInt64_lt_iff (h.inRange e he) hb]
  · refine ⟨?_, ?_, ?_, ?_⟩ <;> rw [InMemoryReplicationLog.entries_truncate]
    · rw [rows_truncate, h.rows_eq, filter_map]
      congr 1
      refine filter_congr fun e he => ?_
      have hle := not_congr (toInt64_lt_iff (h.inRange e he) hb)
      rw [Int64.not_lt, UInt64.not_lt] at hle
      exact decide_eq_decide.mpr hle
    · exact fun e he => h.ofGrain e (mem_of_mem_filter he)
    · exact fun e he => h.inRange e (mem_of_mem_filter he)
    · exact h.increasing.sublist (filter_sublist.map _)

theorem handle {r} (hr : r.InRange ty gk) :
    (sqlite.handle ty gk l r).1 = (inMemory.handle ty gk m r).1 ∧
      Agree ty gk (sqlite.handle ty gk l r).2
        (inMemory.handle ty gk m r).2 := by
  cases r with
  | append e =>
    obtain ⟨heq, hagree⟩ := h.append hr.1 hr.2.1 hr.2.2
    exact ⟨congrArg LogReply.appended heq, hagree⟩
  | readFrom n k => exact ⟨congrArg LogReply.entries (h.readFrom hr.1 k), h⟩
  | latestSequence => exact ⟨congrArg LogReply.sequence h.latestSequence, h⟩
  | truncate b =>
    obtain ⟨heq, hagree⟩ := h.truncate hr
    exact ⟨congrArg LogReply.truncated heq, hagree⟩

theorem replies {rs} (hrs : ∀ r ∈ rs, r.InRange ty gk) :
    sqlite.replies ty gk l rs = inMemory.replies ty gk m rs := by
  induction rs generalizing l m with
  | nil => rfl
  | cons r rs ih =>
    obtain ⟨hr, hrs⟩ := forall_mem_cons.mp hrs
    obtain ⟨heq, hagree⟩ := h.handle hr
    rw [LogBackend.replies, LogBackend.replies, heq, ih hagree hrs]

end

end Agree

/-- Both logs answer every run of requests with the same replies, as long as the sequences stay
below `2 ^ 63`. -/
theorem same_replies {ty gk : String} {rs : List LogRequest}
    (hrs : ∀ r ∈ rs, r.InRange ty gk) :
    sqlite.replies ty gk sqlite.empty rs =
      inMemory.replies ty gk inMemory.empty rs :=
  Agree.empty.replies hrs

/-- A log that refuses an entry, is emptied, and begins again. -/
def requests : List LogRequest :=
  [.append ⟨"Counter", "a", 3, 0, ⟨"eu"⟩, .fullState, [3]⟩,
    .append ⟨"Counter", "a", 2, 0, ⟨"eu"⟩, .delta, [2]⟩, .readFrom 0 100, .truncate 4,
    .latestSequence, .append ⟨"Counter", "a", 1, 0, ⟨"eu"⟩, .fullState, [1]⟩]

theorem requests_same_replies : sqlite.replies "Counter" "a" sqlite.empty requests =
    [.appended (.ok 3), .appended (.error (.sequenceConflict 4 2)),
      .entries (.ok [⟨"Counter", "a", 3, 0, ⟨"eu"⟩, .fullState, [3]⟩]), .truncated 1,
      .sequence 0, .appended (.ok 1)] := by
  rw [same_replies (by simp [requests, LogRequest.InRange])]
  rfl

end LogBackend

end Orlando
