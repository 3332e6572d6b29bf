import Orlando.ReplicationLog

/-!
# Concurrent appends in PostgreSQL

`PostgresReplicationLog::append` is a transaction that selects the greatest sequence of the grain,
compares the new one with it, inserts the row and commits. Under `READ COMMITTED` a `SELECT` sees
what is committed when it is made, and an `INSERT` fails if its key is committed. So two appends may
commit with the greater sequence first (`smaller_commits_last`).
-/

namespace Orlando

open List

/-- How far an append has come. `seen` is how many rows were committed at its `SELECT`. -/
inductive AppendStage where
  | begun
  | checked (seen : ℕ)
  | inserted (seen : ℕ)
  | ended (result : Except ReplicationError UInt64)

structure AppendTx where
  entry : ReplicationEntry
  stage : AppendStage

/-- The rows of a grain in the order of their commits, and the transactions. -/
structure PostgresAppends where
  committed : List ReplicationEntry
  txs : List AppendTx

inductive AppendEvent where
  | start (e : ReplicationEntry)
  | next (i : ℕ)
  | fail (i : ℕ) (msg : String)

namespace PostgresAppends

def setStage (s : PostgresAppends) (i : ℕ) (e : ReplicationEntry) (stage : AppendStage) :
    PostgresAppends :=
  { s with txs := s.txs.set i ⟨e, stage⟩ }

def next (s : PostgresAppends) (i : ℕ) (tx : AppendTx) : Option PostgresAppends :=
  match tx.stage with
  | .begun =>
    match sqlMax (s.committed.map (·.sequence.toInt64)) with
    | some last =>
      if tx.entry.sequence.toInt64 ≤ last then
        some (s.setStage i tx.entry
          (.ended (.error (.sequenceConflict (last.toUInt64 + 1) tx.entry.sequence))))
      else some (s.setStage i tx.entry (.checked s.committed.length))
    | none => some (s.setStage i tx.entry (.checked s.committed.length))
  | .checked seen =>
    if s.committed.any (·.sequence = tx.entry.sequence) then
      some (s.setStage i tx.entry (.ended (.error (.backend "duplicate key"))))
    else if s.txs.any (fun other => match other.stage with
        | .inserted _ => other.entry.sequence = tx.entry.sequence
        | _ => false) then none
    else some (s.setStage i tx.entry (.inserted seen))
  | .inserted _ => some { s.setStage i tx.entry (.ended (.ok tx.entry.sequence)) with
      committed := s.committed ++ [tx.entry] }
  | .ended _ => none

def step (s : PostgresAppends) : AppendEvent → Option PostgresAppends
  | .start e => some { s with txs := s.txs ++ [⟨e, .begun⟩] }
  | .next i => s.txs[i]?.bind (s.next i)
  | .fail i msg => s.txs[i]?.bind fun tx =>
    match tx.stage with
    | .ended _ => none
    | _ => some (s.setStage i tx.entry (.ended (.error (.backend msg))))

/-- The sequences are below `2 ^ 63`, and a commit finds what was committed at the `SELECT`. -/
def alone (s : PostgresAppends) : AppendEvent → Bool
  | .start e => e.sequence.toNat < 2 ^ 63
  | .next i =>
    match s.txs[i]? with
    | some ⟨_, .inserted seen⟩ => s.committed.length = seen
    | _ => true
  | .fail _ _ => true

/-- The append may commit as long as nothing else does. -/
def Ahead (committed : List ReplicationEntry) (tx : AppendTx) : Prop :=
  tx.entry.sequence.toNat < 2 ^ 63 ∧ ∀ seen, tx.stage = .checked seen ∨ tx.stage = .inserted seen →
    seen ≤ committed.length ∧ ∀ x ∈ committed.take seen, x.sequence < tx.entry.sequence

structure Inv (s : PostgresAppends) : Prop where
  small : ∀ x ∈ s.committed, x.sequence.toNat < 2 ^ 63
  increasing : (s.committed.map (·.sequence)).Pairwise (· < ·)
  ahead : ∀ tx ∈ s.txs, Ahead s.committed tx

variable {s s' t : PostgresAppends} {i : ℕ} {tx : AppendTx} {stage : AppendStage}

theorem le_sqlMax {l x} (hx : x ∈ l) : ∃ last, sqlMax l = some last ∧ x ≤ last := by
  cases l with
  | nil => cases hx
  | cons v vs =>
    refine ⟨_, rfl, ?_⟩
    induction vs generalizing v x with
    | nil => exact Int64.le_of_eq (mem_singleton.mp hx)
    | cons w vs ih =>
      rw [foldl_cons]
      split_ifs with hlt
      · rcases mem_cons.mp hx with rfl | hx
        · exact Int64.le_trans (Int64.le_of_lt hlt) (ih w mem_cons_self)
        · exact ih w hx
      · rw [mem_cons, mem_cons, or_left_comm] at hx
        rcases hx with rfl | hx
        · exact Int64.le_trans (Int64.not_lt.mp hlt) (ih v mem_cons_self)
        · exact ih v (mem_cons.mpr hx)

theorem Inv.lt_of_checked (h : s.Inv) (htx : tx ∈ s.txs)
    (hcheck : ∀ last, sqlMax (s.committed.map (·.sequence.toInt64)) = some last →
      ¬ tx.entry.sequence.toInt64 ≤ last) :
    ∀ x ∈ s.committed, x.sequence < tx.entry.sequence := by
  intro x hx
  obtain ⟨last, hlast, hle⟩ := le_sqlMax (mem_map_of_mem hx)
  refine (LogBackend.toInt64_lt_iff (h.small x hx) (h.ahead tx htx).1).mp ?_
  exact Int64.lt_of_le_of_lt hle (Int64.not_le.mp (hcheck last hlast))

theorem Ahead.append {committed later} (h : Ahead committed tx) :
    Ahead (committed ++ later) tx := by
  refine ⟨h.1, fun seen hst => ?_⟩
  obtain ⟨hle, hlt⟩ := h.2 seen hst
  refine ⟨hle.trans (prefix_append _ _).length_le, fun x hx => hlt x ?_⟩
  exact take_append_of_le_length hle ▸ hx

theorem Inv.setStage (h : s.Inv) (hstage : Ahead s.committed ⟨tx.entry, stage⟩) :
    (s.setStage i tx.entry stage).Inv := by
  refine ⟨h.small, h.increasing, fun tx' htx' => ?_⟩
  rcases mem_or_eq_of_mem_set htx' with htx' | rfl
  · exact h.ahead tx' htx'
  · exact hstage

theorem Inv.ended (h : s.Inv) (htx : tx ∈ s.txs) (r) : (s.setStage i tx.entry (.ended r)).Inv :=
  h.setStage ⟨(h.ahead tx htx).1, fun _ hst => hst.elim nofun nofun⟩

theorem Inv.checked (h : s.Inv) (htx : tx ∈ s.txs)
    (hcheck : ∀ last, sqlMax (s.committed.map (·.sequence.toInt64)) = some last →
      ¬ tx.entry.sequence.toInt64 ≤ last) :
    (s.setStage i tx.entry (.checked s.committed.length)).Inv := by
  refine h.setStage ⟨(h.ahead tx htx).1, fun seen hst => ?_⟩
  obtain rfl : s.committed.length = seen := hst.elim AppendStage.checked.inj nofun
  exact ⟨le_rfl, fun x hx => h.lt_of_checked htx hcheck x (mem_of_mem_take hx)⟩

theorem Inv.next (h : s.Inv) (hi : s.txs[i]? = some tx) (halone : s.alone (.next i))
    (hs : s.next i tx = some s') : s'.Inv ∧ s.committed <+: s'.committed := by
  have htx := mem_of_getElem? hi
  revert hs
  fun_cases PostgresAppends.next s i tx <;> intro hs <;> cases hs
  next => exact ⟨h.ended htx _, prefix_rfl⟩
  next hmax hle =>
    refine ⟨h.checked htx fun _ hmax' => ?_, prefix_rfl⟩
    cases hmax.symm.trans hmax'
    exact hle
  next hmax => exact ⟨h.checked htx fun _ h => (nomatch hmax.symm.trans h), prefix_rfl⟩
  next => exact ⟨h.ended htx _, prefix_rfl⟩
  next seen hst _ _ =>
    refine ⟨h.setStage ⟨(h.ahead tx htx).1, fun seen' hst' => ?_⟩, prefix_rfl⟩
    obtain rfl : seen = seen' := hst'.elim nofun AppendStage.inserted.inj
    exact (h.ahead tx htx).2 seen (Or.inl hst)
  next seen hst =>
    obtain ⟨-, hlt⟩ := (h.ahead tx htx).2 seen (Or.inr hst)
    have hseen : s.committed.length = seen := by
      obtain ⟨e, st⟩ := tx
      cases hst
      simpa [alone, hi] using halone
    rw [← hseen, take_length] at hlt
    refine ⟨⟨?_, ?_, fun tx' htx' => ?_⟩, prefix_append _ _⟩
    · simpa [or_imp, forall_and] using ⟨h.small, (h.ahead tx htx).1⟩
    · rw [map_append]
      refine pairwise_append.mpr ⟨h.increasing, pairwise_singleton _ _, ?_⟩
      simpa using hlt
    · exact ((h.ended htx (.ok tx.entry.sequence)).ahead tx' htx').append

theorem Inv.step {e} (h : s.Inv) (halone : s.alone e)
    (hs : s.step e = some s') : s'.Inv ∧ s.committed <+: s'.committed := by
  cases e with
  | start e =>
    cases hs
    refine ⟨⟨h.small, h.increasing, fun tx htx => ?_⟩, prefix_rfl⟩
    rcases mem_append.mp htx with htx | htx
    · exact h.ahead tx htx
    · rw [mem_singleton.mp htx]
      exact ⟨of_decide_eq_true halone, fun _ hst => hst.elim nofun nofun⟩
  | next i =>
    obtain ⟨tx, hi, hnext⟩ := Option.bind_eq_some_iff.mp hs
    exact h.next hi halone hnext
  | fail i msg =>
    obtain ⟨tx, hi, hfail⟩ := Option.bind_eq_some_iff.mp hs
    split at hfail
    · cases hfail
    · cases hfail
      exact ⟨h.ended (mem_of_getElem? hi) _, prefix_rfl⟩

/-- Appends commit in order if none commits between the `SELECT` and the commit of another. -/
theorem commits_in_order {es fs : List AppendEvent} (hs : exec step ⟨[], []⟩ es = some s)
    (ht : exec step s fs = some t)
    (halone : Along step (fun s e => s.alone e) ⟨[], []⟩ (es ++ fs)) :
    (t.committed.map (·.sequence)).Pairwise (· < ·) ∧ ∃ later, t.committed = s.committed ++ later ∧
        ∀ x ∈ s.committed, ∀ y ∈ later, x.sequence < y.sequence := by
  have hinit : Inv ⟨[], []⟩ := ⟨fun _ hx => (nomatch hx), .nil, fun _ hx => (nomatch hx)⟩
  have hinv : s.Inv := exec_invariant (fun _ _ _ ha h hstep => (h.step ha hstep).1) hinit
    halone.of_append hs
  obtain ⟨hinv', later, hlater⟩ : t.Inv ∧ s.committed <+: t.committed := by
    refine exec_invariant (I := fun t => t.Inv ∧ s.committed <+: t.committed) ?_
      ⟨hinv, prefix_rfl⟩ (halone.after hs) ht
    exact fun _ _ _ ha h hstep => ⟨(h.1.step ha hstep).1, h.2.trans (h.1.step ha hstep).2⟩
  refine ⟨hinv'.increasing, later, hlater.symm, fun x hx y hy => ?_⟩
  have hpair := hinv'.increasing
  rw [← hlater, map_append] at hpair
  exact (pairwise_append.mp hpair).2.2 _ (mem_map_of_mem hx) _ (mem_map_of_mem hy)

def counterEntry (sequence : UInt64) : ReplicationEntry :=
  ⟨"Counter", "a", sequence, 0, ⟨"eu"⟩, .fullState, []⟩

/-- An append commits, one fails after its `SELECT`, and another commits. -/
def serialAppends : List AppendEvent :=
  [.start (counterEntry 1), .next 0, .next 0, .next 0, .start (counterEntry 2), .next 1, .fail 1 "",
    .start (counterEntry 2), .next 2, .next 2, .next 2]

theorem serial_in_order : ∃ s, exec step ⟨[], []⟩ serialAppends = some s ∧
    s.committed.map (·.sequence) = [1, 2] ∧
      (s.committed.map (·.sequence)).Pairwise (· < ·) := by
  obtain ⟨s, hs, hcommitted⟩ : ∃ s, exec step ⟨[], []⟩ serialAppends = some s ∧
      s.committed.map (·.sequence) = [1, 2] := Option.map_eq_some_iff.mp (by decide +kernel)
  exact ⟨s, hs, hcommitted,
    (commits_in_order hs (rfl : exec step s [] = some s) (by decide +kernel)).1⟩

/-- The first append has selected when the second, with a greater sequence, selects and commits. It
commits after it. -/
theorem smaller_commits_last : (exec step ⟨[], []⟩ [.start (counterEntry 1), .next 0,
    .start (counterEntry 2), .next 1, .next 1, .next 1, .next 0, .next 0]).map
      (fun s => s.committed.map (·.sequence)) = some [2, 1] := by
  decide +kernel

end PostgresAppends

end Orlando
