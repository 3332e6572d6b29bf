import Mathlib.Data.List.Range

/-!
# Checkpoints of a log

A checkpoint of a log is a state with the number of entries it folds (`Checkpoint`). The entries
after it, folded onto its state, give the state of the whole log (`Checkpoint.replay`), and it stays
one while the log grows (`Checkpoint.append`).
-/

namespace Orlando

open List

variable {σ ε : Type*} {f : σ → ε → σ} {s₀ s : σ} {log es : List ε} {n : ℕ}

/-- `s` is the fold of the first `n` entries of the log. -/
structure Checkpoint (f : σ → ε → σ) (s₀ : σ) (log : List ε) (n : ℕ) (s : σ) : Prop where
  le : n ≤ log.length
  eq : s = (log.take n).foldl f s₀

namespace Checkpoint

theorem zero (f : σ → ε → σ) (s₀ log) : Checkpoint f s₀ log 0 s₀ :=
  ⟨Nat.zero_le _, rfl⟩

theorem append (h : Checkpoint f s₀ log n s) (es) : Checkpoint f s₀ (log ++ es) n s := by
  refine ⟨?_, ?_⟩
  · rw [length_append]
    exact Nat.le_add_right_of_le h.le
  · rw [take_append_of_le_length h.le]
    exact h.eq

theorem replay (h : Checkpoint f s₀ log n s) : (log.drop n).foldl f s = log.foldl f s₀ := by
  rw [h.eq, ← foldl_append, take_append_drop]

theorem eq_fold (h : Checkpoint f s₀ log log.length s) : s = log.foldl f s₀ := by
  rw [h.eq, take_length]

theorem full (h : s = log.foldl f s₀) : Checkpoint f s₀ log log.length s :=
  ⟨Nat.le_refl _, by rw [take_length, h]⟩

theorem extend (h : Checkpoint f s₀ log log.length s) (es) :
    Checkpoint f s₀ (log ++ es) (log ++ es).length (es.foldl f s) := by
  refine full ?_
  rw [foldl_append, ← h.eq_fold]

end Checkpoint

theorem filter_eq_drop_of_numbered {num : ε → ℕ} {k} :
    ∀ {log : List ε} {n : ℕ}, log.map num = List.range' (k + 1) log.length →
      log.filter (fun e => k + n < num e) = log.drop n
  | [], n, _ => by rw [filter_nil, drop_nil]
  | e :: log, n, h => by
    rw [map_cons, length_cons, range'_succ] at h
    obtain ⟨he, hlog⟩ := List.cons.inj h
    cases n with
    | zero =>
      have hall : ∀ x ∈ log, k < num x := by
        intro x hx
        have hmem := hlog ▸ mem_map_of_mem hx
        have := left_le_of_mem_range' hmem
        omega
      rw [drop_zero, filter_eq_self]
      intro x hx
      rcases mem_cons.mp hx with rfl | hx
      · simp [he]
      · simpa using hall x hx
    | succ n =>
      have hrest := filter_eq_drop_of_numbered (k := k + 1) (n := n) hlog
      have hno : ¬k + (n + 1) < num e := by omega
      rw [filter_cons_of_neg (by simpa using hno), drop_succ_cons, ← hrest]
      congr 1
      funext x
      congr 2
      omega

end Orlando
