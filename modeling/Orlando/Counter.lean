import Mathlib.Algebra.Group.Nat.Defs
import Mathlib.Data.List.Basic

/-!
# Numbers from a counter

What is numbered by a 64-bit counter, from 0 on. The numbers go up as long as there are no more
than `2 ^ 64` of them (`pairwise_counted`). The next one is 0 again (`ofNat_two_pow`).
-/

namespace Orlando

open UInt64 List

def counted (n : ℕ) : List UInt64 :=
  (List.range n).map UInt64.ofNat

theorem counted_succ (n) : counted (n + 1) = counted n ++ [ofNat n] := by
  simp [counted, range_succ]

theorem ofNat_succ (n) : ofNat (n + 1) = ofNat n + 1 :=
  ofNat_add n 1

theorem pairwise_counted {n} (h : n ≤ 2 ^ 64) : (counted n).Pairwise (· < ·) := by
  refine pairwise_map.mpr (pairwise_lt_range.imp_of_mem fun {i j} hi hj hij => ?_)
  have hj := Nat.lt_of_lt_of_le (mem_range.mp hj) h
  exact (ofNat_lt_iff_lt (Nat.lt_trans hij hj) hj).mpr hij

theorem ofNat_two_pow : ofNat (2 ^ 64) = 0 := by
  decide

end Orlando
