import Mathlib.Data.List.Basic
import Mathlib.Order.Lattice

/-!
# Logs that are checked against their last entry

A log takes a number if it is above the last number it has, and forgets the numbers below a bound
(`truncate`). `Forward h l` says that a log `l` that has taken the numbers `h` takes from now on
only numbers above all of these. A log that takes a number goes on so (`Forward.snoc`), and one that
forgets does exactly if it does not forget everything (`forward_truncate_iff`).
-/

namespace Orlando

open List Option

namespace Sequenced

variable {α : Type*} [LinearOrder α] {h l : List α} {a b m : α}

def Accepts (l : List α) (a : α) : Prop :=
  ∀ b ∈ l.getLast?, b < a

def truncate (l : List α) (b : α) : List α :=
  l.filter (b ≤ ·)

/-- A log that has taken `h` takes only numbers above all of them. -/
def Forward (h l : List α) : Prop :=
  ∀ a, Accepts l a → ∀ b ∈ h, b < a

theorem accepts_map_iff {β : Type*} {f : β → α} {xs : List β} :
    Accepts (xs.map f) a ↔ ∀ b ∈ xs.getLast?, f b < a := by
  rw [Accepts, getLast?_map]
  cases xs.getLast? <;> simp

theorem le_of_getLast? (hl : l.Pairwise (· < ·)) (hm : l.getLast? = some m) (hb : b ∈ l) :
    b ≤ m := by
  obtain ⟨l', rfl⟩ := getLast?_eq_some_iff.mp hm
  rcases mem_append.mp hb with hb | hb
  · exact ((pairwise_append.mp hl).2.2 b hb m (by simp)).le
  · exact (mem_singleton.mp hb).le

theorem getLast?_eq_of_forall_mem (hh : h.Pairwise (· < ·)) (hsub : ∀ a ∈ l, a ∈ h)
    (hf : ∀ a ∈ h, Accepts l a → ∀ b ∈ h, b < a) : l.getLast? = h.getLast? := by
  cases hm : h.getLast? with
  | none =>
    have hnil := getLast?_eq_none_iff.mp hm
    rw [getLast?_eq_none_iff, eq_nil_iff_forall_not_mem]
    intro a ha
    exact absurd (hsub a ha) (by simp [hnil])
  | some m =>
    -- If the log ended before `m` it would take `m` once more.
    by_contra hne
    have hmem := mem_of_getLast? hm
    refine lt_irrefl m (hf m hmem (fun b hb => ?_) m hmem)
    have hle := le_of_getLast? hh hm (hsub b (mem_of_getLast? hb))
    exact lt_of_le_of_ne hle fun hbm => hne (hbm ▸ hb)

theorem forward_iff (hh : h.Pairwise (· < ·)) (hsub : ∀ a ∈ l, a ∈ h) :
    Forward h l ↔ l.getLast? = h.getLast? := by
  constructor
  · exact fun hf => getLast?_eq_of_forall_mem hh hsub fun a _ => hf a
  · intro hlast a ha b hb
    cases hm : h.getLast? with
    | none => simp [getLast?_eq_none_iff.mp hm] at hb
    | some m => exact (le_of_getLast? hh hm hb).trans_lt (ha m (hlast.trans hm))

theorem Forward.snoc (hf : Forward h l) (ha : Accepts l a) : Forward (h ++ [a]) (l ++ [a]) := by
  intro c hc b hb
  have hac := hc a (by simp)
  rcases mem_append.mp hb with hb | hb
  · exact (hf a ha b hb).trans hac
  · rw [mem_singleton.mp hb]
    exact hac

section

variable (hl : l.Pairwise (· < ·))
include hl

theorem pairwise_snoc_of_accepts (ha : Accepts l a) :
    (l ++ [a]).Pairwise (· < ·) := by
  refine pairwise_append.mpr ⟨hl, pairwise_singleton _ _, fun b hb c hc => ?_⟩
  rw [mem_singleton.mp hc]
  obtain ⟨m, hm⟩ := isSome_iff_exists.mp (getLast?_isSome.mpr (ne_nil_of_mem hb))
  exact (le_of_getLast? hl hm hb).trans_lt (ha m hm)

theorem getLast?_truncate (hne : truncate l b ≠ []) :
    (truncate l b).getLast? = l.getLast? := by
  obtain ⟨x, hx⟩ := exists_mem_of_ne_nil _ hne
  obtain ⟨hxl, hbx⟩ := mem_filter.mp hx
  obtain ⟨m, hm⟩ := isSome_iff_exists.mp (getLast?_isSome.mpr (ne_nil_of_mem hxl))
  obtain ⟨l', rfl⟩ := getLast?_eq_some_iff.mp hm
  have hbm := (of_decide_eq_true hbx).trans (le_of_getLast? hl hm hxl)
  simp [truncate, hbm]

theorem forward_truncate_iff (hh : h.Pairwise (· < ·))
    (hsub : ∀ a ∈ l, a ∈ h) (hf : Forward h l) (b) :
    Forward h (truncate l b) ↔ (l ≠ [] → truncate l b ≠ []) := by
  have hsub' : ∀ a ∈ truncate l b, a ∈ h := fun a ha => hsub a (mem_of_mem_filter ha)
  have hlast := (forward_iff hh hsub).mp hf
  rw [forward_iff hh hsub', ← hlast]
  constructor
  · intro heq hne hnil
    rw [hnil] at heq
    exact hne (getLast?_eq_none_iff.mp heq.symm)
  · intro hkeep
    by_cases hnil : l = []
    · rw [hnil]
      rfl
    · exact getLast?_truncate hl (hkeep hnil)

theorem getElem_lt_iff {r} {i} (hi : i < l.length) :
    l[i] < r ↔ i < l.countP (· < r) := by
  induction l generalizing i with
  | nil => exact absurd hi (Nat.not_lt_zero i)
  | cons x l ih =>
    obtain ⟨hx, hl⟩ := pairwise_cons.mp hl
    by_cases hxr : x < r
    · rw [countP_cons_of_pos (by simpa using hxr)]
      cases i with
      | zero => simpa using hxr
      | succ i => simpa using ih hl (Nat.lt_of_succ_lt_succ hi)
    · have hzero : (x :: l).countP (· < r) = 0 := by
        rw [countP_eq_zero]
        intro y hy
        rcases mem_cons.mp hy with rfl | hy
        · simpa using hxr
        · simpa using (not_lt.mp hxr).trans (hx y hy).le
      rw [hzero]
      refine iff_of_false (fun hlt => ?_) (Nat.not_lt_zero i)
      have hmem : (x :: l)[i] ∈ x :: l := getElem_mem hi
      have := (countP_eq_zero.mp hzero) _ hmem
      exact this (by simpa using hlt)

theorem le_getLast_take_iff {r y k} (hy : (l.take k).getLast? = some y) :
    r ≤ y ↔ l.countP (· < r) < k ∧ l.countP (· < r) < l.length := by
  have hne : l.take k ≠ [] := fun h => by simp [h] at hy
  have hpos : 0 < (l.take k).length := length_pos_iff.mpr hne
  have hlen : (l.take k).length = min k l.length := length_take
  have hi : (l.take k).length - 1 < l.length := by omega
  have heq : l[(l.take k).length - 1] = y := by
    rw [getLast?_eq_getElem?, getElem?_eq_getElem (by omega)] at hy
    rw [← some.inj hy, getElem_take]
  rw [← not_lt, ← heq, getElem_lt_iff hl hi]
  omega

end

end Sequenced

end Orlando
