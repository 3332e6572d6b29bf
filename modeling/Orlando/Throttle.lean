import Mathlib.Data.List.Induction
import Orlando.Slots

/-!
# Throttles

A throttle of period `d` lets an occasion pass if at least `d` has gone by since the last one it let
pass, or since it was set up. `Throttle.lt_passed_iff` says for which occasions there has been a
later one that passes.
-/

namespace Orlando

open List

/-- When the throttle last let an occasion pass, how many occasions there were up to that one, and
how many there have been. -/
structure Throttle where
  last : ℕ
  passed : ℕ
  seen : ℕ

namespace Throttle

def next (d : ℕ) (t : Throttle) (c : ℕ) : Throttle :=
  if c - t.last < d then { t with seen := t.seen + 1 } else ⟨c, t.seen + 1, t.seen + 1⟩

def after (d start : ℕ) (cs : List ℕ) : Throttle :=
  cs.foldl (next d) ⟨start, 0, 0⟩

variable {d start : ℕ} {cs : List ℕ} {c k : ℕ} {t : Throttle}

theorem after_snoc (d start cs c) : after d start (cs ++ [c]) = (after d start cs).next d c := by
  simp [after]

theorem next_of_lt (h : c - t.last < d) : t.next d c = { t with seen := t.seen + 1 } :=
  if_pos h

theorem next_of_le (h : d ≤ c - t.last) : t.next d c = ⟨c, t.seen + 1, t.seen + 1⟩ :=
  if_neg (Nat.not_lt.mpr h)

theorem seen_after (d start cs) : (after d start cs).seen = cs.length := by
  induction cs using reverseRecOn with
  | nil => rfl
  | append_singleton cs c ih =>
    rw [after_snoc, length_append, next]
    split <;> simp [ih]

theorem passed_le_length (d start cs) : (after d start cs).passed ≤ cs.length := by
  induction cs using reverseRecOn with
  | nil => exact Nat.le_refl 0
  | append_singleton cs c ih =>
    rw [after_snoc, length_append, next]
    split
    · exact Nat.le_succ_of_le ih
    · simp [seen_after]

theorem last_mem (d start cs) : (after d start cs).last ∈ start :: cs := by
  induction cs using reverseRecOn with
  | nil => exact mem_cons_self
  | append_singleton cs c ih =>
    rw [after_snoc, next]
    split
    · exact mem_append_left [c] ih
    · simp

theorem last_le (h : (start :: (cs ++ [c])).Pairwise (· ≤ ·)) : (after d start cs).last ≤ c := by
  rw [← cons_append, pairwise_append] at h
  exact h.2.2 _ (last_mem d start cs) c (mem_singleton_self c)

theorem take_snoc (hk : k ≤ cs.length) (c) : (cs ++ [c]).take k = cs.take k :=
  take_append_of_le_length hk

theorem last_take_le (h : (start :: cs).Pairwise (· ≤ ·)) (hk : k ≤ cs.length) :
    (after d start (cs.take k)).last ≤ (after d start cs).last := by
  induction cs using reverseRecOn with
  | nil => simp
  | append_singleton cs c ih =>
    rcases Nat.lt_or_ge cs.length k with hlt | hle
    · have hall : (cs ++ [c]).take k = cs ++ [c] := take_of_length_le (by simp; omega)
      exact Nat.le_of_eq (by rw [hall])
    · have hc := last_le (d := d) h
      have hold := ih (h.sublist (by simp)) hle
      rw [take_snoc hle, after_snoc, next]
      split
      · exact hold
      · exact Nat.le_trans hold hc

theorem last_take_of_passed_le (hk : k ≤ cs.length) (hp : (after d start cs).passed ≤ k) :
    (after d start (cs.take k)).last = (after d start cs).last := by
  induction cs using reverseRecOn with
  | nil => simp
  | append_singleton cs c ih =>
    rcases Nat.lt_or_ge cs.length k with hlt | hle
    · rw [take_of_length_le (by simp; omega)]
    · rw [after_snoc, next] at hp
      rw [take_snoc hle, after_snoc, next]
      split at hp
      · rename_i hlt
        rw [if_pos hlt]
        exact ih hle hp
      · simp only [seen_after] at hp
        omega

theorem lt_passed_iff (h : (start :: cs).Pairwise (· ≤ ·)) :
    k < (after d start cs).passed ↔
      ∃ i c, k ≤ i ∧ cs[i]? = some c ∧ (after d start (cs.take k)).last + d ≤ c := by
  induction cs using reverseRecOn with
  | nil => simp [after]
  | append_singleton cs c ih =>
    have hc := last_le (d := d) h
    have hcs : (start :: cs).Pairwise (· ≤ ·) := h.sublist (by simp)
    have ih := ih hcs
    rcases Nat.lt_or_ge cs.length k with hlt | hle
    · -- there is no such occasion
      have hno := passed_le_length d start (cs ++ [c])
      rw [length_append, length_singleton] at hno
      constructor
      · omega
      · rintro ⟨i, b, hi, hb, -⟩
        have hib := lt_of_getElem? hb
        rw [length_append, length_singleton] at hib
        omega
    · rw [take_snoc hle, after_snoc]
      have hold : (∃ i b, k ≤ i ∧ cs[i]? = some b ∧ (after d start (cs.take k)).last + d ≤ b) →
          ∃ i b, k ≤ i ∧ (cs ++ [c])[i]? = some b ∧ (after d start (cs.take k)).last + d ≤ b := by
        rintro ⟨i, b, hi, hb, hle⟩
        exact ⟨i, b, hi, by rw [getElem?_append_left (lt_of_getElem? hb), hb], hle⟩
      by_cases hpass : c - (after d start cs).last < d
      · rw [next_of_lt hpass]
        refine ⟨fun hlt => hold (ih.mp hlt), ?_⟩
        rintro ⟨i, b, hi, hb, hle'⟩
        by_contra hnot
        rw [Nat.not_lt] at hnot
        rcases Nat.lt_or_ge i cs.length with hil | hil
        · rw [getElem?_append_left hil] at hb
          exact absurd (ih.mpr ⟨i, b, hi, hb, hle'⟩) (Nat.not_lt.mpr hnot)
        · -- the occasion itself came too early
          rw [last_take_of_passed_le hle hnot] at hle'
          rw [getElem?_append_right hil] at hb
          have hbc := mem_singleton.mp (mem_of_getElem? hb)
          omega
      · rw [next_of_le (Nat.not_lt.mp hpass), seen_after]
        refine ⟨fun _ => ⟨cs.length, c, hle, by simp, ?_⟩, fun _ => Nat.lt_succ_of_le hle⟩
        have := last_take_le (d := d) hcs hle
        omega

end Throttle

end Orlando
