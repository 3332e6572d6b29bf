import Mathlib.Data.List.Forall2

/-!
# Tickets that leave in the order they were drawn

Concurrent writers each draw a ticket from a clock and hold it in a slot until their write is done.
`InOrder pending done clock` says that the tickets of the finished writes `done` increase and stay
below every ticket still held.
-/

namespace Orlando

open List

variable {ι : Type*} {ν : Type*} {R : ℕ → ν → Prop}

/-- The finished writes were made in the order of their tickets, and every ticket still
held comes after them. -/
structure InOrder (pending : ι → Option ℕ) (done : List ℕ) (clock : ℕ) : Prop where
  sorted : done.Pairwise (· < ·)
  done_lt : ∀ d ∈ done, ∀ i n, pending i = some n → d < n
  injective : ∀ i j n, pending i = some n → pending j = some n → i = j
  done_le : ∀ d ∈ done, d ≤ clock
  pending_le : ∀ i n, pending i = some n → n ≤ clock

namespace InOrder

variable {pending pending' : ι → Option ℕ} {done : List ℕ} {clock : ℕ}

theorem init (h : ∀ i, pending i = none) (clock) : InOrder pending [] clock := by
  refine ⟨List.Pairwise.nil, by simp, ?_, by simp, ?_⟩
  · intro i j n hi
    simp [h i] at hi
  · intro i n hi
    simp [h i] at hi

section

variable (h : InOrder pending done clock)
include h

theorem drop (hsub : ∀ i n, pending' i = some n → pending i = some n) {clock'}
    (hc : clock ≤ clock') : InOrder pending' done clock' where
  sorted := h.sorted
  done_lt := fun d hd i n hn => h.done_lt d hd i n (hsub i n hn)
  injective := fun i j n hi hj => h.injective i j n (hsub i n hi) (hsub j n hj)
  done_le := fun d hd => Nat.le_trans (h.done_le d hd) hc
  pending_le := fun i n hn => Nat.le_trans (h.pending_le i n (hsub i n hn)) hc

theorem draw {i n} (hn : n ≤ clock) (hdone : ∀ d ∈ done, d < n)
    (hpend : ∀ j k, pending j = some k → k < n) (hnew : pending' i = some n)
    (hrest : ∀ j, j ≠ i → pending' j = pending j) : InOrder pending' done clock := by
  refine ⟨h.sorted, ?_, ?_, h.done_le, ?_⟩
  · intro d hd j k hk
    by_cases hj : j = i
    · obtain rfl : n = k := by simpa [hj, hnew] using hk
      exact hdone d hd
    · exact h.done_lt d hd j k (hrest j hj ▸ hk)
  · intro j l k hj hl
    by_cases hji : j = i <;> by_cases hli : l = i
    · rw [hji, hli]
    · obtain rfl : n = k := by simpa [hji, hnew] using hj
      have := hpend l n (hrest l hli ▸ hl)
      omega
    · obtain rfl : n = k := by simpa [hli, hnew] using hl
      have := hpend j n (hrest j hji ▸ hj)
      omega
    · exact h.injective j l k (hrest j hji ▸ hj) (hrest l hli ▸ hl)
  · intro j k hk
    by_cases hj : j = i
    · obtain rfl : n = k := by simpa [hj, hnew] using hk
      exact hn
    · exact h.pending_le j k (hrest j hj ▸ hk)

theorem finish {i n} (hi : pending i = some n) (hmin : ∀ j k, pending j = some k → n ≤ k)
    (hgone : pending' i = none) (hrest : ∀ j, j ≠ i → pending' j = pending j) :
    InOrder pending' (done ++ [n]) clock := by
  have hsub : ∀ j k, pending' j = some k → j ≠ i ∧ pending j = some k := by
    intro j k hk
    have hj : j ≠ i := by
      rintro rfl
      simp [hgone] at hk
    exact ⟨hj, hrest j hj ▸ hk⟩
  refine ⟨?_, ?_, ?_, ?_, ?_⟩
  · refine pairwise_append.mpr ⟨h.sorted, pairwise_singleton _ _, ?_⟩
    intro d hd k hk
    rw [mem_singleton.mp hk]
    exact h.done_lt d hd i n hi
  · intro d hd j k hk
    obtain ⟨hj, hk'⟩ := hsub j k hk
    rcases mem_append.mp hd with hd | hd
    · exact h.done_lt d hd j k hk'
    · rw [mem_singleton.mp hd]
      have hle := hmin j k hk'
      have hne : n ≠ k := by
        rintro rfl
        exact hj (h.injective j i n hk' hi)
      omega
  · intro j l k hj hl
    exact h.injective j l k (hsub j k hj).2 (hsub l k hl).2
  · intro d hd
    rcases mem_append.mp hd with hd | hd
    · exact h.done_le d hd
    · rw [mem_singleton.mp hd]
      exact h.pending_le i n hi
  · intro j k hk
    exact h.pending_le j k (hsub j k hk).2

end

end InOrder

theorem exists_getLast_of_forall₂ :
    ∀ {done vs}, List.Forall₂ R done vs → done.Pairwise (· < ·) →
      ∀ d ∈ done, ∃ n v, vs.getLast? = some v ∧ R n v ∧ d ≤ n
  | _, _, .nil, _, d, hd => absurd hd (by simp)
  | [n], [v], .cons h .nil, _, d, hd => ⟨n, v, rfl, h, Nat.le_of_eq (mem_singleton.mp hd)⟩
  | n :: k :: done, v :: w :: vs, .cons h hs, hsorted, d, hd => by
    obtain ⟨hn, hsorted'⟩ := pairwise_cons.mp hsorted
    have hrest := exists_getLast_of_forall₂ hs hsorted'
    rw [getLast?_cons_cons]
    rcases mem_cons.mp hd with rfl | hd
    · obtain ⟨l, u, hu, hR, hle⟩ := hrest k mem_cons_self
      have := hn k mem_cons_self
      exact ⟨l, u, hu, hR, by omega⟩
    · exact hrest d hd

theorem exists_getLast_of_getLast {done vs n} (h : List.Forall₂ R done vs)
    (hn : done.getLast? = some n) : ∃ v, vs.getLast? = some v ∧ R n v := by
  rw [← forall₂_reverse_iff] at h
  rw [getLast?_eq_head?_reverse] at hn ⊢
  generalize done.reverse = ns at h hn
  generalize vs.reverse = ws at h ⊢
  cases h with
  | nil => cases hn
  | cons hR _ =>
    cases hn
    exact ⟨_, rfl, hR⟩

end Orlando
