import Mathlib.Tactic.Common

/-!
# Registries of owners

A `Registry` gives each key an entry, the number of the owner it belongs to, and each owner that is
alive its key and whether it is listed. A listed owner may be taken off the list and stay alive, and
an owner that leaves clears the entry of its key, whose ever it is by then. A key has one owner at
most as long as owners of it are created only while it is free (`Step.one`), and only then
(`Step.free_of_one`).
-/

namespace Orlando

open Function Option

/-- The entry of each key, and the key of each owner that is alive, with whether it is
listed. -/
structure Registry (K : Type*) where
  entry : K → Option ℕ
  live : ℕ → Option (K × Bool)

namespace Registry

variable {K : Type*} [DecidableEq K] {r r' : Registry K} {l : Option K} {k : K} {α β : Type*}
  {f : α → Option β}

def Free (r : Registry K) (k : K) : Prop :=
  ∀ i b, r.live i ≠ some (k, b)

def Served (r : Registry K) : Prop :=
  ∀ k i, r.entry k = some i → r.live i = some (k, true)

def Listed (r : Registry K) (k : K) : Prop :=
  ∀ i, r.live i = some (k, true) → r.entry k = some i

def One (r : Registry K) (k : K) : Prop :=
  ∀ i j b c, r.live i = some (k, b) → r.live j = some (k, c) → i = j

inductive Step (r r' : Registry K) : Option K → Prop
  | stay (he : r'.entry = r.entry) (hl : r'.live = r.live) : Step r r' none
  /-- Owner `n` is created for `k` and takes the entry. -/
  | create {k : K} {n : ℕ} (hn : r.live n = none)
    (he : r'.entry = Function.update r.entry k (some n))
    (hl : r'.live = Function.update r.live n (some (k, true))) : Step r r' (some k)
  /-- Owner `i` leaves and clears the entry of its key. -/
  | leave {k : K} {i : ℕ} {b : Bool} (hi : r.live i = some (k, b))
    (he : r'.entry = Function.update r.entry k none)
    (hl : r'.live = Function.update r.live i none) : Step r r' none
  /-- The owner the entry of `k` belongs to is taken off the list. -/
  | unlist {k i} (hk : r.entry k = some i) (he : r'.entry = Function.update r.entry k none)
    (hl : r'.live = Function.update r.live i ((r.live i).map fun x => (x.1, false))) :
    Step r r' none
  | kill {i} (hi : ∀ k, r.live i ≠ some (k, true)) (he : r'.entry = r.entry)
    (hl : r'.live = Function.update r.live i none) : Step r r' none
  | clear (he : ∀ k, r'.entry k = none) (hl : ∀ i, r'.live i = none) : Step r r' none

theorem update_eq_some [DecidableEq α] {a x v y} (h : update f a v x = some y) :
    (x = a ∧ v = some y) ∨ (x ≠ a ∧ f x = some y) := by
  by_cases hx : x = a
  · subst hx
    exact .inl ⟨rfl, by simpa using h⟩
  · exact .inr ⟨hx, by simpa [hx] using h⟩

theorem update_none_eq_some [DecidableEq α] {a x y} (h : update f a none x = some y) :
    x ≠ a ∧ f x = some y :=
  (update_eq_some h).resolve_left fun hx => absurd hx.2 (by simp)

theorem Step.served (h : Step r r' l) (hs : r.Served) : r'.Served := by
  intro k' j hj
  cases h with
  | stay he hl =>
    rw [he] at hj
    rw [hl]
    exact hs k' j hj
  | @create k n hn he hl =>
    rw [he] at hj
    rw [hl]
    rcases update_eq_some hj with ⟨rfl, hv⟩ | ⟨_, hj⟩
    · cases hv
      exact update_self ..
    · have hjn : j ≠ n := fun hjn => by
        have hlive := hs k' j hj
        rw [hjn, hn] at hlive
        cases hlive
      rw [update_of_ne hjn]
      exact hs k' j hj
  | @leave k i b hi he hl =>
    rw [he] at hj
    rw [hl]
    obtain ⟨hk, hj⟩ := update_none_eq_some hj
    have hji : j ≠ i := fun hji => by
      have hlive := hs k' j hj
      rw [hji, hi] at hlive
      exact hk (Prod.mk.inj (some.inj hlive)).1.symm
    rw [update_of_ne hji]
    exact hs k' j hj
  | @unlist k i hk he hl =>
    rw [he] at hj
    rw [hl]
    obtain ⟨hkk, hj⟩ := update_none_eq_some hj
    have hji : j ≠ i := fun hji => by
      have hlive := hs k' j hj
      rw [hji, hs _ _ hk] at hlive
      exact hkk (Prod.mk.inj (some.inj hlive)).1.symm
    rw [update_of_ne hji]
    exact hs k' j hj
  | @kill i hi he hl =>
    rw [he] at hj
    rw [hl]
    have hji : j ≠ i := fun hji => hi k' (hji ▸ hs k' j hj)
    rw [update_of_ne hji]
    exact hs k' j hj
  | clear he hl => cases he k' ▸ hj

omit [DecidableEq K] in
theorem One.entry_eq {k} (ho : r.One k) (hs : r.Served) {i j b}
    (hi : r.live i = some (k, b)) (hj : r.entry k = some j) : j = i :=
  ho j i true b (hs k j hj) hi

theorem Step.listed (h : Step r r' l) (hs : r.Served) (ho : r.One k) (hlist : r.Listed k)
    (hfree : l = some k → r.Free k) : r'.Listed k := by
  intro j hj
  cases h with
  | stay he hl =>
    rw [hl] at hj
    rw [he]
    exact hlist j hj
  | @create k' n hn he hl =>
    rw [hl] at hj
    rw [he]
    rcases update_eq_some hj with ⟨rfl, hv⟩ | ⟨_, hj⟩
    · obtain ⟨rfl, -⟩ := Prod.mk.inj (some.inj hv)
      exact update_self ..
    · have hkk : k ≠ k' := fun hkk => hfree (congrArg some hkk.symm) j true hj
      rw [update_of_ne hkk]
      exact hlist j hj
  | @leave k' i b hi he hl =>
    rw [hl] at hj
    rw [he]
    obtain ⟨hji, hj⟩ := update_none_eq_some hj
    have hkk : k ≠ k' := fun hkk => hji (ho j i _ _ hj (hkk ▸ hi))
    rw [update_of_ne hkk]
    exact hlist j hj
  | @unlist k' i hk he hl =>
    rw [hl] at hj
    rw [he]
    rcases update_eq_some hj with ⟨_, hv⟩ | ⟨hji, hj⟩
    · rw [hs k' i hk] at hv
      cases hv
    · have hkk : k ≠ k' := fun hkk => hji (ho j i _ _ hj (hkk ▸ hs k' i hk))
      rw [update_of_ne hkk]
      exact hlist j hj
  | kill hi he hl =>
    rw [hl] at hj
    rw [he]
    exact hlist j (update_none_eq_some hj).2
  | clear he hl => cases hl j ▸ hj

theorem Step.live_cases (h : Step r r' l) {i b} (hi : r'.live i = some (k, b)) :
    (l = some k ∧ r.live i = none) ∨ ∃ c, r.live i = some (k, c) := by
  cases h with
  | stay he hl => exact .inr ⟨b, hl ▸ hi⟩
  | create hn he hl =>
    rw [hl] at hi
    rcases update_eq_some hi with ⟨rfl, hv⟩ | ⟨_, hi⟩
    · obtain ⟨rfl, -⟩ := Prod.mk.inj (some.inj hv)
      exact .inl ⟨rfl, hn⟩
    · exact .inr ⟨b, hi⟩
  | leave _ he hl => exact .inr ⟨b, (update_none_eq_some (hl ▸ hi)).2⟩
  | unlist hk he hl =>
    rw [hl] at hi
    rcases update_eq_some hi with ⟨rfl, hv⟩ | ⟨_, hi⟩
    · obtain ⟨⟨k₀, c⟩, hlive, hv⟩ := map_eq_some_iff.mp hv
      obtain ⟨rfl, -⟩ := Prod.mk.inj hv
      exact .inr ⟨c, hlive⟩
    · exact .inr ⟨b, hi⟩
  | kill _ he hl => exact .inr ⟨b, (update_none_eq_some (hl ▸ hi)).2⟩
  | clear he hl => cases hl i ▸ hi

theorem Step.created_unique (h : Step r r' (some k)) {i j x y} (hi : r.live i = none)
    (hj : r.live j = none) (hi' : r'.live i = some x) (hj' : r'.live j = some y) : i = j := by
  cases h with
  | create hn he hl =>
    rw [hl] at hi' hj'
    rcases update_eq_some hi' with ⟨rfl, -⟩ | ⟨_, hi'⟩
    · rcases update_eq_some hj' with ⟨rfl, -⟩ | ⟨_, hj'⟩
      · rfl
      · cases hj ▸ hj'
    · cases hi ▸ hi'

theorem Step.one (h : Step r r' l) (ho : r.One k) (hfree : l = some k → r.Free k) : r'.One k := by
  intro i j b c hi hj
  rcases h.live_cases hi with ⟨hl, hni⟩ | ⟨b', hbi⟩
  · subst hl
    rcases h.live_cases hj with ⟨-, hnj⟩ | ⟨c', hcj⟩
    · exact h.created_unique hni hnj hi hj
    · exact absurd hcj (hfree rfl j c')
  · rcases h.live_cases hj with ⟨hl, -⟩ | ⟨c', hcj⟩
    · exact absurd hbi (hfree hl i b')
    · exact ho i j b' c' hbi hcj

theorem Step.free_of_one (h : Step r r' (some k)) (ho : r'.One k) : r.Free k := by
  intro i b hi
  cases h with
  | @create _ n hn he hl =>
    have hin : i ≠ n := fun hin => absurd (hin ▸ hi : r.live n = _) (by simp [hn])
    refine hin (ho i n b true ?_ ?_)
    · rw [hl, update_of_ne hin, hi]
    · rw [hl, update_self]

end Registry

end Orlando
