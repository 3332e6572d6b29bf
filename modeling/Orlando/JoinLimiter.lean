import Orlando.Services

/-!
# The rate limit of joins

`RateLimiter::check` counts the checks that succeed in a window of a second. The first check that
comes a second or more after the start of a window begins the next one, so windows begin at checks
and not at fixed ticks.
-/

namespace Orlando

open List

namespace RateLimiter

def new (now : ℕ) (maxPerSecond : ℕ) : RateLimiter :=
  ⟨now, 0, maxPerSecond⟩

/-- The limiter after a check. One that fails leaves it as it is. -/
def checked (l : RateLimiter) (now : ℕ) : RateLimiter :=
  (l.check now).toOption.getD l

/-- The checks at the given times : when each is made, and the limiter it is made with. -/
def checks : RateLimiter → List ℕ → List (ℕ × RateLimiter)
  | _, [] => []
  | l, now :: times => (now, l) :: checks (l.checked now) times

def succeeds (x : ℕ × RateLimiter) : Bool :=
  (x.2.check x.1).toBool

def resets (x : ℕ × RateLimiter) : Bool :=
  nanosPerSecond ≤ x.1 - x.2.start

variable {l : RateLimiter} {times : List ℕ} {now a T : ℕ}

theorem check_cases (l now) :
    (nanosPerSecond + l.start ≤ now ∧ l.checked now = { l with start := now, count := 1 } ∧
      succeeds (now, l) = true ∧ resets (now, l) = true) ∨
    now < nanosPerSecond + l.start ∧ resets (now, l) = false ∧
      (l.count < l.maxPerSecond ∧ l.checked now = { l with count := l.count + 1 } ∧
          succeeds (now, l) = true ∨
        l.checked now = l ∧ succeeds (now, l) = false) := by
  have hpos : 0 < nanosPerSecond := by decide
  by_cases hreset : nanosPerSecond ≤ now - l.start
  · exact Or.inl ⟨by omega, by simp [checked, succeeds, resets, check, hreset,
      Except.toOption, Except.toBool]⟩
  · refine Or.inr ⟨by omega, by simp [resets, hreset], ?_⟩
    by_cases hcount : l.count < l.maxPerSecond <;>
      simp [checked, succeeds, check, hreset, hcount, Except.toOption, Except.toBool]

theorem checked_max (l : RateLimiter) (now) : (l.checked now).maxPerSecond = l.maxPerSecond := by
  rcases check_cases l now with ⟨-, h, -⟩ | ⟨-, -, ⟨-, h, -⟩ | ⟨h, -⟩⟩ <;> rw [h]

/-- The limiter lets no more checks through than it may. -/
def Within (l : RateLimiter) : Prop :=
  1 ≤ l.maxPerSecond ∧ l.count ≤ l.maxPerSecond

theorem Within.checked (h : l.Within) (now : ℕ) : (l.checked now).Within := by
  refine ⟨(checked_max l now).symm ▸ h.1, ?_⟩
  rcases check_cases l now with ⟨-, heq, -⟩ | ⟨-, -, ⟨hlt, heq, -⟩ | ⟨heq, -⟩⟩ <;> rw [heq]
  exacts [h.1, hlt, h.2]

theorem time_mem {x} (hx : x ∈ l.checks times) : x.1 ∈ times := by
  induction times generalizing l with
  | nil => cases hx
  | cons now times ih =>
    rcases mem_cons.mp hx with rfl | hx
    · exact mem_cons_self
    · exact mem_cons_of_mem _ (ih hx)

theorem checks_suffix {pre rest} (hl : l.Within) (h : l.checks times = pre ++ rest) :
    ∃ l' times', rest = checks l' times' ∧ l'.Within ∧ l'.maxPerSecond = l.maxPerSecond := by
  induction pre generalizing l times with
  | nil => exact ⟨l, times, h.symm, hl, rfl⟩
  | cons x pre ih =>
    cases times with
    | nil => cases h
    | cons now times =>
      obtain ⟨l', times', hrest, hl', hmax⟩ := ih (hl.checked now) (cons.inj h).2
      exact ⟨l', times', hrest, hl', hmax.trans (checked_max l now)⟩

/-- Checks that begin no window are counted in the one there is. -/
theorem countP_of_not_resets {mid post} (hl : l.Within) (h : l.checks times = mid ++ post)
    (hmid : ∀ x ∈ mid, resets x = false) : mid.countP succeeds + l.count ≤ l.maxPerSecond := by
  induction mid generalizing l times with
  | nil => simpa using hl.2
  | cons x mid ih =>
    cases times with
    | nil => cases h
    | cons now times =>
      obtain ⟨rfl, htail⟩ := cons.inj h
      obtain ⟨hx, hmid⟩ := forall_mem_cons.mp hmid
      have hrest := ih (hl.checked now) htail hmid
      rcases check_cases l now with ⟨-, -, -, hreset⟩ | ⟨-, -, ⟨-, heq, hok⟩ | ⟨heq, hok⟩⟩
      · rw [hx] at hreset
        cases hreset
      · rw [heq] at hrest
        rw [countP_cons_of_pos hok]
        simp only at hrest
        omega
      · rwa [countP_cons_of_neg (by simp [hok]), ← heq]

def succeedsBy (T : ℕ) (x : ℕ × RateLimiter) : Bool :=
  succeeds x ∧ x.1 ≤ T

/-- A window begins no earlier than a second after the one before it, so that up to `T` there are
`n` more at most. -/
theorem countP_windows (n) (hl : l.Within) (htimes : times.Pairwise (· ≤ ·))
    (hT : T < (n + 1) * nanosPerSecond + l.start) :
    (l.checks times).countP (succeedsBy T) + l.count ≤ (n + 1) * l.maxPerSecond := by
  induction times generalizing l n with
  | nil => exact (Nat.zero_add _).trans_le (hl.2.trans (Nat.le_mul_of_pos_left _ n.succ_pos))
  | cons now times ih =>
    obtain ⟨hnow, htimes⟩ := pairwise_cons.mp htimes
    have hafter := hl.checked now
    rcases check_cases l now with ⟨hlate, heq, -⟩ | ⟨-, -, ⟨-, heq, -⟩ | ⟨heq, hok⟩⟩
    · cases n with
      | zero =>
        -- The check that begins the next window is later than `T`, and so are those after it.
        have hnone : (l.checks (now :: times)).countP (succeedsBy T) = 0 := by
          refine countP_eq_zero.mpr fun x hx => ?_
          have hle : now ≤ x.1 := by
            rcases mem_cons.mp (time_mem hx) with heq | hx
            exacts [heq.ge, hnow _ hx]
          have hlt : T < x.1 := by omega
          simp [succeedsBy, hlt.not_ge]
        rw [hnone]
        exact (Nat.zero_add _).trans_le (hl.2.trans_eq (Nat.one_mul _).symm)
      | succ n =>
        have hrest := ih n hafter htimes (by rw [heq]; grind)
        have hcount := hl.2
        rw [checks, countP_cons]
        simp only [heq] at hrest ⊢
        rw [Nat.succ_mul (n + 1)]
        split_ifs <;> omega
    · have hrest := ih n hafter htimes (by rwa [heq])
      rw [checks, countP_cons]
      simp only [heq] at hrest ⊢
      split_ifs <;> omega
    · rw [checks, countP_cons_of_neg (by simp [succeedsBy, hok]), heq]
      exact ih n hl htimes hT

def succeedsIn (a : ℕ) (x : ℕ × RateLimiter) : Bool :=
  succeeds x ∧ a ≤ x.1 ∧ x.1 ≤ a + nanosPerSecond

theorem countP_second (hl : l.Within) (htimes : times.Pairwise (· ≤ ·)) :
    (l.checks times).countP (succeedsIn a) ≤ 2 * l.maxPerSecond := by
  induction times generalizing l with
  | nil => exact Nat.zero_le _
  | cons now times ih =>
    have hafter := hl.checked now
    rcases lt_or_ge now a with hlt | hge
    · rw [checks, countP_cons_of_neg (by simp [succeedsIn, hlt.not_ge]), ← checked_max l now]
      exact ih hafter htimes.of_cons
    · refine le_trans (countP_mono_left (q := succeedsBy (a + nanosPerSecond)) ?_) ?_
      · grind [succeedsIn, succeedsBy]
      -- The second begins in the window of this check, or in the one that the check begins.
      rcases check_cases l now with ⟨-, heq, -⟩ | ⟨hearly, -⟩
      · have hrest := countP_windows (T := a + nanosPerSecond) 1 hafter htimes.of_cons
          (by rw [heq]; simp only [nanosPerSecond]; omega)
        rw [checks, countP_cons]
        simp only [heq] at hrest ⊢
        split_ifs <;> omega
      · have hall := countP_windows (T := a + nanosPerSecond) 1 hl htimes (by omega)
        omega

/-- A window lets at most `max_per_second` checks through, and a second, which meets two windows at
most, twice as many. -/
theorem join_rate_limited (begun : ℕ) (max : ℕ) (times : List ℕ) (hmax : 1 ≤ max)
    (htimes : times.Pairwise (· ≤ ·)) :
    (∀ pre mid post, (new begun max).checks times = pre ++ mid ++ post →
      (∀ x ∈ mid.tail, resets x = false) → mid.countP succeeds ≤ max) ∧
    ∀ a, ((new begun max).checks times).countP (succeedsIn a) ≤ 2 * max := by
  have hnew : (new begun max).Within := ⟨hmax, Nat.zero_le _⟩
  refine ⟨fun pre mid post h hmid => ?_, fun a => countP_second hnew htimes⟩
  obtain ⟨l, rest, hrest, hl, hlmax⟩ := checks_suffix hnew (h.trans (append_assoc ..))
  change l.maxPerSecond = max at hlmax
  cases mid with
  | nil => exact Nat.zero_le _
  | cons x mid =>
    by_cases hx : resets x = true
    · cases rest with
      | nil => cases hrest
      | cons now rest =>
        obtain ⟨rfl, htail⟩ := cons.inj hrest
        have hafter := countP_of_not_resets (hl.checked now) htail.symm hmid
        rw [checked_max, hlmax] at hafter
        rcases check_cases l now with ⟨-, heq, hok, -⟩ | ⟨-, hnot, -⟩
        · rwa [countP_cons_of_pos hok, ← show (l.checked now).count = 1 by rw [heq]]
        · cases hx.symm.trans hnot
    · have hall := countP_of_not_resets hl hrest.symm
        (forall_mem_cons.mpr ⟨Bool.eq_false_iff.mpr hx, hmid⟩)
      omega

theorem join_rate_limited_one :
    ((new 0 1).checks [0, 1, nanosPerSecond]).countP (succeedsIn 0) = 2 ∧
      ((new 0 1).checks [0, 1, nanosPerSecond]).countP (succeedsIn 0) ≤ 2 * 1 :=
  ⟨by decide, (join_rate_limited 0 1 [0, 1, nanosPerSecond] le_rfl (by decide)).2 0⟩

end RateLimiter

end Orlando
