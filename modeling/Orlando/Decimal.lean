import Mathlib.Data.Int.Notation
import Mathlib.Data.Nat.Notation

/-!
# Decimal numbers as text

`parseDecimal` reads a number as a parser of fixed-width integers does : a sign, then digits one by
one, and an error as soon as the value leaves the range `[lo, hi]`. A number of the range is read
back from what `toString` prints (`parseDecimal_toString`).
-/

namespace Orlando

theorem toString_nat_inj {m n : ℕ} (h : toString m = toString n) : m = n := by
  have hdigits := String.ofList_injective h
  rw [← @Nat.ofDigitChars_ten_toDigits m, hdigits, Nat.ofDigitChars_ten_toDigits]

inductive ParseIntError where
  | empty
  | invalidDigit
  | posOverflow
  | negOverflow
deriving DecidableEq, Repr

namespace ParseIntError

def message : ParseIntError → String
  | empty => "cannot parse integer from empty string"
  | invalidDigit => "invalid digit found in string"
  | posOverflow => "number too large to fit in target type"
  | negOverflow => "number too small to fit in target type"

end ParseIntError

/-- One more digit at the end of `n`, which is to stay below `limit`. -/
def pushDigit (limit : ℕ) (overflow : ParseIntError) (n : ℕ) (c : Char) :
    Except ParseIntError ℕ :=
  if c.isDigit then
    if 10 * n + (c.toNat - '0'.toNat) ≤ limit then .ok (10 * n + (c.toNat - '0'.toNat))
    else .error overflow
  else .error .invalidDigit

/-- The number from `-below` to `above` that a text stands for. A sign alone is no number. -/
def parseDecimal (below above : ℕ) (text : String) : Except ParseIntError ℤ :=
  match text.toList with
  | [] => .error .empty
  | ['+'] | ['-'] => .error .invalidDigit
  | '-' :: digits => (digits.foldlM (pushDigit below .negOverflow) 0).map fun n : ℕ => -(n : ℤ)
  | '+' :: digits => (digits.foldlM (pushDigit above .posOverflow) 0).map fun n : ℕ => (n : ℤ)
  | digits => (digits.foldlM (pushDigit above .posOverflow) 0).map fun n : ℕ => (n : ℤ)

variable {limit below above : ℕ} {overflow : ParseIntError} {n : ℕ}

theorem le_ofDigitChars (digits n) : n ≤ Nat.ofDigitChars 10 digits n := by
  rw [Nat.ofDigitChars_eq_ofDigitChars_zero]
  have hpos : 0 < 10 ^ digits.length := Nat.pow_pos (by decide)
  exact Nat.le_trans (Nat.le_mul_of_pos_left n hpos) (Nat.le_add_right _ _)

theorem foldlM_pushDigit {digits} (hd : ∀ c ∈ digits, c.isDigit) :
    ∀ {n}, Nat.ofDigitChars 10 digits n ≤ limit →
      digits.foldlM (pushDigit limit overflow) n = .ok (Nat.ofDigitChars 10 digits n) := by
  induction digits with
  | nil => exact fun _ => rfl
  | cons c digits ih =>
    intro n hle
    rw [Nat.ofDigitChars_cons] at hle ⊢
    have hc := hd c (by simp)
    have hstep : pushDigit limit overflow n c = .ok (10 * n + (c.toNat - '0'.toNat)) := by
      rw [pushDigit, if_pos hc, if_pos (Nat.le_trans (le_ofDigitChars digits _) hle)]
    rw [List.foldlM_cons, hstep]
    exact ih (fun c' hc' => hd c' (by simp [hc'])) hle

theorem foldlM_toDigits (h : n ≤ limit) :
    (Nat.toDigits 10 n).foldlM (pushDigit limit overflow) 0 = .ok n := by
  have hn : Nat.ofDigitChars 10 (Nat.toDigits 10 n) 0 = n := Nat.ofDigitChars_ten_toDigits
  rw [foldlM_pushDigit (fun c hc => Nat.isDigit_of_mem_toDigits (by decide) (by decide) hc)
    (Nat.le_trans (Nat.le_of_eq hn) h), hn]

theorem parseDecimal_natCast (h : n ≤ above) :
    parseDecimal below above (toString n) = .ok (n : ℤ) := by
  have htext : (toString n).toList = Nat.toDigits 10 n := String.toList_ofList
  have hdigit : ∀ c ∈ Nat.toDigits 10 n, c.isDigit = true :=
    fun c hc => Nat.isDigit_of_mem_toDigits (by decide) (by decide) hc
  unfold parseDecimal
  rw [htext]
  split
  · rename_i hnil
    exact absurd hnil Nat.toDigits_ne_nil
  · rename_i hsign
    exact absurd (hdigit '+' (by simp [hsign])) (by decide)
  · rename_i hsign
    exact absurd (hdigit '-' (by simp [hsign])) (by decide)
  · rename_i hsign
    exact absurd (hdigit '-' (by simp [hsign])) (by decide)
  · rename_i hsign
    exact absurd (hdigit '+' (by simp [hsign])) (by decide)
  · rw [foldlM_toDigits h]
    rfl

theorem parseDecimal_neg_natCast (h : n ≤ below) :
    parseDecimal below above ("-" ++ toString n) = .ok (-(n : ℤ)) := by
  have htext : ("-" ++ toString n).toList = '-' :: Nat.toDigits 10 n := by
    rw [String.toList_append]
    exact congrArg ('-' :: ·) String.toList_ofList
  unfold parseDecimal
  rw [htext]
  cases hd : Nat.toDigits 10 n with
  | nil => exact absurd hd Nat.toDigits_ne_nil
  | cons c digits =>
    have hread : (c :: digits).foldlM (pushDigit below .negOverflow) 0 = .ok n :=
      hd ▸ foldlM_toDigits h
    change Except.map _ ((c :: digits).foldlM _ 0) = _
    rw [hread]
    rfl

theorem parseDecimal_toString {n} (hlow : -(below : ℤ) ≤ n) (hhigh : n ≤ above) :
    parseDecimal below above (toString n) = .ok n := by
  cases n with
  | ofNat n => exact parseDecimal_natCast (by simpa using hhigh)
  | negSucc n => exact parseDecimal_neg_natCast (by omega)

end Orlando
