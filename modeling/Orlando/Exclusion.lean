import Mathlib.Data.Set.Insert

/-!
# Asking around before taking hold

Before a party takes hold of something that only one should hold it makes an attempt : it asks other
parties whether they hold it, and takes hold once none of the answers is awaited any more.
`Exclusive` says that there is one holder at most, that all attempts under way are at one party, and
that each of them still awaits the answer of a holder elsewhere.
-/

namespace Orlando

variable {α : Type*}

/-- An attempt to take hold : the party it is made at, and those whose answer it awaits. -/
structure Attempt (α : Type*) where
  party : α
  awaits : Set α

/-- One party holds at most, and no attempt can make another one hold as well. -/
structure Exclusive (holds : α → Prop) (attempts : Set (Attempt α)) : Prop where
  one : ∀ a b, holds a → holds b → a = b
  together : ∀ x ∈ attempts, ∀ y ∈ attempts, x.party = y.party
  awaited : ∀ x ∈ attempts, ∀ a, holds a → a = x.party ∨ a ∈ x.awaits

namespace Exclusive

variable {holds holds' : α → Prop} {attempts attempts' : Set (Attempt α)} {x : Attempt α}

theorem of_none (hh : ∀ a, ¬holds a) (ha : ∀ x, x ∉ attempts) : Exclusive holds attempts where
  one a _ ha := absurd ha (hh a)
  together x hx := absurd hx (ha x)
  awaited x hx := absurd hx (ha x)

section

variable (h : Exclusive holds attempts)
include h

theorem mono (hh : ∀ a, holds' a → holds a) (ha : attempts' ⊆ attempts) :
    Exclusive holds' attempts' where
  one a b hx hy := h.one a b (hh a hx) (hh b hy)
  together x hx y hy := h.together x (ha hx) y (ha hy)
  awaited x hx a hold := h.awaited x (ha hx) a (hh a hold)

theorem start (hparty : ∀ y ∈ attempts, y.party = x.party)
    (hasks : ∀ a, holds a → a = x.party ∨ a ∈ x.awaits) : Exclusive holds (insert x attempts) where
  one := h.one
  together := by
    rintro y (rfl | hy) z (rfl | hz)
    · rfl
    · exact (hparty z hz).symm
    · exact hparty y hy
    · exact h.together y hy z hz
  awaited := by
    rintro y (rfl | hy)
    · exact hasks
    · exact h.awaited y hy

theorem answered (hx : x ∈ attempts) {awaits} (hkept : ∀ a, holds a → a ∈ x.awaits → a ∈ awaits) :
    Exclusive holds (insert ⟨x.party, awaits⟩ attempts) :=
  h.start (fun y hy => h.together y hy x hx) fun a ha =>
    (h.awaited x hx a ha).imp_right (hkept a ha)

theorem act (hx : x ∈ attempts) (hanswered : ∀ a, holds a → a ∉ x.awaits)
    (hh : ∀ a, holds' a → holds a ∨ a = x.party) : Exclusive holds' attempts := by
  have hparty : ∀ a, holds' a → a = x.party := fun a ha => (hh a ha).elim
    (fun hold => (h.awaited x hx a hold).resolve_right (hanswered a hold)) id
  refine ⟨fun a b ha hb => (hparty a ha).trans (hparty b hb).symm, h.together, ?_⟩
  exact fun y hy a ha => Or.inl ((hparty a ha).trans (h.together x hx y hy))

end

end Exclusive

end Orlando
