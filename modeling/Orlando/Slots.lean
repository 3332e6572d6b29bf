import Mathlib.Data.List.AList

/-!
# Numbered tasks and entries under keys

Tasks that are numbered in the order they begin are a list that grows at its end and is updated in
place. The lemmas say which task a number stands for after each of the two, and what an update in
place leaves as it was (`map_set_of_eq`, and `OneHolder` : one task at most holds a lock).
-/

namespace Orlando

open List Option AList

variable {α β : Type*} {l : List α} {a b x : α} {i k : ℕ} {f : α → α}

theorem getElem?_snoc (h : (l ++ [a])[i]? = some b) : l[i]? = some b ∨ i = l.length ∧ b = a := by
  rcases Nat.lt_trichotomy i l.length with hlt | rfl | hgt
  · rw [getElem?_append_left hlt] at h
    exact .inl h
  · rw [getElem?_concat_length] at h
    exact .inr ⟨rfl, (some.inj h).symm⟩
  · rw [getElem?_eq_none (by simpa using Nat.succ_le_of_lt hgt)] at h
    cases h

theorem lt_of_getElem? (h : l[k]? = some x) : k < l.length :=
  (List.getElem?_eq_some_iff.mp h).1

theorem getElem?_snoc_of_some (h : l[i]? = some b) : (l ++ [a])[i]? = some b := by
  rw [getElem?_append_left (lt_of_getElem? h), h]

theorem getElem?_set_of_lookup (h : l[k]? = some x) : (l.set k a)[k]? = some a :=
  getElem?_set_self (lt_of_getElem? h)

theorem getElem?_set_of_some (h : l[k]? = some x) (a) :
    (l.set k a)[i]? = if i = k then some a else l[i]? := by
  split_ifs with hik
  · rw [hik, getElem?_set_of_lookup h]
  · rw [getElem?_set_ne (Ne.symm hik)]

theorem getElem?_set_cases (h : l[k]? = some x) (hi : (l.set k a)[i]? = some b) :
    i = k ∧ b = a ∨ i ≠ k ∧ l[i]? = some b := by
  rw [getElem?_set_of_some h] at hi
  split_ifs at hi with hik
  · exact .inl ⟨hik, (some.inj hi).symm⟩
  · exact .inr ⟨hik, hi⟩

theorem map_set_of_eq {f : α → β} (h : l[k]? = some x) (hf : f a = f x) :
    (l.set k a).map f = l.map f := by
  obtain ⟨hk, rfl⟩ := List.getElem?_eq_some_iff.mp h
  rw [map_set, hf, ← getElem_map f (h := by simpa using hk)]
  exact set_getElem_self _

theorem getElem?_modify_cases (h : (l.modify k f)[i]? = some b) :
    ∃ a, l[i]? = some a ∧ b = if i = k then f a else a := by
  rw [getElem?_modify] at h
  obtain ⟨a, ha, rfl⟩ := map_eq_some_iff.mp h
  exact ⟨a, ha, by simp only [eq_comm]⟩

theorem map_modify_of_eq {g : α → β} (hf : ∀ a, g (f a) = g a) :
    (l.modify k f).map g = l.map g := by
  refine ext_getElem? fun i => ?_
  rw [getElem?_map, getElem?_map, getElem?_modify]
  cases l[i]? with
  | none => rfl
  | some a => by_cases hik : k = i <;> simp [hik, hf]

def OneHolder (holds : α → Bool) (l : List α) : Prop :=
  ∀ (i j : ℕ) (x y : α), l[i]? = some x → l[j]? = some y → holds x = true → holds y = true → i = j

namespace OneHolder

variable {holds : α → Bool} {j : ℕ} {y : α}

section

variable (h : OneHolder holds l)
include h

theorem other (hk : l[k]? = some x) (hx : holds x = true) (hj : l[j]? = some y) (hjk : j ≠ k) :
    holds y = false := by
  by_contra hy
  exact hjk (h j k y x hj hk (by simpa using hy) hx)

theorem snoc (ha : holds a = false) : OneHolder holds (l ++ [a]) := by
  have hold : ∀ (i : ℕ) (x : α), (l ++ [a])[i]? = some x → holds x = true → l[i]? = some x := by
    intro i x hi hx
    refine (getElem?_snoc hi).resolve_right ?_
    rintro ⟨-, rfl⟩
    simp [ha] at hx
  exact fun i j x y hi hj hx hy => h i j x y (hold i x hi hx) (hold j y hj hy) hx hy

theorem set (hk : l[k]? = some x)
    (ha : holds a = true → ∀ j y, l[j]? = some y → j ≠ k → holds y = false) :
    OneHolder holds (l.set k a) := by
  intro i j x y hi hj hx hy
  rcases getElem?_set_cases hk hi with ⟨rfl, rfl⟩ | ⟨hik, hi'⟩
  · rcases getElem?_set_cases hk hj with ⟨rfl, rfl⟩ | ⟨hjk, hj'⟩
    · rfl
    · simp [ha hx j y hj' hjk] at hy
  · rcases getElem?_set_cases hk hj with ⟨rfl, rfl⟩ | ⟨-, hj'⟩
    · simp [ha hy i x hi' hik] at hx
    · exact h i j x y hi' hj' hx hy

end

end OneHolder

section Entries

variable {κ ν : Type*} [DecidableEq κ] {m : AList fun _ : κ => ν} {key key' : κ} {v w : ν}

theorem lookup_insert_cases (h : (m.insert key v).lookup key' = some w) :
    key' = key ∧ w = v ∨ key' ≠ key ∧ m.lookup key' = some w := by
  by_cases hkey : key' = key
  · rw [hkey, lookup_insert] at h
    exact .inl ⟨hkey, (some.inj h).symm⟩
  · rw [lookup_insert_ne hkey] at h
    exact .inr ⟨hkey, h⟩

theorem lookup_of_erase (h : (m.erase key).lookup key' = some w) : m.lookup key' = some w := by
  by_cases hkey : key' = key
  · rw [hkey, lookup_erase] at h
    cases h
  · rwa [lookup_erase_ne hkey] at h

end Entries

end Orlando
