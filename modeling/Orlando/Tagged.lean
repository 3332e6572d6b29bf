import Mathlib.Data.List.Nodup
import Orlando.WriteLog

/-!
# Registers with tagged writes

A register is written, and every write gives out a tag, or erased. It holds the value and the tag of
its last change, if that is a write (`Change.current`). Where no tag is given out twice, a tag is
the current one exactly if nothing has happened since the write that gave it out
(`Change.current_tag_iff`, `Change.eq_nil_of_current_append`).
-/

namespace Orlando

open WriteLog List

inductive Change (ν τ : Type*) where
  | write (value : ν) (tag : τ)
  | erase
deriving DecidableEq, Repr

namespace Change

variable {ν τ : Type*} {l more past recent : List (Change ν τ)} {v w : ν} {t : τ}

def entry : Change ν τ → Option (ν × τ)
  | write v t => some (v, t)
  | erase => none

def tag : Change ν τ → Option τ
  | write _ t => some t
  | erase => none

/-- What the register holds after the changes, oldest first. -/
def current (l : List (Change ν τ)) : Option (ν × τ) :=
  l.getLast?.bind entry

def tags (l : List (Change ν τ)) : List τ :=
  l.filterMap tag

@[simp] theorem current_snoc (c) : current (l ++ [c]) = c.entry := by
  simp [current]

@[simp] theorem tags_nil : tags ([] : List (Change ν τ)) = [] :=
  rfl

theorem tags_append : tags (l ++ more) = tags l ++ tags more :=
  filterMap_append

@[simp] theorem tags_write_cons : tags (write v t :: l) = t :: tags l :=
  rfl

@[simp] theorem tags_erase_cons : tags (erase :: l) = tags l :=
  rfl

theorem current_eq_some_iff : current l = some (v, t) ↔ ∃ past, l = past ++ [write v t] := by
  constructor
  · intro h
    obtain ⟨c, hc, hen⟩ := Option.bind_eq_some_iff.mp h
    obtain ⟨past, rfl⟩ := getLast?_eq_some_iff.mp hc
    cases c with
    | write v' t' =>
      cases hen
      exact ⟨past, rfl⟩
    | erase => cases hen
  · rintro ⟨past, rfl⟩
    exact current_snoc _

theorem current_tag_iff (h : (tags (past ++ write v t :: recent)).Nodup) :
    (∃ w, current (past ++ write v t :: recent) = some (w, t)) ↔ recent = [] := by
  constructor
  · rintro ⟨w, hw⟩
    obtain ⟨past', heq⟩ := current_eq_some_iff.mp hw
    rcases eq_nil_or_concat recent with rfl | ⟨recent', c, rfl⟩
    · rfl
    -- The last change is a write with the same tag : the tag was given out twice.
    · have heq' : (past ++ write v t :: recent') ++ [c] = past' ++ [write w t] := by
        simpa using heq
      obtain ⟨-, hc⟩ := append_inj' heq' rfl
      obtain rfl := singleton_inj.mp hc
      simp [tags_append, nodup_append] at h
  · rintro rfl
    exact ⟨v, current_snoc _⟩

theorem eq_nil_of_current_append (h : (tags (l ++ more)).Nodup) (hl : current l = some (v, t))
    (hmore : current (l ++ more) = some (w, t)) : more = [] := by
  obtain ⟨past, rfl⟩ := current_eq_some_iff.mp hl
  have heq : past ++ [write v t] ++ more = past ++ write v t :: more := by simp
  rw [heq] at h hmore
  exact (current_tag_iff h).mp ⟨w, hmore⟩

section Store

variable {κ : Type*} {h : WriteLog κ (Change ν τ)} {k k' : κ}

/-- The log after a step that makes at most one change, to the register `k`. -/
def record (h : WriteLog κ (Change ν τ)) (k : κ) : Option (Change ν τ) → WriteLog κ (Change ν τ)
  | some c => h.write k c
  | none => h

def allTags (h : WriteLog κ (Change ν τ)) : List τ :=
  tags (h.map Prod.snd)

@[simp] theorem record_none : record h k none = h :=
  rfl

theorem allTags_record (c) : allTags (record h k c) = allTags h ++ (c.bind tag).toList := by
  cases c with
  | none => simp
  | some c => cases c <;> simp [record, allTags, WriteLog.write, tags_append, tag]

variable [DecidableEq κ]

section

variable (c : Option (Change ν τ))
include c

theorem writesTo_record_self : (record h k c).writesTo k = h.writesTo k ++ c.toList := by
  cases c <;> simp [record]

theorem writesTo_record_ne (hne : k' ≠ k) : (record h k' c).writesTo k = h.writesTo k := by
  cases c <;> simp [record, hne]

theorem current_writesTo_record :
    current ((record h k c).writesTo k') =
      if k' = k then c.elim (current (h.writesTo k)) entry else current (h.writesTo k') := by
  split_ifs with hk
  · subst hk
    cases c <;> simp [record]
  · rw [writesTo_record_ne c (Ne.symm hk)]

end

theorem tags_writesTo_sublist : (tags (h.writesTo k)).Sublist (allTags h) := by
  induction h with
  | nil => simp [writesTo]
  | cons x h ih =>
    obtain ⟨k', c⟩ := x
    have hall : allTags ((k', c) :: h) = c.tag.toList ++ allTags h := by
      cases c <;> simp [allTags, tag]
    rw [hall]
    by_cases hk : k' = k
    · have hone : tags (writesTo ((k', c) :: h) k) = c.tag.toList ++ tags (writesTo h k) := by
        cases c <;> simp [writesTo, hk, tag]
      rw [hone]
      exact ih.append_left _
    · have hone : writesTo ((k', c) :: h) k = writesTo h k := by
        simp [writesTo, hk]
      rw [hone]
      exact ih.trans (sublist_append_right _ _)

end Store

end Change

end Orlando
