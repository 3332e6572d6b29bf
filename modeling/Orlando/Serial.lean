import Mathlib.Data.List.Perm.Basic
import Orlando.Slots

/-!
# Actions one at a time

`serialState` is the state that actions lead to when they are taken one at a time, and
`serialStarts` is what each of them finds. Numbered tasks have jobs to do : `numberedJobs` are those
still to be done, with the numbers of their tasks.
-/

namespace Orlando

open List

variable {α β σ : Type*}

def serialState (act : α → σ → σ) (s : σ) (l : List α) : σ :=
  l.foldl (fun s a => act a s) s

def serialStarts (act : α → σ → σ) : σ → List α → List (α × σ)
  | _, [] => []
  | s, a :: l => (a, s) :: serialStarts act (act a s) l

variable {act : α → σ → σ} {s : σ}

theorem serialState_snoc (l a) : serialState act s (l ++ [a]) = act a (serialState act s l) := by
  simp [serialState]

theorem serialStarts_snoc (l a) :
    serialStarts act s (l ++ [a]) = serialStarts act s l ++ [(a, serialState act s l)] := by
  induction l generalizing s with
  | nil => rfl
  | cons b l ih =>
    rw [cons_append, serialStarts, ih, serialStarts, cons_append]
    rfl

def numberedJobs (jobs : β → List α) (tasks : List β) : List (α × ℕ) :=
  tasks.zipIdx.flatMap fun t => (jobs t.1).map fun a => (a, t.2)

variable {jobs : β → List α} {tasks : List β} {t t' : β} {k : ℕ}

theorem numberedJobs_snoc (t) :
    numberedJobs jobs (tasks ++ [t]) =
      numberedJobs jobs tasks ++ (jobs t).map fun a => (a, tasks.length) := by
  simp [numberedJobs, zipIdx_append]

section

variable (h : tasks[k]? = some t)
include h

theorem set_eq_append_cons (t') :
    ∃ before after, tasks = before ++ t :: after ∧ before.length = k ∧
      tasks.set k t' = before ++ t' :: after := by
  obtain ⟨hk, rfl⟩ := List.getElem?_eq_some_iff.mp h
  refine ⟨tasks.take k, tasks.drop (k + 1), ?_, ?_, ?_⟩
  · rw [getElem_cons_drop, take_append_drop]
  · rw [length_take]
    omega
  · rw [List.set_eq_take_append_cons_drop, if_pos hk]

theorem numberedJobs_set_of_eq (ht : jobs t' = jobs t) :
    numberedJobs jobs (tasks.set k t') = numberedJobs jobs tasks := by
  obtain ⟨before, after, htasks, -, hset⟩ := set_eq_append_cons h t'
  rw [hset, htasks]
  simp [numberedJobs, zipIdx_append, zipIdx_cons, ht]

theorem numberedJobs_perm_set {a} (ht : jobs t = [a]) (ht' : jobs t' = []) :
    (numberedJobs jobs tasks).Perm ((a, k) :: numberedJobs jobs (tasks.set k t')) := by
  obtain ⟨before, after, htasks, hlen, hset⟩ := set_eq_append_cons h t'
  rw [hset, htasks]
  simp only [numberedJobs, zipIdx_append, zipIdx_cons, flatMap_append,
    flatMap_cons, ht, ht', map_cons, map_nil, hlen, Nat.zero_add, nil_append]
  exact perm_middle

end

end Orlando
