import Mathlib.Data.Nat.Notation

/-!
# Connections with requests in flight

A connection on which requests with a tag are sent and served in order, each by a reply with its
tag. What is `outstanding` on it are the tags whose reply has not been read : sending adds one at
the end, reading takes off the first, and nothing on the way changes them (`outstanding_of_next`).
-/

namespace Orlando

/-- A connection, with what is on its way. Either direction may be cut. -/
structure Pipeline (ι Q A : Type) where
  requests : List (ι × Q)
  replies : List (ι × A)
  writable : Bool
  readable : Bool
deriving DecidableEq

/-- What happens on the way or at the other end. -/
inductive PipeEvent (A : Type) where
  | serve (a : A)
  | cutWrites
  | cutReads

namespace Pipeline

variable {ι Q A : Type}

def fresh : Pipeline ι Q A where
  requests := []
  replies := []
  writable := true
  readable := true

variable (p : Pipeline ι Q A)

def isOpen : Bool :=
  p.readable && p.writable

def outstanding : List ι :=
  p.replies.map Prod.fst ++ p.requests.map Prod.fst

def feed (i : ι) (q : Q) : Pipeline ι Q A :=
  { p with requests := p.requests ++ [(i, q)] }

def next : Option ((ι × A) × Pipeline ι Q A) :=
  match p.replies with
  | r :: replies => if p.readable then some (r, { p with replies := replies }) else none
  | [] => none

def act : PipeEvent A → Option (Pipeline ι Q A)
  | .serve a =>
    match p.requests with
    | (i, _) :: requests =>
      some { p with requests := requests, replies := p.replies ++ [(i, a)] }
    | [] => none
  | .cutWrites => some { p with writable := false }
  | .cutReads => some { p with readable := false }

variable {p} {p' : Pipeline ι Q A}

@[simp] theorem outstanding_feed (i q) :
    (p.feed i q).outstanding = p.outstanding ++ [i] := by
  simp [outstanding, feed]

theorem outstanding_of_next {r} (h : p.next = some (r, p')) :
    p.readable = true ∧ p.outstanding = r.1 :: p'.outstanding ∧ p'.readable = p.readable ∧
      p'.writable = p.writable := by
  unfold next at h
  split at h
  next hr =>
    split at h
    next hread =>
      cases h
      exact ⟨hread, by simp [outstanding, hr], rfl, rfl⟩
    next => cases h
  next => cases h

theorem outstanding_of_act {e} (h : p.act e = some p') :
    p'.outstanding = p.outstanding ∧ (p'.readable = true → p.readable = true) ∧
      (p'.writable = true → p.writable = true) := by
  cases e with
  | serve a =>
    simp only [act] at h
    split at h
    next hreq =>
      cases h
      exact ⟨by simp [outstanding, hreq], id, id⟩
    next => cases h
  | cutWrites => exact Option.some.inj h ▸ ⟨rfl, id, fun hw => (nomatch hw)⟩
  | cutReads => exact Option.some.inj h ▸ ⟨rfl, fun hr => (nomatch hr), id⟩

end Pipeline

end Orlando
