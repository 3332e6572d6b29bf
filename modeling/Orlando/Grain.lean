import Mathlib.Data.List.Basic

/-!
# Grains, envelopes and turns

A grain type brings its default state and its two lifecycle hooks (`Grain`), a message travels as an
`Envelope` holding the type-erased handler closure. User code ends normally or in a panic; either
way it leaves a state behind (`Outcome`).
-/

namespace Orlando

abbrev Bytes := List UInt8

structure GrainId where
  typeName : String
  key : String
deriving DecidableEq, Repr

def versionGrainId (gid : GrainId) : GrainId :=
  { gid with key := gid.key ++ "/__v" }

theorem versionGrainId_ne (gid) : versionGrainId gid ≠ gid := by
  intro h
  have hlen := congrArg (fun g => g.key.length) h
  simp [versionGrainId] at hlen

theorem versionGrainId_injective {gid gid'}
    (h : versionGrainId gid = versionGrainId gid') : gid = gid' := by
  obtain ⟨hname, hkey⟩ := GrainId.mk.inj h
  have hkey' := (String.append_left_inj _).mp hkey
  cases gid
  cases gid'
  simp_all

/-- How user code driven by `catch_panic` or by a spawned task ends, with the state it
leaves behind. A panic leaves whatever the code had written so far. -/
inductive Outcome (S : Type) where
  | ok (s : S)
  | panicked (s : S)
deriving DecidableEq, Repr

namespace Outcome

variable {S : Type}

def state : Outcome S → S
  | ok s => s
  | panicked s => s

@[simp] theorem state_ok (s : S) : (ok s).state = s :=
  rfl

@[simp] theorem state_panicked (s : S) : (panicked s).state = s :=
  rfl

def returned : Outcome S → Bool
  | ok _ => true
  | panicked _ => false

theorem exists_ok {o : Outcome S} (h : o.returned = true) : ∃ s, o = .ok s := by
  cases o with
  | ok s => exact ⟨s, rfl⟩
  | panicked s => cases h

end Outcome

/-- A queued message. `handleFn` runs the handler and sends the reply, which the caller waits for if
it is `awaited`. -/
structure Envelope (S : Type) where
  handleFn : S → Outcome S
  awaited : Bool

structure Grain (S : Type) where
  default : S
  onActivate : S → Outcome S
  onDeactivate : S → Outcome S
  reentrant : Bool

/-- One run of user code on the state of an activation. -/
inductive Turn (S : Type) where
  | activate
  | handled (env : Envelope S)
  | panicked (env : Envelope S)
  | deactivate

namespace Turn

variable {S : Type}

def apply (g : Grain S) : Turn S → S → S
  | activate, s => (g.onActivate s).state
  | handled env, s => (env.handleFn s).state
  | panicked env, s => (env.handleFn s).state
  | deactivate, s => (g.onDeactivate s).state

def completed : Turn S → Bool
  | panicked _ => false
  | _ => true

end Turn

variable {S : Type}

def replay (g : Grain S) (s : S) (ts : List (Turn S)) : S :=
  ts.foldl (fun s t => t.apply g s) s

@[simp] theorem replay_nil (g) (s : S) : replay g s [] = s :=
  rfl

@[simp] theorem replay_snoc (g) (s : S) (ts) (t) :
    replay g s (ts ++ [t]) = t.apply g (replay g s ts) := by
  simp [replay]

end Orlando
