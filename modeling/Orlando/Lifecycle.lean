import Mathlib.Data.List.Basic

/-!
# The activation state machine

`ActivationState` and its total transition function `next` (`activation_state.rs`). A pair of a
state and an event that the diagram does not list leaves the state as it is.
-/

namespace Orlando

inductive ActivationState where
  | activating
  | idle
  | processing
  | persisting
  | draining
  | deactivating
  | faulted
  | closed
deriving DecidableEq, Repr

inductive ActivationEvent where
  | activateSucceeded
  | activateFailed
  | messageReceived
  | handlerCompleted
  | persistStarted
  | handlerPanicked
  | persistSucceeded
  | persistFailed
  | channelClosed
  | idleTimeout
  | drainComplete
  | deactivateComplete
deriving DecidableEq, Repr

namespace ActivationState

/-- The transition function. Pairs that are not listed keep the state. -/
def next : ActivationState → ActivationEvent → ActivationState
  | .activating, .activateSucceeded => .idle
  | .activating, .activateFailed => .faulted
  | .idle, .messageReceived => .processing
  | .idle, .channelClosed => .draining
  | .idle, .idleTimeout => .draining
  | .processing, .handlerCompleted => .idle
  | .processing, .persistStarted => .persisting
  | .processing, .handlerPanicked => .faulted
  | .persisting, .persistSucceeded => .idle
  | .persisting, .persistFailed => .faulted
  | .draining, .drainComplete => .deactivating
  | .deactivating, .deactivateComplete => .closed
  | .faulted, .deactivateComplete => .closed
  | state, _ => state

@[simp] theorem next_closed (e) : closed.next e = closed := by
  cases e <;> rfl

end ActivationState

end Orlando
