import Orlando.Client
import Orlando.References

/-!
# Retries of remote calls

`ClusterGrainRef::ask` sends a message to another silo, and tries again when that fails, up to
`max_retries` times. Only errors that pass are to be retried, not those of the application
(`isRetryable`). But `remote_invoke` returns `RemoteCallFailed` for both
(`isRetryable_of_remoteInvoke`).
-/

namespace Orlando

open List

structure RetryPolicy where
  maxRetries : ℕ
  baseDelay : ℕ
  maxDelay : ℕ

namespace RetryPolicy

def default : RetryPolicy where
  maxRetries := 2
  baseDelay := 100 * 1000000
  maxDelay := 2 * nanosPerSecond

def none : RetryPolicy :=
  { default with maxRetries := 0 }

def isRetryable : GrainError → Bool
  | .remoteCallFailed _ | .timeout _ | .mailboxClosed => true
  | _ => false

def delayForAttempt (policy : RetryPolicy) (attempt : ℕ) : ℕ :=
  min (policy.baseDelay * 2 ^ min attempt 10) policy.maxDelay

end RetryPolicy

def SendOutcome.isApplicationError : SendOutcome → Bool
  | .answered error _ => error ≠ ""
  | _ => false

structure Attempted where
  attempt : ℕ
  delay : ℕ
deriving DecidableEq

namespace ClusterGrainRef

variable {R : Type} (policy : RetryPolicy) (msg : NetworkMessage R) (send : ℕ → SendOutcome)

def remoteInvoke : SendOutcome → Except GrainError R
  | .unreachable reason | .failed reason => .error (.remoteCallFailed reason)
  | .answered error payload =>
    if error ≠ "" then .error (.remoteCallFailed error)
    else (msg.decode payload).mapError .remoteCallFailed

def attempted (attempt : ℕ) : Attempted where
  attempt := attempt
  delay := if attempt = 0 then 0 else policy.delayForAttempt (attempt - 1)

/-- The loop of `ask`, with `left` attempts after the next one. The last attempt returns
whatever comes of it. -/
def attempts : ℕ → ℕ → List Attempted × Except GrainError R
  | 0, attempt => ([attempted policy attempt], remoteInvoke msg (send attempt))
  | left + 1, attempt =>
    match remoteInvoke msg (send attempt) with
    | .ok value => ([attempted policy attempt], .ok value)
    | .error e =>
      if RetryPolicy.isRetryable e then
        let rest := attempts left (attempt + 1)
        (attempted policy attempt :: rest.1, rest.2)
      else ([attempted policy attempt], .error e)

/-- `ask` through a reference to another silo : the attempts, and the result. -/
def ask : List Attempted × Except GrainError R :=
  match msg.encoded with
  | .error reason => ([], .error (.remoteCallFailed reason))
  | .ok _ => attempts policy msg send policy.maxRetries 0

def sent : List ℕ :=
  (ask policy msg send).1.map Attempted.attempt

variable {policy msg send} {outcome : SendOutcome}

theorem isRetryable_of_remoteInvoke {e} (h : remoteInvoke msg outcome = .error e) :
    RetryPolicy.isRetryable e = true := by
  cases outcome with
  | answered error payload =>
    simp only [remoteInvoke] at h
    split_ifs at h
    · cases h
      rfl
    · cases hdecode : msg.decode payload with
      | ok value => simp [hdecode, Except.mapError] at h
      | error reason =>
        simp only [hdecode, Except.mapError] at h
        cases h
        rfl
  | _ =>
    cases h
    rfl

theorem remoteInvoke_of_applicationError (h : outcome.isApplicationError = true) (value) :
    remoteInvoke msg outcome ≠ .ok value := by
  cases outcome with
  | answered error payload =>
    have herror : error ≠ "" := by simpa [SendOutcome.isApplicationError] using h
    simp [remoteInvoke, herror]
  | _ => cases h

theorem mem_attempts {left a i} :
    i ∈ (attempts policy msg send left a).1.map Attempted.attempt ↔
      a ≤ i ∧ i ≤ a + left ∧
        ∀ k, a ≤ k → k < i → ∀ value, remoteInvoke msg (send k) ≠ .ok value := by
  induction left generalizing a with
  | zero =>
    simp only [attempts, attempted, map_cons, map_nil, mem_singleton, Nat.add_zero]
    constructor
    · rintro rfl
      exact ⟨le_rfl, le_rfl, fun k hk hlt => absurd hk (Nat.not_le.mpr hlt)⟩
    · rintro ⟨hle, hge, -⟩
      exact Nat.le_antisymm hge hle
  | succ left ih =>
    cases hres : remoteInvoke msg (send a) with
    | ok value =>
      simp only [attempts, hres, attempted, map_cons, map_nil, mem_singleton]
      constructor
      · rintro rfl
        exact ⟨le_rfl, Nat.le_add_right _ _, fun k hk hlt => absurd hk (Nat.not_le.mpr hlt)⟩
      · rintro ⟨hle, -, hfail⟩
        by_contra hne
        exact hfail a le_rfl (lt_of_le_of_ne hle (Ne.symm hne)) value hres
    | error e =>
      simp only [attempts, hres, isRetryable_of_remoteInvoke hres, if_true, attempted,
        map_cons, mem_cons, ih]
      constructor
      · rintro (rfl | ⟨hle, hge, hfail⟩)
        · exact ⟨le_rfl, Nat.le_add_right _ _, fun k hk hlt => absurd hk (Nat.not_le.mpr hlt)⟩
        · refine ⟨by omega, by omega, fun k hk hlt value => ?_⟩
          rcases Nat.eq_or_lt_of_le hk with rfl | hk
          · simp [hres]
          · exact hfail k hk hlt value
      · rintro ⟨hle, hge, hfail⟩
        rcases Nat.eq_or_lt_of_le hle with rfl | hlt
        · exact Or.inl rfl
        · exact Or.inr ⟨hlt, by omega, fun k hk => hfail k (by omega)⟩

theorem length_attempts_le {left a} : (attempts policy msg send left a).1.length ≤ left + 1 := by
  induction left generalizing a with
  | zero => exact le_rfl
  | succ left ih =>
    unfold attempts
    split
    · simp
    · split_ifs
      · exact Nat.succ_le_succ ih
      · simp

/-- An error of the application is not followed by another attempt exactly if it comes last or after
a result. -/
theorem application_error_final_iff {R : Type} (policy : RetryPolicy) (msg : NetworkMessage R)
    (send : ℕ → SendOutcome) :
    (ask policy msg send).1.length ≤ policy.maxRetries + 1 ∧
    ((∀ i ∈ sent policy msg send, (send i).isApplicationError = true →
        ∀ k ∈ sent policy msg send, k ≤ i) ↔
      (∃ reason, msg.encoded = .error reason) ∨
        ∀ i < policy.maxRetries, (send i).isApplicationError = true →
          ∃ k < i, ∃ value, remoteInvoke msg (send k) = .ok value) := by
  cases hencoded : msg.encoded with
  | error reason => simp [sent, ask, hencoded]
  | ok payload =>
    have hsent : ∀ i, i ∈ sent policy msg send ↔ i ≤ policy.maxRetries ∧
        ∀ k < i, ∀ value, remoteInvoke msg (send k) ≠ .ok value := by
      intro i
      rw [sent, ask, hencoded, mem_attempts]
      simp
    refine ⟨?_, ?_⟩
    · rw [ask, hencoded]
      exact length_attempts_le
    simp only [reduceCtorEq, exists_false, false_or]
    constructor
    · intro hfinal i hi happ
      by_contra hfail
      -- No attempt up to this one has a result, so the next one is sent as well.
      have hbefore :=  fun k hk value hvalue => hfail ⟨k, hk, value, hvalue⟩
      have hthis : ∀ value, remoteInvoke msg (send i) ≠ .ok value :=
        remoteInvoke_of_applicationError happ
      refine absurd (hfinal i ((hsent i).mpr ⟨hi.le, hbefore⟩) happ (i + 1)
        ((hsent (i + 1)).mpr ⟨hi, fun k hk => ?_⟩)) (Nat.not_succ_le_self i)
      rcases Nat.lt_succ_iff_lt_or_eq.mp hk with hk | rfl
      · exact hbefore k hk
      · exact hthis
    · intro hcond i hi happ k hk
      by_contra hlt
      obtain ⟨hkmax, -⟩ := (hsent k).mp hk
      obtain ⟨k', hk', value, hvalue⟩ := hcond i (by omega) happ
      exact ((hsent i).mp hi).2 k' hk' value hvalue

def transfer : NetworkMessage Unit where
  messageTypeName := "Transfer"
  messageVersion := 0
  encoded := .ok [1]
  decode _ := .ok ()

def unknownTransfer : SendOutcome :=
  .answered (ClusterError.unknownMessageType "Transfer").message []

/-- With the default policy the message is sent three times, each time to be refused. -/
theorem transfer_sent_thrice :
    unknownTransfer.isApplicationError = true ∧ ask .default transfer (fun _ => unknownTransfer) =
        ([⟨0, 0⟩, ⟨1, 100000000⟩, ⟨2, 200000000⟩],
          .error (.remoteCallFailed "unknown message type: Transfer")) := by
  exact ⟨by decide, rfl⟩

end ClusterGrainRef

end Orlando
