import Orlando.HandlerRefs

/-!
# Versions of messages

`register` takes down the version of a message type under the name of the type alone, so `dispatch`
compares with that of the last registration of the name.
-/

namespace Orlando

open List Option

variable {S : Type} {reg : MessageRegistry S}

namespace MessageRegistry

def registerAll (calls : List (Registration S)) : Option (MessageRegistry S) :=
  calls.foldlM register []

def Compatible (calls : List (Registration S)) : Prop :=
  ∀ q ∈ calls, ∀ r ∈ calls, q.grainType.grainTypeName = r.grainType.grainTypeName →
    q.grainType.typeName = r.grainType.typeName

def Rejects (reg : MessageRegistry S) (grainType messageType : String) (version : ℕ)
    (payload : Bytes) (encoding : Encoding) : Prop :=
  ∃ supported, reg.dispatch grainType messageType version payload encoding =
    .error (.unsupportedMessageVersion messageType version supported)

variable {calls calls' : List (Registration S)} {r : Registration S}

theorem compatible_cons_iff : Compatible (r :: calls) ↔ Compatible calls ∧ ∀ q ∈ calls,
    q.grainType.grainTypeName = r.grainType.grainTypeName →
      q.grainType.typeName = r.grainType.typeName := by
  simp only [Compatible, forall_mem_cons]
  grind

theorem register_eq_some_iff (h : Compatible calls) :
    register calls r = some reg ↔ Compatible (r :: calls) ∧ reg = r :: calls := by
  rw [compatible_cons_iff, and_iff_right h]
  unfold register
  cases hfind : calls.find? fun q => q.grainType.grainTypeName == r.grainType.grainTypeName with
  | none =>
    have hfits : ∀ q ∈ calls, q.grainType.grainTypeName = r.grainType.grainTypeName →
        q.grainType.typeName = r.grainType.typeName := by
      have hfresh : ∀ q ∈ calls, q.grainType.grainTypeName ≠ r.grainType.grainTypeName := by
        simpa using hfind
      exact fun q hq heq => absurd heq (hfresh q hq)
    rw [and_iff_right hfits]
    exact some_inj.trans eq_comm
  | some q =>
    have hq := mem_of_find?_eq_some hfind
    have hname : q.grainType.grainTypeName = r.grainType.grainTypeName := by
      simpa using find?_some hfind
    by_cases htype : q.grainType.typeName = r.grainType.typeName
    · rw [and_iff_right fun q' hq' heq => (h q' hq' q hq (heq.trans hname.symm)).trans htype]
      simp [htype, eq_comm]
    · simpa [htype] using fun hall => absurd (hall q hq hname) htype

/-- Registering panics exactly at a name that two Rust types have. -/
theorem registerAll_eq_some_iff :
    registerAll calls = some reg ↔ Compatible calls ∧ reg = calls.reverse := by
  induction calls using reverseRecOn generalizing reg with
  | nil => simp [registerAll, Compatible, eq_comm]
  | append_singleton calls r ih =>
    have hsnoc : registerAll (calls ++ [r]) = (registerAll calls).bind (register · r) := by
      simp [registerAll, foldlM_append]
    have hperm : ∀ l : List (Registration S), Compatible l.reverse ↔ Compatible l := fun l => by
      simp [Compatible]
    rw [hsnoc, bind_eq_some_iff, ← hperm (calls ++ [r]), reverse_append]
    simp only [ih, ← hperm calls]
    constructor
    · rintro ⟨_, ⟨hc, rfl⟩, hreg⟩
      exact (register_eq_some_iff hc).mp hreg
    · intro hreg
      have hc := (compatible_cons_iff.mp hreg.1).1
      exact ⟨_, ⟨hc, rfl⟩, (register_eq_some_iff hc).mpr hreg⟩

end MessageRegistry

def Registration.Decodes (r : Registration S) : Prop :=
  ∀ encoding payload messageType version supported,
    r.decode encoding payload ≠ .error (.unsupportedMessageVersion messageType version supported)

namespace MessageRegistry

variable {calls : List (Registration S)} {r q : Registration S}

theorem rejects_iff {m} (hdecode : ∀ r ∈ reg, r.Decodes) (hr : r ∈ reg)
    (hm : reg.find? (fun r => r.messageType == m) = some q) {v payload encoding} :
    reg.Rejects r.grainType.grainTypeName m v payload encoding ↔ q.messageVersion < v := by
  have hgrain : reg.grainTypeStr r.grainType.grainTypeName = some r.grainType.grainTypeName := by
    have hsome : (reg.find? fun q =>
        q.grainType.grainTypeName == r.grainType.grainTypeName).isSome :=
      find?_isSome.mpr ⟨r, hr, by simp⟩
    obtain ⟨g, hg⟩ := isSome_iff_exists.mp hsome
    rw [grainTypeStr, hg, map_some, some.injEq]
    simpa using find?_some hg
  simp only [Rejects, dispatch, hgrain, hm]
  by_cases hv : q.messageVersion < v
  · simp [hv]
  · simp only [hv, if_false, iff_false]
    rintro ⟨supported, hreject⟩
    split at hreject
    · cases hreject
    · next r' hfind =>
      cases hread : r'.decode encoding payload with
      | error e =>
        rw [hread] at hreject
        cases hreject
        exact hdecode r' (mem_of_find?_eq_some hfind) _ _ _ _ _ hread
      | ok env =>
        rw [hread] at hreject
        cases hreject

/-- The requests for every registered pair are accepted by the version registered for it, in
whatever order, exactly if all registrations of the message type are of one version. -/
theorem versions_follow_pairs_iff (m : String) (hdecode : ∀ r ∈ calls, r.Decodes)
    (hcalls : (registerAll calls).isSome) :
    (∀ calls', calls'.Perm calls → ∀ reg, registerAll calls' = some reg →
      ∀ r ∈ calls, r.messageType = m → ∀ v payload encoding,
        reg.Rejects r.grainType.grainTypeName m v payload encoding ↔ r.messageVersion < v) ↔
    ∀ q ∈ calls, ∀ r ∈ calls, q.messageType = m → r.messageType = m →
      q.messageVersion = r.messageVersion := by
  obtain ⟨reg₀, hreg₀⟩ := isSome_iff_exists.mp hcalls
  have hcompatible := (registerAll_eq_some_iff.mp hreg₀).1
  have hnewest : ∀ calls', calls'.Perm calls → ∀ reg, registerAll calls' = some reg →
      ∀ r ∈ calls, r.messageType = m → ∃ q ∈ calls, q.messageType = m ∧
        reg.find? (fun r => r.messageType == m) = some q ∧ ∀ v payload encoding,
          reg.Rejects r.grainType.grainTypeName m v payload encoding ↔ q.messageVersion < v := by
    intro calls' hperm reg hreg r hr hrm
    obtain ⟨-, rfl⟩ := registerAll_eq_some_iff.mp hreg
    have hmem : ∀ x, x ∈ calls'.reverse ↔ x ∈ calls := fun x =>
      mem_reverse.trans hperm.mem_iff
    have hsome : (calls'.reverse.find? fun r => r.messageType == m).isSome :=
      find?_isSome.mpr ⟨r, (hmem r).mpr hr, by simpa using hrm⟩
    obtain ⟨q, hq⟩ := isSome_iff_exists.mp hsome
    exact ⟨q, (hmem q).mp (mem_of_find?_eq_some hq), by simpa using find?_some hq, hq,
      fun v payload encoding => rejects_iff (fun x hx => hdecode x ((hmem x).mp hx))
        ((hmem r).mpr hr) hq⟩
  constructor
  · intro hall q hq r hr hqm hrm
    -- Let `q` be registered last.
    obtain ⟨before, after, rfl⟩ := append_of_mem hq
    have hperm : (before ++ after ++ [q]).Perm (before ++ q :: after) := by
      rw [append_assoc]
      exact (perm_append_singleton q after).append_left before
    have hreg : registerAll (before ++ after ++ [q]) = some (before ++ after ++ [q]).reverse :=
      registerAll_eq_some_iff.mpr ⟨fun x hx y hy => hcompatible x (hperm.mem_iff.mp hx) y
        (hperm.mem_iff.mp hy), rfl⟩
    obtain ⟨q', -, -, hfind, hq'⟩ := hnewest _ hperm _ hreg r hr hrm
    have heq : q = q' := by simpa [hqm] using hfind
    have hlt : ∀ v, r.messageVersion < v ↔ q.messageVersion < v := fun v =>
      (hall _ hperm _ hreg r hr hrm v [] .bincode).symm.trans (heq ▸ hq' v [] .bincode)
    have := hlt q.messageVersion
    have := hlt r.messageVersion
    omega
  · intro hone calls' hperm reg hreg r hr hrm v payload encoding
    obtain ⟨q, hq, hqm, -, hrejects⟩ := hnewest calls' hperm reg hreg r hr hrm
    rw [hrejects, hone q hq r hr hqm hrm]

def reads (grain : String) (version : ℕ) : Registration Unit where
  grainType := ⟨"app::" ++ grain, grain, none, ⟨(), .ok, .ok, false⟩⟩
  messageType := "Read"
  messageVersion := version
  decode := fun _ _ => .error (.deserialization "empty payload")

theorem decodes_reads (grain version) : (reads grain version).Decodes := by
  simp [reads, Registration.Decodes]

theorem versions_follow_pairs_same :
    ∃ reg, registerAll [reads "Counter" 1, reads "Gauge" 1] = some reg ∧
      (reg.Rejects "Counter" "Read" 2 [] .bincode ↔ 1 < 2) :=
  have hdecode : ∀ r ∈ [reads "Counter" 1, reads "Gauge" 1], r.Decodes := by
    simp [decodes_reads]
  ⟨_, rfl, (versions_follow_pairs_iff "Read" hdecode rfl).mpr (by simp [reads]) _
    (List.Perm.refl _) _ rfl (reads "Counter" 1) (by simp) rfl 2 [] .bincode⟩

/-- The counter is registered with version 2, and rejects it if the gauge comes after it. -/
theorem version_of_other_grain :
    (∃ reg, registerAll [reads "Counter" 2, reads "Gauge" 1] = some reg ∧
      reg.Rejects "Counter" "Read" 2 [] .bincode) ∧
    ∃ reg, registerAll [reads "Gauge" 1, reads "Counter" 2] = some reg ∧
      ¬reg.Rejects "Counter" "Read" 2 [] .bincode :=
  ⟨⟨_, rfl, 1, rfl⟩, _, rfl, fun ⟨_, h⟩ => by cases h⟩

/-- The registration is of the pair of names that the request has. -/
def Names (req : InvokeRequest) (r : Registration S) : Prop :=
  r.grainType.grainTypeName = req.grainType ∧ r.messageType = req.messageType

/-- The last of the calls that meet `p`. -/
def Last (p : Registration S → Prop) (calls : List (Registration S)) (r : Registration S) : Prop :=
  ∃ before after, calls = before ++ r :: after ∧ p r ∧ ∀ q ∈ after, ¬p q

/-- The reasons to turn a request away, for the registrations in the order they were made. -/
inductive Rejection (calls : List (Registration S)) (req : InvokeRequest) : ClusterError → Prop
  | grainType (h : ∀ r ∈ calls, r.grainType.grainTypeName ≠ req.grainType) :
    Rejection calls req (.unknownGrainType req.grainType)
  | messageType (h : ∀ r ∈ calls, r.messageType ≠ req.messageType) :
    Rejection calls req (.unknownMessageType req.messageType)
  | version {q : Registration S} (hq : Last (·.messageType = req.messageType) calls q)
    (hv : q.messageVersion < req.messageVersion) :
    Rejection calls req
      (.unsupportedMessageVersion req.messageType req.messageVersion q.messageVersion)
  | pair (h : ∀ r ∈ calls, ¬Names req r) :
    Rejection calls req (.unknownMessageType (req.grainType ++ "::" ++ req.messageType))
  | payload {r e} (hr : Last (Names req) calls r)
    (he : r.decode (.fromProto req.encoding) req.payload = .error e) : Rejection calls req e

theorem find?_reverse_cases (p : Registration S → Bool) (calls) :
    (calls.reverse.find? p = none ∧ ∀ r ∈ calls, ¬p r) ∨
      ∃ r, calls.reverse.find? p = some r ∧ Last (p ·) calls r := by
  cases hfind : calls.reverse.find? p with
  | none => exact .inl ⟨rfl, by simpa using hfind⟩
  | some r =>
    obtain ⟨hr, after, before, heq, hafter⟩ := find?_eq_some_iff_append.mp hfind
    refine .inr ⟨r, rfl, before.reverse, after.reverse, ?_, hr, by simpa using hafter⟩
    simpa using congrArg reverse heq

theorem dispatch_cases (calls : List (Registration S)) (req) :
    (∃ e, Rejection calls req e ∧ dispatch calls.reverse req.grainType req.messageType
      req.messageVersion req.payload (.fromProto req.encoding) = .error e) ∨
    ∃ r env, Last (Names req) calls r ∧ r.decode (.fromProto req.encoding) req.payload = .ok env ∧
      dispatch calls.reverse req.grainType req.messageType req.messageVersion req.payload
        (.fromProto req.encoding) = .ok (r.grainType, env) := by
  rcases find?_reverse_cases (fun r => r.grainType.grainTypeName == req.grainType) calls with
    ⟨hfind, hn⟩ | ⟨g, hfind, -, -, -, hg, -⟩
  · exact .inl ⟨_, .grainType (by simpa using hn), by simp [dispatch, grainTypeStr, hfind]⟩
  have hgrain : grainTypeStr calls.reverse req.grainType = some req.grainType := by
    simpa [grainTypeStr, hfind] using hg
  rcases find?_reverse_cases (fun r => r.messageType == req.messageType) calls with
    ⟨hm, hn⟩ | ⟨q, hm, hq⟩
  · exact .inl ⟨_, .messageType (by simpa using hn), by simp [dispatch, hgrain, hm]⟩
  by_cases hv : q.messageVersion < req.messageVersion
  · exact .inl ⟨_, .version (by simpa using hq) hv, by simp [dispatch, hgrain, hm, hv]⟩
  rcases find?_reverse_cases (fun r => r.grainType.grainTypeName == req.grainType &&
      r.messageType == req.messageType) calls with ⟨hpair, hn⟩ | ⟨r, hpair, hr⟩
  · exact .inl ⟨_, .pair (by simpa [Names] using hn), by simp [dispatch, hgrain, hm, hv, hpair]⟩
  replace hr : Last (Names req) calls r := by simpa [Last, Names] using hr
  cases hread : r.decode (.fromProto req.encoding) req.payload with
  | error e =>
    exact .inl ⟨e, .payload hr hread, by simp [dispatch, hgrain, hm, hv, hpair, hread, Except.map]⟩
  | ok env =>
    exact .inr ⟨r, env, hr, hread, by simp [dispatch, hgrain, hm, hv, hpair, hread, Except.map]⟩

/-- The handler of a request is that of the last registration of its pair of names, and a request
that is turned away changes nothing. -/
theorem dispatch_rejects_or_activates (calls : List (Registration S)) (node : Node S)
    (hreg : registerAll calls = some node.registry) (req : InvokeRequest) :
    (∃ e, Rejection calls req e ∧ node.dispatch req = (.done (.failed e), node.silo)) ∨
    ∃ r env, Last (Names req) calls r ∧
      r.decode (.fromProto req.encoding) req.payload = .ok env ∧
      node.dispatch req =
        let activated := node.silo.activate (r.grainType.id req.grainKey) (.plain r.grainType.grain)
        (activated.1.elim (.done .closed) (.calling · env), activated.2) := by
  have hcalls := (registerAll_eq_some_iff.mp hreg).2
  unfold Node.dispatch
  rw [hcalls]
  rcases dispatch_cases calls req with ⟨e, he, heq⟩ | ⟨r, env, hr, hread, heq⟩
  · exact .inl ⟨e, he, by rw [heq]⟩
  · refine .inr ⟨r, env, hr, hread, ?_⟩
    rw [heq]
    rcases hact : node.silo.activate (r.grainType.id req.grainKey) (.plain r.grainType.grain) with
      ⟨_ | i, silo⟩ <;> simp only [hact, elim_none, elim_some]

open Cluster (exampleNode siloA addRegistration) in
theorem dispatch_rejects_reset :
    ∃ e, Rejection [addRegistration] ⟨"Counter", "k", "Reset", [], 0, ∅, 0⟩ e ∧
      (exampleNode siloA (.init Shared.empty)).dispatch ⟨"Counter", "k", "Reset", [], 0, ∅, 0⟩ =
        (.done (.failed e), .init Shared.empty) := by
  refine (dispatch_rejects_or_activates [addRegistration] (exampleNode siloA (.init Shared.empty))
    rfl ⟨"Counter", "k", "Reset", [], 0, ∅, 0⟩).resolve_right ?_
  rintro ⟨r, env, ⟨before, after, heq, ⟨-, hr⟩, -⟩, -⟩
  have hmem : r ∈ [addRegistration] := heq ▸ by simp
  rw [mem_singleton.mp hmem] at hr
  exact absurd hr (by decide)

end MessageRegistry

end Orlando
