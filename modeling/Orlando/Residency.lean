import Mathlib.Data.List.Infix
import Orlando.Promotion

/-!
# Data residency

A grain type may be restricted to some clusters (`allowed_clusters`). The transport looks at the
restriction only where a call finds no record of the grain. A call whose lookup fails, or whose
record names a cluster without an endpoint, a local reference, the failover manager and a record of
another grain with the same `type/key` do not look at it (`outside_the_list`).
-/

namespace Orlando

open List Clusters CrossClusterDirectory

inductive ResidencyEvent
  | transport (e : ClustersEvent)
  /-- A reference that `get_ref` has made is to an activation of its own silo, and is
  used. -/
  | getRef (c : ClusterId) (gid : GrainId)
  /-- The failover manager of a cluster promotes a grain that it has listed. -/
  | promote (c : ClusterId) (gid : GrainId) (current : GrainOwnership)
deriving DecidableEq

namespace Residency

def step (cfg : GlobalConfig) (w : Clusters) : ResidencyEvent → Option Clusters
  | .transport e => w.step cfg e
  | .getRef c gid => some { w with dispatched := w.dispatched ++ [(gid, c)] }
  | .promote c gid current =>
    some { w with directory := (w.directory.promoteGrain c gid current).1 }

def SharesKey (typeName : String) (gid : GrainId) : Prop :=
  (typeName ++ "/").toList <+: (CrossClusterDirectory.key gid).toList

instance instDecidableSharesKey (typeName : String) (gid : GrainId) :
    Decidable (SharesKey typeName gid) :=
  inferInstanceAs (Decidable (_ <+: _))

/-- Outside the list, lookups of the type succeed, owners are known peers, no local reference is
made, nothing is promoted, and no other grain has the key of one. -/
def resident (cfg : GlobalConfig) (typeName : String) (allowed : List String) (w : Clusters) :
    ResidencyEvent → Bool
  | .transport (.lookup k fault) =>
    match w.calls[k]? with
    | some ⟨c, gid, .arrived⟩ =>
      gid.typeName ≠ typeName || c.name ∈ allowed || !cfg.resolves c typeName ||
        (!fault && match w.directory.owner gid with
          | some o => o.clusterId ∈ cfg.peers c
          | none => true)
    | _ => true
  | .transport (.register k _) =>
    match w.calls[k]? with
    | some ⟨c, gid, .registering⟩ =>
      gid.typeName = typeName || c.name ∈ allowed || ¬SharesKey typeName gid
    | _ => true
  | .transport _ => true
  | .getRef c gid => gid.typeName ≠ typeName || c.name ∈ allowed
  | .promote c gid _ => c.name ∈ allowed || ¬SharesKey typeName gid

variable {cfg : GlobalConfig} {typeName : String} {allowed : List String} {w w' : Clusters}
  {gid : GrainId} {c : ClusterId}

/-! ## Where a call is left to -/

variable (cfg typeName allowed) in
/-- A call of the type is left to a cluster of the list, or to one that does not know the
type, and only a cluster of the list registers itself. -/
structure Bound (call : GlobalCall) : Prop where
  registering : call.phase = .registering → call.cluster.name ∈ allowed
  host : ∀ c, call.host = some c → c.name ∈ allowed ∨ cfg.resolves c typeName = false

variable (typeName allowed) in
def Recorded (d : CrossClusterDirectory) : Prop :=
  ∀ gid o, gid.typeName = typeName → d.owner gid = some o → o.clusterId.name ∈ allowed

variable (cfg typeName allowed w) in
/-- No dispatch, past or to come, and no record is outside the list. -/
structure Confined : Prop where
  recorded : Recorded typeName allowed w.directory
  calls : ∀ call ∈ w.calls, call.gid.typeName = typeName → Bound cfg typeName allowed call
  dispatched : ∀ gid c, gid.typeName = typeName → (gid, c) ∈ w.dispatched → c.name ∈ allowed

theorem Bound.of_idle {phase} (hreg : phase ≠ .registering)
    (hhost : GlobalCall.host ⟨c, gid, phase⟩ = none) :
    Bound cfg typeName allowed ⟨c, gid, phase⟩ where
  registering h := absurd h hreg
  host c' hc' := absurd hc' (by simp [hhost])

theorem Bound.checked (h : c.name ∈ allowed ∨ cfg.resolves c typeName = false) :
    Bound cfg typeName allowed ⟨c, gid, .checked⟩ where
  registering h := nomatch h
  host c' hc' := by
    obtain rfl : c = c' := Option.some.inj hc'
    exact h

theorem Bound.forwarded {c target} (h : target.name ∈ allowed) :
    Bound cfg typeName allowed ⟨c, gid, .forwarded target⟩ where
  registering h := nomatch h
  host c' hc' := by
    obtain rfl : target = c' := Option.some.inj hc'
    exact .inl h

/-- The answer of the directory leaves a call to a cluster of the list, if the owner on
record is one and can be reached from outside. -/
theorem bound_afterLookup {owner} (hallowed : cfg.allowedClusters c gid.typeName = some allowed)
    (howner : ∀ o, owner = some o → o.clusterId.name ∈ allowed)
    (hpeer : ∀ o, owner = some o → c.name ∈ allowed ∨ o.clusterId ∈ cfg.peers c) :
    Bound cfg typeName allowed ⟨c, gid, afterLookup cfg c gid owner⟩ := by
  cases owner with
  | some o =>
    simp only [afterLookup]
    split_ifs with hlocal hknown
    · exact .checked (.inl (hlocal ▸ howner o rfl))
    · exact .forwarded (howner o rfl)
    · exact .checked (.inl ((hpeer o rfl).resolve_right hknown))
  | none =>
    simp only [afterLookup, hallowed]
    split_ifs with hc
    · exact ⟨fun _ => hc, fun c' hc' => (by cases hc')⟩
    · cases hfind : allowed.find? fun name => ⟨name⟩ ∈ cfg.peers c with
      | some name => exact .forwarded (mem_of_find?_eq_some hfind)
      | none => exact .of_idle (by simp) rfl

/-! ## Records -/

theorem sharesKey_of_key_eq {gid gid'} (hgid : gid.typeName = typeName)
    (hkey : key gid = key gid') : SharesKey typeName gid' := by
  rw [SharesKey, ← hkey, key, hgid]
  simp only [String.toList_append]
  exact prefix_append ..

theorem Recorded.register {d} (h : Recorded typeName allowed d)
    (hc : SharesKey typeName gid → c.name ∈ allowed) (epoch) :
    Recorded typeName allowed (d.register gid c epoch).1 := by
  intro gid' o hgid' ho
  rcases register_eq d gid c epoch with ⟨_, -, -, heq⟩ | ⟨-, heq⟩
  · rw [heq] at ho
    exact h gid' o hgid' ho
  · rw [heq, owner_insert] at ho
    split_ifs at ho with hkey
    · cases ho
      exact hc (sharesKey_of_key_eq hgid' hkey)
    · exact h gid' o hgid' ho

/-! ## Runs -/

section

variable (h : Confined cfg typeName allowed w) {gid : GrainId} {c : ClusterId}
include h

theorem Confined.setPhase {k phase phase'}
    (hb : gid.typeName = typeName → Bound cfg typeName allowed ⟨c, gid, phase'⟩) :
    Confined cfg typeName allowed (w.setPhase k ⟨c, gid, phase⟩ phase') where
  recorded := h.recorded
  calls call hcall := by
    rcases mem_or_eq_of_mem_set hcall with hmem | rfl
    · exact h.calls call hmem
    · exact hb
  dispatched := h.dispatched

theorem Confined.dispatch (hc : gid.typeName = typeName → c.name ∈ allowed) :
    Confined cfg typeName allowed { w with dispatched := w.dispatched ++ [(gid, c)] } where
  recorded := h.recorded
  calls := h.calls
  dispatched gid' c' hgid' hmem := by
    rcases mem_append.mp hmem with hold | hnew
    · exact h.dispatched gid' c' hgid' hold
    · obtain ⟨rfl, rfl⟩ := Prod.mk.inj (mem_singleton.mp hnew)
      exact hc hgid'

theorem Confined.answer {k c host phase}
    (hk : w.calls[k]? = some ⟨c, gid, phase⟩) (hhost : GlobalCall.host ⟨c, gid, phase⟩ =
      some host) :
    Confined cfg typeName allowed (w.answer cfg k ⟨c, gid, phase⟩ host) := by
  have hset : Confined cfg typeName allowed (w.setPhase k ⟨c, gid, phase⟩ .answered) :=
    h.setPhase fun _ => .of_idle (by simp) rfl
  unfold Clusters.answer
  split_ifs with hres
  · refine hset.dispatch fun hgid => ?_
    subst hgid
    exact ((h.calls _ (mem_of_getElem? hk) rfl).host host hhost).resolve_right (by simp [hres])
  · exact hset

theorem Confined.register {epoch} (hc : SharesKey typeName gid → c.name ∈ allowed) :
    Confined cfg typeName allowed { w with directory := (w.directory.register gid c epoch).1 } where
  recorded := h.recorded.register hc epoch
  calls := h.calls
  dispatched := h.dispatched

section

variable (hcfg : ∀ c, cfg.resolves c typeName = true →
  cfg.allowedClusters c typeName = some allowed)
include hcfg

theorem Confined.transport {e} (hg : resident cfg typeName allowed w (.transport e) = true)
    (hstep : w.step cfg e = some w') : Confined cfg typeName allowed w' := by
  cases move_of_step hstep with
  | invoke c gid =>
    refine ⟨h.recorded, fun call hcall => ?_, h.dispatched⟩
    rcases mem_append.mp hcall with hmem | hnew
    · exact h.calls call hmem
    · obtain rfl := mem_singleton.mp hnew
      exact fun _ => .of_idle (by simp) rfl
  | skip hk hskip =>
    refine h.setPhase fun hgid => .checked ?_
    subst hgid
    rcases hskip with hres | rfl
    · exact .inr hres
    · simpa [resident, hk] using hg
  | @lookup k c gid hk hres =>
    refine h.setPhase fun hgid => ?_
    subst hgid
    refine bound_afterLookup (hcfg c hres) (fun o ho => h.recorded gid o rfl ho) fun o ho => ?_
    simpa [resident, hk, hres, ho] using hg
  | @register k fault c gid hk =>
    -- A grain of the type is registered by a cluster that has found itself in the list.
    have hc : SharesKey typeName gid → c.name ∈ allowed := by
      intro hshares
      by_cases hgid : gid.typeName = typeName
      · exact (h.calls _ (mem_of_getElem? hk) hgid).registering rfl
      · simpa [resident, hk, hgid, hshares] using hg
    have hset : Confined cfg typeName allowed (w.setPhase k ⟨c, gid, .registering⟩ .checked) :=
      h.setPhase fun hgid =>
        .checked (.inl ((h.calls _ (mem_of_getElem? hk) hgid).registering rfl))
    cases fault with
    | true => exact hset
    | false => exact hset.register hc
  | reroute hk => exact h.setPhase fun _ => .of_idle (by simp) rfl
  | dispatch hk | receive hk => exact h.answer hk rfl

theorem Confined.step {e} (hg : resident cfg typeName allowed w e = true)
    (hs : step cfg w e = some w') : Confined cfg typeName allowed w' := by
  cases e with
  | transport e => exact h.transport hcfg hg hs
  | getRef c gid =>
    cases hs
    exact h.dispatch fun hgid => by simpa [resident, hgid] using hg
  | promote c gid current =>
    cases hs
    exact h.register fun hshares => by simpa [resident, hshares] using hg

end

end

/-- As long as outside the list no lookup fails and no reference or promotion is made, neither
dispatches nor records leave it. -/
theorem resident_of_run (cfg : GlobalConfig) (typeName : String) (allowed : List String)
    (d : CrossClusterDirectory) (es : List ResidencyEvent) (w : Clusters)
    (hcfg : ∀ c, cfg.resolves c typeName = true → cfg.allowedClusters c typeName = some allowed)
    (hd : ∀ gid o, gid.typeName = typeName → d.owner gid = some o → o.clusterId.name ∈ allowed)
    (hguard : Along (step cfg) (fun u e => resident cfg typeName allowed u e = true)
      (Clusters.init d) es)
    (hrun : exec (step cfg) (Clusters.init d) es = some w) :
    (∀ gid c, gid.typeName = typeName → (gid, c) ∈ w.dispatched → c.name ∈ allowed) ∧
      ∀ gid o, gid.typeName = typeName → w.directory.owner gid = some o →
        o.clusterId.name ∈ allowed := by
  have hinit : Confined cfg typeName allowed (Clusters.init d) :=
    ⟨hd, fun _ h => (by cases h), fun _ _ _ h => (by cases h)⟩
  have hinv := exec_invariant (fun _ _ _ hg h hstep => h.step hcfg hg hstep) hinit hguard hrun
  exact ⟨hinv.dispatched, hinv.recorded⟩

/-- A call outside the list is forwarded and dispatched inside, and one inside is registered. -/
def insideTheList : List ResidencyEvent :=
  [.transport (.invoke ⟨"us"⟩ ⟨"Counter", "k"⟩), .transport (.lookup 0 false),
    .transport (.receive 0), .transport (.invoke ⟨"eu"⟩ ⟨"Counter", "k"⟩),
    .transport (.lookup 1 false), .transport (.register 1 false), .transport (.dispatch 1),
    .getRef ⟨"eu"⟩ ⟨"Counter", "k"⟩, .promote ⟨"uk"⟩ ⟨"Counter", "k"⟩ ⟨⟨"eu"⟩, 1⟩]

theorem resident_insideTheList :
    ∃ w, exec (step (twoClusters (some ["eu", "uk"]))) (Clusters.init ∅) insideTheList =
        some w ∧ w.dispatched.length = 3 ∧
      w.directory.owner ⟨"Counter", "k"⟩ = some ⟨⟨"uk"⟩, 2⟩ ∧
      ∀ gid c, gid.typeName = "Counter" → (gid, c) ∈ w.dispatched → c.name ∈ ["eu", "uk"] :=
  ⟨_, rfl, rfl, rfl, (resident_of_run (twoClusters (some ["eu", "uk"])) "Counter"
    ["eu", "uk"] ∅ insideTheList _ (fun _ _ => rfl) (fun _ _ _ h => (by cases h))
    (by decide +kernel) rfl).1⟩

def apart : GlobalConfig where
  peers _ := []
  allowedClusters _ typeName := if typeName = "Counter" then some ["eu"] else none
  resolves _ _ := true

/-- A type restricted to `eu` : `us` dispatches it after a failed lookup, by a local reference and
without an endpoint for the owner, and owns it by a promotion and by a grain under the same key. -/
theorem outside_the_list :
    (∃ w, exec (step (twoClusters (some ["eu"]))) (Clusters.init ∅)
        [.transport (.invoke ⟨"us"⟩ ⟨"Counter", "k"⟩), .transport (.lookup 0 true),
          .transport (.dispatch 0), .getRef ⟨"us"⟩ ⟨"Counter", "j"⟩] = some w ∧
      w.dispatched = [(⟨"Counter", "k"⟩, ⟨"us"⟩), (⟨"Counter", "j"⟩, ⟨"us"⟩)]) ∧
    (∃ w, exec (step (twoClusters (some ["eu"]))) (Clusters.init ∅)
        [.transport (.invoke ⟨"eu"⟩ ⟨"Counter", "k"⟩), .transport (.lookup 0 false),
          .transport (.register 0 false), .promote ⟨"us"⟩ ⟨"Counter", "k"⟩ ⟨⟨"eu"⟩, 1⟩,
          .transport (.invoke ⟨"us"⟩ ⟨"Counter", "k"⟩), .transport (.lookup 1 false),
          .transport (.dispatch 1)] = some w ∧
      w.directory.owner ⟨"Counter", "k"⟩ = some ⟨⟨"us"⟩, 2⟩ ∧
      w.dispatched = [(⟨"Counter", "k"⟩, ⟨"us"⟩)]) ∧
    (∃ w, exec (step apart) (Clusters.init ∅)
        [.transport (.invoke ⟨"eu"⟩ ⟨"Counter", "k"⟩), .transport (.lookup 0 false),
          .transport (.register 0 false), .transport (.invoke ⟨"us"⟩ ⟨"Counter", "k"⟩),
          .transport (.lookup 1 false), .transport (.dispatch 1)] = some w ∧
      w.dispatched = [(⟨"Counter", "k"⟩, ⟨"us"⟩)]) ∧
    ∃ w, exec (step apart) (Clusters.init ∅)
        [.transport (.invoke ⟨"us"⟩ ⟨"Counter/a", "b"⟩), .transport (.lookup 0 false),
          .transport (.register 0 false)] = some w ∧
      w.directory.owner ⟨"Counter", "a/b"⟩ = some ⟨⟨"us"⟩, 1⟩ :=
  ⟨⟨_, rfl, rfl⟩, ⟨_, rfl, rfl, rfl⟩, ⟨_, rfl, rfl⟩, _, rfl, rfl⟩

end Residency

end Orlando
