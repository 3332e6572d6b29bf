import Mathlib.Data.List.AList
import Orlando.Grain
import Orlando.Transition

/-!
# Clusters that share a directory of grain owners

`CrossClusterDirectory` records for each grain the cluster it runs in. A cluster looks a grain up
before it dispatches a call (`check_cross_cluster`), forwards the call to the recorded owner, and
registers itself where there is no record. The answer, which names the owner, is thrown away. So two
clusters that look up at the same time both dispatch the grain, and a call that is forwarded for
data residency is dispatched without any record (`two_clusters_dispatch`).
-/

namespace Orlando

open List

structure ClusterId where
  name : String
deriving DecidableEq, Repr

/-- The owner of a grain, with the fencing epoch it was registered at. -/
structure GrainOwnership where
  clusterId : ClusterId
  epoch : ℕ
deriving DecidableEq, Repr

abbrev CrossClusterDirectory := AList fun _ : String => GrainId × GrainOwnership

variable {d : CrossClusterDirectory}

namespace CrossClusterDirectory

def key (gid : GrainId) : String :=
  gid.typeName ++ "/" ++ gid.key

def owner (d : CrossClusterDirectory) (gid : GrainId) : Option GrainOwnership :=
  (d.lookup (key gid)).map Prod.snd

/-- `register` : the first cluster wins, unless a later one comes with a higher epoch.
The answer is the owner afterwards. -/
def register (d : CrossClusterDirectory) (gid : GrainId) (c : ClusterId) (epoch : ℕ) :
    CrossClusterDirectory × GrainOwnership :=
  let ownership : GrainOwnership := ⟨c, epoch⟩
  match d.lookup (key gid) with
  | some (_, existing) =>
    if existing.clusterId ≠ c ∧ epoch ≤ existing.epoch then (d, existing)
    else if existing.clusterId = c ∧ epoch ≤ existing.epoch then (d, existing)
    else (d.insert (key gid) (gid, ownership), ownership)
  | none => (d.insert (key gid) (gid, ownership), ownership)

def Names (d : CrossClusterDirectory) (gid : GrainId) (c : ClusterId) : Prop :=
  ∃ o, d.owner gid = some o ∧ o.clusterId = c

def Epochs (d : CrossClusterDirectory) : Prop :=
  ∀ gid o, d.owner gid = some o → 1 ≤ o.epoch

variable {gid gid' : GrainId} {c c' : ClusterId} {o : GrainOwnership}

theorem register_cases (hd : d.Epochs) (gid c) :
    ((d.register gid c 1).1 = d ∧ (d.register gid c 1).2 = (d.owner gid).getD ⟨c, 1⟩ ∧
      (d.owner gid).isSome = true) ∨
    (d.owner gid = none ∧ (d.register gid c 1).1 = d.insert (key gid) (gid, ⟨c, 1⟩) ∧
      (d.register gid c 1).2 = ⟨c, 1⟩) := by
  unfold register
  cases hl : d.lookup (key gid) with
  | none => exact Or.inr ⟨by simp [owner, hl], rfl, rfl⟩
  | some r =>
    have ho : d.owner gid = some r.2 := by simp [owner, hl]
    have he : 1 ≤ r.2.epoch := hd gid r.2 ho
    left
    by_cases hc : r.2.clusterId = c
    · simp [hc, he, ho]
    · simp [hc, he, ho]

theorem owner_congr (hk : key gid' = key gid) : d.owner gid' = d.owner gid := by
  unfold owner
  rw [hk]

theorem owner_insert_of_none (h : d.owner gid = none) {o'} (h' : d.owner gid' = some o') :
    CrossClusterDirectory.owner (d.insert (key gid) (gid, o)) gid' = some o' := by
  have hk : key gid' ≠ key gid := by
    intro hk
    rw [owner_congr hk, h] at h'
    cases h'
  simpa [owner, AList.lookup_insert_ne hk] using h'

theorem owner_insert_self :
    CrossClusterDirectory.owner (d.insert (key gid) (gid, o)) gid = some o := by
  simp [owner]

theorem Names.register (hd : d.Epochs) (h : d.Names gid' c') (gid c) :
    (d.register gid c 1).1.Names gid' c' := by
  rcases register_cases hd gid c with ⟨hsame, -, -⟩ | ⟨hnone, hins, -⟩
  · rwa [hsame]
  · obtain ⟨o, ho, hc⟩ := h
    rw [hins]
    exact ⟨o, owner_insert_of_none hnone ho, hc⟩

theorem names_register_self (hd : d.Epochs)
    (h : ∀ o, d.owner gid = some o → o.clusterId = c) : (d.register gid c 1).1.Names gid c := by
  rcases register_cases hd gid c with ⟨hsame, -, hsome⟩ | ⟨-, hins, -⟩
  · obtain ⟨o, ho⟩ := Option.isSome_iff_exists.mp hsome
    rw [hsame]
    exact ⟨o, ho, h o ho⟩
  · rw [hins]
    exact ⟨⟨c, 1⟩, owner_insert_self, rfl⟩

theorem Epochs.register (hd : d.Epochs) (gid c) : (d.register gid c 1).1.Epochs := by
  rcases register_cases hd gid c with ⟨hsame, -, -⟩ | ⟨hnone, hins, -⟩
  · rwa [hsame]
  · intro gid' o ho
    rw [hins] at ho
    by_cases hk : key gid' = key gid
    · rw [owner_congr hk, owner_insert_self] at ho
      cases ho
      exact Nat.le_refl 1
    · rw [owner, AList.lookup_insert_ne hk] at ho
      exact hd gid' o ho

end CrossClusterDirectory

/-! ## Transports and gateways -/

/-- The endpoints a cluster has, where it allows a grain type, and the grain types it has
registered. -/
structure GlobalConfig where
  peers : ClusterId → List ClusterId
  allowedClusters : ClusterId → String → Option (List String)
  resolves : ClusterId → String → Bool

inductive GlobalPhase where
  /-- At the transport of the silo that owns the grain in its cluster. -/
  | arrived
  /-- No record was found, the cluster is about to register itself. -/
  | registering
  /-- `check_cross_cluster` has left the call to its cluster. -/
  | checked
  | forwarded (target : ClusterId)
  | rejected
  | answered
deriving DecidableEq, Repr

structure GlobalCall where
  cluster : ClusterId
  gid : GrainId
  phase : GlobalPhase
deriving DecidableEq, Repr

def GlobalCall.host (call : GlobalCall) : Option ClusterId :=
  match call.phase with
  | .checked => some call.cluster
  | .forwarded target => some target
  | _ => none

structure Clusters where
  directory : CrossClusterDirectory
  calls : List GlobalCall
  dispatched : List (GrainId × ClusterId)

inductive ClustersEvent where
  | invoke (c : ClusterId) (gid : GrainId)
  | lookup (k : ℕ) (fault : Bool)
  | register (k : ℕ) (fault : Bool)
  /-- Another silo of the cluster has the grain active and gets the call. -/
  | reroute (k : ℕ)
  | dispatch (k : ℕ)
  | receive (k : ℕ)
deriving DecidableEq, Repr

namespace Clusters

def init (d : CrossClusterDirectory) : Clusters where
  directory := d
  calls := []
  dispatched := []

/-- `check_cross_cluster` on the directory's answer. -/
def afterLookup (cfg : GlobalConfig) (c : ClusterId) (gid : GrainId) :
    Option GrainOwnership → GlobalPhase
  | some ownership =>
    if ownership.clusterId = c then .checked
    else if ownership.clusterId ∈ cfg.peers c then .forwarded ownership.clusterId
    else .checked
  | none =>
    match cfg.allowedClusters c gid.typeName with
    | some allowed =>
      if c.name ∈ allowed then .registering
      else
        match allowed.find? fun name => ⟨name⟩ ∈ cfg.peers c with
        | some name => .forwarded ⟨name⟩
        | none => .rejected
    | none => .registering

variable (w : Clusters)

def setPhase (k : ℕ) (call : GlobalCall) (phase : GlobalPhase) : Clusters :=
  { w with calls := w.calls.set k { call with phase := phase } }

def answer (cfg : GlobalConfig) (k : ℕ) (call : GlobalCall) (c : ClusterId) : Clusters :=
  { w.setPhase k call .answered with
    dispatched := if cfg.resolves c call.gid.typeName then w.dispatched ++ [(call.gid, c)]
      else w.dispatched }

def step (cfg : GlobalConfig) (w : Clusters) : ClustersEvent → Option Clusters
  | .invoke c gid => some { w with calls := w.calls ++ [⟨c, gid, .arrived⟩] }
  | .lookup k fault =>
    match w.calls[k]? with
    | some ⟨c, gid, .arrived⟩ =>
      -- An unknown type is left to the local dispatch, and so is a failed lookup.
      if cfg.resolves c gid.typeName = false ∨ fault = true then
        some (w.setPhase k ⟨c, gid, .arrived⟩ .checked)
      else some (w.setPhase k ⟨c, gid, .arrived⟩ (afterLookup cfg c gid (w.directory.owner gid)))
    | _ => none
  | .register k fault =>
    match w.calls[k]? with
    | some ⟨c, gid, .registering⟩ =>
      some { w.setPhase k ⟨c, gid, .registering⟩ .checked with
        directory := if fault then w.directory else (w.directory.register gid c 1).1 }
    | _ => none
  | .reroute k =>
    match w.calls[k]? with
    | some ⟨c, gid, .checked⟩ => some (w.setPhase k ⟨c, gid, .checked⟩ .arrived)
    | _ => none
  | .dispatch k =>
    match w.calls[k]? with
    | some ⟨c, gid, .checked⟩ => some (w.answer cfg k ⟨c, gid, .checked⟩ c)
    | _ => none
  | .receive k =>
    match w.calls[k]? with
    | some ⟨c, gid, .forwarded target⟩ => some (w.answer cfg k ⟨c, gid, .forwarded target⟩ target)
    | _ => none

/-- The directory answers, owners are known peers, only a cluster that may host the grain finds no
record, and no registration finds that of another. -/
def unraced (cfg : GlobalConfig) (w : Clusters) : ClustersEvent → Bool
  | .lookup k fault =>
    !fault && match w.calls[k]? with
      | some ⟨c, gid, .arrived⟩ =>
        match w.directory.owner gid with
        | some o => o.clusterId = c || o.clusterId ∈ cfg.peers c
        | none =>
          match cfg.allowedClusters c gid.typeName with
          | some allowed => c.name ∈ allowed
          | none => true
      | _ => true
  | .register k fault =>
    !fault && match w.calls[k]? with
      | some ⟨c, gid, .registering⟩ =>
        match w.directory.owner gid with
        | some o => o.clusterId = c
        | none => true
      | _ => true
  | _ => true

variable {w} {w' : Clusters} {cfg : GlobalConfig} {e : ClustersEvent} {call : GlobalCall}
  {gid : GrainId}

variable (cfg w) in
inductive Move : ClustersEvent → Clusters → Prop
  | invoke (c : ClusterId) (gid : GrainId) :
    Move (.invoke c gid) { w with calls := w.calls ++ [⟨c, gid, .arrived⟩] }
  | skip {k fault c gid} (hk : w.calls[k]? = some ⟨c, gid, .arrived⟩)
    (hskip : cfg.resolves c gid.typeName = false ∨ fault = true) :
    Move (.lookup k fault) (w.setPhase k ⟨c, gid, .arrived⟩ .checked)
  | lookup {k c gid} (hk : w.calls[k]? = some ⟨c, gid, .arrived⟩)
    (hres : cfg.resolves c gid.typeName = true) :
    Move (.lookup k false)
      (w.setPhase k ⟨c, gid, .arrived⟩ (afterLookup cfg c gid (w.directory.owner gid)))
  | register {k fault c gid} (hk : w.calls[k]? = some ⟨c, gid, .registering⟩) :
    Move (.register k fault) { w.setPhase k ⟨c, gid, .registering⟩ .checked with
      directory := if fault then w.directory else (w.directory.register gid c 1).1 }
  | reroute {k c gid} (hk : w.calls[k]? = some ⟨c, gid, .checked⟩) :
    Move (.reroute k) (w.setPhase k ⟨c, gid, .checked⟩ .arrived)
  | dispatch {k c gid} (hk : w.calls[k]? = some ⟨c, gid, .checked⟩) :
    Move (.dispatch k) (w.answer cfg k ⟨c, gid, .checked⟩ c)
  | receive {k c target gid} (hk : w.calls[k]? = some ⟨c, gid, .forwarded target⟩) :
    Move (.receive k) (w.answer cfg k ⟨c, gid, .forwarded target⟩ target)

theorem move_of_step (h : w.step cfg e = some w') : w.Move cfg e w' := by
  revert h
  fun_cases Clusters.step cfg w e <;> intro h <;> try cases h
  next c gid => exact .invoke c gid
  next hk hskip => exact .skip hk hskip
  next hk hask =>
    obtain ⟨hres, hfault⟩ := not_or.mp hask
    obtain rfl := Bool.eq_false_iff.mpr hfault
    exact .lookup hk (by simpa using hres)
  all_goals
    constructor
    assumption

def Settled (cfg : GlobalConfig) (d : CrossClusterDirectory) (call : GlobalCall) : Prop :=
  ∀ c, call.host = some c → cfg.resolves c call.gid.typeName = true → d.Names call.gid c

structure Owned (cfg : GlobalConfig) (w : Clusters) : Prop where
  epochs : w.directory.Epochs
  calls : ∀ call ∈ w.calls, Settled cfg w.directory call
  dispatched : ∀ r ∈ w.dispatched, w.directory.Names r.1 r.2

theorem Settled.of_host_none (h : call.host = none) : Settled cfg d call :=
  fun c hc => absurd hc (by simp [h])

theorem settled_afterLookup {c}
    (hpeer : ∀ o, d.owner gid = some o → o.clusterId = c ∨ o.clusterId ∈ cfg.peers c)
    (hhost : d.owner gid = none → ∀ allowed, cfg.allowedClusters c gid.typeName = some allowed →
      c.name ∈ allowed) : Settled cfg d ⟨c, gid, afterLookup cfg c gid (d.owner gid)⟩ := by
  cases ho : d.owner gid with
  | some o =>
    by_cases hc : o.clusterId = c
    · intro c' hc' _
      obtain rfl : c = c' := by simpa [GlobalCall.host, afterLookup, hc] using hc'
      exact ⟨o, ho, hc⟩
    · have hp := (hpeer o ho).resolve_left hc
      intro c' hc' _
      obtain rfl : o.clusterId = c' := by simpa [GlobalCall.host, afterLookup, hc, hp] using hc'
      exact ⟨o, ho, rfl⟩
  | none =>
    refine .of_host_none ?_
    cases ha : cfg.allowedClusters c gid.typeName with
    | none => simp [afterLookup, ha, GlobalCall.host]
    | some allowed => simp [afterLookup, ha, hhost ho allowed ha, GlobalCall.host]

section

variable (h : Owned cfg w) {k : ℕ} {call : GlobalCall} {c : ClusterId}
include h

theorem Owned.setPhase {phase} (hs : Settled cfg w.directory { call with phase := phase }) :
    Owned cfg (w.setPhase k call phase) := by
  refine ⟨h.epochs, fun call' hcall' => ?_, h.dispatched⟩
  rcases mem_or_eq_of_mem_set hcall' with hmem | rfl
  · exact h.calls call' hmem
  · exact hs

theorem Owned.answer (hk : w.calls[k]? = some call) (hc : call.host = some c) :
    Owned cfg (w.answer cfg k call c) := by
  have hset : Owned cfg (w.setPhase k call .answered) := h.setPhase (.of_host_none rfl)
  refine ⟨hset.epochs, hset.calls, fun r hr => ?_⟩
  simp only [Clusters.answer] at hr
  split at hr
  · rename_i hres
    rcases mem_append.mp hr with hr | hr
    · exact h.dispatched r hr
    · obtain rfl := mem_singleton.mp hr
      exact h.calls call (mem_of_getElem? hk) c hc hres
  · exact h.dispatched r hr

theorem Owned.register {gid} (hown : ∀ o, w.directory.owner gid = some o → o.clusterId = c) :
    Owned cfg { w.setPhase k ⟨c, gid, .registering⟩ .checked with
      directory := (w.directory.register gid c 1).1 } := by
  refine ⟨h.epochs.register gid c, fun call hcall => ?_, fun r hr => ?_⟩
  · rcases mem_or_eq_of_mem_set hcall with hmem | rfl
    · exact fun c' hc' hres => (h.calls call hmem c' hc' hres).register h.epochs gid c
    · intro c' hc' _
      obtain rfl : c = c' := Option.some.inj hc'
      exact CrossClusterDirectory.names_register_self h.epochs hown
  · exact (h.dispatched r hr).register h.epochs gid c

theorem Owned.step (hg : w.unraced cfg e = true) (hstep : w.step cfg e = some w') :
    Owned cfg w' := by
  cases move_of_step hstep with
  | invoke c gid =>
    refine ⟨h.epochs, fun call hcall => ?_, h.dispatched⟩
    rcases mem_append.mp hcall with hmem | hnew
    · exact h.calls call hmem
    · obtain rfl := mem_singleton.mp hnew
      exact .of_host_none rfl
  | @skip k fault c gid hk hskip =>
    simp only [unraced, hk, Bool.and_eq_true, Bool.not_eq_true'] at hg
    have hres := hskip.resolve_right (by simp [hg.1])
    refine h.setPhase fun c' hc' hr => ?_
    obtain rfl : c = c' := Option.some.inj hc'
    simp [hres] at hr
  | lookup hk hres =>
    simp only [unraced, hk, Bool.not_false, Bool.true_and] at hg
    refine h.setPhase (settled_afterLookup (fun o ho => ?_) fun ho allowed ha => ?_)
    · simpa [ho] using hg
    · simpa [ho, ha] using hg
  | register hk =>
    simp only [unraced, hk, Bool.and_eq_true, Bool.not_eq_true'] at hg
    rw [hg.1]
    exact h.register fun o ho => by simpa [ho] using hg.2
  | reroute hk => exact h.setPhase (.of_host_none rfl)
  | dispatch hk | receive hk => exact h.answer hk rfl

end

/-- Only the cluster on record dispatches a grain, as long as no registration finds another's record
and no cluster that may not host the grain looks it up first. -/
theorem dispatched_by_owner (cfg : GlobalConfig) (d : CrossClusterDirectory)
    (es : List ClustersEvent) (w : Clusters) (hd : d.Epochs)
    (hguard : Along (step cfg) (fun u e => u.unraced cfg e = true) (init d) es)
    (hrun : exec (step cfg) (init d) es = some w) :
    (∀ gid c, (gid, c) ∈ w.dispatched → w.directory.Names gid c) ∧
      ∀ gid c c', (gid, c) ∈ w.dispatched → (gid, c') ∈ w.dispatched → c = c' := by
  have hinit : Owned cfg (init d) :=
    ⟨hd, fun _ h => absurd h (by simp [init]), fun _ h => absurd h (by simp [init])⟩
  have hinv := exec_invariant (fun _ _ _ hg h hstep => h.step hg hstep) hinit hguard hrun
  have hnames :=  fun gid c hmem => hinv.dispatched (gid, c) hmem
  refine ⟨hnames, fun gid c c' hc hc' => ?_⟩
  obtain ⟨o, ho, rfl⟩ := hnames gid c hc
  obtain ⟨o', ho', rfl⟩ := hnames gid c' hc'
  rw [Option.some.inj (ho.symm.trans ho')]

/-! ## Forwarded calls -/

/-- A cluster that finds no record may host the grain. -/
def mayHost (cfg : GlobalConfig) (w : Clusters) : ClustersEvent → Bool
  | .lookup k _ =>
    match w.calls[k]? with
    | some ⟨c, gid, .arrived⟩ =>
      (w.directory.owner gid).isSome || (cfg.allowedClusters c gid.typeName).all (c.name ∈ ·)
    | _ => true
  | _ => true

structure Directed (w : Clusters) : Prop where
  epochs : w.directory.Epochs
  forwarded : ∀ call ∈ w.calls, ∀ target, call.phase = .forwarded target →
    w.directory.Names call.gid target

theorem Directed.setPhase (h : w.Directed) {k p}
    (hp : ∀ target, p = .forwarded target → w.directory.Names call.gid target) :
    (w.setPhase k call p).Directed := by
  refine ⟨h.epochs, fun call' hcall' => ?_⟩
  rcases mem_or_eq_of_mem_set hcall' with hmem | rfl
  · exact h.forwarded call' hmem
  · exact hp

theorem names_of_afterLookup {c target}
    (hhost : (d.owner gid).isSome || (cfg.allowedClusters c gid.typeName).all (c.name ∈ ·))
    (h : afterLookup cfg c gid (d.owner gid) = .forwarded target) : d.Names gid target := by
  cases ho : d.owner gid with
  | some o =>
    simp only [ho, afterLookup] at h
    split_ifs at h
    cases h
    exact ⟨o, ho, rfl⟩
  | none =>
    cases ha : cfg.allowedClusters c gid.typeName with
    | none => simp [ho, afterLookup, ha] at h
    | some allowed =>
      have hmem : c.name ∈ allowed := by simpa [ho, ha] using hhost
      simp [ho, afterLookup, ha, hmem] at h

theorem Directed.step (h : w.Directed) (hg : w.mayHost cfg e = true)
    (hstep : w.step cfg e = some w') : w'.Directed := by
  cases move_of_step hstep with
  | invoke c gid =>
    refine ⟨h.epochs, fun call hc => ?_⟩
    rcases mem_append.mp hc with hmem | hnew
    · exact h.forwarded call hmem
    · rw [mem_singleton.mp hnew]
      exact nofun
  | lookup hk =>
    simp only [mayHost, hk] at hg
    exact h.setPhase fun target ht => names_of_afterLookup hg ht
  | @register k fault c gid hk =>
    have hset : (w.setPhase k ⟨c, gid, .registering⟩ .checked).Directed := h.setPhase nofun
    cases fault with
    | true => exact hset
    | false =>
      refine ⟨h.epochs.register gid c, fun call hc target ht => ?_⟩
      exact (hset.forwarded call hc target ht).register h.epochs gid c
  | skip | reroute => exact h.setPhase nofun
  | _ => exact ⟨h.epochs, (h.setPhase (p := .answered) nofun).forwarded⟩

/-- Calls that are forwarded go to the owner on record, as long as no cluster that may not host the
grain looks it up first. -/
theorem forwarded_to_owner (cfg : GlobalConfig) (d : CrossClusterDirectory)
    (es : List ClustersEvent) (w : Clusters) (hd : d.Epochs)
    (hguard : Along (step cfg) (fun u e => u.mayHost cfg e = true) (init d) es)
    (hrun : exec (step cfg) (init d) es = some w) (k : ℕ) (c target : ClusterId) (gid : GrainId)
    (hk : w.calls[k]? = some ⟨c, gid, .forwarded target⟩) (w' : Clusters)
    (hreceive : w.step cfg (.receive k) = some w') : w'.directory.Names gid target := by
  have hinit : (init d).Directed := ⟨hd, fun _ h => (nomatch h)⟩
  have hinv := exec_invariant (fun _ _ _ hg h hstep => h.step hg hstep) hinit hguard hrun
  simp only [step, hk] at hreceive
  cases hreceive
  exact hinv.forwarded _ (mem_of_getElem? hk) target rfl

/-- Two clusters that know each other, with a residency constraint on every grain type. -/
def twoClusters (allowed : Option (List String)) : GlobalConfig where
  peers := fun _ => [⟨"eu"⟩, ⟨"us"⟩]
  allowedClusters := fun _ _ => allowed
  resolves := fun _ _ => true

/-- A cluster registers a grain before the other looks it up. -/
def oneAfterTheOther : List ClustersEvent :=
  [.invoke ⟨"eu"⟩ ⟨"Counter", "k"⟩, .lookup 0 false, .register 0 false,
    .invoke ⟨"us"⟩ ⟨"Counter", "k"⟩, .lookup 1 false, .dispatch 0, .receive 1]

theorem dispatched_by_owner_two :
    ∃ w, exec (step (twoClusters none)) (init ∅) oneAfterTheOther = some w ∧
      w.dispatched = [(⟨"Counter", "k"⟩, ⟨"eu"⟩), (⟨"Counter", "k"⟩, ⟨"eu"⟩)] ∧
      (∀ gid c, (gid, c) ∈ w.dispatched → w.directory.Names gid c) ∧
      ∀ gid c c', (gid, c) ∈ w.dispatched → (gid, c') ∈ w.dispatched → c = c' := by
  refine ⟨_, rfl, rfl, ?_⟩
  exact dispatched_by_owner (twoClusters none) ∅ oneAfterTheOther _
    (fun gid o ho => absurd ho (by simp [CrossClusterDirectory.owner])) (by decide +kernel) rfl

/-- Two clusters look the grain up before either registers, and both dispatch it. After a cluster
that may not host it, the other dispatches it without a record. -/
theorem two_clusters_dispatch :
    (∃ w, exec (step (twoClusters none)) (init ∅)
        [.invoke ⟨"eu"⟩ ⟨"Counter", "k"⟩, .invoke ⟨"us"⟩ ⟨"Counter", "k"⟩, .lookup 0 false,
          .lookup 1 false, .register 0 false, .register 1 false, .dispatch 0,
          .dispatch 1] = some w ∧
      w.dispatched = [(⟨"Counter", "k"⟩, ⟨"eu"⟩), (⟨"Counter", "k"⟩, ⟨"us"⟩)] ∧
      w.directory.owner ⟨"Counter", "k"⟩ = some ⟨⟨"eu"⟩, 1⟩) ∧
    ∃ w, exec (step (twoClusters (some ["eu"]))) (init ∅)
        [.invoke ⟨"us"⟩ ⟨"Counter", "k"⟩, .lookup 0 false, .receive 0] = some w ∧
      w.dispatched = [(⟨"Counter", "k"⟩, ⟨"eu"⟩)] ∧
      w.directory.owner ⟨"Counter", "k"⟩ = none :=
  ⟨⟨_, rfl, rfl, rfl⟩, _, rfl, rfl, rfl⟩

theorem forwarded_to_owner_two : CrossClusterDirectory.Names
    ((exec (step (twoClusters none)) (init ∅) oneAfterTheOther).elim ∅ directory)
      ⟨"Counter", "k"⟩ ⟨"eu"⟩ :=
  forwarded_to_owner (twoClusters none) ∅ (oneAfterTheOther.take 6) _ (fun _ _ ho => (nomatch ho))
    (by decide +kernel) rfl 1 ⟨"us"⟩ ⟨"eu"⟩ ⟨"Counter", "k"⟩ rfl _ rfl

/-- A cluster that may not host the grain forwards the first call, and the one that dispatches it
is not recorded. -/
theorem forwarded_without_owner : (exec (step (twoClusters (some ["eu"]))) (init ∅)
    [.invoke ⟨"us"⟩ ⟨"Counter", "k"⟩, .lookup 0 false, .receive 0]).map
      (fun w => (w.dispatched, w.directory.owner ⟨"Counter", "k"⟩)) =
    some ([(⟨"Counter", "k"⟩, ⟨"eu"⟩)], none) :=
  rfl

end Clusters

end Orlando
