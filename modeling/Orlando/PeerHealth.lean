import Orlando.Failover

/-!
# Peer health

A health checker probes the peer clusters and publishes the map of their statuses. `serve` makes two
of the same configuration, each with a map of its own (`ClusterHealth.new`), runs the one and gives
the other to the failover manager (`ServedSilo`).
-/

namespace Orlando

open List

structure MultiClusterConfig where
  peers : AList fun _ : ClusterId => String

abbrev StatusMap := Finmap fun _ : ClusterId => PeerStatus

def MultiClusterConfig.collect (config : MultiClusterConfig)
    (status : ClusterId → String → PeerStatus) : StatusMap :=
  (config.peers.entries.map (Sigma.map id status)).toFinmap

inductive ProbeOutcome
  | noConnection
  | timedOut
  | failed
  | answered
deriving DecidableEq

def ProbeOutcome.status : ProbeOutcome → PeerStatus
  | .answered => .healthy
  | .noConnection | .timedOut | .failed => .unreachable

/-- A health checker. Its map is one of the `cells` that may be shared. -/
structure ClusterHealth where
  config : MultiClusterConfig
  statuses : ℕ

namespace ClusterHealth

def new (config : MultiClusterConfig) (cells : List StatusMap) : ClusterHealth × List StatusMap :=
  (⟨config, cells.length⟩, cells ++ [config.collect fun _ _ => .unknown])

def allStatuses (health : ClusterHealth) (cells : List StatusMap) : StatusMap :=
  cells.getD health.statuses ∅

/-- A round of probes, after which the new map is stored. -/
def round (health : ClusterHealth) (outcome : ClusterId → String → ProbeOutcome)
    (cells : List StatusMap) : List StatusMap :=
  cells.set health.statuses
    (health.config.collect fun clusterId endpoint => (outcome clusterId endpoint).status)

end ClusterHealth

/-- The tasks of a silo with peers : the health checker that runs, and the loop of the
failover manager with the health checker it has been given. -/
structure ServedSilo where
  cells : List StatusMap
  healthRunner : ClusterHealth
  health : ClusterHealth
  failover : FailoverLoop

inductive PeerEvent
  /-- The running health checker ends a round of probes. -/
  | probed (outcome : ClusterId → String → ProbeOutcome)
  /-- The failover manager reads the statuses and visits the peers. -/
  | checked (visits : List PeerVisit)

def IsCycle (visits : List PeerVisit) (statuses : StatusMap) : Prop :=
  ((visits.map fun v => ⟨v.1, v.2.status⟩ : List (Sigma fun _ : ClusterId => PeerStatus)) :
    Multiset (Sigma fun _ : ClusterId => PeerStatus)) = statuses.entries

instance instDecidableIsCycle (visits : List PeerVisit) (statuses : StatusMap) :
    Decidable (IsCycle visits statuses) :=
  inferInstanceAs (Decidable (_ = _))

namespace ServedSilo

def serve (config : MultiClusterConfig) : ServedSilo :=
  let (health, cells) := ClusterHealth.new config []
  let (healthRunner, cells) := ClusterHealth.new config cells
  { cells, healthRunner, health, failover := .init }

def step (m : FailoverManager) (s : ServedSilo) : PeerEvent → Option ServedSilo
  | .probed outcome => some { s with cells := s.healthRunner.round outcome s.cells }
  | .checked visits =>
    if IsCycle visits (s.health.allStatuses s.cells) then
      some { s with failover := visits.foldl (FailoverLoop.visit m) s.failover }
    else none

end ServedSilo

def lastPublished (config : MultiClusterConfig) (es : List PeerEvent) : StatusMap :=
  es.foldl (fun published e =>
    match e with
    | .probed outcome =>
      config.collect fun clusterId endpoint => (outcome clusterId endpoint).status
    | .checked _ => published) (config.collect fun _ _ => .unknown)

def ServedSilo.ReadsPublished (m : FailoverManager) (config : MultiClusterConfig)
    (es : List PeerEvent) : Prop :=
  ∀ es₁ visits s, es₁ ++ [.checked visits] <+: es → exec (step m) (serve config) es₁ = some s →
    s.health.allStatuses s.cells = lastPublished config es₁

namespace MultiClusterConfig

variable {config : MultiClusterConfig} {status status' : ClusterId → String → PeerStatus}

theorem lookup_collect (config : MultiClusterConfig) (status : ClusterId → String → PeerStatus)
    (clusterId) : (config.collect status).lookup clusterId =
      (config.peers.lookup clusterId).map (status clusterId) := by
  rw [collect, Finmap.dlookup_list_toFinmap, dlookup_map₂]
  rfl

theorem exists_peer (hpeers : config.peers ≠ ∅) :
    ∃ clusterId endpoint, config.peers.lookup clusterId = some endpoint := by
  cases hentries : config.peers.entries with
  | nil => exact absurd (AList.ext hentries) hpeers
  | cons peer entries => exact ⟨peer.1, peer.2, AList.mem_lookup_iff.mpr (by simp [hentries])⟩

theorem collect_of_isEmpty (hpeers : config.peers = ∅)
    (status status' : ClusterId → String → PeerStatus) :
    config.collect status = config.collect status' := by
  rw [collect, collect, hpeers]
  rfl

theorem collect_ne_initial (hpeers : config.peers ≠ ∅)
    (outcome : ClusterId → String → ProbeOutcome) :
    (config.collect fun _ _ => .unknown) ≠
      config.collect fun clusterId endpoint => (outcome clusterId endpoint).status := by
  intro heq
  obtain ⟨clusterId, endpoint, hlook⟩ := exists_peer hpeers
  have hstatus := congrArg (Finmap.lookup clusterId) heq
  rw [lookup_collect, lookup_collect, hlook, Option.map_some, Option.map_some] at hstatus
  cases houtcome : outcome clusterId endpoint <;>
    simp [houtcome, ProbeOutcome.status] at hstatus

end MultiClusterConfig

variable {m : FailoverManager} {config : MultiClusterConfig} {es : List PeerEvent}

theorem lastPublished_snoc (config) (es) (e) :
    lastPublished config (es ++ [e]) =
      match e with
      | .probed outcome =>
        config.collect fun clusterId endpoint => (outcome clusterId endpoint).status
      | .checked _ => lastPublished config es := by
  rw [lastPublished, foldl_append]
  cases e <;> rfl

theorem lastPublished_eq (config) (es) :
    (lastPublished config es = (config.collect fun _ _ => .unknown) ∧
      ∀ outcome, .probed outcome ∉ es) ∨
    ∃ outcome, .probed outcome ∈ es ∧ lastPublished config es =
      config.collect fun clusterId endpoint => (outcome clusterId endpoint).status := by
  induction es using reverseRecOn with
  | nil => exact Or.inl ⟨rfl, fun _ h => (by cases h)⟩
  | append_singleton es e ih =>
    rw [lastPublished_snoc]
    cases e with
    | probed outcome => exact Or.inr ⟨outcome, by simp, rfl⟩
    | checked visits => simpa using ih

namespace ServedSilo

variable {s t : ServedSilo} {visits : List PeerVisit}

variable (config) in
structure Wired (s : ServedSilo) (published : StatusMap) : Prop where
  health : s.health = ⟨config, 0⟩
  healthRunner : s.healthRunner = ⟨config, 1⟩
  cells : s.cells = [config.collect fun _ _ => .unknown, published]

theorem Wired.allStatuses {published} (h : s.Wired config published) :
    s.health.allStatuses s.cells = config.collect fun _ _ => .unknown := by
  rw [h.health, h.cells]
  rfl

theorem wired_of_run (hr : exec (step m) (serve config) es = some s) :
    s.Wired config (lastPublished config es) := by
  induction es using reverseRecOn generalizing s with
  | nil =>
    cases hr
    exact ⟨rfl, rfl, rfl⟩
  | append_singleton es e ih =>
    obtain ⟨u, hu, hs⟩ := exec_snoc_eq_some.mp hr
    have hwired := ih hu
    rw [lastPublished_snoc]
    cases e with
    | probed outcome =>
      cases hs
      refine ⟨hwired.health, hwired.healthRunner, ?_⟩
      rw [ClusterHealth.round, hwired.healthRunner, hwired.cells]
      rfl
    | checked visits =>
      obtain ⟨-, hs⟩ := Option.ite_none_right_eq_some.mp hs
      cases hs
      exact ⟨hwired.health, hwired.healthRunner, hwired.cells⟩

/-- The manager reads what was published last exactly when there are no peers, or no check
comes after a round of probes. -/
theorem readsPublished_iff (hrun : exec (step m) (serve config) es = some t) :
    ReadsPublished m config es ↔ config.peers = ∅ ∨
      ∀ es₁ visits, es₁ ++ [.checked visits] <+: es → ∀ outcome, .probed outcome ∉ es₁ := by
  constructor
  · intro h
    refine or_iff_not_imp_left.mpr fun hpeers es₁ visits hpre outcome hmem => ?_
    obtain ⟨es₂, rfl⟩ := hpre
    rw [append_assoc, exec_append] at hrun
    obtain ⟨s, hs, -⟩ := Option.bind_eq_some_iff.mp hrun
    have hread := h es₁ visits s (prefix_append _ _) hs
    rw [(wired_of_run hs).allStatuses] at hread
    rcases lastPublished_eq config es₁ with ⟨-, hnone⟩ | ⟨outcome', -, heq⟩
    · exact hnone outcome hmem
    · exact MultiClusterConfig.collect_ne_initial hpeers outcome' (hread.trans heq)
  · intro h es₁ visits s hpre hs
    rw [(wired_of_run hs).allStatuses]
    rcases lastPublished_eq config es₁ with ⟨heq, -⟩ | ⟨outcome, hmem, heq⟩
    · exact heq.symm
    · rcases h with hpeers | hnone
      · rw [heq]
        exact MultiClusterConfig.collect_of_isEmpty hpeers _ _
      · exact absurd hmem (hnone es₁ visits hpre outcome)

/-- A configuration with one peer, and the visit of it as long as it is unknown. -/
def onePeer : MultiClusterConfig :=
  ⟨AList.singleton ⟨"eu"⟩ "127.0.0.1:5000"⟩

def unknownPeer : PeerVisit :=
  (⟨"eu"⟩, { elapsed := 10, status := .unknown, listing := none, answer := fun _ _ => none })

theorem readsPublished_iff_early :
    ReadsPublished ⟨⟨"us"⟩, ⟨10⟩⟩ onePeer
      [.checked [unknownPeer], .probed fun _ _ => .timedOut] := by
  obtain ⟨t, ht⟩ : ∃ t, exec (step ⟨⟨"us"⟩, ⟨10⟩⟩) (serve onePeer)
      [.checked [unknownPeer], .probed fun _ _ => .timedOut] = some t := ⟨_, rfl⟩
  refine (readsPublished_iff ht).mpr (Or.inr fun es₁ visits hpre outcome hmem => ?_)
  rcases es₁ with _ | ⟨e, _ | ⟨e', es₁⟩⟩
  · cases hmem
  · simp [cons_prefix_cons] at hpre
  · simp [cons_prefix_cons] at hpre

/-- The peer is found unreachable and published so, and the manager reads that it is
unknown. -/
theorem published_unread :
    (∃ t, exec (step ⟨⟨"us"⟩, ⟨10⟩⟩) (serve onePeer)
      [.probed fun _ _ => .timedOut, .checked [unknownPeer]] = some t) ∧
    ¬ReadsPublished ⟨⟨"us"⟩, ⟨10⟩⟩ onePeer
      [.probed fun _ _ => .timedOut, .checked [unknownPeer]] := by
  refine ⟨⟨_, rfl⟩, fun h => ?_⟩
  have hread := h [.probed fun _ _ => .timedOut] [unknownPeer] _ (prefix_refl _) rfl
  exact absurd hread (by decide)

end ServedSilo

end Orlando
