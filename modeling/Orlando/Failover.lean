import Mathlib.Algebra.Ring.Nat
import Orlando.CrossCluster
import Orlando.Swim

/-!
# Failover

The failover manager visits every peer in the status map once in a cycle. A peer has a phase
(`FailoverPhase`), and the visit moves it on (`nextPhase`).

What a sweep has missed is meant for the next cycle, but nothing is promoted in the phase
`promoted`.
-/

namespace Orlando

open List

inductive PeerStatus
  | healthy
  | unreachable
  | unknown
deriving DecidableEq

/-- How far the failover of a peer cluster has come. -/
inductive FailoverPhase
  | monitoring
  | primaryUnreachable (since : Instant)
  | promoting
  | promoted (epoch : ℕ)
deriving DecidableEq

structure FailoverConfig where
  gracePeriod : ℕ

structure FailoverManager where
  localClusterId : ClusterId
  config : FailoverConfig

structure PeerCheck where
  /-- The time since the visit before. -/
  elapsed : ℕ
  status : PeerStatus
  /-- What `list_owned_by` returns for the peer, if it does not fail. -/
  listing : Option (List (GrainId × GrainOwnership))
  /-- What `promote_grain` returns for a listed grain, if it does not fail. -/
  answer : GrainId → GrainOwnership → Option GrainOwnership

abbrev PeerVisit := ClusterId × PeerCheck

namespace FailoverManager

variable (m : FailoverManager)

def maxEpoch (answers : List (Option GrainOwnership)) : ℕ :=
  answers.foldl (fun maxEpoch answer =>
    match answer with
    | some newOwner =>
      if newOwner.clusterId = m.localClusterId then max maxEpoch newOwner.epoch else maxEpoch
    | none => maxEpoch) 0

def nextPhase (now : Instant) (k : PeerCheck) (phase : FailoverPhase) : FailoverPhase :=
  match k.status, phase with
  | .healthy, _ => .monitoring
  | .unreachable, .monitoring => .primaryUnreachable now
  | .unreachable, .primaryUnreachable since =>
    if m.config.gracePeriod ≤ now - since then .promoting else .primaryUnreachable since
  | .unreachable, .promoting =>
    match k.listing with
    | none => .promoting
    | some grains => .promoted (m.maxEpoch (grains.map fun r => k.answer r.1 r.2))
  | .unreachable, .promoted epoch => .promoted epoch
  | .unknown, phase => phase

end FailoverManager

def PeerCheck.promotes (k : PeerCheck) (phase : FailoverPhase) : List (GrainId × GrainOwnership) :=
  match k.status, phase, k.listing with
  | .unreachable, .promoting, some grains => grains
  | _, _, _ => []

def PeerCheck.Lists (k : PeerCheck) (gid : GrainId) : Prop :=
  ∃ grains, k.listing = some grains ∧ gid ∈ grains.map Prod.fst

/-- The loop of the manager. A peer that has not been visited is in `monitoring`. -/
structure FailoverLoop where
  now : Instant
  peerPhases : ClusterId → FailoverPhase

namespace FailoverLoop

def init : FailoverLoop where
  now := 0
  peerPhases _ := .monitoring

def visit (m : FailoverManager) (s : FailoverLoop) (v : PeerVisit) : FailoverLoop where
  now := s.now + v.2.elapsed
  peerPhases := Function.update s.peerPhases v.1
    (m.nextPhase (s.now + v.2.elapsed) v.2 (s.peerPhases v.1))

def after (m : FailoverManager) (vs : List PeerVisit) : FailoverLoop :=
  vs.foldl (visit m) init

def Attempts (m : FailoverManager) (vs : List PeerVisit) (peer : ClusterId) (k : PeerCheck)
    (gid : GrainId) : Prop :=
  gid ∈ (k.promotes ((after m vs).peerPhases peer)).map Prod.fst

instance instDecidableAttempts (m : FailoverManager) (vs : List PeerVisit) (peer : ClusterId)
    (k : PeerCheck) (gid : GrainId) : Decidable (Attempts m vs peer k gid) :=
  inferInstanceAs (Decidable (_ ∈ _))

end FailoverLoop

/-- The peer was seen unreachable a time `t` ago, and not healthy since. -/
def UnreachableFor (peer : ClusterId) (t : ℕ) (vs : List PeerVisit) : Prop :=
  ∃ past k recent, vs = past ++ (peer, k) :: recent ∧ k.status = .unreachable ∧
    (∀ k', (peer, k') ∈ recent → k'.status ≠ .healthy) ∧
    (recent.map fun v => v.2.elapsed).sum = t

def FailoverManager.Due (m : FailoverManager) (vs : List PeerVisit) (peer : ClusterId)
    (k : PeerCheck) : Prop :=
  k.status = .unreachable ∧
    ∃ t, UnreachableFor peer t vs ∧ m.config.gracePeriod ≤ t + k.elapsed

def FailoverManager.Served (m : FailoverManager) (peer : ClusterId) (vs : List PeerVisit) :
    Prop :=
  ∃ past k recent, vs = past ++ (peer, k) :: recent ∧ m.Due past peer k ∧
    ∀ k', (peer, k') ∈ recent → k'.status ≠ .healthy

def NextVisit (vs vs₁ : List PeerVisit) (peer : ClusterId) (k : PeerCheck)
    (vs₂ : List PeerVisit) (k' : PeerCheck) : Prop :=
  vs₂ ++ [(peer, k')] <+: vs ∧
    ∃ others, vs₂ = vs₁ ++ (peer, k) :: others ∧ ∀ v ∈ others, v.1 ≠ peer

/-- A grain of a peer that is due is promoted in that visit or in the next, if the peer is
unreachable and has the grain then too. -/
def FailoverManager.Retries (m : FailoverManager) (vs : List PeerVisit) : Prop :=
  ∀ vs₁ peer k vs₂ k' gid, NextVisit vs vs₁ peer k vs₂ k' → m.Due vs₁ peer k → k.Lists gid →
    k'.status = .unreachable → k'.Lists gid →
    FailoverLoop.Attempts m vs₁ peer k gid ∨ FailoverLoop.Attempts m vs₂ peer k' gid

/-- No peer that has been swept is left unreachable with a grain in two successive
visits. -/
def FailoverManager.SweepsAll (m : FailoverManager) (vs : List PeerVisit) : Prop :=
  ∀ vs₁ peer k vs₂ k' gid epoch, NextVisit vs vs₁ peer k vs₂ k' →
    (FailoverLoop.after m vs₁).peerPhases peer = .promoted epoch →
    k.status = .unreachable → k.Lists gid → k'.status = .unreachable → ¬k'.Lists gid

/-! ## The phases of a peer -/

variable {v : PeerVisit}

namespace UnreachableFor

variable {peer : ClusterId} {t : ℕ} {vs : List PeerVisit}

theorem snoc_iff : UnreachableFor peer t (vs ++ [v]) ↔
    (v.1 = peer ∧ v.2.status = .unreachable ∧ t = 0) ∨
    ((v.1 = peer → v.2.status ≠ .healthy) ∧
      ∃ t', UnreachableFor peer t' vs ∧ t = t' + v.2.elapsed) := by
  constructor
  · rintro ⟨past, k, recent, heq, hk, hrecent, rfl⟩
    rcases snoc_eq_append_cons.mp heq with ⟨rfl, rfl, rfl⟩ | ⟨recent, rfl, rfl⟩
    · exact .inl ⟨rfl, hk, rfl⟩
    · refine .inr ⟨?_, _, ⟨past, k, recent, rfl, hk, ?_, rfl⟩, by simp⟩
      · rintro rfl
        exact hrecent v.2 (by simp)
      · exact fun k' hk' => hrecent k' (by simp [hk'])
  · rintro (⟨rfl, hk, rfl⟩ | ⟨hv, t', ⟨past, k, recent, rfl, hk, hrecent, rfl⟩, rfl⟩)
    · exact ⟨vs, v.2, [], rfl, hk, by simp, rfl⟩
    · refine ⟨past, k, recent ++ [v], by simp, hk, fun k' hk' => ?_, by simp⟩
      rcases mem_append.mp hk' with hmem | hlast
      · exact hrecent k' hmem
      · obtain rfl := mem_singleton.mp hlast
        exact hv rfl

theorem later (h : UnreachableFor peer t vs) (hv : v.1 = peer → v.2.status ≠ .healthy) :
    UnreachableFor peer (t + v.2.elapsed) (vs ++ [v]) :=
  snoc_iff.mpr (.inr ⟨hv, t, h, rfl⟩)

theorem of_healthy {past k} (hk : k.status = .healthy)
    (h : UnreachableFor peer t (past ++ (peer, k) :: vs)) : UnreachableFor peer t vs := by
  induction vs using reverseRecOn generalizing t with
  | nil =>
    rcases snoc_iff.mp h with ⟨-, hs, -⟩ | ⟨hne, -⟩
    · simp [hk] at hs
    · exact absurd hk (hne rfl)
  | append_singleton vs v ih =>
    rw [← cons_append, ← append_assoc, snoc_iff] at h
    exact snoc_iff.mpr (h.imp_right fun ⟨hv, t', ht', heq⟩ => ⟨hv, t', ih ht', heq⟩)

end UnreachableFor

namespace FailoverManager

variable {m : FailoverManager} {peer : ClusterId} {vs : List PeerVisit}

theorem served_snoc : m.Served peer (vs ++ [v]) ↔ (v.1 = peer ∧ m.Due vs peer v.2) ∨
    ((v.1 = peer → v.2.status ≠ .healthy) ∧ m.Served peer vs) := by
  constructor
  · rintro ⟨past, k, recent, heq, hdue, hrecent⟩
    rcases snoc_eq_append_cons.mp heq with ⟨rfl, rfl, rfl⟩ | ⟨recent, rfl, rfl⟩
    · exact .inl ⟨rfl, hdue⟩
    · refine .inr ⟨?_, past, k, recent, rfl, hdue, fun k' hk' => hrecent k' (by simp [hk'])⟩
      rintro rfl
      exact hrecent v.2 (by simp)
  · rintro (⟨rfl, hdue⟩ | ⟨hv, past, k, recent, rfl, hdue, hrecent⟩)
    · exact ⟨vs, v.2, [], rfl, hdue, by simp⟩
    · refine ⟨past, k, recent ++ [v], by simp, hdue, fun k' hk' => ?_⟩
      rcases mem_append.mp hk' with hmem | hlast
      · exact hrecent k' hmem
      · obtain rfl := mem_singleton.mp hlast
        exact hv rfl

theorem Served.of_healthy {past k} (hk : k.status = .healthy)
    (h : m.Served peer (past ++ (peer, k) :: vs)) : m.Served peer vs := by
  induction vs using reverseRecOn with
  | nil =>
    rcases served_snoc.mp h with ⟨-, hs, -⟩ | ⟨hne, -⟩
    · simp [hk] at hs
    · exact absurd hk (hne rfl)
  | append_singleton vs v ih =>
    rw [← cons_append, ← append_assoc, served_snoc] at h
    rw [served_snoc]
    rcases h with ⟨hp, hs, t, hfor, hgrace⟩ | ⟨hv, hserved⟩
    · exact .inl ⟨hp, hs, t, hfor.of_healthy hk, hgrace⟩
    · exact .inr ⟨hv, ih hserved⟩

end FailoverManager

namespace FailoverLoop

open FailoverManager (served_snoc)

variable {m : FailoverManager} {vs vs₁ vs₂ : List PeerVisit} {peer : ClusterId} {k k' : PeerCheck}
  {gid : GrainId} {phase : FailoverPhase} {now epoch : ℕ}

theorem after_snoc (m vs v) : after m (vs ++ [v]) = (after m vs).visit m v := by
  rw [after, foldl_append]
  rfl

theorem visit_of_ne (s : FailoverLoop) (hv : v.1 ≠ peer) :
    (s.visit m v).peerPhases peer = s.peerPhases peer :=
  Function.update_of_ne hv.symm _ _

theorem visit_self (s : FailoverLoop) (k) :
    (s.visit m (peer, k)).peerPhases peer = m.nextPhase (s.now + k.elapsed) k (s.peerPhases peer) :=
  Function.update_self _ _ _

theorem peerPhases_nextVisit (h : NextVisit vs vs₁ peer k vs₂ k') :
    (after m vs₂).peerPhases peer =
      m.nextPhase ((after m vs₁).now + k.elapsed) k ((after m vs₁).peerPhases peer) := by
  obtain ⟨-, others, rfl, hothers⟩ := h
  induction others using reverseRecOn with
  | nil => rw [after_snoc, visit_self]
  | append_singleton others v ih =>
    rw [← cons_append, ← append_assoc, after_snoc, visit_of_ne _ (hothers v (by simp))]
    exact ih fun w hw => hothers w (by simp [hw])

variable (m vs peer now) in
def Tracks : FailoverPhase → Prop
  | .monitoring => ∀ t, ¬UnreachableFor peer t vs
  | .primaryUnreachable since => since ≤ now ∧ UnreachableFor peer (now - since) vs ∧
    ∀ t, UnreachableFor peer t vs → t ≤ now - since
  | .promoting | .promoted _ => ∃ t, UnreachableFor peer t vs ∧ m.config.gracePeriod ≤ t

/-- Once the peer has been seen unreachable, what the phase tells stays true, unless the
peer is seen healthy. -/
theorem Tracks.later (h : Tracks m vs peer now phase) (hphase : phase ≠ .monitoring)
    (hv : v.1 = peer → v.2.status ≠ .healthy) :
    Tracks m (vs ++ [v]) peer (now + v.2.elapsed) phase := by
  cases phase with
  | monitoring => exact absurd rfl hphase
  | primaryUnreachable since =>
    obtain ⟨hle, hfor, hmax⟩ := h
    have hsub : now + v.2.elapsed - since = now - since + v.2.elapsed := Nat.sub_add_comm hle
    refine ⟨Nat.le_add_right_of_le hle, hsub ▸ hfor.later hv, fun t ht => ?_⟩
    rcases UnreachableFor.snoc_iff.mp ht with ⟨-, -, rfl⟩ | ⟨-, t', ht', rfl⟩
    · exact Nat.zero_le _
    · exact hsub ▸ Nat.add_le_add_right (hmax t' ht') _
  | _ =>
    obtain ⟨t, ht, hgrace⟩ := h
    exact ⟨_, ht.later hv, Nat.le_add_right_of_le hgrace⟩

theorem Tracks.wait (h : Tracks m vs peer now phase) (hv : v.1 = peer → v.2.status = .unknown) :
    Tracks m (vs ++ [v]) peer (now + v.2.elapsed) phase := by
  by_cases hph : phase = .monitoring
  · subst hph
    intro t ht
    rcases UnreachableFor.snoc_iff.mp ht with ⟨hp, hs, -⟩ | ⟨-, t', ht', -⟩
    · rw [hv hp] at hs
      cases hs
    · exact h t' ht'
  · exact h.later hph fun hp => by simp [hv hp]

theorem Tracks.healthy (hk : k.status = .healthy) :
    Tracks m (vs ++ [(peer, k)]) peer now .monitoring := by
  intro t ht
  rcases UnreachableFor.snoc_iff.mp ht with ⟨-, hs, -⟩ | ⟨hne, -⟩
  · rw [hk] at hs
    cases hs
  · exact hne rfl hk

theorem Tracks.unreachable (h : Tracks m vs peer now phase) (hk : k.status = .unreachable) :
    Tracks m (vs ++ [(peer, k)]) peer (now + k.elapsed)
      (m.nextPhase (now + k.elapsed) k phase) := by
  have hlater : phase ≠ .monitoring → Tracks m (vs ++ [(peer, k)]) peer (now + k.elapsed) phase :=
    fun hphase => h.later hphase fun _ => by simp [hk]
  cases phase with
  | monitoring =>
    simp only [FailoverManager.nextPhase, hk]
    refine ⟨Nat.le_refl _, ?_, fun t ht => ?_⟩
    · exact UnreachableFor.snoc_iff.mpr (.inl ⟨rfl, hk, Nat.sub_self _⟩)
    · rcases UnreachableFor.snoc_iff.mp ht with ⟨-, -, rfl⟩ | ⟨-, t', ht', -⟩
      · exact Nat.zero_le _
      · exact absurd ht' (h t')
  | primaryUnreachable since =>
    have hsince := hlater (by simp)
    simp only [FailoverManager.nextPhase, hk]
    split_ifs with hgrace
    · exact ⟨_, hsince.2.1, hgrace⟩
    · exact hsince
  | promoting =>
    have hserved := hlater (by simp)
    simp only [FailoverManager.nextPhase, hk]
    cases k.listing with
    | none | some => exact hserved
  | promoted epoch =>
    simp only [FailoverManager.nextPhase, hk]
    exact hlater (by simp)

theorem tracks_after (m : FailoverManager) (peer) (vs) :
    Tracks m vs peer (after m vs).now ((after m vs).peerPhases peer) := by
  induction vs using reverseRecOn with
  | nil =>
    rintro t ⟨past, k, recent, heq, -⟩
    exact absurd heq (by simp)
  | append_singleton vs v ih =>
    obtain ⟨peer', k⟩ := v
    rw [after_snoc]
    by_cases hp : peer' = peer
    · subst hp
      rw [visit_self]
      cases hk : k.status with
      | healthy =>
        simp only [FailoverManager.nextPhase, hk]
        exact .healthy hk
      | unreachable => exact ih.unreachable hk
      | unknown =>
        simp only [FailoverManager.nextPhase, hk]
        exact ih.wait fun _ => hk
    · rw [visit_of_ne _ hp]
      exact ih.wait fun h => absurd h hp

/-! ## The grace period -/

/-- The sweep is next after the visit that ends the grace period, and stays so until the
grains of the peer can be listed. -/
theorem nextPhase_eq_promoting (h : m.nextPhase now k phase = .promoting) :
    (k.status ≠ .healthy ∧ phase = .promoting) ∨
      (k.status = .unreachable ∧ ∃ since, phase = .primaryUnreachable since ∧
        m.config.gracePeriod ≤ now - since) := by
  unfold FailoverManager.nextPhase at h
  split at h
  case h_3 since hk =>
    split_ifs at h with hgrace
    exact .inr ⟨hk, since, rfl, hgrace⟩
  case h_4 hk => exact .inl ⟨by simp [hk], rfl⟩
  case h_6 hk => exact .inl ⟨by simp [hk], h⟩
  all_goals cases h

theorem served_of_promoting (h : (after m vs).peerPhases peer = .promoting) :
    m.Served peer vs := by
  induction vs using reverseRecOn with
  | nil => cases h
  | append_singleton vs v ih =>
    obtain ⟨peer', k⟩ := v
    rw [after_snoc] at h
    by_cases hp : peer' = peer
    · subst hp
      rw [visit_self] at h
      rcases nextPhase_eq_promoting h with ⟨hk, hph⟩ | ⟨hk, since, hph, hgrace⟩
      · exact served_snoc.mpr (.inr ⟨fun _ => hk, ih hph⟩)
      · -- The phase knows since when the peer has been unreachable.
        have htracks := tracks_after m peer' vs
        rw [hph] at htracks
        obtain ⟨hle, hfor, -⟩ := htracks
        rw [Nat.sub_add_comm hle] at hgrace
        exact served_snoc.mpr (.inl ⟨rfl, hk, _, hfor, hgrace⟩)
    · rw [visit_of_ne _ hp] at h
      exact served_snoc.mpr (.inr ⟨fun hp' => absurd hp' hp, ih h⟩)

theorem promoting_of_attempts (h : Attempts m vs peer k gid) :
    k.status = .unreachable ∧ (after m vs).peerPhases peer = .promoting := by
  unfold Attempts PeerCheck.promotes at h
  split at h
  · exact ⟨‹_›, ‹_›⟩
  · cases h

/-! ## What the sweep has missed -/

theorem attempts_of_promoting (hphase : (after m vs).peerPhases peer = .promoting)
    (hk : k.status = .unreachable) (hlists : k.Lists gid) : Attempts m vs peer k gid := by
  obtain ⟨grains, hlisting, hmem⟩ := hlists
  simp only [Attempts, PeerCheck.promotes, hphase, hk, hlisting]
  exact hmem

theorem not_attempts_of_promoted (hphase : (after m vs).peerPhases peer = .promoted epoch) :
    ¬Attempts m vs peer k gid := by
  rw [Attempts, hphase]
  unfold PeerCheck.promotes
  split <;> simp_all

end FailoverLoop

open FailoverLoop in
/-- The grains of a peer are promoted only after the grace period, served anew after each recovery.
-/
theorem FailoverManager.attempts_after_grace (m : FailoverManager) (vs : List PeerVisit)
    (peer : ClusterId) (k : PeerCheck) (gid : GrainId) (h : Attempts m vs peer k gid) :
    k.status = .unreachable ∧ m.Served peer vs ∧
      ∀ past k' since, vs = past ++ (peer, k') :: since → k'.status = .healthy →
        m.Served peer since := by
  obtain ⟨hk, hphase⟩ := promoting_of_attempts h
  have hserved := served_of_promoting hphase
  refine ⟨hk, hserved, ?_⟩
  rintro past k' since rfl hk'
  exact hserved.of_healthy hk'

open FailoverLoop in
/-- Grains are retried in the cycle in which they are due, or in the next, exactly when no peer is
left with one after its sweep. -/
theorem FailoverManager.retries_iff (m : FailoverManager) (vs : List PeerVisit) :
    m.Retries vs ↔ m.SweepsAll vs := by
  constructor
  · intro h vs₁ peer k vs₂ k' gid epoch hnext hphase hk hlists hk' hlists'
    have htracks := tracks_after m peer vs₁
    rw [hphase] at htracks
    obtain ⟨t, ht, hgrace⟩ := htracks
    have hphase₂ : (after m vs₂).peerPhases peer = .promoted epoch := by
      rw [peerPhases_nextVisit hnext, hphase]
      simp only [nextPhase, hk]
    rcases h vs₁ peer k vs₂ k' gid hnext ⟨hk, t, ht, Nat.le_add_right_of_le hgrace⟩ hlists hk'
      hlists' with hatt | hatt
    · exact not_attempts_of_promoted hphase hatt
    · exact not_attempts_of_promoted hphase₂ hatt
  · intro h vs₁ peer k vs₂ k' gid hnext hdue hlists hk' hlists'
    obtain ⟨hk, t, ht, hgrace⟩ := hdue
    have htracks := tracks_after m peer vs₁
    cases hphase : (after m vs₁).peerPhases peer with
    | monitoring =>
      rw [hphase] at htracks
      exact absurd ht (htracks t)
    | primaryUnreachable since =>
      -- This visit ends the grace period, and the next is the sweep.
      rw [hphase] at htracks
      obtain ⟨hle, -, hmax⟩ := htracks
      have hserved : m.config.gracePeriod ≤ (after m vs₁).now + k.elapsed - since := by
        rw [Nat.sub_add_comm hle]
        exact Nat.le_trans hgrace (Nat.add_le_add_right (hmax t ht) _)
      refine .inr (attempts_of_promoting ?_ hk' hlists')
      rw [peerPhases_nextVisit hnext, hphase]
      simp only [nextPhase, hk]
      exact if_pos hserved
    | promoting => exact .inl (attempts_of_promoting hphase hk hlists)
    | promoted epoch =>
      exact absurd hlists' (h vs₁ peer k vs₂ k' gid epoch hnext hphase hk hlists hk')

def FailoverManager.failing : PeerCheck where
  elapsed := 10
  status := .unreachable
  listing := some [(⟨"Counter", "k"⟩, ⟨⟨"eu"⟩, 1⟩)]
  answer _ _ := none

open FailoverLoop in
/-- An outage, a recovery and a second outage : the third visit of the second outage
promotes, ten time units after the second and twenty after the first. -/
theorem FailoverManager.second_outage_serves_grace :
    let m : FailoverManager := ⟨⟨"us"⟩, ⟨10⟩⟩
    let outage : List PeerVisit := replicate 2 (⟨"eu"⟩, failing)
    let vs := outage ++ (⟨"eu"⟩, { failing with status := .healthy }) :: outage
    Attempts m vs ⟨"eu"⟩ failing ⟨"Counter", "k"⟩ ∧ m.Served ⟨"eu"⟩ outage := by
  intro m outage vs
  have h : Attempts m vs ⟨"eu"⟩ failing ⟨"Counter", "k"⟩ := by decide
  exact ⟨h, (m.attempts_after_grace vs _ _ _ h).2.2 outage _ outage rfl rfl⟩

open FailoverLoop in
/-- After the sweep of the third visit has failed, neither the fourth nor the fifth
retries. -/
theorem FailoverManager.missed_grain_left :
    let m : FailoverManager := ⟨⟨"us"⟩, ⟨10⟩⟩
    let vs (n : ℕ) : List PeerVisit := replicate n (⟨"eu"⟩, failing)
    Attempts m (vs 2) ⟨"eu"⟩ failing ⟨"Counter", "k"⟩ ∧
    ¬Attempts m (vs 3) ⟨"eu"⟩ failing ⟨"Counter", "k"⟩ ∧
    ¬Attempts m (vs 4) ⟨"eu"⟩ failing ⟨"Counter", "k"⟩ ∧ ¬m.Retries (vs 5) := by
  intro m vs
  have h₃ : ¬Attempts m (vs 3) ⟨"eu"⟩ failing ⟨"Counter", "k"⟩ := by decide
  have h₄ : ¬Attempts m (vs 4) ⟨"eu"⟩ failing ⟨"Counter", "k"⟩ := by decide
  refine ⟨by decide, h₃, h₄, fun h => ?_⟩
  have hnext : NextVisit (vs 5) (vs 3) ⟨"eu"⟩ failing (vs 4) failing :=
    ⟨prefix_refl _, [], rfl, fun v hv => (by cases hv)⟩
  have hdue : m.Due (vs 3) ⟨"eu"⟩ failing :=
    ⟨rfl, 20, ⟨[], failing, vs 2, rfl, rfl, by simp [vs, failing], rfl⟩, by decide⟩
  have hlists : failing.Lists ⟨"Counter", "k"⟩ := ⟨_, rfl, by decide⟩
  rcases h _ _ _ _ _ _ hnext hdue hlists rfl hlists with hatt | hatt
  · exact h₃ hatt
  · exact h₄ hatt

end Orlando
