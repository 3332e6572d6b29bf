import Mathlib.Data.UInt
import Orlando.ReplicationLog

/-!
# The sequences of a replication log

A log that `truncate` has emptied takes any sequence, and says that it has got to 0
(`compacted_forgets`).
-/

namespace Orlando

open List Sequenced LogBackend UInt64

/-- A log, and the sequences it has accepted for the grain, oldest first. -/
structure LogRun (L : Type) where
  log : L
  accepted : List UInt64

inductive LogCall where
  | append (e : ReplicationEntry)
  | truncate (beforeSequence : UInt64)

namespace LogRun

variable {L : Type} (B : LogBackend L) (ty gk : String)

def init : LogRun L where
  log := B.empty
  accepted := []

def step (s : LogRun L) : LogCall → Option (LogRun L)
  | .append e =>
    if e.grainType = ty ∧ e.grainKey = gk then
      some { log := (B.append s.log e).2
             accepted := match (B.append s.log e).1 with
               | .ok n => s.accepted ++ [n]
               | .error _ => s.accepted }
    else none
  | .truncate b => some { s with log := (B.truncate s.log ty gk b).2 }

def Accepts (s : LogRun L) (e : ReplicationEntry) : Prop :=
  e.grainType = ty ∧ e.grainKey = gk ∧ ∃ n, (B.append s.log e).1 = .ok n

def Forward (s : LogRun L) : Prop :=
  ∀ e, s.Accepts B ty gk e → ∀ a ∈ s.accepted, a < e.sequence

/-- The call does not empty a log that has entries, nor does it bring in a sequence that is not
compared as the number it is. -/
def Keeps (s : LogRun L) : LogCall → Prop
  | .append e => s.Accepts B ty gk e → e.sequence.toNat < B.limit
  | .truncate b => B.sequences s.log ty gk ≠ [] →
      B.sequences (B.truncate s.log ty gk b).2 ty gk ≠ []

structure Inv (s : LogRun L) : Prop where
  ordered : B.Ordered ty gk s.log
  subset : ∀ a ∈ B.sequences s.log ty gk, a ∈ s.accepted
  fits : ∀ a ∈ s.accepted, a.toNat < B.limit
  increasing : s.accepted.Pairwise (· < ·)
  forward : Sequenced.Forward (s.accepted.map B.key)
    ((B.sequences s.log ty gk).map B.key)

variable {B ty gk} {s s' : LogRun L} {e : ReplicationEntry} {calls : List LogCall}

theorem accepts_iff (hB : B.Lawful ty gk) (hord : B.Ordered ty gk s.log) :
    s.Accepts B ty gk e ↔ e.grainType = ty ∧ e.grainKey = gk ∧
      Sequenced.Accepts ((B.sequences s.log ty gk).map B.key) (B.key e.sequence) := by
  refine and_congr_right fun hgt => and_congr_right fun hgk => ?_
  by_cases hacc : Sequenced.Accepts ((B.sequences s.log ty gk).map B.key)
      (B.key e.sequence)
  · exact iff_of_true ⟨_, (hB.append_of_accepts s.log e hord hgt hgk hacc).1⟩ hacc
  · refine iff_of_false ?_ hacc
    rintro ⟨n, hn⟩
    exact (hB.append_of_not_accepts s.log e hord hgt hgk hacc).1 n hn

namespace Inv

theorem pairwise_map_key (h : Inv B ty gk s) :
    (s.accepted.map B.key).Pairwise (· < ·) := by
  refine pairwise_map.mpr (h.increasing.imp_of_mem fun ha hb hab => ?_)
  exact key_lt_of_lt (h.fits _ hb) hab

theorem subset_map_key (h : Inv B ty gk s) :
    ∀ a ∈ (B.sequences s.log ty gk).map B.key, a ∈ s.accepted.map B.key := by
  intro a ha
  obtain ⟨x, hx, rfl⟩ := mem_map.mp ha
  exact mem_map_of_mem (h.subset x hx)

theorem lt_of_accepts (hB : B.Lawful ty gk) (h : Inv B ty gk s) :
    s.Forward B ty gk := by
  intro e he a ha
  obtain ⟨-, -, hacc⟩ := (accepts_iff hB h.ordered).mp he
  exact lt_of_key_lt (h.fits a ha) (h.forward _ hacc _ (mem_map_of_mem ha))

theorem getLast?_eq (h : Inv B ty gk s) :
    (B.sequences s.log ty gk).getLast? = s.accepted.getLast? := by
  have hl := (forward_iff h.pairwise_map_key h.subset_map_key).mp h.forward
  rw [getLast?_map, getLast?_map] at hl
  exact Option.map_injective key_injective hl

theorem init (hB : B.Lawful ty gk) : Inv B ty gk (LogRun.init B) where
  ordered := by simp [LogBackend.Ordered, LogRun.init, hB.sequences_empty]
  subset := by simp [LogRun.init, hB.sequences_empty]
  fits := by simp [LogRun.init]
  increasing := List.Pairwise.nil
  forward := by simp [Sequenced.Forward, LogRun.init]

theorem exists_entry (ty gk) (n) :
    ∃ e : ReplicationEntry, e.grainType = ty ∧ e.grainKey = gk ∧ e.sequence = n :=
  ⟨⟨ty, gk, n, 0, ⟨""⟩, .fullState, []⟩, rfl, rfl, rfl⟩

section

variable (hB : B.Lawful ty gk)
include hB

section

variable (h : Inv B ty gk s)
include h

theorem append (he : s.Accepts B ty gk e) :
    (LogRun.Forward B ty gk ⟨(B.append s.log e).2, s.accepted ++ [e.sequence]⟩ ↔
        e.sequence.toNat < B.limit) ∧
      (e.sequence.toNat < B.limit →
        Inv B ty gk ⟨(B.append s.log e).2, s.accepted ++ [e.sequence]⟩) := by
  obtain ⟨hgt, hgk, hacc⟩ := (accepts_iff hB h.ordered).mp he
  obtain ⟨-, hseqs⟩ := hB.append_of_accepts s.log e h.ordered hgt hgk hacc
  have hord : B.Ordered ty gk (B.append s.log e).2 := by
    rw [LogBackend.Ordered, hseqs, map_append]
    exact pairwise_snoc_of_accepts h.ordered hacc
  have hinv : e.sequence.toNat < B.limit →
      Inv B ty gk ⟨(B.append s.log e).2, s.accepted ++ [e.sequence]⟩ := by
    intro hlt
    refine ⟨hord, ?_, ?_, ?_, ?_⟩
    · intro a ha
      rw [hseqs] at ha
      rcases mem_append.mp ha with ha | ha
      · exact mem_append_left _ (h.subset a ha)
      · exact mem_append_right _ ha
    · intro a ha
      rcases mem_append.mp ha with ha | ha
      · exact h.fits a ha
      · rw [mem_singleton.mp ha]
        exact hlt
    · refine pairwise_append.mpr ⟨h.increasing, pairwise_singleton _ _, ?_⟩
      intro a ha b hb
      rw [mem_singleton.mp hb]
      exact h.lt_of_accepts hB e he a ha
    · rw [hseqs, map_append, map_append]
      exact h.forward.snoc hacc
  refine ⟨⟨fun hf => ?_, fun hlt => (hinv hlt).lt_of_accepts hB⟩, hinv⟩
  -- A sequence that is compared as a negative number is followed by any other.
  by_contra hnot
  have hneg : B.key e.sequence < 0 := key_neg_of_le (Nat.le_of_not_lt hnot)
  obtain ⟨x, hxt, hxk, hx⟩ := exists_entry ty gk 0
  have hzero : B.key (0 : UInt64) = 0 := key_of_lt hB.limit_pos
  have hx' : LogRun.Accepts B ty gk
      ⟨(B.append s.log e).2, s.accepted ++ [e.sequence]⟩ x := by
    refine (accepts_iff hB hord).mpr ⟨hxt, hxk, fun b hb => ?_⟩
    rw [hseqs, map_append, map_singleton, getLast?_concat] at hb
    rw [← Option.some.inj hb, hx, hzero]
    exact hneg
  have hlt := lt_iff_toNat_lt.mp (hx ▸ hf x hx' e.sequence (by simp))
  cases hlt

theorem truncate (b) :
    (LogRun.Forward B ty gk
        { s with log := (B.truncate s.log ty gk b).2 } ↔
      s.Keeps B ty gk (.truncate b)) ∧
    (s.Keeps B ty gk (.truncate b) →
      Inv B ty gk { s with log := (B.truncate s.log ty gk b).2 }) := by
  have hseqs := hB.sequences_truncate s.log b
  have hmap : (B.sequences (B.truncate s.log ty gk b).2 ty gk).map B.key =
      Sequenced.truncate ((B.sequences s.log ty gk).map B.key) (B.key b) := by
    rw [hseqs, Sequenced.truncate, filter_map]
    rfl
  have hord : B.Ordered ty gk (B.truncate s.log ty gk b).2 := by
    rw [LogBackend.Ordered, hmap]
    exact List.Pairwise.filter _ h.ordered
  have hsub : ∀ a ∈ B.sequences (B.truncate s.log ty gk b).2 ty gk,
      a ∈ s.accepted := by
    intro a ha
    rw [hseqs] at ha
    exact h.subset a (mem_of_mem_filter ha)
  have hiff : Sequenced.Forward (s.accepted.map B.key)
      ((B.sequences (B.truncate s.log ty gk b).2 ty gk).map B.key) ↔
        s.Keeps B ty gk (.truncate b) := by
    rw [hmap, forward_truncate_iff h.ordered h.pairwise_map_key h.subset_map_key
      h.forward, ← hmap]
    simp [Keeps]
  have hinv : s.Keeps B ty gk (.truncate b) →
      Inv B ty gk { s with log := (B.truncate s.log ty gk b).2 } :=
    fun hk => ⟨hord, hsub, h.fits, h.increasing, hiff.mpr hk⟩
  refine ⟨⟨fun hf => hiff.mp ?_, fun hk => (hinv hk).lt_of_accepts hB⟩, hinv⟩
  have hsub' : ∀ a ∈ (B.sequences (B.truncate s.log ty gk b).2 ty
      gk).map B.key, a ∈ s.accepted.map B.key := by
    intro a ha
    obtain ⟨x, hx, rfl⟩ := mem_map.mp ha
    exact mem_map_of_mem (hsub x hx)
  refine (forward_iff h.pairwise_map_key hsub').mpr
    (Sequenced.getLast?_eq_of_forall_mem h.pairwise_map_key hsub' fun a ha hacc c hc => ?_)
  obtain ⟨x, hx, rfl⟩ := mem_map.mp ha
  obtain ⟨y, hy, rfl⟩ := mem_map.mp hc
  obtain ⟨e, hgt, hgk, rfl⟩ := exists_entry ty gk x
  exact key_lt_of_lt (h.fits _ hx) (hf e ((accepts_iff hB hord).mpr ⟨hgt, hgk, hacc⟩) y hy)

theorem step {c} (hst : s.step B ty gk c = some s') :
    (s'.Forward B ty gk ↔ s.Keeps B ty gk c) ∧
      (s.Keeps B ty gk c → Inv B ty gk s') := by
  cases c with
  | append e =>
    simp only [LogRun.step] at hst
    split_ifs at hst with hg
    cases hst
    by_cases hacc : s.Accepts B ty gk e
    · obtain ⟨-, -, hseq⟩ := (accepts_iff hB h.ordered).mp hacc
      obtain ⟨hok, -⟩ := hB.append_of_accepts s.log e h.ordered hg.1 hg.2 hseq
      rw [hok]
      obtain ⟨hiff, hinv⟩ := h.append hB hacc
      exact ⟨hiff.trans ⟨fun hlt _ => hlt, fun hk => hk hacc⟩, fun hk => hinv (hk hacc)⟩
    · have hnot : ¬ Sequenced.Accepts ((B.sequences s.log ty gk).map B.key)
          (B.key e.sequence) := fun hs => hacc ((accepts_iff hB h.ordered).mpr ⟨hg.1, hg.2, hs⟩)
      obtain ⟨herr, hlog⟩ := hB.append_of_not_accepts s.log e h.ordered hg.1 hg.2 hnot
      have hsame : (match (B.append s.log e).1 with
          | .ok n => s.accepted ++ [n]
          | .error _ => s.accepted) = s.accepted := by
        cases hres : (B.append s.log e).1 with
        | ok n => exact absurd hres (herr n)
        | error err => rfl
      rw [hsame, hlog]
      exact ⟨iff_of_true (h.lt_of_accepts hB) fun hk => absurd hk hacc, fun _ => h⟩
  | truncate b =>
    cases hst
    exact h.truncate hB b

end

theorem run {calls} (hrun : exec (LogRun.step B ty gk) (LogRun.init B) calls = some s)
    (hkeeps : Along (LogRun.step B ty gk) (LogRun.Keeps B ty gk)
      (LogRun.init B) calls) : Inv B ty gk s :=
  exec_invariant (fun _ _ _ hk hI hstep => (hI.step hB hstep).2 hk) (Inv.init hB) hkeeps hrun

theorem latestSequence_eq (h : Inv B ty gk s) :
    B.latestSequence s.log ty gk = s.accepted.getLast?.getD 0 := by
  rw [hB.latestSequence_eq s.log h.ordered, h.getLast?_eq]

end

end Inv

/-- What a replica and the primary count on. -/
structure MovesForward (B : LogBackend L) (ty gk : String) (calls : List LogCall)
    (s : LogRun L) : Prop where
  increasing : s.accepted.Pairwise (· < ·)
  latest_le : ∀ before after s₀, calls = before ++ after →
    exec (step B ty gk) (init B) before = some s₀ →
      B.latestSequence s₀.log ty gk ≤ B.latestSequence s.log ty gk
  /-- A sink that goes on after the latest sequence has its entry accepted, and a consumer that has
  got to `n` reads it. -/
  meets : ∀ e n k, e.grainType = ty → e.grainKey = gk →
    e.sequence.toNat = (B.latestSequence s.log ty gk).toNat + 1 →
    e.sequence.toNat < B.limit → n ≤ B.latestSequence s.log ty gk →
    (B.sequences s.log ty gk).length < k →
      (B.append s.log e).1 = .ok e.sequence ∧
        ∃ es, B.readFrom (B.append s.log e).2 ty gk n k = .ok es ∧
          e.sequence ∈ es.map (·.sequence)

theorem accepted_append (h : exec (step B ty gk) s calls = some s') :
    ∃ more, s'.accepted = s.accepted ++ more := by
  refine exec_invariant_of_step (I := fun t => ∃ more, t.accepted = s.accepted ++ more) ?_
    ⟨[], by simp⟩ h
  rintro t c t' ⟨more, hmore⟩ hs
  cases c with
  | append e =>
    simp only [step] at hs
    split_ifs at hs
    cases hs
    cases (B.append t.log e).1 with
    | ok n => exact ⟨more ++ [n], by simp [hmore]⟩
    | error err => exact ⟨more, hmore⟩
  | truncate b =>
    cases hs
    exact ⟨more, hmore⟩

theorem getLast?_getD_le {l more : List UInt64} (h : (l ++ more).Pairwise (· < ·)) :
    l.getLast?.getD 0 ≤ (l ++ more).getLast?.getD 0 := by
  cases hm : l.getLast? with
  | none => simp
  | some m =>
    rcases eq_nil_or_concat more with rfl | ⟨more', x, rfl⟩
    · simp [hm]
    · have hlt := (pairwise_append.mp h).2.2 m (mem_of_getLast? hm) x (by simp)
      simpa [← append_assoc] using UInt64.le_of_lt hlt

theorem movesForward (hB : B.Lawful ty gk)
    (hr : exec (step B ty gk) (init B) calls = some s)
    (hkeeps : Along (step B ty gk) (Keeps B ty gk) (init B) calls) :
    s.MovesForward B ty gk calls where
  increasing := (Inv.run hB hr hkeeps).increasing
  latest_le := by
    rintro before after s₀ rfl hs₀
    have hinv := Inv.run hB hr hkeeps
    rw [exec_append, hs₀] at hr
    obtain ⟨more, hmore⟩ := accepted_append hr
    rw [(Inv.run hB hs₀ hkeeps.of_append).latestSequence_eq hB, hinv.latestSequence_eq hB, hmore]
    exact getLast?_getD_le (hmore ▸ hinv.increasing)
  meets := by
    intro e n k hgt hgk hnext hfits hn hk
    have hinv := Inv.run hB hr hkeeps
    have hlatest := hB.latestSequence_eq s.log hinv.ordered
    have hacc : Sequenced.Accepts ((B.sequences s.log ty gk).map B.key)
        (B.key e.sequence) := by
      refine accepts_map_iff.mpr fun last hlast => key_lt_of_lt hfits ?_
      rw [hlatest, Option.mem_def.mp hlast] at hnext
      exact lt_iff_toNat_lt.mpr (by simp only [Option.getD_some] at hnext; omega)
    obtain ⟨hok, hseqs⟩ := hB.append_of_accepts s.log e hinv.ordered hgt hgk hacc
    have hord : B.Ordered ty gk (B.append s.log e).2 := by
      rw [LogBackend.Ordered, hseqs, map_append]
      exact pairwise_snoc_of_accepts hinv.ordered hacc
    obtain ⟨es, hes, hmap⟩ := hB.readFrom_eq (B.append s.log e).2 n k hord (by simp [hseqs]; omega)
    refine ⟨hok, es, hes, ?_⟩
    rw [hmap, hseqs]
    refine mem_filter.mpr ⟨by simp, decide_eq_true (key_lt_of_lt hfits ?_)⟩
    have := le_iff_toNat_le.mp hn
    exact lt_iff_toNat_lt.mpr (by omega)

/-- A log goes forward throughout a run exactly if all calls meet `Keeps`, and then the run has
moved forward. -/
structure ForwardLaw (B : LogBackend L) (ty gk : String) : Prop where
  iff : ∀ calls,
    Throughout (step B ty gk) (Forward B ty gk) (init B) calls ↔
      Along (step B ty gk) (Keeps B ty gk) (init B) calls
  moves : ∀ calls s, exec (step B ty gk) (init B) calls = some s →
    Along (step B ty gk) (Keeps B ty gk) (init B) calls →
      s.MovesForward B ty gk calls

theorem forwardLaw (hB : B.Lawful ty gk) : ForwardLaw B ty gk where
  iff := fun calls => by
    refine throughout_iff_along (fun s hI => Inv.lt_of_accepts hB hI) ?_
      (fun s c s' hI hstep => hI.step hB hstep) calls (init B) (Inv.init hB)
    intro s c _ hn
    cases c with
    | append e =>
      intro hacc
      simp only [step] at hn
      rw [if_pos ⟨hacc.1, hacc.2.1⟩] at hn
      cases hn
    | truncate b => cases hn
  moves := fun _ _ hrun hkeeps => movesForward hB hrun hkeeps

/-- A log accepts only new sequences throughout a run exactly if no call empties it or brings a
sequence that SQLite takes for negative. -/
theorem sequences_forward_iff (ty gk : String) :
    ForwardLaw inMemory ty gk ∧ ForwardLaw sqlite ty gk :=
  ⟨forwardLaw lawful_inMemory, forwardLaw lawful_sqlite⟩

def counterEntry (sequence : UInt64) : ReplicationEntry where
  grainType := "Counter"
  grainKey := "a"
  sequence := sequence
  timestampMillis := 0
  sourceCluster := ⟨"eu"⟩
  entryType := .fullState
  payload := []

/-- Two entries, a compaction that covers both, and an entry with the first sequence again. -/
def compacted : List LogCall :=
  [.append (counterEntry 1), .append (counterEntry 2), .truncate 3, .append (counterEntry 1)]

/-- After the compaction both logs are at 0, and accept the sequence 1 again. SQLite takes 1 after
`2 ^ 63`. -/
theorem compacted_forgets :
    ((exec (step inMemory "Counter" "a") (init inMemory)
      (compacted.take 3)).map fun s => inMemory.latestSequence s.log "Counter" "a") =
        some 0 ∧
    (exec (step inMemory "Counter" "a") (init inMemory)
      compacted).map accepted = some [1, 2, 1] ∧
    ((exec (step sqlite "Counter" "a") (init sqlite)
      (compacted.take 3)).map fun s => sqlite.latestSequence s.log "Counter" "a") =
        some 0 ∧
    (exec (step sqlite "Counter" "a") (init sqlite)
      compacted).map accepted = some [1, 2, 1] ∧
    (exec (step sqlite "Counter" "a") (init sqlite)
      [.append (counterEntry (2 ^ 63)), .append (counterEntry 1)]).map accepted =
        some [2 ^ 63, 1] := by
  decide +kernel

end LogRun

end Orlando
