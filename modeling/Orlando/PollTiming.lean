import Orlando.ReplicationConsumer

/-!
# When a replica is polled

Consumers that read the same log at different times cut it into different batches. A batch with a
delta is passed over as a whole, so a replica may depend on the cut.
-/

namespace Orlando

open List InMemoryReplicationLog

def passedOver (b : List ReplicationEntry) : Bool :=
  b.any (·.entryType = .delta)

def taken (batches : List (List ReplicationEntry)) : Option ReplicationEntry :=
  (batches.filter (!passedOver ·)).getLast?.bind (·.getLast?)

theorem taken_concat (batches b) :
    taken (batches ++ [b]) = if passedOver b then taken batches else b.getLast? := by
  rw [taken, filter_append, filter_singleton]
  by_cases hb : passedOver b
  · simp [hb, taken]
  · simp [hb]

theorem mem_of_taken {batches e}
    (h : taken batches = some e) : e ∈ batches.flatten ∧ e.entryType = .fullState := by
  obtain ⟨b, hb, he⟩ := Option.bind_eq_some_iff.mp h
  obtain ⟨hmem, hclean⟩ := mem_filter.mp (mem_of_getLast? hb)
  have heb : e ∈ b := mem_of_getLast? he
  refine ⟨mem_flatten.mpr ⟨b, hmem, heb⟩, ?_⟩
  have hdelta : ∀ x ∈ b, x.entryType ≠ .delta := by simpa [passedOver] using hclean
  cases htype : e.entryType with
  | fullState => rfl
  | delta => exact absurd htype (hdelta e heb)

/-- The log of a grain, its consumer with the batches it has read, oldest first, and the replica
store. -/
structure PollRun where
  log : InMemoryReplicationLog
  lastSequence : UInt64
  store : ReplicaStore
  batches : List (List ReplicationEntry)

inductive PollEvent where
  | append (e : ReplicationEntry)
  | poll

namespace PollRun

variable (ty gk : String)

def init (store : ReplicaStore) : PollRun where
  log := ∅
  lastSequence := 0
  store := store
  batches := []

def entries (s : PollRun) : List ReplicationEntry :=
  s.log.entries ty gk

def batch (s : PollRun) : List ReplicationEntry :=
  ((s.entries ty gk).filter (s.lastSequence < ·.sequence)).take 100

def replica (s : PollRun) : Option ReplicaEntry :=
  s.store.get ty gk

def step (s : PollRun) : PollEvent → Option PollRun
  | .append e =>
    if e.grainType = ty ∧ e.grainKey = gk then
      some { s with log := (s.log.append e).2 }
    else none
  | .poll =>
    let (position, store) := pollReplica s.log ty gk s.lastSequence s.store
    some { s with
      lastSequence := position
      store := store
      batches := if s.batch ty gk = [] then s.batches
        else s.batches ++ [s.batch ty gk] }

def ReadAll (s : PollRun) : Prop :=
  s.batches.flatten = s.entries ty gk

def LastClean (s : PollRun) : Prop :=
  ∀ b ∈ s.batches.getLast?, passedOver b = false

instance (s : PollRun) : Decidable (s.ReadAll ty gk) :=
  inferInstanceAs (Decidable (_ = _))

instance (s : PollRun) : Decidable s.LastClean :=
  inferInstanceAs (Decidable (∀ b ∈ s.batches.getLast?, _))

def StoresFullState (r : ReplicaStore) (s : PollRun) : Prop :=
  s.replica ty gk = r.get ty gk ∨
    ∃ e ∈ s.entries ty gk, e.entryType = .fullState ∧
      s.replica ty gk = some e.replica

structure Inv (r : ReplicaStore) (s : PollRun) : Prop where
  batches_ne : ∀ b ∈ s.batches, b ≠ []
  batches_mem : ∀ e ∈ s.batches.flatten, e ∈ s.entries ty gk
  increasing : (s.entries ty gk).Pairwise (·.sequence < ·.sequence)
  replica_eq : s.replica ty gk =
    ((taken s.batches).map (·.replica)).or (r.get ty gk)

variable {ty gk} {r : ReplicaStore} {s s' : PollRun}

theorem Inv.init : Inv ty gk r (init r) :=
  ⟨fun _ h => (not_mem_nil h).elim, fun _ h => (not_mem_nil h).elim, .nil, rfl⟩

theorem pairwise_snoc_of_last {l : List ReplicationEntry} {e : ReplicationEntry}
    (h : l.Pairwise (·.sequence < ·.sequence))
    (hlt : ∀ last ∈ l.getLast?, last.sequence < e.sequence) :
    (l ++ [e]).Pairwise (·.sequence < ·.sequence) := by
  refine pairwise_append.mpr ⟨h, pairwise_singleton _ e, fun x hx y hy => ?_⟩
  obtain rfl := mem_singleton.mp hy
  rcases eq_nil_or_concat l with rfl | ⟨l, last, rfl⟩
  · cases hx
  · rw [concat_eq_append] at h hx hlt
    have hl := hlt last (by simp)
    rcases mem_append.mp hx with hx | hx
    · exact UInt64.lt_trans ((pairwise_append.mp h).2.2 x hx last (by simp)) hl
    · exact mem_singleton.mp hx ▸ hl

theorem Inv.append (h : Inv ty gk r s) {e}
    (hs : s.step ty gk (.append e) = some s') : Inv ty gk r s' := by
  simp only [step] at hs
  split_ifs at hs with hgrain
  obtain ⟨rfl, rfl⟩ := hgrain
  cases hs
  by_cases hlt : ∀ last ∈ (s.log.entries e.grainType e.grainKey).getLast?,
      last.sequence < e.sequence
  · refine ⟨h.batches_ne, fun x hx => ?_, ?_, h.replica_eq⟩ <;>
      rw [entries, append_of_lt hlt, entries_insert_self]
    · exact mem_append_left _ (h.batches_mem x hx)
    · exact pairwise_snoc_of_last h.increasing hlt
  · obtain ⟨err, herr⟩ := append_of_not_lt hlt
    rw [herr]
    exact h

theorem get_pollReplica (ty gk) (s : PollRun) :
    (pollReplica s.log ty gk s.lastSequence s.store).2.get ty gk =
      if passedOver (s.batch ty gk) then s.replica ty gk
      else ((s.batch ty gk).getLast?.map (·.replica)).or
        (s.replica ty gk) := by
  unfold pollReplica readFrom batch entries passedOver
  dsimp only
  split_ifs
  · rfl
  · generalize List.take 100 _ = b
    cases b.getLast? with
    | none => rfl
    | some e => exact ReplicaStore.get_update_self

theorem Inv.poll (h : Inv ty gk r s)
    (hstep : s.step ty gk .poll = some s') : Inv ty gk r s' := by
  cases hstep
  have hg := get_pollReplica ty gk s
  by_cases hnil : s.batch ty gk = []
  · simp only [hnil] at hg ⊢
    exact ⟨h.batches_ne, h.batches_mem, h.increasing, hg.trans h.replica_eq⟩
  · simp only [if_neg hnil]
    refine ⟨?_, ?_, h.increasing, ?_⟩
    · intro b hb
      rcases mem_append.mp hb with hb | hb
      · exact h.batches_ne b hb
      · exact mem_singleton.mp hb ▸ hnil
    · intro x hx
      rw [flatten_concat] at hx
      rcases mem_append.mp hx with hx | hx
      · exact h.batches_mem x hx
      · exact mem_of_mem_filter (mem_of_mem_take hx)
    · rw [taken_concat]
      refine hg.trans ?_
      split_ifs
      · exact h.replica_eq
      · rw [getLast?_eq_some_getLast hnil]
        rfl

theorem Inv.run {events} (hrun : exec (step ty gk) (PollRun.init r) events = some s) :
    Inv ty gk r s := by
  refine exec_invariant_of_step (fun s e s' h hs => ?_) Inv.init hrun
  cases e with
  | append e => exact h.append hs
  | poll => exact h.poll hs

/-- The last batch that was read of the log has its last entry. -/
theorem Inv.exists_last_batch (h : Inv ty gk r s)
    (hread : s.ReadAll ty gk) {last}
    (hl : (s.entries ty gk).getLast? = some last) :
    ∃ batches b, s.batches = batches ++ [b] ∧ b.getLast? = some last := by
  rw [← hread] at hl
  rcases eq_nil_or_concat s.batches with hnil | ⟨batches, b, hbatches⟩
  · rw [hnil] at hl
    cases hl
  rw [concat_eq_append] at hbatches
  have hne : b ≠ [] := h.batches_ne b (by simp [hbatches])
  rw [hbatches, flatten_concat, getLast?_append_of_ne_nil _ hne] at hl
  exact ⟨batches, b, hbatches, hl⟩

theorem Inv.replica_eq_last (h : Inv ty gk r s) (hread : s.ReadAll ty gk)
    {last} (hlast : (s.entries ty gk).getLast? = some last)
    (hclean : s.LastClean) : s.replica ty gk = some last.replica := by
  obtain ⟨batches, b, hbatches, hb⟩ := h.exists_last_batch hread hlast
  have hpassed : passedOver b = false := hclean b (by simp [hbatches])
  rw [h.replica_eq, hbatches, taken_concat, hpassed, hb]
  rfl

theorem Inv.lastClean (h : Inv ty gk r s) (hread : s.ReadAll ty gk)
    {last} (hlast : (s.entries ty gk).getLast? = some last)
    (hr : r.get ty gk = none)
    (hs : s.replica ty gk = some last.replica) : s.LastClean := by
  obtain ⟨batches, b, hbatches, hb⟩ := h.exists_last_batch hread hlast
  intro b' hb'
  obtain rfl : b = b' := by simpa [hbatches] using hb'
  by_contra hpassed
  -- the replica is then an entry of an earlier batch, with a smaller sequence
  rw [h.replica_eq, hbatches, taken_concat, if_pos (by simpa using hpassed), hr,
    Option.or_none] at hs
  obtain ⟨e, he, heq⟩ := Option.map_eq_some_iff.mp hs
  have hsrt := h.increasing
  rw [← hread, hbatches, flatten_concat] at hsrt
  have hlt := (pairwise_append.mp hsrt).2.2 e (mem_of_taken he).1 last (mem_of_getLast? hb)
  rw [show e.sequence = last.sequence from congrArg ReplicaEntry.sequence heq] at hlt
  exact UInt64.lt_irrefl _ hlt

theorem Inv.storesFullState (h : Inv ty gk r s) :
    s.StoresFullState ty gk r := by
  rw [StoresFullState, h.replica_eq]
  cases htaken : taken s.batches with
  | none => exact Or.inl rfl
  | some e =>
    obtain ⟨hmem, hfull⟩ := mem_of_taken htaken
    exact Or.inr ⟨e, h.batches_mem e hmem, hfull, rfl⟩

/-- No consumer ever stores anything but full states of the log. Consumers that have read the whole
of one log both have its last entry, unless one has read it in one batch with a delta, and one that
began with no replica has it then only. -/
theorem replica_of_schedules {ty gk : String} {events events' : List PollEvent}
    {r r' : ReplicaStore} {s s' : PollRun}
    (hrun : exec (step ty gk) (PollRun.init r) events = some s)
    (hrun' : exec (step ty gk) (PollRun.init r') events' = some s') :
    s.StoresFullState ty gk r ∧ s'.StoresFullState ty gk r' ∧
    ∀ last, s.ReadAll ty gk → s'.ReadAll ty gk →
      s'.entries ty gk = s.entries ty gk →
      (s.entries ty gk).getLast? = some last →
      (s.LastClean → s'.LastClean → s.replica ty gk = s'.replica ty gk ∧
        s.replica ty gk = some last.replica) ∧
      (r.get ty gk = none →
        (s.replica ty gk = some last.replica ↔ s.LastClean)) := by
  have hinv := Inv.run hrun
  have hinv' := Inv.run hrun'
  refine ⟨hinv.storesFullState, hinv'.storesFullState, fun last hread hread' hlog hlast => ?_⟩
  have hs := hinv.replica_eq_last hread hlast
  refine ⟨fun hclean hclean' => ⟨?_, hs hclean⟩, fun hr => ⟨hinv.lastClean hread hlast hr, hs⟩⟩
  exact (hs hclean).trans (hinv'.replica_eq_last hread' (hlog ▸ hlast) hclean').symm

def entry (entryType : ReplicationEntryType) (sequence : UInt64) : ReplicationEntry :=
  ⟨"Counter", "a", sequence, 0, ⟨"eu"⟩, entryType, [sequence.toUInt8]⟩

/-- After a delta, two full states that are read in one batch, or one by one. -/
def fullStates (together : Bool) : List PollEvent :=
  [.append (entry .delta 1), .poll, .append (entry .fullState 2)] ++
    (if together then [] else [.poll]) ++ [.append (entry .fullState 3), .poll]

theorem fullStates_taken : ∃ s s',
    exec (step "Counter" "a") (init ∅) (fullStates true) = some s ∧
    exec (step "Counter" "a") (init ∅) (fullStates false) = some s' ∧
    s.replica "Counter" "a" = s'.replica "Counter" "a" ∧
      s.replica "Counter" "a" = some (entry .fullState 3).replica := by
  have hruns : ∀ together, ∃ s,
      exec (step "Counter" "a") (init ∅) (fullStates together) = some s ∧
        s.ReadAll "Counter" "a" ∧ s.LastClean ∧ s.entries "Counter" "a" =
          [entry .delta 1, entry .fullState 2, entry .fullState 3] := by
    rintro (_ | _) <;> exact ⟨_, rfl, by decide, by decide, by decide⟩
  obtain ⟨s, hs, hread, hclean, hlog⟩ := hruns true
  obtain ⟨s', hs', hread', hclean', hlog'⟩ := hruns false
  obtain ⟨-, -, hlast⟩ := replica_of_schedules hs hs'
  exact ⟨s, s', hs, hs', (hlast _ hread hread' (hlog'.trans hlog.symm) (by rw [hlog]; rfl)).1
    hclean hclean'⟩

/-- A delta and a full state : the consumer that reads them in one batch has no replica. -/
theorem fullState_passed_over : ∃ s s',
    exec (step "Counter" "a") (init ∅) [.append (entry .delta 1),
      .append (entry .fullState 2), .poll] = some s ∧
    exec (step "Counter" "a") (init ∅) [.append (entry .delta 1), .poll,
      .append (entry .fullState 2), .poll] = some s' ∧
    s.ReadAll "Counter" "a" ∧ s'.ReadAll "Counter" "a" ∧
    s.entries "Counter" "a" = [entry .delta 1, entry .fullState 2] ∧
    s'.entries "Counter" "a" = [entry .delta 1, entry .fullState 2] ∧
    s.replica "Counter" "a" = none ∧
      s'.replica "Counter" "a" = some (entry .fullState 2).replica :=
  ⟨_, _, rfl, rfl, by decide, by decide, by decide, by decide, by decide, by decide⟩

end PollRun

end Orlando
