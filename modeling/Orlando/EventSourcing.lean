import Orlando.Journal

/-!
# The state of a journaled grain is the fold of its journal

Every entry of the journal reads back as the event it was written for, and the snapshot is a
checkpoint of those events (`JournaledGrain.Recorded`). An activation is sound if its state is a
checkpoint at its own sequence number, and stays so through an append if it has not missed an event
before it (`JournaledGrain.UpToDate`, `Step.sound`).
-/

namespace Orlando

open List InMemoryJournalStore JournalEntry

variable {S E : Type}

/-! ## The journal -/

namespace GrainJournal

def Numbered (j : GrainJournal) : Prop :=
  j.events.map JournalEntry.sequence = List.range' 1 j.events.length

theorem Numbered.lastSequence {j : GrainJournal} (h : j.Numbered) :
    j.lastSequence = j.events.length := by
  unfold GrainJournal.lastSequence
  rw [← getLast?_map, h, getLast?_range']
  split
  · rename_i hz
    rw [hz]
    rfl
  · simp

def entriesFrom (n : ℕ) (bs : List Bytes) : List JournalEntry :=
  (bs.zipIdx n).map fun p => ⟨p.2, p.1⟩

theorem sequence_entriesFrom (n bs) :
    (entriesFrom n bs).map sequence = range' n bs.length := by
  rw [entriesFrom, map_map]
  exact zipIdx_map_snd n bs

theorem eventBytes_entriesFrom (n bs) : (entriesFrom n bs).map eventBytes = bs := by
  rw [entriesFrom, map_map]
  exact zipIdx_map_fst n bs

theorem foldl_append_eq (bs) : ∀ (j : GrainJournal) (n : ℕ), bs.foldl
      (fun (r : GrainJournal × ℕ) bytes =>
        ({ r.1 with events := r.1.events ++ [⟨r.2 + 1, bytes⟩] }, r.2 + 1)) (j, n) =
      ({ j with events := j.events ++ entriesFrom (n + 1) bs }, n + bs.length) := by
  induction bs with
  | nil =>
    intro j n
    simp [entriesFrom]
  | cons b bs ih =>
    intro j n
    rw [foldl_cons, ih]
    simp [entriesFrom]
    omega

theorem append_eq (j : GrainJournal) (bs) :
    j.append bs = ({ j with events := j.events ++ entriesFrom (j.lastSequence + 1) bs },
      j.lastSequence + bs.length) :=
  foldl_append_eq bs j j.lastSequence

theorem Numbered.append {j : GrainJournal} (h : j.Numbered) (bs) : (j.append bs).1.Numbered := by
  have hlen : (entriesFrom (j.lastSequence + 1) bs).length = bs.length := by
    simp [entriesFrom]
  rw [append_eq, Numbered, map_append, sequence_entriesFrom, h, h.lastSequence,
    length_append, ← h.lastSequence, hlen, h.lastSequence]
  rw [Nat.add_comm j.events.length 1, range'_append_1]

end GrainJournal

namespace InMemoryJournalStore

variable (d : InMemoryJournalStore) (gid : GrainId)

@[simp] theorem journal_append (bs) :
    (d.append gid bs).1.journal gid = ((d.journal gid).append bs).1 := by
  simp [append, journal]

theorem append_snd (bs : List Bytes) :
    (d.append gid bs).2 = (d.journal gid).lastSequence + bs.length :=
  congrArg Prod.snd ((d.journal gid).append_eq bs)

@[simp] theorem journal_saveSnapshot (n bytes) :
    (d.saveSnapshot gid n bytes).journal gid =
      { d.journal gid with snapshot := some (n, bytes) } := by
  simp [saveSnapshot, journal]

end InMemoryJournalStore

def JournaledEvent.fault : JournaledEvent S E → Option PersistenceError
  | .loadSnapshot fault => fault
  | .loadEvents fault => fault
  | .append fault => fault
  | .saveSnapshot fault => fault
  | _ => none

def JournaledEvent.appendFault : JournaledEvent S E → Option PersistenceError
  | .append fault => fault
  | _ => none

/-! ## Loading -/

namespace JournaledGrain

variable {G : JournaledGrain S E}

def Decodes (G : JournaledGrain S E) (entries : List JournalEntry) (es : List E) : Prop :=
  entries.map (fun e => G.events.deserialize e.eventBytes) = es.map .ok

theorem foldl_replayEntry : ∀ {entries es} (s : S) (n : ℕ), G.Decodes entries es →
    entries.map sequence = range' (n + 1) entries.length →
    entries.foldl G.replayEntry (s, n) = (es.foldl G.apply s, n + es.length)
  | [], es, s, n, hd, _ => by
    obtain rfl : es = [] := map_eq_nil_iff.mp hd.symm
    rfl
  | x :: entries, [], s, n, hd, _ => by
    cases hd
  | x :: entries, e :: es, s, n, hd, hn => by
    obtain ⟨hx, hd⟩ : G.events.deserialize x.eventBytes = .ok e ∧ G.Decodes entries es :=
      cons.inj hd
    rw [map_cons, length_cons, range'_succ] at hn
    obtain ⟨hseq, hn⟩ := cons.inj hn
    have hstep : G.replayEntry (s, n) x = (G.apply s e, n + 1) := by
      rw [replayEntry, hx, hseq]
    rw [foldl_cons, hstep, foldl_replayEntry _ _ hd hn, foldl_cons, length_cons]
    rw [Nat.add_assoc, Nat.add_comm 1]

structure Recorded (G : JournaledGrain S E) (gid : GrainId) (j : Journaled S E) : Prop where
  numbered : (j.store.journal gid).Numbered
  decoded : G.Decodes (j.store.journal gid).events j.events
  snapshot : ∀ n bytes, j.store.loadSnapshot gid = some (n, bytes) → ∃ s,
    G.states.deserialize bytes = .ok s ∧ Checkpoint G.apply G.grain.default j.events n s

variable {gid : GrainId} {j j' : Journaled S E}

section

variable (h : G.Recorded gid j)
include h

theorem Recorded.length_eq : (j.store.journal gid).events.length = j.events.length := by
  simpa using congrArg length h.decoded

theorem Recorded.lastSequence : (j.store.journal gid).lastSequence = j.events.length := by
  rw [h.numbered.lastSequence, h.length_eq]

theorem Recorded.restore {fault s n}
    (hr : G.restore (storeAnswer fault (j.store.loadSnapshot gid)) = (s, n)) :
    Checkpoint G.apply G.grain.default j.events n s := by
  have hzero : (G.grain.default, 0) = (s, n) → Checkpoint G.apply G.grain.default j.events n s := by
    rintro heq
    cases heq
    exact .zero _ _ _
  cases fault with
  | some err => exact hzero hr
  | none =>
    cases hs : j.store.loadSnapshot gid with
    | none =>
      rw [hs] at hr
      exact hzero hr
    | some p =>
      obtain ⟨n', bytes⟩ := p
      obtain ⟨s', hd, hc⟩ := h.snapshot n' bytes hs
      have heq : (s', n') = (s, n) := by
        rw [← hr, hs]
        simp only [storeAnswer, JournaledGrain.restore, hd]
      cases heq
      exact hc

theorem Recorded.replay {s n} (hc : Checkpoint G.apply G.grain.default j.events n s) :
    G.replayEvents (s, n) (.ok (j.store.loadEventsAfter gid n)) =
      (G.fold j.events, j.events.length) := by
  have hafter : j.store.loadEventsAfter gid n = (j.store.journal gid).events.drop n := by
    rw [← filter_eq_drop_of_numbered (k := 0) h.numbered]
    simp [loadEventsAfter]
  have hdec : G.Decodes ((j.store.journal gid).events.drop n) (j.events.drop n) := by
    rw [Decodes, map_drop, h.decoded, map_drop]
  have hnum : ((j.store.journal gid).events.drop n).map sequence =
      range' (n + 1) ((j.store.journal gid).events.drop n).length := by
    rw [map_drop, h.numbered, drop_range', length_drop, Nat.add_comm]
    simp
  rw [hafter, replayEvents, foldl_replayEntry s n hdec hnum, hc.replay, length_drop,
    Nat.add_sub_cancel' hc.le]
  rfl

theorem Recorded.loadState : G.loadState j.store gid = (G.fold j.events, j.events.length) := by
  obtain ⟨s, n, hr⟩ : ∃ s n, G.restore (storeAnswer none (j.store.loadSnapshot gid)) = (s, n) :=
    ⟨_, _, rfl⟩
  have hstart : G.restore (.ok (j.store.loadSnapshot gid)) = (s, n) := hr
  rw [JournaledGrain.loadState, hstart]
  exact h.replay (h.restore hr)

/-! ## Soundness -/

end

structure TaskSound (G : JournaledGrain S E) (events : List E) (t : JournaledTask S E) :
    Prop where
  loading : ∀ s n, t.phase = .loadEvents s n → Checkpoint G.apply G.grain.default events n s
  live : t.phase.loaded = true →
    Checkpoint G.apply G.grain.default events t.journaled.sequence t.journaled.state
  held : ∀ bytes, t.phase.snapshot = some bytes →
    G.states.serialize t.journaled.state = .ok bytes

structure Sound (G : JournaledGrain S E) (gid : GrainId) (j : Journaled S E) : Prop where
  recorded : G.Recorded gid j
  task : ∀ t, j.task = some t → G.TaskSound j.events t

variable {t : JournaledTask S E} {events : List E} {a : JournaledAnswer E} {bytes : Bytes}

theorem Recorded.move (h : G.Recorded gid j) (ht : G.TaskSound j.events t) :
    G.Sound gid (j.move t) := by
  refine ⟨⟨h.numbered, h.decoded, h.snapshot⟩, ?_⟩
  rintro t' ht'
  cases ht'
  exact ht

theorem taskSound_of_live
    (hc : Checkpoint G.apply G.grain.default events t.journaled.sequence t.journaled.state)
    (hl : t.phase.loaded = true) (hs : t.phase.snapshot = none) : G.TaskSound events t where
  loading := fun s n h => absurd hl (by rw [h]; exact Bool.false_ne_true)
  live := fun _ => hc
  held := fun _ h => nomatch hs.symm.trans h

theorem loaded_of_snapshot {ph : JournaledPhase S E} (h : ph.snapshot = some bytes) :
    ph.loaded = true := by
  cases ph with
  | loadSnapshot | loadEvents => cases h
  | _ => rfl

theorem taskSound_of_unloaded (hl : t.phase.loaded = false)
    (hc : ∀ s n, t.phase = .loadEvents s n → Checkpoint G.apply G.grain.default events n s) :
    G.TaskSound events t where
  loading := hc
  live := fun h => absurd (hl.symm.trans h) Bool.false_ne_true
  held := fun _ h => absurd (hl.symm.trans (loaded_of_snapshot h)) Bool.false_ne_true

theorem taskSound_settle {fsm}
    (hc : Checkpoint G.apply G.grain.default events t.journaled.sequence t.journaled.state) :
    G.TaskSound events (t.settle fsm) := by
  refine taskSound_of_live hc ?_ ?_
  · exact t.phase_settle (P := fun ph => ph.loaded = true) rfl rfl rfl fsm
  · exact t.phase_settle (P := fun ph => ph.snapshot = none) rfl rfl rfl fsm

section

variable (h : G.Recorded gid j)
include h

theorem Recorded.vacate : G.Sound gid { j with task := none } where
  recorded := ⟨h.numbered, h.decoded, h.snapshot⟩
  task := fun _ h => absurd h (Option.some_ne_none _).symm

theorem Recorded.reply (a)
    (hc : Checkpoint G.apply G.grain.default j.events t.journaled.sequence t.journaled.state) :
    G.Sound gid (j.reply t a) := by
  refine ⟨⟨h.numbered, h.decoded, h.snapshot⟩, ?_⟩
  rintro t' ht'
  cases ht'
  exact taskSound_settle hc

theorem Recorded.applyEvents {a}
    (hc : Checkpoint G.apply G.grain.default j.events t.journaled.sequence (a.emitted.foldl G.apply
      t.journaled.state)) : G.Sound gid (G.applyEvents j t a) := by
  unfold JournaledGrain.applyEvents
  dsimp only
  split
  · split
    · rename_i bytes hb
      refine h.move ⟨by simp, fun _ => hc, ?_⟩
      rintro bytes' hbytes
      cases hbytes
      exact hb
    · exact h.reply a hc
  · exact h.reply a hc

end

theorem deserialize_encodeEvents (hround : G.events.RoundTrips)
    (henc : ∀ e, ∃ b, G.events.serialize e = .ok b) (es) :
    (G.encodeEvents es).map G.events.deserialize = es.map .ok := by
  induction es with
  | nil => rfl
  | cons e es ih =>
    obtain ⟨b, hb⟩ := henc e
    rw [encodeEvents, filterMap_cons, hb]
    exact congrArg₂ _ (hround e b hb) ih

section

variable (henc : ∀ e, ∃ b, G.events.serialize e = .ok b)
include henc

theorem length_encodeEvents (es) : (G.encodeEvents es).length = es.length := by
  induction es with
  | nil => rfl
  | cons e es ih =>
    obtain ⟨b, hb⟩ := henc e
    rw [encodeEvents, filterMap_cons, hb]
    exact congrArg Nat.succ ih

theorem filter_encodes (es : List E) : es.filter G.encodes = es := by
  rw [filter_eq_self]
  intro e _
  obtain ⟨b, hb⟩ := henc e
  rw [encodes, hb]

end

theorem Recorded.append (h : G.Recorded gid j) (hround : G.events.RoundTrips)
    (henc : ∀ e, ∃ b, G.events.serialize e = .ok b) (emitted : List E) :
    G.Recorded gid { j with
      store := (j.store.append gid (G.encodeEvents emitted)).1
      events := j.events ++ emitted } := by
  have hdec := deserialize_encodeEvents hround henc emitted
  refine ⟨?_, ?_, ?_⟩
  · rw [journal_append]
    exact h.numbered.append _
  · rw [journal_append, GrainJournal.append_eq, Decodes, map_append, map_append, h.decoded, ← hdec]
    refine congrArg₂ _ rfl ?_
    calc _ = ((GrainJournal.entriesFrom _ _).map eventBytes).map
          G.events.deserialize := map_map.symm
      _ = _ := by rw [GrainJournal.eventBytes_entriesFrom]
  · intro n bytes hs
    rw [loadSnapshot, journal_append, GrainJournal.append_eq] at hs
    obtain ⟨s, hd, hc⟩ := h.snapshot n bytes hs
    exact ⟨s, hd, hc.append emitted⟩

theorem Recorded.saveSnapshot (h : G.Recorded gid j) (hround : G.states.RoundTrips) {n s}
    (hc : Checkpoint G.apply G.grain.default j.events n s) (hb : G.states.serialize s = .ok bytes) :
    G.Recorded gid { j with store := j.store.saveSnapshot gid n bytes } := by
  refine ⟨?_, ?_, ?_⟩
  · rw [journal_saveSnapshot]
    exact h.numbered
  · rw [journal_saveSnapshot]
    exact h.decoded
  · intro n' bytes' hs
    rw [loadSnapshot, journal_saveSnapshot] at hs
    cases hs
    exact ⟨s, hround s bytes hb, hc⟩

def HooksKeepState (G : JournaledGrain S E) : Prop :=
  ∀ s, (G.grain.onActivate s).state = s ∧ (G.grain.onDeactivate s).state = s

/-- The hooks leave the state alone, and states and events survive `bincode`. A state that
cannot be written makes no snapshot, an event must be writable. -/
structure Lossless (G : JournaledGrain S E) : Prop where
  hooks : G.HooksKeepState
  states : G.states.RoundTrips
  events : G.events.RoundTrips
  encodes : ∀ e, ∃ bytes, G.events.serialize e = .ok bytes

def UpToDate (gid : GrainId) (j : Journaled S E) : JournaledEvent S E → Prop
  | .append _ => ∀ t, j.task = some t →
      t.journaled.sequence = (j.store.journal gid).lastSequence
  | _ => True

theorem deactivateStep_sequence (t) :
    (G.deactivateStep t).journaled.sequence = t.journaled.sequence := by
  unfold deactivateStep
  dsimp only
  split <;> rfl

theorem Recorded.deactivate (h : G.Recorded gid j) (hhooks : G.HooksKeepState)
    (hc : Checkpoint G.apply G.grain.default j.events t.journaled.sequence t.journaled.state) :
    G.Sound gid (j.move (G.deactivateStep t)) := by
  refine h.move ?_
  have hc' : Checkpoint G.apply G.grain.default j.events t.journaled.sequence
      (G.grain.onDeactivate t.journaled.state).state := by
    rw [(hhooks _).2]
    exact hc
  unfold deactivateStep
  dsimp only
  split
  · rename_i bytes hb
    refine ⟨by simp, fun _ => hc', ?_⟩
    rintro bytes' hbytes
    cases hbytes
    exact hb
  · exact taskSound_of_live hc' rfl rfl

theorem Sound.append (h : G.Sound gid j) (hG : G.Lossless) (ht : j.task = some t)
    {emitted} (hp : t.phase = .append emitted)
    (hseq : t.journaled.sequence = (j.store.journal gid).lastSequence) :
    G.Sound gid (G.appendStep gid j t emitted none) := by
  have hlive := (h.task t ht).live (hp ▸ rfl)
  rw [hseq, h.recorded.lastSequence] at hlive
  unfold appendStep
  simp only [filter_encodes hG.encodes]
  refine (h.recorded.append hG.events hG.encodes emitted).applyEvents ?_
  dsimp only
  rw [append_snd, length_encodeEvents hG.encodes, h.recorded.lastSequence, ← length_append]
  exact hlive.extend emitted

theorem init_sound : G.Sound gid .init := by
  refine ⟨⟨rfl, rfl, ?_⟩, ?_⟩
  · rintro n bytes ⟨⟩
  · rintro t ⟨⟩

theorem Step.sound (hs : G.Step gid j e j') (hG : G.Lossless) (hfault : e.appendFault = none)
    (hup : UpToDate gid j e) (h : G.Sound gid j) : G.Sound gid j' := by
  have hrec := h.recorded
  cases hs with
  | spawn _ => exact hrec.move (taskSound_of_unloaded rfl (by rintro s n ⟨⟩))
  | crash _ | remove _ _ => exact hrec.vacate
  | restore ht hp hr =>
    refine hrec.move (taskSound_of_unloaded rfl ?_)
    rintro s n hphase
    obtain ⟨rfl, rfl⟩ := JournaledPhase.loadEvents.inj hphase
    exact hrec.restore hr
  | @replay t fault s s' n n' ht hp hr =>
    have hc := (h.task t ht).loading s n hp
    refine hrec.move (taskSound_of_live ?_ rfl rfl)
    cases fault with
    | none =>
      obtain ⟨rfl, rfl⟩ := Prod.mk.inj ((hrec.replay hc).symm.trans hr)
      exact .full rfl
    | some err =>
      cases hr
      exact hc
  | @activate t s fsm ht hp hs =>
    have hlive := (h.task t ht).live (hp ▸ rfl)
    rw [(hG.hooks _).1] at hs
    subst hs
    exact hrec.move (taskSound_settle hlive)
  | recv ht hp | emit ht hp | finalRefused ht hp =>
    exact hrec.move (taskSound_of_live ((h.task _ ht).live (hp ▸ rfl)) rfl rfl)
  | leave ht hp | panic ht hp => exact hrec.move (taskSound_settle ((h.task _ ht).live (hp ▸ rfl)))
  | @silent t msg ht hp _ => exact hrec.reply _ ((h.task t ht).live (hp ▸ rfl))
  | @unwritten t msg emitted ht hp hm hne hnil =>
    have hl := length_encodeEvents hG.encodes emitted
    rw [hnil] at hl
    exact absurd (length_eq_zero_iff.mp hl.symm) hne
  | @append t emitted fault ht hp =>
    obtain rfl : fault = none := hfault
    exact h.append hG ht hp (hup t ht)
  | @saveSnapshot t bytes a fault ht hp =>
    have hlive := (h.task t ht).live (hp ▸ rfl)
    have hheld := (h.task t ht).held bytes (hp ▸ rfl)
    cases fault with
    | none => exact (hrec.saveSnapshot hG.states hlive hheld).reply a hlive
    | some err => exact hrec.reply a hlive
  | @deactivate t ht hp => exact hrec.deactivate hG.hooks ((h.task t ht).live (hp ▸ rfl))
  | @finalSnapshot t bytes ht hp =>
    have hlive := (h.task t ht).live (hp ▸ rfl)
    have hheld := (h.task t ht).held bytes (hp ▸ rfl)
    exact (hrec.saveSnapshot hG.states hlive hheld).move (taskSound_of_live hlive rfl rfl)

def journaledEvents (G : JournaledGrain S E) (store : InMemoryJournalStore) (gid : GrainId) :
    List E :=
  (store.loadEvents gid).filterMap fun entry => (G.events.deserialize entry.eventBytes).toOption

theorem Recorded.journaledEvents (h : G.Recorded gid j) :
    G.journaledEvents j.store gid = j.events := by
  have hmap : ((j.store.journal gid).events.map
      fun e => G.events.deserialize e.eventBytes).filterMap Except.toOption = j.events := by
    rw [h.decoded, filterMap_map]
    exact filterMap_some
  rw [filterMap_map] at hmap
  exact hmap

/-! ## Runs without failures -/

def Current (j : Journaled S E) : Prop :=
  ∀ t, j.task = some t → t.phase.loaded = true → t.journaled.sequence = j.events.length

theorem current_move (h : t.phase.loaded = true → t.journaled.sequence = j.events.length) :
    Current (j.move t) := by
  rintro t' ht'
  cases ht'
  exact h

theorem current_of_unloaded (hl : t.phase.loaded = false) : Current (j.move t) :=
  current_move fun h => absurd (hl.symm.trans h) Bool.false_ne_true

theorem current_of_vacant (h : j.task = none) : Current j :=
  fun _ ht => absurd (h.symm.trans ht) (Option.some_ne_none _).symm

theorem current_reply (h : t.journaled.sequence = j.events.length) : Current (j.reply t a) := by
  rintro t' ht' _
  cases ht'
  exact h

theorem current_applyEvents (h : t.journaled.sequence = j.events.length) :
    Current (G.applyEvents j t a) := by
  unfold applyEvents
  dsimp only
  split
  · split
    · exact current_move fun _ => h
    · exact current_reply h
  · exact current_reply h

theorem Current.upToDate (h : Current j) (hs : G.Step gid j e j') (hsound : G.Sound gid j) :
    UpToDate gid j e := by
  cases hs with
  | append ht hp =>
    rintro t' ht'
    cases ht.symm.trans ht'
    rw [hsound.recorded.lastSequence]
    exact h _ ht (hp ▸ rfl)
  | leave _ _ he => rcases he with rfl | rfl <;> trivial
  | _ => trivial

theorem Step.current (hs : G.Step gid j e j') (hG : G.Lossless) (hfault : e.fault = none)
    (hsd : G.Sound gid j) (h : Current j) : Current j' := by
  cases hs with
  | spawn _ | restore _ _ _ => exact current_of_unloaded rfl
  | crash _ | remove _ _ => exact current_of_vacant rfl
  | @replay t fault s s' n n' ht hp hr =>
    obtain rfl : fault = none := hfault
    have hload := hsd.recorded.replay ((hsd.task t ht).loading s n hp)
    obtain ⟨-, rfl⟩ := Prod.mk.inj (hload.symm.trans hr)
    exact current_move fun _ => rfl
  | activate ht hp | recv ht hp | leave ht hp | panic ht hp | emit ht hp | finalRefused ht hp =>
    have hcur := h _ ht (hp ▸ rfl)
    exact current_move fun _ => hcur
  | @silent t msg ht hp _ => exact current_reply (h t ht (hp ▸ rfl))
  | @unwritten t msg emitted ht hp _ _ _ => exact current_applyEvents (h t ht (hp ▸ rfl))
  | @append t emitted fault ht hp =>
    obtain rfl : fault = none := hfault
    unfold appendStep
    simp only [filter_encodes hG.encodes]
    refine current_applyEvents ?_
    dsimp only
    rw [append_snd, length_encodeEvents hG.encodes, hsd.recorded.lastSequence, length_append]
  | @saveSnapshot t bytes a fault ht hp =>
    have hcur := h t ht (hp ▸ rfl)
    obtain rfl : fault = none := hfault
    exact current_reply hcur
  | @deactivate t ht hp =>
    refine current_move fun _ => ?_
    rw [deactivateStep_sequence]
    exact h t ht (hp ▸ rfl)
  | @finalSnapshot t bytes ht hp =>
    rintro t' ht' _
    cases ht'
    exact h t ht (hp ▸ rfl)

/-- Without failing journal calls the state of an activation is the fold of the whole journal. -/
theorem event_sourcing (G : JournaledGrain S E) (gid : GrainId) (es : List (JournaledEvent S E))
    (j : Journaled S E) (hhooks : G.HooksKeepState) (hstates : G.states.RoundTrips)
    (hevents : G.events.RoundTrips) (hencodes : ∀ e, ∃ bytes, G.events.serialize e = .ok bytes)
    (hfault : ∀ e ∈ es, e.fault = none) (hrun : exec (G.step gid) .init es = some j) :
    (∀ t, j.task = some t → t.phase.loaded = true →
      t.journaled.state = G.fold (G.journaledEvents j.store gid)) ∧
    G.loadState j.store gid =
      (G.fold (G.journaledEvents j.store gid), (j.store.journal gid).lastSequence) := by
  have hG : G.Lossless := ⟨hhooks, hstates, hevents, hencodes⟩
  have hinv := exec_invariant (P := fun _ e => e.fault = none ∧ True)
    (I := fun j => G.Sound gid j ∧ Current j)
    (fun s e s' hf hI hstep => by
      have hs := step_sound hstep
      refine ⟨hs.sound hG ?_ (hI.2.upToDate hs hI.1) hI.1, hs.current hG hf.1 hI.1 hI.2⟩
      cases e <;> first | exact hf.1 | rfl)
    ⟨init_sound, current_of_vacant rfl⟩ (Along.and_forall hfault (along_true es _)) hrun
  obtain ⟨hsound, hcurrent⟩ := hinv
  rw [hsound.recorded.journaledEvents, hsound.recorded.lastSequence]
  refine ⟨?_, hsound.recorded.loadState⟩
  intro t ht hl
  have hlive := (hsound.task t ht).live hl
  rw [hcurrent t ht hl] at hlive
  exact hlive.eq_fold

def tally : JournaledGrain UInt8 UInt8 where
  grain := ⟨0, .ok, .ok, false⟩
  apply := fun s e => s + e
  snapshotInterval := 2
  states := ⟨fun s => .ok [s], fun b => match b with
    | [s] => .ok s
    | _ => .error (.deserialization "length")⟩
  events := ⟨fun s => .ok [s], fun b => match b with
    | [s] => .ok s
    | _ => .error (.deserialization "length")⟩

theorem tally_lossless : tally.Lossless := by
  refine ⟨fun s => ⟨rfl, rfl⟩, ?_, ?_, fun e => ⟨[e], rfl⟩⟩
  · intro s b hb
    obtain rfl : [s] = b := Except.ok.inj hb
    rfl
  · intro s b hb
    obtain rfl : [s] = b := Except.ok.inj hb
    rfl

/-- A message that emits the events `es` whatever the state. -/
def emitting (es : List UInt8) : JournaledMessage UInt8 UInt8 where
  handle := fun _ => some es

def activation (eventsFault : Option PersistenceError) : List (JournaledEvent UInt8 UInt8) :=
  [.spawn, .loadSnapshot none, .loadEvents eventsFault, .onActivate]

/-- Two messages with a snapshot between them, a crash and a new activation. -/
theorem event_sourcing_tally :
    ∃ j, exec (tally.step ⟨"Tally", "k"⟩) .init
        (activation none ++ [.recv (emitting [1, 2]), .handle, .append none, .saveSnapshot none,
          .recv (emitting [4]), .handle, .append none, .crash] ++ activation none) = some j ∧
      tally.journaledEvents j.store ⟨"Tally", "k"⟩ = [1, 2, 4] ∧
      (∀ t, j.task = some t → t.phase.loaded = true → t.journaled.state = 7) ∧
      tally.loadState j.store ⟨"Tally", "k"⟩ = (7, 3) := by
  -- The run is evaluated once, for what is read off its last state.
  let observe (j : Journaled UInt8 UInt8) := (tally.journaledEvents j.store ⟨"Tally", "k"⟩,
    (j.store.journal ⟨"Tally", "k"⟩).lastSequence)
  refine (Option.map_eq_some_iff (f := observe) (b := ([1, 2, 4], 3)).mp ?_).imp fun j h =>
    ⟨h.1, (Prod.mk.inj h.2).1, ?_⟩
  · decide +kernel
  · obtain ⟨hrun, hobserved⟩ := h
    obtain ⟨hes, hlast⟩ := Prod.mk.inj hobserved
    obtain ⟨hooks, hstates, hevents, hencodes⟩ := tally_lossless
    obtain ⟨hlive, hload⟩ := event_sourcing tally ⟨"Tally", "k"⟩ _ j hooks hstates hevents hencodes
      (by decide +kernel) hrun
    rw [hes] at hlive hload
    exact ⟨hlive, by rw [hload, hlast]; rfl⟩

/-! ## Failing reads -/

instance UpToDate.decidable (gid : GrainId) (j : Journaled S E) :
    (e : JournaledEvent S E) → Decidable (UpToDate gid j e)
  | .append _ =>
    match ht : j.task with
    | none => isTrue fun _ h => nomatch ht.symm.trans h
    | some t =>
      decidable_of_iff (t.journaled.sequence = (j.store.journal gid).lastSequence)
        ⟨fun h _ h' => Option.some.inj (ht.symm.trans h') ▸ h, fun h => h t ht⟩
  | .spawn | .loadSnapshot _ | .loadEvents _ | .onActivate | .recv _ | .closed | .idleTimeout
  | .handle | .saveSnapshot _ | .onDeactivate | .remove | .crash => isTrue trivial

/-- With failing reads the snapshots stay checkpoints as long as no activation appends to a journal
it has not read to its end. -/
theorem snapshots_sound (G : JournaledGrain S E) (gid : GrainId) (es : List (JournaledEvent S E))
    (j : Journaled S E) (hhooks : G.HooksKeepState) (hstates : G.states.RoundTrips)
    (hevents : G.events.RoundTrips) (hencodes : ∀ e, ∃ bytes, G.events.serialize e = .ok bytes)
    (happend : ∀ e ∈ es, e.appendFault = none) (hguard : Along (G.step gid) (UpToDate gid) .init es)
    (hrun : exec (G.step gid) .init es = some j) :
    (∀ n bytes, j.store.loadSnapshot gid = some (n, bytes) →
      n ≤ (G.journaledEvents j.store gid).length ∧
      G.states.deserialize bytes = .ok (G.fold ((G.journaledEvents j.store gid).take n))) ∧
    G.loadState j.store gid =
      (G.fold (G.journaledEvents j.store gid), (j.store.journal gid).lastSequence) := by
  have hG : G.Lossless := ⟨hhooks, hstates, hevents, hencodes⟩
  have hsound := exec_invariant (I := G.Sound gid)
    (fun s e s' hP hI hstep => (step_sound hstep).sound hG hP.1 hP.2 hI) init_sound
    (Along.and_forall happend hguard) hrun
  rw [hsound.recorded.journaledEvents, hsound.recorded.lastSequence]
  refine ⟨?_, hsound.recorded.loadState⟩
  intro n bytes hs
  obtain ⟨s, hd, hc⟩ := hsound.recorded.snapshot n bytes hs
  exact ⟨hc.le, by rw [hd, hc.eq]; rfl⟩

/-- The events cannot be read, but the snapshot covers them all. -/
theorem snapshots_sound_tally :
    ∃ j, exec (tally.step ⟨"Tally", "k"⟩) .init
        (activation none ++ [.recv (emitting [1, 2]), .handle, .append none, .saveSnapshot none,
          .crash] ++ activation (some (.io "timeout")) ++
          [.recv (emitting [4]), .handle, .append none, .closed, .onDeactivate,
            .saveSnapshot none]) = some j ∧
      j.store.loadSnapshot ⟨"Tally", "k"⟩ = some (3, [7]) ∧
      tally.states.deserialize [7] =
        .ok (tally.fold ((tally.journaledEvents j.store ⟨"Tally", "k"⟩).take 3)) := by
  refine (Option.map_eq_some_iff.mp ?_).imp fun j h => ⟨h.1, h.2, ?_⟩
  · decide +kernel
  · obtain ⟨hrun, hsnap⟩ := h
    obtain ⟨hooks, hstates, hevents, hencodes⟩ := tally_lossless
    obtain ⟨hall, -⟩ := snapshots_sound tally ⟨"Tally", "k"⟩ _ j hooks hstates hevents hencodes
      (by decide +kernel) (by decide +kernel) hrun
    exact (hall 3 [7] hsnap).2

/-- One load fails to read the events. The message after it is numbered by the journal, and
the snapshot at deactivation claims the event that was never read. -/
theorem snapshot_skips_events :
    ∃ j, exec (tally.step ⟨"Tally", "k"⟩) .init
        (activation none ++ [.recv (emitting [1]), .handle, .append none, .crash] ++
          activation (some (.io "timeout")) ++
          [.recv (emitting [2]), .handle, .append none, .closed, .onDeactivate,
            .saveSnapshot none, .remove]) = some j ∧
      j.store.loadSnapshot ⟨"Tally", "k"⟩ = some (2, [2]) ∧
      tally.states.deserialize [2] = .ok 2 ∧
      tally.fold ((tally.journaledEvents j.store ⟨"Tally", "k"⟩).take 2) = 3 ∧
      tally.loadState j.store ⟨"Tally", "k"⟩ = (2, 2) :=
  ⟨_, rfl, by decide +kernel, rfl, by decide +kernel, by decide +kernel⟩

end JournaledGrain

end Orlando
