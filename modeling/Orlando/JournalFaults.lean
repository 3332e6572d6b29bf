import Orlando.EventSourcing

/-!
# A journal that refuses events

`JournaledGrainRef::ask` serializes the events a handler emitted, appends them, and then applies
them to the state, whether or not the journal took them. The reply is `Ok` either way.
-/

namespace Orlando

open List JournaledPhase Along

variable {S E : Type}

def JournaledPhase.midAsk : JournaledPhase S E → Bool
  | handling _ => true
  | append _ => true
  | saveSnapshot _ _ => true
  | _ => false

def JournaledEvent.ofAsk : JournaledEvent S E → Bool
  | recv _ => true
  | handle => true
  | append _ => true
  | saveSnapshot _ => true
  | _ => false

namespace Journaled

/-- The activation is between two messages, or past its last one. -/
def AtRest (j : Journaled S E) : Prop :=
  ∃ t, j.task = some t ∧ t.phase.midAsk = false

def emitted (j : Journaled S E) : List E :=
  match j.task with
  | none => []
  | some t =>
    match t.phase with
    | .handling msg => (msg.handle t.journaled.state).getD []
    | _ => []

end Journaled

namespace JournaledGrain

variable (G : JournaledGrain S E) {gid : GrainId} {j j' : Journaled S E}
  {t : JournaledTask S E} {e : JournaledEvent S E} {a : JournaledAnswer E}

def Coherent (j : Journaled S E) : Prop :=
  ∀ t, j.task = some t → t.journaled.state = G.fold j.events

def Honest (j : Journaled S E) : Prop :=
  ∀ a ∈ j.answers, a.journaled = a.emitted

def Journals (j : Journaled S E) : JournaledEvent S E → Prop
  | .handle => ∀ ev ∈ j.emitted, G.encodes ev = true
  | .append fault => fault = none
  | _ => True

instance Journals.decidable (j : Journaled S E) :
    (e : JournaledEvent S E) → Decidable (G.Journals j e)
  | .handle => inferInstanceAs (Decidable (∀ ev ∈ j.emitted, G.encodes ev = true))
  | .append fault => inferInstanceAs (Decidable (fault = none))
  | .spawn | .loadSnapshot _ | .loadEvents _ | .onActivate | .recv _ | .closed | .idleTimeout
  | .saveSnapshot _ | .onDeactivate | .remove | .crash => isTrue trivial

variable {G} {es : List (JournaledEvent S E)}

theorem emitted_of_handling {msg es} (ht : j.task = some t) (hp : t.phase = .handling msg)
    (hm : msg.handle t.journaled.state = some es) : j.emitted = es := by
  simp [Journaled.emitted, ht, hp, hm]

theorem fold_append (es fs) : G.fold (es ++ fs) = fs.foldl G.apply (G.fold es) :=
  foldl_append

theorem encodeEvents_eq_nil {es} (h : ∀ ev ∈ es, G.encodes ev = true)
    (hnil : G.encodeEvents es = []) : es = [] := by
  cases es with
  | nil => rfl
  | cons ev es =>
    have hev := h ev mem_cons_self
    unfold encodes at hev
    unfold encodeEvents at hnil
    split at hev
    · rename_i b hb
      rw [filterMap_cons, hb] at hnil
      cases hnil
    · cases hev

/-! ## Nothing refused -/

/-- Memory and journal agree, also about the message at hand. -/
structure Clean (G : JournaledGrain S E) (j : Journaled S E) : Prop where
  coherent : G.Coherent j
  honest : Honest j
  append : ∀ t es, j.task = some t → t.phase = .append es → ∀ ev ∈ es, G.encodes ev = true
  pending : ∀ t bytes a, j.task = some t → t.phase = .saveSnapshot bytes a →
    a.journaled = a.emitted

section

variable (hon : Honest j)
include hon

section

variable (hs : t.journaled.state = G.fold j.events)
include hs

theorem clean_move (happ : ∀ es, t.phase = .append es → ∀ ev ∈ es, G.encodes ev = true)
    (hpend : ∀ bytes a, t.phase = .saveSnapshot bytes a → a.journaled = a.emitted) :
    G.Clean (j.move t) := by
  refine ⟨?_, hon, ?_, ?_⟩
  · rintro t' ht'
    cases ht'
    exact hs
  · rintro t' es ht'
    cases ht'
    exact happ es
  · rintro t' bytes a ht'
    cases ht'
    exact hpend bytes a

theorem clean_settle {fsm} : G.Clean (j.move (t.settle fsm)) := by
  refine clean_move hon hs (fun es hp => ?_) fun bytes a hp => ?_
  · exact absurd hp (t.phase_settle (P := fun ph => ph ≠ .append es) nofun nofun nofun fsm)
  · exact absurd hp
      (t.phase_settle (P := fun ph => ph ≠ .saveSnapshot bytes a) nofun nofun nofun fsm)

theorem clean_reply (ha : a.journaled = a.emitted) : G.Clean (j.reply t a) := by
  have hon' : Honest { j with answers := j.answers ++ [a] } := by
    intro b hb
    rcases mem_append.mp hb with hb | hb
    · exact hon b hb
    · rw [mem_singleton.mp hb]
      exact ha
  exact clean_settle (j := { j with answers := j.answers ++ [a] }) hon' hs

end

theorem clean_applyEvents (hs : a.emitted.foldl G.apply t.journaled.state = G.fold j.events)
    (ha : a.journaled = a.emitted) : G.Clean (G.applyEvents j t a) := by
  unfold applyEvents
  dsimp only
  split
  · split
    · refine clean_move hon hs nofun ?_
      rintro bytes b hb
      obtain ⟨-, rfl⟩ := saveSnapshot.inj hb
      exact ha
    · exact clean_reply hon hs ha
  · exact clean_reply hon hs ha

end

theorem Step.clean (hs : G.Step gid j e j') (hask : e.ofAsk = true) (hj : G.Journals j e)
    (h : G.Clean j) : G.Clean j' := by
  cases hs with
  | leave _ _ he => rcases he with rfl | rfl <;> cases hask
  | @recv t msg ht hp => exact clean_move h.honest (h.coherent t ht) nofun nofun
  | @panic t msg ht hp _ => exact clean_settle h.honest (h.coherent t ht)
  | @silent t msg ht hp _ => exact clean_reply h.honest (h.coherent t ht) rfl
  | @emit t msg es ht hp hm _ =>
    have hes : ∀ ev ∈ es, G.encodes ev = true := emitted_of_handling ht hp hm ▸ hj
    refine clean_move h.honest (h.coherent t ht) ?_ nofun
    rintro es' hphase
    obtain rfl := append.inj hphase
    exact hes
  | @unwritten t msg es ht hp hm hne hnil =>
    have hes : ∀ ev ∈ es, G.encodes ev = true := emitted_of_handling ht hp hm ▸ hj
    exact absurd (encodeEvents_eq_nil hes hnil) hne
  | @append t es fault ht hp =>
    obtain rfl : fault = none := hj
    have hall := filter_eq_self.mpr (h.append t es ht hp)
    unfold appendStep
    simp only [hall]
    refine clean_applyEvents h.honest ?_ rfl
    rw [fold_append, ← h.coherent t ht]
  | @saveSnapshot t bytes a fault ht hp =>
    have ha := h.pending t bytes a ht hp
    cases fault with
    | none => exact clean_reply (j := { j with store := _ }) h.honest (h.coherent t ht) ha
    | some err => exact clean_reply h.honest (h.coherent t ht) ha
  | @finalSnapshot t bytes ht hp =>
    exact clean_move (j := { j with store := _ }) h.honest (h.coherent t ht) nofun nofun
  | @finalRefused t bytes err ht hp => exact clean_move h.honest (h.coherent t ht) nofun nofun
  | _ => cases hask

/-! ## Something refused -/

/-- A message lacks events in the journal, and has been answered or will be. -/
def Blemished (G : JournaledGrain S E) (j : Journaled S E) : Prop :=
  ¬Honest j ∨ (∃ t es, j.task = some t ∧ t.phase = .append es ∧ ∃ ev ∈ es, G.encodes ev = false) ∨
    ∃ t bytes a, j.task = some t ∧ t.phase = .saveSnapshot bytes a ∧ a.journaled ≠ a.emitted

section

variable (h : ¬Honest j ∨ a.journaled ≠ a.emitted)
include h

theorem not_honest_append : ¬Honest { j with answers := j.answers ++ [a] } := by
  intro hon
  rcases h with h | h
  · exact h fun b hb => hon b (mem_append_left _ hb)
  · exact h (hon a (by simp))

theorem blemished_applyEvents : G.Blemished (G.applyEvents j t a) := by
  unfold applyEvents
  dsimp only
  split
  · split
    · rcases h with h | h
      · exact .inl h
      · exact .inr (.inr ⟨_, _, a, rfl, rfl, h⟩)
    · exact .inl (not_honest_append h)
  · exact .inl (not_honest_append h)

end

theorem blemished_appendStep {es fault}
    (h : ¬Honest j ∨ (∃ ev ∈ es, G.encodes ev = false) ∨ fault ≠ none) (hne : es ≠ []) :
    G.Blemished (G.appendStep gid j t es fault) := by
  unfold appendStep
  cases fault with
  | some err => exact blemished_applyEvents (.inr (Ne.symm hne))
  | none =>
    refine blemished_applyEvents (h.imp id fun h => ?_)
    obtain ⟨ev, hev, henc⟩ := h.resolve_right (by simp)
    intro hall
    have := filter_eq_self.mp hall ev hev
    rw [henc] at this
    cases this

/-- An append is under way only for a message that emitted events. -/
def AppendsSome (j : Journaled S E) : Prop :=
  ∀ t es, j.task = some t → t.phase = .append es → es ≠ []

theorem appendsSome_of_task (ht : j.task = some t)
    (h : ∀ es, t.phase = .append es → es ≠ []) : AppendsSome j := by
  rintro t' es ht'
  cases ht.symm.trans ht'
  exact h es

theorem appendsSome_of_settle {fsm} (ht : j.task = some (t.settle fsm)) : AppendsSome j :=
  appendsSome_of_task ht fun es hp => absurd hp
    (t.phase_settle (P := fun ph => ph ≠ .append es) nofun nofun nofun fsm)

theorem appendsSome_applyEvents : AppendsSome (G.applyEvents j t a) := by
  unfold applyEvents
  dsimp only
  split
  · split
    · exact appendsSome_of_task rfl nofun
    · exact appendsSome_of_settle rfl
  · exact appendsSome_of_settle rfl

theorem Step.appendsSome (hs : G.Step gid j e j') (hask : e.ofAsk = true) : AppendsSome j' := by
  cases hs with
  | leave _ _ he => rcases he with rfl | rfl <;> cases hask
  | recv | finalRefused | finalSnapshot => exact appendsSome_of_task rfl nofun
  | panic | silent => exact appendsSome_of_settle rfl
  | emit ht hp hm hne =>
    refine appendsSome_of_task rfl ?_
    rintro es hphase rfl
    obtain rfl := append.inj hphase
    exact hne rfl
  | unwritten => exact appendsSome_applyEvents
  | @append t es fault => cases fault <;> exact appendsSome_applyEvents
  | @saveSnapshot t bytes a fault => cases fault <;> exact appendsSome_of_settle rfl
  | _ => cases hask

theorem Blemished.not_honest {ph} (h : G.Blemished j) (ht : j.task = some t)
    (hp : t.phase = ph) (happ : ∀ es, ph ≠ .append es)
    (hsave : ∀ bytes a, ph ≠ .saveSnapshot bytes a) : ¬Honest j := by
  rcases h with hno | ⟨t', es, ht', hp', -⟩ | ⟨t', bytes, a, ht', hp', -⟩
  · exact hno
  · cases ht.symm.trans ht'
    exact absurd (hp.symm.trans hp') (happ es)
  · cases ht.symm.trans ht'
    exact absurd (hp.symm.trans hp') (hsave bytes a)

theorem Step.blemished (hs : G.Step gid j e j') (hask : e.ofAsk = true) (hsome : AppendsSome j)
    (h : G.Blemished j ∨ ¬G.Journals j e) : G.Blemished j' := by
  cases hs with
  | leave _ _ he => rcases he with rfl | rfl <;> cases hask
  | recv ht hp | finalSnapshot ht hp | finalRefused ht hp =>
    have hb := h.resolve_right fun hn => hn trivial
    exact .inl (hb.not_honest ht hp nofun nofun)
  | panic ht hp hm =>
    have hb := h.resolve_right fun hn => hn (by simp [Journals, Journaled.emitted, ht, hp, hm])
    exact .inl (hb.not_honest ht hp nofun nofun)
  | silent ht hp hm =>
    have hb := h.resolve_right fun hn => hn (by simp [Journals, emitted_of_handling ht hp hm])
    exact .inl (not_honest_append (.inl (hb.not_honest ht hp nofun nofun)))
  | @emit t msg es ht hp hm _ =>
    rcases h with h | h
    · exact .inl (h.not_honest ht hp nofun nofun)
    · simp only [Journals, emitted_of_handling ht hp hm, not_forall] at h
      obtain ⟨ev, hev, henc⟩ := h
      exact .inr (.inl ⟨_, es, rfl, rfl, ev, hev, by simpa using henc⟩)
  | unwritten _ _ _ hne _ => exact blemished_applyEvents (.inr (Ne.symm hne))
  | @append t es fault ht hp =>
    refine blemished_appendStep ?_ (hsome t es ht hp)
    rcases h with (hno | ⟨t', es', ht', hp', hev⟩ | ⟨t', bytes, a, ht', hp', -⟩) | h
    · exact .inl hno
    · cases ht.symm.trans ht'
      obtain rfl := append.inj (hp.symm.trans hp')
      exact .inr (.inl hev)
    · cases ht.symm.trans ht'
      cases hp.symm.trans hp'
    · exact .inr (.inr h)
  | @saveSnapshot t bytes a fault ht hp =>
    have ha : ¬Honest j ∨ a.journaled ≠ a.emitted := by
      rcases h.resolve_right fun hn => hn trivial with
        hno | ⟨t', es', ht', hp', -⟩ | ⟨t', bytes', a', ht', hp', ha⟩
      · exact .inl hno
      · cases ht.symm.trans ht'
        cases hp.symm.trans hp'
      · cases ht.symm.trans ht'
        obtain ⟨-, rfl⟩ := saveSnapshot.inj (hp.symm.trans hp')
        exact .inr ha
    cases fault <;> exact .inl (not_honest_append ha)
  | _ => cases hask

/-! ## Runs of messages -/

theorem blemished_run (hask : ∀ e ∈ es, e.ofAsk = true) (hsome : AppendsSome j) (hb : G.Blemished j)
    (hrun : exec (G.step gid) j es = some j') : G.Blemished j' :=
  (exec_invariant (P := fun _ e => e.ofAsk = true ∧ True)
    (I := fun j => AppendsSome j ∧ G.Blemished j)
    (fun _ _ _ hP hI hst =>
      ⟨(step_sound hst).appendsSome hP.1, (step_sound hst).blemished hP.1 hI.1 (.inl hI.2)⟩)
    ⟨hsome, hb⟩ (and_forall hask (along_true es j)) hrun).2

theorem blemished_of_not_along (hask : ∀ e ∈ es, e.ofAsk = true) (hsome : AppendsSome j)
    (hnot : ¬Along (G.step gid) G.Journals j es) (hrun : exec (G.step gid) j es = some j') :
    G.Blemished j' := by
  obtain ⟨es₁, e, es₂, u, u', rfl, hu, hu', hrest, -, hbad⟩ := exists_of_not_along hrun hnot
  have hsome' := exec_invariant (P := fun _ e => e.ofAsk = true ∧ True) (I := AppendsSome)
    (fun _ _ _ hP _ hstep => (step_sound hstep).appendsSome hP.1) hsome
    (and_forall (fun e he => hask e (by simp [he])) (along_true es₁ j)) hu
  have he := hask e (by simp)
  exact blemished_run (fun e he => hask e (by simp [he])) ((step_sound hu').appendsSome he)
    ((step_sound hu').blemished he hsome' (.inr hbad)) hrest

def loadedTally : Journaled UInt8 UInt8 where
  store := .new
  task := some ⟨.loop, .idle, ⟨0, 0, 0, 2⟩⟩
  events := []
  answers := []

example : exec (tally.step ⟨"Tally", "k"⟩) .init (activation none) = some loadedTally := rfl

end JournaledGrain

end Orlando
