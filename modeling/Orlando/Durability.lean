import Orlando.WriteOrder

/-!
# Durability of acknowledged messages

Under `WriteThrough` a caller who has its reply should find the effect of its message in the store,
whenever the process dies. The handler's future sends the reply (`Activation.complete`) before the
save : a crash between the two loses an acknowledged message (`reply_before_save`).
-/

namespace Orlando

open Activation Function

variable {S : Type}

namespace PersistentArgs

variable (p : PersistentArgs S)

def Includes (gid : GrainId) (a : Activation S) (m : Shared) (i : ℕ) : Prop :=
  ∃ n bytes, i < n ∧ n ≤ a.turns.length ∧ m.store.get gid = some bytes ∧
    p.serializer.deserialize bytes = .ok (replay p.grain a.loaded (a.turns.take n))

/-- The handler of turn `i` has returned, and the store has not answered the save of the
state it left. -/
def AwaitsSave (a : Activation S) (i : ℕ) : Prop :=
  a.Fresh ∧ a.turns.length = i + 1 ∨
    ∃ j t, a.slots p.replicated j = some t ∧ t.save = true ∧ t.turns = i + 1

/-- Every acknowledged message is saved or waits for its save. -/
def Covered (a : Activation S) : Prop :=
  ∀ i ∈ a.replied, i + 1 ∈ a.saved ∨ p.AwaitsSave a i

variable {p} {gid : GrainId} {a a' : Activation S} {m m' : Shared} {e : MailboxEvent S}

/-- No handler runs, a state that is still to be serialized stays so or is held, and what waits
for its save goes on to wait or is saved. -/
theorem Covered.of_history (h : p.Covered a) (hist : a.SameHistory a')
    (hsaved : ∀ n ∈ a.saved, n ∈ a'.saved)
    (hfresh : a.Fresh → a'.Fresh ∨ ∃ j t, a'.slots p.replicated j = some t ∧ t.save = true ∧
      t.turns = a.turns.length)
    (hslots : ∀ j t, a.slots p.replicated j = some t → t.save = true →
      t.turns ∈ a'.saved ∨ a'.slots p.replicated j = some t) : p.Covered a' := by
  intro i hi
  rw [hist.replied] at hi
  rcases h i hi with hold | ⟨hf, hl⟩ | ⟨j, t, ht, hs, hi⟩
  · exact .inl (hsaved _ hold)
  · rcases hfresh hf with hf' | ⟨j, t, ht, hs, hn⟩
    · exact .inr (.inl ⟨hf', by rw [hist.turns, hl]⟩)
    · exact .inr (.inr ⟨j, t, ht, hs, hn.trans hl⟩)
  · rcases hslots j t ht hs with hold | ht'
    · exact .inl (hi ▸ hold)
    · exact .inr (.inr ⟨j, t, ht', hs, hi⟩)

theorem Step.covered (hs : p.Step gid a m e a' m') (hw : a.WF p.grain.reentrant)
    (hwt : p.strategy = .writeThrough) (hser : ∀ s, ∃ b, p.serializer.serialize s = .ok b)
    (hacc : e.refused = false) (h : p.Covered a) : p.Covered a' := by
  cases hs.effect hw with
  | load _ _ _ hnil =>
    intro i hi
    rw [hnil.2.1] at hi
    cases hi
  | turn t _ _ hfr _ _ hturns hsaved hreplied hsl =>
    have hold : ∀ i ∈ a.replied, i + 1 ∈ a'.saved ∨ p.AwaitsSave a' i := by
      intro i hi
      rcases h i hi with hsv | ⟨hf, -⟩ | ⟨j, u, hu, hus, hui⟩
      · exact .inl (hsaved ▸ hsv)
      · exact absurd hf hfr
      · exact .inr (.inr ⟨j, u, hsl ▸ hu, hus, hui⟩)
    intro i hi
    rcases hreplied with hr | ⟨hr, hf⟩
    · exact hold i (hr ▸ hi)
    · rw [hr] at hi
      rcases List.mem_append.mp hi with hi | hi
      · exact hold i hi
      · rw [List.mem_singleton.mp hi]
        exact .inr (.inl ⟨hf, by simp [hturns]⟩)
  | @take _ _ hist hsaved _ _ k t hfree ht _ _ hwt' hsl =>
    refine h.of_history hist (fun n hn => hsaved ▸ hn) (fun _ => .inr ⟨k, t, ?_, hwt' hwt, ht⟩) ?_
    · rw [hsl, update_self]
    · intro j u hu _
      have hjk : j ≠ k := by
        rintro rfl
        cases hfree.symm.trans hu
      exact .inr (by rw [hsl, update_of_ne hjk, hu])
  | @save _ _ hist _ t hheld _ hsaved hfr _ _ hsl =>
    refine h.of_history hist (by simp +contextual [hsaved]) (fun hf => .inl (hfr.mpr hf)) ?_
    intro j u hu _
    by_cases hjk : j = e.slot
    · cases hheld.symm.trans (hjk ▸ hu)
      exact .inl (by simp [hsaved])
    · exact .inr (by rw [hsl, update_of_ne hjk, hu])
  | refuse _ _ _ _ href =>
    rw [hacc] at href
    cases href
  | @send _ _ hist hsaved hfr _ t hheld hsv _ _ hsl =>
    refine h.of_history hist (fun n hn => hsaved ▸ hn) (fun hf => .inl (hfr.mpr hf)) ?_
    intro j u hu hus
    have hjk : j ≠ e.slot := by
      rintro rfl
      cases hheld.symm.trans hu
      rw [hsv] at hus
      cases hus
    exact .inr (by rw [hsl, update_of_ne hjk, hu])
  | replicate _ _ _ _ _ _ hne => exact absurd hwt hne
  | tag _ _ hist hsaved _ hfr hsl =>
    exact h.of_history hist (fun n hn => hsaved ▸ hn) (fun hf => .inl (hfr.mpr hf))
      fun j u hu _ => .inr (hsl ▸ hu)
  | quiet _ hist hsaved _ hkept hsl =>
    refine h.of_history hist (fun n hn => hsaved ▸ hn) ?_ fun j u hu _ => .inr (hsl ▸ hu)
    intro hf
    rcases hkept hf with hf' | hne | ⟨err, herr⟩
    · exact .inl hf'
    · exact absurd hwt hne
    · obtain ⟨b, hb⟩ := hser a.state
      cases hb.symm.trans herr

theorem SaveOrder.includes {old} (h : p.SaveOrder gid old a m)
    (hround : p.serializer.RoundTrips) {i} (hi : i + 1 ∈ a.saved) : p.Includes gid a m i := by
  obtain ⟨bs, hbs, hsnap⟩ := h.writes
  obtain ⟨n, bytes, hlast, ⟨hn, hb⟩, hle⟩ :=
    exists_getLast_of_forall₂ hsnap h.ordered.inOrder.sorted (i + 1) hi
  refine ⟨n, bytes, by omega, hn, ?_, hround _ _ hb⟩
  rw [WriteLog.get, hbs, List.getLast?_append, hlast]
  rfl

/-- If no save is refused and saves are accepted oldest first, every acknowledged message outside
the window `AwaitsSave` is in the stored state. -/
theorem replied_in_store (p : PersistentArgs S) (gid : GrainId) (m₀ : Shared)
    (es : List (MailboxEvent S)) (a : Activation S) (m : Shared)
    (hwt : p.strategy = .writeThrough) (hround : p.serializer.RoundTrips)
    (hser : ∀ s, ∃ b, p.serializer.serialize s = .ok b)
    (hguard : Along (p.transition gid)
      (fun s e => e.refused = false ∧ p.OldestFirst s.1 e) (p.start, m₀) es)
    (hrun : exec (p.transition gid) (p.start, m₀) es = some (a, m)) :
    ∀ i ∈ a.replied, ¬p.AwaitsSave a i → p.Includes gid a m i := by
  have hstart : p.Covered p.start := by
    intro i hi
    unfold start at hi
    cases he : p.entry <;> simp [he, Activation.start] at hi
  have hinv := exec_invariant
    (I := fun s => p.SaveOrder gid (m₀.store.writesTo gid) s.1 s.2 ∧ p.Covered s.1)
    (fun s e s' hg hI hstep => ⟨(step_sound hstep).saveOrder hg.2 hI.1,
      (step_sound hstep).covered hI.1.sound.wf hwt hser hg.1 hI.2⟩)
    ⟨start_saveOrder gid m₀, hstart⟩ hguard hrun
  intro i hi hno
  exact hinv.1.includes hround ((hinv.2 i hi).resolve_right hno)

theorem counter_roundTrips (reentrant strategy entry) :
    (counter reentrant strategy entry).serializer.RoundTrips := by
  intro s b hb
  obtain rfl : [s] = b := Except.ok.inj hb
  rfl

def oneMessage : List (MailboxEvent UInt8) :=
  [.load none, .onActivate 0, .recv (addMessage 5), .handle]

/-- One message to a reentrant counter, up to where its handler task gives up the lock. -/
def oneTask : List (MailboxEvent UInt8) :=
  [.load none, .onActivate 0, .recv (addMessage 5), .handler 0 .acquire, .handler 0 .run,
    .handler 0 .release]

theorem replied_in_store_counter :
    ∃ a m, exec ((counter false .writeThrough (.run false)).transition ⟨"Counter", "k"⟩)
        ((counter false .writeThrough (.run false)).start, .empty)
        (oneMessage ++ [.prepare 0 false, .save none]) = some (a, m) ∧
      1 ∈ a.replied ∧ ¬(counter false .writeThrough (.run false)).AwaitsSave a 1 ∧
      (counter false .writeThrough (.run false)).Includes ⟨"Counter", "k"⟩ a m 1 := by
  obtain ⟨a, m, hrun, hr, hp, hh⟩ : ∃ a m,
      exec ((counter false .writeThrough (.run false)).transition ⟨"Counter", "k"⟩)
        ((counter false .writeThrough (.run false)).start, .empty)
        (oneMessage ++ [.prepare 0 false, .save none]) = some (a, m) ∧
      a.replied = [1] ∧ a.phase = .loop ∧ a.handlers = [] := ⟨_, _, rfl, rfl, rfl, rfl⟩
  have hj : a.AllJoined := by simp [AllJoined, hh]
  have hno : ¬(counter false .writeThrough (.run false)).AwaitsSave a 1 := by
    rintro (⟨hf, -⟩ | ⟨j, t, ht, -⟩)
    · exact not_fresh hj (hp ▸ rfl) hf
    · rw [slots_none hj (hp ▸ rfl)] at ht
      cases ht
  refine ⟨a, m, hrun, by simp [hr], hno, ?_⟩
  exact replied_in_store _ _ _ _ a m rfl (counter_roundTrips _ _ _) (fun s => ⟨[s], rfl⟩)
    (by decide +kernel) hrun 1 (by simp [hr]) hno

/-- The process dies after the reply and before the save, in either loop : the caller
has its answer and the store has nothing. -/
theorem reply_before_save :
    (∃ a m, exec ((counter false .writeThrough (.run false)).transition ⟨"Counter", "k"⟩)
        ((counter false .writeThrough (.run false)).start, .empty) oneMessage = some (a, m) ∧
      1 ∈ a.replied ∧
      ¬(counter false .writeThrough (.run false)).Includes ⟨"Counter", "k"⟩ a m 1) ∧
    ∃ a m, exec ((counter true .writeThrough (.run false)).transition ⟨"Counter", "k"⟩)
        ((counter true .writeThrough (.run false)).start, .empty) oneTask = some (a, m) ∧
      1 ∈ a.replied ∧
      ¬(counter true .writeThrough (.run false)).Includes ⟨"Counter", "k"⟩ a m 1 := by
  refine ⟨⟨_, _, rfl, by decide, ?_⟩, _, _, rfl, by decide, ?_⟩
  · rintro ⟨n, bytes, -, -, hget, -⟩
    simp [Shared.empty, WriteLog.get, WriteLog.writesTo] at hget
  · rintro ⟨n, bytes, -, -, hget, -⟩
    simp [Shared.empty, WriteLog.get, WriteLog.writesTo] at hget

end PersistentArgs

end Orlando
