import Orlando.Snapshots

/-!
# Activations whose load failed

A load that fails for good leaves the activation with the default state
(`PersistentArgs.beginDefault`), and nothing remembers the failure : the next flush or the final
save writes over the bytes that could not be read, and over the version tag
(`failed_load_overwrites`).
-/

namespace Orlando

variable {S : Type}

namespace PersistentArgs

variable {p : PersistentArgs S} {gid : GrainId} {a a' : Activation S} {m m' : Shared}
  {e : MailboxEvent S}

theorem Step.store_eq (hs : p.Step gid a m e a' m') (he : e.accepted = false) :
    m'.store = m.store := by
  cases hs
  case flush | flushReplicated | save | saveReplicated | saveVersioned | tag | handlerSave =>
    simp [MailboxEvent.accepted] at he
  all_goals rfl

theorem Step.of_loadFailed (hs : p.Step gid a m e a' m') (h : a'.loadFailed = true) :
    a.loadFailed = true ∨ a.phase.loading = true ∧ m' = m := by
  cases hs
  case loadFailed hp _ => exact .inr ⟨hp, rfl⟩
  all_goals exact .inl h

/-- After a failed load the bytes and the tag survive exactly as long as the store accepts no save
of the activation. -/
theorem failed_load_keeps_data (p : PersistentArgs S) (gid : GrainId) (m₀ : Shared)
    (es : List (MailboxEvent S)) (a : Activation S) (m : Shared)
    (hguard : Along (p.transition gid)
      (fun s e => s.1.loadFailed = true → e.accepted = false) (p.start, m₀) es)
    (hrun : exec (p.transition gid) (p.start, m₀) es = some (a, m))
    (hfailed : a.loadFailed = true) :
    m.store.get gid = m₀.store.get gid ∧
      m.store.get (versionGrainId gid) = m₀.store.get (versionGrainId gid) := by
  have hinv := exec_invariant (I := fun s => p.Sound s.1 ∧
      (s.1.loadFailed = true ∨ s.1.phase.loading = true → s.2.store = m₀.store))
    ?_ ⟨start_sound, fun _ => rfl⟩ hguard hrun
  · rw [hinv.2 (.inl hfailed)]
    exact ⟨rfl, rfl⟩
  · rintro ⟨a, m⟩ e ⟨a', m'⟩ hacc ⟨hsound, hstore⟩ hstep
    have hs := step_sound hstep
    refine ⟨hs.sound hsound, ?_⟩
    rintro (hf | hl)
    · rcases hs.of_loadFailed hf with hf' | ⟨hl, hm⟩
      · exact (hs.store_eq (hacc hf')).trans (hstore (.inl hf'))
      · exact hm ▸ hstore (.inr hl)
    · obtain ⟨hl', hm⟩ := (hs.effect hsound.wf).of_loading hl
      exact hm ▸ hstore (.inr hl')

def versionedCounter : PersistentArgs UInt8 :=
  counter false .writeOnDeactivate (.runVersioned
    { stateVersion := 1
      migrate := fun _ bytes => .ok bytes
      encodeVersion := fun v => [UInt8.ofNat v]
      decodeVersion := fun bytes => match bytes with
        | [v] => .ok v.toNat
        | _ => .error (.deserialization "not one byte") })

def storedCounter (b : Bytes) : Shared :=
  Shared.empty.save ⟨"Counter", "k"⟩ b

def retire : List (MailboxEvent UInt8) :=
  [.closed, .onDeactivate, .serialize, .save none]

/-- With the store down throughout, the bytes are still there at the end. -/
theorem failed_load_keeps_data_counter :
    ∃ a m, exec ((counter false .writeThrough (.run false)).transition ⟨"Counter", "k"⟩)
        ((counter false .writeThrough (.run false)).start, storedCounter [7])
        [.load (some (.io "down")), .load (some (.io "down")), .load (some (.io "down")),
          .onActivate 0, .recv (addMessage 5), .handle, .prepare 0 false,
          .save (some (.io "down"))] = some (a, m) ∧
      a.loadFailed = true ∧ a.turns.length = 2 ∧
      m.store.get ⟨"Counter", "k"⟩ = (storedCounter [7]).store.get ⟨"Counter", "k"⟩ ∧
      m.store.get (versionGrainId ⟨"Counter", "k"⟩) =
        (storedCounter [7]).store.get (versionGrainId ⟨"Counter", "k"⟩) := by
  refine ⟨_, _, rfl, rfl, rfl, ?_⟩
  exact failed_load_keeps_data (counter false .writeThrough (.run false)) _ _
    [.load (some (.io "down")), .load (some (.io "down")), .load (some (.io "down")),
      .onActivate 0, .recv (addMessage 5), .handle, .prepare 0 false, .save (some (.io "down"))] _ _
    (by decide +kernel) rfl rfl

/-- Three load errors and a message, undecodable bytes and a quiet end, a state of a
newer version and a quiet end : each time the stored data is written over. -/
theorem failed_load_overwrites :
    (∃ a m, exec ((counter false .writeThrough (.run false)).transition ⟨"Counter", "k"⟩)
        ((counter false .writeThrough (.run false)).start, storedCounter [7])
        [.load (some (.io "down")), .load (some (.io "down")), .load (some (.io "down")),
          .onActivate 0, .recv (addMessage 5), .handle, .prepare 0 false, .save none] =
        some (a, m) ∧
      a.loadFailed = true ∧ m.store.get ⟨"Counter", "k"⟩ = some [5]) ∧
    (∃ a m, exec ((counter false .writeOnDeactivate (.run false)).transition ⟨"Counter", "k"⟩)
        ((counter false .writeOnDeactivate (.run false)).start, storedCounter [7, 7])
        ([.load none, .load none, .load none, .onActivate 0] ++ retire) = some (a, m) ∧
      a.loadFailed = true ∧ m.store.get ⟨"Counter", "k"⟩ = some [0]) ∧
    ∃ a m, exec (versionedCounter.transition ⟨"Counter", "k"⟩)
        (versionedCounter.start,
          (storedCounter [7]).save (versionGrainId ⟨"Counter", "k"⟩) [2])
        ([.load none, .load none, .onActivate 0] ++ retire ++ [.save none]) = some (a, m) ∧
      a.loadFailed = true ∧ m.store.get ⟨"Counter", "k"⟩ = some [0] ∧
      m.store.get (versionGrainId ⟨"Counter", "k"⟩) = some [1] :=
  ⟨⟨_, _, rfl, rfl, by decide⟩, ⟨_, _, rfl, rfl, by decide⟩, _, _, rfl, rfl, by decide, by decide⟩

end PersistentArgs

end Orlando
