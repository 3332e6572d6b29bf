import Orlando.SqliteMembershipTable

/-!
# Generations in the membership tables

A silo that is dead stays so, until it comes back with a higher generation, and its generation never
goes back (`MemberEntry.Follows`, `Fenced`). Neither `InMemoryMembershipTable` nor
`SqliteMembershipTable` looks at the entry it replaces.
-/

namespace Orlando

open List Option InMemoryMembershipTable SqliteCalls OrderedMap MemberEntry

variable {us : List MemberEntry} {e e' e'' : MemberEntry} {id : String} {view : MembershipView}

/-- The entry may take the place of `e` : its generation is not lower, and higher if it
brings a dead silo back. -/
structure MemberEntry.Follows (e e' : MemberEntry) : Prop where
  generation : e.generation ≤ e'.generation
  dead : e.status = .dead → e'.status = .dead ∨ e.generation < e'.generation

def Fenced (views : List MembershipView) : Prop :=
  views.Pairwise fun view view' => ∀ id e e', view.member id = some e →
    view'.member id = some e' → e.Follows e'

def Respectful (us : List MemberEntry) : Prop :=
  ∀ us₁ e us₂, us = us₁ ++ e :: us₂ → ∀ old, (foldUpdates us₁).lookup e.addr.siloId = some old →
    old.Follows e

namespace MemberEntry.Follows

theorem refl (e : MemberEntry) : e.Follows e where
  generation := le_rfl
  dead := Or.inl

theorem trans (h : e.Follows e') (h' : e'.Follows e'') : e.Follows e'' where
  generation := h.generation.trans h'.generation
  dead hdead := by
    rcases h.dead hdead with hdead' | hlt
    · exact (h'.dead hdead').imp_right h.generation.trans_lt
    · exact Or.inr (hlt.trans_le h'.generation)

end MemberEntry.Follows

def MemberEntry.mark (e : MemberEntry) : MembershipStatus × UInt64 :=
  (e.status, e.generation)

theorem MemberEntry.Follows.congr {d d' : MemberEntry} (h : e.Follows e') (hd : e.mark = d.mark)
    (hd' : e'.mark = d'.mark) : d.Follows d' := by
  obtain ⟨hs, hg⟩ := Prod.mk.inj hd
  obtain ⟨hs', hg'⟩ := Prod.mk.inj hd'
  refine ⟨hg ▸ hg' ▸ h.generation, fun hdead => ?_⟩
  rw [← hg, ← hg', ← hs']
  exact h.dead (hs.trans hdead)

def MembershipView.Shows (view : MembershipView) (us : List MemberEntry) : Prop :=
  ∀ id, (view.member id).map MemberEntry.mark = ((foldUpdates us).lookup id).map MemberEntry.mark

inductive Viewed : List MemberEntry → List MembershipView → Prop
  | nil : Viewed [] []
  | snoc {us views e view} (h : Viewed us views) (hs : view.Shows (us ++ [e])) :
    Viewed (us ++ [e]) (views ++ [view])

theorem respectful_snoc :
    Respectful (us ++ [e]) ↔ Respectful us ∧
      ∀ old, (foldUpdates us).lookup e.addr.siloId = some old → old.Follows e := by
  constructor
  · intro h
    refine ⟨fun us₁ e' us₂ hus => ?_, h us e [] rfl⟩
    subst hus
    exact h us₁ e' (us₂ ++ [e]) (by simp)
  · rintro ⟨hus, he⟩ us₁ e' us₂ heq
    rcases snoc_eq_append_cons.mp heq with ⟨rfl, rfl, -⟩ | ⟨us₂', -, hus'⟩
    · exact he
    · exact hus us₁ e' us₂' hus'

theorem MembershipView.Shows.exists_member (h : view.Shows us)
    (he : (foldUpdates us).lookup id = some e) :
    ∃ e', view.member id = some e' ∧ e'.mark = e.mark := by
  have hid := h id
  rw [he, map_some] at hid
  exact map_eq_some_iff.mp hid

theorem MembershipView.Shows.exists_lookup (h : view.Shows us) (he : view.member id = some e) :
    ∃ e', (foldUpdates us).lookup id = some e' ∧ e'.mark = e.mark := by
  have hid := h id
  rw [he, map_some] at hid
  exact map_eq_some_iff.mp hid.symm

namespace Viewed

variable {views : List MembershipView}

theorem exists_view (h : Viewed us views) (he : (foldUpdates us).lookup id = some e) :
    ∃ view ∈ views, ∃ e', view.member id = some e' ∧ e'.mark = e.mark := by
  cases h with
  | nil => cases he
  | snoc h hs => exact ⟨_, by simp, hs.exists_member he⟩

theorem exists_follows (h : Viewed us views) (hus : Respectful us) :
    ∀ view ∈ views, ∀ id e, view.member id = some e →
      ∃ e', (foldUpdates us).lookup id = some e' ∧ e.Follows e' := by
  induction h with
  | nil => simp
  | @snoc us views e₁ view₁ h hs ih =>
    obtain ⟨hus, he₁⟩ := respectful_snoc.mp hus
    intro view hview id e he
    rcases mem_append.mp hview with hold | hnew
    · obtain ⟨e', he', hfollows⟩ := ih hus view hold id e he
      rw [foldUpdates_snoc, lookup_insert]
      split_ifs with hid
      · exact ⟨e₁, rfl, hfollows.trans (he₁ e' (hid ▸ he'))⟩
      · exact ⟨e', he', hfollows⟩
    · obtain rfl := mem_singleton.mp hnew
      obtain ⟨e', he', hmark⟩ := hs.exists_lookup he
      exact ⟨e', he', (MemberEntry.Follows.refl e).congr rfl hmark.symm⟩

theorem fenced_iff_respectful (h : Viewed us views) : Fenced views ↔ Respectful us := by
  induction h with
  | nil => simp [Fenced, Respectful]
  | @snoc us views e₁ view₁ h hs ih =>
    rw [respectful_snoc, ← ih, Fenced, pairwise_append]
    constructor
    · rintro ⟨hviews, -, hlast⟩
      refine ⟨hviews, fun old hold => ?_⟩
      obtain ⟨view, hview, e, he, hmark⟩ := h.exists_view hold
      have hnew : (foldUpdates (us ++ [e₁])).lookup e₁.addr.siloId = some e₁ := by
        rw [foldUpdates_snoc, lookup_insert, if_pos rfl]
      obtain ⟨e', he', hmark'⟩ := hs.exists_member hnew
      exact (hlast view hview view₁ (by simp) _ e e' he he').congr hmark hmark'
    · rintro ⟨hviews, he₁⟩
      refine ⟨hviews, pairwise_singleton _ _, fun view hview view' hview' id e e' he he' => ?_⟩
      obtain rfl := mem_singleton.mp hview'
      have hall := (h.snoc hs).exists_follows (respectful_snoc.mpr ⟨ih.mp hviews, he₁⟩)
      obtain ⟨e₂, he₂, hfollows⟩ := hall view (mem_append_left _ hview) id e he
      obtain ⟨e₃, he₃, hmark⟩ := hs.exists_lookup he'
      cases he₂.symm.trans he₃
      exact hfollows.congr rfl hmark

end Viewed

theorem find?_values_foldUpdates (us id) :
    (foldUpdates us).values.find? (fun m => m.addr.siloId = id) = (foldUpdates us).lookup id := by
  have hm : ∀ e ∈ (foldUpdates us).values, (foldUpdates us).lookup e.addr.siloId = some e := by
    intro e he
    obtain ⟨key, hkey⟩ := mem_values.mp he
    rwa [siloId_of_lookup_foldUpdates hkey]
  cases hl : (foldUpdates us).lookup id with
  | none =>
    rw [find?_eq_none]
    intro e he hid
    rw [← of_decide_eq_true hid, hm e he] at hl
    cases hl
  | some e =>
    have hid := siloId_of_lookup_foldUpdates hl
    obtain ⟨e', he'⟩ := isSome_iff_exists.mp
      (find?_isSome (p := fun m : MemberEntry => decide (m.addr.siloId = id)) |>.mpr
        ⟨e, mem_values.mpr ⟨id, hl⟩, decide_eq_true hid⟩)
    have hid' : e'.addr.siloId = id := by simpa using find?_some he'
    have hsame := hm e' (mem_of_find?_eq_some he')
    rw [hid', hl] at hsame
    rw [he', some.inj hsame]

theorem find?_map_mark {f : MemberEntry → MemberEntry}
    (hf : ∀ e, (f e).addr = e.addr ∧ (f e).mark = e.mark) (l : List MemberEntry) (id) :
    ((l.map f).find? fun m => m.addr.siloId = id).map mark =
      (l.find? fun m => m.addr.siloId = id).map mark := by
  have hid : (fun m : MemberEntry => decide (m.addr.siloId = id)) ∘ f =
      fun m => decide (m.addr.siloId = id) := funext fun e => by simp [(hf e).1]
  have hmark : mark ∘ f = mark := funext fun e => (hf e).2
  rw [find?_map, hid, Option.map_map, hmark]

theorem MembershipView.shows_of_map {f g : MemberEntry → MemberEntry}
    (hview : view.members.map g = (foldUpdates us).values.map f)
    (hf : ∀ e, (f e).addr = e.addr ∧ (f e).mark = e.mark)
    (hg : ∀ e, (g e).addr = e.addr ∧ (g e).mark = e.mark) : view.Shows us := by
  intro id
  rw [member, ← find?_map_mark hg, hview, find?_map_mark hf, find?_values_foldUpdates]

namespace InMemoryMembershipTable

def viewed (t : InMemoryMembershipTable) (c : TableCall) : List MembershipView :=
  match t.respond c with
  | some (.ok (some view), _) => [view]
  | _ => []

def views (cs : List TableCall) : List MembershipView :=
  outputs step viewed new cs

def UpToDate (t : InMemoryMembershipTable) : TableCall → Prop
  | .tryUpdate _ expectedVersion _ => t.version.toNat = expectedVersion
  | .readAll _ | .updateIAmAlive _ _ => False

instance instDecidableUpToDate (t : InMemoryMembershipTable) :
    (c : TableCall) → Decidable (t.UpToDate c)
  | .tryUpdate _ _ _ => inferInstanceAs (Decidable (t.version.toNat = _))
  | .readAll _ | .updateIAmAlive _ _ => inferInstanceAs (Decidable False)

theorem viewed_updates {cs t} (hrun : exec step new cs = some t)
    (hal : Along step UpToDate new cs) : Viewed (updates cs) (views cs) := by
  revert hal
  refine exec_induction
    (I := fun cs _ => Along step UpToDate new cs → Viewed (updates cs) (views cs))
    (fun _ => .nil) (fun cs u c v hu ih hstep hal => ?_) hrun
  obtain ⟨hal', hc⟩ := (along_snoc_iff hu).mp hal
  obtain ⟨⟨r, v'⟩, hr, rfl⟩ := map_eq_some_iff.mp hstep
  rw [updates, views, outputs_snoc hu, outputs_snoc hu]
  cases responds_of_respond hr with
  | updated hs =>
    rw [viewed, hr, accepted, if_pos rfl]
    obtain ⟨-, -, hmembers⟩ := ((holds_updates hu).put _).snapshot hs
    refine (ih hal').snoc ?_
    exact MembershipView.shows_of_map hmembers (fun _ => ⟨rfl, rfl⟩) fun _ => ⟨rfl, rfl⟩
  | conflict hne => exact absurd hc hne
  | _ => exact hc.elim

end InMemoryMembershipTable

namespace SqliteCalls

def views (es : List SqliteEvent) : List MembershipView :=
  outputs step (fun s e => (s.returned e).toList.map Prod.snd) init es

/-- One task updates the table with each of the entries, naming the version it is at. -/
def updateAll (us : List MemberEntry) : List SqliteEvent :=
  us.zipIdx.flatMap fun u => [.tryUpdate 0 u.1 u.2, .readVersion 0, .readRows 0]

theorem updateAll_snoc (us e) :
    updateAll (us ++ [e]) =
      updateAll us ++ [.tryUpdate 0 e us.length, .readVersion 0, .readRows 0] := by
  simp [updateAll, zipIdx_append]

theorem exec_tryUpdate (db entry) :
    exec step ⟨db, .empty⟩ [.tryUpdate 0 entry db.version, .readVersion 0, .readRows 0] =
        some ⟨db.put entry, .empty⟩ ∧
      outputs step (fun s e => (s.returned e).toList.map Prod.snd) ⟨db, .empty⟩
          [.tryUpdate 0 entry db.version, .readVersion 0, .readRows 0] =
        [⟨db.version + 1, (db.put entry).rows.map rowToEntry⟩] := by
  have hcommit : step ⟨db, .empty⟩ (.tryUpdate 0 entry db.version) =
      some ⟨db.put entry, empty.insert 0 (.committed db.version)⟩ := by
    simp [step, SqliteMembershipTable.transaction]
  have hver : step ⟨db.put entry, empty.insert 0 (.committed db.version)⟩
      (.readVersion 0) = some ⟨db.put entry,
        empty.insert 0 (.versionRead (some db.version) (db.version + 1))⟩ := rfl
  have hrows : step ⟨db.put entry,
      empty.insert 0 (.versionRead (some db.version) (db.version + 1))⟩ (.readRows 0) =
        some ⟨db.put entry, .empty⟩ := rfl
  constructor
  · rw [exec, hcommit, bind_some, exec, hver, bind_some, exec, hrows]
    rfl
  · rw [outputs, hcommit, elim_some, outputs, hver, elim_some, outputs, hrows]
    rfl

theorem foldRows_eq (us) : foldRows us = (foldUpdates us).mapValues entryToRow := by
  induction us using reverseRecOn with
  | nil => rfl
  | append_singleton us e ih =>
    ext id : 1
    rw [foldRows_snoc, foldUpdates_snoc, ih, lookup_mapValues,
      lookup_insert, lookup_insert, lookup_mapValues]
    split_ifs <;> rfl

theorem exec_updateAll (us) :
    exec step init (updateAll us) = some ⟨⟨us.length, foldRows us⟩, .empty⟩ ∧
      Viewed us (views (updateAll us)) := by
  induction us using reverseRecOn with
  | nil => exact ⟨rfl, .nil⟩
  | append_singleton us e ih =>
    obtain ⟨hr, hviewed⟩ := ih
    obtain ⟨hx, hout⟩ := exec_tryUpdate ⟨us.length, foldRows us⟩ e
    have hput : SqliteMembershipTable.put ⟨us.length, foldRows us⟩ e =
        ⟨(us ++ [e]).length, foldRows (us ++ [e])⟩ := by
      rw [foldRows_snoc, length_append]
      rfl
    rw [hput] at hx hout
    rw [updateAll_snoc, exec_append, hr, bind_some, hx]
    refine ⟨rfl, ?_⟩
    rw [views, outputs_append hr, hout]
    refine hviewed.snoc (MembershipView.shows_of_map (g := id) (f := rowToEntry ∘ entryToRow)
      ?_ (fun e => ?_) fun _ => ⟨rfl, rfl⟩)
    · change ((foldRows (us ++ [e])).values.map rowToEntry).map id = _
      rw [List.map_id, foldRows_eq, values_mapValues, List.map_map]
    · obtain ⟨haddr, hstatus, hgeneration⟩ := rowToEntry_entryToRow e
      exact ⟨haddr, Prod.ext hstatus hgeneration⟩

end SqliteCalls

/-- On either table, the views that updates return are fenced exactly when each update
follows the entry it replaces. -/
theorem fenced_iff (us : List MemberEntry) :
    (∀ cs t, exec InMemoryMembershipTable.step .new cs = some t →
      Along InMemoryMembershipTable.step InMemoryMembershipTable.UpToDate .new cs →
      updates cs = us →
      (Fenced (views cs) ↔ Respectful us)) ∧
    (Fenced (views (updateAll us)) ↔ Respectful us) := by
  refine ⟨fun cs t hrun hal hus => ?_, ?_⟩
  · subst hus
    exact (viewed_updates hrun hal).fenced_iff_respectful
  · exact (exec_updateAll us).2.fenced_iff_respectful

open InMemoryMembershipTable (entryOf)

/-- A silo joins, is declared dead, and comes back with a higher generation. -/
def restarted : List MemberEntry :=
  [entryOf "a" .active 1, entryOf "a" .dead 1, entryOf "a" .joining 2]

theorem respectful_restarted : Respectful restarted := by
  have hnil : Respectful [] := by simp [Respectful]
  have hjoin : Respectful ([] ++ [entryOf "a" .active 1]) :=
    respectful_snoc.mpr ⟨hnil, fun old h => by cases h⟩
  have hdead : Respectful ([] ++ [entryOf "a" .active 1] ++ [entryOf "a" .dead 1]) := by
    refine respectful_snoc.mpr ⟨hjoin, fun old h => ?_⟩
    obtain rfl := some.inj (h : some (entryOf "a" .active 1) = some old)
    exact ⟨by decide, by decide⟩
  refine respectful_snoc.mpr ⟨hdead, fun old h => ?_⟩
  obtain rfl := some.inj (h : some (entryOf "a" .dead 1) = some old)
  exact ⟨by decide, by decide⟩

def restartedCalls : List TableCall :=
  [.tryUpdate (entryOf "a" .active 1) 0 [entryOf "a" .active 1],
    .tryUpdate (entryOf "a" .dead 1) 1 [entryOf "a" .dead 1],
    .tryUpdate (entryOf "a" .joining 2) 2 [entryOf "a" .joining 2]]

theorem fenced_iff_restarted :
    Fenced (views restartedCalls) ∧ Fenced (views (updateAll restarted)) := by
  obtain ⟨hmem, hsqlite⟩ := fenced_iff restarted
  exact ⟨(hmem restartedCalls _ rfl (by decide +kernel) rfl).mpr respectful_restarted,
    hsqlite.mpr respectful_restarted⟩

/-- A silo that is dead at generation 5 is active again at generation 3. -/
def revived : List MemberEntry :=
  [entryOf "a" .dead 5, entryOf "a" .active 3]

theorem not_respectful_revived : ¬Respectful revived := fun h =>
  absurd (h [entryOf "a" .dead 5] (entryOf "a" .active 3) [] rfl (entryOf "a" .dead 5)
    rfl).generation (by decide)

def revivedCalls : List TableCall :=
  [.tryUpdate (entryOf "a" .dead 5) 0 [entryOf "a" .dead 5],
    .tryUpdate (entryOf "a" .active 3) 1 [entryOf "a" .active 3]]

theorem dead_revived :
    ¬Fenced (views revivedCalls) ∧ ¬Fenced (views (updateAll revived)) := by
  have hrun : ∃ t, exec InMemoryMembershipTable.step .new revivedCalls = some t := ⟨_, rfl⟩
  obtain ⟨t, hrun⟩ := hrun
  have hmem := viewed_updates hrun (by decide +kernel)
  rw [hmem.fenced_iff_respectful, (exec_updateAll revived).2.fenced_iff_respectful]
  exact ⟨not_respectful_revived, not_respectful_revived⟩

end Orlando
