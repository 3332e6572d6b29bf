import Orlando.Decimal
import Orlando.Slots
import Orlando.Tagged
import Orlando.Transactions

/-!
# Calls on the state store in memory

The calls of the trait `StateStore` on an `InMemoryStateStore`. A call that writes draws its tag
before it takes the lock, and the rest is done under the lock, so a run is a list of calls that
begin and calls that finish (`StoreEvent`), in any order. `StoreRun.history` keeps every successful
write, with its tag, and every delete.
-/

namespace Orlando

open Option InMemoryStateStore Change List

inductive StoreCall where
  | load (gid : GrainId)
  | save (gid : GrainId) (bytes : Bytes)
  | delete (gid : GrainId)
  | loadWithEtag (gid : GrainId)
  | saveWithEtag (gid : GrainId) (bytes : Bytes) (expected : Option String)
deriving DecidableEq, Repr

inductive StoreAnswer where
  | loaded (bytes : Option Bytes)
  | loadedWithEtag (entry : Option (Bytes × String))
  | done
  | saved (etag : String)
  | failed (e : PersistenceError)
deriving DecidableEq, Repr

namespace StoreCall

def gid : StoreCall → GrainId
  | load gid | save gid _ | delete gid | loadWithEtag gid | saveWithEtag gid _ _ => gid

def isWrite : StoreCall → Bool
  | save .. | saveWithEtag .. => true
  | _ => false

def Writes (c : StoreCall) (gid : GrainId) (bytes : Bytes) : Prop :=
  c = save gid bytes ∨ ∃ expected, c = saveWithEtag gid bytes expected

/-- What a call that has been answered has done to the entry of its grain. `etag` is the tag the
call has drawn. -/
def change : StoreCall → Option String → StoreAnswer → Option (Change Bytes String)
  | save _ bytes, some etag, .done => some (.write bytes etag)
  | saveWithEtag _ bytes _, _, .saved etag => some (.write bytes etag)
  | delete _, _, .done => some .erase
  | _, _, _ => none

theorem change_failed (c : StoreCall) (etag) (e) : c.change etag (.failed e) = none := by
  cases c <;> cases etag <;> rfl

end StoreCall

def StoreAnswer.ofSaved : Except PersistenceError String → StoreAnswer
  | .ok etag => saved etag
  | .error e => failed e

namespace InMemoryStateStore

def saveWithEtagLocked (d : InMemoryStateStore) (gid : GrainId) (bytes : Bytes)
    (expected : Option String) (etag : String) :
    Except PersistenceError String × InMemoryStateStore :=
  let accept := (.ok etag, d.setEntry gid (some (bytes, etag)))
  match expected, d.data gid with
  | none, none => accept
  | none, some (_, actual) => (.error (.etagMismatch none (some actual)), d)
  | some expected, none => (.error (.etagMismatch (some expected) none), d)
  | some expected, some (_, actual) =>
    if expected ≠ actual then (.error (.etagMismatch (some expected) (some actual)), d)
    else accept

def locked (d : InMemoryStateStore) :
    StoreCall → Option String → Option (StoreAnswer × InMemoryStateStore)
  | .load gid, _ => some (.loaded (d.load gid), d)
  | .save gid bytes, some etag => some (.done, d.setEntry gid (some (bytes, etag)))
  | .delete gid, _ => some (.done, d.delete gid)
  | .loadWithEtag gid, _ => some (.loadedWithEtag (d.loadWithEtag gid), d)
  | .saveWithEtag gid bytes expected, some etag =>
    some ((d.saveWithEtagLocked gid bytes expected etag).map .ofSaved id)
  | _, none => none

variable {d d' : InMemoryStateStore} {gid : GrainId} {bytes : Bytes} {expected : Option String}
  {etag : Option String} {c : StoreCall} {a : StoreAnswer}

@[simp] theorem setEntry_data (entry gid') :
    (d.setEntry gid entry).data gid' = if gid' = gid then entry else d.data gid' :=
  Function.update_apply _ _ _ _

theorem saveWithEtagLocked_eq (etag) :
    d.saveWithEtagLocked gid bytes expected etag =
      if (d.data gid).map Prod.snd = expected then
        (.ok etag, d.setEntry gid (some (bytes, etag)))
      else (.error (.etagMismatch expected ((d.data gid).map Prod.snd)), d) := by
  unfold saveWithEtagLocked
  cases expected with
  | none => cases d.data gid <;> simp
  | some expected =>
    cases d.data gid with
    | none => simp
    | some entry => simp [eq_comm, ite_not]

section

variable (h : d.locked c etag = some (a, d'))
include h

/-- A call leaves the store alone, or makes its change to the entry of its grain. A tag it writes is
the one it has drawn. -/
theorem locked_cases :
    (c.change etag a = none ∧ d' = d) ∨
      ∃ x, c.change etag a = some x ∧ d' = d.setEntry c.gid (entry x) ∧
        ∀ t, tag x = some t → etag = some t := by
  cases c with
  | load gid' | loadWithEtag gid' =>
    cases h
    exact .inl ⟨rfl, rfl⟩
  | delete gid' =>
    cases h
    exact .inr ⟨.erase, rfl, rfl, nofun⟩
  | save gid' bytes =>
    cases etag <;> cases h
    exact .inr ⟨_, rfl, rfl, fun t ht => ht⟩
  | saveWithEtag gid' bytes expected =>
    cases etag with
    | none => cases h
    | some etag =>
      rw [locked, saveWithEtagLocked_eq] at h
      split_ifs at h <;> cases h
      · exact .inr ⟨_, rfl, rfl, fun t ht => ht⟩
      · exact .inl ⟨rfl, rfl⟩

theorem locked_data (gid) :
    d'.data gid = if gid = c.gid then (c.change etag a).elim (d.data gid) entry
      else d.data gid := by
  rcases locked_cases h with ⟨hc, rfl⟩ | ⟨x, hc, rfl, -⟩ <;> simp [hc]

theorem locked_version : d'.version = d.version := by
  rcases locked_cases h with ⟨-, rfl⟩ | ⟨x, -, rfl, -⟩ <;> rfl

end

theorem eq_of_locked_failed {e} (h : d.locked c etag = some (.failed e, d')) : d' = d := by
  rcases locked_cases h with ⟨-, rfl⟩ | ⟨x, hc, -⟩
  · rfl
  · rw [c.change_failed] at hc
    cases hc

theorem tag_of_locked {t} (h : d.locked c etag = some (a, d'))
    (ht : (c.change etag a).bind tag = some t) : etag = some t := by
  rcases locked_cases h with ⟨hc, -⟩ | ⟨x, hc, -, htag⟩ <;> rw [hc] at ht
  · cases ht
  · exact htag t ht

end InMemoryStateStore

/-! ## Runs -/

/-- A call that has begun : the tag it has drawn if it writes, and its answer once it has one. -/
structure StoreTask where
  call : StoreCall
  etag : Option String
  answer : Option StoreAnswer
deriving DecidableEq, Repr

/-- A store, the calls that have begun on it, and the changes they have made to it. -/
structure StoreRun where
  store : InMemoryStateStore
  calls : List StoreTask
  history : WriteLog GrainId (Change Bytes String)

/-- A call begins, or the call `k` takes the lock, does its work and returns. -/
inductive StoreEvent where
  | begin (c : StoreCall)
  | finish (k : ℕ)
deriving DecidableEq, Repr

def StoreEvent.draws : StoreEvent → Bool
  | begin c => c.isWrite
  | finish _ => false

namespace StoreRun

def init : StoreRun where
  store := .new
  calls := []
  history := []

def step (s : StoreRun) : StoreEvent → Option StoreRun
  | .begin c =>
    if c.isWrite then
      some { s with
        store := s.store.nextEtag.2
        calls := s.calls ++ [⟨c, some s.store.nextEtag.1, none⟩] }
    else some { s with calls := s.calls ++ [⟨c, none, none⟩] }
  | .finish k =>
    match s.calls[k]? with
    | some ⟨c, etag, none⟩ =>
      (s.store.locked c etag).map fun (a, d) =>
        { store := d
          calls := s.calls.set k ⟨c, etag, some a⟩
          history := Change.record s.history c.gid (c.change etag a) }
    | _ => none

inductive Move (s : StoreRun) : StoreEvent → StoreRun → Prop
  | begin (c : StoreCall) (store : InMemoryStateStore) (etag : Option String)
    (hdata : store.data = s.store.data)
    (hdraw : if c.isWrite then (etag, store.version) =
        (some (toString s.store.version), (s.store.version + 1) % 2 ^ 64)
      else (etag, store.version) = (none, s.store.version)) :
    Move s (.begin c) ⟨store, s.calls ++ [⟨c, etag, none⟩], s.history⟩
  | finish {k c etag a store} (hk : s.calls[k]? = some ⟨c, etag, none⟩)
    (hlock : s.store.locked c etag = some (a, store)) :
    Move s (.finish k) ⟨store, s.calls.set k ⟨c, etag, some a⟩,
      Change.record s.history c.gid (c.change etag a)⟩

theorem move_of_step {s s' e} (h : s.step e = some s') : Move s e s' := by
  cases e with
  | begin c =>
    rw [step] at h
    split_ifs at h with hw <;> cases h
    · exact .begin c _ _ rfl (by rw [if_pos hw]; rfl)
    · exact .begin c _ _ rfl (by rw [if_neg hw])
  | finish k =>
    rw [step] at h
    split at h
    · rename_i c etag hk
      obtain ⟨⟨a, d⟩, hlock, rfl⟩ := map_eq_some_iff.mp h
      exact .finish hk hlock
    · cases h

/-! ## The tags of a run -/

def drawn (i : ℕ) : String :=
  toString ((1 + i) % 2 ^ 64)

theorem drawn_injOn {i j} (hi : i < 2 ^ 64) (hj : j < 2 ^ 64) (h : drawn i = drawn j) : i = j := by
  have hmod := toString_nat_inj h
  omega

/-- A run in which `n` tags have been drawn. The store is what its changes leave. -/
structure Tracked (n : ℕ) (s : StoreRun) : Prop where
  version_eq : s.store.version = (1 + n) % 2 ^ 64
  data_eq : ∀ gid, s.store.data gid = Change.current (s.history.writesTo gid)
  drew : ∀ (k : ℕ) x, s.calls[k]? = some x → x.call.isWrite = true → x.etag ≠ none
  etag_eq : ∀ (k : ℕ) x t, s.calls[k]? = some x → x.etag = some t → ∃ i < n, t = drawn i
  /-- Until the counter wraps, two calls have two tags. -/
  etag_unique : n ≤ 2 ^ 64 → ∀ (j k : ℕ) x y t, s.calls[j]? = some x → s.calls[k]? = some y →
    x.etag = some t → y.etag = some t → j = k
  returned : ∀ t ∈ Change.allTags s.history, ∃ (k : ℕ) (x : StoreTask),
    s.calls[k]? = some x ∧ x.etag = some t ∧ x.answer ≠ none
  nodup : n ≤ 2 ^ 64 → (Change.allTags s.history).Nodup

namespace Tracked

variable {n : ℕ} {s s' : StoreRun}

theorem init : Tracked 0 StoreRun.init where
  version_eq := rfl
  data_eq := fun _ => rfl
  drew := fun _ _ h => by cases h
  etag_eq := fun _ _ _ h => by cases h
  etag_unique := fun _ _ _ _ _ _ h => by cases h
  returned := fun _ h => by cases h
  nodup := fun _ => nodup_nil

section

variable (h : Tracked n s) {store : InMemoryStateStore} {etag : Option String} {c : StoreCall}
include h

theorem not_mem_allTags (hn : n ≤ 2 ^ 64) {k : ℕ} {x} {t} (hk : s.calls[k]? = some x)
    (hx : x.answer = none) (ht : x.etag = some t) : t ∉ allTags s.history := by
  intro hmem
  obtain ⟨j, y, hj, hy, hans⟩ := h.returned t hmem
  obtain rfl := h.etag_unique hn j k y x t hj hk hy ht
  cases hj.symm.trans hk
  exact hans hx

theorem begin {m} (hdata : store.data = s.store.data) (hm : n ≤ m)
    (hversion : store.version = (1 + m) % 2 ^ 64) (hdrew : c.isWrite = true → etag ≠ none)
    (hetag : ∀ t, etag = some t → m = n + 1 ∧ t = drawn n) :
    Tracked m ⟨store, s.calls ++ [⟨c, etag, none⟩], s.history⟩ where
  version_eq := hversion
  data_eq := fun gid => hdata ▸ h.data_eq gid
  drew := by
    intro k x hk
    rcases getElem?_snoc hk with hk | ⟨-, rfl⟩
    · exact h.drew k x hk
    · exact hdrew
  etag_eq := by
    intro k x t hk ht
    rcases getElem?_snoc hk with hk | ⟨-, rfl⟩
    · obtain ⟨i, hi, rfl⟩ := h.etag_eq k x t hk ht
      exact ⟨i, by omega, rfl⟩
    · obtain ⟨rfl, rfl⟩ := hetag t ht
      exact ⟨n, n.lt_succ_self, rfl⟩
  etag_unique := by
    have hnew : m ≤ 2 ^ 64 → ∀ (j : ℕ) x t, s.calls[j]? = some x → x.etag = some t →
        etag ≠ some t := by
      rintro hle j x t hj hx rfl
      obtain ⟨rfl, rfl⟩ := hetag t rfl
      obtain ⟨i, hi, heq⟩ := h.etag_eq j x _ hj hx
      have := drawn_injOn (by omega) (by omega) heq
      omega
    intro hle j k x y t hj hk hx hy
    rcases getElem?_snoc hj with hj' | ⟨rfl, rfl⟩ <;> rcases getElem?_snoc hk with hk' | ⟨rfl, rfl⟩
    · exact h.etag_unique (Nat.le_trans hm hle) j k x y t hj' hk' hx hy
    · exact absurd hy (hnew hle j x t hj' hx)
    · exact absurd hx (hnew hle k y t hk' hy)
    · rfl
  returned := by
    intro t ht
    obtain ⟨k, x, hk, hx⟩ := h.returned t ht
    exact ⟨k, x, getElem?_snoc_of_some hk, hx⟩
  nodup := fun hle => h.nodup (Nat.le_trans hm hle)

theorem finish {k} {a} (hk : s.calls[k]? = some ⟨c, etag, none⟩)
    (hlock : s.store.locked c etag = some (a, store)) :
    Tracked n ⟨store, s.calls.set k ⟨c, etag, some a⟩,
      record s.history c.gid (c.change etag a)⟩ := by
  -- The call keeps its tag.
  have hsame : ∀ (j : ℕ) x, (s.calls.set k ⟨c, etag, some a⟩)[j]? = some x →
      ∃ y, s.calls[j]? = some y ∧ y.etag = x.etag ∧ y.call = x.call := by
    intro j x hj
    rcases getElem?_set_cases hk hj with ⟨rfl, rfl⟩ | ⟨-, hj⟩
    · exact ⟨_, hk, rfl, rfl⟩
    · exact ⟨x, hj, rfl, rfl⟩
  exact {
    version_eq := (locked_version hlock).trans h.version_eq
    data_eq := fun gid => by
      rw [locked_data hlock, current_writesTo_record]
      split_ifs with hg
      · rw [hg, h.data_eq]
      · exact h.data_eq gid
    drew := fun j x hj hw => by
      obtain ⟨y, hy, hyx, hcall⟩ := hsame j x hj
      exact hyx ▸ h.drew j y hy (hcall ▸ hw)
    etag_eq := fun j x t hj hx => by
      obtain ⟨y, hy, hyx, -⟩ := hsame j x hj
      exact h.etag_eq j y t hy (hyx.trans hx)
    etag_unique := fun hle i j x y t hi hj hx hy => by
      obtain ⟨x', hx', hxx, -⟩ := hsame i x hi
      obtain ⟨y', hy', hyy, -⟩ := hsame j y hj
      exact h.etag_unique hle i j x' y' t hx' hy' (hxx.trans hx) (hyy.trans hy)
    returned := fun t ht => by
      rw [allTags_record, mem_append] at ht
      rcases ht with ht | ht
      · obtain ⟨j, x, hj, hx, hans⟩ := h.returned t ht
        by_cases hjk : j = k
        · subst hjk
          cases hj.symm.trans hk
          exact absurd rfl hans
        · exact ⟨j, x, by rw [getElem?_set_of_some hk, if_neg hjk, hj], hx, hans⟩
      · have htag := tag_of_locked hlock (mem_toList.mp ht)
        exact ⟨k, _, by rw [getElem?_set_of_some hk, if_pos rfl], htag, some_ne_none a⟩
    nodup := fun hle => by
      have hone : ∀ o : Option String, o.toList.Nodup := fun o => by cases o <;> simp
      rw [allTags_record]
      refine List.Nodup.append (h.nodup hle) (hone _) fun t ht ht' => ?_
      have htag := tag_of_locked hlock (mem_toList.mp ht')
      exact h.not_mem_allTags hle hk rfl htag ht }

theorem step {e} (hstep : s.step e = some s') :
    Tracked (n + if e.draws then 1 else 0) s' := by
  cases move_of_step hstep with
  | begin c store etag hdata hdraw =>
    cases hw : c.isWrite with
    | true =>
      rw [if_pos hw] at hdraw
      obtain ⟨rfl, hver⟩ := Prod.mk.inj hdraw
      simp only [StoreEvent.draws, hw, if_true]
      refine h.begin hdata (by omega) ?_ (fun _ => some_ne_none _) fun t ht => ⟨rfl, ?_⟩
      · rw [hver, h.version_eq]
        omega
      · rw [← Option.some.inj ht, h.version_eq]
        rfl
    | false =>
      rw [if_neg (by simp [hw])] at hdraw
      obtain ⟨rfl, hver⟩ := Prod.mk.inj hdraw
      simp only [StoreEvent.draws, hw, Bool.false_eq_true, if_false]
      exact h.begin hdata (Nat.le_refl n) (hver.trans h.version_eq)
        (fun hw' => by simp [hw] at hw') (fun t ht => by cases ht)
  | finish hk hlock => exact h.finish hk hlock

end

theorem run {es} (h : exec StoreRun.step StoreRun.init es = some s) :
    Tracked (es.countP StoreEvent.draws) s := by
  refine exec_induction (I := fun es s => Tracked (es.countP StoreEvent.draws) s) init ?_ h
  intro es u e v _ hu hstep
  rw [countP_append, countP_singleton]
  exact hu.step hstep

end Tracked

/-! ## Optimistic concurrency control -/

def Answers (s : StoreRun) (k : ℕ) (a : StoreAnswer) (s' : StoreRun) : Prop :=
  s.step (.finish k) = some s' ∧ ∃ x, s'.calls[k]? = some x ∧ x.answer = some a

/-- What is promised in `s`, whichever call goes on next. -/
structure Optimistic (s : StoreRun) : Prop where
  /-- A successful write gives the grain a tag that has not been given out before. -/
  fresh : ∀ k x a s' gid bytes, s.calls[k]? = some x → x.call.Writes gid bytes → s.Answers k a s' →
    (∀ e, a ≠ .failed e) → ∃ etag, s'.store.data gid = some (bytes, etag) ∧
      s'.history = s.history.write gid (.write bytes etag) ∧ etag ∉ Change.allTags s.history
  /-- A save that expects `e` is accepted exactly if the last change of the grain is the write
  that has given out `e`. -/
  saved_iff : ∀ k gid bytes e etag,
    s.calls[k]? = some ⟨.saveWithEtag gid bytes (some e), etag, none⟩ →
      ((∃ t s', s.Answers k (.saved t) s') ↔
        ∃ past v, s.history.writesTo gid = past ++ [.write v e])
  /-- A save that expects no entry is accepted exactly if there is none. -/
  created_iff : ∀ k gid bytes etag,
    s.calls[k]? = some ⟨.saveWithEtag gid bytes none, etag, none⟩ →
      ((∃ t s', s.Answers k (.saved t) s') ↔ s.store.data gid = none)
  rejected : ∀ k e s', s.Answers k (.failed e) s' → s'.store = s.store ∧ s'.history = s.history
  /-- What is done for one grain leaves the others alone. -/
  other : ∀ e s' gid, s.step e = some s' →
    (∀ k x, e = .finish k → s.calls[k]? = some x → x.call.gid ≠ gid) →
      s'.store.data gid = s.store.data gid

variable {s s' : StoreRun} {k n : ℕ} {c : StoreCall} {etag : Option String} {a : StoreAnswer}
  {gid : GrainId} {bytes : Bytes}

theorem answers_iff (hk : s.calls[k]? = some ⟨c, etag, none⟩) :
    s.Answers k a s' ↔ ∃ store, s.store.locked c etag = some (a, store) ∧
      s' = ⟨store, s.calls.set k ⟨c, etag, some a⟩, record s.history c.gid (c.change etag a)⟩ := by
  have hset : ∀ y, (s.calls.set k y)[k]? = some y := fun y => by
    rw [getElem?_set_of_some hk, if_pos rfl]
  have hst : s.step (.finish k) = (s.store.locked c etag).map fun r =>
      ⟨r.2, s.calls.set k ⟨c, etag, some r.1⟩, record s.history c.gid (c.change etag r.1)⟩ := by
    simp only [step, hk]
  constructor
  · rintro ⟨hs', x, hx, ha⟩
    rw [hst] at hs'
    obtain ⟨⟨a', store⟩, hlock, rfl⟩ := map_eq_some_iff.mp hs'
    cases (hset _).symm.trans hx
    cases ha
    exact ⟨store, hlock, rfl⟩
  · rintro ⟨store, hlock, rfl⟩
    exact ⟨by rw [hst, hlock]; rfl, _, hset _, rfl⟩

theorem exists_pending_of_answers (h : s.Answers k a s') :
    ∃ c etag, s.calls[k]? = some ⟨c, etag, none⟩ := by
  cases move_of_step h.1 with
  | finish hk _ => exact ⟨_, _, hk⟩

theorem Tracked.accepted_iff (h : Tracked n s) {expected}
    (hk : s.calls[k]? = some ⟨.saveWithEtag gid bytes expected, etag, none⟩) :
    (∃ t s', s.Answers k (.saved t) s') ↔ (s.store.data gid).map Prod.snd = expected := by
  obtain ⟨tag, rfl⟩ := ne_none_iff_exists'.mp (h.drew k _ hk rfl)
  have hlock : s.store.locked (.saveWithEtag gid bytes expected) (some tag) =
      some ((s.store.saveWithEtagLocked gid bytes expected tag).map .ofSaved id) := rfl
  constructor
  · rintro ⟨t, s', hans⟩
    obtain ⟨store, hst, -⟩ := (answers_iff hk).mp hans
    rw [hlock, saveWithEtagLocked_eq] at hst
    split_ifs at hst with hexp
    · exact hexp
    · cases hst
  · intro hexp
    rw [saveWithEtagLocked_eq, if_pos hexp] at hlock
    exact ⟨tag, _, (answers_iff hk).mpr ⟨_, hlock, rfl⟩⟩

theorem Tracked.fresh (h : Tracked n s) (hn : n ≤ 2 ^ 64) {x : StoreTask}
    (hk : s.calls[k]? = some x) (hw : x.call.Writes gid bytes) (hans : s.Answers k a s')
    (hok : ∀ e, a ≠ .failed e) :
    ∃ etag, s'.store.data gid = some (bytes, etag) ∧
      s'.history = s.history.write gid (.write bytes etag) ∧ etag ∉ allTags s.history := by
  obtain ⟨c, etag, ans⟩ := x
  obtain rfl : ans = none := by
    obtain ⟨_, _, hp⟩ := exists_pending_of_answers hans
    exact congrArg StoreTask.answer (Option.some.inj (hk.symm.trans hp))
  obtain ⟨store, hlock, rfl⟩ := (answers_iff hk).mp hans
  obtain ⟨rfl, tag, hchange⟩ : c.gid = gid ∧ ∃ tag, c.change etag a = some (.write bytes tag) := by
    rcases hw with hc | ⟨expected, hc⟩ <;> obtain rfl : c = _ := hc
    · cases etag <;> cases hlock
      exact ⟨rfl, _, rfl⟩
    · cases etag with
      | none => cases hlock
      | some tag =>
        rw [locked, saveWithEtagLocked_eq] at hlock
        split_ifs at hlock <;> cases hlock
        · exact ⟨rfl, _, rfl⟩
        · exact absurd rfl (hok _)
  refine ⟨tag, ?_, ?_, ?_⟩
  · rw [locked_data hlock, if_pos rfl, hchange]
    rfl
  · rw [hchange]
    rfl
  · exact h.not_mem_allTags hn hk rfl (tag_of_locked hlock (hchange ▸ rfl))

theorem Tracked.optimistic (h : Tracked n s) (hn : n ≤ 2 ^ 64) : s.Optimistic where
  fresh := fun k x a s' gid bytes => h.fresh hn
  saved_iff := fun k gid bytes e etag hk => by
    rw [h.accepted_iff hk, h.data_eq]
    constructor
    · intro he
      obtain ⟨⟨v, t⟩, hcur, rfl⟩ := map_eq_some_iff.mp he
      obtain ⟨past, hpast⟩ := current_eq_some_iff.mp hcur
      exact ⟨past, v, hpast⟩
    · rintro ⟨past, v, hpast⟩
      rw [hpast, current_snoc]
      rfl
  created_iff := fun k gid bytes etag hk => by
    rw [h.accepted_iff hk, map_eq_none_iff]
  rejected := fun k e s' hans => by
    obtain ⟨c, etag, hk⟩ := exists_pending_of_answers hans
    obtain ⟨store, hlock, rfl⟩ := (answers_iff hk).mp hans
    exact ⟨eq_of_locked_failed hlock, by rw [StoreCall.change_failed]; rfl⟩
  other := fun e s' gid hstep hother => by
    cases move_of_step hstep with
    | begin c store etag hdata hdraw => rw [hdata]
    | finish hk hlock => rw [locked_data hlock, if_neg (Ne.symm (hother _ _ rfl hk))]

theorem exists_writesTo_append {es} (h : exec step s es = some s')
    (gid) : ∃ more, s'.history.writesTo gid = s.history.writesTo gid ++ more := by
  refine exec_invariant_of_step
    (I := fun t => ∃ more, t.history.writesTo gid = s.history.writesTo gid ++ more) ?_
    ⟨[], by simp⟩ h
  rintro t e t' ⟨more, hmore⟩ hstep
  cases move_of_step hstep with
  | begin c store etag hdata hdraw => exact ⟨more, hmore⟩
  | @finish k c etag a store hk hlock =>
    by_cases hg : c.gid = gid
    · subst hg
      exact ⟨more ++ (c.change etag a).toList, by
        rw [writesTo_record_self, hmore, append_assoc]⟩
    · exact ⟨more, by rw [writesTo_record_ne _ hg, hmore]⟩

/-- The store is what its history leaves, and while fewer than `2 ^ 64` writing calls have begun no
tag is given out twice. -/
theorem optimistic_of_lt_two_pow {es es' : List StoreEvent} {s s' : StoreRun}
    (hs : exec step init es = some s) (hs' : exec step s es' = some s')
    (hfew : (es ++ es').countP StoreEvent.draws < 2 ^ 64) :
    s'.Optimistic ∧ ∀ j k gid entry bytes tag etag t u u',
      s.calls[j]? = some ⟨.loadWithEtag gid, tag, none⟩ → s.Answers j (.loadedWithEtag entry) u →
      s'.calls[k]? = some ⟨.saveWithEtag gid bytes (entry.map Prod.snd), etag, none⟩ →
      s'.Answers k (.saved t) u' → s'.store.data gid = entry ∧
          (entry ≠ none → s'.history.writesTo gid = s.history.writesTo gid) := by
  have hrun : exec step init (es ++ es') = some s' := by
    rw [exec_append, hs]
    exact hs'
  have hfew' := Nat.le_of_lt hfew
  have htr := Tracked.run hs
  have htr' := Tracked.run hrun
  refine ⟨htr'.optimistic hfew', ?_⟩
  intro j k gid entry bytes _ etag t u u' hj hload hk hsave
  obtain ⟨_, hlock, -⟩ := (answers_iff hj).mp hload
  have hentry : s.store.data gid = entry := by
    cases hlock
    rfl
  have htag := (htr'.accepted_iff hk).mp ⟨t, u', hsave⟩
  cases entry with
  | none => exact ⟨map_eq_none_iff.mp htag, fun h => absurd rfl h⟩
  | some entry =>
    obtain ⟨v, tag⟩ := entry
    obtain ⟨⟨w, tag'⟩, hw, rfl⟩ := map_eq_some_iff.mp htag
    obtain ⟨more, hmore⟩ := exists_writesTo_append hs' gid
    have hnodup : (tags (s'.history.writesTo gid)).Nodup :=
      tags_writesTo_sublist.nodup (htr'.nodup hfew')
    rw [htr.data_eq] at hentry
    have hnil : more = [] := by
      rw [htr'.data_eq, hmore] at hw
      exact eq_nil_of_current_append (hmore ▸ hnodup) hentry hw
    rw [hnil, append_nil] at hmore
    exact ⟨by rw [htr'.data_eq, hmore, hentry], fun _ => hmore⟩

/-- Two tasks read the entry of `Counter/a`, and both have a save under way that expects the tag
they have read. -/
def twoWriters : List StoreEvent :=
  let gid : GrainId := ⟨"Counter", "a"⟩
  [.begin (.save gid [0]), .finish 0, .begin (.loadWithEtag gid), .begin (.loadWithEtag gid),
    .finish 1, .finish 2, .begin (.saveWithEtag gid [1] (some "1")),
    .begin (.saveWithEtag gid [2] (some "1"))]

theorem twoWriters_rejected : ∃ s, exec step init (twoWriters ++ [.finish 4]) = some s ∧
    s.history.writesTo ⟨"Counter", "a"⟩ = [.write [0] "1", .write [2] "3"] ∧
    ¬ ∃ t s', s.Answers 3 (.saved t) s' := by
  obtain ⟨s, hs, hview⟩ : ∃ s, exec step init (twoWriters ++ [.finish 4]) = some s ∧
      (s.calls[3]?, s.history.writesTo ⟨"Counter", "a"⟩) =
        (some ⟨.saveWithEtag ⟨"Counter", "a"⟩ [1] (some "1"), some "2", none⟩,
          [.write [0] "1", .write [2] "3"]) :=
    map_eq_some_iff.mp (by decide +kernel)
  obtain ⟨hk, hwrites⟩ := Prod.mk.inj hview
  have hopt := (@optimistic_of_lt_two_pow [] _ init s rfl hs (by decide)).1
  refine ⟨s, hs, hwrites, fun h => ?_⟩
  obtain ⟨past, v, hlast⟩ := (hopt.saved_iff 3 _ _ _ _ hk).mp h
  have htwo : [.write [0] "1"] ++ [.write [2] "3"] = past ++ [write v "1"] :=
    hwrites.symm.trans hlast
  obtain ⟨-, heq⟩ := append_inj' htwo rfl
  simp at heq

end StoreRun

end Orlando
