import Orlando.StateStore

/-!
# State stores in SQL

`SqliteStateStore` and `PostgresStateStore` keep one row for each grain, with a version that starts
at 1 and that every write raises by one. It is the tag, which a conditional save names in the
`WHERE` of its update. For the last `i64` `version + 1` is an error in PostgreSQL and a
floating-point number in SQLite (`Dialect.succ`); `expected_version + 1` wraps around in Rust.
-/

namespace Orlando

open Int64

inductive Dialect where
  | sqlite
  | postgres
deriving DecidableEq, Repr

/-- The value of a `version` column. SQLite makes a floating-point number of an integer that
overflows. -/
inductive SqlNumber where
  | integer (v : Int64)
  | real
deriving DecidableEq

def SqlNumber.Next (v w : SqlNumber) : Prop :=
  w = real ∨ ∃ n, v = integer n ∧ w = integer (n + 1)

structure GrainRow where
  data : Bytes
  version : SqlNumber
deriving DecidableEq

structure SqlStateStore where
  dialect : Dialect
  rows : GrainId → Option GrainRow

def parseI64 (text : String) : Except ParseIntError Int64 :=
  (parseDecimal (2 ^ 63) (2 ^ 63 - 1) text).map Int64.ofInt

theorem parseI64_toString (v) : parseI64 (toString v) = .ok v := by
  have hlow := v.le_toInt
  have hhigh : v.toInt ≤ ((2 ^ 63 - 1 : ℕ) : ℤ) := by
    have := v.toInt_lt
    omega
  have hread := parseDecimal_toString hlow hhigh
  change Except.map ofInt (parseDecimal _ _ (toString v.toInt)) = _
  rw [hread]
  exact congrArg Except.ok (ofInt_toInt v)

namespace Dialect

def error : Dialect → String → PersistenceError
  | sqlite => .sqlite
  | postgres => .postgres

def succ : Dialect → SqlNumber → Except PersistenceError SqlNumber
  | _, .real => .ok .real
  | d, .integer v =>
    if v = Int64.maxValue then
      match d with
      | sqlite => .ok .real
      | postgres => .error (.postgres "bigint out of range")
    else .ok (.integer (v + 1))

end Dialect

namespace SqlStateStore

def setRow (d : SqlStateStore) (gid : GrainId) (row : Option GrainRow) : SqlStateStore :=
  { d with rows := Function.update d.rows gid row }

def save (d : SqlStateStore) (gid : GrainId) (bytes : Bytes) :
    Except PersistenceError Unit × SqlStateStore :=
  match d.rows gid with
  | none => (.ok (), d.setRow gid (some ⟨bytes, .integer 1⟩))
  | some row =>
    match d.dialect.succ row.version with
    | .ok version => (.ok (), d.setRow gid (some ⟨bytes, version⟩))
    | .error e => (.error e, d)

def loadWithEtag (d : SqlStateStore) (gid : GrainId) :
    Except PersistenceError (Option (Bytes × String)) :=
  match d.rows gid with
  | none => .ok none
  | some ⟨data, .integer v⟩ => .ok (some (data, toString v))
  | some ⟨_, .real⟩ => .error (d.dialect.error "mismatched types")

/-- The error of a conditional save that was rejected, with the tag there is now. -/
def mismatch (d : SqlStateStore) (gid : GrainId) (expected : Option String) : PersistenceError :=
  match d.loadWithEtag gid with
  | .ok current => .etagMismatch expected (current.map Prod.snd)
  | .error e => e

def saveWithEtag (d : SqlStateStore) (gid : GrainId) (bytes : Bytes) :
    Option String → Except PersistenceError String × SqlStateStore
  | none =>
    match d.rows gid with
    | none => (.ok "1", d.setRow gid (some ⟨bytes, .integer 1⟩))
    | some _ => (.error (d.mismatch gid none), d)
  | some expected =>
    match parseI64 expected with
    | .error e => (.error (.serialization ("invalid etag: " ++ e.message)), d)
    | .ok version =>
      -- The row the update is made to, if there is one that its `WHERE` selects.
      if (d.rows gid).map GrainRow.version = some (.integer version) then
        (.ok (toString (version + 1)), d.setRow gid (some ⟨bytes, .integer (version + 1)⟩))
      else (.error (d.mismatch gid (some expected)), d)

def call (d : SqlStateStore) : StoreCall → StoreAnswer × SqlStateStore
  | .load gid => (.loaded ((d.rows gid).map GrainRow.data), d)
  | .save gid bytes =>
    match d.save gid bytes with
    | (.ok (), d) => (.done, d)
    | (.error e, d) => (.failed e, d)
  | .delete gid => (.done, d.setRow gid none)
  | .loadWithEtag gid =>
    match d.loadWithEtag gid with
    | .ok entry => (.loadedWithEtag entry, d)
    | .error e => (.failed e, d)
  | .saveWithEtag gid bytes expected => (d.saveWithEtag gid bytes expected).map .ofSaved id

/-- What a call that has been answered has done to the row of its grain, which is now as in
`d`. -/
def change (d : SqlStateStore) (c : StoreCall) : StoreAnswer → Option (Change Bytes SqlNumber)
  | .done | .saved _ =>
    some (match d.rows c.gid with
      | some row => .write row.data row.version
      | none => .erase)
  | _ => none

variable {d : SqlStateStore} {c : StoreCall} {gid : GrainId}

@[simp] theorem setRow_rows (row gid') :
    (d.setRow gid row).rows gid' = if gid' = gid then row else d.rows gid' :=
  Function.update_apply _ _ _ _

/-- What a call does : it fails or reads, it deletes the row of its grain, or it writes it. -/
inductive Effect (d : SqlStateStore) (c : StoreCall) : StoreAnswer × SqlStateStore → Prop
  | none {a} (hdone : a ≠ .done) (hsaved : ∀ t, a ≠ .saved t) : Effect d c (a, d)
  | erase : Effect d c (.done, d.setRow c.gid none)
  | write {a bytes version} (ha : a = .done ∨ ∃ t, a = .saved t)
    (hnext : ∀ row, d.rows c.gid = some row → row.version.Next version) :
    Effect d c (a, d.setRow c.gid (some ⟨bytes, version⟩))

theorem next_of_succ {v w} (h : d.dialect.succ v = .ok w) : v.Next w := by
  cases v with
  | real =>
    cases h
    exact .inl rfl
  | integer n =>
    simp only [Dialect.succ] at h
    split_ifs at h
    · cases hd : d.dialect <;> rw [hd] at h <;> cases h
      exact .inl rfl
    · cases h
      exact .inr ⟨n, rfl, rfl⟩

theorem effect_save (d gid bytes) : Effect d (.save gid bytes) (d.call (.save gid bytes)) := by
  simp only [call, save]
  cases hrow : d.rows gid with
  | none =>
    refine .write (.inl rfl) fun row h => ?_
    cases hrow.symm.trans h
  | some row =>
    cases hsucc : d.dialect.succ row.version with
    | error e =>
      simp only [hsucc]
      exact .none (by simp) (by simp)
    | ok version =>
      simp only [hsucc]
      refine .write (.inl rfl) fun row' h => ?_
      cases hrow.symm.trans h
      exact next_of_succ hsucc

theorem effect_saveWithEtag (d gid bytes expected) :
    Effect d (.saveWithEtag gid bytes expected) (d.call (.saveWithEtag gid bytes expected)) := by
  have hrejected : ∀ e, Effect d (.saveWithEtag gid bytes expected) (.failed e, d) :=
    fun e => .none (by simp) (by simp)
  cases expected with
  | none =>
    simp only [call, saveWithEtag]
    cases hrow : d.rows gid with
    | some row => exact hrejected _
    | none =>
      refine .write (.inr ⟨"1", rfl⟩) fun row h => ?_
      cases hrow.symm.trans h
  | some expected =>
    simp only [call, saveWithEtag]
    cases hparse : parseI64 expected with
    | error e => exact hrejected _
    | ok version =>
      simp only []
      split_ifs with hver
      · refine .write (.inr ⟨_, rfl⟩) fun row h => .inr ⟨version, ?_, rfl⟩
        change d.rows gid = some row at h
        rw [h] at hver
        exact Option.some.inj hver
      · exact hrejected _

theorem effect_call (d c) : Effect d c (d.call c) := by
  cases c with
  | load gid => exact .none (by simp) (by simp)
  | save gid bytes => exact effect_save d gid bytes
  | delete gid => exact .erase
  | loadWithEtag gid =>
    simp only [call]
    cases d.loadWithEtag gid <;> exact .none (by simp) (by simp)
  | saveWithEtag gid bytes expected => exact effect_saveWithEtag d gid bytes expected

theorem saved_iff {bytes n} :
    (∃ t, (d.call (.saveWithEtag gid bytes (some (toString n)))).1 = .saved t) ↔
      (d.rows gid).map GrainRow.version = some (.integer n) := by
  simp only [call, saveWithEtag, parseI64_toString]
  split_ifs with hver
  · simp [StoreAnswer.ofSaved, hver]
  · simp [StoreAnswer.ofSaved, hver]

/-- A save that expects the text `e` succeeds exactly if a load gives it, and leaves the table alone
otherwise. -/
def ExactTag (d : SqlStateStore) (gid : GrainId) (bytes : Bytes) (e : String) : Prop :=
  ((∃ t, (d.saveWithEtag gid bytes (some e)).1 = .ok t) ↔
      ∃ data, d.loadWithEtag gid = .ok (some (data, e))) ∧
    ((¬ ∃ data, d.loadWithEtag gid = .ok (some (data, e))) →
      (d.saveWithEtag gid bytes (some e)).2 = d ∧ parseI64 e ≠ .ok Int64.maxValue)

variable {bytes : Bytes} {e : String}

theorem loads_iff : (∃ data, d.loadWithEtag gid = .ok (some (data, e))) ↔
    ∃ v, (d.rows gid).map GrainRow.version = some (.integer v) ∧ e = toString v := by
  unfold loadWithEtag
  cases d.rows gid with
  | none => simp
  | some row =>
    obtain ⟨data, v | _⟩ := row
    · simp [eq_comm]
    · simp

theorem save_cases (d : SqlStateStore) (gid) (bytes) (e) :
    (∃ v, parseI64 e = .ok v ∧ (d.rows gid).map GrainRow.version = some (.integer v) ∧
        ∃ t, (d.saveWithEtag gid bytes (some e)).1 = .ok t) ∨
    (∀ v, parseI64 e = .ok v → (d.rows gid).map GrainRow.version ≠ some (.integer v)) ∧
      ∃ err, d.saveWithEtag gid bytes (some e) = (.error err, d) := by
  simp only [saveWithEtag]
  cases hparse : parseI64 e with
  | error err =>
    refine .inr ⟨fun v hv => ?_, _, rfl⟩
    cases hv
  | ok v =>
    simp only []
    split_ifs with hver
    · exact .inl ⟨v, rfl, hver, _, rfl⟩
    · refine .inr ⟨fun w hw => ?_, _, rfl⟩
      cases hw
      exact hver

/-- A tag is compared as a number, so a save accepts other spellings of it. -/
theorem exactTag_iff (d : SqlStateStore) (gid : GrainId) (bytes : Bytes) (e : String) :
    d.ExactTag gid bytes e ↔ ∀ v, parseI64 e = .ok v →
      if (d.rows gid).map GrainRow.version = some (.integer v) then e = toString v
      else v ≠ maxValue := by
  rw [ExactTag, loads_iff]
  rcases save_cases d gid bytes e with ⟨v, hv, hversion, hok⟩ | ⟨hother, err, hsave⟩
  · simp only [hok, hv, hversion, true_iff, Except.ok.injEq, Option.some.injEq,
      SqlNumber.integer.injEq, exists_eq_left', forall_eq', if_true]
    exact ⟨And.left, fun h => ⟨h, fun hn => absurd h hn⟩⟩
  · have hno : ¬ ∃ v, (d.rows gid).map GrainRow.version = some (.integer v) ∧ e = toString v := by
      rintro ⟨v, hversion, rfl⟩
      exact hother v (parseI64_toString v) hversion
    simp only [hsave, hno, reduceCtorEq, exists_false, true_and, not_false_eq_true, forall_const]
    constructor
    · intro hmax v hv
      rw [if_neg (hother v hv)]
      rintro rfl
      exact hmax hv
    · intro h hv
      have := h _ hv
      rw [if_neg (hother _ hv)] at this
      exact this rfl

/-- A row of version 1 is saved under `+1`. Where there is no row, the successor of the last `i64`
is taken before it is found out. -/
theorem other_spelling_accepted :
    ¬ ExactTag ⟨.sqlite, fun _ => some ⟨[0], .integer 1⟩⟩ ⟨"Counter", "a"⟩ [1] "+1" ∧
      ¬ ExactTag ⟨.postgres, fun _ => none⟩ ⟨"Counter", "a"⟩ [1] "9223372036854775807" := by
  constructor
  · intro h
    obtain ⟨v, hv, he⟩ := loads_iff.mp (h.1.mp ⟨"2", by decide +kernel⟩)
    cases hv
    exact absurd he (by decide +kernel)
  · intro h
    refine (h.2 fun hl => ?_).2 (by decide +kernel)
    obtain ⟨v, hv, -⟩ := loads_iff.mp hl
    cases hv

end SqlStateStore

/-- A database and the changes that have been made to its rows. -/
structure SqlRun where
  store : SqlStateStore
  history : WriteLog GrainId (Change Bytes SqlNumber)

namespace SqlRun

def init (d : Dialect) : SqlRun where
  store := ⟨d, fun _ => none⟩
  history := []

def step (s : SqlRun) (c : StoreCall) : SqlRun where
  store := (s.store.call c).2
  history := Change.record s.history c.gid ((s.store.call c).2.change c (s.store.call c).1)

def run (d : Dialect) (calls : List StoreCall) : SqlRun :=
  calls.foldl step (init d)

def Accepts (s : SqlRun) (gid : GrainId) (bytes : Bytes) (e : String) : Prop :=
  ∃ t, (s.store.call (.saveWithEtag gid bytes (some e))).1 = .saved t

def version (s : SqlRun) (gid : GrainId) : Option SqlNumber :=
  (s.store.rows gid).map GrainRow.version

/-- A call either leaves the versions and the changes of `gid` alone, or it makes a change to it :
it erases the row, or it writes the next version. -/
theorem step_cases (s : SqlRun) (c) (gid) :
    ((s.step c).version gid = s.version gid ∧
        (s.step c).history.writesTo gid = s.history.writesTo gid) ∨
      ((s.step c).version gid = none ∧
        (s.step c).history.writesTo gid = s.history.writesTo gid ++ [.erase]) ∨
      ∃ v w, (s.step c).version gid = some w ∧ (∀ u, s.version gid = some u → u.Next w) ∧
        (s.step c).history.writesTo gid = s.history.writesTo gid ++ [.write v w] := by
  have heffect := s.store.effect_call c
  generalize hcall : s.store.call c = r at heffect
  have hstep : s.step c = ⟨r.2, Change.record s.history c.gid (r.2.change c r.1)⟩ := by
    rw [step, hcall]
  rw [hstep]
  by_cases hg : c.gid = gid
  · subst hg
    rw [Change.writesTo_record_self]
    cases heffect with
    | none hdone hsv =>
      have hnone : ∀ a, a ≠ .done → (∀ t, a ≠ .saved t) → s.store.change c a = none := by
        intro a hdone hsv
        cases a <;> simp_all [SqlStateStore.change]
      exact .inl ⟨rfl, by simp [hnone _ hdone hsv]⟩
    | erase => exact .inr (.inl ⟨by simp [version], by simp [SqlStateStore.change]⟩)
    | @write a bytes w ha hnext =>
      refine .inr (.inr ⟨bytes, w, by simp [version], fun u hu => ?_, ?_⟩)
      · obtain ⟨row, hrow, rfl⟩ := Option.map_eq_some_iff.mp hu
        exact hnext row hrow
      · rcases ha with rfl | ⟨t, rfl⟩ <;> simp [SqlStateStore.change]
  · left
    rw [Change.writesTo_record_ne _ hg]
    cases heffect with
    | none => exact ⟨rfl, rfl⟩
    | _ => exact ⟨by simp [version, Ne.symm hg], rfl⟩

theorem run_snoc (d calls c) : run d (calls ++ [c]) = (run d calls).step c :=
  List.foldl_concat _ _ _ _

theorem ofNat_succ (k) : ofNat (k + 1) = ofNat k + 1 :=
  ofNat_add k 1

/-- As long as a row lives, its version counts the writes : a write that is followed by `k` others
is `k` versions behind, unless the version is no integer any more. -/
theorem version_of_cut {d gid v n} (calls : List StoreCall) :
    ∀ {past recent}, (run d calls).history.writesTo gid = past ++ .write v (.integer n) :: recent →
      .erase ∉ recent →
        (run d calls).version gid = some (.integer (n + Int64.ofNat recent.length)) ∨
          (run d calls).version gid = some .real := by
  induction calls using List.reverseRecOn with
  | nil =>
    intro past recent hcut
    simp [run, init, WriteLog.writesTo] at hcut
  | append_singleton calls c ih =>
    intro past recent hcut herase
    rw [run_snoc] at hcut ⊢
    rcases step_cases (run d calls) c gid with ⟨hsame, hlog⟩ | ⟨-, hlog⟩ | ⟨v', w, hw, hnext, hlog⟩
    · rw [hsame]
      exact ih (hlog.symm.trans hcut) herase
    · rcases snoc_eq_append_cons.mp (hlog.symm.trans hcut) with ⟨-, h, -⟩ | ⟨recent', rfl, -⟩
      · cases h
      · simp at herase
    · rw [hw]
      rcases snoc_eq_append_cons.mp (hlog.symm.trans hcut) with ⟨-, h, rfl⟩ | ⟨recent', rfl, hcut'⟩
      · cases h
        left
        simp
      · have herase' : .erase ∉ recent' := fun h => herase (by simp [h])
        rcases ih hcut' herase' with hver | hver
        · rcases hnext _ hver with rfl | ⟨m, hm, rfl⟩
          · exact .inr rfl
          · left
            obtain rfl := SqlNumber.integer.inj hm
            rw [List.length_append, List.length_singleton, ofNat_succ, Int64.add_assoc]
        · rcases hnext _ hver with rfl | ⟨m, hm, -⟩
          · exact .inr rfl
          · cases hm

theorem eq_zero_of_add_ofNat_eq {n k} (hk : k < 2 ^ 64) (h : n + ofNat k = n) : k = 0 := by
  have hzero : ofNat k = 0 := by simpa using h
  have hmod : k % 2 ^ 64 = 0 := by
    simpa using congrArg (fun x : Int64 => x.toBitVec.toNat) hzero
  rwa [Nat.mod_eq_of_lt hk] at hmod

/-- A version dies with its row : a grain that is deleted and saved again has the tags it had
before. -/
theorem stale_rejected_iff (d : Dialect) (calls : List StoreCall) (gid : GrainId) (bytes v : Bytes)
    (n : Int64) (past recent : List (Change Bytes SqlNumber))
    (hcut : (run d calls).history.writesTo gid = past ++ .write v (.integer n) :: recent) :
    ((run d calls).Accepts gid bytes (toString n) → recent = []) ↔
      (.erase ∉ recent ∧ recent.length < 2 ^ 64) ∨
        (run d calls).version gid ≠ some (.integer n) := by
  have haccepts : (run d calls).Accepts gid bytes (toString n) ↔
      (run d calls).version gid = some (.integer n) := SqlStateStore.saved_iff
  constructor
  · intro h
    by_cases hver : (run d calls).version gid = some (.integer n)
    · obtain rfl := h (haccepts.mpr hver)
      exact .inl ⟨by simp, by simp⟩
    · exact .inr hver
  · rintro (⟨herase, hfew⟩ | hver) hacc
    · have hver := haccepts.mp hacc
      rcases version_of_cut calls hcut herase with h | h
      · have hn : n + ofNat recent.length = n := by
          simpa using h.symm.trans hver
        exact List.length_eq_zero_iff.mp (eq_zero_of_add_ofNat_eq hfew hn)
      · cases h.symm.trans hver
    · exact absurd (haccepts.mp hacc) hver

/-- The first tag of a grain that has been saved again is rejected. -/
theorem saved_again_rejects_stale :
    ¬ (run .sqlite [.saveWithEtag ⟨"Counter", "a"⟩ [0] none, .save ⟨"Counter", "a"⟩ [1]]).Accepts
      ⟨"Counter", "a"⟩ [2] (toString (1 : Int64)) := by
  intro hacc
  have hsafe := (stale_rejected_iff .sqlite
    [.saveWithEtag ⟨"Counter", "a"⟩ [0] none, .save ⟨"Counter", "a"⟩ [1]] ⟨"Counter", "a"⟩ [2] [0] 1
    [] [.write [1] (.integer 2)] (by decide +kernel)).mpr (.inl ⟨by decide, by decide⟩)
  cases hsafe hacc

def recreated : List StoreCall :=
  [.saveWithEtag ⟨"Counter", "a"⟩ [0] none, .delete ⟨"Counter", "a"⟩, .save ⟨"Counter", "a"⟩ [1]]

/-- After `recreated` a save is accepted that expects the tag of the row that was deleted, and
overwrites what was saved since. -/
theorem recreated_accepts_stale :
    ((run .sqlite recreated).history.writesTo ⟨"Counter", "a"⟩ =
        [.write [0] (.integer 1), .erase, .write [1] (.integer 1)] ∧
      (run .sqlite recreated).Accepts ⟨"Counter", "a"⟩ [2] "1") ∧
    (run .postgres recreated).history.writesTo ⟨"Counter", "a"⟩ =
        [.write [0] (.integer 1), .erase, .write [1] (.integer 1)] ∧
      (run .postgres recreated).Accepts ⟨"Counter", "a"⟩ [2] "1" :=
  ⟨⟨by decide +kernel, "2", by decide +kernel⟩, by decide +kernel, "2", by decide +kernel⟩

end SqlRun

end Orlando
