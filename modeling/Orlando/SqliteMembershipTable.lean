import Orlando.MembershipTable

/-!
# The membership table in SQLite

The table kept in a database that tasks and processes share. `try_update` swaps the version and
writes the row in one transaction, and then reads the table like `read_all` : the version with one
query, the rows with another, and what others do may come between (`SqliteCalls`).
-/

namespace Orlando

open List OrderedMap MemberEntry

/-! ## Rows -/

def statusToStr : MembershipStatus → String
  | .joining => "joining"
  | .active => "active"
  | .suspect => "suspect"
  | .dead => "dead"

def statusFromStr (s : String) : MembershipStatus :=
  if s = "joining" then .joining
  else if s = "active" then .active
  else if s = "suspect" then .suspect
  -- A status that is not known is not taken for active.
  else .dead

def joinSuspectors (s : List String) : String :=
  "\n".intercalate s

def splitSuspectors (s : String) : List String :=
  if s.isEmpty then [] else s.splitOn "\n"

def systemtimeToMillis (t : SystemTime) : Int64 :=
  Int64.ofNat t

def millisToSystemtime (ms : Int64) : SystemTime :=
  ms.toInt.toNat

structure MemberRow where
  siloId : String
  host : String
  port : Int64
  status : String
  generation : Int64
  suspectors : String
  iAmAlive : Int64
deriving DecidableEq

def rowToEntry (row : MemberRow) : MemberEntry where
  addr := { host := row.host, port := row.port.toUInt64.toUInt16, siloId := row.siloId }
  status := statusFromStr row.status
  generation := row.generation.toUInt64
  suspectors := splitSuspectors row.suspectors
  iAmAlive := millisToSystemtime row.iAmAlive

def entryToRow (entry : MemberEntry) : MemberRow where
  siloId := entry.addr.siloId
  host := entry.addr.host
  port := entry.addr.port.toUInt64.toInt64
  status := statusToStr entry.status
  generation := entry.generation.toInt64
  suspectors := joinSuspectors entry.suspectors
  iAmAlive := systemtimeToMillis entry.iAmAlive

theorem statusFromStr_statusToStr (s) : statusFromStr (statusToStr s) = s := by
  cases s <;> rfl

theorem rowToEntry_entryToRow (entry) :
    (rowToEntry (entryToRow entry)).addr = entry.addr ∧
      (rowToEntry (entryToRow entry)).status = entry.status ∧
      (rowToEntry (entryToRow entry)).generation = entry.generation := by
  refine ⟨?_, statusFromStr_statusToStr _, ?_⟩
  · simp [rowToEntry, entryToRow]
  · simp [rowToEntry, entryToRow]

/-! ## The database -/

structure SqliteMembershipTable where
  version : ℕ
  members : OrderedMap String MemberRow

namespace SqliteMembershipTable

def connect : SqliteMembershipTable where
  version := 0
  members := .empty

variable (db : SqliteMembershipTable)

/-- The rows, `ORDER BY silo_id`. -/
def rows : List MemberRow :=
  db.members.values

def put (entry : MemberEntry) : SqliteMembershipTable where
  version := db.version + 1
  members := db.members.insert entry.addr.siloId (entryToRow entry)

def beat (siloId : String) (row : MemberRow) (now : SystemTime) : SqliteMembershipTable :=
  { db with members := db.members.insert siloId { row with iAmAlive := systemtimeToMillis now } }

/-- The transaction of `try_update` : the version is raised where it is the expected one,
and the row is written if it was. -/
def transaction (entry : MemberEntry) (expectedVersion : ℕ) :
    Except MembershipError SqliteMembershipTable :=
  if db.version = expectedVersion then .ok (db.put entry)
  else .error (.versionConflict expectedVersion db.version)

def updateIAmAlive (siloId : String) (now : SystemTime) :
    Except MembershipError SqliteMembershipTable :=
  match db.members.lookup siloId with
  | some row => .ok (db.beat siloId row now)
  | none => .error (.notFound siloId)

end SqliteMembershipTable

/-! ## Calls -/

inductive SqliteCall
  | committed (expectedVersion : ℕ)
  /-- The version is read, by a call of `try_update` that named the expected one or of
  `read_all`. -/
  | versionRead (expectedVersion : Option ℕ) (version : ℕ)
deriving DecidableEq

/-- The database and the calls under way, by the task that makes them. -/
structure SqliteCalls where
  db : SqliteMembershipTable
  calls : OrderedMap ℕ SqliteCall

inductive SqliteEvent
  | tryUpdate (task : ℕ) (entry : MemberEntry) (expectedVersion : ℕ)
  | readVersion (task : ℕ)
  | readRows (task : ℕ)
  | updateIAmAlive (siloId : String) (now : SystemTime)
deriving DecidableEq

namespace SqliteCalls

def init : SqliteCalls where
  db := .connect
  calls := .empty

variable (s : SqliteCalls)

def step (s : SqliteCalls) : SqliteEvent → Option SqliteCalls
  | .tryUpdate task entry expectedVersion =>
    match s.calls.lookup task with
    | some _ => none
    | none =>
      match s.db.transaction entry expectedVersion with
      | .ok db => some { db := db, calls := s.calls.insert task (.committed expectedVersion) }
      | .error _ => some s
  | .readVersion task =>
    match s.calls.lookup task with
    | none => some { s with calls := s.calls.insert task (.versionRead none s.db.version) }
    | some (.committed expectedVersion) =>
      some { s with
        calls := s.calls.insert task (.versionRead (some expectedVersion) s.db.version) }
    | some (.versionRead _ _) => none
  | .readRows task =>
    match s.calls.lookup task with
    | some (.versionRead _ _) => some { s with calls := s.calls.erase task }
    | _ => none
  | .updateIAmAlive siloId now =>
    match s.db.updateIAmAlive siloId now with
    | .ok db => some { s with db := db }
    | .error _ => some s

def returned : SqliteEvent → Option (Option ℕ × MembershipView)
  | .readRows task =>
    match s.calls.lookup task with
    | some (.versionRead expectedVersion version) =>
      some (expectedVersion, ⟨version, s.db.rows.map rowToEntry⟩)
    | _ => none
  | _ => none

def committed : SqliteEvent → List MemberEntry
  | .tryUpdate _ entry expectedVersion => if s.db.version = expectedVersion then [entry] else []
  | .readVersion _ | .readRows _ | .updateIAmAlive _ _ => []

def updates (es : List SqliteEvent) : List MemberEntry :=
  outputs step committed init es

end SqliteCalls

def foldRows (us : List MemberEntry) : OrderedMap String MemberRow :=
  us.foldl (fun rows e => rows.insert e.addr.siloId (entryToRow e)) .empty

/-- The view is that of the table after as many of the updates as its version says. -/
structure MembershipView.IsSnapshot (view : MembershipView) (us : List MemberEntry) : Prop where
  version : view.version ≤ us.length
  members : view.members.map MemberEntry.agreed =
    ((foldRows (us.take view.version)).values.map rowToEntry).map MemberEntry.agreed

namespace SqliteCalls

/-- No update commits while a call is under way. -/
def Undisturbed (s : SqliteCalls) (e : SqliteEvent) : Prop :=
  s.committed e = [] ∨ s.calls.isEmpty

instance instDecidableUndisturbed (s : SqliteCalls) (e : SqliteEvent) :
    Decidable (s.Undisturbed e) :=
  inferInstanceAs (Decidable (_ ∨ _))

variable {s s' : SqliteCalls} {e : SqliteEvent} 

variable (s) in
/-- The steps, each with what lets it happen, the update it commits and the state it leads
to. -/
inductive Move : SqliteEvent → List MemberEntry → SqliteCalls → Prop
  | committed {task entry} :
    Move (.tryUpdate task entry s.db.version) [entry]
      ⟨s.db.put entry, s.calls.insert task (.committed s.db.version)⟩
  | refused {task entry expectedVersion} : Move (.tryUpdate task entry expectedVersion) [] s
  | versionRead {task expectedVersion}
    (h : s.calls.lookup task = expectedVersion.map SqliteCall.committed) :
    Move (.readVersion task) []
      { s with calls := s.calls.insert task (.versionRead expectedVersion s.db.version) }
  | rowsRead {task} : Move (.readRows task) [] { s with calls := s.calls.erase task }
  | beat {siloId now row} (h : s.db.members.lookup siloId = some row) :
    Move (.updateIAmAlive siloId now) [] { s with db := s.db.beat siloId row now }
  | notFound {siloId now} : Move (.updateIAmAlive siloId now) [] s

theorem move_of_step (h : s.step e = some s') : s.Move e (s.committed e) s' := by
  cases e with
  | tryUpdate task entry expectedVersion =>
    simp only [step, SqliteMembershipTable.transaction] at h
    cases hidle : s.calls.lookup task with
    | some call => simp [hidle] at h
    | none =>
      by_cases hv : s.db.version = expectedVersion
      · subst hv
        simp only [hidle, if_true] at h
        cases h
        rw [committed, if_pos rfl]
        exact .committed
      · simp only [hidle, if_neg hv] at h
        cases h
        rw [committed, if_neg hv]
        exact .refused
  | readVersion task =>
    simp only [step] at h
    split at h
    case h_1 hl =>
      cases h
      exact .versionRead hl
    case h_2 expectedVersion hl =>
      cases h
      have hl' := hl
      exact .versionRead hl'
    case h_3 => cases h
  | readRows task =>
    simp only [step] at h
    split at h
    case h_1 =>
      cases h
      exact .rowsRead
    case h_2 => cases h
  | updateIAmAlive siloId now =>
    simp only [step, SqliteMembershipTable.updateIAmAlive] at h
    cases hl : s.db.members.lookup siloId with
    | some row =>
      simp only [hl] at h
      cases h
      exact .beat hl
    | none =>
      simp only [hl] at h
      cases h
      exact .notFound

end SqliteCalls

def SqliteCall.At (n : ℕ) : SqliteCall → Prop
  | .committed expectedVersion => n = expectedVersion + 1
  | .versionRead expectedVersion version => version = n ∧ ∀ v ∈ expectedVersion, n = v + 1

theorem foldRows_snoc (us e) :
    foldRows (us ++ [e]) = (foldRows us).insert e.addr.siloId (entryToRow e) := by
  rw [foldRows, foldl_append]
  rfl

def MemberRow.agreed (row : MemberRow) : MemberEntry :=
  (rowToEntry row).agreed

theorem MemberRow.agreed_beat (row : MemberRow) (millis) :
    ({ row with iAmAlive := millis } : MemberRow).agreed = row.agreed := by
  simp only [agreed, rowToEntry, MemberEntry.agreed]

variable {us : List MemberEntry}

/-- The database is what the updates make of the empty one, heartbeats apart. -/
structure SqliteMembershipTable.Holds (db : SqliteMembershipTable) (us : List MemberEntry) :
    Prop where
  version : db.version = us.length
  members : ∀ id, (db.members.lookup id).map MemberRow.agreed =
    ((foldRows us).lookup id).map MemberRow.agreed

namespace SqliteMembershipTable.Holds

variable {db : SqliteMembershipTable}

theorem put (h : db.Holds us) (entry) : (db.put entry).Holds (us ++ [entry]) where
  version := by rw [SqliteMembershipTable.put, h.version, length_append]; rfl
  members id := by
    rw [SqliteMembershipTable.put, foldRows_snoc, lookup_insert, lookup_insert]
    split_ifs
    · rfl
    · exact h.members id

theorem beat (h : db.Holds us) {siloId row} (hl : db.members.lookup siloId = some row)
    (now : SystemTime) : (db.beat siloId row now).Holds us where
  version := h.version
  members id := by
    rw [SqliteMembershipTable.beat, ← h.members id, lookup_insert]
    split_ifs with hid
    · rw [hid, hl, Option.map_some, Option.map_some, MemberRow.agreed_beat]
    · rfl

theorem rows (h : db.Holds us) :
    (db.rows.map rowToEntry).map agreed = ((foldRows us).values.map rowToEntry).map agreed := by
  rw [map_map, map_map]
  exact map_values_congr h.members

end SqliteMembershipTable.Holds

namespace SqliteCalls

variable {s s' : SqliteCalls} {e : SqliteEvent} {expectedVersion : Option ℕ} {es : List SqliteEvent}
  {view : MembershipView}

variable (s us) in
/-- The database holds the updates, and no call has been overtaken by one. -/
structure Tracks : Prop where
  db : s.db.Holds us
  calls : ∀ task call, s.calls.lookup task = some call → call.At us.length

theorem Tracks.step (h : s.Tracks us) (he : s.Undisturbed e) (hstep : s.step e = some s') :
    s'.Tracks (us ++ s.committed e) := by
  generalize hcom : s.committed e = new
  have hm := move_of_step hstep
  rw [hcom] at hm
  cases hm with
  | @committed task entry =>
    have hnone : ∀ task, s.calls.lookup task = none := by
      rcases he with he | he
      · rw [hcom] at he
        cases he
      · exact lookup_of_isEmpty he
    refine ⟨h.db.put entry, fun task' call hc => ?_⟩
    rw [lookup_insert, hnone] at hc
    split_ifs at hc
    cases hc
    rw [SqliteCall.At, length_append, h.db.version]
    rfl
  | @versionRead task expectedVersion hl =>
    rw [append_nil]
    refine ⟨h.db, fun task' call hc => ?_⟩
    rw [lookup_insert] at hc
    split_ifs at hc
    · cases hc
      refine ⟨h.db.version, fun v hv => ?_⟩
      obtain rfl := Option.mem_def.mp hv
      exact h.calls task _ hl
    · exact h.calls task' call hc
  | @rowsRead task =>
    rw [append_nil]
    refine ⟨h.db, fun task' call hc => ?_⟩
    rw [lookup_erase] at hc
    split_ifs at hc
    exact h.calls task' call hc
  | beat hl =>
    rw [append_nil]
    exact ⟨h.db.beat hl _, h.calls⟩
  | _ => rwa [append_nil]

theorem tracks_init : init.Tracks [] where
  db := ⟨rfl, fun _ => rfl⟩
  calls _ _ h := by cases h

theorem tracks_updates (hrun : exec step init es = some s) (hal : Along step Undisturbed init es) :
    s.Tracks (updates es) := by
  revert hal
  refine exec_induction (I := fun es s => Along step Undisturbed init es → s.Tracks (updates es))
    (fun _ => tracks_init) (fun es u e v hu ih hstep hal => ?_) hrun
  obtain ⟨hal, he⟩ := (along_snoc_iff hu).mp hal
  rw [updates, outputs_snoc hu]
  exact (ih hal).step he hstep

/-- Among the events `es`, a call returns the view ; if it is one of `try_update`, it
expected the version given. -/
def Returns (es : List SqliteEvent) (expectedVersion : Option ℕ) (view : MembershipView) : Prop :=
  ∃ es₁ e es₂ s, es = es₁ ++ e :: es₂ ∧ exec step init es₁ = some s ∧
    s.returned e = some (expectedVersion, view)

theorem Tracks.returned (h : s.Tracks us) (hr : s.returned e = some (expectedVersion, view)) :
    view.version = us.length ∧ (∀ v ∈ expectedVersion, view.version = v + 1) ∧
      view.members.map agreed = ((foldRows us).values.map rowToEntry).map agreed := by
  cases e with
  | readRows task =>
    simp only [SqliteCalls.returned] at hr
    split at hr
    case h_1 version hl =>
      cases hr
      obtain ⟨hver, hexpected⟩ := h.calls task _ hl
      exact ⟨hver, fun v hv => hver.trans (hexpected v hv), h.db.rows⟩
    case h_2 => cases hr
  | _ => cases hr

theorem Returns.isSnapshot (h : Returns es expectedVersion view)
    (hal : Along step Undisturbed init es) :
    view.IsSnapshot (updates es) ∧ ∀ v ∈ expectedVersion, view.version = v + 1 := by
  obtain ⟨es₁, e, es₂, s, rfl, hs, hr⟩ := h
  obtain ⟨hver, hexpected, hmembers⟩ := (tracks_updates hs hal.of_append).returned hr
  have hpre : updates (es₁ ++ e :: es₂) = updates es₁ ++ outputs step committed s (e :: es₂) :=
    outputs_append hs
  refine ⟨⟨?_, ?_⟩, hexpected⟩
  · rw [hpre, length_append, hver]
    exact Nat.le_add_right ..
  · rw [hpre, hver, take_left, hmembers]

/-- A view is the table after as many updates as its version says if no update commits while another
call is under way. -/
theorem views_atomic (es : List SqliteEvent) (hal : Along step Undisturbed init es) :
    (∀ expectedVersion view, Returns es expectedVersion view →
      view.IsSnapshot (updates es) ∧ ∀ v ∈ expectedVersion, view.version = v + 1) ∧
    (∀ expectedVersion view expectedVersion' view', Returns es expectedVersion view →
      Returns es expectedVersion' view' → view.version = view'.version →
      view.members.map agreed = view'.members.map agreed) := by
  refine ⟨fun _ _ h => h.isSnapshot hal, fun _ view _ view' h h' hv => ?_⟩
  rw [(h.isSnapshot hal).1.members, (h'.isSnapshot hal).1.members, hv]

open InMemoryMembershipTable (entryOf)

/-- Two tasks update the table and read it one after the other. -/
def inTurn : List SqliteEvent :=
  [.tryUpdate 0 (entryOf "b" .active 1) 0, .readVersion 0, .readRows 0,
    .tryUpdate 1 (entryOf "a" .active 1) 0, .updateIAmAlive "b" 9,
    .tryUpdate 1 (entryOf "a" .active 1) 1, .readVersion 1, .readRows 1]

theorem views_atomic_inTurn :
    ∃ view, Returns inTurn (some 1) view ∧ view.version = 2 ∧ view.IsSnapshot (updates inTurn) := by
  obtain ⟨view, hview, hversion⟩ : ∃ view, Returns inTurn (some 1) view ∧ view.version = 2 :=
    ⟨_, ⟨inTurn.take 7, _, _, _, rfl, rfl, rfl⟩, rfl⟩
  exact ⟨view, hview, hversion, ((views_atomic inTurn (by decide +kernel)).1 _ _ hview).1⟩

/-- An update commits between the two queries of `read_all` : the view has version 0 and the row of
the update. One commits before a `try_update` reads : it expected 0 and returns 2. -/
theorem torn_view :
    (∃ view, Returns [.readVersion 0, .tryUpdate 1 (entryOf "b" .active 1) 0, .readRows 0]
        none view ∧ view.version = 0 ∧ view.members.map (·.addr.siloId) = ["b"] ∧
      ¬view.IsSnapshot (updates
        [.readVersion 0, .tryUpdate 1 (entryOf "b" .active 1) 0, .readRows 0])) ∧
    ∃ view, Returns [.tryUpdate 0 (entryOf "b" .active 1) 0,
        .tryUpdate 1 (entryOf "a" .active 1) 1, .readVersion 0, .readRows 0] (some 0) view ∧
      view.version = 2 := by
  refine ⟨⟨_, ⟨[.readVersion 0, .tryUpdate 1 (entryOf "b" .active 1) 0], _, _, _, rfl, rfl, rfl⟩,
    rfl, rfl, fun h => ?_⟩, _, ⟨[.tryUpdate 0 (entryOf "b" .active 1) 0,
      .tryUpdate 1 (entryOf "a" .active 1) 1, .readVersion 0], _, _, _, rfl, rfl, rfl⟩, rfl⟩
  exact absurd (congrArg List.length h.members) (by decide)

end SqliteCalls

end Orlando
