import Orlando.SqliteMembershipTable

/-!
# The table in SQLite refines the one in memory

SQLite keeps an entry as a row (`entryToRow`), and the version as an `i64` : `MembershipRows` are
the tables of a `SqliteMembershipTable` with the version as it is kept (`toRows_tryUpdate`). Both
tables are what the updates make of the empty one (`InMemoryMembershipTable.Holds`,
`SqliteMembershipTable.Shows`).
-/

namespace Orlando

open List OrderedMap InMemoryMembershipTable MembershipView

open String in
theorem splitOnAux_newline (l m r acc) :
    (ofList (l ++ m ++ r)).splitOnAux "\n" ⟨utf8Len l⟩ ⟨utf8Len l + utf8Len m⟩ 0 acc =
      acc.reverse ++ (splitOnPPrepend (· == '\n') r m.reverse).map ofList := by
  unfold splitOnAux
  simp only [List.append_assoc, atEnd_iff, rawEndPos_ofList, utf8Len_append, Pos.Raw.mk_le_mk,
    Nat.add_le_add_iff_left, (by omega : utf8Len m + utf8Len r ≤ utf8Len m ↔ utf8Len r = 0),
    utf8Len_eq_zero]
  split
  · subst r
    simpa using extract_of_valid l m []
  · obtain ⟨c, r, rfl⟩ := r.exists_cons_of_ne_nil ‹_›
    have hget : Pos.Raw.get (ofList (l ++ (m ++ c :: r))) ⟨utf8Len l + utf8Len m⟩ = c := by
      simpa [-ofList_append] using get_of_valid (l ++ m) (c :: r)
    have hnext : Pos.Raw.next (ofList (l ++ (m ++ c :: r))) ⟨utf8Len l + utf8Len m⟩ =
        ⟨utf8Len l + utf8Len m + c.utf8Size⟩ := by
      simpa [-ofList_append] using next_of_valid (l ++ m) c r
    have hsep : Pos.Raw.get "\n" 0 = '\n' ∧ Pos.Raw.next "\n" 0 = ⟨1⟩ ∧ rawEndPos "\n" ≤ ⟨1⟩ := by
      decide
    have hextract := extract_of_valid l m (c :: r)
    rw [List.append_assoc] at hextract
    simp only [hget, hnext, hsep, if_true]
    split <;> rename_i h
    · obtain rfl : c = '\n' := by simpa using h
      change splitOnAux _ _ _ _ 0 (Pos.Raw.extract _ _ ⟨utf8Len l + utf8Len m⟩ :: acc) = _
      rw [hextract]
      simpa [Nat.add_assoc, splitOnPPrepend_cons_eq_if] using
        splitOnAux_newline (l ++ m ++ ['\n']) [] r (ofList m :: acc)
    · change splitOnAux _ _ _ (Pos.Raw.next _ ⟨utf8Len l + utf8Len m⟩) 0 acc = _
      rw [hnext]
      simpa [List.splitOnPPrepend_cons_eq_if, h, Nat.add_assoc] using
        splitOnAux_newline l (m ++ [c]) r acc
termination_by r.length

theorem splitOn_newline (s : String) :
    s.splitOn "\n" = (s.toList.splitOn '\n').map String.ofList := by
  simpa [String.splitOn, splitOn] using splitOnAux_newline [] [] s.toList []

def MemberEntry.Valid (e : MemberEntry) : Prop :=
  ∀ id ∈ e.suspectors, id ≠ "" ∧ '\n' ∉ id.toList

theorem splitSuspectors_joinSuspectors {ids}
    (h : ∀ id ∈ ids, id ≠ "" ∧ '\n' ∉ id.toList) : splitSuspectors (joinSuspectors ids) = ids := by
  by_cases hids : ids = []
  · subst hids
    rfl
  have hsplit : (joinSuspectors ids).toList.splitOn '\n' = ids.map String.toList := by
    rw [joinSuspectors, String.toList_intercalate]
    refine splitOn_intercalate _ ?_ (by simpa using hids)
    exact forall_mem_map.mpr fun id hid => (h id hid).2
  have hne : (joinSuspectors ids).isEmpty = false := by
    refine Bool.eq_false_iff.mpr fun hempty => ?_
    rw [String.isEmpty_iff.mp hempty] at hsplit
    obtain ⟨id, hid⟩ := exists_mem_of_ne_nil _ hids
    have hmem : id.toList ∈ "".toList.splitOn '\n' := hsplit ▸ mem_map_of_mem hid
    have hnil : id.toList = [] := by simpa using hmem
    exact (h id hid).1 (String.toList_eq_nil_iff.mp hnil)
  rw [splitSuspectors, hne, splitOn_newline, hsplit, map_map]
  exact (map_congr_left fun id _ => String.ofList_toList).trans (map_id _)

theorem agreed_entryToRow {e} (h : e.Valid) : (entryToRow e).agreed = e.agreed := by
  obtain ⟨haddr, hstatus, hgeneration⟩ := rowToEntry_entryToRow e
  have hsuspectors : (rowToEntry (entryToRow e)).suspectors = e.suspectors :=
    splitSuspectors_joinSuspectors h
  rw [MemberRow.agreed, MemberEntry.agreed, haddr, hstatus, hgeneration, hsuspectors]
  rfl

structure MembershipRows where
  version : Int64
  members : OrderedMap String MemberRow

namespace MembershipRows

def connect : MembershipRows where
  version := 0
  members := .empty

variable (db : MembershipRows)

def readAll : MembershipView where
  version := db.version.toUInt64.toNat
  members := db.members.values.map rowToEntry

def respond : TableCall → Except MembershipError (Option MembershipView) × MembershipRows
  | .readAll _ => (.ok (some db.readAll), db)
  | .tryUpdate entry expectedVersion _ =>
    if db.version = (UInt64.ofNat expectedVersion).toInt64 then
      let db' : MembershipRows :=
        ⟨db.version + 1, db.members.insert entry.addr.siloId (entryToRow entry)⟩
      (.ok (some db'.readAll), db')
    else (.error (.versionConflict expectedVersion db.version.toUInt64.toNat), db)
  | .updateIAmAlive siloId now =>
    match db.members.lookup siloId with
    | some row => (.ok none, { db with
        members := db.members.insert siloId { row with iAmAlive := systemtimeToMillis now } })
    | none => (.error (.notFound siloId), db)

def after (cs : List TableCall) : MembershipRows :=
  cs.foldl (fun db c => (db.respond c).2) connect

end MembershipRows

namespace SqliteMembershipTable

/-- The tables, with the version as the `i64` of its column. -/
def toRows (db : SqliteMembershipTable) : MembershipRows :=
  ⟨Int64.ofNat db.version, db.members⟩

/-- The tables are what the updates make of the empty ones, heartbeats apart. -/
structure Shows (db : SqliteMembershipTable) (us : List MemberEntry) : Prop where
  version : db.version = us.length
  members : ∀ id, (db.members.lookup id).map MemberRow.agreed =
    ((foldUpdates us).lookup id).map MemberEntry.agreed

end SqliteMembershipTable

def MembershipView.agreed (view : MembershipView) : MembershipView :=
  { view with members := view.members.map MemberEntry.agreed }

def TableCall.Valid : TableCall → Prop
  | tryUpdate entry expectedVersion _ => entry.Valid ∧ expectedVersion < 2 ^ 64
  | readAll _ | updateIAmAlive _ _ => True

variable {r : Except MembershipError (Option MembershipView)} {t t' : InMemoryMembershipTable}

namespace SqliteMembershipTable

variable {db : SqliteMembershipTable} {us : List MemberEntry} {c : TableCall}

theorem toNat_ofNat {n} (h : n < 2 ^ 64) : (Int64.ofNat n).toUInt64.toNat = n := by
  simpa using h

theorem toRows_readAll (hdb : db.version < 2 ^ 63) :
    db.toRows.readAll = ⟨db.version, db.rows.map rowToEntry⟩ :=
  congrArg (MembershipView.mk · _) (toNat_ofNat (by omega))

theorem toRows_tryUpdate (hdb : db.version < 2 ^ 63) {expectedVersion}
    (he : expectedVersion < 2 ^ 64) (entry order) :
    db.toRows.respond (.tryUpdate entry expectedVersion order) =
      match db.transaction entry expectedVersion with
      | .ok db' => (.ok (some db'.toRows.readAll), db'.toRows)
      | .error e => (.error e, db.toRows) := by
  have hiff : db.toRows.version = (UInt64.ofNat expectedVersion).toInt64 ↔
      db.version = expectedVersion := by
    refine ⟨fun heq => ?_, fun heq => heq ▸ rfl⟩
    have hnat := congrArg (fun v : Int64 => v.toUInt64.toNat) heq
    exact (toNat_ofNat (by omega)).symm.trans (hnat.trans (toNat_ofNat he))
  have hput : (db.put entry).toRows =
      ⟨db.toRows.version + 1, db.members.insert entry.addr.siloId (entryToRow entry)⟩ :=
    congrArg (MembershipRows.mk · _) (Int64.ofNat_add db.version 1)
  by_cases heq : db.version = expectedVersion
  · rw [MembershipRows.respond, if_pos (hiff.mpr heq), transaction, if_pos heq]
    dsimp only
    rw [hput]
    rfl
  · rw [MembershipRows.respond, if_neg (mt hiff.mp heq), transaction, if_neg heq]
    have hversion : db.toRows.version.toUInt64.toNat = db.version := toNat_ofNat (by omega)
    rw [hversion]

theorem toRows_updateIAmAlive (siloId now) :
    db.toRows.respond (.updateIAmAlive siloId now) =
      match db.updateIAmAlive siloId now with
      | .ok db' => (.ok none, db'.toRows)
      | .error e => (.error e, db.toRows) := by
  rw [MembershipRows.respond, updateIAmAlive, toRows]
  cases db.members.lookup siloId <;> rfl

theorem Shows.readAll (h : db.Shows us) (hus : us.length < 2 ^ 63) {view : MembershipView}
    (hview : view.IsAfter us) : db.toRows.readAll.agreed = view.agreed := by
  simp only [toRows_readAll (h.version ▸ hus), agreed, hview.version, hview.members, h.version,
    map_map]
  exact congrArg _ (map_values_congr h.members)

theorem Shows.put (h : db.Shows us) {e} (he : e.Valid) : (db.put e).Shows (us ++ [e]) where
  version := by rw [SqliteMembershipTable.put, h.version, length_append]; rfl
  members id := by
    rw [SqliteMembershipTable.put, foldUpdates_snoc, lookup_insert, lookup_insert]
    split_ifs
    · exact congrArg some (agreed_entryToRow he)
    · exact h.members id

theorem Shows.beat (h : db.Shows us) {siloId row} (hl : db.members.lookup siloId = some row)
    (now) : (db.beat siloId row now).Shows us where
  version := h.version
  members id := by
    rw [SqliteMembershipTable.beat, ← h.members id, lookup_insert]
    split_ifs with hid
    · rw [hid, hl, Option.map_some, Option.map_some, MemberRow.agreed_beat]
    · rfl

theorem Shows.respond (h : db.Shows us) (ht : t.Holds us) (hc : c.Valid)
    (hr : t.Responds c r t') (hus : (us ++ t.accepted c).length < 2 ^ 63) :
    (db.toRows.respond c).1.map (Option.map agreed) = r.map (Option.map agreed) ∧
      ∃ db' : SqliteMembershipTable, (db.toRows.respond c).2 = db'.toRows ∧
        db'.Shows (us ++ t.accepted c) := by
  have hlen : us.length < 2 ^ 63 := by
    rw [length_append] at hus
    omega
  have hver : t.version.toNat = db.version :=
    (ht.toNat_version (by omega)).trans h.version.symm
  cases hr with
  | read hs =>
    rw [accepted, append_nil]
    exact ⟨congrArg (Except.ok ∘ some) (h.readAll hlen (ht.isAfter (by omega) hs)), db, rfl, h⟩
  | @updated entry order view hs =>
    rw [accepted, if_pos rfl] at hus ⊢
    have hput := h.put hc.1
    rw [toRows_tryUpdate (h.version ▸ hlen) hc.2, hver, transaction, if_pos rfl]
    exact ⟨congrArg (Except.ok ∘ some) (hput.readAll hus ((ht.put entry).isAfter (by omega) hs)),
      _, rfl, hput⟩
  | @conflict entry expectedVersion order hne =>
    rw [accepted, if_neg hne, append_nil]
    rw [hver] at hne ⊢
    rw [toRows_tryUpdate (h.version ▸ hlen) hc.2, transaction, if_neg hne]
    exact ⟨rfl, db, rfl, h⟩
  | @beat siloId now entry he =>
    rw [accepted, append_nil, toRows_updateIAmAlive, updateIAmAlive]
    have hl := (h.members siloId).trans (ht.members siloId).symm
    rw [he] at hl
    obtain ⟨row, hrow, -⟩ := Option.map_eq_some_iff.mp hl
    rw [hrow]
    exact ⟨rfl, _, rfl, h.beat hrow now⟩
  | @notFound siloId now he =>
    rw [accepted, append_nil, toRows_updateIAmAlive, updateIAmAlive]
    have hl := (h.members siloId).trans (ht.members siloId).symm
    rw [he, Option.map_none, Option.map_eq_none_iff] at hl
    rw [hl]
    exact ⟨rfl, db, rfl, h⟩

end SqliteMembershipTable

namespace MembershipRows

variable {c : TableCall}

open InMemoryMembershipTable (step updates Answers)

theorem shows_after {cs} (hrun : exec step .new cs = some t) (hcs : ∀ c ∈ cs, c.Valid)
    (hfew : (updates cs).length < 2 ^ 63) :
    ∃ db : SqliteMembershipTable, after cs = db.toRows ∧ db.Shows (updates cs) := by
  refine exec_induction (I := fun cs _ => (∀ c ∈ cs, c.Valid) → (updates cs).length < 2 ^ 63 →
    ∃ db : SqliteMembershipTable, after cs = db.toRows ∧ db.Shows (updates cs))
    (fun _ _ => ⟨.connect, rfl, rfl, fun _ => rfl⟩) (fun cs u c v hu ih hstep hcs hfew => ?_)
    hrun hcs hfew
  obtain ⟨⟨r, v'⟩, hr, rfl⟩ := Option.map_eq_some_iff.mp hstep
  have hupdates : updates (cs ++ [c]) = updates cs ++ u.accepted c := outputs_snoc hu
  obtain ⟨hcs, hc⟩ := forall_mem_append.mp hcs
  rw [hupdates] at hfew ⊢
  obtain ⟨db, hdb, hshows⟩ := ih hcs (by rw [length_append] at hfew; omega)
  rw [after, foldl_concat, ← after, hdb]
  exact (hshows.respond (holds_updates hu) (hc c mem_cons_self) (responds_of_respond hr) hfew).2

/-- Calls that are made one after the other are answered alike by both tables, heartbeats apart. -/
theorem sqlite_refines_inMemory (cs : List TableCall) (hcs : ∀ c ∈ cs, c.Valid)
    (hfew : (updates cs).length < 2 ^ 63) (cs₁ : List TableCall) (h : Answers cs cs₁ t c r t') :
    ((after cs₁).respond c).1.map (Option.map agreed) = r.map (Option.map agreed) := by
  have hle := h.updates_isPrefix.length_le
  rw [h.updates_eq] at hle
  have hholds := h.holds
  have hresponds := h.responds
  obtain ⟨cs₂, rfl, hrun, -⟩ := h
  obtain ⟨hcs₁, hcs₂⟩ := forall_mem_append.mp hcs
  obtain ⟨db, hdb, hshows⟩ := shows_after hrun hcs₁ (by rw [length_append] at hle; omega)
  rw [hdb]
  exact (hshows.respond hholds (hcs₂ c mem_cons_self) hresponds (by omega)).1

def suspected : MemberEntry :=
  ⟨⟨"h", 1, "b"⟩, .suspect, 18446744073709551615, ["a", "c"], 7⟩

theorem refines_suspected : ((after [.tryUpdate suspected 0 [suspected]]).respond
    (.readAll [suspected])).1.map (Option.map agreed) = .ok (some ⟨1, [suspected.agreed]⟩) := by
  refine sqlite_refines_inMemory [.tryUpdate suspected 0 [suspected], .readAll [suspected]] ?_
    (by decide +kernel) [.tryUpdate suspected 0 [suspected]] ⟨[], rfl, rfl, rfl⟩
  simp [TableCall.Valid, MemberEntry.Valid, suspected]

end MembershipRows

end Orlando
