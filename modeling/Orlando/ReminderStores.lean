import Orlando.ReminderSchedule

/-!
# The SQLite store of reminders

`SqliteReminderStore` keeps a reminder as a row of a table whose primary key is the grain and the
name, with the period and the due time in columns of signed milliseconds. Times are in milliseconds
since the epoch.
-/

namespace Orlando

open AList

structure ReminderRow where
  periodMs : Int64
  dueAtMs : Int64
deriving DecidableEq

abbrev SqliteReminderStore := AList fun _ : GrainId × String => ReminderRow

def systemTimeToMs (t : ℕ) : Int64 :=
  .ofNat t

def msToSystemTime (ms : Int64) : ℕ :=
  ms.toUInt64.toNat

namespace ReminderRow

def ofRegistration (reg : ReminderRegistration) : ReminderRow :=
  ⟨.ofNat reg.period, systemTimeToMs reg.dueAt⟩

def registration (key : GrainId × String) (row : ReminderRow) : ReminderRegistration :=
  ⟨key.1, key.2, row.periodMs.toUInt64.toNat, msToSystemTime row.dueAtMs⟩

end ReminderRow

namespace SqliteReminderStore

/-- `INSERT … ON CONFLICT … DO UPDATE`. -/
def save (r : SqliteReminderStore) (reg : ReminderRegistration) : SqliteReminderStore :=
  r.insert (reg.grainId, reg.name) (.ofRegistration reg)

def delete (r : SqliteReminderStore) (gid : GrainId) (name : String) : SqliteReminderStore :=
  r.erase (gid, name)

def loadDue (r : SqliteReminderStore) (now : ℕ) : List ReminderRegistration :=
  (r.entries.filter fun x => x.2.dueAtMs ≤ systemTimeToMs now).map fun x =>
    x.2.registration x.1

/-- `UPDATE … WHERE` changes no row where there is none with the key. -/
def updateDueAt (r : SqliteReminderStore) (gid : GrainId) (name : String) (dueAt : ℕ) :
    SqliteReminderStore :=
  match r.lookup (gid, name) with
  | some row => r.insert (gid, name) { row with dueAtMs := systemTimeToMs dueAt }
  | none => r

end SqliteReminderStore

inductive ReminderCall where
  | save (reg : ReminderRegistration)
  | delete (gid : GrainId) (name : String)
  | loadDue (now : ℕ)
  | updateDueAt (gid : GrainId) (name : String) (dueAt : ℕ)

/-- The time and the period that the call is given are below 2^63 milliseconds. -/
def ReminderCall.InRange : ReminderCall → Prop
  | .save reg => reg.period < 2 ^ 63 ∧ reg.dueAt < 2 ^ 63
  | .delete _ _ => True
  | .loadDue now => now < 2 ^ 63
  | .updateDueAt _ _ dueAt => dueAt < 2 ^ 63

structure ReminderStores where
  inMemory : InMemoryReminderStore
  sqlite : SqliteReminderStore

namespace ReminderStores

def init : ReminderStores :=
  ⟨∅, ∅⟩

def step (s : ReminderStores) : ReminderCall → ReminderStores
  | .save reg => ⟨s.inMemory.save reg, s.sqlite.save reg⟩
  | .delete gid name => ⟨s.inMemory.delete gid name, s.sqlite.delete gid name⟩
  | .loadDue _ => s
  | .updateDueAt gid name dueAt =>
    ⟨s.inMemory.updateDueAt gid name dueAt, s.sqlite.updateDueAt gid name dueAt⟩

/-- The rows are those of the registrations, each of which is filed under its own key. -/
structure Agree (s : ReminderStores) : Prop where
  rows : ∀ key, s.sqlite.lookup key = (s.inMemory.lookup key).map .ofRegistration
  filed : ∀ key reg, s.inMemory.lookup key = some reg →
    reg.key = key ∧ reg.period < 2 ^ 63 ∧ reg.dueAt < 2 ^ 63

variable {s : ReminderStores} {reg : ReminderRegistration}

theorem lookup_updateDueAt (r : SqliteReminderStore) (gid) (name) (dueAt)
    (key) : (r.updateDueAt gid name dueAt).lookup key =
      if (gid, name) = key then (r.lookup key).map ({ · with dueAtMs := systemTimeToMs dueAt })
      else r.lookup key := by
  unfold SqliteReminderStore.updateDueAt
  split_ifs with hk
  · subst hk
    cases hl : r.lookup (gid, name) <;> simp [hl]
  · cases r.lookup (gid, name) with
    | none => rfl
    | some row => exact lookup_insert_ne fun h => hk h.symm

theorem Agree.save (h : s.Agree) (hreg : (ReminderCall.save reg).InRange) :
    (s.step (.save reg)).Agree where
  rows key := by
    by_cases hk : key = (reg.grainId, reg.name)
    · subst hk
      simp [step, InMemoryReminderStore.save, SqliteReminderStore.save]
    · exact (lookup_insert_ne hk).trans ((h.rows key).trans (congrArg _ (lookup_insert_ne hk).symm))
  filed key r hr := by
    rcases lookup_insert_cases hr with ⟨rfl, rfl⟩ | ⟨-, hr⟩
    · exact ⟨rfl, hreg⟩
    · exact h.filed key r hr

theorem Agree.delete (h : s.Agree) (gid name) : (s.step (.delete gid name)).Agree where
  rows key := by
    by_cases hk : key = (gid, name)
    · subst hk
      simp [step, InMemoryReminderStore.delete, SqliteReminderStore.delete]
    · exact (lookup_erase_ne hk).trans ((h.rows key).trans (congrArg _ (lookup_erase_ne hk).symm))
  filed key r hr := h.filed key r (lookup_of_erase hr)

theorem Agree.updateDueAt (h : s.Agree) (gid : GrainId) (name) {dueAt}
    (hdue : dueAt < 2 ^ 63) : (s.step (.updateDueAt gid name dueAt)).Agree := by
  have hm : ∀ key, (s.step (.updateDueAt gid name dueAt)).inMemory.lookup key =
      if (gid, name) = key then (s.inMemory.lookup key).map ({ · with dueAt := dueAt })
      else s.inMemory.lookup key := Watched.lookup_updateDueAt s.inMemory ⟨gid, name, 0, 0⟩ dueAt
  refine ⟨fun key => ?_, fun key r hr => ?_⟩
  · refine (lookup_updateDueAt ..).trans (.trans ?_ (congrArg _ (hm key).symm))
    rw [h.rows key]
    split_ifs
    · cases s.inMemory.lookup key <;> rfl
    · rfl
  · rw [hm key] at hr
    split_ifs at hr
    · obtain ⟨old, hold, rfl⟩ := Option.map_eq_some_iff.mp hr
      obtain ⟨hkey, hperiod, -⟩ := h.filed key old hold
      exact ⟨hkey, hperiod, hdue⟩
    · exact h.filed key r hr

theorem Agree.step (h : s.Agree) {call} (hc : call.InRange) : (s.step call).Agree := by
  cases call with
  | save reg => exact h.save hc
  | delete gid name => exact h.delete gid name
  | loadDue now => exact h
  | updateDueAt gid name dueAt => exact h.updateDueAt gid name hc

theorem agree_foldl {calls : List ReminderCall} (hcalls : ∀ call ∈ calls, call.InRange) :
    (calls.foldl step init).Agree :=
  List.foldlRecOn calls _ ⟨fun _ => rfl, fun _ _ hr => (nomatch hr)⟩ fun _ h call hmem =>
    h.step (hcalls call hmem)

theorem toNat_ofNat {n} (h : n < 2 ^ 63) : (Int64.ofNat n).toUInt64.toNat = n :=
  UInt64.toNat_ofNat_of_lt (h.trans (by decide))

theorem systemTimeToMs_le_iff {a b} (ha : a < 2 ^ 63) (hb : b < 2 ^ 63) :
    systemTimeToMs a ≤ systemTimeToMs b ↔ a ≤ b := by
  rw [Int64.le_iff_toInt_le, systemTimeToMs, systemTimeToMs, Int64.toInt_ofNat_of_lt ha,
    Int64.toInt_ofNat_of_lt hb, Int.ofNat_le]

theorem registration_ofRegistration (hp : reg.period < 2 ^ 63) (hd : reg.dueAt < 2 ^ 63) :
    (ReminderRow.ofRegistration reg).registration reg.key = reg := by
  simp only [ReminderRow.registration, ReminderRow.ofRegistration, msToSystemTime, systemTimeToMs,
    toNat_ofNat hp, toNat_ofNat hd]
  rfl

theorem Agree.mem_loadDue (h : s.Agree) {now} (hnow : now < 2 ^ 63) (reg) :
    reg ∈ s.inMemory.loadDue now ↔ reg ∈ s.sqlite.loadDue now := by
  simp only [InMemoryReminderStore.loadDue, SqliteReminderStore.loadDue, List.mem_filter,
    List.mem_map, decide_eq_true_eq]
  constructor
  · rintro ⟨⟨⟨key, reg⟩, hreg, rfl⟩, hle⟩
    have hl : s.inMemory.lookup key = some reg := mem_lookup_iff.mpr hreg
    obtain ⟨rfl, hp, hd⟩ := h.filed key reg hl
    have hrow : s.sqlite.lookup reg.key = some (.ofRegistration reg) := by rw [h.rows, hl]; rfl
    exact ⟨⟨reg.key, _⟩, ⟨mem_lookup_iff.mp hrow, (systemTimeToMs_le_iff hd hnow).mpr hle⟩,
      registration_ofRegistration hp hd⟩
  · rintro ⟨⟨key, row⟩, ⟨hrow, hle⟩, rfl⟩
    have hl := (h.rows key).symm.trans (mem_lookup_iff.mpr hrow)
    obtain ⟨reg, hreg, rfl⟩ := Option.map_eq_some_iff.mp hl
    obtain ⟨rfl, hp, hd⟩ := h.filed key reg hreg
    rw [registration_ofRegistration hp hd]
    exact ⟨⟨⟨reg.key, reg⟩, mem_lookup_iff.mp hreg, rfl⟩, (systemTimeToMs_le_iff hd hnow).mp hle⟩

/-- Up to `2 ^ 63` milliseconds the two stores return the same reminders after the same calls. -/
theorem loadDue_agree (calls : List ReminderCall) (now : ℕ) (hcalls : ∀ call ∈ calls, call.InRange)
    (hnow : (ReminderCall.loadDue now).InRange) (reg : ReminderRegistration) :
    reg ∈ (calls.foldl step init).inMemory.loadDue now ↔
      reg ∈ (calls.foldl step init).sqlite.loadDue now :=
  (agree_foldl hcalls).mem_loadDue hnow reg

theorem loadDue_agree_updated :
    ⟨⟨"Counter", "k"⟩, "wake", 10, 20⟩ ∈
      ([.save ⟨⟨"Counter", "k"⟩, "wake", 10, 10⟩, .updateDueAt ⟨"Counter", "k"⟩ "wake" 20
        ].foldl step init).sqlite.loadDue 20 :=
  (loadDue_agree _ 20 (by simp [ReminderCall.InRange]) (by simp [ReminderCall.InRange]) _).mp
    (by decide)

end ReminderStores

end Orlando
