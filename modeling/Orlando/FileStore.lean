import Orlando.StateStore

/-!
# The state store in files

`FileStateStore` has two files for each grain, one with the data and one with the tag, and draws the
tags from a counter of the process. The steps of calls interleave (`FileEvent.step`), a call may be
cut off between two of them (`FileEvent.stop`), and so may all, when the process dies and another
starts (`FileEvent.restart`).

`FileRun.Sound` is optimistic concurrency control.
-/

namespace Orlando

open List Option

/-- The next step of a call, or its end. -/
inductive FilePhase where
  | check
  | writeData
  | drawEtag
  | writeEtag (etag : String)
  | readData
  | readEtag (bytes : Bytes)
  | drawMissing (bytes : Bytes)
  | writeMissing (bytes : Bytes) (etag : String)
  | removeData
  | removeEtag
  | returned (a : StoreAnswer)
  | stopped
deriving DecidableEq, Repr

/-- A call. `write` is the number of the content it has put into the data file, or read from it. -/
structure FileTask where
  call : StoreCall
  phase : FilePhase
  write : Option ℕ
deriving DecidableEq, Repr

namespace FileTask

def start (c : StoreCall) : FileTask where
  call := c
  phase := match c with
    | .load _ | .loadWithEtag _ => .readData
    | .save .. => .writeData
    | .saveWithEtag .. => .check
    | .delete _ => .removeData
  write := none

def goto (t : FileTask) (phase : FilePhase) : FileTask :=
  { t with phase := phase }

/-- The call has made a step and has more to make. -/
def underWay (t : FileTask) : Bool :=
  match t.phase, t.call with
  | .writeData, .save .. => false
  | .check, _ | .readData, _ | .removeData, _ | .returned _, _ | .stopped, _ => false
  | _, _ => true

/-- The call has changed the data file and not yet the file of the tag. -/
def midWrite (t : FileTask) : Bool :=
  match t.phase with
  | .drawEtag | .writeEtag _ | .removeEtag => true
  | _ => false

def draws (t : FileTask) : Bool :=
  match t.phase with
  | .drawEtag | .drawMissing _ => true
  | _ => false

def cut (t : FileTask) : FileTask :=
  match t.phase with
  | .returned _ => t
  | _ => t.goto .stopped

end FileTask

/-- The files of a grain and the counter of the process. `writes` is every content of the data file,
and `issued` every tag with the number of the content it was drawn for. -/
structure GrainFiles where
  data : Option Bytes
  etag : Option String
  version : ℕ
  writes : List (Option Bytes)
  issued : List (String × ℕ)
deriving DecidableEq, Repr

def checkEtag : Option String → Option String → Except PersistenceError Unit
  | none, none => .ok ()
  | none, some actual => .error (.etagMismatch none (some actual))
  | some expected, none => .error (.etagMismatch (some expected) none)
  | some expected, some actual =>
    if expected ≠ actual then .error (.etagMismatch (some expected) (some actual)) else .ok ()

theorem eq_of_checkEtag {expected current}
    (h : checkEtag expected current = .ok ()) : current = expected := by
  cases expected <;> cases current <;> simp_all [checkEtag]

namespace GrainFiles

def empty : GrainFiles where
  data := none
  etag := none
  version := 1
  writes := []
  issued := []

def nextEtag (f : GrainFiles) : String × GrainFiles :=
  (toString f.version, { f with version := (f.version + 1) % 2 ^ 64 })

def putData (f : GrainFiles) (data : Option Bytes) : GrainFiles :=
  { f with data := data, writes := f.writes ++ [data] }

/-- `write_etag`, with the content the tag was drawn for. -/
def writeEtag (f : GrainFiles) (etag : String) (write : Option ℕ) : GrainFiles :=
  { f with etag := some etag, issued := f.issued ++ write.toList.map fun w => (etag, w) }

def act (f : GrainFiles) (t : FileTask) : Option (GrainFiles × FileTask) :=
  match t.phase, t.call with
  | .check, .saveWithEtag _ _ expected =>
    match checkEtag expected f.etag with
    | .ok () => some (f, t.goto .writeData)
    | .error e => some (f, t.goto (.returned (.failed e)))
  | .writeData, .save _ bytes | .writeData, .saveWithEtag _ bytes _ =>
    some (f.putData (some bytes), { t with phase := .drawEtag, write := some f.writes.length })
  | .drawEtag, _ => some (f.nextEtag.2, t.goto (.writeEtag f.nextEtag.1))
  | .writeEtag etag, .save .. => some (f.writeEtag etag t.write, t.goto (.returned .done))
  | .writeEtag etag, .saveWithEtag .. =>
    some (f.writeEtag etag t.write, t.goto (.returned (.saved etag)))
  | .readData, .load _ => some (f, t.goto (.returned (.loaded f.data)))
  | .readData, .loadWithEtag _ =>
    match f.data with
    | none => some (f, t.goto (.returned (.loadedWithEtag none)))
    | some bytes =>
      some (f, { t with phase := .readEtag bytes, write := some (f.writes.length - 1) })
  | .readEtag bytes, .loadWithEtag _ =>
    match f.etag with
    | some etag => some (f, t.goto (.returned (.loadedWithEtag (some (bytes, etag)))))
    | none => some (f, t.goto (.drawMissing bytes))
  | .drawMissing bytes, .loadWithEtag _ =>
    some (f.nextEtag.2, t.goto (.writeMissing bytes f.nextEtag.1))
  | .writeMissing bytes etag, .loadWithEtag _ =>
    some (f.writeEtag etag t.write, t.goto (.returned (.loadedWithEtag (some (bytes, etag)))))
  | .removeData, .delete _ => some (f.putData none, t.goto .removeEtag)
  | .removeEtag, .delete _ => some ({ f with etag := none }, t.goto (.returned .done))
  | _, _ => none

end GrainFiles

structure FileRun where
  files : GrainFiles
  calls : List FileTask
deriving DecidableEq, Repr

/-- A call begins, makes a step or is cut off, a call about another grain draws a tag, or the
process dies. -/
inductive FileEvent where
  | begin (c : StoreCall)
  | step (k : ℕ)
  | stop (k : ℕ)
  | elsewhere
  | restart
deriving DecidableEq, Repr

namespace FileRun

def init : FileRun where
  files := .empty
  calls := []

def step (gid : GrainId) (s : FileRun) : FileEvent → Option FileRun
  | .begin c => if c.gid = gid then some { s with calls := s.calls ++ [.start c] } else none
  | .step k =>
    (s.calls[k]?).bind fun t => (s.files.act t).map fun r => ⟨r.1, s.calls.set k r.2⟩
  | .stop k => (s.calls[k]?).map fun t => { s with calls := s.calls.set k t.cut }
  | .elsewhere => some { s with files := s.files.nextEtag.2 }
  | .restart =>
    some { files := { s.files with version := 1 }, calls := s.calls.map FileTask.cut }

/-- The calls of a run do not overlap, none is cut off between the data and the tag, and the tags
they draw are new to the grain. -/
def Serial (s : FileRun) : FileEvent → Prop
  | .step k => (∀ t ∈ s.calls.eraseIdx k, t.underWay = false) ∧
      ∀ t ∈ s.calls[k]?, t.draws = true → s.files.nextEtag.1 ∉ s.files.issued.map Prod.fst
  | .stop k => ∀ t ∈ s.calls[k]?, t.midWrite = false
  | .restart => ∀ t ∈ s.calls, t.midWrite = false
  | .begin _ | .elsewhere => True

instance (s : FileRun) : (e : FileEvent) → Decidable (s.Serial e)
  | .step _ => inferInstanceAs (Decidable (_ ∧ _))
  | .stop k => inferInstanceAs (Decidable (∀ t ∈ s.calls[k]?, t.midWrite = false))
  | .restart => inferInstanceAs (Decidable (∀ t ∈ s.calls, t.midWrite = false))
  | .begin _ | .elsewhere => isTrue trivial

/-- Optimistic concurrency control. -/
structure Sound (s : FileRun) : Prop where
  /-- When a save that expects `e` has succeeded, the data it has written is what came next after
  the write that `e` was drawn for. -/
  saved : ∀ t ∈ s.calls, ∀ gid bytes e e', t.call = .saveWithEtag gid bytes (some e) →
    t.phase = .returned (.saved e') → ∃ n, t.write = some n ∧
      (∃ w, (e, w) ∈ s.files.issued) ∧ ∀ w, (e, w) ∈ s.files.issued → w + 1 = n
  /-- Data that was read with a tag is the data the tag was drawn for. -/
  loaded : ∀ t ∈ s.calls, ∀ bytes e, t.phase = .returned (.loadedWithEtag (some (bytes, e))) →
    (∃ w, (e, w) ∈ s.files.issued) ∧
      ∀ w, (e, w) ∈ s.files.issued → s.files.writes[w]? = some (some bytes)

end FileRun

/-! ## The invariant -/

namespace GrainFiles

/-- There are no files, or the tag in its file was drawn for the last content of the data file. -/
def Calm (f : GrainFiles) : Prop :=
  f.data = none ∧ f.etag = none ∨ ∃ bytes etag w, f.data = some bytes ∧ f.etag = some etag ∧
    (etag, w) ∈ f.issued ∧ w + 1 = f.writes.length ∧ f.writes[w]? = some (some bytes)

def LastWrite (f : GrainFiles) (t : FileTask) : Prop :=
  ∃ bytes w, f.data = some bytes ∧ t.write = some w ∧ w + 1 = f.writes.length ∧
    f.writes[w]? = some (some bytes)

/-- Contents and tags are added, and none is forgotten. -/
structure Grows (f f' : GrainFiles) : Prop where
  issued : ∀ x ∈ f.issued, x ∈ f'.issued
  writes : ∀ (w : ℕ) x, f.writes[w]? = some x → f'.writes[w]? = some x

theorem Grows.refl (f) : Grows f f :=
  ⟨fun _ h => h, fun _ _ h => h⟩

theorem grows_putData (f data) : Grows f (f.putData data) :=
  ⟨fun _ h => h, fun _ _ h => getElem?_snoc_of_some h⟩

theorem grows_writeEtag (f etag write) : Grows f (f.writeEtag etag write) :=
  ⟨fun _ h => mem_append_left _ h, fun _ _ h => h⟩

end GrainFiles

namespace FileTask

/-- What holds of the files at the next step of the call, while no other call is under way. -/
def Ok (t : FileTask) (f : GrainFiles) : Prop :=
  match t.phase with
  | .writeData => ∀ gid bytes e, t.call = .saveWithEtag gid bytes (some e) → f.etag = some e
  | .drawEtag => f.LastWrite t
  | .writeEtag etag => f.LastWrite t ∧ etag ∉ f.issued.map Prod.fst
  | .readEtag bytes => f.data = some bytes
  -- There is no data without a tag.
  | .drawMissing _ | .writeMissing .. => False
  | .removeEtag => f.data = none
  | _ => True

structure Inv (f : GrainFiles) (t : FileTask) : Prop where
  ok : t.Ok f
  committed : ∀ gid bytes e n, t.call = .saveWithEtag gid bytes (some e) → t.write = some n →
    ∃ w, (e, w) ∈ f.issued ∧ w + 1 = n
  wrote : ∀ e, t.phase = .returned (.saved e) → t.write ≠ none
  loaded : ∀ bytes e, t.phase = .returned (.loadedWithEtag (some (bytes, e))) →
    ∃ w, (e, w) ∈ f.issued ∧ f.writes[w]? = some (some bytes)

variable {f f' : GrainFiles} {t t' : FileTask} {bytes : Bytes}

theorem ok_of_not_underWay (h : t.underWay = false) : t.Ok f := by
  obtain ⟨call, phase, write⟩ := t
  cases phase with
  | writeData => cases call <;> simp_all [underWay, Ok]
  | check | readData | removeData | returned | stopped => trivial
  | _ => simp [underWay] at h

theorem Inv.grows (h : Inv f t) (hg : f.Grows f') (hidle : t.underWay = false) : Inv f' t where
  ok := ok_of_not_underWay hidle
  committed := fun gid bytes e n hcall hn => by
    obtain ⟨w, hw, hwn⟩ := h.committed gid bytes e n hcall hn
    exact ⟨w, hg.issued _ hw, hwn⟩
  wrote := h.wrote
  loaded := fun bytes e hphase => by
    obtain ⟨w, hw, hbytes⟩ := h.loaded bytes e hphase
    exact ⟨w, hg.issued _ hw, hg.writes w _ hbytes⟩

theorem Inv.goto (h : Inv f t) (hg : f.Grows f') {phase} (hok : (t.goto phase).Ok f')
    (hwrote : ∀ e, phase = .returned (.saved e) → t.write ≠ none)
    (hloaded : ∀ bytes e, phase = .returned (.loadedWithEtag (some (bytes, e))) →
      ∃ w, (e, w) ∈ f'.issued ∧ f'.writes[w]? = some (some bytes)) : Inv f' (t.goto phase) where
  ok := hok
  committed := fun gid bytes e n hcall hn => by
    obtain ⟨w, hw, hwn⟩ := h.committed gid bytes e n hcall hn
    exact ⟨w, hg.issued _ hw, hwn⟩
  wrote := hwrote
  loaded := hloaded

theorem lastWrite_putData (f : GrainFiles) (bytes) :
    (f.putData (some bytes)).LastWrite
      { t with phase := .drawEtag, write := some f.writes.length } :=
  ⟨bytes, f.writes.length, rfl, rfl, by simp [GrainFiles.putData], by simp [GrainFiles.putData]⟩

theorem committed_of_calm (hok : t.Ok f) (hcalm : f.Calm) (hphase : t.phase = .writeData)
    {gid e} (hcall : t.call = .saveWithEtag gid bytes (some e)) :
    ∃ w, (e, w) ∈ f.issued ∧ w + 1 = f.writes.length := by
  rw [Ok, hphase] at hok
  have hetag := hok gid bytes e hcall
  rcases hcalm with ⟨-, hnone⟩ | ⟨b, e', w, -, he', hissued, hlast, -⟩
  · cases hnone.symm.trans hetag
  · cases he'.symm.trans hetag
    exact ⟨w, hissued, hlast⟩

theorem calm_of_lastWrite (h : f.LastWrite t) (etag) : (f.writeEtag etag t.write).Calm := by
  obtain ⟨bytes, w, hdata, hw, hlast, hbytes⟩ := h
  rw [hw]
  exact .inr ⟨bytes, etag, w, hdata, rfl, by simp [GrainFiles.writeEtag], hlast, hbytes⟩

theorem loaded_of_calm (hc : f.Calm) {etag} (hdata : f.data = some bytes)
    (hetag : f.etag = some etag) :
    ∃ w, (etag, w) ∈ f.issued ∧ f.writes[w]? = some (some bytes) := by
  rcases hc with ⟨hnone, -⟩ | ⟨b, e, w, hb, he, hissued, -, hbytes⟩
  · cases hnone.symm.trans hdata
  · cases hb.symm.trans hdata
    cases he.symm.trans hetag
    exact ⟨w, hissued, hbytes⟩

theorem map_fst_issued_writeEtag (h : f.LastWrite t) (etag) :
    (f.writeEtag etag t.write).issued.map Prod.fst = f.issued.map Prod.fst ++ [etag] := by
  obtain ⟨-, w, -, hw, -⟩ := h
  simp [GrainFiles.writeEtag, hw]

theorem Inv.wrote_data (h : Inv f t) (hcalm : t.midWrite = false → f.Calm)
    (hp : t.phase = .writeData) (bytes) : Inv (f.putData (some bytes))
      { t with phase := .drawEtag, write := some f.writes.length } := by
  refine ⟨lastWrite_putData f bytes, ?_, by simp, by simp⟩
  intro gid bytes' e n hcall hn
  cases hn
  exact committed_of_calm h.ok (hcalm (by rw [midWrite, hp])) hp hcall

theorem Inv.wrote_etag (h : Inv f t) (hnodup : (f.issued.map Prod.fst).Nodup) {etag a}
    (hp : t.phase = .writeEtag etag) (ha : a = .done ∨ a = .saved etag) :
    Inv (f.writeEtag etag t.write) (t.goto (.returned a)) ∧
      (f.writeEtag etag t.write).Calm ∧ ((f.writeEtag etag t.write).issued.map Prod.fst).Nodup := by
  have hok := h.ok
  rw [Ok, hp] at hok
  obtain ⟨hl, hnew⟩ := hok
  refine ⟨h.goto (f.grows_writeEtag etag t.write) trivial ?_ ?_, calm_of_lastWrite hl etag, ?_⟩
  · intro e _
    obtain ⟨-, w, -, hw, -⟩ := hl
    simp [hw]
  · rcases ha with rfl | rfl <;> simp
  · rw [map_fst_issued_writeEtag hl]
    exact hnodup.append (nodup_singleton etag) (disjoint_singleton.mpr hnew)

theorem Inv.act (h : Inv f t) (hcalm : t.midWrite = false → f.Calm)
    (hnodup : (f.issued.map Prod.fst).Nodup)
    (hfresh : t.draws = true → f.nextEtag.1 ∉ f.issued.map Prod.fst)
    (hact : f.act t = some (f', t')) :
    Inv f' t' ∧ f.Grows f' ∧ (t'.midWrite = false → f'.Calm) ∧ (f'.issued.map Prod.fst).Nodup := by
  have hok := h.ok
  -- the files stay as they are
  have hkeep : ∀ {t'}, t.midWrite = false → Inv f t' → Inv f t' ∧ f.Grows f ∧
      (t'.midWrite = false → f.Calm) ∧ (f.issued.map Prod.fst).Nodup :=
    fun hmid hinv => ⟨hinv, .refl f, fun _ => hcalm hmid, hnodup⟩
  have hdone : ∀ {a}, t.phase = .readData → (∀ e, a ≠ .saved e) →
      (∀ b e, a ≠ .loadedWithEtag (some (b, e))) → Inv f (t.goto (.returned a)) ∧ f.Grows f ∧
      ((t.goto (.returned a)).midWrite = false → f.Calm) ∧ (f.issued.map Prod.fst).Nodup := by
    intro a hp hsaved hloaded
    exact hkeep (by rw [midWrite, hp])
      (h.goto (.refl f) trivial (by simp [hsaved]) (by simp [hloaded]))
  revert hact
  fun_cases GrainFiles.act f t <;> intro hact <;> cases hact
  next hcall hp hc =>
    refine hkeep (by rw [midWrite, hp]) (h.goto (.refl f) ?_ (by simp) (by simp))
    intro gid bytes e hcall'
    rw [(StoreCall.saveWithEtag.inj (hcall.symm.trans hcall')).2.2] at hc
    exact eq_of_checkEtag hc
  next hp e _ =>
    exact hkeep (by rw [midWrite, hp]) (h.goto (.refl f) trivial (by simp) (by simp))
  next bytes _ hp =>
    exact ⟨h.wrote_data hcalm hp bytes, f.grows_putData _, by simp [midWrite], hnodup⟩
  next bytes _ _ hp =>
    exact ⟨h.wrote_data hcalm hp bytes, f.grows_putData _, by simp [midWrite], hnodup⟩
  next hp =>
    rw [Ok, hp] at hok
    have hg : f.Grows f.nextEtag.2 := ⟨fun _ h => h, fun _ _ h => h⟩
    exact ⟨h.goto hg ⟨hok, hfresh (by simp [draws, hp])⟩ (by simp) (by simp), hg,
      by simp [midWrite, FileTask.goto], hnodup⟩
  next hp =>
    obtain ⟨hinv, hc, hn⟩ := h.wrote_etag hnodup hp (.inl rfl)
    exact ⟨hinv, f.grows_writeEtag _ _, fun _ => hc, hn⟩
  next hp =>
    obtain ⟨hinv, hc, hn⟩ := h.wrote_etag hnodup hp (.inr rfl)
    exact ⟨hinv, f.grows_writeEtag _ _, fun _ => hc, hn⟩
  next hp => exact hdone hp (by simp) (by simp)
  next hp _ => exact hdone hp (by simp) (by simp)
  next hcall hp _ hdata =>
    refine hkeep (by rw [midWrite, hp]) ⟨hdata, ?_, by simp, by simp⟩
    intro gid bytes e n hcall'
    cases hcall.symm.trans hcall'
  next hp _ hetag =>
    have hmid : t.midWrite = false := by rw [midWrite, hp]
    rw [Ok, hp] at hok
    refine hkeep hmid (h.goto (.refl f) trivial (by simp) ?_)
    rintro bytes' e ⟨⟩
    exact loaded_of_calm (hcalm hmid) hok hetag
  next hp hetag =>
    rw [Ok, hp] at hok
    rcases hcalm (by rw [midWrite, hp]) with ⟨hnone, -⟩ | ⟨b, e, w, -, he, -⟩
    · cases hnone.symm.trans hok
    · cases he.symm.trans hetag
  next hp =>
    rw [Ok, hp] at hok
    exact hok.elim
  next hp =>
    rw [Ok, hp] at hok
    exact hok.elim
  next hp =>
    exact ⟨h.goto (f.grows_putData none) rfl (by simp) (by simp), f.grows_putData none,
      by simp [midWrite, FileTask.goto], hnodup⟩
  next hp =>
    rw [Ok, hp] at hok
    have hg : f.Grows { f with etag := none } := ⟨fun _ h => h, fun _ _ h => h⟩
    exact ⟨h.goto hg trivial (by simp) (by simp), hg, fun _ => .inl ⟨hok, rfl⟩, hnodup⟩

theorem inv_start (f c) : Inv f (start c) where
  ok := ok_of_not_underWay (by cases c <;> rfl)
  committed := fun _ _ _ _ _ hn => by cases hn
  wrote := fun e he => by cases c <;> cases he
  loaded := fun bytes e he => by cases c <;> cases he

theorem Inv.cut (h : Inv f t) : Inv f t.cut := by
  unfold FileTask.cut
  split
  · exact h
  · exact h.goto (.refl f) trivial (by simp) (by simp)

theorem midWrite_of_not_underWay (h : t.underWay = false) : t.midWrite = false := by
  obtain ⟨call, phase, write⟩ := t
  cases phase <;> first | rfl | simp [underWay] at h

end FileTask

namespace FileRun

structure Inv (s : FileRun) : Prop where
  task : ∀ t ∈ s.calls, t.Inv s.files
  calm : (∀ t ∈ s.calls, t.midWrite = false) → s.files.Calm
  nodup : (s.files.issued.map Prod.fst).Nodup

variable {gid : GrainId} {s s' : FileRun} {bytes : Bytes} {e : String}

theorem Inv.init : Inv init where
  task := fun _ h => by cases h
  calm := fun _ => .inl ⟨rfl, rfl⟩
  nodup := nodup_nil

theorem Inv.act {k t t' files} (h : Inv s)
    (hk : s.calls[k]? = some t) (hserial : s.Serial (.step k))
    (hact : s.files.act t = some (files, t')) : Inv ⟨files, s.calls.set k t'⟩ := by
  obtain ⟨herased, hfresh⟩ := hserial
  have hothers : ∀ (i : ℕ) x, i ≠ k → s.calls[i]? = some x → x.underWay = false := fun i x hi hx =>
    herased x (mem_eraseIdx_iff_getElem?.mpr ⟨i, hi, hx⟩)
  have hidle : ∀ (i : ℕ) x, i ≠ k → s.calls[i]? = some x → x.midWrite = false := fun i x hi hx =>
    FileTask.midWrite_of_not_underWay (hothers i x hi hx)
  have hcalm : t.midWrite = false → s.files.Calm := by
    intro ht
    refine h.calm fun x hx => ?_
    obtain ⟨i, hi⟩ := mem_iff_getElem?.mp hx
    by_cases hik : i = k
    · subst hik
      cases hk.symm.trans hi
      exact ht
    · exact hidle i x hik hi
  obtain ⟨hinv, hg, hcalm', hnodup⟩ := (h.task t (mem_of_getElem? hk)).act hcalm h.nodup
    (hfresh t hk) hact
  refine ⟨fun x hx => ?_, fun hmid => ?_, hnodup⟩
  · obtain ⟨i, hi⟩ := mem_iff_getElem?.mp hx
    rcases getElem?_set_cases hk hi with ⟨-, rfl⟩ | ⟨hik, hi⟩
    · exact hinv
    · exact (h.task x (mem_of_getElem? hi)).grows hg (hothers i x hik hi)
  · refine hcalm' (hmid t' (mem_of_getElem? (i := k) ?_))
    rw [getElem?_set_of_some hk, if_pos rfl]

theorem Inv.step {e} (h : Inv s) (hserial : s.Serial e)
    (hs : s.step gid e = some s') : Inv s' := by
  cases e with
  | begin c =>
    simp only [FileRun.step] at hs
    split_ifs at hs
    cases hs
    refine ⟨fun t ht => ?_, fun hmid => h.calm fun t ht => hmid t (by simp [ht]), h.nodup⟩
    rcases mem_append.mp ht with ht | ht
    · exact h.task t ht
    · rw [mem_singleton.mp ht]
      exact FileTask.inv_start s.files c
  | step k =>
    obtain ⟨t, hk, hs⟩ := bind_eq_some_iff.mp hs
    obtain ⟨⟨files, t'⟩, hact, rfl⟩ := map_eq_some_iff.mp hs
    exact h.act hk hserial hact
  | stop k =>
    obtain ⟨t, hk, rfl⟩ := map_eq_some_iff.mp hs
    refine ⟨fun x hx => ?_, fun hmid => h.calm fun x hx => ?_, h.nodup⟩
    · obtain ⟨i, hi⟩ := mem_iff_getElem?.mp hx
      rcases getElem?_set_cases hk hi with ⟨-, rfl⟩ | ⟨-, hi⟩
      · exact (h.task t (mem_of_getElem? hk)).cut
      · exact h.task x (mem_of_getElem? hi)
    · obtain ⟨i, hi⟩ := mem_iff_getElem?.mp hx
      by_cases hik : i = k
      · subst hik
        exact hserial x hi
      · refine hmid x (mem_of_getElem? (i := i) ?_)
        rw [getElem?_set_of_some hk, if_neg hik, hi]
  | elsewhere =>
    cases hs
    refine ⟨fun t ht => ?_, h.calm, h.nodup⟩
    obtain ⟨hok, hcommitted, hwrote, hld⟩ := h.task t ht
    exact ⟨hok, hcommitted, hwrote, hld⟩
  | restart =>
    cases hs
    refine ⟨fun t ht => ?_, fun _ => h.calm hserial, h.nodup⟩
    obtain ⟨x, hx, rfl⟩ := mem_map.mp ht
    obtain ⟨hok, hcommitted, hwrote, hld⟩ := (h.task x hx).cut
    exact ⟨hok, hcommitted, hwrote, hld⟩

theorem Inv.eq_of_issued (h : Inv s) {w w'} (hw : (e, w) ∈ s.files.issued)
    (hw' : (e, w') ∈ s.files.issued) : w' = w :=
  congrArg Prod.snd (inj_on_of_nodup_map h.nodup hw' hw rfl)

theorem Inv.sound (h : Inv s) : s.Sound where
  saved := fun t ht gid bytes e e' hcall hp => by
    obtain ⟨n, hn⟩ := ne_none_iff_exists'.mp ((h.task t ht).wrote e' hp)
    obtain ⟨w, hw, hwn⟩ := (h.task t ht).committed gid bytes e n hcall hn
    refine ⟨n, hn, ⟨w, hw⟩, fun w' hw' => ?_⟩
    rw [h.eq_of_issued hw hw', hwn]
  loaded := fun t ht bytes e hp => by
    obtain ⟨w, hw, hbytes⟩ := (h.task t ht).loaded bytes e hp
    refine ⟨⟨w, hw⟩, fun w' hw' => ?_⟩
    rw [h.eq_of_issued hw hw', hbytes]

/-- The store is sound in a run whose calls do not overlap, if none is cut off between data and tag
and no tag is drawn that the grain has had (`fileStore_unsound` has a run without each). -/
theorem sound_of_serial {gid : GrainId} {es : List FileEvent} {s : FileRun}
    (hrun : exec (step gid) init es = some s) (hserial : Along (step gid) Serial init es) :
    s.Sound :=
  (exec_invariant (fun _ _ _ hP hI hstep => Inv.step hI hP hstep) Inv.init hserial hrun).sound

/-- A grain is saved, loaded with its tag, and saved again under the condition that the tag is
still there, before the process is replaced. -/
def oneAtATime : List FileEvent :=
  let gid : GrainId := ⟨"Counter", "a"⟩
  [.begin (.save gid [0]), .begin (.loadWithEtag gid), .step 0, .step 0, .step 0, .step 1, .step 1,
    .begin (.saveWithEtag gid [1] (some "1")), .step 2, .step 2, .step 2, .step 2, .restart]

theorem oneAtATime_sound : ∃ s, exec (step ⟨"Counter", "a"⟩) init oneAtATime = some s ∧
    s.calls.map FileTask.phase = [.returned .done, .returned (.loadedWithEtag (some ([0], "1"))),
      .returned (.saved "2")] ∧ s.Sound := by
  obtain ⟨s, hs, hphases⟩ : ∃ s, exec (step ⟨"Counter", "a"⟩) init oneAtATime = some s ∧
      s.calls.map FileTask.phase = [.returned .done,
        .returned (.loadedWithEtag (some ([0], "1"))), .returned (.saved "2")] :=
    map_eq_some_iff.mp (by decide +kernel)
  exact ⟨s, hs, hphases, sound_of_serial hs (by decide +kernel)⟩

/-! ## Three runs without it -/

theorem not_sound_of_saved {e e'} {k j n w : ℕ}
    (hk : s.calls[k]? = some ⟨.saveWithEtag gid bytes (some e), .returned (.saved e'), some n⟩)
    (hw : s.files.issued[j]? = some (e, w)) (hne : w + 1 ≠ n) : ¬ s.Sound := by
  intro h
  obtain ⟨n', hn', -, hall⟩ := h.saved _ (mem_of_getElem? hk) gid bytes e e' rfl rfl
  cases hn'
  exact hne (hall w (mem_of_getElem? hw))

theorem not_sound_of_loaded {k j w : ℕ} {write}
    (hk : s.calls[k]? = some ⟨.loadWithEtag gid, .returned (.loadedWithEtag (some (bytes, e))),
      write⟩) (hw : s.files.issued[j]? = some (e, w))
    (hne : s.files.writes[w]? ≠ some (some bytes)) : ¬ s.Sound :=
  fun h => hne ((h.loaded _ (mem_of_getElem? hk) bytes e rfl).2 w (mem_of_getElem? hw))

/-- Two saves that expect the same tag both compare it before either of them writes. -/
def overlapping : List FileEvent :=
  let gid : GrainId := ⟨"Counter", "a"⟩
  [.begin (.save gid [0]), .step 0, .step 0, .step 0,
    .begin (.saveWithEtag gid [1] (some "1")), .begin (.saveWithEtag gid [2] (some "1")),
    .step 1, .step 2, .step 1, .step 1, .step 1, .step 2, .step 2, .step 2]

/-- A new process draws the tag a task has read before. -/
def drawnAgain : List FileEvent :=
  let gid : GrainId := ⟨"Counter", "a"⟩
  [.begin (.save gid [0]), .step 0, .step 0, .step 0, .restart, .begin (.save gid [1]), .step 1,
    .step 1, .step 1, .begin (.saveWithEtag gid [2] (some "1")), .step 2, .step 2, .step 2, .step 2]

/-- The process dies after a save has written the data. -/
def cutOff : List FileEvent :=
  let gid : GrainId := ⟨"Counter", "a"⟩
  [.begin (.save gid [0]), .step 0, .step 0, .step 0, .begin (.save gid [1]), .step 1, .restart,
    .begin (.loadWithEtag gid), .step 2, .step 2]

/-- Two saves succeed on one tag; a save succeeds on a tag of an earlier process; data is read
with the tag of the data before it. -/
theorem fileStore_unsound :
    (∃ s, exec (step ⟨"Counter", "a"⟩) init overlapping = some s ∧ ¬ s.Sound) ∧
    (∃ s, exec (step ⟨"Counter", "a"⟩) init drawnAgain = some s ∧ ¬ s.Sound) ∧
    ∃ s, exec (step ⟨"Counter", "a"⟩) init cutOff = some s ∧ ¬ s.Sound := by
  refine ⟨?_, ?_, ?_⟩
  · obtain ⟨s, hs, hview⟩ : ∃ s, exec (step ⟨"Counter", "a"⟩) init overlapping = some s ∧
        (s.calls[2]?, s.files.issued[0]?) =
          (some ⟨.saveWithEtag ⟨"Counter", "a"⟩ [2] (some "1"), .returned (.saved "3"), some 2⟩,
            some ("1", 0)) :=
      map_eq_some_iff.mp (by decide +kernel)
    obtain ⟨hk, hw⟩ := Prod.mk.inj hview
    exact ⟨s, hs, not_sound_of_saved hk hw (by decide)⟩
  · obtain ⟨s, hs, hview⟩ : ∃ s, exec (step ⟨"Counter", "a"⟩) init drawnAgain = some s ∧
        (s.calls[2]?, s.files.issued[0]?) =
          (some ⟨.saveWithEtag ⟨"Counter", "a"⟩ [2] (some "1"), .returned (.saved "2"), some 2⟩,
            some ("1", 0)) :=
      map_eq_some_iff.mp (by decide +kernel)
    obtain ⟨hk, hw⟩ := Prod.mk.inj hview
    exact ⟨s, hs, not_sound_of_saved hk hw (by decide)⟩
  · obtain ⟨s, hs, hview⟩ : ∃ s, exec (step ⟨"Counter", "a"⟩) init cutOff = some s ∧
        (s.calls[2]?, s.files.issued[0]?, s.files.writes) =
          (some ⟨.loadWithEtag ⟨"Counter", "a"⟩,
            .returned (.loadedWithEtag (some ([1], "1"))), some 1⟩,
            some ("1", 0), [some [0], some [1]]) :=
      map_eq_some_iff.mp (by decide +kernel)
    obtain ⟨hk, hview⟩ := Prod.mk.inj hview
    obtain ⟨hw, hwrites⟩ := Prod.mk.inj hview
    exact ⟨s, hs, not_sound_of_loaded hk hw (by rw [hwrites]; decide)⟩

end FileRun

end Orlando
