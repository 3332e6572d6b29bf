import Orlando.Grain
import Orlando.Transition

/-!
# Where the file store keeps its files

`FileStateStore` makes the paths of its two files for a grain from the type and the key as they are,
with `__` for `::` in the type. `location` reads them as a path from the base directory, if it is
one that nowhere goes above where it starts.
-/

namespace Orlando

open List

namespace FilePaths

abbrev Component := List Char

def components (path : String) : List Component :=
  path.toList.splitOn '/'

def isAbsolute (path : String) : Bool :=
  path.toList.head? == some '/'

def join (base path : String) : String :=
  if isAbsolute path then path
  else if base.toList.getLast?.any (· != '/') then base ++ "/" ++ path
  else base ++ path

def enter (dir : List Component) (c : Component) : List Component :=
  if c = [] ∨ c = ['.'] then dir
  else if c = ['.', '.'] then dir.dropLast
  else dir ++ [c]

def resolve (cwd : List Component) (path : String) : List Component :=
  (components path).foldl enter (if isAbsolute path then [] else cwd)

/-- As `enter`, below a directory that is not to be left. -/
def descend (dir : List Component) (c : Component) : Option (List Component) :=
  if c = ['.', '.'] ∧ dir = [] then none else some (enter dir c)

variable {cwd dir dir' : List Component} {c q : Component} {cs : List Component}
  {base path : String}

theorem enter_nil (dir) : enter dir [] = dir :=
  if_pos (Or.inl rfl)

theorem enter_of_length (h : 3 ≤ c.length) (dir) : enter dir c = dir ++ [c] := by
  unfold enter
  split_ifs with h₁ h₂
  · rcases h₁ with rfl | rfl <;> simp at h
  · simp [h₂] at h
  · rfl

theorem isAbsolute_append (h : base ≠ "") (rest) :
    isAbsolute (base ++ rest) = isAbsolute base := by
  have hne : base.toList ≠ [] := mt (fun hnil => String.toList_inj.mp hnil) h
  rw [isAbsolute, isAbsolute, String.toList_append, head?_append_of_ne_nil _ hne]

theorem resolve_join (h : isAbsolute path = false) :
    resolve cwd (join base path) = (components path).foldl enter (resolve cwd base) := by
  rw [join, if_neg (by simp [h])]
  by_cases hbase : base = ""
  · have hempty : resolve cwd "" = cwd := enter_nil cwd
    rw [hbase, hempty, if_neg (by decide), String.empty_append, resolve, if_neg (by simp [h])]
  · obtain ⟨init, last, hl⟩ := (eq_nil_or_concat base.toList).resolve_left
      (mt (fun hnil => String.toList_inj.mp hnil) hbase)
    have habs := isAbsolute_append hbase
    split_ifs with hsep
    · rw [String.append_assoc, resolve, habs, components, String.toList_append,
        show ("/" ++ path).toList = '/' :: path.toList by simp, splitOn_append_cons_self,
        foldl_append]
      rfl
    · have hslash : last = '/' := by simpa [hl] using hsep
      rw [resolve, habs, resolve, components, components, String.toList_append, hl, hslash,
        concat_eq_append, append_assoc, singleton_append,
        splitOn_append_cons_self, splitOn_append_cons_self, foldl_append,
        foldl_append]
      simp [enter_nil, components]

theorem enter_append_of_descend (h : descend dir' c = some dir) (base) :
    enter (base ++ dir') c = base ++ dir := by
  unfold descend at h
  split_ifs at h with hup
  cases h
  unfold enter
  split_ifs with h₁ h₂
  · rfl
  · exact (dropLast_append_of_ne_nil fun hnil => hup ⟨h₂, hnil⟩)
  · simp

theorem foldl_enter_of_exec (h : exec descend dir' cs = some dir) (base) :
    cs.foldl enter (base ++ dir') = base ++ dir := by
  induction cs generalizing dir' with
  | nil =>
    cases h
    rfl
  | cons c cs ih =>
    obtain ⟨dir₁, hc, hcs⟩ := exec_cons_eq_some.mp h
    rw [foldl_cons, enter_append_of_descend hc, ih hcs]

theorem exists_components_append {e} (he : '/' ∉ e) (l : List Char) :
    ∃ dir name, l.splitOn '/' = dir ++ [name] ∧ (l ++ e).splitOn '/' = dir ++ [name ++ e] := by
  induction l with
  | nil => exact ⟨[], [], rfl, splitOn_eq_singleton he⟩
  | cons c l ih =>
    obtain ⟨dir, name, hl, hle⟩ := ih
    rw [cons_append, splitOn_cons_eq_if_modifyHead, splitOn_cons_eq_if_modifyHead, hl, hle]
    split_ifs
    · exact ⟨[] :: dir, name, rfl, rfl⟩
    · cases dir with
      | nil => exact ⟨[], c :: name, rfl, rfl⟩
      | cons d dir => exact ⟨(c :: d) :: dir, name, rfl, rfl⟩

theorem mem_of_mem_enter (h : q ∈ enter dir c) : q ∈ dir ∨ q = c := by
  unfold enter at h
  split_ifs at h
  · exact .inl h
  · exact .inl (dropLast_subset dir h)
  · simpa using h

theorem mem_of_mem_foldl_enter (h : q ∈ cs.foldl enter dir) : q ∈ dir ∨ q ∈ cs := by
  induction cs generalizing dir with
  | nil => exact .inl h
  | cons c cs ih =>
    rcases ih h with hdir | hcs
    · exact (mem_of_mem_enter hdir).imp_right fun hq => mem_cons.mpr (.inl hq)
    · exact .inr (mem_cons_of_mem c hcs)

/-- A path that climbs above where it starts does so with a `..` that finds it there. -/
theorem exists_climb (h : exec descend dir' cs = none) :
    ∃ cs₁ cs₂, cs = cs₁ ++ ['.', '.'] :: cs₂ ∧ exec descend dir' cs₁ = some [] := by
  induction cs generalizing dir' with
  | nil => cases h
  | cons c cs ih =>
    cases hc : descend dir' c with
    | none =>
      unfold descend at hc
      split_ifs at hc with hup
      exact ⟨[], cs, by rw [hup.1]; rfl, by rw [hup.2]; rfl⟩
    | some dir₁ =>
      rw [exec, hc, Option.bind_some] at h
      obtain ⟨cs₁, cs₂, rfl, hcs₁⟩ := ih h
      exact ⟨c :: cs₁, cs₂, rfl, exec_cons_eq_some.mpr ⟨dir₁, hc, hcs₁⟩⟩

/-- A base directory with a name that is not among the given ones. -/
theorem exists_fresh_base (cs : List Component) :
    ∃ base name, name ∉ cs ∧ ∀ cwd, resolve cwd base = [name] := by
  let name := replicate (cs.flatten.length + 1) 'a'
  have hname : name ∉ cs := fun hm => by
    have hle := (sublist_flatten_of_mem hm).length_le
    simp only [name, length_replicate] at hle
    omega
  have hsplit : name.splitOn '/' = [name] :=
    splitOn_eq_singleton fun hm => absurd (eq_of_mem_replicate hm) (by decide)
  have hdots : ∀ n, replicate (n + 1) 'a' ≠ ['.'] ∧ replicate (n + 1) 'a' ≠ ['.', '.'] :=
    fun n => ⟨by simp [replicate_succ], by simp [replicate_succ]⟩
  refine ⟨String.ofList ('/' :: name), name, hname, fun cwd => ?_⟩
  have habs : isAbsolute (String.ofList ('/' :: name)) = true := by simp [isAbsolute]
  rw [resolve, if_pos habs, components, String.toList_ofList,
    splitOn_cons_eq_if_modifyHead, if_pos (by simp), hsplit]
  simp [enter, name, hdots]

end FilePaths

open FilePaths

def replaceColons : List Char → List Char
  | ':' :: ':' :: rest => '_' :: '_' :: replaceColons rest
  | c :: rest => c :: replaceColons rest
  | [] => []

inductive FileKind where
  | data
  | etag

def FileKind.extension : FileKind → String
  | data => ".bin"
  | etag => ".etag"

namespace FileStateStore

def typeDir (gid : GrainId) : String :=
  String.ofList (replaceColons gid.typeName.toList)

def fileFor (k : FileKind) (baseDir : String) (gid : GrainId) : String :=
  join (join baseDir (typeDir gid)) (gid.key ++ k.extension)

def pathFor : String → GrainId → String :=
  fileFor .data

def etagPathFor : String → GrainId → String :=
  fileFor .etag

/-- The directory of the files from the base directory, and their name without extension, if they
stay below it. -/
def location (gid : GrainId) : Option (List Component × Component) :=
  if isAbsolute (typeDir gid) || isAbsolute gid.key then none
  else
    let key := components gid.key
    (exec descend [] (components (typeDir gid) ++ key.dropLast)).map
      fun dir => (dir, key.getLast?.getD [])

def Below (dir file : List Component) : Prop :=
  ∃ rest, rest ≠ [] ∧ file = dir ++ rest

def Confined (cwd : List Component) (baseDir : String) (gid : GrainId) : Prop :=
  Below (resolve cwd baseDir) (resolve cwd (pathFor baseDir gid)) ∧
    Below (resolve cwd baseDir) (resolve cwd (etagPathFor baseDir gid))

def SameFile (cwd : List Component) (baseDir : String) (g h : GrainId) : Prop :=
  resolve cwd (pathFor baseDir g) = resolve cwd (pathFor baseDir h) ∨
    resolve cwd (etagPathFor baseDir g) = resolve cwd (etagPathFor baseDir h)

variable {gid g h : GrainId} {k : FileKind} {dir : List Component} {name : Component}

theorem isAbsolute_key (k : FileKind) (gid : GrainId) :
    isAbsolute (gid.key ++ k.extension) = isAbsolute gid.key := by
  by_cases hkey : gid.key = ""
  · rw [hkey]
    cases k <;> rfl
  · exact isAbsolute_append hkey _

theorem exists_components_file (k : FileKind) (gid : GrainId) :
    ∃ pre last, components gid.key = pre ++ [last] ∧
      components (gid.key ++ k.extension) = pre ++ [last ++ k.extension.toList] := by
  have hext : '/' ∉ k.extension.toList := by cases k <;> decide
  obtain ⟨pre, last, hkey, hfile⟩ := exists_components_append hext gid.key.toList
  exact ⟨pre, last, hkey, by rw [components, String.toList_append, hfile]⟩

theorem resolve_fileFor (hl : location gid = some (dir, name)) (cwd : List Component)
    (base : String) : resolve cwd (fileFor k base gid) =
      resolve cwd base ++ (dir ++ [name ++ k.extension.toList]) := by
  obtain ⟨pre, last, hkey, hfile⟩ := exists_components_file k gid
  unfold location at hl
  split_ifs at hl with habs
  obtain ⟨htype, habs⟩ : isAbsolute (typeDir gid) = false ∧ isAbsolute gid.key = false := by
    simpa using habs
  simp only [hkey, dropLast_concat, getLast?_concat, Option.getD_some,
    Option.map_eq_some_iff, Prod.mk.injEq] at hl
  obtain ⟨_, hexec, rfl, rfl⟩ := hl
  have hwalk := foldl_enter_of_exec hexec (resolve cwd base)
  have hlen : 4 ≤ (last ++ k.extension.toList).length := by cases k <;> simp [FileKind.extension]
  rw [append_nil] at hwalk
  rw [fileFor, resolve_join (by rw [isAbsolute_key, habs]), resolve_join htype, hfile,
    ← foldl_append, ← append_assoc, foldl_append, hwalk, foldl_cons,
    foldl_nil, enter_of_length (by omega), append_assoc]

theorem sameFile_iff {l l' : List Component × Component} (hg : location g = some l)
    (hh : location h = some l') (cwd : List Component) (base : String) :
    SameFile cwd base g h ↔ l = l' := by
  obtain ⟨dir, name⟩ := l
  obtain ⟨dir', name'⟩ := l'
  have hfile : ∀ k, resolve cwd (fileFor k base g) = resolve cwd (fileFor k base h) ↔
      (dir, name) = (dir', name') := by
    intro k
    rw [resolve_fileFor hg, resolve_fileFor hh, append_cancel_left_eq]
    constructor
    · intro hk
      obtain ⟨rfl, hname⟩ := append_inj' hk rfl
      rw [List.cons.injEq, append_cancel_right_eq] at hname
      rw [hname.1]
    · rintro ⟨⟩
      rfl
  exact (or_congr (hfile .data) (hfile .etag)).trans or_self_iff

theorem confined_of_location (hl : (location gid).isSome) (cwd : List Component) (base : String) :
    Confined cwd base gid := by
  obtain ⟨⟨dir, name⟩, hl⟩ := Option.isSome_iff_exists.mp hl
  exact ⟨⟨_, by simp, resolve_fileFor hl cwd base⟩, ⟨_, by simp, resolve_fileFor hl cwd base⟩⟩

/-- Without a location, the data file leaves a base directory whose name is not in the path. -/
theorem exists_not_confined (hl : location gid = none) : ∃ cwd base, ¬Confined cwd base gid := by
  obtain ⟨base, name, hname, hbase⟩ := exists_fresh_base
    (components (typeDir gid) ++ components (gid.key ++ ".bin"))
  rw [mem_append, not_or] at hname
  refine ⟨[], base, fun hconfined => ?_⟩
  obtain ⟨⟨rest, -, hrest⟩, -⟩ := hconfined
  have hm : name ∈ resolve [] (fileFor .data base gid) := by
    rw [← pathFor, hrest, hbase]
    exact mem_cons_self
  have hkey := isAbsolute_key .data gid
  unfold location at hl
  unfold fileFor at hm
  split_ifs at hl with habs
  · cases hk : isAbsolute gid.key with
    | true =>
      rw [join, if_pos (hkey.trans hk), resolve, if_pos (hkey.trans hk)] at hm
      exact (mem_of_mem_foldl_enter hm).elim not_mem_nil hname.2
    | false =>
      have htype : isAbsolute (typeDir gid) = true := by simpa [hk] using habs
      rw [resolve_join (hkey.trans hk), join, if_pos htype, resolve, if_pos htype] at hm
      refine (mem_of_mem_foldl_enter hm).elim (fun hm => ?_) hname.2
      exact (mem_of_mem_foldl_enter hm).elim not_mem_nil hname.1
  · obtain ⟨htype, hk⟩ : isAbsolute (typeDir gid) = false ∧ isAbsolute gid.key = false := by
      simpa using habs
    obtain ⟨pre, last, hpre, hfile⟩ := exists_components_file .data gid
    simp only [hpre, dropLast_concat, Option.map_eq_none_iff] at hl
    obtain ⟨cs₁, cs₂, hcs, hclimb⟩ := exists_climb hl
    have hwalk := foldl_enter_of_exec hclimb [name]
    rw [append_nil] at hwalk
    rw [resolve_join (hkey.trans hk), resolve_join htype, hbase, ← foldl_append, hfile,
      ← append_assoc, hcs, append_assoc, foldl_append, hwalk, cons_append, foldl_cons] at hm
    -- the `..` has taken the name away, and nothing after it brings it back
    rcases mem_of_mem_foldl_enter hm with hnil | hin
    · exact not_mem_nil hnil
    · refine (not_or.mpr hname) (mem_append.mp ?_)
      rw [FileKind.extension] at hfile
      rw [hfile, ← append_assoc, hcs, append_assoc]
      exact mem_append_right cs₁ (mem_cons_of_mem _ hin)

/-- The files of a grain are below the base directory, wherever that is, exactly if the grain has a
location. Two grains are kept apart exactly if both have one and these differ. -/
theorem file_paths_confined (g h : GrainId) :
    ((∀ cwd base, Confined cwd base g) ↔ (location g).isSome) ∧
    (∀ l l', location g = some l → location h = some l' →
      ∀ cwd base, SameFile cwd base g h ↔ l = l') ∧
    ((∀ cwd base, Confined cwd base g ∧ Confined cwd base h ∧ ¬SameFile cwd base g h) ↔
      (location g).isSome ∧ (location h).isSome ∧ location g ≠ location h) := by
  have hconfined : ∀ gid, (∀ cwd base, Confined cwd base gid) ↔ (location gid).isSome := by
    refine fun gid => ⟨fun hall => ?_, fun hl => confined_of_location hl⟩
    by_contra hl
    obtain ⟨cwd, base, hnot⟩ := exists_not_confined (Option.not_isSome_iff_eq_none.mp hl)
    exact hnot (hall cwd base)
  refine ⟨hconfined g, fun _ _ hg hh => sameFile_iff hg hh, fun hall => ?_, ?_⟩
  · have hg := (hconfined g).mp fun cwd base => (hall cwd base).1
    have hh := (hconfined h).mp fun cwd base => (hall cwd base).2.1
    refine ⟨hg, hh, fun heq => ?_⟩
    obtain ⟨l, hl⟩ := Option.isSome_iff_exists.mp hg
    exact (hall [] "").2.2 ((sameFile_iff hl (heq ▸ hl) [] "").mpr rfl)
  · rintro ⟨hg, hh, hne⟩ cwd base
    obtain ⟨l, hl⟩ := Option.isSome_iff_exists.mp hg
    obtain ⟨l', hl'⟩ := Option.isSome_iff_exists.mp hh
    refine ⟨confined_of_location hg cwd base, confined_of_location hh cwd base, fun hsame => hne ?_⟩
    rw [hl, hl', (sameFile_iff hl hl' cwd base).mp hsame]

theorem orders_confined :
    (∀ cwd base, Confined cwd base ⟨"shop::Order", "a"⟩) ∧
    ¬SameFile [] "/data" ⟨"shop::Order", "a"⟩ ⟨"shop::Order", "b"⟩ := by
  have hg : location ⟨"shop::Order", "a"⟩ = some (["shop__Order".toList], ['a']) := by
    decide +kernel
  have hh : location ⟨"shop::Order", "b"⟩ = some (["shop__Order".toList], ['b']) := by
    decide +kernel
  obtain ⟨hconfined, hsame, -⟩ := file_paths_confined ⟨"shop::Order", "a"⟩ ⟨"shop::Order", "b"⟩
  refine ⟨hconfined.mpr (by rw [hg]; rfl), fun h => ?_⟩
  exact absurd ((hsame _ _ hg hh [] "/data").mp h) (by decide)

/-- A key leads out of the base directory, a type away from it, and two types have one
directory. -/
theorem files_outside_and_shared :
    resolve [] (pathFor "/data" ⟨"Cart", "../../etc/a"⟩) = ["etc".toList, "a.bin".toList] ∧
    ¬Confined [] "/data" ⟨"Cart", "../../etc/a"⟩ ∧
    resolve [] (etagPathFor "/data" ⟨"/etc", "a"⟩) = ["etc".toList, "a.etag".toList] ∧
    SameFile [] "/data" ⟨"shop::Cart", "a"⟩ ⟨"shop__Cart", "a"⟩ := by
  refine ⟨by decide +kernel, ?_, by decide +kernel, Or.inl (by decide +kernel)⟩
  rintro ⟨⟨rest, -, hrest⟩, -⟩
  have hdata : (resolve [] (pathFor "/data" ⟨"Cart", "../../etc/a"⟩)).head? =
      some "data".toList := by
    rw [hrest]
    rfl
  exact absurd hdata (by decide +kernel)

end FileStateStore

end Orlando
