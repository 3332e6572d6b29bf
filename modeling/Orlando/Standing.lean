import Mathlib.Data.Finset.Max

/-!
# Standings and reports

A standing is an incarnation number with whether it is suspected. A report of a higher incarnation
being alive clears it, a report of one at least as high being suspect is taken up only while it is
not suspected (`Standing.hear`). Reports may arrive in any order and more than once. What comes out
depends on no more than which reports there are exactly when no suspicion that might count in place
of another, or not at all, is left standing by a higher report of being alive (`Standing.Settles`,
`Standing.hears_eq_iff`).
-/

namespace Orlando

open List

theorem foldl_eq_of_stable {σ ε : Type*} {f : σ → ε → σ} {t} :
    ∀ {es : List ε}, (∀ e ∈ es, f t e = t) → es.foldl f t = t
  | [], _ => rfl
  | e :: es, h => by
    rw [foldl_cons, h e mem_cons_self]
    exact foldl_eq_of_stable fun e' he' => h e' (mem_cons_of_mem e he')

theorem foldl_eq_of_mem {σ ε : Type*} {f : σ → ε → σ} {P : σ → Prop} {e₀ t}
    (hset : ∀ s, P s → f s e₀ = t) :
    ∀ {es : List ε} {s : σ}, P s → (∀ e ∈ es, ∀ s, P s → P (f s e)) → (∀ e ∈ es, f t e = t) →
      e₀ ∈ es → es.foldl f s = t
  | e :: es, s, hs, hP, hstable, hm => by
    rw [foldl_cons]
    rcases mem_cons.mp hm with rfl | hm
    · rw [hset s hs]
      exact foldl_eq_of_stable fun e he => hstable e (mem_cons_of_mem _ he)
    · exact foldl_eq_of_mem hset (hP e mem_cons_self s hs)
        (fun e' he' => hP e' (mem_cons_of_mem e he'))
        (fun e' he' => hstable e' (mem_cons_of_mem e he')) hm

inductive Report (N : Type*)
  | alive (incarnation : N)
  | suspect (incarnation : N)
deriving DecidableEq

structure Standing (N : Type*) where
  incarnation : N
  suspected : Bool
deriving DecidableEq

def Report.isSuspect {N : Type*} : Report N → Bool
  | .alive _ => false
  | .suspect _ => true

def alives {N : Type*} (us : List (Report N)) : List N :=
  us.filterMap fun
    | .alive i => some i
    | .suspect _ => none

def suspicions {N : Type*} (us : List (Report N)) : List N :=
  us.filterMap fun
    | .alive _ => none
    | .suspect k => some k

@[simp]
theorem mem_alives {N : Type*} {us} {i : N} : i ∈ alives us ↔ .alive i ∈ us := by
  rw [alives, mem_filterMap]
  constructor
  · rintro ⟨_ | _, hu, heq⟩
    · exact Option.some.inj heq ▸ hu
    · cases heq
  · exact fun hu => ⟨_, hu, rfl⟩

@[simp]
theorem mem_suspicions {N : Type*} {us} {k : N} : k ∈ suspicions us ↔ .suspect k ∈ us := by
  rw [suspicions, mem_filterMap]
  constructor
  · rintro ⟨_ | _, hu, heq⟩
    · cases heq
    · exact Option.some.inj heq ▸ hu
  · exact fun hu => ⟨_, hu, rfl⟩

def suspectFirst {N ε : Type*} (report : ε → Report N) (es : List ε) : List ε :=
  es.filter (fun e => (report e).isSuspect) ++ es.filter fun e => !(report e).isSuspect

theorem mem_suspectFirst {N ε : Type*} {report : ε → Report N} {es e} :
    e ∈ suspectFirst report es ↔ e ∈ es := by
  rw [suspectFirst, mem_append, mem_filter, mem_filter, ← and_or_left]
  cases (report e).isSuspect <;> simp

namespace Standing

variable {N : Type*} [LinearOrder N] {r : Standing N} {us us' : List (Report N)} {i j k : N}

def hear (r : Standing N) : Report N → Standing N
  | .alive i => if r.incarnation < i then ⟨i, false⟩ else r
  | .suspect k => if r.incarnation ≤ k ∧ r.suspected = false then ⟨k, true⟩ else r

def hears (r : Standing N) (us : List (Report N)) : Standing N :=
  us.foldl hear r

theorem hear_alive_of_lt (h : r.incarnation < i) : r.hear (.alive i) = ⟨i, false⟩ :=
  if_pos h

theorem hear_alive_of_le (h : i ≤ r.incarnation) : r.hear (.alive i) = r :=
  if_neg h.not_gt

theorem hear_suspect_of_lt (h : k < r.incarnation) : r.hear (.suspect k) = r :=
  if_neg fun hk => h.not_ge hk.1

theorem hear_suspect_of_suspected (h : r.suspected = true) : r.hear (.suspect k) = r :=
  if_neg fun hk => Bool.noConfusion (h.symm.trans hk.2)

theorem hear_suspect_of_le (h : r.incarnation ≤ k) (hr : r.suspected = false) :
    r.hear (.suspect k) = ⟨k, true⟩ :=
  if_pos ⟨h, hr⟩

theorem hears_of_alive (hi : .alive i ∈ us) (hr : r.incarnation < i)
    (halive : ∀ j, .alive j ∈ us → j ≤ i) (hsuspect : ∀ k, .suspect k ∈ us → k < i) :
    r.hears us = ⟨i, false⟩ := by
  -- Until then the standing is below `i`.
  refine foldl_eq_of_mem (P := fun r => r.incarnation < i ∨ r = ⟨i, false⟩) ?_ (.inl hr) ?_ ?_ hi
  · rintro r (hr | rfl)
    · exact hear_alive_of_lt hr
    · exact hear_alive_of_le le_rfl
  · rintro (j | k) hu r (hr | rfl)
    · rcases lt_or_ge r.incarnation j with hj | hj
      · rw [hear_alive_of_lt hj]
        refine (halive j hu).lt_or_eq.imp_right ?_
        rintro rfl
        rfl
      · rw [hear_alive_of_le hj]
        exact .inl hr
    · exact .inr (hear_alive_of_le (halive j hu))
    · rw [hear]
      split_ifs
      · exact .inl (hsuspect k hu)
      · exact .inl hr
    · exact .inr (hear_suspect_of_lt (hsuspect k hu))
  · rintro (j | k) hu
    · exact hear_alive_of_le (halive j hu)
    · exact hear_suspect_of_lt (hsuspect k hu)

theorem hears_of_suspect (hk : .suspect k ∈ us) (hr : r.suspected = false)
    (hle : r.incarnation ≤ k) (halive : ∀ j, .alive j ∈ us → j ≤ k)
    (honly : ∀ j, .suspect j ∈ us → r.incarnation ≤ j → j = k) : r.hears us = ⟨k, true⟩ := by
  refine foldl_eq_of_mem (P := fun s => (s.suspected = false ∧ r.incarnation ≤ s.incarnation ∧
    s.incarnation ≤ k) ∨ s = ⟨k, true⟩) ?_ (.inl ⟨hr, le_rfl, hle⟩) ?_ ?_ hk
  · rintro s (⟨hs, -, hsk⟩ | rfl)
    · exact hear_suspect_of_le hsk hs
    · exact hear_suspect_of_suspected rfl
  · rintro (j | j) hu s (⟨hs, hrs, hsk⟩ | rfl)
    · rcases lt_or_ge s.incarnation j with hj | hj
      · rw [hear_alive_of_lt hj]
        exact .inl ⟨rfl, hrs.trans hj.le, halive j hu⟩
      · rw [hear_alive_of_le hj]
        exact .inl ⟨hs, hrs, hsk⟩
    · exact .inr (hear_alive_of_le (halive j hu))
    · rcases lt_or_ge j s.incarnation with hj | hj
      · rw [hear_suspect_of_lt hj]
        exact .inl ⟨hs, hrs, hsk⟩
      · rw [honly j hu (hrs.trans hj), hear_suspect_of_le hsk hs]
        exact .inr rfl
    · exact .inr (hear_suspect_of_suspected rfl)
  · rintro (j | j) hu
    · exact hear_alive_of_le (halive j hu)
    · exact hear_suspect_of_suspected rfl

/-- Each suspicion that might count in place of another, or not at all, is below a report of
being alive. -/
def Settles (r : Standing N) (us : List (Report N)) : Prop :=
  if r.suspected then
    (∃ i ∈ alives us, r.incarnation < i) → ∀ k ∈ suspicions us, ∃ i ∈ alives us, k < i
  else
    ∀ j ∈ suspicions us, r.incarnation ≤ j → ∀ k ∈ suspicions us, j < k →
      ∃ i ∈ alives us, k < i

instance : Decidable (r.Settles us) := by
  unfold Settles
  infer_instance

theorem settles_of_suspected (hr : r.suspected = true) : r.Settles us ↔
    ((∃ i ∈ alives us, r.incarnation < i) → ∀ k ∈ suspicions us, ∃ i ∈ alives us, k < i) := by
  rw [Settles, if_pos hr]

theorem settles_of_not_suspected (hr : r.suspected = false) : r.Settles us ↔
    ∀ j ∈ suspicions us, r.incarnation ≤ j → ∀ k ∈ suspicions us, j < k →
      ∃ i ∈ alives us, k < i := by
  rw [Settles, if_neg (Bool.not_eq_true _ ▸ hr)]

theorem exists_max {l : List N} (hi : i ∈ l) : ∃ m ∈ l, ∀ j ∈ l, j ≤ m := by
  obtain ⟨m, hm, hmax⟩ := l.toFinset.exists_max_image id ⟨i, mem_toFinset.mpr hi⟩
  exact ⟨m, mem_toFinset.mp hm, fun j hj => hmax j (mem_toFinset.mpr hj)⟩

def Decided (r : Standing N) (us : List (Report N)) : Prop :=
  ∃ t, ∀ us', (∀ u, u ∈ us' ↔ u ∈ us) → r.hears us' = t

theorem decided_of_alive (hi : i ∈ alives us) (hr : r.incarnation < i)
    (hsuspect : ∀ k ∈ suspicions us, ∃ i ∈ alives us, k < i) : r.Decided us := by
  obtain ⟨m, hm, hmax⟩ := exists_max hi
  refine ⟨⟨m, false⟩, fun us' hus' => hears_of_alive ?_ (hr.trans_le (hmax i hi)) ?_ ?_⟩
  · exact (hus' _).mpr (mem_alives.mp hm)
  · exact fun j hj => hmax j (mem_alives.mpr ((hus' _).mp hj))
  · intro k hk
    obtain ⟨j, hj, hkj⟩ := hsuspect k (mem_suspicions.mpr ((hus' _).mp hk))
    exact hkj.trans_le (hmax j hj)

theorem decided_of_stable (h : ∀ u ∈ us, r.hear u = r) : r.Decided us :=
  ⟨r, fun _ hus' => foldl_eq_of_stable fun u hu => h u ((hus' u).mp hu)⟩

theorem decided_of_settles (h : r.Settles us) : r.Decided us := by
  cases hr : r.suspected with
  | true =>
    rw [settles_of_suspected hr] at h
    by_cases hi : ∃ i ∈ alives us, r.incarnation < i
    · obtain ⟨i, hi', hlt⟩ := hi
      exact decided_of_alive hi' hlt (h ⟨i, hi', hlt⟩)
    · refine decided_of_stable ?_
      rintro (i | k) hu
      · exact hear_alive_of_le (not_lt.mp fun hlt => hi ⟨i, mem_alives.mpr hu, hlt⟩)
      · exact hear_suspect_of_suspected hr
  | false =>
    rw [settles_of_not_suspected hr] at h
    by_cases hk : ∃ k ∈ suspicions us, r.incarnation ≤ k
    · obtain ⟨k, hk', hle⟩ := hk
      obtain ⟨m, hm, hmax⟩ := exists_max hk'
      have hrm := hle.trans (hmax k hk')
      by_cases hi : ∃ i ∈ alives us, m < i
      · obtain ⟨i, hi', hlt⟩ := hi
        exact decided_of_alive hi' (hrm.trans_lt hlt) fun k hk => ⟨i, hi', (hmax k hk).trans_lt hlt⟩
      · -- The highest suspicion is the only one that can count.
        refine ⟨⟨m, true⟩, fun us' hus' => hears_of_suspect ?_ hr hrm ?_ ?_⟩
        · exact (hus' _).mpr (mem_suspicions.mp hm)
        · exact fun i hu => not_lt.mp fun hlt => hi ⟨i, mem_alives.mpr ((hus' _).mp hu), hlt⟩
        · intro j hu hrj
          have hj := mem_suspicions.mpr ((hus' _).mp hu)
          refine (hmax j hj).antisymm (not_lt.mp fun hlt => hi ?_)
          exact h j hj hrj m hm hlt
    · have hbelow :=  fun k hk' => not_le.mp fun hle => hk ⟨k, hk', hle⟩
      by_cases hi : ∃ i ∈ alives us, r.incarnation < i
      · obtain ⟨i, hi', hlt⟩ := hi
        exact decided_of_alive hi' hlt fun k hk => ⟨i, hi', (hbelow k hk).trans hlt⟩
      · refine decided_of_stable ?_
        rintro (i | k) hu
        · exact hear_alive_of_le (not_lt.mp fun hlt => hi ⟨i, mem_alives.mpr hu, hlt⟩)
        · exact hear_suspect_of_lt (hbelow k (mem_suspicions.mpr hu))

theorem hears_cons (u) : r.hears (u :: us) = (r.hear u).hears us :=
  rfl

theorem hears_append : r.hears (us ++ us') = (r.hears us).hears us' :=
  foldl_append

theorem hears_of_forall_alive (h : ∀ k, .suspect k ∉ us) :
    (r.hears us).suspected = false ∨ r.hears us = r ∧ ∀ i, .alive i ∈ us → i ≤ r.incarnation := by
  induction us generalizing r with
  | nil => exact .inr ⟨rfl, nofun⟩
  | cons u us ih =>
    have hus : ∀ k, .suspect k ∉ us := fun k hk => h k (mem_cons_of_mem u hk)
    cases u with
    | suspect k => exact absurd mem_cons_self (h k)
    | alive i =>
      rw [hears_cons]
      rcases lt_or_ge r.incarnation i with hlt | hle
      · rw [hear_alive_of_lt hlt]
        exact .inl ((ih hus).elim id fun hsame => congrArg suspected hsame.1)
      · rw [hear_alive_of_le hle]
        refine (ih hus).imp_right fun hsame => ⟨hsame.1, fun j hj => ?_⟩
        rcases mem_cons.mp hj with heq | hj
        · exact Report.alive.inj heq ▸ hle
        · exact hsame.2 j hj

section

variable {ε : Type*} (report : ε → Report N) {es : List ε}

theorem hears_suspectFirst (es) (hr : r.suspected = true) :
    (r.hears ((suspectFirst report es).map report)).suspected = false ∨
      r.hears ((suspectFirst report es).map report) = r ∧
        ∀ i ∈ alives (es.map report), i ≤ r.incarnation := by
  rw [suspectFirst, map_append, hears_append]
  have hsame : r.hears ((es.filter fun e => (report e).isSuspect).map report) = r := by
    refine foldl_eq_of_stable ?_
    rintro (i | k) hu
    · obtain ⟨e, he, heq⟩ := mem_map.mp hu
      have hs := (mem_filter.mp he).2
      rw [heq] at hs
      cases hs
    · exact hear_suspect_of_suspected hr
  rw [hsame]
  refine (hears_of_forall_alive ?_).imp_right fun h => ⟨h.1, fun i hi => h.2 i ?_⟩
  · intro k hu
    obtain ⟨e, he, heq⟩ := mem_map.mp hu
    have hs := (mem_filter.mp he).2
    rw [heq] at hs
    cases hs
  · obtain ⟨e, he, heq⟩ := mem_map.mp (mem_alives.mp hi)
    refine mem_map.mpr ⟨e, mem_filter.mpr ⟨he, ?_⟩, heq⟩
    rw [heq]
    rfl

theorem hears_of_taken_up (halive : ∀ i ∈ alives us, i ≤ k) :
    (⟨k, true⟩ : Standing N).hears us = ⟨k, true⟩ := by
  refine foldl_eq_of_stable ?_
  rintro (i | j) hu
  · exact hear_alive_of_le (halive i (mem_alives.mpr hu))
  · exact hear_suspect_of_suspected rfl

theorem exists_highest (hk : k ∈ suspicions (es.map report))
    (hnot : ¬∃ i ∈ alives (es.map report), k < i) :
    ∃ m, ∃ f ∈ es, report f = .suspect m ∧ k ≤ m ∧ ∀ i ∈ alives (es.map report), i ≤ m := by
  obtain ⟨m, hm, hmax⟩ := exists_max hk
  obtain ⟨f, hf, hfeq⟩ := mem_map.mp (mem_suspicions.mp hm)
  exact ⟨m, f, hf, hfeq, hmax k hk,
    fun i hi => (not_lt.mp fun hki => hnot ⟨i, hi, hki⟩).trans (hmax k hk)⟩

theorem settles_of_hears_eq (h : ∀ es' : List ε, (∀ e, e ∈ es' ↔ e ∈ es) →
      r.hears (es'.map report) = r.hears (es.map report)) :
    r.Settles (es.map report) := by
  have hcons : ∀ {e} {fs : List ε}, e ∈ es → (∀ x, x ∈ fs ↔ x ∈ es) →
      ∀ x, x ∈ e :: fs ↔ x ∈ es := by
    intro e fs he hfs x
    rw [mem_cons, hfs, or_iff_right_iff_imp]
    rintro rfl
    exact he
  have hfirst : ∀ x, x ∈ suspectFirst report es ↔ x ∈ es := fun x => mem_suspectFirst
  cases hr : r.suspected with
  | true =>
    rw [settles_of_suspected hr]
    rintro ⟨i, hi, hlt⟩ k hk
    by_contra hnot
    obtain ⟨m, f, hf, hfeq, -, halive⟩ := exists_highest report hk hnot
    obtain ⟨e, he, heq⟩ := mem_map.mp (mem_alives.mp hi)
    -- The suspicion counts after a report of being alive, and not at all before it.
    have hlate : r.hears ((e :: f :: es).map report) = ⟨m, true⟩ := by
      rw [map_cons, map_cons, heq, hfeq, hears_cons, hear_alive_of_lt hlt, hears_cons,
        hear_suspect_of_le (halive i hi) rfl]
      exact hears_of_taken_up halive
    have hearly := hears_suspectFirst report es hr
    rw [h _ hfirst, ← h _ (hcons he (hcons hf fun _ => Iff.rfl)), hlate] at hearly
    rcases hearly with hearly | ⟨-, hearly⟩
    · cases hearly
    · exact (hearly i hi).not_gt hlt
  | false =>
    rw [settles_of_not_suspected hr]
    intro j hj hrj k hk hjk
    by_contra hnot
    obtain ⟨m, f, hf, hfeq, hkm, halive⟩ := exists_highest report hk hnot
    obtain ⟨e, he, heq⟩ := mem_map.mp (mem_suspicions.mp hj)
    have hjm := hjk.trans_le hkm
    -- Either of the two suspicions may be the one that counts.
    have hhigh : r.hears ((f :: es).map report) = ⟨m, true⟩ := by
      rw [map_cons, hfeq, hears_cons, hear_suspect_of_le (hrj.trans hjm.le) hr]
      exact hears_of_taken_up halive
    have hlow : r.hears ((e :: suspectFirst report es).map report) =
        (⟨j, true⟩ : Standing N).hears ((suspectFirst report es).map report) := by
      rw [map_cons, heq, hears_cons, hear_suspect_of_le hrj hr]
    rw [h _ (hcons he hfirst), ← h _ (hcons hf fun _ => Iff.rfl), hhigh] at hlow
    rcases hears_suspectFirst (r := ⟨j, true⟩) report es rfl with hcleared | ⟨hsame, -⟩
    · rw [← hlow] at hcleared
      cases hcleared
    · rw [← hlow] at hsame
      exact hjm.ne' (congrArg incarnation hsame)

theorem hears_eq_iff :
    (∀ es' : List ε, (∀ e, e ∈ es' ↔ e ∈ es) → r.hears (es'.map report) = r.hears (es.map report)) ↔
      r.Settles (es.map report) := by
  refine ⟨settles_of_hears_eq report, fun h es' hes' => ?_⟩
  obtain ⟨t, ht⟩ := decided_of_settles h
  rw [ht _ fun u => ?_, ht _ fun u => Iff.rfl]
  simp only [mem_map, hes']

end

end Standing

end Orlando
