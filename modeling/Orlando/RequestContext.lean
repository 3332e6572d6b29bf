import Mathlib.Data.List.AList
import Orlando.Grain

/-!
# Request contexts and the call chain

A handler runs in a `RequestContext`, a map of texts that its calls take along. One of the texts is
the call chain : the grains whose handlers the call has gone through, each as `type/key`, with
commas between. `isInCallChain` looks a grain up between the commas, and a type or a key may have
commas itself (`isInCallChain_withCallChainEntry`).
-/

namespace Orlando

open List GrainId

abbrev RequestContext := AList fun _ : String => String

def callChainKey : String := "__orlando_call_chain"

namespace GrainId

def entry (gid : GrainId) : String :=
  gid.typeName ++ "/" ++ gid.key

def Names (grain gid : GrainId) : Prop :=
  gid.entry.toList ∈ grain.entry.toList.splitOn ','

instance (grain gid : GrainId) : Decidable (grain.Names gid) :=
  inferInstanceAs (Decidable (_ ∈ _))

theorem entry_ne_empty (gid : GrainId) : gid.entry ≠ "" := by
  intro h
  have hlist := congrArg String.toList h
  simp [entry] at hlist

variable {grain gid : GrainId}

theorem names_iff_of_no_comma (h : ',' ∉ grain.entry.toList) :
    grain.Names gid ↔ grain.entry = gid.entry := by
  rw [Names, splitOn_eq_singleton h, mem_singleton, String.toList_inj]
  exact eq_comm

theorem comma_not_mem_splitOn {l : List Char} : ∀ piece ∈ l.splitOn ',', ',' ∉ piece := by
  induction l with
  | nil => simp
  | cons c l ih =>
    rw [splitOn_cons_eq_if_modifyHead]
    split_ifs with hc
    · simpa using ih
    · obtain ⟨piece, rest, hsplit⟩ := exists_cons_of_ne_nil (splitOn_ne_nil ',' l)
      rw [hsplit] at ih ⊢
      rw [modifyHead_cons, forall_mem_cons]
      obtain ⟨hpiece, hrest⟩ := forall_mem_cons.mp ih
      refine ⟨fun hm => ?_, hrest⟩
      rcases mem_cons.mp hm with heq | hm
      · exact hc (beq_iff_eq.mpr heq.symm)
      · exact hpiece hm

def Plain (gid : GrainId) : Prop :=
  ',' ∉ gid.entry.toList ∧ '/' ∉ gid.typeName.toList

instance (gid : GrainId) : Decidable gid.Plain :=
  inferInstanceAs (Decidable (_ ∧ _))

theorem toList_entry (gid : GrainId) :
    gid.entry.toList = gid.typeName.toList ++ '/' :: gid.key.toList := by
  simp [entry]

theorem eq_of_names (hgrain : grain.Plain) (hgid : gid.Plain) (h : grain.Names gid) :
    grain = gid := by
  have hen := (names_iff_of_no_comma hgrain.1).mp h
  have hsplit := congrArg (fun text : String => text.toList.splitOn '/') hen
  simp only [toList_entry, splitOn_append_cons_self_of_not_mem hgrain.2,
    splitOn_append_cons_self_of_not_mem hgid.2, List.cons.injEq] at hsplit
  have htype := String.toList_inj.mp hsplit.1
  have hlist := congrArg String.toList hen
  rw [toList_entry, toList_entry, htype, append_cancel_left_eq, List.cons.injEq] at hlist
  cases grain
  cases gid
  cases htype
  cases String.toList_inj.mp hlist.2
  rfl

end GrainId

namespace RequestContext

variable (ctx : RequestContext) {grain gid : GrainId}

def callChain : Option String :=
  ctx.lookup callChainKey

def withCallChainEntry (grain : GrainId) : RequestContext :=
  let chain := ctx.callChain.getD ""
  ctx.insert callChainKey (if chain = "" then grain.entry else chain ++ "," ++ grain.entry)

def isInCallChain (gid : GrainId) : Bool :=
  match ctx.callChain with
  | some chain => (chain.toList.splitOn ',').any fun e => e == gid.entry.toList
  | none => false

theorem isInCallChain_empty (gid) : (∅ : RequestContext).isInCallChain gid = false :=
  rfl

variable {ctx} in
theorem isInCallChain_of_callChain {chain} (h : ctx.callChain = some chain) :
    ctx.isInCallChain gid = true ↔ gid.entry.toList ∈ chain.toList.splitOn ',' := by
  simp only [isInCallChain, h]
  simp [any_eq_true]

theorem isInCallChain_withCallChainEntry :
    (ctx.withCallChainEntry grain).isInCallChain gid = true ↔
      ctx.isInCallChain gid = true ∨ grain.Names gid := by
  have hnew : (ctx.withCallChainEntry grain).callChain = some (if ctx.callChain.getD "" = "" then
      grain.entry else ctx.callChain.getD "" ++ "," ++ grain.entry) :=
    AList.lookup_insert _
  rw [isInCallChain_of_callChain hnew]
  cases hchain : ctx.callChain with
  | none => simp [isInCallChain, hchain, GrainId.Names]
  | some chain =>
    rw [isInCallChain_of_callChain hchain, Option.getD_some]
    split_ifs with hempty
    · -- An empty chain has only the empty text between its commas, which is no entry.
      have hentry : gid.entry.toList ≠ [] := fun h =>
        gid.entry_ne_empty (String.toList_inj.mp h)
      simp [hempty, hentry, GrainId.Names]
    · rw [String.toList_append, String.toList_append, append_assoc]
      have hcomma : ",".toList ++ grain.entry.toList = ',' :: grain.entry.toList := rfl
      rw [hcomma, splitOn_append_cons_self, mem_append]
      rfl

theorem comma_not_mem_of_isInCallChain (h : ctx.isInCallChain gid = true) :
    ',' ∉ gid.entry.toList := by
  cases hchain : ctx.callChain with
  | none => simp [isInCallChain, hchain] at h
  | some chain => exact comma_not_mem_splitOn _ ((isInCallChain_of_callChain hchain).mp h)

theorem isInCallChain_congr {gid'} (h : gid.entry = gid'.entry) :
    ctx.isInCallChain gid = ctx.isInCallChain gid' := by
  unfold isInCallChain
  rw [h]

/-- The context of a handler that is called through handlers of `grains`, the outermost first. -/
def withCallChain (grains : List GrainId) : RequestContext :=
  grains.foldl withCallChainEntry ctx

theorem isInCallChain_withCallChain {grains} :
    (ctx.withCallChain grains).isInCallChain gid = true ↔
      ctx.isInCallChain gid = true ∨ ∃ grain ∈ grains, grain.Names gid := by
  induction grains generalizing ctx with
  | nil => simp [withCallChain]
  | cons grain grains ih =>
    have hcons : ctx.withCallChain (grain :: grains) =
        (ctx.withCallChainEntry grain).withCallChain grains := rfl
    rw [hcons, ih, isInCallChain_withCallChainEntry, exists_mem_cons_iff, or_assoc]

/-- The names that a call chain keeps apart. -/
theorem callChain_exact_iff (grains : List GrainId) :
    (∀ gid, (ctx.withCallChain grains).isInCallChain gid = true ↔
      gid ∈ grains ∨ ctx.isInCallChain gid = true) ↔
    ∀ grain ∈ grains, ',' ∉ grain.entry.toList ∧
      (ctx.isInCallChain grain = true ∨ ∀ gid, gid.entry = grain.entry → gid ∈ grains) := by
  constructor
  · intro hexact grain hgrain
    have hcomma := comma_not_mem_of_isInCallChain _ ((hexact grain).mpr (.inl hgrain))
    refine ⟨hcomma, or_iff_not_imp_left.mpr fun hbefore gid hentry => ?_⟩
    have hnames : grain.Names gid := (names_iff_of_no_comma hcomma).mpr hentry.symm
    have hfound : (ctx.withCallChain grains).isInCallChain gid = true :=
      (isInCallChain_withCallChain ctx).mpr (.inr ⟨grain, hgrain, hnames⟩)
    rcases (hexact gid).mp hfound with hmem | hctx
    · exact hmem
    · exact absurd ((isInCallChain_congr ctx hentry).symm.trans hctx) hbefore
  · intro hnames gid
    rw [isInCallChain_withCallChain]
    constructor
    · rintro (hctx | ⟨grain, hgrain, hgid⟩)
      · exact .inr hctx
      · obtain ⟨hcomma, hall⟩ := hnames grain hgrain
        have hentry := (names_iff_of_no_comma hcomma).mp hgid
        rcases hall with hctx | hall
        · exact .inr ((isInCallChain_congr ctx hentry).symm.trans hctx)
        · exact .inl (hall gid hentry.symm)
    · rintro (hmem | hctx)
      · obtain ⟨hcomma, -⟩ := hnames gid hmem
        exact .inr ⟨gid, hmem, (names_iff_of_no_comma hcomma).mpr rfl⟩
      · exact .inl hctx

/-- A cart whose key has a comma is not found in the chain it was put in. A cart of one type is
found in place of one of another, if the names of the types have slashes. -/
theorem callChain_misreads_names :
    ((∅ : RequestContext).withCallChain [⟨"Cart", "a,b"⟩]).isInCallChain ⟨"Cart", "a,b"⟩ = false ∧
    ((∅ : RequestContext).withCallChain [⟨"Cart", "a/b"⟩]).isInCallChain ⟨"Cart/a", "b"⟩ = true ∧
    (⟨"Cart/a", "b"⟩ : GrainId) ∉ [(⟨"Cart", "a/b"⟩ : GrainId)] := by
  decide +kernel

theorem lookup_withCallChainEntry {key} (h : key ≠ callChainKey) :
    (ctx.withCallChainEntry grain).lookup key = ctx.lookup key :=
  AList.lookup_insert_ne h

end RequestContext

end Orlando
