import Orlando.References
import Orlando.Slots

/-!
# Trees of calls

`CallTree` has a frame for every message put into a mailbox : the grain, the context its handler
runs in, the handler that has sent it, and whether that awaits the reply.

The call chain in a context names the grain of the handler, that of its caller and so on, up to the
first that was called in a bare envelope (`Recorded`, `isInCallChain_iff`). A new call would block
on the grains of the handlers that await the reply, one that of the other (`Waiting`).
-/

namespace Orlando

open List GrainRef RequestContext Option Reference Outgoing

variable {S : Type}

/-- A message that was put into a mailbox. -/
structure Invocation where
  grain : GrainId
  context : RequestContext
  /-- It came in an envelope of `build_ask_envelope`. -/
  recorded : Bool
  caller : Option ℕ

structure Frame extends Invocation where
  awaited : Bool
  finished : Bool

abbrev CallTree := List Frame

inductive TreeEvent where
  | enter (ref : Reference) (method : CallMethod) (m : Outgoing)
  | call (i : ℕ) (ref : Reference) (method : CallMethod) (m : Outgoing)
  /-- The sender of a frame's message does not await the reply any longer. -/
  | giveUp (i : ℕ)
  | finish (i : ℕ)

def CallMethod.waits : CallMethod → Bool
  | ask | tryAsk => true
  | tell => false

/-- The envelope of the reference restores the context of the sender. -/
def Reference.recorded : Reference → Bool
  | .grain _ | .worker _ => true
  | .transactional _ | .journaled _ | .faceted _ => false

namespace CallTree

/-- The message is sent, and if that succeeds there is a new frame. -/
def post (t : CallTree) (ref : Reference) (method : CallMethod) (m : Outgoing)
    (caller : Option ℕ) : Option CallTree :=
  (ref.send m method).map fun sent =>
    match sent.result with
    | .ok context => t ++ [⟨⟨ref.target, context, ref.recorded, caller⟩, method.waits, false⟩]
    | .error _ => t

def afterReturn (i k : ℕ) (f : Frame) : Frame :=
  if k = i then { f with awaited := false, finished := true }
  else if f.caller = some i then { f with awaited := false }
  else f

def step (t : CallTree) : TreeEvent → Option CallTree
  | .enter ref method m =>
    if m.current.callChain = none then t.post ref method m none else none
  | .call i ref method m =>
    match t[i]? with
    | some f =>
      if f.finished then none
      else t.post ref method { m with current := f.context } (some i)
    | none => none
  | .giveUp i =>
    match t[i]? with
    | some f => some (t.set i { f with awaited := false })
    | none => none
  | .finish i =>
    match t[i]? with
    | some f => if f.finished then none else some (t.mapIdx (afterReturn i))
    | none => none

def invocations (t : CallTree) : List Invocation :=
  t.map Frame.toInvocation

/-- The grains whose handlers will not return before a call from frame `i` does. -/
inductive Waiting (t : CallTree) : ℕ → GrainId → Prop
  | self {i f} : t[i]? = some f → Waiting t i f.grain
  | caller {i k f grain} : t[i]? = some f → f.awaited = true →
      f.caller = some k → Waiting t k grain → Waiting t i grain

end CallTree

/-! ## What is recorded -/

/-- The grains that the call chain of the handler of message `i` is made of. -/
inductive Recorded (calls : List Invocation) : ℕ → GrainId → Prop
  | self {i c} : calls[i]? = some c → c.recorded = true →
      Recorded calls i c.grain
  | caller {i k c grain} : calls[i]? = some c →
      c.recorded = true → c.caller = some k → Recorded calls k grain → Recorded calls i grain

/-- The sender of the message runs in the context : code outside has no call chain. -/
def Invocation.SentIn (calls : List Invocation) (current : RequestContext) (c : Invocation) :
    Prop :=
  match c.caller with
  | none => current.callChain = none
  | some k => ∃ d, calls[k]? = some d ∧ current = d.context

/-- The messages of a tree, in the order they were sent. The handler of each runs in the
context of the sender with the grain recorded, or in an empty one. -/
inductive Sends : List Invocation → Prop
  | nil : Sends []
  | snoc {calls c current} : Sends calls →
      c.SentIn calls current →
      c.context = (if c.recorded then current.withCallChainEntry c.grain else ∅) →
      Sends (calls ++ [c])

section Sends

variable {calls : List Invocation} {i k : ℕ} {c : Invocation} {grain gid : GrainId}

theorem recorded_iff (hi : calls[i]? = some c) :
    Recorded calls i grain ↔ c.recorded = true ∧
      (grain = c.grain ∨ ∃ k, c.caller = some k ∧ Recorded calls k grain) := by
  constructor
  · intro h
    cases h with
    | self hi' hrec =>
      cases hi.symm.trans hi'
      exact ⟨hrec, .inl rfl⟩
    | caller hi' hrec hk hgrain =>
      cases hi.symm.trans hi'
      exact ⟨hrec, .inr ⟨_, hk, hgrain⟩⟩
  · rintro ⟨hrec, rfl | ⟨k, hk, hgrain⟩⟩
    · exact .self hi hrec
    · exact .caller hi hrec hk hgrain

theorem Sends.caller_lt (h : Sends calls) :
    ∀ {i k : ℕ} {c : Invocation}, calls[i]? = some c → c.caller = some k → k < i := by
  induction h with
  | nil => exact fun hi => by cases hi
  | @snoc calls c current _ hsent _ ih =>
    intro i k c' hi hk
    rcases getElem?_snoc hi with hi | ⟨rfl, rfl⟩
    · exact ih hi hk
    · simp only [Invocation.SentIn, hk] at hsent
      obtain ⟨d, hd, -⟩ := hsent
      exact lt_of_getElem? hd

theorem Sends.recorded_append (h : Sends calls) (d) (hi : i < calls.length) :
    Recorded (calls ++ [d]) i grain ↔ Recorded calls i grain := by
  induction i using Nat.strong_induction_on with
  | _ i ih =>
    have hat : (calls ++ [d])[i]? = some calls[i] := by
      rw [getElem?_append_left hi, getElem?_eq_getElem hi]
    have hat' := getElem?_eq_getElem hi
    rw [recorded_iff hat, recorded_iff hat']
    refine and_congr_right fun _ => or_congr_right (exists_congr fun k => ?_)
    refine and_congr_right fun hk => ?_
    have hlt := h.caller_lt hat' hk
    exact ih k hlt (hlt.trans hi)

theorem Sends.isInCallChain_iff (h : Sends calls) :
    ∀ {i c}, calls[i]? = some c →
      (c.context.isInCallChain gid = true ↔ ∃ grain, Recorded calls i grain ∧ grain.Names gid) := by
  induction h with
  | nil => exact fun hi => by cases hi
  | @snoc calls c current hsends hsent hcontext ih =>
    intro i c' hi
    rcases getElem?_snoc hi with hi' | ⟨rfl, rfl⟩
    · rw [ih hi']
      simp only [hsends.recorded_append c (lt_of_getElem? hi')]
    · simp only [recorded_iff hi, hcontext]
      cases hrec : c'.recorded with
      | false => simp [isInCallChain_empty]
      | true =>
        have hcurrent : current.isInCallChain gid = true ↔
            ∃ grain, (∃ k, c'.caller = some k ∧ Recorded (calls ++ [c']) k grain) ∧
              grain.Names gid := by
          unfold Invocation.SentIn at hsent
          cases hcaller : c'.caller with
          | none =>
            simp only [hcaller] at hsent
            simp [isInCallChain, hsent]
          | some k =>
            simp only [hcaller] at hsent
            obtain ⟨d, hd, rfl⟩ := hsent
            rw [ih hd]
            simp [hsends.recorded_append c' (lt_of_getElem? hd)]
        simp only [if_true, isInCallChain_withCallChainEntry, hcurrent, true_and]
        constructor
        · rintro (⟨grain, hgrain, hnames⟩ | hnames)
          · exact ⟨grain, .inr hgrain, hnames⟩
          · exact ⟨c'.grain, .inl rfl, hnames⟩
        · rintro ⟨grain, rfl | hgrain, hnames⟩
          · exact .inr hnames
          · exact .inl ⟨grain, hgrain, hnames⟩

end Sends

namespace CallTree

variable {t t' : CallTree} {e : TreeEvent} {method : CallMethod} {ref : Reference} {grain : GrainId}
  {m : Outgoing} {i : ℕ} {f : Frame}

theorem context_of_send {sent context}
    (hsend : ref.send m method = some sent) (hres : sent.result = .ok context) :
    context = if ref.recorded then m.current.withCallChainEntry ref.target else ∅ := by
  cases ref with
  | grain r =>
    rcases filtered_of_send hsend hres with rfl | rfl
    · exact eq_of_send (put_of_filtered hres)
    · exact eq_of_trySend (put_of_filtered hres)
  | _ => cases method <;> cases hsend <;> exact eq_of_send hres

theorem sends_post (h : Sends t.invocations) {caller} (hpost : t.post ref method m caller = some t')
    (hsent : ∀ c : Invocation, c.caller = caller → c.SentIn t.invocations m.current) :
    Sends t'.invocations := by
  obtain ⟨sent, hsend, hs⟩ := map_eq_some_iff.mp hpost
  split at hs
  · rename_i context hresult
    subst hs
    rw [invocations, map_append]
    exact .snoc h (hsent _ rfl) (context_of_send hsend hresult)
  · exact hs ▸ h

theorem toInvocation_afterReturn (i k f) : (afterReturn i k f).toInvocation = f.toInvocation := by
  unfold afterReturn
  split_ifs <;> rfl

theorem invocations_finish (t : CallTree) (i) :
    CallTree.invocations (t.mapIdx (afterReturn i)) = t.invocations := by
  refine ext_getElem? fun k => ?_
  rw [invocations, invocations, getElem?_map, getElem?_map, getElem?_mapIdx, Option.map_map]
  congr 1
  exact funext (toInvocation_afterReturn i k)

theorem invocations_giveUp (hf : t[i]? = some f) :
    CallTree.invocations (t.set i { f with awaited := false }) = t.invocations := by
  refine ext_getElem? fun k => ?_
  rw [invocations, invocations, getElem?_map, getElem?_map, getElem?_set]
  split_ifs with hk hlt
  · subst hk
    rw [hf]
    rfl
  · exact absurd (lt_of_getElem? hf) hlt
  · rfl

theorem getElem?_invocations (hi : t[i]? = some f) : t.invocations[i]? = some f.toInvocation := by
  rw [invocations, getElem?_map, hi]
  rfl

inductive Move (t : CallTree) : TreeEvent → CallTree → Prop
  | enter {ref : Reference} {method m t'} :
      m.current.callChain = none → t.post ref method m none = some t' →
      Move t (.enter ref method m) t'
  | call {i : ℕ} {f ref method m t'} : t[i]? = some f → f.finished = false →
      t.post ref method { m with current := f.context } (some i) = some t' →
      Move t (.call i ref method m) t'
  | giveUp {i : ℕ} {f} : t[i]? = some f →
      Move t (.giveUp i) (t.set i { f with awaited := false })
  | finish (i : ℕ) : Move t (.finish i) (t.mapIdx (afterReturn i))

theorem move_of_step (h : t.step e = some t') : Move t e t' := by
  revert h
  fun_cases step t e <;> intro h <;> try cases h
  next hcurrent => exact .enter hcurrent h
  next hf hfinished => exact .call hf (by simpa using hfinished) h
  next hf => exact .giveUp hf
  next i _ _ _ => exact .finish i

theorem sends_step (h : Sends t.invocations) (hstep : t.step e = some t') :
    Sends t'.invocations := by
  cases move_of_step hstep with
  | enter hcurrent hpost =>
    exact sends_post h hpost fun c hc => by simpa [Invocation.SentIn, hc] using hcurrent
  | @call i f ref method m _ hf _ hpost =>
    refine sends_post h hpost fun c hc => ?_
    simp only [Invocation.SentIn, hc]
    exact ⟨f.toInvocation, getElem?_invocations hf, rfl⟩
  | giveUp hf => rwa [invocations_giveUp hf]
  | finish i => rwa [invocations_finish]

theorem sends_exec {es} (hrun : exec step [] es = some t) : Sends t.invocations := by
  exact exec_invariant_of_step (I := fun t => Sends t.invocations)
    (fun _ _ _ h hstep => sends_step h hstep) .nil hrun

/-! ## Cycles -/

theorem Waiting.recorded (hall : ∀ c ∈ t.invocations, c.recorded = true) (h : Waiting t i grain) :
    Recorded t.invocations i grain := by
  induction h with
  | self hi =>
    have hc := getElem?_invocations hi
    exact .self hc (hall _ (mem_of_getElem? hc))
  | caller hi _ hk _ ih =>
    have hc := getElem?_invocations hi
    exact .caller hc (hall _ (mem_of_getElem? hc)) hk ih

/-- A call that closes a cycle of waiting handlers is found out exactly if it is an `ask` of a
`GrainRef` whose own id is recorded. -/
theorem cycle_detected_iff (es : List TreeEvent) (t : CallTree)
    (hrun : exec step [] es = some t) (i : ℕ) (f : Frame) (hi : t[i]? = some f) (m : Outgoing)
    (hcurrent : m.current = f.context) (ref : Reference) (method : CallMethod) (sent : Sent)
    (hsend : ref.send m method = some sent) (hcycle : Waiting t i ref.target) :
    (sent.Deadlock ↔ method = .ask ∧ ∃ r, ref = .grain r ∧
      ∃ grain, Recorded t.invocations i grain ∧ grain.Names r.grainId) ∧
    (method = .ask → (∃ r, ref = .grain r ∧ r.grainId = r.target) →
      ',' ∉ ref.target.entry.toList → (∀ c ∈ t.invocations, c.recorded = true) →
      sent.Deadlock) := by
  have hchain : ∀ gid, m.current.isInCallChain gid = true ↔
      ∃ grain, Recorded t.invocations i grain ∧ grain.Names gid := by
    intro gid
    rw [hcurrent]
    exact (sends_exec hrun).isInCallChain_iff (getElem?_invocations hi)
  have hiff := deadlock_iff hsend
  simp only [hchain] at hiff
  refine ⟨hiff, fun hask ⟨r, hr, hid⟩ hcomma hall => ?_⟩
  subst hr
  refine hiff.mpr ⟨hask, r, rfl, r.target, hcycle.recorded hall, ?_⟩
  rw [hid]
  exact (GrainId.names_iff_of_no_comma hcomma).mpr rfl

def exampleRef (method : SiloMethod) (name : String) : Reference :=
  (RefSource.silo method (exampleType name) "k").reference []

def orderFrame : Frame :=
  ⟨⟨⟨"Order", "k"⟩, (∅ : RequestContext).withCallChainEntry ⟨"Order", "k"⟩, true, none⟩, true,
    false⟩

def paymentFrame : Frame :=
  ⟨⟨⟨"Payment", "k"⟩, orderFrame.context.withCallChainEntry ⟨"Payment", "k"⟩, true, some 0⟩, true,
    false⟩

def orderPays : List TreeEvent :=
  [.enter (exampleRef .getRef "Order") .ask openDoor,
    .call 0 (exampleRef .getRef "Payment") .ask openDoor]

theorem exec_orderPays : exec step [] orderPays = some [orderFrame, paymentFrame] :=
  rfl

theorem waiting_order (f) : Waiting [orderFrame, f] 0 ⟨"Order", "k"⟩ := by
  have horder : [orderFrame, f][0]? = some orderFrame := rfl
  exact .self horder

theorem cycle_detected_iff_order :
    ∃ sent, (exampleRef .getRef "Order").send { openDoor with current := paymentFrame.context }
      .ask = some sent ∧ sent.Deadlock := by
  refine ⟨_, rfl, (cycle_detected_iff _ _ exec_orderPays 1 paymentFrame rfl _ rfl
    (exampleRef .getRef "Order") .ask _ rfl (.caller rfl rfl rfl (waiting_order _))).2 rfl
    ⟨_, rfl, rfl⟩ (by decide) ?_⟩
  simp [invocations, orderFrame, paymentFrame]

/-- The order asks for a transactional payment, whose handler asks for the order : it waits for
the payment, and the message is put into its mailbox. -/
theorem transactional_cycle_missed :
    ∃ f context, exec step [] [.enter (exampleRef .getRef "Order") .ask openDoor,
        .call 0 (exampleRef .transactionalGetRef "Payment") .ask openDoor] = some [orderFrame, f] ∧
      Waiting [orderFrame, f] 1 ⟨"Order", "k"⟩ ∧
      ((exampleRef .getRef "Order").send { openDoor with current := f.context } .ask).map
        Sent.result = some (.ok context) := by
  exact ⟨⟨⟨⟨"app::Payment", "k"⟩, ∅, false, some 0⟩, true, false⟩, _, rfl,
    .caller rfl rfl rfl (waiting_order _), rfl⟩

/-! ## Calls turned down -/

def Direct (ref : Reference) : Prop :=
  ∃ gid filters, ref = .grain (.withId gid filters) ∧ gid.Plain

/-- Handlers send by `ask` and `try_ask` only, nobody gives up waiting, and no handler returns
before its calls have. -/
def Calm (t : CallTree) : TreeEvent → Prop
  | .enter ref _ _ => Direct ref
  | .call _ ref method _ => Direct ref ∧ method.waits = true
  | .giveUp _ => False
  | .finish i => ∀ f ∈ t, f.caller = some i → f.awaited = false

/-- The handlers at work have plain names, and callers at work that await their reply. -/
def AllAwaited (t : CallTree) : Prop :=
  ∀ (i : ℕ) (f : Frame), t[i]? = some f → f.finished = false → f.grain.Plain ∧
    ∀ k, f.caller = some k → f.awaited = true ∧ ∃ g : Frame, t[k]? = some g ∧ g.finished = false

section

variable (h : t.AllAwaited)
include h

theorem AllAwaited.post {ref method m caller}
    (hpost : t.post ref method m caller = some t') (hdirect : Direct ref)
    (hcaller : ∀ k, caller = some k → method.waits = true ∧ ∃ g, t[k]? = some g ∧
      g.finished = false) : t'.AllAwaited := by
  obtain ⟨sent, hsend, hs⟩ := map_eq_some_iff.mp hpost
  split at hs
  · subst hs
    have hkeeps : ∀ {k g d}, t[k]? = some g → (t ++ [d])[k]? = some g :=
      fun hk => getElem?_append_left (lt_of_getElem? hk) ▸ hk
    intro i f hi hfinished
    rcases getElem?_snoc hi with hi | ⟨rfl, rfl⟩
    · obtain ⟨hplain, hf⟩ := h i f hi hfinished
      refine ⟨hplain, fun k hk => ?_⟩
      obtain ⟨hawaited, g, hg, hg'⟩ := hf k hk
      exact ⟨hawaited, g, hkeeps hg, hg'⟩
    · obtain ⟨gid, filters, rfl, hplain⟩ := hdirect
      refine ⟨hplain, fun k hk => ?_⟩
      obtain ⟨hwaits, g, hg, hg'⟩ := hcaller k hk
      exact ⟨hwaits, g, hkeeps hg, hg'⟩
  · exact hs ▸ h

theorem AllAwaited.finish {i} (hcalm : ∀ f ∈ t, f.caller = some i → f.awaited = false) :
    CallTree.AllAwaited (t.mapIdx (afterReturn i)) := by
  intro k f' hk hfin
  rw [getElem?_mapIdx, map_eq_some_iff] at hk
  obtain ⟨f, hf, rfl⟩ := hk
  have hki : k ≠ i := by
    rintro rfl
    simp [afterReturn] at hfin
  have hold : f.finished = false := by
    unfold afterReturn at hfin
    split_ifs at hfin <;> exact hfin
  obtain ⟨hplain, hcallers⟩ := h k f hf hold
  -- The caller of a frame at work awaits its reply, so it is not the one that returns.
  have hother : f.caller ≠ some i := by
    intro hcaller
    have haw := (hcallers i hcaller).1
    rw [hcalm f (mem_of_getElem? hf) hcaller] at haw
    cases haw
  have hsame : afterReturn i k f = f := by simp [afterReturn, hki, hother]
  rw [hsame]
  refine ⟨hplain, fun j hj => ?_⟩
  obtain ⟨haw, g, hg, hg'⟩ := hcallers j hj
  have hji : j ≠ i := by
    rintro rfl
    exact hother hj
  refine ⟨haw, afterReturn i j g, by rw [getElem?_mapIdx, hg]; rfl, ?_⟩
  unfold afterReturn
  split_ifs
  · exact absurd ‹j = i› hji
  · exact hg'
  · exact hg'

theorem AllAwaited.step (hcalm : t.Calm e) (hstep : t.step e = some t') : t'.AllAwaited := by
  cases move_of_step hstep with
  | enter _ hpost => exact h.post hpost hcalm nofun
  | @call i f ref method m _ hf hfinished hpost =>
    refine h.post hpost hcalm.1 fun k hk => ?_
    cases hk
    exact ⟨hcalm.2, f, hf, hfinished⟩
  | giveUp => exact hcalm.elim
  | finish i => exact h.finish hcalm

theorem AllAwaited.waiting {i grain} (hrec : Recorded t.invocations i grain) :
    ∀ {f}, t[i]? = some f → f.finished = false → Waiting t i grain ∧ grain.Plain := by
  induction hrec with
  | self hc _ =>
    intro f hf hfin
    cases hc.symm.trans (getElem?_invocations hf)
    exact ⟨.self hf, (h _ f hf hfin).1⟩
  | caller hc _ hk _ ih =>
    intro f hf hfin
    cases hc.symm.trans (getElem?_invocations hf)
    obtain ⟨hawaited, g, hg, hg'⟩ := (h _ f hf hfin).2 _ hk
    obtain ⟨hwaiting, hplain⟩ := ih hg hg'
    exact ⟨.caller hf hawaited hk hwaiting, hplain⟩

end

/-- In a run without tells and given up calls an `ask` is turned down only if its target waits for
it. In any run that is so exactly if every recorded grain is waiting. -/
theorem deadlock_justified_iff (es : List TreeEvent) (t : CallTree)
    (hrun : exec step [] es = some t) (i : ℕ) (f : Frame) (hi : t[i]? = some f) :
    (Along step Calm [] es → f.finished = false →
      ∀ (m : Outgoing) (gid : GrainId) (filters : FilterChain), m.current = f.context →
        gid.Plain → ((withId gid filters).ask m).Deadlock → Waiting t i gid) ∧
    ((∀ (m : Outgoing) (gid : GrainId) (filters : FilterChain), m.current = f.context →
        ((withId gid filters).ask m).Deadlock → Waiting t i gid) ↔
      ∀ grain gid, Recorded t.invocations i grain → grain.Names gid → Waiting t i gid) := by
  have hdeadlock : ∀ m gid filters,
      m.current = f.context → (((withId gid filters).ask m).Deadlock ↔
        ∃ grain, Recorded t.invocations i grain ∧ grain.Names gid) := by
    intro m gid filters hcurrent
    have hsend : send m (.grain (.withId gid filters)) .ask =
        some ((withId gid filters).ask m) := rfl
    rw [← (sends_exec hrun).isInCallChain_iff (getElem?_invocations hi), ← hcurrent,
      deadlock_iff hsend]
    refine ⟨fun ⟨_, r, hr, hchain⟩ => ?_, fun hchain => ⟨rfl, _, rfl, hchain⟩⟩
    cases hr
    exact hchain
  refine ⟨?_, fun h grain gid hrec hnames => ?_, fun h m gid filters hcurrent hd => ?_⟩
  · intro hcalm hfinished m gid filters hcurrent hplain hd
    obtain ⟨grain, hrec, hnames⟩ := (hdeadlock m gid filters hcurrent).mp hd
    have hnil : CallTree.AllAwaited [] := fun _ _ hnone => by cases hnone
    have hall := exec_invariant (fun _ _ _ hcalm h hstep => AllAwaited.step h hcalm hstep) hnil
      hcalm hrun
    obtain ⟨hwaiting, hgrain⟩ := hall.waiting hrec hi hfinished
    exact GrainId.eq_of_names hgrain hplain hnames ▸ hwaiting
  · exact h ⟨"", 0, f.context, false, false⟩ gid [] rfl
      ((hdeadlock _ gid [] rfl).mpr ⟨grain, hrec, hnames⟩)
  · obtain ⟨grain, hrec, hnames⟩ := (hdeadlock m gid filters hcurrent).mp hd
    exact h grain gid hrec hnames

theorem deadlock_justified_iff_order :
    ((withId ⟨"Order", "k"⟩ []).ask
        { openDoor with current := paymentFrame.context }).Deadlock ∧
      Waiting [orderFrame, paymentFrame] 1 ⟨"Order", "k"⟩ := by
  have hdeadlock : ((withId ⟨"Order", "k"⟩ []).ask
      { openDoor with current := paymentFrame.context }).Deadlock := ⟨_, rfl⟩
  have hdirect : ∀ name, (⟨name, "k"⟩ : GrainId).Plain → Direct (exampleRef .getRef name) :=
    fun name hplain => ⟨⟨name, "k"⟩, [], rfl, hplain⟩
  have hcalm : Along step Calm [] orderPays :=
    ⟨hdirect "Order" (by decide), fun _ _ => ⟨⟨hdirect "Payment" (by decide), rfl⟩,
      fun _ _ => trivial⟩⟩
  exact ⟨hdeadlock, (deadlock_justified_iff _ _ exec_orderPays 1 paymentFrame rfl).1 hcalm rfl _ _
    [] rfl (by decide) hdeadlock⟩

theorem waiting_iff (hi : t[i]? = some f) :
    Waiting t i grain ↔
      grain = f.grain ∨ f.awaited = true ∧ ∃ k, f.caller = some k ∧ Waiting t k grain := by
  constructor
  · intro h
    cases h with
    | self hi' =>
      cases hi.symm.trans hi'
      exact .inl rfl
    | caller hi' haw hk hgrain =>
      cases hi.symm.trans hi'
      exact .inr ⟨haw, _, hk, hgrain⟩
  · rintro (rfl | ⟨haw, k, hk, hgrain⟩)
    · exact .self hi
    · exact .caller hi haw hk hgrain

/-- The order tells a payment of itself and returns. When the payment asks for the order, it is
turned down, though the order is not waiting. -/
theorem tell_turned_down :
    ∃ f g, exec step [] [.enter (exampleRef .getRef "Order") .ask openDoor,
        .call 0 (exampleRef .getRef "Payment") .tell openDoor, .finish 0] = some [f, g] ∧
      f.finished = true ∧ g.finished = false ∧
      ((withId ⟨"Order", "k"⟩ []).ask { openDoor with current := g.context }).Deadlock ∧
      ¬Waiting [f, g] 1 ⟨"Order", "k"⟩ := by
  refine ⟨{ orderFrame with awaited := false, finished := true },
    { paymentFrame with awaited := false }, rfl, rfl, rfl, ⟨_, rfl⟩, ?_⟩
  rw [waiting_iff rfl]
  rintro (h | ⟨h, -⟩)
  · exact absurd h (by decide)
  · cases h

end CallTree

end Orlando
