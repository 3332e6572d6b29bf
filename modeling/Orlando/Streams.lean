import Orlando.Counter
import Orlando.Slots
import Orlando.Transition

/-!
# Streams between grains

`StreamProducer` numbers the items it sends and hands them to an `ObserverSet`, which tries to put
each into the mailbox of every subscriber. `notify` drops a subscriber whose mailbox is closed and
calls `try_send` for the others, while consumers and other senders work on the mailboxes.
-/

namespace Orlando

open List Option Function

variable {T : Type}

/-! ## Mailboxes of consumers -/

structure StreamItem (T : Type) where
  streamName : String
  item : T
  sequence : UInt64
deriving DecidableEq

/-- A message to a consumer : an item, with the subscription that put it there, or another one. -/
inductive Letter (T : Type) where
  | item (subscription : ℕ) (x : StreamItem T)
  | other
deriving DecidableEq

def Letter.itemOf (k : ℕ) : Letter T → Option (StreamItem T)
  | .item subscription x => if subscription = k then some x else none
  | .other => none

structure StreamMailbox (T : Type) where
  capacity : ℕ
  queue : List (Letter T)
  reserved : ℕ
  closed : Bool
  /-- What was ever put into it, oldest first. -/
  posted : List (Letter T)
deriving DecidableEq

inductive MailboxAct where
  | recv
  | close
  | reserve
  | post
  | release

namespace StreamMailbox

variable (m : StreamMailbox T)

def empty (capacity : ℕ) : StreamMailbox T where
  capacity := capacity
  queue := []
  reserved := 0
  closed := false
  posted := []

def hasRoom : Bool :=
  !m.closed && m.queue.length + m.reserved < m.capacity

def trySend (l : Letter T) : Option (StreamMailbox T) :=
  if m.closed then none
  else if m.capacity ≤ m.queue.length + m.reserved then none
  else some { m with queue := m.queue ++ [l], posted := m.posted ++ [l] }

def act : MailboxAct → Option (StreamMailbox T)
  | .recv =>
    match m.queue with
    | _ :: queue => some { m with queue := queue }
    | [] => none
  | .close => some { m with closed := true }
  | .reserve => if m.hasRoom then some { m with reserved := m.reserved + 1 } else none
  | .post =>
    if 0 < m.reserved then
      some { m with
        reserved := m.reserved - 1
        queue := m.queue ++ [.other]
        posted := m.posted ++ [.other] }
    else none
  | .release => if 0 < m.reserved then some { m with reserved := m.reserved - 1 } else none

def received (k : ℕ) : List (StreamItem T) :=
  m.posted.filterMap (Letter.itemOf k)

variable {m} {m' : StreamMailbox T}

theorem trySend_eq (l) : m.trySend l =
    if m.hasRoom then some { m with queue := m.queue ++ [l], posted := m.posted ++ [l] }
    else none := by
  unfold trySend hasRoom
  cases m.closed with
  | true => rfl
  | false =>
    by_cases hfull : m.capacity ≤ m.queue.length + m.reserved
    · simp [hfull]
    · simp [hfull, Nat.lt_of_not_le hfull]

theorem received_of_act {a} (h : m.act a = some m') :
    (∀ k, m'.received k = m.received k) ∧ (m.closed = true → m'.closed = true) := by
  revert h
  fun_cases act m a <;> intro h <;> cases h
  next => exact ⟨fun _ => rfl, id⟩
  next => exact ⟨fun _ => rfl, fun _ => rfl⟩
  next => exact ⟨fun _ => rfl, id⟩
  next => exact ⟨fun k => by simp [received, Letter.itemOf], id⟩
  next => exact ⟨fun _ => rfl, id⟩

theorem received_snoc {x j} (h : m'.posted = m.posted ++ [.item j x]) (k) :
    m'.received k = m.received k ++ if j = k then [x] else [] := by
  rw [received, h, filterMap_append, received]
  by_cases hjk : j = k <;> simp [Letter.itemOf, hjk]

end StreamMailbox

/-! ## Subscribers -/

structure Subscriber where
  id : UInt64
  sender : ℕ
  num : ℕ
deriving DecidableEq

structure ObserverSet where
  subscribers : List Subscriber
  nextId : UInt64

namespace ObserverSet

def new : ObserverSet where
  subscribers := []
  nextId := 0

def subscribe (o : ObserverSet) (sender num : ℕ) : UInt64 × ObserverSet :=
  (o.nextId, ⟨o.subscribers ++ [⟨o.nextId, sender, num⟩], o.nextId + 1⟩)

def unsubscribe (o : ObserverSet) (id : UInt64) : Bool × ObserverSet :=
  let kept := o.subscribers.filter (·.id ≠ id)
  (kept.length < o.subscribers.length, { o with subscribers := kept })

end ObserverSet

structure StreamProducer where
  name : String
  observers : ObserverSet
  sequence : UInt64

def StreamProducer.new (name : String) : StreamProducer where
  name := name
  observers := .new
  sequence := 0

/-- A `notify` under way : the subscribers that it has passed and kept, and those it has yet to
pass, the first of which may have been found open. -/
structure Notifying (T : Type) where
  item : StreamItem T
  kept : List Subscriber
  checked : Bool
  rest : List Subscriber

structure Subscription (T : Type) where
  id : UInt64
  sender : ℕ
  unsubscribed : Bool
  pruned : Bool
  sent : List (StreamItem T)
  /-- The items that have come to it, and whether its mailbox had room for them then. -/
  offers : List (StreamItem T × Bool)
deriving DecidableEq

namespace Subscription

def live (sub : Subscription T) : Bool :=
  !sub.unsubscribed && !sub.pruned

def taken (sub : Subscription T) : List (StreamItem T) :=
  (sub.offers.filter Prod.snd).map Prod.fst

def addSent (x : StreamItem T) (sub : Subscription T) : Subscription T :=
  if sub.live then { sub with sent := sub.sent ++ [x] } else sub

def addOffer (x : StreamItem T) (room : Bool) (sub : Subscription T) : Subscription T :=
  { sub with offers := sub.offers ++ [(x, room)] }

def prune (x : StreamItem T) (room : Bool) (sub : Subscription T) : Subscription T :=
  { sub with pruned := true, offers := sub.offers ++ [(x, room)] }

end Subscription

structure StreamRun (T : Type) where
  producer : StreamProducer
  mailboxes : List (StreamMailbox T)
  notifying : Option (Notifying T)
  sent : List (StreamItem T)
  subscriptions : List (Subscription T)

inductive StreamEvent (T : Type) where
  | create (capacity : ℕ)
  | mailbox (i : ℕ) (a : MailboxAct)
  | subscribe (sender : ℕ)
  | unsubscribe (id : UInt64)
  | send (item : T)
  /-- `notify` asks whether the next mailbox is closed. -/
  | check
  | trySend
  | finish

namespace StreamRun

def init (name : String) : StreamRun T where
  producer := .new name
  mailboxes := []
  notifying := none
  sent := []
  subscriptions := []

variable (s : StreamRun T)

/-- One step. The producer belongs to one grain, so its methods exclude each other. -/
def step : StreamEvent T → Option (StreamRun T)
  | .create capacity => some { s with mailboxes := s.mailboxes ++ [.empty capacity] }
  | .mailbox i a =>
    match s.mailboxes[i]? with
    | some m => (m.act a).map fun m' => { s with mailboxes := s.mailboxes.set i m' }
    | none => none
  | .subscribe sender =>
    if s.notifying.isNone ∧ sender < s.mailboxes.length then
      let r := s.producer.observers.subscribe sender s.subscriptions.length
      some { s with
        producer := { s.producer with observers := r.2 }
        subscriptions := s.subscriptions ++ [⟨r.1, sender, false, false, [], []⟩] }
    else none
  | .unsubscribe id =>
    if s.notifying.isNone then
      some { s with
        producer := { s.producer with observers := (s.producer.observers.unsubscribe id).2 }
        subscriptions := s.subscriptions.map fun sub =>
          if sub.id = id then { sub with unsubscribed := true } else sub }
    else none
  | .send item =>
    if s.notifying.isNone then
      let x : StreamItem T := ⟨s.producer.name, item, s.producer.sequence⟩
      some { s with
        producer := { s.producer with sequence := s.producer.sequence + 1 }
        notifying := some ⟨x, [], false, s.producer.observers.subscribers⟩
        sent := s.sent ++ [x]
        subscriptions := s.subscriptions.map (Subscription.addSent x) }
    else none
  | .check =>
    match s.notifying with
    | some ⟨x, kept, false, sub :: rest⟩ =>
      match s.mailboxes[sub.sender]? with
      | some m =>
        if m.closed then
          some { s with
            notifying := some ⟨x, kept, false, rest⟩
            subscriptions := s.subscriptions.modify sub.num (Subscription.prune x m.hasRoom) }
        else some { s with notifying := some ⟨x, kept, true, sub :: rest⟩ }
      | none => none
    | _ => none
  | .trySend =>
    match s.notifying with
    | some ⟨x, kept, true, sub :: rest⟩ =>
      match s.mailboxes[sub.sender]? with
      | some m =>
        some { s with
          mailboxes := s.mailboxes.set sub.sender ((m.trySend (.item sub.num x)).getD m)
          notifying := some ⟨x, kept ++ [sub], false, rest⟩
          subscriptions := s.subscriptions.modify sub.num (Subscription.addOffer x m.hasRoom) }
      | none => none
    | _ => none
  | .finish =>
    match s.notifying with
    | some ⟨_, kept, false, []⟩ =>
      some { s with
        producer := { s.producer with
          observers := { s.producer.observers with subscribers := kept } }
        notifying := none }
    | _ => none

def active : List Subscriber :=
  match s.notifying with
  | none => s.producer.observers.subscribers
  | some n => n.kept ++ n.rest

def pending (k : ℕ) : List (StreamItem T) :=
  match s.notifying with
  | none => []
  | some n => if k ∈ n.rest.map Subscriber.num then [n.item] else []

inductive Move : StreamEvent T → StreamRun T → Prop
  | create (capacity : ℕ) :
    Move (.create capacity) { s with mailboxes := s.mailboxes ++ [.empty capacity] }
  | mailbox {i a m m'} (hi : s.mailboxes[i]? = some m) (ha : m.act a = some m') :
    Move (.mailbox i a) { s with mailboxes := s.mailboxes.set i m' }
  | subscribe {sender} (hn : s.notifying = none) (hlt : sender < s.mailboxes.length) :
    Move (.subscribe sender) { s with
      producer := { s.producer with
        observers := (s.producer.observers.subscribe sender s.subscriptions.length).2 }
      subscriptions := s.subscriptions ++
        [⟨s.producer.observers.nextId, sender, false, false, [], []⟩] }
  | unsubscribe (id : UInt64) (hn : s.notifying = none) :
    Move (.unsubscribe id) { s with
      producer := { s.producer with observers := (s.producer.observers.unsubscribe id).2 }
      subscriptions := s.subscriptions.map fun sub =>
        if sub.id = id then { sub with unsubscribed := true } else sub }
  | send {item x} (hn : s.notifying = none)
    (hx : x = ⟨s.producer.name, item, s.producer.sequence⟩) :
    Move (.send item) { s with
      producer := { s.producer with sequence := s.producer.sequence + 1 }
      notifying := some ⟨x, [], false, s.producer.observers.subscribers⟩
      sent := s.sent ++ [x]
      subscriptions := s.subscriptions.map (Subscription.addSent x) }
  | pruned {x kept rest sub m} (hn : s.notifying = some ⟨x, kept, false, sub :: rest⟩)
    (hm : s.mailboxes[sub.sender]? = some m) (hc : m.closed = true) :
    Move .check { s with
      notifying := some ⟨x, kept, false, rest⟩
      subscriptions := s.subscriptions.modify sub.num (Subscription.prune x m.hasRoom) }
  | passed {x kept rest sub} (hn : s.notifying = some ⟨x, kept, false, sub :: rest⟩) :
    Move .check { s with notifying := some ⟨x, kept, true, sub :: rest⟩ }
  | trySend {x kept rest sub m} (hn : s.notifying = some ⟨x, kept, true, sub :: rest⟩)
    (hm : s.mailboxes[sub.sender]? = some m) :
    Move .trySend { s with
      mailboxes := s.mailboxes.set sub.sender ((m.trySend (.item sub.num x)).getD m)
      notifying := some ⟨x, kept ++ [sub], false, rest⟩
      subscriptions := s.subscriptions.modify sub.num (Subscription.addOffer x m.hasRoom) }
  | finish {x kept} (hn : s.notifying = some ⟨x, kept, false, []⟩) :
    Move .finish { s with
      producer := { s.producer with observers := { s.producer.observers with subscribers := kept } }
      notifying := none }

variable {s} {s' : StreamRun T} {e : StreamEvent T} {n : Notifying T}

theorem move_of_step (h : s.step e = some s') : Move s e s' := by
  revert h
  fun_cases step s e <;> intro h <;>
    first | cases h | obtain rfl := some.inj h | skip
  next capacity => exact .create capacity
  next hm =>
    obtain ⟨m', ha, rfl⟩ := map_eq_some_iff.mp h
    exact .mailbox hm ha
  next hif _ => exact .subscribe (isNone_iff_eq_none.mp hif.1) hif.2
  next id hn => exact .unsubscribe id (isNone_iff_eq_none.mp hn)
  next hn _ => exact .send (isNone_iff_eq_none.mp hn) rfl
  next hs _ hm hc => exact .pruned hs hm hc
  next hs _ _ _ => exact .passed hs
  next hs _ hm => exact .trySend hs hm
  next hs => exact .finish hs

/-! ## The numbers of items and subscriptions -/

structure Counts (s : StreamRun T) : Prop where
  items : s.sent.map StreamItem.sequence = counted s.sent.length
  sequence : s.producer.sequence = UInt64.ofNat s.sent.length
  ids : s.subscriptions.map Subscription.id = counted s.subscriptions.length
  nextId : s.producer.observers.nextId = UInt64.ofNat s.subscriptions.length

theorem counts_init (name) : (init name : StreamRun T).Counts where
  items := rfl
  sequence := rfl
  ids := rfl
  nextId := rfl

theorem Counts.of_ids (h : s.Counts) (hsent : s'.sent = s.sent)
    (hseq : s'.producer.sequence = s.producer.sequence)
    (hids : s'.subscriptions.map Subscription.id = s.subscriptions.map Subscription.id)
    (hnext : s'.producer.observers.nextId = s.producer.observers.nextId) : s'.Counts := by
  have hl : s'.subscriptions.length = s.subscriptions.length := by
    simpa using congrArg length hids
  exact ⟨hsent ▸ h.items, hsent ▸ hseq ▸ h.sequence, hids ▸ hl ▸ h.ids, hnext ▸ hl ▸ h.nextId⟩

theorem Counts.step (h : s.Counts) (hmove : Move s e s') : s'.Counts := by
  cases hmove with
  | subscribe =>
    refine ⟨h.items, h.sequence, ?_, ?_⟩
    · simp only [map_append, map_singleton, length_append, length_singleton]
      rw [h.ids, counted_succ, h.nextId]
    · simp only [ObserverSet.subscribe, length_append, length_singleton]
      rw [h.nextId, ofNat_succ]
  | unsubscribe id =>
    refine h.of_ids rfl rfl ?_ rfl
    rw [List.map_map]
    refine map_congr_left fun sub _ => ?_
    simp only [comp_apply]
    split_ifs <;> rfl
  | @send item x hn hx =>
    have hids : (s.subscriptions.map (Subscription.addSent x)).map Subscription.id =
        s.subscriptions.map Subscription.id := by
      rw [List.map_map]
      refine map_congr_left fun sub _ => ?_
      simp only [comp_apply, Subscription.addSent]
      split_ifs <;> rfl
    refine ⟨?_, ?_, ?_, ?_⟩
    · simp only [map_append, map_singleton, List.length_append, List.length_singleton]
      rw [h.items, counted_succ, hx, h.sequence]
    · simp only [List.length_append, List.length_singleton]
      rw [h.sequence, ofNat_succ]
    · rw [hids, h.ids, List.length_map]
    · rw [List.length_map]
      exact h.nextId
  | pruned | trySend => exact h.of_ids rfl rfl (map_modify_of_eq fun _ => rfl) rfl
  | _ => exact h.of_ids rfl rfl rfl rfl

/-! ## What becomes of an item -/

structure Follows (s : StreamRun T) (k : ℕ) (sub : Subscription T) : Prop where
  active : sub.live = true ↔ k ∈ s.active.map Subscriber.num
  mailbox : ∃ m, s.mailboxes[sub.sender]? = some m ∧ m.received k = sub.taken ∧
    (sub.pruned = true → m.closed = true)
  offered : sub.sent = sub.offers.map Prod.fst ++ s.pending k
  sublist : sub.sent.Sublist s.sent

structure Inv (s : StreamRun T) : Prop where
  nums : (s.active.map Subscriber.num).Nodup
  known : ∀ x ∈ s.active, ∃ sub, s.subscriptions[x.num]? = some sub ∧ sub.id = x.id ∧
    sub.sender = x.sender
  follows : ∀ k sub, s.subscriptions[k]? = some sub → s.Follows k sub
  fresh : ∀ m ∈ s.mailboxes, ∀ k, s.subscriptions.length ≤ k → m.received k = []

def SameItems (k : ℕ) (ms ms' : List (StreamMailbox T)) : Prop :=
  ∀ (i : ℕ) (m : StreamMailbox T), ms[i]? = some m → ∃ m' : StreamMailbox T, ms'[i]? = some m' ∧
    m'.received k = m.received k ∧ (m.closed = true → m'.closed = true)

theorem SameItems.refl (k) (ms : List (StreamMailbox T)) : SameItems k ms ms :=
  fun _ m hm => ⟨m, hm, rfl, id⟩

theorem SameItems.snoc (k) (ms) (m : StreamMailbox T) : SameItems k ms (ms ++ [m]) :=
  fun _ m' hm => ⟨m', getElem?_snoc_of_some hm, rfl, id⟩

theorem SameItems.set {k j} {ms} {m m' : StreamMailbox T}
    (hj : ms[j]? = some m) (hrec : m'.received k = m.received k)
    (hclosed : m.closed = true → m'.closed = true) : SameItems k ms (ms.set j m') := by
  intro i u hu
  rw [getElem?_set_of_some hj]
  split_ifs with hij
  · subst hij
    cases hj.symm.trans hu
    exact ⟨m', rfl, hrec, hclosed⟩
  · exact ⟨u, hu, rfl, id⟩

theorem Follows.frame {k sub} (h : s.Follows k sub)
    (hact : k ∈ s'.active.map Subscriber.num ↔ k ∈ s.active.map Subscriber.num)
    (hmail : SameItems k s.mailboxes s'.mailboxes) (hpend : s'.pending k = s.pending k)
    (hsent : s.sent.Sublist s'.sent) : s'.Follows k sub where
  active := h.active.trans hact.symm
  mailbox := by
    obtain ⟨m, hm, hrec, hclosed⟩ := h.mailbox
    obtain ⟨m', hm', hrec', hclosed'⟩ := hmail _ m hm
    exact ⟨m', hm', hrec'.trans hrec, fun hp => hclosed' (hclosed hp)⟩
  offered := hpend ▸ h.offered
  sublist := h.sublist.trans hsent

theorem inv_init (name) : (init name : StreamRun T).Inv where
  nums := .nil
  known _ hx := by cases hx
  follows _ _ hk := by cases hk
  fresh _ hm := by cases hm

theorem Inv.change (h : s.Inv) (hact : s'.active.Sublist s.active)
    (hsubs : s'.subscriptions.map (fun sub => (sub.id, sub.sender)) =
      s.subscriptions.map fun sub => (sub.id, sub.sender))
    (hfresh : ∀ m ∈ s'.mailboxes, ∀ k, s.subscriptions.length ≤ k → m.received k = [])
    (hfol : ∀ k sub, s'.subscriptions[k]? = some sub → s'.Follows k sub) : s'.Inv where
  nums := h.nums.sublist (hact.map _)
  known x hx := by
    obtain ⟨sub, hsub, hid, hsender⟩ := h.known x (hact.subset hx)
    have hg := congrArg (·[x.num]?) hsubs
    simp only [getElem?_map, hsub, map_some, hid, hsender] at hg
    obtain ⟨sub', hsub', heq⟩ := map_eq_some_iff.mp hg
    exact ⟨sub', hsub', Prod.mk.inj heq⟩
  follows := hfol
  fresh := by
    have hl := congrArg length hsubs
    rw [length_map, length_map] at hl
    rwa [hl]

theorem Inv.frame (h : s.Inv) (hact : s'.active = s.active)
    (hsubs : s'.subscriptions = s.subscriptions) (hmail : ∀ k, SameItems k s.mailboxes s'.mailboxes)
    (hfresh : ∀ m ∈ s'.mailboxes, ∀ k, s.subscriptions.length ≤ k → m.received k = [])
    (hpend : s'.pending = s.pending) (hsent : s'.sent = s.sent) : s'.Inv :=
  h.change (hact ▸ .refl _) (by rw [hsubs]) hfresh fun k sub hk =>
    (h.follows k sub (hsubs ▸ hk)).frame (by rw [hact]) (hmail k) (by rw [hpend]) (hsent ▸ .refl _)

theorem active_of_none (hn : s.notifying = none) :
    s.active = s.producer.observers.subscribers := by
  rw [active, hn]

theorem active_of_some (hn : s.notifying = some n) : s.active = n.kept ++ n.rest := by
  rw [active, hn]

theorem pending_of_none (hn : s.notifying = none) (k) : s.pending k = [] := by
  rw [pending, hn]

theorem pending_of_some (hn : s.notifying = some n) (k) :
    s.pending k = if k ∈ n.rest.map Subscriber.num then [n.item] else [] := by
  rw [pending, hn]

theorem Inv.num_lt (h : s.Inv) {x} (hx : x ∈ s.active) : x.num < s.subscriptions.length := by
  obtain ⟨sub, hsub, -⟩ := h.known x hx
  exact lt_of_getElem? hsub

theorem Inv.subscribe (h : s.Inv) {sender} (hmove : Move s (.subscribe sender) s') : s'.Inv := by
  cases hmove with | subscribe hn hlt =>
  have hact := active_of_none hn
  have hfresh : s.subscriptions.length ∉ s.active.map Subscriber.num := by
    intro hmem
    obtain ⟨x, hx, hnum⟩ := mem_map.mp hmem
    exact Nat.lt_irrefl _ (hnum ▸ h.num_lt hx)
  refine ⟨?_, fun x hx => ?_, fun k sub hk => ?_, fun m hm k hk => ?_⟩
  · simp only [active, hn, ObserverSet.subscribe, map_append, map_singleton]
    exact hact ▸ nodup_append.mpr ⟨h.nums, nodup_singleton _, fun a ha b hb hab =>
      hfresh (mem_singleton.mp hb ▸ hab ▸ ha)⟩
  · simp only [active, hn, ObserverSet.subscribe] at hx
    rcases mem_append.mp hx with hx | hx
    · obtain ⟨sub, hsub, hid⟩ := h.known x (hact ▸ hx)
      exact ⟨sub, getElem?_snoc_of_some hsub, hid⟩
    · obtain rfl := mem_singleton.mp hx
      exact ⟨_, getElem?_concat_length, rfl, rfl⟩
  · rcases getElem?_snoc hk with hk | ⟨rfl, rfl⟩
    · have hne := Nat.ne_of_lt (lt_of_getElem? hk)
      refine (h.follows k sub hk).frame ?_ (.refl _ _) (by simp [pending, hn]) (.refl _)
      simp [active, hn, ObserverSet.subscribe, hne]
    · obtain ⟨m, hm⟩ : ∃ m, s.mailboxes[sender]? = some m := ⟨_, getElem?_eq_getElem hlt⟩
      have hrec := h.fresh m (mem_of_getElem? hm) _ (Nat.le_refl _)
      refine ⟨iff_of_true rfl ?_, ⟨m, hm, hrec, fun hp => nomatch hp⟩, ?_, nil_sublist _⟩
      · simp [active, hn, ObserverSet.subscribe]
      · simp [pending, hn]
  · rw [length_append] at hk
    exact h.fresh m hm k (Nat.le_of_lt hk)

theorem Inv.unsubscribe (h : s.Inv) {id} (hmove : Move s (.unsubscribe id) s') : s'.Inv := by
  cases hmove with | unsubscribe _ hn =>
  refine h.change ?_ ?_ (by simpa using h.fresh) fun k sub' hk => ?_
  · simp only [active, hn, ObserverSet.unsubscribe]
    exact filter_sublist
  · rw [List.map_map]
    refine map_congr_left fun sub _ => ?_
    simp only [comp_apply]
    split_ifs <;> rfl
  · rw [getElem?_map] at hk
    obtain ⟨sub, hsub, rfl⟩ := map_eq_some_iff.mp hk
    have hfol := h.follows k sub hsub
    -- A subscriber of the subscription has its id.
    have hids : ∀ x ∈ s.active, x.num = k → x.id = sub.id := fun x hx hnum => by
      obtain ⟨sub', hsub', hid, -⟩ := h.known x hx
      rw [hnum, hsub] at hsub'
      exact (some.inj hsub' ▸ hid).symm
    simp only [active, hn] at hids
    split_ifs with hid
    · refine ⟨iff_of_false (by simp [Subscription.live]) ?_, hfol.mailbox, ?_, hfol.sublist⟩
      · simp only [active, hn, ObserverSet.unsubscribe, List.mem_map, mem_filter]
        rintro ⟨x, ⟨hx, hne⟩, hnum⟩
        exact of_decide_eq_true hne ((hids x hx hnum).trans hid)
      · simpa [pending, hn] using hfol.offered
    · refine hfol.frame ?_ (.refl _ _) (by simp [pending, hn]) (.refl _)
      simp only [active, hn, ObserverSet.unsubscribe, List.mem_map, mem_filter]
      refine exists_congr fun x => ⟨fun hx => ⟨hx.1.1, hx.2⟩, fun hx => ⟨⟨hx.1, ?_⟩, hx.2⟩⟩
      exact decide_eq_true fun h => hid ((hids x hx.1 hx.2).symm.trans h)

theorem Inv.send (h : s.Inv) {item} (hmove : Move s (.send item) s') : s'.Inv := by
  cases hmove with | send hn hx =>
  have hact := active_of_none hn
  refine h.change (by simp [active, hn]) ?_ (by simpa using h.fresh) fun k sub' hk => ?_
  · rw [List.map_map]
    refine map_congr_left fun sub _ => ?_
    simp only [comp_apply, Subscription.addSent]
    split_ifs <;> rfl
  · rw [getElem?_map] at hk
    obtain ⟨sub, hsub, rfl⟩ := map_eq_some_iff.mp hk
    have hfol := h.follows k sub hsub
    have hoff : sub.sent = sub.offers.map Prod.fst := by
      rw [hfol.offered, pending_of_none hn, append_nil]
    have hlive := hfol.active
    rw [hact] at hlive
    unfold Subscription.addSent
    split_ifs with hl
    · refine ⟨?_, hfol.mailbox, ?_, hfol.sublist.append (.refl _)⟩
      · simpa [active, Subscription.live] using hlive
      · simpa [pending, hlive.mp hl] using hoff
    · refine hfol.frame (by simp [active, hn]) (.refl _ _) ?_ (sublist_append_left _ _)
      simp only [pending, hn]
      exact if_neg fun hk => hl (hlive.mpr hk)

section Pass

variable {x : StreamItem T} {kept kept' rest : List Subscriber} {checked : Bool} {sub₀ : Subscriber}

theorem Inv.num_notMem (h : s.Inv) (hn : s.notifying = some ⟨x, kept, checked, sub₀ :: rest⟩) :
    sub₀.num ∉ kept.map Subscriber.num ∧ sub₀.num ∉ rest.map Subscriber.num := by
  have hnodup := h.nums
  rw [active_of_some hn, map_append, map_cons, nodup_middle, nodup_cons,
    mem_append, not_or] at hnodup
  exact hnodup.1

section

variable (hn : s.notifying = some ⟨x, kept, checked, sub₀ :: rest⟩)
include hn

theorem head_mem_active : sub₀ ∈ s.active := by
  rw [active_of_some hn]
  exact mem_append_right _ mem_cons_self

theorem pending_pass (hn' : s'.notifying = some ⟨x, kept', false, rest⟩)
    {k} (hk : k ≠ sub₀.num) : s'.pending k = s.pending k := by
  simp [pending_of_some hn', pending_of_some hn, hk]

end

theorem Inv.offered (h : s.Inv) (hn : s.notifying = some ⟨x, kept, checked, sub₀ :: rest⟩)
    {sub} (hsub : s.subscriptions[sub₀.num]? = some sub) (room)
    {m} (hm : s.mailboxes[sub₀.sender]? = some m) :
    sub.sent = (sub.offers ++ [(x, room)]).map Prod.fst ++
        (if sub₀.num ∈ rest.map Subscriber.num then [x] else []) ∧
      sub.sender = sub₀.sender ∧ m.received sub₀.num = sub.taken ∧
      (sub.pruned = true → m.closed = true) := by
  have hfol := h.follows _ sub hsub
  obtain ⟨sub', hsub', -, hsender⟩ := h.known sub₀ (head_mem_active hn)
  cases hsub.symm.trans hsub'
  obtain ⟨m', hm', hrec⟩ := hfol.mailbox
  cases (hsender ▸ hm').symm.trans hm
  refine ⟨?_, hsender, hrec⟩
  have hsent := hfol.offered
  rw [pending_of_some hn, if_pos (by simp)] at hsent
  rw [if_neg (h.num_notMem hn).2]
  simpa using hsent

theorem Inv.check (h : s.Inv) (hmove : Move s .check s') : s'.Inv := by
  cases hmove with
  | passed hn =>
    exact h.frame (active_of_some hn).symm rfl (fun k => .refl k _) h.fresh
      (funext fun k => (pending_of_some hn k).symm) rfl
  | @pruned x kept rest sub₀ m hn hm hc =>
    have hroom : m.hasRoom = false := by simp [StreamMailbox.hasRoom, hc]
    refine h.change ?_ (map_modify_of_eq fun _ => rfl) (by simpa using h.fresh) fun k sub' hk => ?_
    · rw [active_of_some hn]
      exact (List.Sublist.refl kept).append (sublist_cons_self sub₀ rest)
    · obtain ⟨sub, hsub, rfl⟩ := getElem?_modify_cases hk
      have hfol := h.follows k sub hsub
      split_ifs with hkj
      · subst hkj
        obtain ⟨hoff, hsender, hrec, -⟩ := h.offered hn hsub m.hasRoom hm
        refine ⟨iff_of_false (by simp [Subscription.live, Subscription.prune]) ?_,
          ⟨m, hsender ▸ hm, ?_, fun _ => hc⟩, hoff, hfol.sublist⟩
        · simp only [active, map_append, mem_append, not_or]
          exact h.num_notMem hn
        · simpa [Subscription.taken, Subscription.prune, hroom] using hrec
      · refine hfol.frame ?_ (.refl _ _) (pending_pass hn rfl hkj) (.refl _)
        rw [active_of_some hn]
        simp [active, hkj]

theorem Inv.trySend (h : s.Inv) (hmove : Move s .trySend s') : s'.Inv := by
  cases hmove with | @trySend x kept rest sub₀ m hn hm =>
  generalize hm' : (m.trySend (.item sub₀.num x)).getD m = m'
  obtain ⟨hrec, hcl⟩ : (∀ k, m'.received k = m.received k ++
      if sub₀.num = k ∧ m.hasRoom = true then [x] else []) ∧ m'.closed = m.closed := by
    rw [← hm', StreamMailbox.trySend_eq]
    cases m.hasRoom with
    | false => simp
    | true => exact ⟨fun k => (StreamMailbox.received_snoc rfl k).trans (by simp), rfl⟩
  refine h.change (by simp [active, hn]) (map_modify_of_eq fun _ => rfl) ?_ fun k sub' hk => ?_
  · intro u hu k hk
    rcases mem_or_eq_of_mem_set hu with hu | rfl
    · exact h.fresh u hu k hk
    · have hlt := h.num_lt (head_mem_active hn)
      rw [hrec, h.fresh m (mem_of_getElem? hm) k hk, if_neg (fun hkj => ?_), append_nil]
      omega
  · obtain ⟨sub, hsub, rfl⟩ := getElem?_modify_cases hk
    have hfol := h.follows k sub hsub
    split_ifs with hkj
    · subst hkj
      obtain ⟨hoff, hsender, hrec', hpruned⟩ := h.offered hn hsub m.hasRoom hm
      refine ⟨?_, ⟨m', ?_, ?_, fun hp => hcl.trans (hpruned hp)⟩, hoff, hfol.sublist⟩
      · exact hfol.active.trans (by simp [active, hn])
      · exact (getElem?_set_of_some hm m').trans (if_pos hsender)
      · rw [hrec, hrec']
        cases m.hasRoom <;> simp [Subscription.taken, Subscription.addOffer]
    · refine hfol.frame (by simp [active, hn]) ?_ (pending_pass hn rfl hkj) (.refl _)
      refine SameItems.set hm ?_ (fun hc => hcl.trans hc)
      rw [hrec, if_neg (fun hk => hkj hk.1.symm), append_nil]

end Pass

theorem Inv.step (h : s.Inv) (hmv : Move s e s') : s'.Inv := by
  cases e with
  | create capacity =>
    cases hmv
    refine h.frame rfl rfl (fun k => .snoc k _ _) (fun m hm k hk => ?_) rfl rfl
    rcases mem_append.mp hm with hm | hm
    · exact h.fresh m hm k hk
    · obtain rfl := mem_singleton.mp hm
      rfl
  | mailbox i a =>
    cases hmv with | @mailbox _ _ m m' hi ha =>
    obtain ⟨hrec, hclosed⟩ := StreamMailbox.received_of_act ha
    refine h.frame rfl rfl (fun k => .set hi (hrec k) hclosed) (fun u hu k hk => ?_) rfl rfl
    rcases mem_or_eq_of_mem_set hu with hu | rfl
    · exact h.fresh u hu k hk
    · rw [hrec, h.fresh m (mem_of_getElem? hi) k hk]
  | subscribe => exact h.subscribe hmv
  | unsubscribe => exact h.unsubscribe hmv
  | send => exact h.send hmv
  | check => exact h.check hmv
  | trySend => exact h.trySend hmv
  | finish =>
    cases hmv with | finish hn =>
    exact h.frame ((active_of_some hn).trans (append_nil _)).symm rfl (fun k => .refl k _)
      h.fresh (funext fun k => (pending_of_some hn k).symm) rfl

/-- No id is used twice. A subscription has put into its mailbox, in order, the items sent to it for
which there was room, and it is there until it is unsubscribed or its mailbox closed. -/
structure Sound (s : StreamRun T) : Prop where
  ids : (s.subscriptions.map Subscription.id).Nodup
  delivered : ∀ k sub, s.subscriptions[k]? = some sub → ∃ m, s.mailboxes[sub.sender]? = some m ∧
    sub.sent.Sublist s.sent ∧ sub.sent = sub.offers.map Prod.fst ++ s.pending k ∧
    m.received k = sub.taken ∧ (m.received k).Sublist sub.sent ∧
    (m.received k).Pairwise fun x y => x.sequence < y.sequence
  kept : ∀ k sub, s.subscriptions[k]? = some sub →
    k ∈ s.active.map Subscriber.num ∨ sub.unsubscribed = true ∨
      ∃ m, s.mailboxes[sub.sender]? = some m ∧ m.closed = true

theorem sound_of_counts (h : s.Inv) (hc : s.Counts) (hsubs : s.subscriptions.length ≤ 2 ^ 64)
    (hsent : s.sent.length ≤ 2 ^ 64) : s.Sound where
  ids := by
    rw [hc.ids]
    exact (pairwise_counted hsubs).imp fun hlt heq => absurd (heq ▸ hlt) (UInt64.lt_irrefl _)
  delivered k sub hk := by
    have hfol := h.follows k sub hk
    obtain ⟨m, hm, hrec, -⟩ := hfol.mailbox
    have hup := pairwise_map.mp (hc.items ▸ pairwise_counted hsent)
    have hsub : (m.received k).Sublist sub.sent := by
      rw [hrec, hfol.offered]
      exact (filter_sublist.map Prod.fst).trans (sublist_append_left _ _)
    exact ⟨m, hm, hfol.sublist, hfol.offered, hrec, hsub, hup.sublist (hsub.trans hfol.sublist)⟩
  kept k sub hk := by
    have hfol := h.follows k sub hk
    cases hlive : sub.live with
    | true => exact .inl (hfol.active.mp hlive)
    | false =>
      cases hun : sub.unsubscribed with
      | true => exact .inr (.inl rfl)
      | false =>
        obtain ⟨m, hm, -, hclosed⟩ := hfol.mailbox
        refine .inr (.inr ⟨m, hm, hclosed ?_⟩)
        simpa [Subscription.live, hun] using hlive

theorem inv_of_exec {name es} (hs : exec step (init name) es = some s) : s.Inv ∧ s.Counts :=
  exec_invariant_of_step (I := fun s => s.Inv ∧ s.Counts)
    (fun _ _ _ hI hst => ⟨hI.1.step (move_of_step hst), hI.2.step (move_of_step hst)⟩)
    ⟨inv_init name, counts_init name⟩ hs

/-- Delivery is sound in every run with at most `2 ^ 64` items and at most `2 ^ 64`
subscriptions. -/
theorem delivery_of_counted {name : String} {es : List (StreamEvent T)}
    (hs : exec step (init name) es = some s) (hsubs : s.subscriptions.length ≤ 2 ^ 64)
    (hsent : s.sent.length ≤ 2 ^ 64) : s.Sound :=
  sound_of_counts (inv_of_exec hs).1 (inv_of_exec hs).2 hsubs hsent

/-- Four items to a mailbox with one place. The second finds it full, and the last one closed. -/
def prices : List (StreamEvent ℕ) :=
  [.create 1, .subscribe 0, .send 10, .check, .trySend, .finish, .send 20, .check, .trySend,
    .finish, .mailbox 0 .recv, .send 30, .check, .trySend, .finish, .send 40, .check,
    .mailbox 0 .close, .trySend, .finish]

theorem prices_delivered : ∃ s, exec step (init "prices") prices = some s ∧
    s.mailboxes.map (·.received 0) = [[⟨"prices", 10, 0⟩, ⟨"prices", 30, 2⟩]] ∧ s.Sound := by
  obtain ⟨s, hs, hview⟩ : ∃ s, exec step (init "prices") prices = some s ∧
      (s.mailboxes.map (·.received 0), s.subscriptions.length, s.sent.length) =
        ([[⟨"prices", 10, 0⟩, ⟨"prices", 30, 2⟩]], 1, 4) :=
    map_eq_some_iff.mp (by decide +kernel)
  simp only [Prod.mk.injEq] at hview
  obtain ⟨hrec, hsubs, hsent⟩ := hview
  exact ⟨s, hs, hrec, delivery_of_counted hs (by omega) (by omega)⟩

/-- `n` subscriptions, each given up before the next. -/
def renewals (n : ℕ) : List (StreamEvent T) :=
  .create 1 :: (range n).flatMap fun i => [.subscribe 0, .unsubscribe (.ofNat i)]

theorem exec_renewals (name n) : ∃ s : StreamRun T, exec step (init name) (renewals n) = some s ∧
    s.notifying = none ∧ s.mailboxes.length = 1 ∧ s.sent = [] ∧ s.subscriptions.length = n ∧
    s.producer.observers.subscribers = [] := by
  induction n with
  | zero => exact ⟨_, rfl, rfl, rfl, rfl, rfl, rfl⟩
  | succ n ih =>
    obtain ⟨s, hs, hn, hm, hsent, hl, hnone⟩ := ih
    have hnext := hl ▸ (inv_of_exec hs).2.nextId
    have hpair : ∃ u, exec step s [.subscribe 0, .unsubscribe (.ofNat n)] = some u ∧
        u.notifying = none ∧ u.mailboxes = s.mailboxes ∧ u.sent = s.sent ∧
        u.subscriptions.length = n + 1 ∧ u.producer.observers.subscribers = [] := by
      simp [exec, step, hn, hm, hl, hnone, hnext, ObserverSet.subscribe, ObserverSet.unsubscribe]
    obtain ⟨u, hu, hn', hm', hsent', hu'⟩ := hpair
    rw [renewals, range_succ, flatMap_append, ← cons_append]
    refine ⟨u, ?_, hn', hm' ▸ hm, hsent'.trans hsent, hu'⟩
    rw [exec_append, show exec step (init name) (.create 1 :: _) = some s from hs]
    exact hu

/-- The id of the first of `2 ^ 64 + 1` subscriptions is given to the last again, though there is
never more than one at a time. -/
theorem subscription_id_reused : ∃ s : StreamRun ℕ,
    exec step (init "prices") (renewals (2 ^ 64 + 1)) = some s ∧ s.sent = [] ∧
      s.producer.observers.subscribers = [] ∧ ¬(s.subscriptions.map Subscription.id).Nodup := by
  obtain ⟨s, hs, -, -, hsent, hlen, hnone⟩ := exec_renewals (T := ℕ) "prices" (2 ^ 64 + 1)
  refine ⟨s, hs, hsent, hnone, ?_⟩
  rw [(inv_of_exec hs).2.ids, hlen, counted_succ, ofNat_two_pow]
  intro hnodup
  have hzero : (0 : UInt64) ∈ counted (2 ^ 64) :=
    List.mem_map.mpr ⟨0, List.mem_range.mpr (by decide), rfl⟩
  exact (nodup_append.mp hnodup).2.2 0 hzero 0 (mem_singleton_self _) rfl

end StreamRun
end Orlando
