import Orlando.Forwarding
import Orlando.Pipeline

/-!
# Calls over the TCP transport

`TcpTransportClient` has one connection to a peer, behind a lock. A call of `invoke` gets a number,
takes the lock, connects if there is no connection, sends its request and reads a reply, and if that
fails tries once more. A caller may drop its call wherever it waits. The number of the reply is not
looked at.
-/

namespace Orlando

open Option

/-- `TcpInvokeResponse`, apart from its `request_id`. -/
structure TcpAnswer where
  success : Bool
  payload : Bytes
  error : Option String
deriving DecidableEq

abbrev TcpConn := Pipeline UInt64 TcpInvokeRequest TcpAnswer

/-- How `send` comes out. The frame may be refused, or put on the connection, and then the write
may fail. -/
inductive Feed where
  | fed
  | failed
  | refused
deriving DecidableEq

def TcpConn.send (c : TcpConn) (requestId : UInt64) (request : TcpInvokeRequest) :
    Feed → Option TcpConn
  | .fed => if c.writable then some (c.feed requestId request) else none
  | .failed => some { c.feed requestId request with writable := false }
  | .refused => some c

inductive TcpPhase where
  | locking
  | connecting
  | sending
  | awaiting
  | reconnecting
  | sendingNew (conn : TcpConn)
  | awaitingNew (conn : TcpConn)
  /-- It has returned a response with its `request_id`, or an error. -/
  | done (response : Option (UInt64 × TcpAnswer))
  | dropped

namespace TcpPhase

def holds : TcpPhase → Bool
  | locking | done _ | dropped => false
  | _ => true

/-- It has sent its request on the connection that is kept, and waits for the reply. -/
def awaits : TcpPhase → Bool
  | awaiting => true
  | _ => false

end TcpPhase

structure TcpCall where
  requestId : UInt64
  request : TcpInvokeRequest
  /-- What was outstanding on the connection when the request was put there. -/
  ahead : List UInt64
  phase : TcpPhase

inductive TcpCallEvent where
  | lock
  | connect (ok : Bool)
  | send (feed : Feed)
  | next (decoded : Bool)
  | ioError
  | drop
deriving DecidableEq

def TcpPhase.Plain : TcpPhase → Prop
  | awaiting | awaitingNew _ => False
  | sendingNew conn => conn.outstanding = []
  | done response => response = none
  | _ => True

namespace TcpCall

def response (call : TcpCall) : Option (UInt64 × TcpAnswer) :=
  match call.phase with
  | .done response => response
  | _ => none

theorem response_eq_some_iff {call : TcpCall} {r} :
    call.response = some r ↔ call.phase = .done (some r) := by
  unfold response
  cases call.phase with
  | done response => simp
  | _ => simp

def step (call : TcpCall) (conn : Option TcpConn) : TcpCallEvent → Option (TcpCall × Option TcpConn)
  | .lock =>
    match call.phase, conn with
    | .locking, none => some ({ call with phase := .connecting }, conn)
    | .locking, some _ => some ({ call with phase := .sending }, conn)
    | _, _ => none
  | .connect ok =>
    match call.phase with
    | .connecting =>
      if ok then some ({ call with phase := .sending }, some .fresh)
      else some ({ call with phase := .done none }, conn)
    | .reconnecting =>
      if ok then some ({ call with phase := .sendingNew .fresh }, conn)
      else some ({ call with phase := .done none }, conn)
    | _ => none
  | .send feed =>
    match call.phase, conn with
    | .sending, some c =>
      (c.send call.requestId call.request feed).map fun c' =>
        if feed = .fed then ({ call with phase := .awaiting, ahead := c.outstanding }, some c')
        else ({ call with phase := .reconnecting }, some c')
    | .sendingNew c, _ =>
      (c.send call.requestId call.request feed).map fun c' =>
        if feed = .fed then ({ call with phase := .awaitingNew c', ahead := c.outstanding }, conn)
        else ({ call with phase := .done none }, conn)
    | _, _ => none
  | .next decoded =>
    match call.phase, conn with
    | .awaiting, some c =>
      c.next.map fun r =>
        if decoded then ({ call with phase := .done (some r.1) }, some r.2)
        else ({ call with phase := .reconnecting }, some r.2)
    | .awaitingNew c, _ =>
      c.next.map fun r =>
        if decoded then ({ call with phase := .done (some r.1) }, some r.2)
        else ({ call with phase := .done none }, conn)
    | _, _ => none
  | .ioError =>
    match call.phase, conn with
    | .awaiting, some c =>
      if c.isOpen then none else some ({ call with phase := .reconnecting }, conn)
    | .awaitingNew c, _ =>
      if c.isOpen then none else some ({ call with phase := .done none }, conn)
    | _, _ => none
  | .drop =>
    match call.phase with
    | .done _ => none
    | .dropped => none
    | _ => some ({ call with phase := .dropped }, conn)

inductive Move (call : TcpCall) (conn : Option TcpConn) :
    TcpCallEvent → TcpCall → Option TcpConn → Prop
  | turn {e phase} (hplain : phase.Plain)
    (hlock : call.phase.holds = true ∨ e = .lock ∨ phase.holds = false)
    (hawait : call.phase.awaits = true → e = .drop ∨ ∃ c, conn = some c ∧ c.isOpen = false) :
    Move call conn e { call with phase := phase } conn
  | connected (hp : call.phase = .connecting) :
    Move call conn (.connect true) { call with phase := .sending } (some .fresh)
  | fed {c} (hp : call.phase = .sending) (hc : conn = some c) (hw : c.writable = true) :
    Move call conn (.send .fed) { call with phase := .awaiting, ahead := c.outstanding }
      (some (c.feed call.requestId call.request))
  | notFed {feed c c'} (hp : call.phase = .sending) (hc : conn = some c)
    (hc' : c'.isOpen = true → c' = c) :
    Move call conn (.send feed) { call with phase := .reconnecting } (some c')
  | read {c c' r} (hp : call.phase = .awaiting) (hc : conn = some c) (hr : c.next = some (r, c')) :
    Move call conn (.next true) { call with phase := .done (some r) } (some c')
  | misread {c c' r} (hp : call.phase = .awaiting) (hc : conn = some c)
    (hr : c.next = some (r, c')) :
    Move call conn (.next false) { call with phase := .reconnecting } (some c')
  | fedNew {c} (hp : call.phase = .sendingNew c) :
    Move call conn (.send .fed)
      { call with
        phase := .awaitingNew (c.feed call.requestId call.request), ahead := c.outstanding } conn
  | readNew {c c' r} (hp : call.phase = .awaitingNew c) (hr : c.next = some (r, c')) :
    Move call conn (.next true) { call with phase := .done (some r) } (some c')

section Inversion

variable {call call' : TcpCall} {conn conn' : Option TcpConn} {e : TcpCallEvent}

theorem Move.failed (h : call.phase.awaits = false) :
    Move call conn e { call with phase := .done none } conn :=
  .turn rfl (.inr (.inr rfl)) (by simp [h])

theorem move_of_step (h : call.step conn e = some (call', conn')) :
    Move call conn e call' conn' := by
  revert h
  fun_cases step call conn e <;> intro h <;> try cases h
  -- the lock is taken
  next hp => exact .turn trivial (.inr (.inl rfl)) (by rw [hp]; nofun)
  next hp => exact .turn trivial (.inr (.inl rfl)) (by rw [hp]; nofun)
  -- a connection is made, or not
  next hp => exact .connected hp
  next hp _ => exact .failed (hp ▸ rfl)
  next hp => exact .turn rfl (.inl (hp ▸ rfl)) (by rw [hp]; nofun)
  next hp _ => exact .failed (hp ▸ rfl)
  -- the request is sent
  next feed c hp =>
    obtain ⟨c', hc', hr⟩ := map_eq_some_iff.mp h
    cases feed with
    | fed =>
      obtain ⟨hw, hc'⟩ := ite_none_right_eq_some.mp hc'
      cases hc'
      cases hr
      exact .fed hp rfl hw
    | failed =>
      cases hc'
      cases hr
      exact .notFed hp rfl (by simp [Pipeline.isOpen])
    | refused =>
      cases hc'
      cases hr
      exact .notFed hp rfl fun _ => rfl
  next feed c hp =>
    obtain ⟨c', hc', hr⟩ := map_eq_some_iff.mp h
    cases feed with
    | fed =>
      obtain ⟨-, hc'⟩ := ite_none_right_eq_some.mp hc'
      cases hc'
      cases hr
      exact .fedNew hp
    | _ =>
      cases hr
      exact .failed (hp ▸ rfl)
  -- a frame is read
  next decoded c hp =>
    obtain ⟨⟨r, c'⟩, hnext, hr⟩ := map_eq_some_iff.mp h
    cases decoded <;> cases hr
    · exact .misread hp rfl hnext
    · exact .read hp rfl hnext
  next decoded c hp =>
    obtain ⟨⟨r, c'⟩, hnext, hr⟩ := map_eq_some_iff.mp h
    cases decoded <;> cases hr
    · exact .failed (hp ▸ rfl)
    · exact .readNew hp hnext
  -- the connection has failed
  next c hp hopen =>
    exact .turn trivial (.inl (hp ▸ rfl)) fun _ => .inr ⟨c, rfl, by simpa using hopen⟩
  next hp _ => exact .failed (hp ▸ rfl)
  -- the caller drops it
  next => exact .turn trivial (.inr (.inr rfl)) fun _ => .inl rfl

end Inversion

/-- The request of a call that waits is the last one outstanding on its connection, and the
response of a call that has returned was the first one outstanding then. -/
structure Ok (call : TcpCall) (conn : Option TcpConn) : Prop where
  awaiting : call.phase = .awaiting → ∃ c, conn = some c ∧
    c.outstanding = call.ahead ++ [call.requestId]
  sendingNew : ∀ c, call.phase = .sendingNew c → c.outstanding = []
  awaitingNew : ∀ c, call.phase = .awaitingNew c → call.ahead = [] ∧
    c.outstanding = [call.requestId]
  done : ∀ r, call.phase = .done (some r) → (call.ahead ++ [call.requestId]).head? = some r.1

variable {call call' : TcpCall} {conn conn' : Option TcpConn} {e : TcpCallEvent}

theorem ok_of_phase (h : match call.phase with
    | .awaiting => ∃ c, conn = some c ∧ c.outstanding = call.ahead ++ [call.requestId]
    | .sendingNew c => c.outstanding = []
    | .awaitingNew c => call.ahead = [] ∧ c.outstanding = [call.requestId]
    | .done (some r) => (call.ahead ++ [call.requestId]).head? = some r.1
    | _ => True) : call.Ok conn := by
  refine ⟨fun hp => ?_, fun c hp => ?_, fun c hp => ?_, fun r hp => ?_⟩ <;>
  · rw [hp] at h
    exact h

theorem ok_of_plain (h : call.phase.Plain) (conn) : call.Ok conn := by
  refine ok_of_phase ?_
  split
  next hp =>
    rw [hp] at h
    cases h
  next c hp =>
    rw [hp] at h
    exact h
  next c hp =>
    rw [hp] at h
    cases h
  next r hp =>
    rw [hp] at h
    cases h
  next => trivial

theorem Ok.of_not_awaits (h : call.Ok conn) (ha : call.phase.awaits = false) : call.Ok conn' where
  awaiting hp := by simp [hp, TcpPhase.awaits] at ha
  sendingNew := h.sendingNew
  awaitingNew := h.awaitingNew
  done := h.done

theorem Ok.act {c c' e} (h : call.Ok (some c)) (hact : c.act e = some c') : call.Ok (some c') where
  awaiting hp := by
    obtain ⟨c₀, hc₀, hout⟩ := h.awaiting hp
    cases hc₀
    exact ⟨c', rfl, (Pipeline.outstanding_of_act hact).1.trans hout⟩
  sendingNew := h.sendingNew
  awaitingNew := h.awaitingNew
  done := h.done

section

variable (hmove : Move call conn e call' conn')
include hmove

theorem Ok.move (h : call.Ok conn) : call'.Ok conn' := by
  cases hmove with
  | turn hplain => exact ok_of_plain hplain _
  | @fed c hp hc hw => exact ok_of_phase ⟨_, rfl, Pipeline.outstanding_feed _ _⟩
  | @read c c' r hp hc hr =>
    obtain ⟨c₀, hc₀, hout⟩ := h.awaiting hp
    cases hc₀.symm.trans hc
    refine ok_of_phase ?_
    simp [← hout, (Pipeline.outstanding_of_next hr).2.1]
  | @fedNew c hp =>
    have hout := h.sendingNew c hp
    refine ok_of_phase ⟨hout, ?_⟩
    rw [Pipeline.outstanding_feed, hout]
    rfl
  | @readNew c c' r hp hr =>
    obtain ⟨hahead, hout⟩ := h.awaitingNew c hp
    rw [(Pipeline.outstanding_of_next hr).2.1] at hout
    refine ok_of_phase ?_
    simp [hahead, ← (List.cons.inj hout).1]
  | _ =>
    refine ok_of_plain ?_ _
    trivial

theorem Move.conn_eq_or_holds :
    conn' = conn ∨ call.phase.holds = true := by
  cases hmove with
  | connected hp | fed hp | notFed hp | read hp | misread hp | readNew hp => exact .inr (hp ▸ rfl)
  | _ => exact .inl rfl

theorem Move.holds_or_lock
    (h : call'.phase.holds = true) : call.phase.holds = true ∨ e = .lock := by
  cases hmove with
  | turn _ hlock =>
    rcases hlock with hlock | hlock | hlock
    · exact .inl hlock
    · exact .inr hlock
    · simp [hlock] at h
  | connected hp | fed hp | notFed hp | read hp | misread hp | fedNew hp | readNew hp =>
    exact .inl (hp ▸ rfl)

end

end TcpCall

/-- A client of one peer : the connection under the lock, and its calls, oldest first. -/
structure TcpTransportClient where
  conn : Option TcpConn
  nextRequestId : UInt64
  calls : List TcpCall

inductive TcpEvent where
  | invoke (request : TcpInvokeRequest)
  | call (k : ℕ) (e : TcpCallEvent)
  | peer (e : PipeEvent TcpAnswer)
  | peerNew (k : ℕ) (e : PipeEvent TcpAnswer)

namespace TcpTransportClient

def new : TcpTransportClient where
  conn := none
  nextRequestId := 1
  calls := []

variable (s : TcpTransportClient)

def locked : Bool :=
  s.calls.any (·.phase.holds)

def step : TcpEvent → Option TcpTransportClient
  | .invoke request =>
    some { s with
      nextRequestId := s.nextRequestId + 1
      calls := s.calls ++ [⟨s.nextRequestId, request, [], .locking⟩] }
  | .call k e =>
    match s.calls[k]? with
    | some call =>
      if e = .lock ∧ s.locked then none
      else (call.step s.conn e).map fun r => { s with calls := s.calls.set k r.1, conn := r.2 }
    | none => none
  | .peer e =>
    match s.conn with
    | some c => (c.act e).map fun c' => { s with conn := some c' }
    | none => none
  | .peerNew k e =>
    match s.calls[k]? with
    | some call =>
      match call.phase with
      | .sendingNew c =>
        (c.act e).map fun c' =>
          { s with calls := s.calls.set k { call with phase := .sendingNew c' } }
      | .awaitingNew c =>
        (c.act e).map fun c' =>
          { s with calls := s.calls.set k { call with phase := .awaitingNew c' } }
      | _ => none
    | none => none

inductive Move : TcpEvent → TcpTransportClient → Prop
  | invoke (request : TcpInvokeRequest) :
    Move (.invoke request) { s with
      nextRequestId := s.nextRequestId + 1
      calls := s.calls ++ [⟨s.nextRequestId, request, [], .locking⟩] }
  | call {k e call call' conn} (hk : s.calls[k]? = some call)
    (hlock : e = .lock → s.locked = false) (hmove : TcpCall.Move call s.conn e call' conn) :
    Move (.call k e) { s with calls := s.calls.set k call', conn := conn }
  | peer {e c c'} (hc : s.conn = some c) (hact : c.act e = some c') :
    Move (.peer e) { s with conn := some c' }
  | peerSending {k e call c c'} (hk : s.calls[k]? = some call) (hp : call.phase = .sendingNew c)
    (hact : c.act e = some c') :
    Move (.peerNew k e) { s with calls := s.calls.set k { call with phase := .sendingNew c' } }
  | peerAwaiting {k e call c c'} (hk : s.calls[k]? = some call) (hp : call.phase = .awaitingNew c)
    (hact : c.act e = some c') :
    Move (.peerNew k e) { s with calls := s.calls.set k { call with phase := .awaitingNew c' } }

variable {s} {s' : TcpTransportClient} {e : TcpEvent} {es : List TcpEvent} {k : ℕ} {call : TcpCall}

theorem move_of_step (h : s.step e = some s') : Move s e s' := by
  revert h
  fun_cases step s e <;> intro h <;> try cases h
  next request => exact .invoke request
  next hk hlock =>
    obtain ⟨⟨call', conn⟩, hstep, rfl⟩ := map_eq_some_iff.mp h
    exact .call hk (fun he => by simpa [he] using hlock) (TcpCall.move_of_step hstep)
  next hc =>
    obtain ⟨c', hact, rfl⟩ := map_eq_some_iff.mp h
    exact .peer hc hact
  next hk _ hp =>
    obtain ⟨c', hact, rfl⟩ := map_eq_some_iff.mp h
    exact .peerSending hk hp hact
  next hk _ hp =>
    obtain ⟨c', hact, rfl⟩ := map_eq_some_iff.mp h
    exact .peerAwaiting hk hp hact

/-! ## Whose reply a call gets -/

structure Inv (s : TcpTransportClient) : Prop where
  exclusive : ∀ (i j : ℕ) (ci cj : TcpCall), s.calls[i]? = some ci → s.calls[j]? = some cj →
    ci.phase.holds = true → cj.phase.holds = true → i = j
  ok : ∀ (k : ℕ) (call : TcpCall), s.calls[k]? = some call → call.Ok s.conn

theorem inv_new : new.Inv where
  exclusive _ _ _ _ hi := by cases hi
  ok _ _ hk := by cases hk

theorem not_holds_of_not_locked (h : s.locked = false) (hk : s.calls[k]? = some call) :
    call.phase.holds = false := by
  have hall := List.any_eq_false.mp h call (List.mem_of_getElem? hk)
  simpa using hall

theorem awaits_of_not_holds {phase : TcpPhase} (h : phase.holds = false) :
    phase.awaits = false := by
  cases phase with
  | awaiting => cases h
  | _ => rfl

theorem Inv.other_not_holds (h : s.Inv) {j k : ℕ} {call other}
    (hk : s.calls[k]? = some call) (hholds : call.phase.holds = true)
    (hj : s.calls[j]? = some other) (hjk : j ≠ k) : other.phase.holds = false := by
  have hone : OneHolder (fun call : TcpCall => call.phase.holds) s.calls := h.exclusive
  exact hone.other hk hholds hj hjk

theorem Inv.setNew (h : s.Inv) {call call' : TcpCall} (hk : s.calls[k]? = some call)
    (hholds : call.phase.holds = true) (hok : call'.Ok s.conn) :
    Inv { s with calls := s.calls.set k call' } := by
  refine ⟨OneHolder.set h.exclusive hk fun _ _ _ => h.other_not_holds hk hholds,
    fun j other hj => ?_⟩
  rcases getElem?_set_cases hk hj with ⟨rfl, rfl⟩ | ⟨-, hj'⟩
  · exact hok
  · exact h.ok j other hj'

theorem Inv.step (h : s.Inv) (hmove : Move s e s') : s'.Inv := by
  cases hmove with
  | invoke request =>
    refine ⟨OneHolder.snoc h.exclusive rfl, fun k call hk => ?_⟩
    rcases getElem?_snoc hk with hk | ⟨rfl, rfl⟩
    · exact h.ok k call hk
    · refine TcpCall.ok_of_plain ?_ _
      trivial
  | @call k e call call' conn hk hlock hmove =>
    refine ⟨OneHolder.set h.exclusive hk fun hholds j other hj hjk => ?_, fun j other hj => ?_⟩
    · rcases hmove.holds_or_lock hholds with hheld | he
      · exact h.other_not_holds hk hheld hj hjk
      · exact not_holds_of_not_locked (hlock he) hj
    · rcases getElem?_set_cases hk hj with ⟨rfl, rfl⟩ | ⟨hjk, hj'⟩
      · exact (h.ok j call hk).move hmove
      · rcases hmove.conn_eq_or_holds with rfl | hheld
        · exact h.ok j other hj'
        · exact (h.ok j other hj').of_not_awaits
            (awaits_of_not_holds (h.other_not_holds hk hheld hj' hjk))
  | @peer e c c' hc hact =>
    exact ⟨h.exclusive, fun k call hk => (hc ▸ h.ok k call hk).act hact⟩
  | @peerSending k e call c c' hk hp hact =>
    refine h.setNew hk (hp ▸ rfl) (TcpCall.ok_of_plain ?_ _)
    exact (Pipeline.outstanding_of_act hact).1.trans ((h.ok k call hk).sendingNew c hp)
  | @peerAwaiting k e call c c' hk hp hact =>
    obtain ⟨hahead, hout⟩ := (h.ok k call hk).awaitingNew c hp
    exact h.setNew hk (hp ▸ rfl)
      (TcpCall.ok_of_phase ⟨hahead, (Pipeline.outstanding_of_act hact).1.trans hout⟩)

theorem inv_of_exec (hs : exec step new es = some s) : s.Inv :=
  exec_invariant_of_step (I := Inv) (fun _ _ _ hI hstep => hI.step (move_of_step hstep)) inv_new hs

/-- A call gets the first reply that is outstanding when its request is put on the connection, be it
that of a call that was dropped (`reply_of_dropped_call`). -/
theorem reply_matches_iff {es : List TcpEvent} (hs : exec step new es = some s) {k : ℕ}
    {call : TcpCall} (hk : s.calls[k]? = some call) {r : UInt64 × TcpAnswer}
    (hr : call.response = some r) :
    r.1 = call.requestId ↔ ∀ i ∈ call.ahead.head?, i = call.requestId := by
  have hhead := ((inv_of_exec hs).ok k call hk).done r (TcpCall.response_eq_some_iff.mp hr)
  cases hahead : call.ahead with
  | nil =>
    rw [hahead] at hhead
    exact iff_of_true (Option.some.inj hhead).symm fun _ hi => (nomatch hi)
  | cons i ahead =>
    rw [hahead] at hhead
    obtain rfl : i = r.1 := Option.some.inj hhead
    simp

/-! ## A call that is dropped -/

def counterRequest (messageType : String) : TcpInvokeRequest where
  grainType := "Counter"
  grainKey := "c"
  messageType := messageType
  payload := []
  context := ∅

def answered : List TcpEvent :=
  [.invoke (counterRequest "Increment"), .call 0 .lock, .call 0 (.connect true),
    .call 0 (.send .fed), .peer (.serve ⟨true, [1], none⟩), .call 0 (.next true)]

def droppedThenAnswered : List TcpEvent :=
  [.invoke (counterRequest "Increment"), .call 0 .lock, .call 0 (.connect true),
    .call 0 (.send .fed), .call 0 .drop, .invoke (counterRequest "Get"), .call 1 .lock,
    .call 1 (.send .fed), .peer (.serve ⟨true, [1], none⟩), .peer (.serve ⟨true, [9], none⟩),
    .call 1 (.next true)]

def outcome (k : ℕ) (s : TcpTransportClient) : Option (UInt64 × Option (UInt64 × TcpAnswer)) :=
  (s.calls[k]?).map fun call => (call.requestId, call.response)

theorem reply_of_undropped_call : ∃ s, exec step new answered = some s ∧
    ∃ call, s.calls[0]? = some call ∧ call.response = some (1, ⟨true, [1], none⟩) ∧
      (1 = call.requestId ↔ ∀ i ∈ call.ahead.head?, i = call.requestId) := by
  obtain ⟨s, hs, hout⟩ : ∃ s, exec step new answered = some s ∧
      s.outcome 0 = some (1, some (1, ⟨true, [1], none⟩)) :=
    map_eq_some_iff.mp (by decide +kernel)
  obtain ⟨call, hk, hcall⟩ := map_eq_some_iff.mp hout
  obtain ⟨-, hr⟩ := Prod.mk.inj hcall
  exact ⟨s, hs, call, hk, hr, reply_matches_iff hs hk hr⟩

theorem reply_of_dropped_call : ∃ s, exec step new droppedThenAnswered = some s ∧
    ∃ call, s.calls[1]? = some call ∧ call.requestId = 2 ∧
      call.response = some (1, ⟨true, [1], none⟩) := by
  obtain ⟨s, hs, hout⟩ : ∃ s, exec step new droppedThenAnswered = some s ∧
      s.outcome 1 = some (2, some (1, ⟨true, [1], none⟩)) :=
    map_eq_some_iff.mp (by decide +kernel)
  obtain ⟨call, hk, hcall⟩ := map_eq_some_iff.mp hout
  obtain ⟨hid, hr⟩ := Prod.mk.inj hcall
  exact ⟨s, hs, call, hk, hid, hr⟩

end TcpTransportClient
end Orlando
