import Orlando.RingHistory
import Orlando.Services

/-!
# Clients from outside the cluster

An `OrlandoClient` asks a silo for the members of the cluster, puts them on a ring of its own, and
sends each call to the silo that this ring gives the grain to.

The ring of a client has 150 points for each silo, whatever the silos were told.
-/

namespace Orlando

open List HashRing

variable {S : Type}

inductive ClientError where
  | connection (reason : String)
  | transport (reason : String)
  | noSiloAvailable
  | grainError (error : String)
  | serialization (reason : String)
  | deserialization (reason : String)
deriving DecidableEq

structure NetworkMessage (R : Type) where
  messageTypeName : String
  messageVersion : ℕ
  encoded : Except String Bytes
  decode : Bytes → Except String R

inductive SendOutcome where
  | unreachable (reason : String)
  | failed (reason : String)
  | answered (error : String) (payload : Bytes)

/-- What a client meets : the attempts of a call, by how many are left after them, and the
answers to `get_members`. -/
structure ClientWorld where
  send : ℕ → SiloAddress → InvokeRequest → SendOutcome
  members : SiloAddress → Option (List ProtoSiloAddress)

inductive ClientCall where
  | refresh (world : ClientWorld)
  | invoke (world : ClientWorld) (req : InvokeRequest)

def ClientCall.world : ClientCall → ClientWorld
  | refresh world | invoke world _ => world

def Encoding.toProto : Encoding → ℤ
  | bincode => 0
  | protobuf => 1

structure OrlandoClient where
  ring : HashRing

namespace OrlandoClient

def ringOf (members : List ProtoSiloAddress) : HashRing :=
  (members.map fromProtoAddr).foldl HashRing.add (HashRing.new 150)

/-- `connect` and `connect_tls`, after the answer to `get_members`. -/
def connect : Except String (List ProtoSiloAddress) → Except ClientError OrlandoClient
  | .error reason => .error (.connection reason)
  | .ok members =>
    if members.isEmpty then .error (.connection "cluster returned no members")
    else .ok ⟨ringOf members⟩

variable (client : OrlandoClient) (world : ClientWorld)

/-- The members are asked one after the other until one answers. -/
def refreshMembership : Except ClientError OrlandoClient :=
  match client.ring.members.findSome? world.members with
  | some members => .ok ⟨ringOf members⟩
  | none => .error (.connection "no reachable silos for membership refresh")

def refreshed : OrlandoClient :=
  match client.refreshMembership world with
  | .ok client => client
  | .error _ => client

def request (grainType grainKey messageType : String) (payload : Bytes) (encoding : ℤ) :
    InvokeRequest where
  grainType := grainType
  grainKey := grainKey
  messageType := messageType
  payload := payload
  encoding := encoding
  requestContext := ∅
  messageVersion := 0

def attempts (req : InvokeRequest) :
    ℕ → OrlandoClient → List SiloAddress × Except ClientError Bytes
  | left, client =>
    match client.ring.get (ringKey req.grainType req.grainKey) with
    | none => ([], .error .noSiloAvailable)
    | some target =>
      match world.send left target req, left with
      | .answered error payload, _ =>
        ([target], if error = "" then .ok payload else .error (.grainError error))
      | .unreachable reason, 0 => ([target], .error (.connection reason))
      | .failed reason, 0 => ([target], .error (.transport reason))
      | _, left + 1 =>
        let rest := attempts req left (client.refreshed world)
        (target :: rest.1, rest.2)

def invoke (req : InvokeRequest) : List SiloAddress × Except ClientError Bytes :=
  attempts world req 1 client

def ask {R : Type} (grainType grainKey : String) (msg : NetworkMessage R) :
    Except ClientError R :=
  match msg.encoded with
  | .error reason => .error (.serialization reason)
  | .ok payload =>
    match (client.invoke world (request grainType grainKey msg.messageTypeName payload
      Encoding.bincode.toProto)).2 with
    | .error e => .error e
    | .ok response => (msg.decode response).mapError .deserialization

def Knows (s : Server S) : Prop :=
  client.ring = ringOf s.ringMembers

variable {client world} {s : Server S} {client' : OrlandoClient}

theorem Knows.ring_eq (h : client.Knows s) :
    client.ring = s.node.ring.members.foldl HashRing.add (new 150) := by
  have hid : fromProtoAddr ∘ toProtoAddr = id := funext fromProtoAddr_toProtoAddr
  rw [h, ringOf, Server.ringMembers, map_map, hid, map_id]

theorem head?_invoke (client : OrlandoClient) (world) (req) :
    (client.invoke world req).1.head? = client.ring.get (ringKey req.grainType req.grainKey) := by
  unfold invoke attempts
  cases client.ring.get (ringKey req.grainType req.grainKey) with
  | none => rfl
  | some target => cases hsend : world.send 1 target req <;> simp [hsend]

/-- Client and silos agree on a grain exactly if its owner also has the nearest of the client's
points. -/
theorem routes_alike_iff (s : Server S) (client : OrlandoClient) (hknows : client.Knows s)
    (world : ClientWorld) (req : InvokeRequest) :
    ((client.invoke world req).1.head? = s.node.ring.get (ringKey req.grainType req.grainKey) ↔
      ∀ a, s.node.ring.get (ringKey req.grainType req.grainKey) = some a →
        HashRing.Nearest 150 s.node.ring.members (ringKey req.grainType req.grainKey) a) ∧
    (∀ b, (client.invoke world req).1.head? = some b → ∀ node : Node S,
      node.ring = s.node.ring → node.localAddr = b →
      (node.findOwner req.grainType req.grainKey = none ↔
        ∀ a, s.node.ring.get (ringKey req.grainType req.grainKey) = some a → a.siloId = b.siloId)) ∧
    (∀ ids silos, s.node.ring.IsRingOf ids silos → s.node.ring.virtualNodes = 150 →
      (client.invoke world req).1.head? =
        s.node.ring.get (ringKey req.grainType req.grainKey)) := by
  rw [head?_invoke, hknows.ring_eq]
  refine ⟨?_, ?_, ?_⟩
  · cases howner : s.node.ring.get (ringKey req.grainType req.grainKey) with
    | some a =>
      rw [get_foldl_add]
      exact ⟨fun h b hb => Option.some.inj hb ▸ h, fun h => h a rfl⟩
    | none =>
      -- Nobody is on the ring of the silos, so the client was told of nobody.
      rw [members_eq_nil (get_eq_none_iff.mp howner)]
      exact ⟨fun _ a ha => (by cases ha), fun _ => rfl⟩
  · rintro b - node hring rfl
    rw [Node.findOwner, hring]
    cases s.node.ring.get (ringKey req.grainType req.grainKey) <;> simp
  · intro ids silos hring hnodes
    rw [← hnodes, hring.foldl_members]

open Cluster

def exampleClient : OrlandoClient :=
  ⟨ringOf exampleServer.ringMembers⟩

def answering : ClientWorld where
  send _ _ _ := .answered "" []
  members _ := none

theorem routes_alike_iff_example :
    (exampleClient.invoke answering (request "Counter" "k" "Add" [1] 0)).1.head? =
      exampleServer.node.ring.get (ringKey "Counter" "k") := by
  have howner : exampleServer.node.ring.get (ringKey "Counter" "k") = some siloB := by
    decide +kernel
  refine (routes_alike_iff exampleServer exampleClient rfl answering _).1.mpr fun a ha => ?_
  obtain rfl : siloB = a := Option.some.inj (howner.symm.trans ha)
  exact nearest_of_all (hashKey "silo-b:70") (by decide +kernel) (by decide +kernel)

/-- The client sends the call to the first silo, which forwards it to the second. -/
theorem routes_apart :
    connect (.ok exampleServer.ringMembers) = .ok exampleClient ∧
      exampleClient.ring.get (ringKey "Counter" "my-counter") = some siloA ∧
      exampleServer.node.localAddr = siloA ∧
      exampleServer.node.findOwner "Counter" "my-counter" = some siloB.endpoint := by
  refine ⟨?_, ?_, rfl, by decide +kernel⟩
  · have hmembers : exampleServer.ringMembers.isEmpty = false := by decide +kernel
    simp only [connect, hmembers]
    rfl
  · have hknows : exampleClient.Knows exampleServer := rfl
    rw [hknows.ring_eq, get_foldl_add]
    exact nearest_of_all (hashKey "silo-a:13") (by decide +kernel) (by decide +kernel)

def attempted (world : ClientWorld) (req : InvokeRequest) : ℕ → OrlandoClient → OrlandoClient
  | left, client =>
    match client.ring.get (ringKey req.grainType req.grainKey) with
    | none => client
    | some target =>
      match world.send left target req, left with
      | .answered _ _, _ | _, 0 => client
      | _, left + 1 => attempted world req left (client.refreshed world)

def after (client : OrlandoClient) : ClientCall → OrlandoClient
  | .refresh world => client.refreshed world
  | .invoke world req => attempted world req 1 client

open HashRing in
theorem members_ringOf {members} (h : members ≠ []) : (ringOf members).members ≠ [] := by
  obtain ⟨p, hp⟩ := exists_mem_of_ne_nil _ h
  obtain ⟨point, hpoint⟩ := exists_mem_hashes (show 0 < 150 by decide) (fromProtoAddr p).siloId
  have hsome : (ringOf members).ring.lookup point ≠ none := by
    rw [ringOf, lookup_foldl_add, new, Ne, Option.or_eq_none_iff, find?_eq_none]
    rintro ⟨hnone, -⟩
    exact hnone _ (mem_reverse.mpr (mem_map_of_mem hp)) (decide_eq_true hpoint)
  obtain ⟨a, ha⟩ := Option.ne_none_iff_exists'.mp hsome
  obtain ⟨b, hb, -⟩ := exists_mem_members (OrderedMap.mem_values.mpr ⟨point, ha⟩)
  exact ne_nil_of_mem hb

section
variable (hworld : ∀ silo, world.members silo ≠ some [])
include hworld

theorem members_refreshed (h : client.ring.members ≠ []) :
    (client.refreshed world).ring.members ≠ [] := by
  unfold refreshed refreshMembership
  cases hfind : client.ring.members.findSome? world.members with
  | none => exact h
  | some members =>
    obtain ⟨silo, -, hsilo⟩ := exists_of_findSome?_eq_some hfind
    refine members_ringOf fun hnil => hworld silo ?_
    rw [hsilo, hnil]

theorem members_attempted {req left} (h : client.ring.members ≠ []) :
    (attempted world req left client).ring.members ≠ [] := by
  induction left generalizing client with
  | zero =>
    unfold attempted
    cases client.ring.get (ringKey req.grainType req.grainKey) with
    | none => exact h
    | some target => cases hsend : world.send 0 target req <;> simpa only [hsend] using h
  | succ left ih =>
    unfold attempted
    cases client.ring.get (ringKey req.grainType req.grainKey) with
    | none => exact h
    | some target =>
      cases hsend : world.send (left + 1) target req with
      | answered error payload => simpa only [hsend] using h
      | _ => simpa only [hsend] using ih (members_refreshed hworld h)

end

/-- `refresh` takes an empty list, which `connect` refuses : a client keeps a silo to turn to as
long as no silo answers with one. -/
theorem ring_never_empty (answer : Except String (List ProtoSiloAddress)) (client : OrlandoClient)
    (hconnect : connect answer = .ok client) (calls : List ClientCall)
    (hanswers : ∀ c ∈ calls, ∀ silo, c.world.members silo ≠ some []) :
    (calls.foldl after client).ring.members ≠ [] := by
  have hfirst : client.ring.members ≠ [] := by
    cases answer with
    | error reason => cases hconnect
    | ok members =>
      simp only [connect] at hconnect
      split_ifs at hconnect with hempty
      cases hconnect
      exact members_ringOf fun hnil => hempty (hnil ▸ rfl)
  clear hconnect
  induction calls generalizing client with
  | nil => exact hfirst
  | cons c calls ih =>
    obtain ⟨hc, hcalls⟩ := forall_mem_cons.mp hanswers
    refine ih (client.after c) hcalls ?_
    cases c with
    | refresh world => exact members_refreshed hc hfirst
    | invoke world req => exact members_attempted hc hfirst

theorem single_never_empty : ([.refresh ⟨fun _ _ _ => .failed "", fun _ => some [⟨"h", 1, "a"⟩]⟩,
      .invoke ⟨fun _ _ _ => .failed "", fun _ => none⟩ (request "Counter" "k" "Add" [1] 0)].foldl
        after ⟨ringOf [⟨"h", 1, "a"⟩]⟩).ring.members ≠ [] := by
  refine ring_never_empty (.ok [⟨"h", 1, "a"⟩]) _ rfl _ fun c hc silo h => ?_
  simp only [mem_cons, not_mem_nil, or_false] at hc
  rcases hc with rfl | rfl <;> cases h

/-- A silo that has left the cluster lists nobody, and the client that asks it knows nobody. -/
theorem ring_emptied : connect (.ok [⟨"h", 1, "a"⟩]) = .ok ⟨ringOf [⟨"h", 1, "a"⟩]⟩ ∧
    ([.refresh ⟨fun _ _ _ => .failed "", fun _ => some []⟩].foldl after
      ⟨ringOf [⟨"h", 1, "a"⟩]⟩).ring.members = [] := by
  refine ⟨rfl, ?_⟩
  have hsome : (ringOf [⟨"h", 1, "a"⟩]).members.findSome? (fun _ => some []) =
      some ([] : List ProtoSiloAddress) := by
    obtain ⟨m, ms, hm⟩ := exists_cons_of_ne_nil (members_ringOf (cons_ne_nil _ []))
    rw [hm]
    rfl
  rw [foldl_cons, foldl_nil, after, refreshed, refreshMembership, hsome]
  rfl

end OrlandoClient

end Orlando
