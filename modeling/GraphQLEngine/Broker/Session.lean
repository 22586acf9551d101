import GraphQLEngine.Broker.Hub

/-!
# Sessions with brokers

A session makes calls on the nodes of a hub and refers to its registrations by labels.  After a
call the background work of the brokers runs, unless the call is one of a burst.
-/

namespace GraphQLEngine

inductive BrokerCall where
  | subscribe (node : Nat) (label topic : String) (filter : EventFilter) (policy : DeliveryPolicy)
  | publish (node : Nat) (topic : String) (event : Json)
  | receive (label : String)
  | unsubscribe (label : String)
  /-- Drop the receiver without releasing the registration. -/
  | forget (label : String)
  | count (node : Nat) (topic : String)
  | shutdown (node : Nat)

inductive BrokerAnswer where
  | registered (id : Nat) (topic : String) (capacity : Nat)
  | refused (error : BrokerError)
  | received (r : Received)
  /-- No receiver of that label is held. -/
  | notHeld
  | forgotten (held : Bool)
  | counted (n : Nat)
  /-- No registration ever had that label. -/
  | unknown
  | done

/-- A labelled registration of a node, and whether its receiver is still held. -/
structure LabelledRegistration where
  node : Nat
  id : Nat
  held : Bool

structure BrokerSession where
  hub : Hub
  labels : OrderedMap LabelledRegistration

namespace BrokerSession

def start (hub : Hub) : BrokerSession := ⟨hub, []⟩

def settle (s : BrokerSession) : BrokerSession := { s with hub := s.hub.settle }

/-- Receive, and if there is nothing yet, again after the background work. -/
def receive (s : BrokerSession) (r : LabelledRegistration) : BrokerSession × Received :=
  match s.hub.receive r.node r.id with
  | (_, .nothing) =>
    let (hub, received) := s.hub.settle.receive r.node r.id
    ({ s with hub }, received)
  | (hub, received) => ({ s with hub }, received)

def call (s : BrokerSession) : BrokerCall → BrokerSession × BrokerAnswer
  | .subscribe node label topic filter policy =>
    match s.hub.subscribe node topic filter policy with
    | .error e => (s, .refused e)
    | .ok (hub, id) =>
      (⟨hub, s.labels.insert label ⟨node, id, true⟩⟩, .registered id topic policy.capacity)
  | .publish node topic event => ({ s with hub := s.hub.publish node topic event }, .done)
  | .receive label =>
    match s.labels.lookup label with
    | some r =>
      if r.held then
        let (s, received) := s.receive r
        (s, .received received)
      else (s, .notHeld)
    | none => (s, .notHeld)
  | .unsubscribe label =>
    match s.labels.lookup label with
    | some r => ({ s with hub := s.hub.unsubscribe r.node r.id }, .done)
    | none => (s, .unknown)
  | .forget label =>
    match s.labels.lookup label with
    | some r => ({ s with labels := s.labels.insert label { r with held := false } },
      .forgotten r.held)
    | none => (s, .forgotten false)
  | .count node topic => (s, .counted (s.hub.count node topic))
  | .shutdown node => ({ s with hub := s.hub.shutdown node }, .done)

/-- The answers to calls, each with whether it is one of a burst. -/
def answers (s : BrokerSession) : List (BrokerCall × Bool) → List BrokerAnswer
  | [] => []
  | (call, burst) :: rest =>
    let (s, answer) := s.call call
    answer :: answers (if burst then s else s.settle) rest

end BrokerSession

end GraphQLEngine
