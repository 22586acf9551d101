import GraphQLEngine.Broker.Network

/-!
# Hubs

Brokers as their callers see them: one in-process broker, or the nodes of a network.  Calls name a
node; a hub of one broker has only one.
-/

namespace GraphQLEngine

inductive Hub where
  | single (broker : InProcessBroker)
  | network (w : Network)

namespace Hub

instance : Inhabited Hub := ⟨.single .new⟩

/-- The broker that serves the subscribers of a node. -/
def broker (h : Hub) (node : Nat) : InProcessBroker :=
  match h with
  | .single b => b
  | .network w =>
    match w.nodes[node]? with
    | some n => n.broker
    | none => .new

def setBroker (h : Hub) (node : Nat) (b : InProcessBroker) : Hub :=
  match h with
  | .single _ => .single b
  | .network w => .network (w.modifyNode node fun n => { n with broker := b })

def subscribe (h : Hub) (node : Nat) (topic : String) (filter : EventFilter)
    (policy : DeliveryPolicy) : Except BrokerError (Hub × Nat) :=
  match (h.broker node).subscribe topic filter policy with
  | .error e => .error e
  | .ok (b, id) => .ok (h.setBroker node b, id)

def publish (h : Hub) (node : Nat) (topic : String) (event : Json) : Hub :=
  match h with
  | .single b => .single (b.publish topic event)
  | .network w => .network (w.publish node ⟨topic, event⟩)

def unsubscribe (h : Hub) (node id : Nat) : Hub :=
  h.setBroker node ((h.broker node).unsubscribe id)

def count (h : Hub) (node : Nat) (topic : String) : Nat := (h.broker node).count topic

def receive (h : Hub) (node id : Nat) : Hub × Received :=
  let (b, received) := (h.broker node).receive id
  (h.setBroker node b, received)

def shutdown (h : Hub) (node : Nat) : Hub :=
  match h with
  | .single b => .single b.shutdown
  | .network w => .network (w.shutdown node)

/-- Let the background work of the brokers run until there is none. -/
def settle : Hub → Hub
  | .single b => .single b
  | .network w => .network w.settle

end Hub

/-- How a registration is called where it is shown. -/
def registrationName (id : Nat) : String := "registration-" ++ toString id

end GraphQLEngine
