import GraphQLEngine.Broker.Bus
import GraphQLEngine.Broker.InProcess

/-!
# Brokers over a bus

The nodes of a network publish by way of a bus: a published event waits in the outbound queue of
its node, is forwarded to the bus, and reaches the subscribers of every node, those of its own node
too, when that node's listener reads it.  An event that finds the outbound queue full, and one that
a listener has missed, is lost; then the subscribers that must not miss any are closed.
-/

namespace GraphQLEngine

structure Node where
  broker : InProcessBroker
  outboundCapacity : Nat
  /-- The events that wait to be forwarded, oldest first. -/
  outbound : List BusMessage
  feed : Feed
  /-- Whether the node still reads its feed. -/
  listening : Bool
  /-- Whether the node was not shut down. -/
  running : Bool
deriving Inhabited

namespace Node

/-- A node whose outbound queue has room for `capacity` events, and for one at least. -/
def new (capacity : Nat) : Node := ⟨.new, max 1 capacity, [], .empty, true, true⟩

/-- Queue an event for the bus. -/
def publish (n : Node) (m : BusMessage) : Node :=
  if !n.running then n
  else if n.outbound.length < n.outboundCapacity then { n with outbound := n.outbound ++ [m] }
  else { n with broker := n.broker.overflowTopic m.topic }

/-- Put an item on the feed. -/
def hear (n : Node) (kept : Nat) (item : FeedItem) : Node :=
  { n with feed := n.feed.push kept item }

/-- Act on an item of the feed. -/
def receive (n : Node) (item : FeedItem) : Node :=
  if !n.listening then n
  else
    match item with
    | .message m => { n with broker := n.broker.publish m.topic m.payload }
    | .loss => { n with broker := n.broker.overflowEverywhere }
    | .finish => { n with listening := false }

/-- Read all of the feed. -/
def listen (n : Node) : Node := n.feed.items.foldl receive { n with feed := .empty }

/-- Close the node's subscribers, and neither forward nor listen any more. -/
def shutdown (n : Node) : Node :=
  { n with broker := n.broker.shutdown, outbound := [], listening := false, running := false }

end Node

structure Network where
  bus : Bus
  nodes : List Node
  /-- The nodes with events to forward, in the order in which the oldest of these came. -/
  waiting : List Nat

namespace Network

/-- A network of a node per outbound capacity. -/
def new (bus : Bus) (capacities : List Nat) : Network := ⟨bus, capacities.map Node.new, []⟩

def modifyNode (w : Network) (i : Nat) (f : Node → Node) : Network :=
  { w with nodes := w.nodes.modify i f }

/-- Publish on a node. -/
def publish (w : Network) (i : Nat) (m : BusMessage) : Network :=
  let w := w.modifyNode i (·.publish m)
  match w.nodes[i]? with
  | none => w
  | some n =>
    if n.outbound.isEmpty || w.waiting.contains i then w
    else { w with waiting := w.waiting ++ [i] }

/-- Hand one message to the bus. -/
def send (w : Network) (m : BusMessage) : Network :=
  match (w.bus.transmit m).item? m with
  | none => w
  | some item => { w with nodes := w.nodes.map (·.hear w.bus.capacity item) }

/-- Hand all that waits on a node to the bus. -/
def forward (w : Network) (i : Nat) : Network :=
  match w.nodes[i]? with
  | none => w
  | some n => n.outbound.foldl send (w.modifyNode i fun n => { n with outbound := [] })

/-- Forward what waits, and then let every node read its feed. -/
def settle (w : Network) : Network :=
  let w := w.waiting.foldl forward { w with waiting := [] }
  { w with nodes := w.nodes.map Node.listen }

def shutdown (w : Network) (i : Nat) : Network :=
  { w.modifyNode i Node.shutdown with waiting := w.waiting.filter (· ≠ i) }

end Network

end GraphQLEngine
