import GraphQLEngine.Broker.Session
import GraphQLEngine.Proofs.Brokers.Feeds

/-!
# Nodes and their tasks, move by move

The callers, the forwarders, the bus and the listeners of a network take turns in any order.  A
forwarder takes one event in hand and waits for the bus to answer; the bus treats every listener
as it pleases; a listener acts on one item of its feed at a time.  What a network does in one go is
some order of these moves.

    stations (settle w) = run (stations w) moves          for some background moves
-/

namespace GraphQLEngine

/-- What the bus does with a message for one listener, and how many items it keeps for it. -/
structure Handling where
  kept : Nat
  how : Transmission

/-- A node, and the event that its forwarder has in hand. -/
structure Station where
  node : Node
  sending : Option BusMessage

namespace Station

/-- A station whose outbound queue has room for `capacity` events, and for one at least. -/
def new (capacity : Nat) : Station := ⟨.new capacity, none⟩

def onNode (f : Node → Node) (s : Station) : Station := { s with node := f s.node }

def onBroker (f : InProcessBroker → InProcessBroker) : Station → Station :=
  onNode fun n => { n with broker := f n.broker }

/-- Register a subscriber, unless the broker refuses. -/
def subscribe (topic : String) (filter : EventFilter) (policy : DeliveryPolicy) :
    Station → Station :=
  onBroker fun b =>
    match b.subscribe topic filter policy with
    | .ok (b, _) => b
    | .error _ => b

/-- The forwarder takes the oldest event, if it has none in hand. -/
def take (s : Station) : Station :=
  match s.sending, s.node.outbound with
  | none, m :: rest => ⟨{ s.node with outbound := rest }, some m⟩
  | _, _ => s

/-- The bus treats a message for this listener. -/
def carry (m : BusMessage) (h : Handling) (s : Station) : Station :=
  match h.how.item? m with
  | none => s
  | some item => s.onNode (·.hear h.kept item)

/-- The listener acts on the first item of its feed. -/
def listen (s : Station) : Station :=
  match s.node.feed.next? with
  | none => s
  | some (item, feed) => s.onNode fun n => { n with feed }.receive item

/-- Shut the node down, and drop what its forwarder has in hand. -/
def shutdown (s : Station) : Station := ⟨s.node.shutdown, none⟩

end Station

inductive Move where
  | subscribe (i : Nat) (topic : String) (filter : EventFilter) (policy : DeliveryPolicy)
  | unsubscribe (i id : Nat)
  | publish (i : Nat) (m : BusMessage)
  | receive (i id : Nat)
  | shutdown (i : Nat)
  | take (i : Nat)
  /-- The bus answers for the event that a forwarder has in hand. -/
  | answer (i : Nat) (handling : Nat → Handling)
  /-- The bus puts an item on a feed of its own accord. -/
  | hear (i kept : Nat) (item : FeedItem)
  | listen (i : Nat)

/-- A move of a forwarder, of a listener, or of a bus that treats a message alike for all. -/
def Move.Background (bus : Bus) : Move → Prop
  | .take _ | .listen _ => True
  | .answer _ handling => ∃ m, handling = fun _ => ⟨bus.capacity, bus.transmit m⟩
  | _ => False

/-- The stations of a network, by number. -/
abbrev Cluster := List Station

namespace Cluster

def new (capacities : List Nat) : Cluster := capacities.map Station.new

/-- The bus treats a message for every listener. -/
def carry (w : Cluster) (m : BusMessage) (handling : Nat → Handling) : Cluster :=
  w.mapIdx fun j s => s.carry m (handling j)

/-- The event that the forwarder of a station has in hand. -/
def inHand (w : Cluster) (i : Nat) : Option BusMessage := w[i]?.bind (·.sending)

def act (w : Cluster) : Move → Cluster
  | .subscribe i topic filter policy => w.modify i (·.subscribe topic filter policy)
  | .unsubscribe i id => w.modify i (·.onBroker (·.unsubscribe id))
  | .publish i m => w.modify i (·.onNode (·.publish m))
  | .receive i id => w.modify i (·.onBroker fun b => (b.receive id).1)
  | .shutdown i => w.modify i Station.shutdown
  | .take i => w.modify i Station.take
  | .answer i handling =>
    match w.inHand i with
    | none => w
    | some m => carry (w.modify i ({ · with sending := none })) m handling
  | .hear i kept item => w.modify i (·.onNode (·.hear kept item))
  | .listen i => w.modify i Station.listen

def run (w : Cluster) (moves : List Move) : Cluster := moves.foldl act w

/-- What is seen of each move of a run, in order. -/
def gather {α : Type} (see : Cluster → Move → List α) (w : Cluster) : List Move → List α
  | [] => []
  | move :: moves => see w move ++ gather see (w.act move) moves

/-! ## What is seen of a move -/

/-- The event that a station is asked to publish. -/
def asked (w : Cluster) : Move → List BusMessage
  | .publish i m => if i < w.length then [m] else []
  | _ => []

/-- The message that the listener of station `k` hands to its broker. -/
def heard (k : Nat) (w : Cluster) : Move → List BusMessage
  | .listen i =>
    match w[i]? with
    | some s =>
      if i = k ∧ s.node.listening then
        ((s.node.feed.next?.map Prod.fst).bind FeedItem.message?).toList
      else []
    | none => []
  | _ => []

/-- What a receiver of a registration of station `k` finds. -/
def found (k id : Nat) (w : Cluster) : Move → List Received
  | .receive i j =>
    match w[i]? with
    | some s => if i = k ∧ j = id then [(s.node.broker.receive id).2] else []
    | none => []
  | _ => []

/-- The messages that from this move on will not reach station `k`, which is not told of it: those
published on a station that was shut down, or on another one whose outbound queue is full; those
that a station drops as it is shut down; and those that the bus refuses, or that come when the
stream of station `k` has ended. -/
def lost (k : Nat) (w : Cluster) : Move → List BusMessage
  | .publish i m =>
    match w[i]? with
    | some s =>
      if s.node.running ∧ (i = k ∨ s.node.outbound.length < s.node.outboundCapacity) then []
      else [m]
    | none => []
  | .shutdown i =>
    match w[i]? with
    | some s => s.sending.toList ++ s.node.outbound
    | none => []
  | .answer i handling =>
    match w.inHand i, w[k]? with
    | some m, some s =>
      if s.node.deaf ∨ (handling k).how = .refuse ∨ (handling k).how = .close then [m] else []
    | _, _ => []
  | _ => []

/-- Nothing waits to be forwarded, and no listener has anything left to read. -/
def Idle (w : Cluster) : Prop :=
  ∀ s ∈ w, s.node.outbound = [] ∧ s.sending = none ∧
    (s.node.listening = true → s.node.feed.items = [])

/-! ## Runs -/

theorem act_answer {w : Cluster} {i : Nat} {m : BusMessage} (hand : w.inHand i = some m)
    (handling : Nat → Handling) :
    w.act (.answer i handling) = carry (w.modify i ({ · with sending := none })) m handling := by
  simp only [act, hand]

theorem run_append (w : Cluster) (ms ns : List Move) : w.run (ms ++ ns) = (w.run ms).run ns :=
  List.foldl_append

end Cluster

end GraphQLEngine
