import GraphQLEngine.Broker.Sink
import GraphQLEngine.OrderedMap
import GraphQLEngine.Text.Blank

/-!
# The broker of one process

Subscribers are grouped by topic, and a published event is offered to the sink of each subscriber
of its topic whose filter accepts it.  Registrations are numbered from zero and never reused; a
registration that is released leaves its sink to its receiver.
-/

namespace GraphQLEngine

abbrev EventFilter := Json → Bool

structure Subscriber where
  id : Nat
  filter : EventFilter

inductive BrokerError where
  | invalidTopic (topic : String)
  | invalidCapacity
  | shutDown
deriving DecidableEq, Repr

def BrokerError.message : BrokerError → String
  | .invalidTopic topic => "Invalid topic '" ++ topic ++ "'"
  | .invalidCapacity => "Subscriber capacity must be at least 1"
  | .shutDown => "Event broker has been shut down"

structure InProcessBroker where
  /-- The subscribers of each topic that has any. -/
  groups : OrderedMap (List Subscriber)
  /-- The topic of each registration that has not been released. -/
  topics : List (Nat × String)
  /-- The sinks of all registrations ever made, by number. -/
  sinks : List Sink
  shutDown : Bool
deriving Inhabited

namespace InProcessBroker

def new : InProcessBroker := ⟨[], [], [], false⟩

def subscribers (b : InProcessBroker) (topic : String) : List Subscriber :=
  (b.groups.lookup topic).getD []

def count (b : InProcessBroker) (topic : String) : Nat := (b.subscribers topic).length

/-- Release a registration and close its sink; nothing if it is not registered. -/
def unsubscribe (b : InProcessBroker) (id : Nat) : InProcessBroker :=
  match b.topics.lookup id with
  | none => b
  | some topic =>
    let others := (b.subscribers topic).filter (·.id ≠ id)
    { b with
      groups :=
        if others.isEmpty then OrderedMap.erase b.groups topic
        else OrderedMap.insert b.groups topic others
      topics := b.topics.filter (·.1 ≠ id)
      sinks := b.sinks.modify id Sink.close }

def unsubscribeAll (b : InProcessBroker) (ids : List Nat) : InProcessBroker :=
  ids.foldl unsubscribe b

/-- Register a subscriber.  The topic must not be blank nor the capacity zero. -/
def subscribe (b : InProcessBroker) (topic : String) (filter : EventFilter)
    (policy : DeliveryPolicy) : Except BrokerError (InProcessBroker × Nat) :=
  if Text.isBlankText topic then .error (.invalidTopic topic)
  else if policy.capacity = 0 then .error .invalidCapacity
  else if b.shutDown then .error .shutDown
  else
    let id := b.sinks.length
    .ok ({ b with
      groups := OrderedMap.insert b.groups topic (b.subscribers topic ++ [⟨id, filter⟩])
      topics := b.topics ++ [(id, topic)]
      sinks := b.sinks ++ [.new policy] }, id)

/-- Offer an event to one subscriber; one whose sink is closed, or overflows, is to be released. -/
def offer (event : Json) (sinks : List Sink) (s : Subscriber) : List Sink × Bool :=
  match s.filter event, sinks[s.id]? with
  | true, some sink =>
    let (sink, outcome) := sink.push event
    (sinks.set s.id sink, outcome = .overflowed ∨ outcome = .closed)
  | _, _ => (sinks, false)

/-- Offer an event to the subscribers in turn; the second part are those to be released. -/
def offerAll (event : Json) (sinks : List Sink) : List Subscriber → List Sink × List Nat
  | [] => (sinks, [])
  | s :: rest =>
    let (sinks, behind) := offer event sinks s
    let (sinks, ids) := offerAll event sinks rest
    (sinks, if behind then s.id :: ids else ids)

/-- Deliver an event to the subscribers of its topic; nothing after the shutdown. -/
def publish (b : InProcessBroker) (topic : String) (event : Json) : InProcessBroker :=
  if b.shutDown then b
  else
    let (sinks, behind) := offerAll event b.sinks (b.subscribers topic)
    unsubscribeAll { b with sinks } behind

/-- Close every registration and accept no more. -/
def shutdown (b : InProcessBroker) : InProcessBroker :=
  unsubscribeAll { b with shutDown := true } (b.topics.map Prod.fst)

/-- Take what the receiver of a registration finds. -/
def receive (b : InProcessBroker) (id : Nat) : InProcessBroker × Received :=
  match b.sinks[id]? with
  | none => (b, .ended)
  | some sink =>
    let (sink, received) := sink.receive
    ({ b with sinks := b.sinks.set id sink }, received)

/-- After a loss of events: overflow the open sinks of the given registrations that must not miss
any, and release these. -/
def overflowAll (b : InProcessBroker) (ids : List Nat) : InProcessBroker :=
  let hit := ids.filter fun id =>
    match b.sinks[id]? with
    | some sink => sink.isOpen && sink.policy.mode == .buffer
    | none => false
  let sinks := hit.foldl (fun sinks id => sinks.modify id Sink.overflow) b.sinks
  unsubscribeAll { b with sinks } hit

/-- After a loss of events of one topic. -/
def overflowTopic (b : InProcessBroker) (topic : String) : InProcessBroker :=
  b.overflowAll ((b.subscribers topic).map (·.id))

/-- After a loss of events of unknown topics. -/
def overflowEverywhere (b : InProcessBroker) : InProcessBroker :=
  b.overflowAll (b.groups.flatMap fun (_, group) => group.map (·.id))

end InProcessBroker

end GraphQLEngine
