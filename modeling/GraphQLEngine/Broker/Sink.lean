import GraphQLEngine.Broker.Policy

/-!
# Sinks

A sink is the bounded queue between a broker and one subscriber.  Pushing never waits: the delivery
policy decides what happens to an event for which there is no room.  A sink that is closed still
gives out what it holds, and one that overflowed reports that once, after its queue.

    (push s e).1.queue.length ≤ capacity                 if s.queue.length ≤ capacity
-/

namespace GraphQLEngine

inductive SinkStatus where
  | active
  | closed
  /-- Closed by an overflow that the receiver has not been told of. -/
  | overflowed
deriving DecidableEq, Repr, Inhabited

structure Sink where
  policy : DeliveryPolicy
  /-- The events that wait for the receiver, oldest first. -/
  queue : List Json
  status : SinkStatus
deriving Inhabited

/-- What became of a pushed event. -/
inductive PushOutcome where
  | queued
  /-- It was queued in the place of the oldest one. -/
  | droppedOldest
  | droppedNewest
  /-- It had no room, and the sink is closed now. -/
  | overflowed
  | closed
deriving DecidableEq, Repr, Inhabited

/-- What a receiver finds. -/
inductive Received where
  | event (e : Json)
  /-- More events than the capacity were pending. -/
  | overflow (capacity : Nat)
  | ended
  /-- Nothing yet: the sink is empty and open. -/
  | nothing
deriving Inhabited

/-- The report that a subscriber fell behind. -/
def overflowMessage (capacity : Nat) : String :=
  "Subscriber fell behind: more than " ++ toString capacity ++ " events were pending"

namespace Sink

def new (policy : DeliveryPolicy) : Sink := ⟨policy, [], .active⟩

def isOpen (s : Sink) : Bool := s.status = .active

def push (s : Sink) (e : Json) : Sink × PushOutcome :=
  if s.status ≠ .active then (s, .closed)
  else if s.queue.length < s.policy.capacity then ({ s with queue := s.queue ++ [e] }, .queued)
  else
    match s.policy.mode with
    | .buffer => ({ s with status := .overflowed }, .overflowed)
    | .dropOldest => ({ s with queue := s.queue.tail ++ [e] }, .droppedOldest)
    | .dropNewest => (s, .droppedNewest)

def close (s : Sink) : Sink :=
  if s.status = .active then { s with status := .closed } else s

/-- Close an open sink whose policy does not allow for losses, as if it had overflowed. -/
def overflow (s : Sink) : Sink :=
  if s.policy.mode = .buffer ∧ s.status = .active then { s with status := .overflowed } else s

def receive (s : Sink) : Sink × Received :=
  match s.queue with
  | e :: rest => ({ s with queue := rest }, .event e)
  | [] =>
    match s.status with
    | .active => (s, .nothing)
    | .closed => (s, .ended)
    | .overflowed => ({ s with status := .closed }, .overflow s.policy.capacity)

/-! ## Lemmas -/

theorem policy_push (s : Sink) (e : Json) : (s.push e).1.policy = s.policy := by
  unfold push
  split
  · rfl
  · split
    · rfl
    · split <;> rfl

theorem length_queue_push (s : Sink) (e : Json) (pos : 0 < s.policy.capacity)
    (le : s.queue.length ≤ s.policy.capacity) :
    (s.push e).1.queue.length ≤ s.policy.capacity := by
  unfold push
  split
  · exact le
  · split
    · simp only [List.length_append, List.length_singleton]; omega
    · split
      · exact le
      · simp only [List.length_append, List.length_tail, List.length_singleton]; omega
      · exact le

end Sink

end GraphQLEngine
