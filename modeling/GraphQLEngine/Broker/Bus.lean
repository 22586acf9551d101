import GraphQLEngine.Json.Basic

/-!
# Message buses

A bus carries messages to every listener.  It may refuse a message, lose it on the way, or close.
A listener reads from its feed, which holds no more than the bus keeps: of a longer backlog the
oldest items are gone, and one report of the loss comes before those that are left.
-/

namespace GraphQLEngine

structure BusMessage where
  topic : String
  payload : Json
deriving Inhabited

/-- What a listener reads. -/
inductive FeedItem where
  | message (m : BusMessage)
  /-- Messages that were meant for this listener are lost. -/
  | loss
  /-- Nothing more will come. -/
  | finish
deriving Inhabited

/-- How a bus handles a message. -/
inductive Transmission where
  | deliver
  | refuse
  | lose
  | close
deriving DecidableEq, Repr, Inhabited

/-- What the listeners are given for a message. -/
def Transmission.item? (m : BusMessage) : Transmission → Option FeedItem
  | .deliver => some (.message m)
  | .refuse => none
  | .lose => some .loss
  | .close => some .finish

structure Bus where
  /-- The number of items that the bus keeps for a listener. -/
  capacity : Nat
  transmit : BusMessage → Transmission

/-- The least power of two that is at least `n`, found by at most `n` doublings of `p`. -/
def doubleUntil (n p : Nat) : Nat → Nat
  | 0 => p
  | steps + 1 => if n ≤ p then p else doubleUntil n (2 * p) steps

/-- The number of items kept by a bus of a capacity: it is rounded up to a power of two. -/
def keptItems (capacity : Nat) : Nat := doubleUntil capacity 1 capacity

/-- A bus that delivers everything. -/
def Bus.reliable (capacity : Nat) : Bus := ⟨keptItems capacity, fun _ => .deliver⟩

structure Feed where
  /-- Whether items were lost ahead of the backlog. -/
  behind : Bool
  backlog : List FeedItem
deriving Inhabited

namespace Feed

def empty : Feed := ⟨false, []⟩

/-- Add an item at the end of a feed of at most `kept` items. -/
def push (f : Feed) (kept : Nat) (item : FeedItem) : Feed :=
  let backlog := f.backlog ++ [item]
  if kept < backlog.length then ⟨true, backlog.drop (backlog.length - kept)⟩
  else { f with backlog }

/-- All that the listener reads until the feed is empty. -/
def items (f : Feed) : List FeedItem := if f.behind then .loss :: f.backlog else f.backlog

end Feed

end GraphQLEngine
