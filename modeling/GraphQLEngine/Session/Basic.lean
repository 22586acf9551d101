import GraphQLEngine.Engine.Subscribe

/-!
# Sessions on an engine

A session runs operations on one engine and holds the streams of its subscriptions.  Its clock
stands still while anything is ready to go on; when all waits, it jumps to the next instant at
which a timer, a resolver or a fetch is due.  At every instant the operation at hand goes first and
then the background: timers, the release of cancelled subscriptions, and the work of the brokers.
-/

namespace GraphQLEngine

/-- What an operation of a session runs in. -/
structure OperationContext where
  identity : Identity
  /-- The number of its signal. -/
  operation : Nat
  coordinator : Coordinator

/-- A subscription of a session; its stream is gone once it was dropped. -/
structure HeldStream (σ : Type) where
  operation : Nat
  stream : Option (SubscriptionStream σ)

structure Session (σ : Type) where
  engine : Engine σ
  world : World σ
  /-- The contexts that are kept, by name. -/
  contexts : OrderedMap OperationContext
  /-- The subscriptions by label. -/
  streams : OrderedMap (HeldStream σ)

namespace Session

variable {σ : Type}

def start (e : Engine σ) (hub : Hub) (store : σ) : Session σ := ⟨e, .start hub store, [], []⟩

/-- Let the background work run until there is none. -/
def settle (s : Session σ) : Session σ :=
  let w := { s.world with signals := s.world.signals.fireDue s.world.clock }
  let w := s.streams.foldl
    (fun w (_, held) =>
      match held.stream with
      | some stream => stream.watch w
      | none => w) w
  { s with world := { w with hub := w.hub.settle } }

/-- What an activity does when it is polled: it goes on or is over. -/
abbrev Activity (σ β α : Type) := β → World σ → (β ⊕ α) × World σ

/-- The earlier of two instants, of which either may be missing. -/
def earlier : Option Nat → Option Nat → Option Nat
  | some a, some b => some (min a b)
  | some a, none => some a
  | none, b => b

/-- Poll an activity now, and again after the background work. -/
def pollTwice (s : Session σ) (poll : Activity σ β α) (b : β) : (β ⊕ α) × Session σ :=
  match poll b s.world with
  | (.inr a, w) => (.inr a, { s with world := w })
  | (.inl b, w) =>
    let s := settle { s with world := w }
    let r := poll b s.world
    (r.1, { s with world := r.2 })

/-- Run an activity until it is over, for at most `instants` jumps of the clock; `due` is when it
can go on by itself. -/
def run (poll : Activity σ β α) (due : β → Option Nat) : Nat → Session σ → β →
    Option α × Session σ
  | 0, s, _ => (none, s)
  | instants + 1, s, b =>
    match s.pollTwice poll b with
    | (.inr a, s) => (some a, s)
    | (.inl b, s) =>
      match earlier (due b) s.world.signals.nextDeadline? with
      | none => (none, s)
      | some instant =>
        run poll due instants
          { s with world := { s.world with clock := max s.world.clock instant } } b

/-- The most jumps of the clock that one step may take. -/
def patience : Nat := 1000000

/-- Let time pass. -/
def advance (s : Session σ) (ms : Nat) : Session σ :=
  let limit := s.world.clock + ms
  let poll : Activity σ Unit Unit := fun _ w =>
    if limit ≤ w.clock then (.inr (), w) else (.inl (), w)
  (run poll (fun _ => some limit) patience s ()).2

end Session

end GraphQLEngine
