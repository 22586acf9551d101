import GraphQLEngine.Broker.Hub
import GraphQLEngine.Cancellation.Signals
import GraphQLEngine.Execution.Error
import GraphQLEngine.Text.Quoted

/-!
# The world around operations

All operations share a clock, their cancellation signals, the broker, a store for the resolvers'
own use, and a log of what resolvers and loaders did.  A resolver works in a scope: it may change
the store and ask for effects, which take place when it returns.
-/

namespace GraphQLEngine

/-- What a loader fetches a value by. -/
inductive LoadKey where
  | text (s : String)
  | integer (n : Int)
deriving DecidableEq, Repr, Inhabited

def LoadKey.render : LoadKey → String
  | .text s => Text.quoted s
  | .integer n => toString n

/-- What a resolver asks for besides its result. -/
inductive Effect where
  | publish (topic : String) (event : Json)
  /-- Set the signal of the operation that was started last. -/
  | cancelLatest (reason : CancelReason)
  /-- Ask a loader for a key, whether or not the returned value waits for it. -/
  | load (loader : Nat) (key : LoadKey)
deriving Inhabited

/-- The load that is asked for, if it is one. -/
def Effect.load? : Effect → Option (Nat × LoadKey)
  | .load loader key => some (loader, key)
  | _ => none

structure Scope (σ : Type) where
  signals : Signals
  /-- The signal of the operation that the resolver works for. -/
  operation : Nat
  /-- The signal of the operation that was started last. -/
  latest : Nat
  /-- What was asked for, oldest first. -/
  effects : List Effect
  store : σ

namespace Scope

variable {σ : Type}

def isCancelled (s : Scope σ) : Bool := s.signals.isCancelled s.operation

def publish (s : Scope σ) (topic : String) (event : Json) : Scope σ :=
  { s with effects := s.effects ++ [.publish topic event] }

def cancelLatest (s : Scope σ) (reason : CancelReason) : Scope σ :=
  { s with
    signals := s.signals.cancel s.latest reason
    effects := s.effects ++ [.cancelLatest reason] }

/-- Ask a loader for a key. -/
def request (s : Scope σ) (loader : Nat) (key : LoadKey) : Scope σ :=
  { s with effects := s.effects ++ [.load loader key] }

/-- The loads that were asked for, oldest first. -/
def requests (s : Scope σ) : List (Nat × LoadKey) := s.effects.filterMap Effect.load?

end Scope

/-- What happened, in the order in which it did. -/
inductive LogEntry where
  | resolverStarted (typeName fieldName : String) (path : Path)
  | resolverReturned (typeName fieldName : String) (path : Path)
  | fetchStarted (loader : String) (keys : List LoadKey)
  | fetchReturned (loader : String) (keys : List LoadKey)
deriving Inhabited

structure World (σ : Type) where
  /-- In milliseconds. -/
  clock : Nat
  signals : Signals
  /-- The signal of the operation that was started last. -/
  latest : Nat
  hub : Hub
  store : σ
  log : List LogEntry

namespace World

variable {σ : Type}

/-- The node of the hub that operations publish and subscribe on. -/
def node : Nat := 0

def start (hub : Hub) (store : σ) : World σ := ⟨0, .empty, 0, hub, store, []⟩

def record (w : World σ) (entry : LogEntry) : World σ := { w with log := w.log ++ [entry] }

def perform (w : World σ) : Effect → World σ
  | .publish topic event => { w with hub := w.hub.publish node topic event }
  | .cancelLatest reason => { w with signals := w.signals.cancel w.latest reason }
  | .load .. => w

/-- The scope of a resolver that works for an operation. -/
def scope (w : World σ) (operation : Nat) : Scope σ :=
  ⟨w.signals, operation, w.latest, [], w.store⟩

/-- The world after a resolver has left its scope. -/
def absorb (w : World σ) (s : Scope σ) : World σ :=
  s.effects.foldl perform { w with store := s.store }

end World

end GraphQLEngine
