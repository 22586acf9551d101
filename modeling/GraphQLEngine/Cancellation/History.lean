import GraphQLEngine.Cancellation.Signals

/-!
# The history of one signal

Calls on one signal beside the clock: setting it, setting timers, waiting for it and letting time
pass.  After each call the timers that are due fire.
-/

namespace GraphQLEngine

inductive SignalCall where
  | cancel (reason : CancelReason)
  /-- Set a timer that is due after `ms`. -/
  | timeOutAfter (ms : Nat)
  /-- Wait until the signal is set, for at most `ms`. -/
  | wait (ms : Nat)
  | advance (ms : Nat)
deriving DecidableEq, Repr, Inhabited

structure ClockedSignal where
  clock : Nat
  signals : Signals
deriving Inhabited

namespace ClockedSignal

/-- A signal that is not set, at the start of the clock. -/
def start : ClockedSignal := ⟨0, Signals.empty.create⟩

def reason? (c : ClockedSignal) : Option CancelReason := c.signals.reason? 0

def fire (c : ClockedSignal) : ClockedSignal :=
  { c with signals := c.signals.fireDue c.clock }

/-- Where the clock stands after a wait: at the end of it, or earlier at the timer that sets the
signal; a signal that is set already is not waited for. -/
def afterWait (c : ClockedSignal) (ms : Nat) : Nat :=
  if c.reason?.isSome then c.clock
  else
    match c.signals.nextDeadline? with
    | none => c.clock + ms
    | some deadline => min (c.clock + ms) (max c.clock deadline)

def call (c : ClockedSignal) : SignalCall → ClockedSignal
  | .cancel reason => fire { c with signals := c.signals.cancel 0 reason }
  | .timeOutAfter ms =>
    fire { c with signals := c.signals.schedule ⟨c.clock + ms, 0, .timedOut⟩ }
  | .wait ms => fire { c with clock := c.afterWait ms }
  | .advance ms => fire { c with clock := c.clock + ms }

/-- The reason after each of the calls. -/
def reasons (c : ClockedSignal) : List SignalCall → List (Option CancelReason)
  | [] => []
  | k :: ks => (c.call k).reason? :: reasons (c.call k) ks

end ClockedSignal

end GraphQLEngine
