/-!
# Cancellation signals

An operation has a signal that others may set to stop it.  A signal keeps the first cause it was
given.  Timers set a signal at a point of the clock, which counts milliseconds.

    reason? (cancel s n r) n = some (reason of n before, or else r)
    reason? (cancel s n r) m = reason? s m               if m ≠ n
-/

namespace GraphQLEngine

inductive CancelReason where
  | cancelled
  | timedOut
deriving DecidableEq, Repr, Inhabited

def CancelReason.label : CancelReason → String
  | .cancelled => "cancelled"
  | .timedOut => "timed_out"

def CancelReason.ofLabel? : String → Option CancelReason
  | "cancelled" => some .cancelled
  | "timed_out" => some .timedOut
  | _ => none

structure Timer where
  deadline : Nat
  /-- The number of the signal to set. -/
  signal : Nat
  reason : CancelReason
deriving DecidableEq, Repr, Inhabited

structure Signals where
  /-- The reason of each signal, by its number. -/
  reasons : List (Option CancelReason)
  /-- The timers that have not fired, in the order in which they were set. -/
  timers : List Timer
deriving Inhabited

namespace Signals

def empty : Signals := ⟨[], []⟩

/-- The number of the next new signal. -/
def next (s : Signals) : Nat := s.reasons.length

/-- Add a signal that is not set. -/
def create (s : Signals) : Signals := { s with reasons := s.reasons ++ [none] }

def reason? (s : Signals) (n : Nat) : Option CancelReason := (s.reasons[n]?).join

def isCancelled (s : Signals) (n : Nat) : Bool := (s.reason? n).isSome

/-- Set a signal; one that is set keeps its reason. -/
def cancel (s : Signals) (n : Nat) (reason : CancelReason) : Signals :=
  { s with reasons := s.reasons.modify n fun old => some (old.getD reason) }

/-- Set a signal at a point of the clock, unless it is set by then. -/
def schedule (s : Signals) (t : Timer) : Signals := { s with timers := s.timers ++ [t] }

/-- Let the timers fire that are due, the earlier before the later, of one instant the older
before the newer. -/
def fireDue (s : Signals) (now : Nat) : Signals :=
  let due := (s.timers.filter (·.deadline ≤ now)).mergeSort fun a b => a.deadline ≤ b.deadline
  due.foldl (fun s t => s.cancel t.signal t.reason)
    { s with timers := s.timers.filter (now < ·.deadline) }

/-- When the next timer fires. -/
def nextDeadline? (s : Signals) : Option Nat := (s.timers.map (·.deadline)).min?

/-! ## Lemmas -/

theorem reason_cancel_self (s : Signals) {n : Nat} (reason : CancelReason) (h : n < s.next) :
    (s.cancel n reason).reason? n = some ((s.reason? n).getD reason) := by
  have h' : n < s.reasons.length := h
  simp [reason?, cancel, h']

theorem reason_cancel_of_ne (s : Signals) {n m : Nat} (reason : CancelReason) (h : m ≠ n) :
    (s.cancel n reason).reason? m = s.reason? m := by
  have : n ≠ m := fun e => h e.symm
  simp [reason?, cancel, this]

end Signals

end GraphQLEngine
