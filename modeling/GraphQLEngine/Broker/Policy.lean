import GraphQLEngine.Json.Basic

/-!
# Delivery policies

What happens to an event for which a subscriber's queue has no room.
-/

namespace GraphQLEngine

inductive OverflowMode where
  /-- The subscription ends with an error after its queued events. -/
  | buffer
  /-- The oldest queued event makes room. -/
  | dropOldest
  /-- The event is discarded. -/
  | dropNewest
deriving DecidableEq, Repr, Inhabited

namespace OverflowMode

def label : OverflowMode → String
  | .buffer => "buffer"
  | .dropOldest => "drop-oldest"
  | .dropNewest => "drop-newest"

def ofLabel? : String → Option OverflowMode
  | "buffer" => some .buffer
  | "drop-oldest" => some .dropOldest
  | "drop-newest" => some .dropNewest
  | _ => none

theorem ofLabel_label (m : OverflowMode) : ofLabel? m.label = some m := by cases m <;> rfl

end OverflowMode

/-- A mode and the number of events that a queue holds. -/
structure DeliveryPolicy where
  mode : OverflowMode
  capacity : Nat
deriving DecidableEq, Repr, Inhabited

namespace DeliveryPolicy

def toJson (p : DeliveryPolicy) : Json :=
  .obj [("mode", .str p.mode.label), ("capacity", .nat p.capacity)]

def ofJson? (j : Json) : Option DeliveryPolicy := do
  let mode ← OverflowMode.ofLabel? (← (← j.get? "mode").string?)
  let capacity ← (← j.get? "capacity").nat?
  pure ⟨mode, capacity⟩

end DeliveryPolicy

end GraphQLEngine
