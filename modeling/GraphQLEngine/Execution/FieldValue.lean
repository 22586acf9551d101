import GraphQLEngine.Execution.World

/-!
# Field values

A resolver returns a value, a list of such, an error, or a value that is deferred until a loader
has fetched a key.  Deferred values are what lets all loads of a wave go into one fetch.

    andThen (value v) f s = f v s
    andThen (error e) f s = (error e, s)
-/

namespace GraphQLEngine

inductive FieldValue (σ : Type) where
  | value (v : Json)
  /-- Items that settle, or fail, each on its own. -/
  | list (items : List (FieldValue σ))
  /-- What `resume` makes of the value that a loader has for `key`; a failed load is an error. -/
  | deferred (loader : Nat) (key : LoadKey) (resume : Json → Scope σ → FieldValue σ × Scope σ)
  | error (e : FieldError)

/-- What is done with a value once it is there. -/
abbrev Continuation (σ : Type) := Json → Scope σ → FieldValue σ × Scope σ

namespace FieldValue

variable {σ : Type}

instance : Inhabited (FieldValue σ) := ⟨.value .null⟩

/-- The value that a loader has for a key. -/
def load (loader : Nat) (key : LoadKey) : FieldValue σ :=
  .deferred loader key fun v s => (.value v, s)

/-- The values that a loader has for keys. -/
def loadMany (loader : Nat) (keys : List LoadKey) : FieldValue σ := .list (keys.map (load loader))

mutual

/-- Go on with a value, at once or when it has been loaded; lists and errors stay as they are. -/
def andThen : FieldValue σ → Continuation σ → Scope σ → FieldValue σ × Scope σ
  | .value v, f, s => f v s
  | .deferred loader key resume, f, s =>
    (.deferred loader key fun v s => andThenResult (resume v s) f, s)
  | .list items, _, s => (.list items, s)
  | .error e, _, s => (.error e, s)

def andThenResult : FieldValue σ × Scope σ → Continuation σ → FieldValue σ × Scope σ
  | (v, s), f => andThen v f s

end

mutual

/-- The loads that the value waits for, from left to right. -/
def loads : FieldValue σ → List (Nat × LoadKey)
  | .value _ | .error _ => []
  | .deferred loader key _ => [(loader, key)]
  | .list items => loadsOfItems items

def loadsOfItems : List (FieldValue σ) → List (Nat × LoadKey)
  | [] => []
  | v :: vs => loads v ++ loadsOfItems vs

end

mutual

/-- Whether nothing in the value waits for a load. -/
def isSettled : FieldValue σ → Bool
  | .value _ | .error _ => true
  | .deferred .. => false
  | .list items => itemsSettled items

def itemsSettled : List (FieldValue σ) → Bool
  | [] => true
  | v :: vs => isSettled v && itemsSettled vs

end

end FieldValue

/-- A value in which nothing waits for a load. -/
inductive Settled where
  | value (v : Json)
  | list (items : List Settled)
  | error (e : FieldError)
deriving Inhabited

namespace FieldValue

variable {σ : Type}

mutual

/-- The settled value, in which a load that is still waited for is an error. -/
def abandon : FieldValue σ → Settled
  | .value v => .value v
  | .list items => .list (abandonItems items)
  | .deferred loader _ _ =>
    .error (.internal ("Load from '" ++ toString loader ++ "' was never flushed"))
  | .error e => .error e

def abandonItems : List (FieldValue σ) → List Settled
  | [] => []
  | v :: vs => abandon v :: abandonItems vs

end

end FieldValue

end GraphQLEngine
