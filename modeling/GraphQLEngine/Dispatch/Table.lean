import GraphQLEngine.Schema.Reachable

/-!
# Dispatch tables

A dispatch table names the resolver of each field.  It is built by registering resolvers and is
then sealed against a schema: every registered field must be one of the schema, and every
reachable field must have a resolver, of the subscription kind on the subscription root and of the
field kind elsewhere.

    find? (insert t k h) k = some h                      if k is new in t
    sealFor t s = ok t   only if every reachable field has an entry of its kind
-/

namespace GraphQLEngine

/-- A field of a type. -/
structure FieldKey where
  typeName : String
  fieldName : String
deriving DecidableEq, Repr, Inhabited

namespace FieldKey

def render (k : FieldKey) : String := k.typeName ++ "." ++ k.fieldName

/-- The order by type and then by field. -/
def before (a b : FieldKey) : Bool :=
  a.typeName < b.typeName || (a.typeName == b.typeName && a.fieldName < b.fieldName)

end FieldKey

/-- The two kinds of resolver: of an ordinary field and of a root field of subscriptions. -/
inductive ResolverKind where
  | field
  | subscription
deriving DecidableEq, Repr, Inhabited

def ResolverKind.label : ResolverKind → String
  | .field => "field"
  | .subscription => "subscription"

inductive DispatchError where
  | duplicate (key : FieldKey)
  | unresolved (key : FieldKey)
  | unknownField (key : FieldKey)
  | wrongKind (key : FieldKey) (expected : ResolverKind)
deriving DecidableEq, Repr

def DispatchError.message : DispatchError → String
  | .duplicate key => "A resolver for '" ++ key.render ++ "' is already registered"
  | .unresolved key => "No resolver registered for '" ++ key.render ++ "'"
  | .unknownField key =>
    "A resolver is registered for '" ++ key.render ++ "', which is not a field of the schema"
  | .wrongKind key expected =>
    "'" ++ key.render ++ "' requires a " ++ expected.label ++ " resolver"

/-- A resolver of either kind. -/
inductive Handler (F S : Type) where
  | field (resolver : F)
  | subscription (resolver : S)
deriving Inhabited

def Handler.kind : Handler F S → ResolverKind
  | .field _ => .field
  | .subscription _ => .subscription

/-- The registered resolvers, in the order of their registration. -/
structure DispatchTable (F S : Type) where
  entries : List (FieldKey × Handler F S)
deriving Inhabited

namespace DispatchTable

variable {F S : Type}

def empty : DispatchTable F S := ⟨[]⟩

def find? (t : DispatchTable F S) (key : FieldKey) : Option (Handler F S) :=
  t.entries.lookup key

def keys (t : DispatchTable F S) : List FieldKey := t.entries.map Prod.fst

/-! ## Registering -/

/-- Each field takes one resolver. -/
def register (t : DispatchTable F S) (key : FieldKey) (h : Handler F S) :
    Except DispatchError (DispatchTable F S) :=
  if (t.find? key).isSome then .error (.duplicate key) else .ok ⟨t.entries ++ [(key, h)]⟩

/-- Register one handler for several fields of a type.  At the first field that has a resolver the
rest is left out; the table with the earlier ones is returned beside the error. -/
def registerAll (t : DispatchTable F S) (typeName : String) (h : Handler F S) :
    List String → DispatchTable F S × Option DispatchError
  | [] => (t, none)
  | name :: names =>
    match t.register ⟨typeName, name⟩ h with
    | .ok t => registerAll t typeName h names
    | .error e => (t, some e)

/-! ## Sealing -/

/-- The kind of resolver that the fields of a type need. -/
def requiredKind (s : Schema) (typeName : String) : ResolverKind :=
  if s.isSubscriptionRoot typeName then .subscription else .field

/-- The first, in the order of keys, of the registered fields that the schema does not have. -/
def firstUnknown? (t : DispatchTable F S) (s : Schema) : Option FieldKey :=
  (t.keys.filter fun k => (s.field? k.typeName k.fieldName).isNone).foldl
    (fun least k =>
      match least with
      | none => some k
      | some l => if k.before l then some k else some l)
    none

/-- What is wrong with the entry of a reachable field. -/
def fault? (t : DispatchTable F S) (s : Schema) (key : FieldKey) : Option DispatchError :=
  match t.find? key with
  | none => some (.unresolved key)
  | some h =>
    let required := requiredKind s key.typeName
    if h.kind = required then none else some (.wrongKind key required)

/-- Check the table against a schema. -/
def sealFor (t : DispatchTable F S) (s : Schema) : Except DispatchError (DispatchTable F S) :=
  match t.firstUnknown? s with
  | some key => .error (.unknownField key)
  | none =>
    match s.reachableFields.findSome? fun (typeName, f) => t.fault? s ⟨typeName, f.name⟩ with
    | some e => .error e
    | none => .ok t

/-! ## Looking up -/

def resolverFor (t : DispatchTable F S) (key : FieldKey) : Except DispatchError F :=
  match t.find? key with
  | none => .error (.unresolved key)
  | some (.field resolver) => .ok resolver
  | some (.subscription _) => .error (.wrongKind key .field)

def subscriptionResolverFor (t : DispatchTable F S) (key : FieldKey) : Except DispatchError S :=
  match t.find? key with
  | none => .error (.unresolved key)
  | some (.subscription resolver) => .ok resolver
  | some (.field _) => .error (.wrongKind key .subscription)

/-! ## Lemmas -/

theorem find_register {t t' : DispatchTable F S} {key : FieldKey} {h : Handler F S}
    (ok : t.register key h = .ok t') : t'.find? key = some h := by
  unfold register at ok
  split at ok
  · cases ok
  · next new =>
    cases ok
    simp only [find?, Option.not_isSome_iff_eq_none] at new ⊢
    rw [List.lookup_append, new]
    simp

theorem find_register_of_ne {t t' : DispatchTable F S} {key other : FieldKey} {h : Handler F S}
    (ok : t.register key h = .ok t') (ne : other ≠ key) : t'.find? other = t.find? other := by
  unfold register at ok
  split at ok
  · cases ok
  · cases ok
    simp only [find?, List.lookup_append]
    have : (other == key) = false := by simpa using ne
    simp [List.lookup_cons, this]

end DispatchTable

end GraphQLEngine
