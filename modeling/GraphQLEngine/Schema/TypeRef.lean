import GraphQLEngine.Json.Basic

/-!
# References to types

A reference names a type and wraps it in list and non-null modifiers.  References made by `named`,
`listOf` and `toNonNull` never hold a non-null directly inside a non-null.
-/

namespace GraphQLEngine

inductive TypeRef where
  | named (name : String)
  | list (item : TypeRef)
  | nonNull (inner : TypeRef)
deriving DecidableEq, Repr, Inhabited

namespace TypeRef

def listOf (item : TypeRef) : TypeRef := .list item

/-- The reference with null excluded; it is left alone if null is excluded already. -/
def toNonNull : TypeRef → TypeRef
  | .nonNull inner => .nonNull inner
  | t => .nonNull t

def isNonNull : TypeRef → Bool
  | .nonNull _ => true
  | _ => false

/-- The reference without its outermost non-null modifier. -/
def nullable : TypeRef → TypeRef
  | .nonNull inner => inner
  | t => t

def isList : TypeRef → Bool
  | .list _ => true
  | _ => false

/-- The name inside all modifiers. -/
def innermost : TypeRef → String
  | .named name => name
  | .list item => item.innermost
  | .nonNull inner => inner.innermost

/-- The notation of the query language: `[T]` for lists, `T!` for non-null. -/
def render : TypeRef → String
  | .named name => name
  | .list item => "[" ++ item.render ++ "]"
  | .nonNull inner => inner.render ++ "!"

/-! ## Reading the notation -/

theorem length_dropLast_lt {cs : List Char} {c : Char} (h : cs.getLast? = some c) :
    cs.dropLast.length < cs.length := by
  cases cs with
  | nil => cases h
  | cons c cs =>
    rw [List.length_dropLast, List.length_cons]
    omega

theorem length_tail_dropLast_lt {cs : List Char} {c : Char} (h : cs.head? = some c) :
    cs.tail.dropLast.length < cs.length := by
  cases cs with
  | nil => cases h
  | cons c cs =>
    rw [List.tail_cons, List.length_dropLast, List.length_cons]
    omega

/-- Read from outside in: a `!` at the end is non-null, brackets around all of it are a list, and
anything else is a name. -/
def parseChars (cs : List Char) : TypeRef :=
  if h : cs.getLast? = some '!' then
    have := length_dropLast_lt h
    (parseChars cs.dropLast).toNonNull
  else if h : cs.head? = some '[' ∧ cs.tail.getLast? = some ']' then
    have := length_tail_dropLast_lt h.1
    .list (parseChars cs.tail.dropLast)
  else .named (String.ofList cs)
termination_by cs.length

def parse (text : String) : TypeRef := parseChars text.toList

/-! ## Encoding -/

def toJson : TypeRef → Json
  | .named name => .obj [("Named", .str name)]
  | .list item => .obj [("List", item.toJson)]
  | .nonNull inner => .obj [("NonNull", inner.toJson)]

def ofJson? : Json → Option TypeRef
  | .obj [("Named", .str name)] => some (.named name)
  | .obj [("List", item)] => (ofJson? item).map .list
  | .obj [("NonNull", inner)] => (ofJson? inner).map .nonNull
  | _ => none

theorem ofJson_toJson (t : TypeRef) : ofJson? t.toJson = some t := by
  induction t with
  | named name => rfl
  | list item ih => simp [toJson, ofJson?, ih]
  | nonNull inner ih => simp [toJson, ofJson?, ih]

end TypeRef

end GraphQLEngine
