import GraphQLEngine.Document.Grammar

/-!
# From texts to documents

`Document.parse` matches the grammar and puts the definitions together: names of operations and
fragments are not used twice, an operation without a name stands alone, and there is at least one
operation.
-/

namespace GraphQLEngine

inductive DocumentError where
  | malformed
  | nestedTooDeep
  | severalOperations (anonymous other : Position)
  | repeatedOperation (first second : Position)
  | repeatedFragment (name : String) (first second : Position)
  | noOperation
deriving DecidableEq, Repr

namespace DocumentError

def message : DocumentError → String
  | .malformed => "Syntax error"
  | .nestedTooDeep => "Unknown error"
  | .severalOperations _ _ => "Multiple operations"
  | .repeatedOperation _ _ => "Operation duplicated"
  | .repeatedFragment name _ _ => "Fragment " ++ name ++ " duplicated"
  | .noOperation => "Missing operation"

def position : DocumentError → Position
  | .severalOperations anonymous _ => anonymous
  | .repeatedOperation first _ => first
  | .repeatedFragment _ first _ => first
  | _ => .nowhere

def secondPosition : DocumentError → Option Position
  | .severalOperations _ other => some other
  | .repeatedOperation _ second => some second
  | .repeatedFragment _ _ second => some second
  | _ => none

def ofFault : Grammar.Fault → DocumentError
  | .numberTooLarge => .malformed
  | .nestedTooDeep => .nestedTooDeep

end DocumentError

namespace Document

/-- The operations seen so far and one more. -/
def addOperation (seen : Option Operations) (name : Option String) (o : Operation) :
    Except DocumentError Operations :=
  match seen, name with
  | none, none => .ok (.anonymous o)
  | none, some name => .ok (.named [(name, o)])
  | some (.anonymous first), some _ => .error (.severalOperations first.position o.position)
  | some (.anonymous first), none => .error (.severalOperations o.position first.position)
  | some (.named []), none => .ok (.anonymous o)
  | some (.named ((_, first) :: _)), none =>
    .error (.severalOperations o.position first.position)
  | some (.named os), some name =>
    match os.lookup name with
    | some first => .error (.repeatedOperation first.position o.position)
    | none => .ok (.named (os ++ [(name, o)]))

def addFragment (seen : List Fragment) (f : Fragment) : Except DocumentError (List Fragment) :=
  match fragment? seen f.name with
  | some first => .error (.repeatedFragment f.name first.position f.position)
  | none => .ok (seen ++ [f])

def assemble (operations : Option Operations) (fragments : List Fragment) :
    List Grammar.Definition → Except DocumentError Document
  | [] =>
    match operations with
    | some operations => .ok ⟨operations, fragments⟩
    | none => .error .noOperation
  | .operation name o :: rest => do
    let operations ← addOperation operations name o
    assemble (some operations) fragments rest
  | .fragment f :: rest => do
    let fragments ← addFragment fragments f
    assemble operations fragments rest

/-- The document that a text stands for. -/
def parse (text : String) : Except DocumentError Document :=
  match Grammar.definitions (Grammar.Input.ofText text) with
  | none => .error .malformed
  | some (definitions, rest) =>
    match rest.fault with
    | some fault => .error (.ofFault fault)
    | none => assemble none [] definitions

end Document

end GraphQLEngine
