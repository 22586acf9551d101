import GraphQLEngine.Script.Basic

/-!
# Evaluating scripts

Expressions are evaluated from left to right, and the first failure is the failure of the whole.
-/

namespace GraphQLEngine.Script

/-- Evaluate something undefined. -/
def undefinedIn (s : Scope Store) : Except FieldError α × Scope Store :=
  (.error (.internal "undefined"), { s with store := { s.store with fault := true } })

/-- Count up. -/
def count (name : String) (s : Scope Store) : Nat × Scope Store :=
  let n := (s.store.counters.lookup name).getD 0 + 1
  (n, { s with store := { s.store with counters := s.store.counters.insert name n } })

/-- How a value appears in a joined text. -/
def joined : Json → String
  | .str s => s
  | v => v.compress

namespace Expression

mutual

/-- The value of an expression in the call of a resolver, `loaded` being the loaded value. -/
def eval (c : FieldCall) (loaded : Json) :
    Expression → Scope Store → Except FieldError Json × Scope Store
  | .literal v, s => (.ok v, s)
  | .argument name, s => (.ok ((c.arguments.lookup name).getD .null), s)
  | .arguments, s => (.ok (.obj c.arguments), s)
  | .required name type, s => (c.required name type, s)
  | .optional name type, s => ((c.optional name type).map fun v => v.getD .null, s)
  | .parent part, s => (.ok (part.of c.parent), s)
  | .loaded part, s => (.ok (part.of loaded), s)
  | .variableOf name, s => (.ok ((c.supplied.lookup name).getD .null), s)
  | .subject, s => (.ok (Json.ofOption .str c.identity.subject), s)
  | .here, s => (.ok (.str (c.typeName ++ "." ++ c.fieldName)), s)
  | .cancelled, s => (.ok (.bool s.isCancelled), s)
  | .counter name, s =>
    let (n, s) := count name s
    (.ok (.nat n), s)
  | .object members, s =>
    let (r, s) := evalMembers c loaded members s
    (r.map Json.object, s)
  | .array items, s =>
    let (r, s) := evalItems c loaded items s
    (r.map .arr, s)
  | .concat items, s =>
    let (r, s) := evalItems c loaded items s
    (r.map fun vs => .str (String.join (vs.map joined)), s)
  | .undefined, s => undefinedIn s

def evalItems (c : FieldCall) (loaded : Json) :
    List Expression → Scope Store → Except FieldError (List Json) × Scope Store
  | [], s => (.ok [], s)
  | e :: es, s =>
    match eval c loaded e s with
    | (.error fault, s) => (.error fault, s)
    | (.ok v, s) =>
      let (r, s) := evalItems c loaded es s
      (r.map (v :: ·), s)

def evalMembers (c : FieldCall) (loaded : Json) : List (String × Expression) → Scope Store →
    Except FieldError (List (String × Json)) × Scope Store
  | [], s => (.ok [], s)
  | (key, e) :: es, s =>
    match eval c loaded e s with
    | (.error fault, s) => (.error fault, s)
    | (.ok v, s) =>
      let (r, s) := evalMembers c loaded es s
      (r.map ((key, v) :: ·), s)

end

end Expression

/-- The loader whose keys are integers; the keys of the others are texts. -/
def integerLoader : Nat := 2

/-- The key that a value stands for. -/
def keyOf (loader : Nat) (v : Json) : Except FieldError LoadKey :=
  let key :=
    if loader = integerLoader then v.int64?.map LoadKey.integer else v.string?.map LoadKey.text
  match key with
  | some key => .ok key
  | none => .error (.internal ("No key: " ++ v.compress))

/-- The keys that a list of values stands for. -/
def keysOf (loader : Nat) : Json → Except FieldError (List LoadKey)
  | .arr items => items.mapM (keyOf loader)
  | v => .error (.internal ("No keys: " ++ v.compress))

namespace Behaviour

mutual

/-- What the resolver returns. -/
def run (c : FieldCall) (loaded : Json) :
    Behaviour → Scope Store → Except FieldError (FieldValue Store) × Scope Store
  | .give e, s =>
    let (r, s) := e.eval c loaded s
    (r.map .value, s)
  | .null, s => (.ok (.value .null), s)
  | .fail e, s => (.error e, s)
  | .error e, s => (.ok (.error e), s)
  | .list items, s =>
    let (vs, s) := runItems c loaded items s
    (.ok (.list vs), s)
  | .load loader key, s =>
    let (r, s) := key.eval c loaded s
    ((r.bind (keyOf loader)).map (FieldValue.load loader), s)
  | .loadMany loader keys, s =>
    let (r, s) := keys.eval c loaded s
    ((r.bind (keysOf loader)).map (FieldValue.loadMany loader), s)
  | .andThen first next, s =>
    match run c loaded first s with
    | (.error e, s) => (.error e, s)
    | (.ok v, s) =>
      let (v, s) := v.andThen
        (fun loaded s =>
          match run c loaded next s with
          | (.error e, s) => (.error e, s)
          | (.ok v, s) => (v, s)) s
      (.ok v, s)
  | .publish topic payload next, s =>
    match Expression.evalItems c loaded [topic, payload] s with
    | (.ok [topic, payload], s) => run c loaded next (s.publish (topic.string?.getD "") payload)
    | (.ok _, s) => run c loaded next s
    | (.error e, s) => (.error e, s)
  | .cancel reason next, s => run c loaded next (s.cancelLatest reason)
  | .undefined, s => undefinedIn s

/-- The items of a list, of which those that fail are errors. -/
def runItems (c : FieldCall) (loaded : Json) :
    List Behaviour → Scope Store → List (FieldValue Store) × Scope Store
  | [], s => ([], s)
  | b :: bs, s =>
    let (r, s) := run c loaded b s
    let v :=
      match r with
      | .ok v => v
      | .error e => .error e
    let (vs, s) := runItems c loaded bs s
    (v :: vs, s)

end

end Behaviour

end GraphQLEngine.Script
