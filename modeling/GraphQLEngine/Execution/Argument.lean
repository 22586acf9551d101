import GraphQLEngine.Execution.Resolver
import GraphQLEngine.Json.Printer

/-!
# Typed arguments

A resolver may ask for an argument as a text, a number, a truth value or a list of texts.  An
argument that is null counts as one that is missing.

    read t v = ok w   only if w = v
-/

namespace GraphQLEngine

/-- What an argument is asked for as. -/
inductive ArgumentType where
  | text
  /-- An integer of 64 bits with a sign. -/
  | integer
  /-- An integer of 64 bits without a sign. -/
  | size
  | flag
  | texts
  | any
deriving DecidableEq, Repr, Inhabited

namespace ArgumentType

/-- How a value of the wrong type is described. -/
def describe : Json → String
  | .null => "null"
  | .bool b => "boolean `" ++ (if b then "true" else "false") ++ "`"
  | .num (.int n) => "integer `" ++ toString n ++ "`"
  | .num n => "floating point `" ++ n.render ++ "`"
  | .str s => "string " ++ Text.quoted s
  | .arr _ => "sequence"
  | .obj _ => "map"

def mismatch (v : Json) (expected : String) : String :=
  "invalid type: " ++ describe v ++ ", expected " ++ expected

def outOfRange (v : Json) (expected : String) : String :=
  "invalid value: " ++ describe v ++ ", expected " ++ expected

def readInteger (least bound : Int) (expected : String) (v : Json) : Except String Json :=
  match v with
  | .num (.int n) => if least ≤ n ∧ n < bound then .ok v else .error (outOfRange v expected)
  | v => .error (mismatch v expected)

def readText (v : Json) : Except String Json :=
  match v with
  | .str _ => .ok v
  | v => .error (mismatch v "a string")

def readTexts : List Json → Except String Unit
  | [] => .ok ()
  | v :: vs =>
    match readText v with
    | .error e => .error e
    | .ok _ => readTexts vs

/-- The value, if it is one of the type. -/
def read (t : ArgumentType) (v : Json) : Except String Json :=
  match t with
  | .text => readText v
  | .integer => readInteger (-9223372036854775808) 9223372036854775808 "i64" v
  | .size => readInteger 0 18446744073709551616 "usize" v
  | .flag =>
    match v with
    | .bool _ => .ok v
    | v => .error (mismatch v "a boolean")
  | .texts =>
    match v with
    | .arr items => (readTexts items).map fun _ => v
    | v => .error (mismatch v "a sequence")
  | .any => .ok v

end ArgumentType

namespace FieldCall

/-- The value of an argument that is there and not null. -/
def argument? (c : FieldCall) (name : String) : Option Json :=
  (c.arguments.lookup name).filter fun v => !v.isNull

/-- An argument that may be left out. -/
def optional (c : FieldCall) (name : String) (t : ArgumentType) :
    Except FieldError (Option Json) :=
  match c.argument? name with
  | none => .ok none
  | some v =>
    match t.read v with
    | .ok v => .ok (some v)
    | .error e => .error (.resolver ("Invalid value for argument '" ++ name ++ "': " ++ e))

/-- An argument that must be there. -/
def required (c : FieldCall) (name : String) (t : ArgumentType) : Except FieldError Json :=
  match c.optional name t with
  | .error e => .error e
  | .ok (some v) => .ok v
  | .ok none => .error (.resolver ("Missing argument '" ++ name ++ "'"))

def requiredText (c : FieldCall) (name : String) : Except FieldError String :=
  (c.required name .text).map fun v => v.string?.getD ""

def optionalText (c : FieldCall) (name : String) : Except FieldError (Option String) :=
  (c.optional name .text).map fun v => v.bind Json.string?

def optionalSize (c : FieldCall) (name : String) : Except FieldError (Option Nat) :=
  (c.optional name .size).map fun v => v.bind Json.nat?

/-- A text of the parent value that the field cannot do without. -/
def parentText (c : FieldCall) (name : String) : Except FieldError String :=
  match c.parent.member name with
  | .str s => .ok s
  | v => .error (.internal (ArgumentType.mismatch v "a string"))

end FieldCall

end GraphQLEngine
