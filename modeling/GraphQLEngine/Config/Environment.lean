import GraphQLEngine.OrderedMap
import GraphQLEngine.Text.Blank
import GraphQLEngine.Text.Numeral

/-!
# Environments

An environment gives values to variables.  It may lie over another one that is asked for the
variables it does not have itself.
-/

namespace GraphQLEngine

inductive Environment where
  | base (values : OrderedMap String)
  | layered (values : OrderedMap String) (fallback : Environment)
deriving Inhabited

/-- Why the text of a variable is not of the type that is asked for. -/
inductive ParseFault where
  | numeral (error : Text.NumeralError)
  | notBoolean
deriving DecidableEq, Repr

def ParseFault.message : ParseFault → String
  | .numeral error => error.message
  | .notBoolean => "provided string was not `true` or `false`"

inductive EnvironmentError where
  | invalidBoolean (key value : String)
  | invalidValue (key value : String) (fault : ParseFault)
  | invalidChoice (key value message : String)
deriving DecidableEq, Repr

def EnvironmentError.message : EnvironmentError → String
  | .invalidBoolean key value =>
    "Invalid value for " ++ key ++ ": " ++ value ++ ". Expected true, 1, yes, on, enabled, " ++
      "enable OR false, 0, no, off, disabled, disable"
  | .invalidValue key value fault =>
    "Invalid value for " ++ key ++ ": " ++ value ++ " (" ++ fault.message ++ ")"
  | .invalidChoice key value message =>
    "Invalid env value " ++ value ++ " for " ++ key ++ ": " ++ message

namespace Environment

def empty : Environment := .base []

/-- The value in the nearest layer that has the variable. -/
def get? : Environment → String → Option String
  | .base values, key => values.lookup key
  | .layered values fallback, key =>
    match values.lookup key with
    | some value => some value
    | none => fallback.get? key

def getD (e : Environment) (key default : String) : String := (e.get? key).getD default

/-- Set a variable in the nearest layer. -/
def set : Environment → String → String → Environment
  | .base values, key, value => .base (OrderedMap.insert values key value)
  | .layered values fallback, key, value => .layered (OrderedMap.insert values key value) fallback

/-! ## Switches -/

def onWords : List String := ["true", "1", "yes", "on", "enabled", "enable"]

def offWords : List String := ["false", "0", "no", "off", "disabled", "disable"]

/-- Whether a switch is on.  The case of ASCII letters does not matter; no other letter becomes a
letter of the accepted words in lower case. -/
def enabled (e : Environment) (key : String) (default : Bool) : Except EnvironmentError Bool :=
  match e.get? key with
  | none => .ok default
  | some value =>
    let word := String.ofList (value.toList.map Char.toLower)
    if word ∈ onWords then .ok true
    else if word ∈ offWords then .ok false
    else .error (.invalidBoolean key value)

/-! ## Parsed values -/

/-- The parsed value of a variable, without blanks around it; nothing if it is unset or blank. -/
def parsed (read : String → Except ParseFault α) (e : Environment) (key : String) :
    Except EnvironmentError (Option α) :=
  match e.get? key with
  | none => .ok none
  | some value =>
    let text := Text.trim value
    if text.isEmpty then .ok none
    else
      match read text with
      | .ok a => .ok (some a)
      | .error fault => .error (.invalidValue key value fault)

def readUnsigned (limit : Nat) (text : String) : Except ParseFault Nat :=
  (Text.readUnsigned limit text.toList).mapError .numeral

def readSigned (limit : Nat) (text : String) : Except ParseFault Int :=
  (Text.readSigned limit text.toList).mapError .numeral

def readSize : String → Except ParseFault Nat := readUnsigned Text.maxSize

def readBool : String → Except ParseFault Bool
  | "true" => .ok true
  | "false" => .ok false
  | _ => .error .notBoolean

end Environment

end GraphQLEngine
