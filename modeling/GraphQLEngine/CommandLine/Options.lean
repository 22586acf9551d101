import GraphQLEngine.OrderedMap

/-!
# Options and positional arguments

The arguments of a command are read word by word.  An option `--name` or `-n` takes the next word as
its value, unless the value is attached: `--name=value`, `-nvalue` or `-n=value`.  A word that looks
like an option is never taken as a value, and after `--` no word is an option.

An option is only checked once the next option or positional argument is read, or the arguments
end; an option that is unknown is refused at once.
-/

namespace GraphQLEngine.CommandLine

/-- Why arguments are refused.  A request for help counts as a refusal. -/
inductive UsageError where
  | helpRequested
  | commandMissing
  | unknownCommand
  | unknownArgument
  | argumentMissing
  /-- An option without its value. -/
  | valueMissing
  /-- A value for an option that takes none. -/
  | unexpectedValue
  | invalidValue
  | repeatedOption
deriving DecidableEq, Repr

/-! ## Words -/

inductive Word where
  | separator
  /-- `--name` or `--name=value` -/
  | long (name : String) (attached : Option String)
  /-- A dash, a letter, and what is attached to it -/
  | short (letter : Char) (attached : Option String)
  | plain (text : String)
deriving DecidableEq, Repr

/-- What follows the first `=`, if there is one. -/
def afterEquals? : List Char → Option (List Char)
  | [] => none
  | '=' :: rest => some rest
  | _ :: rest => afterEquals? rest

/-- What is attached to a letter: an `=` in front is not part of it. -/
def attachedToLetter : List Char → Option String
  | [] => none
  | '=' :: rest => some (String.ofList rest)
  | rest => some (String.ofList rest)

def Word.ofText (text : String) : Word :=
  match text.toList with
  | ['-', '-'] => .separator
  | '-' :: '-' :: rest =>
    .long (String.ofList (rest.takeWhile (· ≠ '='))) ((afterEquals? rest).map String.ofList)
  | '-' :: letter :: rest => .short letter (attachedToLetter rest)
  | _ => .plain text

/-! ## Options -/

structure OptionSpec where
  name : String
  letter : Option Char
  /-- The option may be given more than once. -/
  repeatable : Bool
  accepts : String → Bool

/-- The value of an option is an arbitrary text. -/
def OptionSpec.text (name : String) (letter : Option Char) : OptionSpec :=
  ⟨name, letter, false, fun _ => true⟩

/-- What was read: the values of each option and the positional argument. -/
structure Arguments where
  values : OrderedMap (List String)
  positional : Option String
deriving Inhabited, Repr

namespace Arguments

def empty : Arguments := ⟨[], none⟩

def valuesOf (a : Arguments) (name : String) : List String := (a.values.lookup name).getD []

/-- The value of an option that is given at most once. -/
def value? (a : Arguments) (name : String) : Option String := (a.valuesOf name).head?

/-- Accept an option with its value. -/
def accept (a : Arguments) (option : OptionSpec) (value : String) :
    Except UsageError Arguments :=
  if !option.repeatable && a.values.has option.name then .error .repeatedOption
  else if option.accepts value then
    .ok { a with values := a.values.insert option.name (a.valuesOf option.name ++ [value]) }
  else .error .invalidValue

end Arguments

/-! ## Reading -/

structure Reader where
  arguments : Arguments
  /-- The option that is not checked yet, with its value if that was read. -/
  pending : Option (OptionSpec × Option String)
  /-- A separator was read. -/
  separated : Bool

namespace Reader

def start : Reader := ⟨.empty, none, false⟩

/-- Check the pending option. -/
def resolve (r : Reader) : Except UsageError Reader :=
  match r.pending with
  | none => .ok r
  | some (_, none) => .error .valueMissing
  | some (option, some value) =>
    match r.arguments.accept option value with
    | .error e => .error e
    | .ok arguments => .ok { r with arguments, pending := none }

/-- Ask for help, once what was read before is found right. -/
def help (r : Reader) : Except UsageError Reader :=
  match r.resolve with
  | .error e => .error e
  | .ok _ => .error .helpRequested

/-- Read an option; one with an attached value is checked at once. -/
def takeOption (r : Reader) (option : OptionSpec) (attached : Option String) :
    Except UsageError Reader :=
  match r.resolve with
  | .error e => .error e
  | .ok r =>
    match attached with
    | none => .ok { r with pending := some (option, none) }
    | some value =>
      match r.arguments.accept option value with
      | .error e => .error e
      | .ok arguments => .ok { r with arguments }

def takePositional (r : Reader) (text : String) : Except UsageError Reader :=
  if r.arguments.positional.isSome then .error .unknownArgument
  else
    match r.resolve with
    | .error e => .error e
    | .ok r => .ok { r with arguments := { r.arguments with positional := some text } }

/-- Read a word that is no option: the value that is waited for, or the positional argument. -/
def takePlain (r : Reader) (text : String) : Except UsageError Reader :=
  match r.pending with
  | some (option, none) => .ok { r with pending := some (option, some text) }
  | _ => r.takePositional text

def helpName : String := "help"

def helpLetter : Char := 'h'

def takeWord (options : List OptionSpec) (r : Reader) (text : String) :
    Except UsageError Reader :=
  if r.separated then r.takePositional text
  else
    match Word.ofText text with
    | .separator => .ok { r with separated := true }
    | .plain text => r.takePlain text
    | .long name attached =>
      if name = helpName then
        if attached.isSome then .error .unexpectedValue else r.help
      else
        match options.find? (·.name = name) with
        | none => .error .unknownArgument
        | some option => r.takeOption option attached
    | .short letter attached =>
      if letter = helpLetter then r.help
      else
        match options.find? (·.letter = some letter) with
        | none => .error .unknownArgument
        | some option => r.takeOption option attached

def takeWords (options : List OptionSpec) (r : Reader) : List String → Except UsageError Reader
  | [] => .ok r
  | text :: rest =>
    match r.takeWord options text with
    | .error e => .error e
    | .ok r => r.takeWords options rest

end Reader

/-- Read the arguments of a command with one positional argument, which must be given. -/
def readArguments (options : List OptionSpec) (texts : List String) :
    Except UsageError (String × Arguments) := do
  let r ← Reader.start.takeWords options texts
  let r ← r.resolve
  match r.arguments.positional with
  | none => throw .argumentMissing
  | some text => pure (text, r.arguments)

end GraphQLEngine.CommandLine
