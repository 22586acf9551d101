import GraphQLEngine.CommandLine.Options
import GraphQLEngine.Schema.Access
import GraphQLEngine.Text.Numeral

/-!
# Commands

    query DOCUMENT [-v VARIABLES] [--operation-name NAME] [--as SUBJECT] [--role ROLE]...
    watch CHAT [-n EVENTS]

The first argument chooses the command; the command reads the others.
-/

namespace GraphQLEngine.CommandLine

/-- What the program is asked to do. -/
inductive Invocation where
  /-- Run an operation of a document on the blog. -/
  | query (document : String) (variablesText operationName : Option String) (identity : Identity)
  /-- Watch a chat of the blog until some events were received. -/
  | watch (chatId : String) (events : Nat)

namespace Invocation

/-! ## Options -/

def variablesOption : OptionSpec := .text "variables" (some 'v')

def operationNameOption : OptionSpec := .text "operation-name" none

def subjectOption : OptionSpec := .text "as" none

def roleOption : OptionSpec := { OptionSpec.text "role" none with repeatable := true }

def size? (text : String) : Option Nat := (Text.readUnsigned Text.maxSize text.toList).toOption

def eventsOption : OptionSpec :=
  { OptionSpec.text "events" (some 'n') with accepts := fun text => (size? text).isSome }

/-- How many events are waited for when the option is not given. -/
def defaultEvents : Nat := 3

/-! ## Commands -/

def identity (a : Arguments) : Identity :=
  let caller := (a.value? subjectOption.name).elim Identity.anonymous Identity.withSubject
  (a.valuesOf roleOption.name).foldl Identity.withRole caller

def readQuery (texts : List String) : Except UsageError Invocation := do
  let (document, a) ← readArguments
    [variablesOption, operationNameOption, subjectOption, roleOption] texts
  pure (.query document (a.value? variablesOption.name) (a.value? operationNameOption.name)
    (identity a))

def readWatch (texts : List String) : Except UsageError Invocation := do
  let (chatId, a) ← readArguments [eventsOption] texts
  pure (.watch chatId (((a.value? eventsOption.name).bind size?).getD defaultEvents))

def commands : List (String × (List String → Except UsageError Invocation)) :=
  [("query", readQuery), ("watch", readWatch)]

/-- Why arguments are refused whose first word is no command. -/
def refusal (rest : List String) : Word → UsageError
  | .separator =>
    match rest with
    | [] => .commandMissing
    | text :: _ => if (commands.lookup text).isSome then .unknownArgument else .unknownCommand
  | .long name attached =>
    if name ≠ Reader.helpName then .unknownArgument
    else if attached.isSome then .unexpectedValue
    else .helpRequested
  | .short letter _ => if letter = Reader.helpLetter then .helpRequested else .unknownArgument
  | .plain _ => .unknownCommand

/-- Read the arguments of the program. -/
def ofArguments : List String → Except UsageError Invocation
  | [] => .error .commandMissing
  | text :: rest =>
    match commands.lookup text with
    | some read => read rest
    | none => .error (refusal rest (Word.ofText text))

end Invocation

end GraphQLEngine.CommandLine
