import GraphQLEngine.CommandLine.Run

/-!
# The program
-/

open GraphQLEngine GraphQLEngine.CommandLine

namespace GraphQLEngine.CommandLine

/-- How the program is called. -/
def usage : String := unlines [
  "Run GraphQL operations against an in-memory blog",
  "",
  "query DOCUMENT [-v VARIABLES] [--operation-name NAME] [--as SUBJECT] [--role ROLE]...",
  "    Run a query or mutation",
  "watch CHAT [-n EVENTS]",
  "    Subscribe to a chat while messages are sent to several chats"]

def UsageError.message : UsageError → String
  | .helpRequested => usage
  | .commandMissing => "A command is missing\n\n" ++ usage
  | .unknownCommand => "Unknown command"
  | .unknownArgument => "Unexpected argument"
  | .argumentMissing => "A required argument is missing"
  | .valueMissing => "An option lacks its value"
  | .unexpectedValue => "An option has a value but takes none"
  | .invalidValue => "An option has an invalid value"
  | .repeatedOption => "An option is given more than once"

def Failure.text : Failure → String
  | .malformedVariables => "The variables are not valid JSON"
  | .message text => text

/-- The variables of the process that the program reads. -/
def processEnvironment : IO Environment := do
  let keys := [Settings.queryDepthKey, Settings.batchSizeKey, Settings.capacityKey,
    Settings.overflowKey]
  let values ← keys.filterMapM fun key => do
    return (← IO.getEnv key).map fun value => (key, value)
  return .base values

end GraphQLEngine.CommandLine

def main (arguments : List String) : IO UInt32 := do
  match Invocation.ofArguments arguments with
  | .error .helpRequested =>
    IO.print UsageError.helpRequested.message
    return 0
  | .error fault =>
    IO.eprintln ("error: " ++ fault.message)
    return 2
  | .ok invocation =>
    let outcome := run invocation (← processEnvironment)
    IO.print outcome.output
    IO.eprint outcome.errorOutput
    match outcome.failure with
    | none => return 0
    | some failure =>
      IO.eprintln ("Error: " ++ failure.text)
      return 1
