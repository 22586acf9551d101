import GraphQLEngine.Blog.Engine
import GraphQLEngine.CommandLine.Invocation
import GraphQLEngine.Json.Parser
import GraphQLEngine.Json.Printer
import GraphQLEngine.Session.Step

/-!
# Running commands

Each command works on a fresh blog whose settings are read from the environment.  `query` prints
the answer to an operation and, on the error output, what its loaders did.  `watch` subscribes to a
chat while messages are sent to it and to another chat, and prints one event a line.
-/

namespace GraphQLEngine.CommandLine

inductive Failure where
  /-- The variables are not JSON. -/
  | malformedVariables
  | message (text : String)
deriving DecidableEq, Repr

/-- What a command wrote, and whether it failed. -/
structure Outcome where
  output : String
  errorOutput : String
  failure : Option Failure
deriving DecidableEq, Repr, Inhabited

def Outcome.failed (f : Failure) : Outcome := ⟨"", "", some f⟩

def unlines (lines : List String) : String := String.join (lines.map fun line => line ++ "\n")

/-! ## Setting up -/

/-- The variables of an operation, given as a JSON object. -/
def readVariables : Option String → Except Failure (OrderedMap Json)
  | none => .ok []
  | some text =>
    match Json.parse? text with
    | none => .error .malformedVariables
    | some (.obj members) => .ok members
    | some other =>
      .error (.message ("Variables must be a JSON object, found " ++ other.compress))

/-- A session on the blog with the settings of an environment. -/
def startSession (e : Environment) : Except Failure (Session Blog.Store) :=
  match Settings.ofEnvironment e with
  | .error fault => .error (.message fault.message)
  | .ok settings =>
    match Blog.engine settings with
    | .error fault => .error (.message fault.message)
    | .ok engine => .ok (.start engine (.single .new) Blog.Store.seeded)

def optionsFor (identity : Identity) : StartOptions := ⟨identity, none, none, none⟩

/-! ## Queries -/

def loaderLines (stats : OrderedMap LoaderStats) : List String :=
  stats.map fun (name, s) =>
    "loader " ++ name ++ ": " ++ toString s.batchCalls ++ " batch call(s), " ++
      toString s.keysLoaded ++ " key(s)"

def report (r : Response) (stats : OrderedMap LoaderStats) : Outcome where
  output := r.toJson.pretty ++ "\n"
  errorOutput := unlines (loaderLines stats ++
    if r.isOk then [] else ["Completed with " ++ toString r.errors.length ++ " error(s)"])
  failure := none

def runQuery (document : String) (variablesText operationName : Option String) (identity : Identity)
    (e : Environment) : Except Failure Outcome := do
  let supplied ← readVariables variablesText
  let s ← startSession e
  let ((response, stats), _) :=
    s.execute (.text document operationName) supplied (optionsFor identity) none
  pure (report response stats)

/-! ## Watching a chat -/

def watchDocument : String := "
subscription Watch($chatId: ID!) \x7b
  messageAdded(chatId: $chatId) \x7b chatId text sender \x7b name \x7d \x7d
\x7d"

def sendDocument : String := "
mutation Send($chatId: ID!, $text: String!, $senderId: ID) \x7b
  sendMessage(chatId: $chatId, text: $text, senderId: $senderId) \x7b text \x7d
\x7d"

/-- The users who send messages, one after the other. -/
def senderOf (round : Nat) : String :=
  match round % 3 with
  | 0 => "u1"
  | 1 => "u2"
  | _ => "u3"

/-- The chat beside the one that is watched. -/
def otherChat (chatId : String) : String := chatId ++ "-other"

def send (chatId : String) (round : Nat) : SessionStep :=
  .execute (.text sendDocument none)
    [("chatId", .str chatId), ("text", .str ("message " ++ toString round)),
      ("senderId", .str (senderOf round))]
    (optionsFor .anonymous) none

/-- The milliseconds between two rounds. -/
def roundPause : Nat := 200

def watchLabel : String := "chat"

/-- A round: a message to the other chat, one to the chat, and the event of that. -/
def watchRound (chatId : String) (round : Nat) : List SessionStep :=
  [send (otherChat chatId) round, send chatId round, .next watchLabel, .advance roundPause]

/-- The answers of a stream among those of a session. -/
def streamed (answers : List SessionAnswer) : List Response :=
  answers.filterMap fun
    | .received (.response r) => some r
    | _ => none

def runWatch (chatId : String) (events : Nat) (e : Environment) : Except Failure Outcome := do
  let s ← startSession e
  match s.subscribe watchLabel (.text watchDocument none) [("chatId", .str chatId)]
      (optionsFor .anonymous) with
  | (.error fault, _) => throw (.message fault.shown)
  | (.ok _, s) =>
    let steps := (List.range events).flatMap (watchRound chatId)
    let received := streamed (s.steps (steps.map fun step => (step, false))).1
    pure {
      output := unlines (received.map fun r => r.toJson.compress)
      errorOutput := "Watching chat " ++ chatId ++ " (waiting for " ++ toString events ++
        " event(s))\n"
      failure :=
        if received.length < events then
          some (.message ("Subscription ended after " ++ toString received.length ++ " event(s)"))
        else none }

/-! ## Commands -/

/-- Run what the program is asked to do. -/
def run (i : Invocation) (e : Environment) : Outcome :=
  let outcome :=
    match i with
    | .query document variablesText operationName identity =>
      runQuery document variablesText operationName identity e
    | .watch chatId events => runWatch chatId events e
  match outcome with
  | .ok outcome => outcome
  | .error fault => .failed fault

end GraphQLEngine.CommandLine
