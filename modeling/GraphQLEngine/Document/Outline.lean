import GraphQLEngine.Document.Basic

/-!
# Outlines of selections

One line per selection: a field as `alias:name(arg=value,..)@D{S}`, a spread as `...Name@D`, an
inline fragment as `...on T@D{S}`, where `D` counts directives and `S` selections.
-/

namespace GraphQLEngine

def Value.text (v : Value String) : String := v.render fun name => "$" ++ name

namespace Selection

def argumentOutline (a : Argument) : String := a.name ++ "=" ++ a.value.text

def counts (directives : List Directive) (selections : List Selection) : String :=
  "@" ++ toString directives.length ++ "\x7b" ++ toString selections.length ++ "\x7d"

def outline : Selection → String
  | .field head selections =>
    let label :=
      match head.alias? with
      | some renamed => renamed ++ ":" ++ head.name
      | none => head.name
    label ++ "(" ++ ",".intercalate (head.arguments.map argumentOutline) ++ ")" ++
      counts head.directives selections
  | .spread _ name directives => "..." ++ name ++ "@" ++ toString directives.length
  | .inlineFragment _ condition directives selections =>
    "...on " ++ condition.getD "" ++ counts directives selections

end Selection

end GraphQLEngine
