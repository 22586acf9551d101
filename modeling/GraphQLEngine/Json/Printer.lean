import GraphQLEngine.Json.Basic

/-!
# Writing JSON

`Json.compress` writes a value on one line without spaces, `Json.pretty` over several lines with
two spaces per level.
-/

namespace GraphQLEngine

namespace Json

def hexDigit (n : Nat) : Char :=
  if n < 10 then Char.ofNat ('0'.toNat + n) else Char.ofNat ('a'.toNat + n - 10)

/-- A character inside a string: quotes, backslashes and control characters are escaped. -/
def escapeChar (c : Char) : List Char :=
  if c = '"' then ['\\', '"']
  else if c = '\\' then ['\\', '\\']
  else if c.toNat = 8 then ['\\', 'b']
  else if c.toNat = 9 then ['\\', 't']
  else if c.toNat = 10 then ['\\', 'n']
  else if c.toNat = 12 then ['\\', 'f']
  else if c.toNat = 13 then ['\\', 'r']
  else if c.toNat < 32 then
    ['\\', 'u', '0', '0', hexDigit (c.toNat / 16), hexDigit (c.toNat % 16)]
  else [c]

def quote (s : String) : String :=
  "\"" ++ String.ofList (s.toList.flatMap escapeChar) ++ "\""

mutual

/-- The value on one line, without spaces. -/
def compress : Json → String
  | .null => "null"
  | .bool b => if b then "true" else "false"
  | .num n => n.render
  | .str s => quote s
  | .arr items => "[" ++ ",".intercalate (compressItems items) ++ "]"
  | .obj members => "\x7b" ++ ",".intercalate (compressMembers members) ++ "\x7d"

def compressItems : List Json → List String
  | [] => []
  | x :: xs => compress x :: compressItems xs

def compressMembers : List (String × Json) → List String
  | [] => []
  | (key, x) :: xs => (quote key ++ ":" ++ compress x) :: compressMembers xs

end

/-- Parts on lines of their own between two brackets; nothing between them if there are none. -/
def block (indent : String) (opening closing : String) (parts : List String) : String :=
  if parts.isEmpty then opening ++ closing
  else
    let lines := parts.map fun part => indent ++ "  " ++ part
    opening ++ "\n" ++ ",\n".intercalate lines ++ "\n" ++ indent ++ closing

mutual

def prettyAt (indent : String) : Json → String
  | .arr items => block indent "[" "]" (prettyItems (indent ++ "  ") items)
  | .obj members => block indent "\x7b" "\x7d" (prettyMembers (indent ++ "  ") members)
  | .null => "null"
  | .bool b => if b then "true" else "false"
  | .num n => n.render
  | .str s => quote s

def prettyItems (indent : String) : List Json → List String
  | [] => []
  | x :: xs => prettyAt indent x :: prettyItems indent xs

def prettyMembers (indent : String) : List (String × Json) → List String
  | [] => []
  | (key, x) :: xs => (quote key ++ ": " ++ prettyAt indent x) :: prettyMembers indent xs

end

/-- The value over several lines, two spaces per level. -/
def pretty (j : Json) : String := prettyAt "" j

end Json

end GraphQLEngine
