/-!
# Block strings

The value of a string in triple quotes: the indent that its lines have in common is cut off, and
blank lines at both ends are dropped.  A line ends at `\r\n`, `\r` or `\n`.
-/

namespace GraphQLEngine.BlockText

def isIndent (c : Char) : Bool := c = ' ' || c = '\t'

/-- The lines of a text; the last one has no end. -/
def lines : List Char → List (List Char)
  | [] => [[]]
  | '\r' :: '\n' :: rest => [] :: lines rest
  | c :: rest =>
    if c = '\r' ∨ c = '\n' then [] :: lines rest
    else
      match lines rest with
      | [] => [[c]]
      | line :: more => (c :: line) :: more

def isBlankLine (line : List Char) : Bool := line.all isIndent

/-- The least indent of the lines after the first that are not blank; zero if there is none. -/
def commonIndent (ls : List (List Char)) : Nat :=
  let indents := (ls.drop 1).filter (fun l => !isBlankLine l) |>.map fun l =>
    (l.takeWhile isIndent).length
  match indents with
  | [] => 0
  | i :: is => is.foldl min i

/-- Cut the indent off a line that is long enough. -/
def unindent (indent : Nat) (line : List Char) : List Char :=
  if indent ≤ line.length then line.drop indent else line

/-- The value of the text between the triple quotes. -/
def value (raw : List Char) : List Char :=
  let ls := lines raw
  let indent := commonIndent ls
  let cut :=
    match ls with
    | [] => []
    | first :: rest => first :: rest.map (unindent indent)
  -- cutting the indent does not change which lines are blank
  let body := (cut.dropWhile isBlankLine).reverse.dropWhile isBlankLine |>.reverse
  ['\n'].intercalate body

end GraphQLEngine.BlockText
