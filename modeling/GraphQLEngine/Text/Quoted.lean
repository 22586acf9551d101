import GraphQLEngine.Text.Printable

/-!
# Quoted text

A text in quotation marks in which every character is visible: quotes, backslashes, tabs, line ends
and the null character have escapes of two characters, all others that are not plain are written by
their code point in hexadecimal.
-/

namespace GraphQLEngine.Text

def quoteChar (c : Char) : String :=
  if c = '"' then "\\\""
  else if c = '\\' then "\\\\"
  else if c = '\t' then "\\t"
  else if c = '\n' then "\\n"
  else if c = '\r' then "\\r"
  else if c.toNat = 0 then "\\0"
  else if isPlain c then String.singleton c
  else "\\u\x7b" ++ String.ofList (Nat.toDigits 16 c.toNat) ++ "\x7d"

/-- The text in quotation marks. -/
def quoted (s : String) : String := "\"" ++ String.join (s.toList.map quoteChar) ++ "\""

/-- A list of texts in brackets, each in quotation marks. -/
def quotedList (ss : List String) : String := "[" ++ ", ".intercalate (ss.map quoted) ++ "]"

end GraphQLEngine.Text
