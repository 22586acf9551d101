import GraphQLEngine.Json.Basic
import GraphQLEngine.Text.Numeral

/-!
# Reading JSON

A reader over lists of characters.  Each step returns the rest of the input.  Values may be nested
127 deep.  Of a repeated key in an object the last value counts, in the place of the first.
-/

namespace GraphQLEngine

namespace Json.Reader

def isSpace (c : Char) : Bool := c = ' ' || c = '\n' || c = '\t' || c = '\r'

def skipSpaces (cs : List Char) : List Char := cs.dropWhile isSpace

/-- The text `word`, literally. -/
def literal (word : String) (value : Json) (cs : List Char) : Option (Json × List Char) :=
  if word.toList.isPrefixOf cs then some (value, cs.drop word.length) else none

/-! ## Strings -/

def hexValue? (c : Char) : Option Nat :=
  if '0' ≤ c ∧ c ≤ '9' then some (c.toNat - '0'.toNat)
  else if 'a' ≤ c ∧ c ≤ 'f' then some (c.toNat - 'a'.toNat + 10)
  else if 'A' ≤ c ∧ c ≤ 'F' then some (c.toNat - 'A'.toNat + 10)
  else none

def hexFour : List Char → Option (Nat × List Char)
  | a :: b :: c :: d :: rest => do
    let n := (← hexValue? a) * 4096 + (← hexValue? b) * 256 + (← hexValue? c) * 16 + (← hexValue? d)
    pure (n, rest)
  | _ => none

/-- The character of an escape after `\u`: a high surrogate must be followed by a low one. -/
def unicodeEscape (cs : List Char) : Option (Char × List Char) := do
  let (n, rest) ← hexFour cs
  if n < 0xd800 ∨ 0xdfff < n then pure (Char.ofNat n, rest)
  else if 0xdc00 ≤ n then none
  else
    match rest with
    | '\\' :: 'u' :: rest => do
      let (m, rest) ← hexFour rest
      if 0xdc00 ≤ m ∧ m ≤ 0xdfff then
        pure (Char.ofNat (0x10000 + (n - 0xd800) * 0x400 + (m - 0xdc00)), rest)
      else none
    | _ => none

def simpleEscape? (c : Char) : Option Char :=
  if c = '"' ∨ c = '\\' ∨ c = '/' then some c
  else if c = 'b' then some (Char.ofNat 8)
  else if c = 'f' then some (Char.ofNat 12)
  else if c = 'n' then some '\n'
  else if c = 'r' then some '\r'
  else if c = 't' then some '\t'
  else none

/-- The characters up to the closing quote, collected in reverse. -/
def stringBody : Nat → List Char → List Char → Option (String × List Char)
  | 0, _, _ => none
  | fuel + 1, seen, cs =>
    match cs with
    | [] => none
    | '"' :: rest => some (String.ofList seen.reverse, rest)
    | '\\' :: 'u' :: rest =>
      match unicodeEscape rest with
      | some (c, rest) => stringBody fuel (c :: seen) rest
      | none => none
    | '\\' :: c :: rest =>
      match simpleEscape? c with
      | some c => stringBody fuel (c :: seen) rest
      | none => none
    | c :: rest => if c.toNat < 32 then none else stringBody fuel (c :: seen) rest

/-! ## Numbers -/

def digitsOf (cs : List Char) : List Nat × List Char :=
  let digits := cs.takeWhile Char.isDigit
  (digits.map fun c => c.toNat - '0'.toNat, cs.drop digits.length)

/-- The digits before the point: a zero alone, or digits that do not begin with zero. -/
def wholePart : List Char → Option (List Nat × List Char)
  | '0' :: rest => some ([0], rest)
  | cs =>
    match digitsOf cs with
    | ([], _) => none
    | (digits, rest) => some (digits, rest)

def fractionPart : List Char → Option (Option (List Nat) × List Char)
  | '.' :: rest =>
    match digitsOf rest with
    | ([], _) => none
    | (digits, rest) => some (some digits, rest)
  | cs => some (none, cs)

def exponentPart : List Char → Option (Option (Bool × List Nat) × List Char)
  | c :: rest =>
    if c = 'e' ∨ c = 'E' then
      let (down, rest) :=
        match rest with
        | '-' :: rest => (true, rest)
        | '+' :: rest => (false, rest)
        | _ => (false, rest)
      match digitsOf rest with
      | ([], _) => none
      | (digits, rest) => some (some (down, digits), rest)
    else some (none, c :: rest)
  | [] => some (none, [])

def number (cs : List Char) : Option (Number × List Char) := do
  let (negative, cs) :=
    match cs with
    | '-' :: rest => (true, rest)
    | _ => (false, cs)
  let (whole, cs) ← wholePart cs
  let (fraction, cs) ← fractionPart cs
  let (exponent, cs) ← exponentPart cs
  let value ← Number.Literal.value ⟨negative, whole, fraction, exponent⟩
  pure (value, cs)

/-! ## Values -/

mutual

/-- A value nested at most `depth` deep, of at most `fuel` steps. -/
def value : Nat → Nat → List Char → Option (Json × List Char)
  | 0, _, _ => none
  | fuel + 1, depth, cs =>
    match skipSpaces cs with
    | [] => none
    | 'n' :: rest => literal "null" .null ('n' :: rest)
    | 't' :: rest => literal "true" (.bool true) ('t' :: rest)
    | 'f' :: rest => literal "false" (.bool false) ('f' :: rest)
    | '"' :: rest => (stringBody (rest.length + 1) [] rest).map fun (s, rest) => (.str s, rest)
    | '[' :: rest =>
      match depth with
      | 0 => none
      | depth + 1 =>
        match skipSpaces rest with
        | ']' :: rest => some (.arr [], rest)
        | rest => items fuel depth [] rest
    | '{' :: rest =>
      match depth with
      | 0 => none
      | depth + 1 =>
        match skipSpaces rest with
        | '}' :: rest => some (.obj [], rest)
        | rest => members fuel depth [] rest
    | cs => (number cs).map fun (n, rest) => (.num n, rest)

def items : Nat → Nat → List Json → List Char → Option (Json × List Char)
  | 0, _, _, _ => none
  | fuel + 1, depth, seen, cs =>
    match value fuel depth cs with
    | none => none
    | some (x, rest) =>
      match skipSpaces rest with
      | ',' :: rest => items fuel depth (x :: seen) rest
      | ']' :: rest => some (.arr (x :: seen).reverse, rest)
      | _ => none

def members : Nat → Nat → List (String × Json) → List Char → Option (Json × List Char)
  | 0, _, _, _ => none
  | fuel + 1, depth, seen, cs =>
    match skipSpaces cs with
    | '"' :: rest =>
      match stringBody (rest.length + 1) [] rest with
      | none => none
      | some (key, rest) =>
        match skipSpaces rest with
        | ':' :: rest =>
          match value fuel depth rest with
          | none => none
          | some (x, rest) =>
            let seen := OrderedMap.insert seen key x
            match skipSpaces rest with
            | ',' :: rest => members fuel depth seen rest
            | '}' :: rest => some (.obj seen, rest)
            | _ => none
        | _ => none
    | _ => none

end

end Json.Reader

namespace Json

/-- The deepest nesting of arrays and objects that is read. -/
def maxDepth : Nat := 127

/-- The value that a text stands for; nothing if it is malformed. -/
def parse? (text : String) : Option Json :=
  let cs := text.toList
  match Reader.value (2 * cs.length + 2) maxDepth cs with
  | some (j, rest) => if (Reader.skipSpaces rest).isEmpty then some j else none
  | none => none

end Json

end GraphQLEngine
