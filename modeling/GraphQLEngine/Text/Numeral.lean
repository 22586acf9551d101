/-!
# Integers in text

Reading a decimal integer with an optional sign into a bounded range.  Digits are read from the
left; the first digit that is none, or that leaves the range, decides the error.
-/

namespace GraphQLEngine.Text

inductive NumeralError where
  | empty
  | invalidDigit
  | tooLarge
  | tooSmall
deriving DecidableEq, Repr

def NumeralError.message : NumeralError → String
  | .empty => "cannot parse integer from empty string"
  | .invalidDigit => "invalid digit found in string"
  | .tooLarge => "number too large to fit in target type"
  | .tooSmall => "number too small to fit in target type"

def digit? (c : Char) : Option Nat :=
  if '0' ≤ c ∧ c ≤ '9' then some (c.toNat - '0'.toNat) else none

/-- Read digits into a number of at most `limit`, beginning with `value`. -/
def readDigits (limit : Nat) (overflow : NumeralError) (value : Nat) :
    List Char → Except NumeralError Nat
  | [] => .ok value
  | c :: rest =>
    match digit? c with
    | none => .error .invalidDigit
    | some d =>
      if value * 10 + d ≤ limit then readDigits limit overflow (value * 10 + d) rest
      else .error overflow

/-- Read an integer of at most `limit` without a minus sign. -/
def readUnsigned (limit : Nat) : List Char → Except NumeralError Nat
  | [] => .error .empty
  | ['+'] => .error .invalidDigit
  | '+' :: rest => readDigits limit .tooLarge 0 rest
  | cs => readDigits limit .tooLarge 0 cs

/-- Read an integer between `-limit - 1` and `limit`. -/
def readSigned (limit : Nat) : List Char → Except NumeralError Int
  | [] => .error .empty
  | ['+'] | ['-'] => .error .invalidDigit
  | '-' :: rest => (readDigits (limit + 1) .tooSmall 0 rest).map fun n => -(n : Int)
  | '+' :: rest => (readDigits limit .tooLarge 0 rest).map fun n => (n : Int)
  | cs => (readDigits limit .tooLarge 0 cs).map fun n => (n : Int)

/-- The largest size that a machine word of 64 bits holds. -/
def maxSize : Nat := Nat.pow 2 64 - 1

end GraphQLEngine.Text
