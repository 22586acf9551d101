import GraphQLEngine.Numeric.Shortest

/-!
# Numbers

A number is an integer of 64 bits, signed or unsigned, or a double.  The integer 1 and the double
1.0 are different numbers.  This module reads a number from the parts of its decimal notation and
writes it.

* An integer without fraction and exponent stays an integer if it lies between `-2 ^ 63` and
  `2 ^ 64 - 1`; all else, `-0` included, is a double.
* A double is written by its shortest digits, always with a point or an exponent.
-/

namespace GraphQLEngine

inductive Number where
  | int (value : Int)
  | float (value : Binary64)
deriving DecidableEq, Repr

namespace Number

/-- Integers and doubles are never equal to each other; doubles compare by value. -/
def sameValue : Number → Number → Bool
  | .int a, .int b => a == b
  | .float a, .float b => a.sameValue b
  | _, _ => false

/-- The integer if it fits into 32 bits with a sign. -/
def int32? : Number → Option Int
  | .int n => if -2147483648 ≤ n ∧ n < 2147483648 then some n else none
  | .float _ => none

/-! ## Reading -/

/-- The parts of a decimal notation: `-? whole (. fraction)? (e ±exponent)?`. -/
structure Literal where
  negative : Bool
  whole : List Nat
  fraction : Option (List Nat)
  /-- Whether the exponent is negative, and its digits. -/
  exponent : Option (Bool × List Nat)

/-- The largest significand that is accumulated. -/
def maxSignificand : Nat := Nat.pow 2 64 - 1

/-- Digits before the point.  Once the significand would grow too large the rest of them only
count as factors of ten. -/
def readWhole (digits : List Nat) : Nat × Nat :=
  digits.foldl
    (fun (significand, dropped) d =>
      if dropped = 0 ∧ significand * 10 + d ≤ maxSignificand then (significand * 10 + d, 0)
      else (significand, dropped + 1))
    (0, 0)

/-- Digits after the point.  Once the significand would grow too large the rest of them is
ignored. -/
def readFraction (significand : Nat) (digits : List Nat) : Nat × Nat :=
  let (m, places, _) := digits.foldl
    (fun (m, places, full) d =>
      if full ∨ maxSignificand < m * 10 + d then (m, places, true)
      else (m * 10 + d, places + 1, false))
    (significand, 0, false)
  (m, places)

/-- An exponent beyond 32 bits is only known to be out of range. -/
def readExponent (digits : List Nat) : Option Nat :=
  let n := digits.foldl (fun n d => n * 10 + d) 0
  if n < Nat.pow 2 31 then some n else none

/-- The double of a significand scaled by a power of ten. -/
def scaled (negative : Bool) (significand : Nat) (k : Int) : Option Number := do
  let x ← (← Binary64.ofNat significand).scaleTen k
  pure (.float (if negative then x.negate else x))

/-- The number that a notation stands for; nothing when it is too large for a double. -/
def Literal.value (t : Literal) : Option Number :=
  let (whole, dropped) := readWhole t.whole
  let (significand, places) := readFraction whole (t.fraction.getD [])
  match t.fraction, t.exponent with
  | none, none =>
    if dropped = 0 ∧ !t.negative then some (.int whole)
    else if dropped = 0 ∧ whole ≠ 0 ∧ whole ≤ Nat.pow 2 63 then some (.int (-whole))
    else scaled t.negative whole dropped
  | _, none => scaled t.negative significand ((dropped : Int) - places)
  | _, some (down, digits) =>
    match readExponent digits with
    | some e =>
      let e : Int := if down then -e else e
      scaled t.negative significand ((dropped : Int) - places + e)
    | none =>
      if significand ≠ 0 ∧ !down then none
      else some (.float (Binary64.zero t.negative))

/-! ## Writing -/

/-- Up to this many digits before the point are written without an exponent. -/
def positionalWhole : Int := 16

/-- Fewer than this many zeros after the point are written without an exponent. -/
def positionalZeros : Int := 5

/-- The text of a magnitude: positional near one, with an exponent elsewhere. -/
def writeDecimal (d : Decimal) : String :=
  let digits := toString d.digits
  let count : Int := digits.length
  let point := count + d.exponent
  let zeros (n : Int) : String := String.ofList (List.replicate n.toNat '0')
  if d.digits = 0 then "0.0"
  else if 0 ≤ d.exponent ∧ point ≤ positionalWhole then
    digits ++ zeros d.exponent ++ ".0"
  else if 0 < point ∧ point ≤ positionalWhole then
    (digits.take point.toNat).toString ++ "." ++ (digits.drop point.toNat).toString
  else if -positionalZeros < point ∧ point ≤ 0 then
    "0." ++ zeros (-point) ++ digits
  else
    let e := point - 1
    let fraction := if count = 1 then "" else "." ++ (digits.drop 1).toString
    let sign := if e < 0 then "e-" else "e+"
    (digits.take 1).toString ++ fraction ++ sign ++ toString e.natAbs

/-- The text of a number. -/
def render : Number → String
  | .int n => toString n
  | .float x => (if x.negative then "-" else "") ++ writeDecimal x.shortest

end Number

end GraphQLEngine
