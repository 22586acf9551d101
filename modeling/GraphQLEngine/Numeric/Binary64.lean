/-!
# Binary floating point with 64 bits

A finite double is a sign, a significand below `2 ^ 53` and a power of two.  The arithmetic that
reading a decimal needs is done exactly on natural numbers and rounded once, ties to even, so
every operation here reduces inside the logic.

    ofRatio n num den = some x  →  x is a double nearest to ± num / den
    ofRatio n num den = none    →  the rounded value is beyond the largest double
-/

namespace GraphQLEngine

/-- The finite double `± significand · 2 ^ exponent`.  The functions of this module build only
canonical ones: `exponent ≥ -1074`, and `significand ≥ 2 ^ 52` unless `exponent = -1074`. -/
structure Binary64 where
  negative : Bool
  significand : Nat
  exponent : Int
deriving DecidableEq, Repr, Inhabited

namespace Binary64

/-- The zero of the given sign. -/
def zero (negative : Bool) : Binary64 := ⟨negative, 0, -1074⟩

def isZero (x : Binary64) : Bool := x.significand == 0

def negate (x : Binary64) : Binary64 := { x with negative := !x.negative }

/-- Numeric equality: the two zeros are equal, all other doubles only to themselves. -/
def sameValue (x y : Binary64) : Bool := x == y || (x.isZero && y.isZero)

/-! ## Rounding -/

/-- The quotient rounded to the nearest natural number, a tie to the even one. -/
def roundDiv (num den : Nat) : Nat :=
  let q := num / den
  let r := num % den
  if 2 * r < den then q
  else if den < 2 * r then q + 1
  else q + q % 2

/-- `num / den · 2 ^ (-e)` as a fraction of natural numbers. -/
def scaled (num den : Nat) (e : Int) : Nat × Nat :=
  if 0 ≤ e then (num, den * Nat.pow 2 e.toNat) else (num * Nat.pow 2 (-e).toNat, den)

/-- The exponent at which the quotient has 53 bits, but never below that of the subnormals. -/
def exponentOf (num den : Nat) : Int :=
  let guess : Int := (Nat.log2 num : Int) - (Nat.log2 den : Int) - 52
  let (n, d) := scaled num den guess
  let e := if n < d * Nat.pow 2 52 then guess - 1 else guess
  max e (-1074)

/-- The double nearest to `± num / den`, or nothing when that is too large to be finite. -/
def ofRatio (negative : Bool) (num den : Nat) : Option Binary64 :=
  if num = 0 then some (zero negative)
  else
    let e := exponentOf num den
    let (n, d) := scaled num den e
    let m := roundDiv n d
    let (m, e) := if m = Nat.pow 2 53 then (Nat.pow 2 52, e + 1) else (m, e)
    if e ≤ 971 then some ⟨negative, m, e⟩ else none

/-- The double nearest to `m / den · 2 ^ e`. -/
def ofScaled (negative : Bool) (m den : Nat) (e : Int) : Option Binary64 :=
  if 0 ≤ e then ofRatio negative (m * Nat.pow 2 e.toNat) den
  else ofRatio negative m (den * Nat.pow 2 (-e).toNat)

def ofNat (n : Nat) : Option Binary64 := ofRatio false n 1

/-! ## Arithmetic with powers of ten -/

/-- The double nearest to `x · 10 ^ k`, where the power itself is first rounded to a double. -/
def mulPowTen (x : Binary64) (k : Nat) : Option Binary64 := do
  let p ← ofNat (Nat.pow 10 k)
  ofScaled x.negative (x.significand * p.significand) 1 (x.exponent + p.exponent)

/-- The double nearest to `x / 10 ^ k`, where the power itself is first rounded to a double. -/
def divPowTen (x : Binary64) (k : Nat) : Option Binary64 := do
  let p ← ofNat (Nat.pow 10 k)
  ofScaled x.negative x.significand p.significand (x.exponent - p.exponent)

/-- Divide by `10 ^ k` in steps of `10 ^ 308`.  Three steps take every double to zero, so four are
enough for any `k`. -/
def divPowTenSteps : Nat → Binary64 → Nat → Option Binary64
  | 0, x, _ => some (zero x.negative)
  | steps + 1, x, k =>
    if k ≤ 308 then x.divPowTen k
    else
      match x.divPowTen 308 with
      | none => none
      | some y => divPowTenSteps steps y (k - 308)

/-- Scale by a power of ten; nothing when the result is too large to be finite. -/
def scaleTen (x : Binary64) (k : Int) : Option Binary64 :=
  if k < 0 then divPowTenSteps 4 x (-k).toNat
  else if k ≤ 308 then x.mulPowTen k.toNat
  else if x.isZero then some x
  else none

end Binary64

end GraphQLEngine
