import GraphQLEngine.Numeric.Binary64

/-!
# Shortest decimals of a double

`Binary64.shortest x` is the decimal with the fewest digits among those that read back as `x`, and
of these the one nearest to `x`.

For 1, 2, … 17 digits the two neighbours of `x` on that decimal grid are tested in exact
arithmetic against the interval of reals that round to `x`; the first grid with a hit wins.
-/

namespace GraphQLEngine

/-- The decimal `digits · 10 ^ exponent`. -/
structure Decimal where
  digits : Nat
  exponent : Int
deriving DecidableEq, Repr

/-- The same decimal without trailing zeros in its digits, as long as `fuel` allows. -/
def Decimal.strip : Nat → Decimal → Decimal
  | 0, d => d
  | fuel + 1, d =>
    if d.digits ≠ 0 ∧ d.digits % 10 = 0 then strip fuel ⟨d.digits / 10, d.exponent + 1⟩ else d

namespace Binary64

/-- Four times the significand and the two bounds of the interval that rounds to `x`, in units of
a quarter of the last place.  Below a power of two the gap is half as wide. -/
def interval (x : Binary64) : Nat × Nat × Nat :=
  let m := 4 * x.significand
  let low := if x.significand = Nat.pow 2 52 && decide (-1074 < x.exponent) then m - 1 else m - 2
  (m, low, m + 2)

/-- The fraction `a · 2 ^ e / 10 ^ k`. -/
def overPowTen (a : Nat) (e k : Int) : Nat × Nat :=
  let (n, d) := if 0 ≤ e then (a * Nat.pow 2 e.toNat, 1) else (a, Nat.pow 2 (-e).toNat)
  if 0 ≤ k then (n, d * Nat.pow 10 k.toNat) else (n * Nat.pow 10 (-k).toNat, d)

/-- Whether `c · 10 ^ k` rounds to `x`; the ends of the interval belong to even significands. -/
def readsBack (x : Binary64) (c : Nat) (k : Int) : Bool :=
  let (_, low, high) := x.interval
  let (ln, ld) := overPowTen low (x.exponent - 2) k
  let (hn, hd) := overPowTen high (x.exponent - 2) k
  if x.significand % 2 = 0 then decide (ln ≤ c * ld) && decide (c * hd ≤ hn)
  else decide (ln < c * ld) && decide (c * hd < hn)

/-- The neighbour of `x` on the grid of `10 ^ k` that reads back; of two the nearer, and of two
equally near the even one. -/
def onGrid (x : Binary64) (k : Int) : Option Nat :=
  let (n, d) := overPowTen x.significand x.exponent k
  let c := n / d
  match x.readsBack c k, x.readsBack (c + 1) k with
  | true, true => some (roundDiv n d)
  | true, false => some c
  | false, true => some (c + 1)
  | false, false => none

/-- The least `k` such that the double is below `10 ^ k`, found from above. -/
def decimalMagnitude (x : Binary64) : Int :=
  let rec go : Nat → Int → Int
    | 0, k => k
    | fuel + 1, k =>
      let (n, d) := overPowTen x.significand x.exponent (k - 1)
      if d ≤ n then k else go fuel (k - 1)
  -- the double is below `2 ^ (log2 + 1 + exponent)`, and 30103/100000 is just above `log10 2`
  let bits : Int := (Nat.log2 x.significand : Int) + 1 + x.exponent
  let top : Int := if 0 ≤ bits then bits * 30103 / 100000 + 1 else bits * 30102 / 100000 + 1
  go 4 top

/-- The shortest decimal that reads back as the magnitude of a double other than zero. -/
def shortest (x : Binary64) : Decimal :=
  let magnitude := x.decimalMagnitude
  let rec go : Nat → Int → Decimal
    | 0, k => ⟨(x.onGrid k).getD 0, k⟩
    | fuel + 1, k =>
      match x.onGrid k with
      | some c => ⟨c, k⟩
      | none => go fuel (k - 1)
  if x.isZero then ⟨0, 0⟩ else (go 17 (magnitude - 1)).strip 17

end Binary64

end GraphQLEngine
