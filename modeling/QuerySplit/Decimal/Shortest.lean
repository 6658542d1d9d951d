/-!
# The shortest decimal of a double

A finite double is an integer `m` times a power of two. The decimal written for it is the one
with the fewest digits among those that round to it, and of these the nearest; of two equally
near ones the greater. For each count of digits only the two neighbours of the value on the
decimal grid of that count can qualify, so the search tests those two, in exact arithmetic.

The text is always positional: no exponent, no fraction after an integral value.
-/

set_option autoImplicit false

namespace QuerySplit.Decimal

/-- The value `digits` times ten to the `exponent`. -/
structure Scaled where
  digits : Nat
  exponent : Int
deriving DecidableEq, Repr

/-- A positive real as `numerator` over `denominator`. -/
structure Ratio where
  numerator : Nat
  denominator : Nat

/-- The ratio `n` times two to the `q`. -/
def Ratio.binary (n : Nat) (q : Int) : Ratio :=
  ⟨n * Nat.pow 2 q.toNat, Nat.pow 2 (-q).toNat⟩

def Scaled.toRatio (s : Scaled) : Ratio :=
  ⟨s.digits * Nat.pow 10 s.exponent.toNat, Nat.pow 10 (-s.exponent).toNat⟩

namespace Ratio

def lt (a b : Ratio) : Bool :=
  decide (a.numerator * b.denominator < b.numerator * a.denominator)

def le (a b : Ratio) : Bool :=
  decide (a.numerator * b.denominator ≤ b.numerator * a.denominator)

/-- The distance between two ratios, the smaller first. -/
def gap (low high : Ratio) : Ratio :=
  ⟨high.numerator * low.denominator - low.numerator * high.denominator,
    low.denominator * high.denominator⟩

/-- The largest integer not above the ratio over ten to the `exponent`. -/
def onGrid (r : Ratio) (exponent : Int) : Nat :=
  (r.numerator * Nat.pow 10 (-exponent).toNat) / (r.denominator * Nat.pow 10 exponent.toNat)

/-- The exponent of the leading decimal digit, for ratios of at least ten to the minus 330. -/
def magnitude (r : Ratio) : Int :=
  ((Nat.toDigits 10 (r.onGrid (-330))).length : Int) - 331

end Ratio

/-- The reals that round to a double: between `low` and `high`, the ends too when `closed`. -/
structure Cell where
  low : Ratio
  value : Ratio
  high : Ratio
  closed : Bool

/-- The cell of `m` times two to the `q`. Below a power of two the neighbour is half as far. -/
def Cell.of (m : Nat) (q : Int) : Cell where
  low := .binary (4 * m - if m = Nat.pow 2 52 then 1 else 2) (q - 2)
  value := .binary (4 * m) (q - 2)
  high := .binary (4 * m + 2) (q - 2)
  closed := m % 2 == 0

def Cell.holds (c : Cell) (r : Ratio) : Bool :=
  if c.closed then c.low.le r && r.le c.high else c.low.lt r && r.lt c.high

/-- The decimal of a given count of digits that lies in the cell, the nearer one if two do. -/
def Cell.atDigits (c : Cell) (count : Nat) : Option Scaled :=
  let exponent := c.value.magnitude - count + 1
  let below : Scaled := ⟨c.value.onGrid exponent, exponent⟩
  let above : Scaled := ⟨below.digits + 1, exponent⟩
  match c.holds below.toRatio, c.holds above.toRatio with
  | true, true =>
    if (below.toRatio.gap c.value).lt (c.value.gap above.toRatio) then below else above
  | true, false => some below
  | false, true => some above
  | false, false => none

/-- The decimal with the fewest digits in the cell; seventeen always suffice. -/
def Cell.shortest (c : Cell) : Scaled :=
  ((List.range 17).findSome? fun n => c.atDigits (n + 1)).getD ⟨0, 0⟩

/-- The digits of a scaled value written out in full. -/
def Scaled.text (s : Scaled) : String :=
  let digits := Nat.toDigits 10 s.digits
  if 0 ≤ s.exponent then
    String.ofList (digits ++ List.replicate s.exponent.toNat '0')
  else
    let places := (-s.exponent).toNat
    let padded := List.replicate (places + 1 - digits.length) '0' ++ digits
    let whole := padded.take (padded.length - places)
    let fraction := (padded.drop (padded.length - places)).reverse.dropWhile (· == '0')
    String.ofList (if fraction.isEmpty then whole else whole ++ '.' :: fraction.reverse)

/-- The text of a double: sign, then the shortest decimal in positional notation. -/
def text (x : Float) : String :=
  let bits : Nat := x.toBits.toNat
  let sign := if bits / Nat.pow 2 63 = 0 then "" else "-"
  let biased : Nat := bits / Nat.pow 2 52 % Nat.pow 2 11
  let fraction : Nat := bits % Nat.pow 2 52
  if biased = 2047 then
    if fraction = 0 then sign ++ "inf" else "NaN"
  else if biased = 0 then
    if fraction = 0 then sign ++ "0" else sign ++ (Cell.of fraction (-1074)).shortest.text
  else
    sign ++ (Cell.of (Nat.pow 2 52 + fraction) ((biased : Int) - 1075)).shortest.text

end QuerySplit.Decimal
