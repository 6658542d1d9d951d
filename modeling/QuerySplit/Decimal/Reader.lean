import QuerySplit.Decimal.Digits

/-!
# Reading a decimal as a double

A decimal text is an optional sign, digits with at most one point and at least one digit, and an
optional exponent; `inf`, `infinity` and `nan` are read in any case. The value is the double
nearest to it. Values far outside the range of doubles are settled by their magnitude alone.

Nothing else here depends on this reader: a document keeps the text of a number, and a literal is
made from a double (`Literal.ofFloat`). It is for programs that are given the double as a text, as
the counterpart of `Decimal.text`.
-/

set_option autoImplicit false

namespace QuerySplit.Decimal

/-- The exponent that stands at the end of a decimal, zero when nothing stands there. -/
def exponentOf? : List Char → Option Int
  | [] => some 0
  | mark :: rest =>
    if mark = 'e' ∨ mark = 'E' then
      let (negative, digits) :=
        match rest with
        | '-' :: more => (true, more)
        | '+' :: more => (false, more)
        | more => (false, more)
      if digits.isEmpty || !digits.all Char.isDigit then none
      else if negative then some (-(digitsValue digits : Int)) else some (digitsValue digits)
    else none

/-- The double nearest to `significand` times ten to the `exponent`. -/
def nearest (significand : Nat) (exponent : Int) : Float :=
  let magnitude := ((Nat.toDigits 10 significand).length : Int) + exponent
  if significand = 0 ∨ magnitude < -400 then 0.0
  else if 400 < magnitude then 1.0 / 0.0
  else Float.ofScientific significand (decide (exponent < 0)) exponent.natAbs

/-- Reads a decimal without its sign. -/
def readUnsigned? (cs : List Char) : Option Float :=
  let small := cs.map Char.toLower
  if small = "inf".toList ∨ small = "infinity".toList then some (1.0 / 0.0)
  else if small = "nan".toList then some (0.0 / 0.0)
  else
    let whole := cs.takeWhile Char.isDigit
    let (fraction, rest) :=
      match cs.dropWhile Char.isDigit with
      | '.' :: more => (more.takeWhile Char.isDigit, more.dropWhile Char.isDigit)
      | more => ([], more)
    if whole.isEmpty && fraction.isEmpty then none
    else (exponentOf? rest).map fun exponent =>
      nearest (digitsValue (whole ++ fraction)) (exponent - fraction.length)

/-- Reads a decimal text. -/
def read? (s : String) : Option Float :=
  match s.toList with
  | '-' :: cs => (readUnsigned? cs).map fun x => -x
  | '+' :: cs => readUnsigned? cs
  | cs => readUnsigned? cs

end QuerySplit.Decimal
