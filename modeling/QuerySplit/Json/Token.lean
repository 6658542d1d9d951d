import QuerySplit.Decimal.Digits
import QuerySplit.Json.Basic

/-!
# JSON tokens

The first half of reading: characters to tokens. Blanks are space, tab, line feed and carriage
return. A string token holds its text, or nothing when an escape names an unpaired surrogate; a
number token holds its number, or nothing when the number is beyond the range of doubles.

`Token.scan` refuses text with a character that no token takes. Two tokens that touch, such as
`1` and `2` in `1"2"`, are not refused here: no document has two values side by side.
-/

set_option autoImplicit false

namespace QuerySplit.Json

inductive Token
  | openArray
  | closeArray
  | openObject
  | closeObject
  | colon
  | comma
  | null
  | bool (value : Bool)
  | number (value : Option Number)
  | string (value : Option String)
deriving DecidableEq, Repr

namespace Token

/-! ## Strings -/

/-- One step of a string literal: a character, or half of a surrogate pair. -/
inductive Piece
  | char (c : Char)
  | half (code : Nat)
deriving DecidableEq, Repr

def hexDigit? (c : Char) : Option Nat :=
  if c.isDigit then some (Decimal.digitValue c)
  else if 'a' ≤ c ∧ c ≤ 'f' then some (c.toNat - 'a'.toNat + 10)
  else if 'A' ≤ c ∧ c ≤ 'F' then some (c.toNat - 'A'.toNat + 10)
  else none

/-- The value of four hexadecimal digits. -/
def hexCode? (a b c d : Char) : Option Nat := do
  let a ← hexDigit? a
  let b ← hexDigit? b
  let c ← hexDigit? c
  let d ← hexDigit? d
  pure (((a * 16 + b) * 16 + c) * 16 + d)

def pieceOfCode (code : Nat) : Piece :=
  if 0xD800 ≤ code ∧ code < 0xE000 then .half code else .char (Char.ofNat code)

/-- The character behind a short escape. -/
def shortEscape? : Char → Option Char
  | '"' => some '"'
  | '\\' => some '\\'
  | '/' => some '/'
  | 'b' => some '\x08'
  | 'f' => some '\x0c'
  | 'n' => some '\n'
  | 'r' => some '\r'
  | 't' => some '\t'
  | _ => none

/-- The first step of a string literal's body, and what follows it. -/
def piece? : List Char → Option (Piece × List Char)
  | '\\' :: 'u' :: a :: b :: c :: d :: rest => (hexCode? a b c d).map (pieceOfCode ·, rest)
  | '\\' :: e :: rest => (shortEscape? e).map (.char ·, rest)
  | '\\' :: [] => none
  | c :: rest => if c.toNat < 0x20 then none else some (.char c, rest)
  | [] => none

/-- A step inside a string literal takes at least one character. -/
theorem piece?_length {cs rest : List Char} {p : Piece} (h : piece? cs = some (p, rest)) :
    rest.length < cs.length := by
  unfold piece? at h
  split at h
  · simp only [Option.map_eq_some_iff, Prod.mk.injEq] at h
    obtain ⟨_, _, _, rfl⟩ := h
    simp only [List.length_cons]
    omega
  · simp only [Option.map_eq_some_iff, Prod.mk.injEq] at h
    obtain ⟨_, _, _, rfl⟩ := h
    simp only [List.length_cons]
    omega
  · cases h
  · split at h
    · cases h
    · cases h
      simp
  · cases h

/-- The body of a string literal up to its closing quote, and what follows the quote. -/
def body? (cs : List Char) : Option (List Piece × List Char) :=
  match cs with
  | '"' :: rest => some ([], rest)
  | cs =>
    match _h : piece? cs with
    | some (p, rest) => (body? rest).map fun (ps, tail) => (p :: ps, tail)
    | none => none
termination_by cs.length
decreasing_by exact piece?_length _h

/-- The characters that the steps name; a surrogate counts only as one of a pair. -/
def join? : List Piece → Option (List Char)
  | [] => some []
  | .char c :: rest => (join? rest).map (c :: ·)
  | .half high :: .half low :: rest =>
    if high < 0xDC00 ∧ 0xDC00 ≤ low then
      (join? rest).map
        (Char.ofNat (0x10000 + (high - 0xD800) * 0x400 + (low - 0xDC00)) :: ·)
    else none
  | .half _ :: _ => none

/-! ## Numbers -/

/-- The leading digits of a decimal that fit in 64 bits, as a number, and the power of ten that
brings it to the magnitude of the decimal. Digits of the whole part that no longer fit count in
the power; digits of the fraction from the first that no longer fits are dropped. -/
def leading (whole fraction : List Char) : Nat × Int :=
  let (head, dropped) := whole.foldl (fun (n, dropped) c =>
      let next := 10 * n + Decimal.digitValue c
      if dropped = 0 ∧ next < UInt64.size then (next, dropped) else (n, dropped + 1)) (0, 0)
  let (all, kept, _) := fraction.foldl (fun (n, kept, full) c =>
      let next := 10 * n + Decimal.digitValue c
      if !full && decide (next < UInt64.size) then (next, kept + 1, false) else (n, kept, true))
    (head, 0, false)
  (all, (dropped : Int) - (kept : Nat))

/-- Whether a significand scaled by a power of ten stays a finite double. A significand of 64 bits
is finite by itself, so only scaling up can lead out of range. -/
def inRange (significand : Nat) (exponent : Int) : Bool :=
  significand == 0 || decide (exponent ≤ 0) ||
    (decide (exponent ≤ 308) &&
      !(Float.ofNat significand * Float.ofScientific 1 false exponent.toNat).isInf)

/-- The digits after a point: at least one has to follow it. -/
def fraction? : List Char → Option (Option (List Char) × List Char)
  | '.' :: rest =>
    let digits := rest.takeWhile Char.isDigit
    if digits.isEmpty then none else some (some digits, rest.dropWhile Char.isDigit)
  | rest => some (none, rest)

/-- An exponent: its mark, a sign perhaps, and at least one digit. -/
def exponent? : List Char → Option (Option Int × List Char)
  | mark :: rest =>
    if mark = 'e' ∨ mark = 'E' then
      let (negative, rest) :=
        match rest with
        | '-' :: more => (true, more)
        | '+' :: more => (false, more)
        | more => (false, more)
      let digits := rest.takeWhile Char.isDigit
      if digits.isEmpty then none
      else
        let value : Int := Decimal.digitsValue digits
        some (some (if negative then -value else value), rest.dropWhile Char.isDigit)
    else some (none, mark :: rest)
  | [] => some (none, [])

/-- The number that the parts of a numeral name, when it is in range. -/
def numberOf (negative : Bool) (whole : List Char) (fraction : Option (List Char))
    (exponent : Option Int) : Option Number :=
  let places := fraction.getD []
  let (significand, scale) := leading whole places
  if !inRange significand (scale + exponent.getD 0) then none
  else
    let value := Decimal.digitsValue whole
    match fraction, exponent with
    | none, none =>
      if negative then
        if value = 0 then some (.real true 0 0) else some (.whole (-value))
      else some (.whole value)
    | _, _ =>
      some (.real negative (Decimal.digitsValue (whole ++ places))
        (exponent.getD 0 - (places.length : Int)))

/-- A numeral without its sign. A zero in front stands alone. -/
def unsigned? (negative : Bool) (cs : List Char) : Option (Option Number × List Char) := do
  let whole := cs.takeWhile Char.isDigit
  if whole.isEmpty || (whole.head? == some '0' && decide (1 < whole.length)) then none
  else
    let (fraction, rest) ← fraction? (cs.dropWhile Char.isDigit)
    let (exponent, rest) ← exponent? rest
    pure (numberOf negative whole fraction exponent, rest)

/-- A numeral and what follows it. -/
def numeral? : List Char → Option (Option Number × List Char)
  | '-' :: rest => unsigned? true rest
  | cs => unsigned? false cs

/-! ## Tokens -/

def isBlank (c : Char) : Bool :=
  c = ' ' || c = '\t' || c = '\n' || c = '\r'

/-- The first token of a text without blanks in front, and what follows it. -/
def next? : List Char → Option (Token × List Char)
  | '[' :: rest => some (.openArray, rest)
  | ']' :: rest => some (.closeArray, rest)
  | '\x7b' :: rest => some (.openObject, rest)
  | '\x7d' :: rest => some (.closeObject, rest)
  | ':' :: rest => some (.colon, rest)
  | ',' :: rest => some (.comma, rest)
  | 'n' :: 'u' :: 'l' :: 'l' :: rest => some (.null, rest)
  | 't' :: 'r' :: 'u' :: 'e' :: rest => some (.bool true, rest)
  | 'f' :: 'a' :: 'l' :: 's' :: 'e' :: rest => some (.bool false, rest)
  | '"' :: rest => (body? rest).map fun (ps, tail) =>
    (.string ((join? ps).map String.ofList), tail)
  | cs => (numeral? cs).map fun (n, tail) => (.number n, tail)

/-- The tokens of a text. `fuel` bounds their number; the length of the text is enough. -/
def scanWithin : Nat → List Char → Option (List Token)
  | _, [] => some []
  | 0, _ :: _ => none
  | fuel + 1, c :: cs =>
    if isBlank c then scanWithin fuel cs
    else do
      let (token, rest) ← next? (c :: cs)
      let tokens ← scanWithin fuel rest
      pure (token :: tokens)

/-- The tokens of a text, or nothing when some part of it is no token. -/
def scan (cs : List Char) : Option (List Token) :=
  scanWithin cs.length cs

end Token

end QuerySplit.Json
