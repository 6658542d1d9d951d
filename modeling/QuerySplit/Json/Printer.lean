import QuerySplit.Json.Basic

/-!
# Printing JSON

Two layouts: compact, without blanks, and pretty, with two columns of indent per level, one item
a line, and empty arrays and objects closed at once. A string escapes the quote, the backslash
and the characters below the blank; all others stand as they are. Every printer puts its text in
front of a rest, so printing takes time in proportion to the text.
-/

set_option autoImplicit false

namespace QuerySplit.Json

def hexChar (n : Nat) : Char :=
  Char.ofNat (if n < 10 then '0'.toNat + n else 'a'.toNat + (n - 10))

/-- A character inside a string literal. -/
def escape (c : Char) : List Char :=
  if c = '"' then ['\\', '"']
  else if c = '\\' then ['\\', '\\']
  else if c = '\x08' then ['\\', 'b']
  else if c = '\t' then ['\\', 't']
  else if c = '\n' then ['\\', 'n']
  else if c = '\x0c' then ['\\', 'f']
  else if c = '\r' then ['\\', 'r']
  else if c.toNat < 0x20 then
    ['\\', 'u', '0', '0', hexChar (c.toNat / 16), hexChar (c.toNat % 16)]
  else [c]

def quote (s : String) : List Char :=
  '"' :: (s.toList.flatMap escape ++ ['"'])

def Number.chars : Number → List Char
  | .whole n => (if n < 0 then ['-'] else []) ++ Nat.toDigits 10 n.natAbs
  | .real negative significand exponent =>
    (if negative then ['-'] else []) ++ Nat.toDigits 10 significand ++ 'e' ::
      ((if exponent < 0 then ['-'] else []) ++ Nat.toDigits 10 exponent.natAbs)

/-- A value without parts. What names no value is written as an unpaired surrogate. -/
def scalarChars : Json → List Char
  | .bool true => "true".toList
  | .bool false => "false".toList
  | .number n => n.chars
  | .string s => quote s
  | .unreadable => ['"', '\\', 'u', 'd', '8', '0', '0', '"']
  | _ => "null".toList

mutual

/-- The compact text of a value, in front of a rest. -/
def compact : Json → List Char → List Char
  | .array items, rest => '[' :: compactItems items rest
  | .object members, rest => '\x7b' :: compactMembers members rest
  | .null, rest => scalarChars .null ++ rest
  | .bool b, rest => scalarChars (.bool b) ++ rest
  | .number n, rest => scalarChars (.number n) ++ rest
  | .string s, rest => scalarChars (.string s) ++ rest
  | .unreadable, rest => scalarChars .unreadable ++ rest

/-- Items and the closing bracket, in front of a rest. -/
def compactItems : List Json → List Char → List Char
  | [], rest => ']' :: rest
  | [item], rest => item.compact (']' :: rest)
  | item :: others, rest => item.compact (',' :: compactItems others rest)

/-- Members and the closing brace, in front of a rest. -/
def compactMembers : List (String × Json) → List Char → List Char
  | [], rest => '\x7d' :: rest
  | [(name, value)], rest => quote name ++ ':' :: value.compact ('\x7d' :: rest)
  | (name, value) :: others, rest =>
    quote name ++ ':' :: value.compact (',' :: compactMembers others rest)

end

/-- A line break and the indent of a level, in front of a rest. -/
def newLine (level : Nat) (rest : List Char) : List Char :=
  '\n' :: (List.replicate (2 * level) ' ' ++ rest)

mutual

/-- The pretty text of a value that stands at a level, in front of a rest. -/
def pretty (level : Nat) : Json → List Char → List Char
  | .array items, rest => '[' :: prettyItems level items rest
  | .object members, rest => '\x7b' :: prettyMembers level members rest
  | .null, rest => scalarChars .null ++ rest
  | .bool b, rest => scalarChars (.bool b) ++ rest
  | .number n, rest => scalarChars (.number n) ++ rest
  | .string s, rest => scalarChars (.string s) ++ rest
  | .unreadable, rest => scalarChars .unreadable ++ rest

def prettyItems (level : Nat) : List Json → List Char → List Char
  | [], rest => ']' :: rest
  | [item], rest => newLine (level + 1) (item.pretty (level + 1) (newLine level (']' :: rest)))
  | item :: others, rest =>
    newLine (level + 1) (item.pretty (level + 1) (',' :: prettyItems level others rest))

def prettyMembers (level : Nat) : List (String × Json) → List Char → List Char
  | [], rest => '\x7d' :: rest
  | [(name, value)], rest =>
    newLine (level + 1) (quote name ++ ':' :: ' ' ::
      value.pretty (level + 1) (newLine level ('\x7d' :: rest)))
  | (name, value) :: others, rest =>
    newLine (level + 1) (quote name ++ ':' :: ' ' ::
      value.pretty (level + 1) (',' :: prettyMembers level others rest))

end

/-- The compact text of a value. -/
def render (j : Json) : String :=
  String.ofList (j.compact [])

/-- The pretty text of a value. -/
def renderPretty (j : Json) : String :=
  String.ofList (j.pretty 0 [])

end QuerySplit.Json
