/-!
# JSON values

A document is read into `Json` before anything is decoded from it. Objects keep their members in
written order, repeated names included, because decoding treats a repeated name differently from
case to case. `unreadable` stands for text that follows the grammar and names no value: a string
with an unpaired surrogate, a number beyond the range of doubles, an object with such a string
for a name. A decoder that skips a member does not mind it; one that reads it fails.

`depth` counts nested arrays and objects. Documents nest at most `maxDepth` of them.
-/

set_option autoImplicit false

namespace QuerySplit

namespace Json

/-- A number as it is written. `whole` has neither fraction nor exponent; minus zero is `real`. -/
inductive Number
  | whole (value : Int)
  | real (negative : Bool) (significand : Nat) (exponent : Int)
deriving DecidableEq, Repr

end Json

inductive Json
  | null
  | bool (value : Bool)
  | number (value : Json.Number)
  | string (value : String)
  | array (items : List Json)
  | object (members : List (String × Json))
  | unreadable
deriving Inhabited, Repr

namespace Json

mutual

/-- The nesting of arrays and objects: none for a scalar, one for an empty array. -/
def depth : Json → Nat
  | .array items => depthOfItems items + 1
  | .object members => depthOfMembers members + 1
  | .null | .bool _ | .number _ | .string _ | .unreadable => 0

def depthOfItems : List Json → Nat
  | [] => 0
  | item :: rest => max item.depth (depthOfItems rest)

def depthOfMembers : List (String × Json) → Nat
  | [] => 0
  | (_, value) :: rest => max value.depth (depthOfMembers rest)

end

mutual

/-- Whether every part names a value. -/
def readable : Json → Bool
  | .array items => readableItems items
  | .object members => readableMembers members
  | .null | .bool _ | .number _ | .string _ => true
  | .unreadable => false

def readableItems : List Json → Bool
  | [] => true
  | item :: rest => item.readable && readableItems rest

def readableMembers : List (String × Json) → Bool
  | [] => true
  | (_, value) :: rest => value.readable && readableMembers rest

end

/-- Documents nest at most this many arrays and objects. -/
def maxDepth : Nat := 127

/-- Whether a value can stand where `room` more levels may be opened. -/
def fits (room : Nat) (j : Json) : Bool :=
  j.readable && decide (j.depth ≤ room)

/-- A natural number as a JSON number. -/
def natural (n : Nat) : Json := .number (.whole n)

end Json

end QuerySplit
