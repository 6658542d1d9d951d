import QuerySplit.Json.Token

/-!
# Reading JSON

The second half of reading: tokens to a value. The reader is a machine over tokens that keeps the
open arrays and objects on a stack, so it needs no bound on nesting and each token is one step.
It accepts exactly one value with blanks around it.
-/

set_option autoImplicit false

namespace QuerySplit.Json

namespace Reader

/-- An open array or object; the newest item or member is first. A name is absent when its
string names no text. -/
inductive Frame
  | array (items : List Json)
  | object (members : List (Option String × Json))
  | member (members : List (Option String × Json)) (name : Option String)

/-- What has to follow, with the open frames, the innermost first. -/
inductive State
  | value (open_ : List Frame)
  | opened (open_ : List Frame)
  | name (open_ : List Frame)
  | colon (open_ : List Frame)
  | separator (open_ : List Frame)
  | finished (value : Json)

/-- Hands a complete value to the innermost frame. -/
def place (value : Json) : List Frame → Option State
  | [] => some (.finished value)
  | .array items :: rest => some (.separator (.array (value :: items) :: rest))
  | .member members name :: rest => some (.separator (.object ((name, value) :: members) :: rest))
  | .object _ :: _ => none

/-- The members in written order; nothing when a name is missing. -/
def members? (newestFirst : List (Option String × Json)) : Option (List (String × Json)) :=
  newestFirst.foldl (fun later (name, value) => do
    let later ← later
    let name ← name
    pure ((name, value) :: later)) (some [])

/-- Closes an object. -/
def closeObject (newestFirst : List (Option String × Json)) : Json :=
  match members? newestFirst with
  | some members => .object members
  | none => .unreadable

/-- The value of a token that is one by itself. -/
def scalar? : Token → Option Json
  | .null => some .null
  | .bool b => some (.bool b)
  | .number n => some ((n.map Json.number).getD .unreadable)
  | .string s => some ((s.map Json.string).getD .unreadable)
  | _ => none

/-- A token where a value has to follow. -/
def takeValue (frames : List Frame) : Token → Option State
  | .openArray => some (.opened (.array [] :: frames))
  | .openObject => some (.opened (.object [] :: frames))
  | token => (scalar? token).bind (place · frames)

/-- A token where the name of a member has to follow. -/
def takeName : List Frame → Token → Option State
  | .object members :: rest, .string name => some (.colon (.member members name :: rest))
  | _, _ => none

/-- A token after a complete item or member, or at the start of an array or object. -/
def close : List Frame → Token → Option State
  | .array items :: rest, .closeArray => place (.array items.reverse) rest
  | .object members :: rest, .closeObject => place (closeObject members) rest
  | _, _ => none

def step : State → Token → Option State
  | .value frames, token => takeValue frames token
  | .opened frames, token =>
    match close frames token, frames with
    | some state, _ => some state
    | none, .array _ :: _ => takeValue frames token
    | none, _ => takeName frames token
  | .name frames, token => takeName frames token
  | .colon frames, .colon => some (.value frames)
  | .colon _, _ => none
  | .separator (.array items :: rest), .comma => some (.value (.array items :: rest))
  | .separator (.object members :: rest), .comma => some (.name (.object members :: rest))
  | .separator frames, token => close frames token
  | .finished _, _ => none

/-- The value that a list of tokens spells. -/
def ofTokens? (tokens : List Token) : Option Json :=
  match tokens.foldlM step (.value []) with
  | some (.finished value) => some value
  | _ => none

end Reader

/-- Reads a document. -/
def read? (text : String) : Option Json :=
  (Token.scan text.toList).bind Reader.ofTokens?

end QuerySplit.Json
