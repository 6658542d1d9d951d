import QuerySplit.Json.Basic

/-!
# Decoding records and choices

A record is written as an object with its fields by name, in any order, or as an array with its
fields in declared order. In an object, members with other names are skipped and a declared name
may stand once only; in an array, fields may be missing at the end and nothing may follow the
last one. What a missing field means is up to the field: an error, no value, or a default. An
explicit `null` means "no value" and is no default.

A choice between names is written as the name, or as an object whose one member has that name
and an empty payload.
-/

set_option autoImplicit false

namespace QuerySplit.Json

variable {α : Type}

/-! ## Records -/

/-- How many members have a name. -/
def count (name : String) (members : List (String × Json)) : Nat :=
  members.countP (·.1 == name)

/-- The value of the first member of a name. -/
def member? (name : String) : List (String × Json) → Option Json
  | [] => none
  | (other, value) :: rest => if other = name then some value else member? name rest

/-- What a record gives for each declared field. -/
def fields? (names : List String) : Json → Option (List (Option Json))
  | .object members =>
    if names.any fun name => decide (1 < count name members) then none
    else some (names.map (member? · members))
  | .array items =>
    if names.length < items.length then none
    else some (items.map some ++ List.replicate (names.length - items.length) none)
  | _ => none

/-- A field that has to be there. -/
def required (decode : Json → Option α) : Option Json → Option α
  | some j => decode j
  | none => none

/-- A field that may be missing or `null`. -/
def optional (decode : Json → Option α) : Option Json → Option (Option α)
  | none | some .null => some none
  | some j => (decode j).map some

/-- A field that may be missing, for a default. -/
def defaulted (default : α) (decode : Json → Option α) : Option Json → Option α
  | none => some default
  | some j => decode j

/-- A member that is left out when there is no value. -/
def given (name : String) : Option Json → List (String × Json)
  | some value => [(name, value)]
  | none => []

/-! ## Values without parts -/

def bool? : Json → Option Bool
  | .bool b => some b
  | _ => none

def string? : Json → Option String
  | .string s => some s
  | _ => none

/-- A natural number below two to the 64, written without fraction or exponent. -/
def word? : Json → Option UInt64
  | .number (.whole n) =>
    if 0 ≤ n ∧ n < UInt64.size then some (UInt64.ofNat n.toNat) else none
  | _ => none

def list? (decode : Json → Option α) : Json → Option (List α)
  | .array items => items.mapM decode
  | _ => none

/-! ## Choices -/

/-- Where a value is read from. A tree of tagged nodes is first kept whole and then read from
what was kept, and there an empty object is an empty payload too. -/
inductive Reading
  | direct
  | kept
deriving DecidableEq, Repr

def Reading.emptyPayload : Reading → Json → Bool
  | _, .null => true
  | .kept, .object [] => true
  | _, _ => false

/-- A choice between names. -/
def choice? (reading : Reading) (ofName? : String → Option α) : Json → Option α
  | .string name => ofName? name
  | .object [(name, payload)] => if reading.emptyPayload payload then ofName? name else none
  | _ => none

end QuerySplit.Json
