import QuerySplit.Error
import QuerySplit.Expr.Basic
import QuerySplit.Json.Printer
import QuerySplit.Json.Reader
import QuerySplit.Json.Record

/-!
# Expressions as documents

An expression is an object whose `type` member names its form; the other members are the fields
of that form. It may also be written as an array, the form first and the fields in order. The
members may come in any order, so an expression is kept whole before it is decoded: all of it has
to be readable and within the nesting limit, members that no field takes included.

`ofJson?` decodes an expression that stands where `room` more levels may be opened; `keptOfJson?`
decodes one inside another expression, where a form may also be given by its number.
-/

set_option autoImplicit false

namespace QuerySplit

open Json (Reading)

namespace BinaryOp

def toJson (op : BinaryOp) : Json := .string op.symbol

/-- The operator of a symbol; inequality has two. -/
def ofSymbol? : String → Option BinaryOp
  | "=" => some .eq
  | "<>" | "!=" => some .neq
  | "<" => some .lt
  | "<=" => some .lte
  | ">" => some .gt
  | ">=" => some .gte
  | "AND" => some .and
  | "OR" => some .or
  | "+" => some .add
  | "-" => some .sub
  | "*" => some .mul
  | "/" => some .div
  | "LIKE" => some .like
  | _ => none

def ofJson? (reading : Reading) : Json → Option BinaryOp :=
  Json.choice? reading ofSymbol?

end BinaryOp

namespace ColumnRef

def members (c : ColumnRef) : List (String × Json) :=
  Json.given "table" (c.table.map .string) ++ [("column", .string c.column)]

def toJson (c : ColumnRef) : Json := .object c.members

def ofJson? (j : Json) : Option ColumnRef := do
  let [table, column] ← j.fields? ["table", "column"] | none
  let table ← Json.optional Json.string? table
  let column ← Json.required Json.string? column
  pure ⟨table, column⟩

end ColumnRef

namespace LiteralKind

def name : LiteralKind → String
  | .string => "STRING"
  | .number => "NUMBER"
  | .boolean => "BOOLEAN"
  | .null => "NULL"
  | .date => "DATE"
  | .timestamp => "TIMESTAMP"
  | .unknown => "UNKNOWN"

def ofName? : String → Option LiteralKind
  | "STRING" => some .string
  | "NUMBER" => some .number
  | "BOOLEAN" => some .boolean
  | "NULL" => some .null
  | "DATE" => some .date
  | "TIMESTAMP" => some .timestamp
  | "UNKNOWN" => some .unknown
  | _ => none

def toJson (kind : LiteralKind) : Json := .string kind.name

def ofJson? (reading : Reading) : Json → Option LiteralKind :=
  Json.choice? reading ofName?

end LiteralKind

namespace Literal

def members (v : Literal) : List (String × Json) :=
  [("value", .string v.value), ("literal_type", v.kind.toJson)]

def toJson (v : Literal) : Json := .object v.members

def ofJson? (reading : Reading) (j : Json) : Option Literal := do
  let [value, kind] ← j.fields? ["value", "literal_type"] | none
  let value ← Json.required Json.string? value
  let kind ← Json.defaulted .unknown (LiteralKind.ofJson? reading) kind
  pure ⟨value, kind⟩

end Literal

namespace Expr

/-- The form of an expression, which is its constructor. -/
inductive Form
  | binary
  | column
  | literal
  | call
  | membership
  | star
deriving DecidableEq, Repr

namespace Form

def name : Form → String
  | .binary => "binary_expression"
  | .column => "column_reference"
  | .literal => "literal"
  | .call => "function_call"
  | .membership => "in_expression"
  | .star => "star"

def ofName? : String → Option Form
  | "binary_expression" => some .binary
  | "column_reference" => some .column
  | "literal" => some .literal
  | "function_call" => some .call
  | "in_expression" => some .membership
  | "star" => some .star
  | _ => none

/-- The form of a number: forms are numbered from zero in declared order. -/
def ofNumber? : Int → Option Form
  | 0 => some .binary
  | 1 => some .column
  | 2 => some .literal
  | 3 => some .call
  | 4 => some .membership
  | 5 => some .star
  | _ => none

/-- The form that a `type` member names; numbers count inside a kept expression only. -/
def ofTag? : Reading → Json → Option Form
  | _, .string name => ofName? name
  | .kept, .number (.whole n) => ofNumber? n
  | _, _ => none

end Form

/-! ## Encoding -/

mutual

def toJson : Expr → Json
  | .binary left op right =>
    .object [("type", .string Form.binary.name), ("left", left.toJson),
      ("operator", op.toJson), ("right", right.toJson)]
  | .column c => .object (("type", .string Form.column.name) :: c.members)
  | .literal v => .object (("type", .string Form.literal.name) :: v.members)
  | .call name args distinct =>
    .object [("type", .string Form.call.name), ("name", .string name),
      ("args", .array (toJsonList args)), ("distinct", .bool distinct)]
  | .membership c values =>
    .object [("type", .string Form.membership.name), ("column", c.toJson),
      ("values", .array (toJsonList values))]
  | .star => .object [("type", .string Form.star.name)]

def toJsonList : List Expr → List Json
  | [] => []
  | e :: rest => e.toJson :: toJsonList rest

end

/-- The fields of an expression without its form. -/
def payload (e : Expr) : Json :=
  match e.toJson with
  | .object (_ :: fields) => .object fields
  | j => j

/-! ## Decoding -/

/-- Separates the form of an expression from its fields. The object form has one `type`. -/
def tagged? (reading : Reading) : Json → Option (Form × Json)
  | .object members =>
    if Json.count "type" members = 1 then do
      let tag ← Json.member? "type" members
      let form ← Form.ofTag? reading tag
      pure (form, .object (members.filter (·.1 != "type")))
    else none
  | .array (tag :: fields) => (Form.ofTag? reading tag).map (·, .array fields)
  | _ => none

/-- Decodes the fields of a form. `child levels` decodes an expression that stands the given
number of levels inside the fields. -/
def ofPayload? (reading : Reading) (child : Nat → Json → Option Expr) :
    Form → Json → Option Expr
  | .binary, j => do
    let [left, op, right] ← j.fields? ["left", "operator", "right"] | none
    let left ← Json.required (child 1) left
    let op ← Json.required (BinaryOp.ofJson? reading) op
    let right ← Json.required (child 1) right
    pure (.binary left op right)
  | .column, j => (ColumnRef.ofJson? j).map .column
  | .literal, j => (Literal.ofJson? reading j).map .literal
  | .call, j => do
    let [name, args, distinct] ← j.fields? ["name", "args", "distinct"] | none
    let name ← Json.required Json.string? name
    let args ← Json.defaulted [] (Json.list? (child 2)) args
    let distinct ← Json.defaulted false Json.bool? distinct
    pure (.call name args distinct)
  | .membership, j => do
    let [tested, values] ← j.fields? ["column", "values"] | none
    let tested ← Json.required ColumnRef.ofJson? tested
    let values ← Json.required (Json.list? (child 2)) values
    pure (.membership tested values)
  | .star, .object _ => some .star
  | .star, .array [] => some .star
  | .star, _ => none

/-- Decodes an expression inside another one. Each expression is an object or array of its own,
so `levels`, the nesting of the whole, bounds the recursion. -/
def keptOfJson? : Nat → Json → Option Expr
  | 0, _ => none
  | levels + 1, j => do
    let (form, fields) ← tagged? .kept j
    ofPayload? .kept (fun _ => keptOfJson? levels) form fields

/-- Decodes an expression that stands where `room` more levels may be opened. -/
def ofJson? (room : Nat) (j : Json) : Option Expr :=
  if j.fits room then do
    let (form, fields) ← tagged? .direct j
    ofPayload? .kept (fun _ => keptOfJson? room) form fields
  else none

/-- Decodes the fields of a form that stand by themselves. -/
def ofFields? (form : Form) (room : Nat) (j : Json) : Option Expr :=
  ofPayload? .direct (fun levels => ofJson? (room - levels)) form j

/-! ## Texts -/

/-- The document of an expression. -/
def document (e : Expr) : String := e.toJson.render

/-- Reads the document of an expression. The error tells the context and leaves out the reason that
a reader of texts would append to it. -/
def ofDocument (text : String) : Except Error Expr :=
  match (Json.read? text).bind (ofJson? Json.maxDepth) with
  | some e => .ok e
  | none => .error (.serialization "decoding expression")

end Expr

end QuerySplit
