import QuerySplit.Expr.Document
import QuerySplit.Select.Basic

/-!
# Statements as documents

A statement is an object with one member per clause. Absent clauses are left out; the select
list, the flag for duplicates and the lists are always written. The decoders take the `room` for
further nesting at the place of the record, because the expressions inside need it.
-/

set_option autoImplicit false

namespace QuerySplit

open Json (Reading)

namespace JoinKind

def name : JoinKind → String
  | .none => "UNKNOWN"
  | .inner => "INNER"
  | .left => "LEFT"
  | .right => "RIGHT"
  | .full => "FULL"
  | .cross => "CROSS"

/-- The join of a name; the absence of one has two names. -/
def ofName? : String → Option JoinKind
  | "UNKNOWN" | "NONE" => some .none
  | "INNER" => some .inner
  | "LEFT" => some .left
  | "RIGHT" => some .right
  | "FULL" => some .full
  | "CROSS" => some .cross
  | _ => Option.none

def toJson (kind : JoinKind) : Json := .string kind.name

def ofJson? : Json → Option JoinKind :=
  Json.choice? .direct ofName?

end JoinKind

namespace TableRef

def toJson (t : TableRef) : Json :=
  .object (("name", .string t.name) :: Json.given "alias" (t.alias?.map .string) ++
    ("join_type", t.join.toJson) :: Json.given "join_condition" (t.condition.map Expr.toJson))

def ofJson? (room : Nat) (j : Json) : Option TableRef := do
  let [name, aliasName, join, condition] ←
    j.fields? ["name", "alias", "join_type", "join_condition"] | none
  let name ← Json.required Json.string? name
  let alias? ← Json.optional Json.string? aliasName
  let join ← Json.defaulted .none JoinKind.ofJson? join
  let condition ← Json.optional (Expr.ofJson? (room - 1)) condition
  pure { name, alias?, join, condition }

/-- The `FROM` clause. -/
def listToJson (tables : List TableRef) : Json :=
  .object [("tables", .array (tables.map toJson))]

def listOfJson? (room : Nat) (j : Json) : Option (List TableRef) := do
  let [tables] ← j.fields? ["tables"] | none
  Json.required (Json.list? (ofJson? (room - 2))) tables

end TableRef

namespace OrderItem

def toJson (item : OrderItem) : Json :=
  .object [("expression", item.expr.toJson), ("descending", .bool item.descending)]

def ofJson? (room : Nat) (j : Json) : Option OrderItem := do
  let [expr, descending] ← j.fields? ["expression", "descending"] | none
  let expr ← Json.required (Expr.ofJson? (room - 1)) expr
  let descending ← Json.defaulted false Json.bool? descending
  pure { expr, descending }

end OrderItem

namespace Select

/-- The `WHERE` clause. -/
def filterToJson (condition : Expr) : Json :=
  .object [("condition", condition.toJson)]

def filterOfJson? (room : Nat) (j : Json) : Option Expr := do
  let [condition] ← j.fields? ["condition"] | none
  Json.required (Expr.ofJson? (room - 1)) condition

def wordToJson (n : UInt64) : Json := Json.natural n.toNat

def toJson (s : Select) : Json :=
  .object (
    [("select_list", .array (Expr.toJsonList s.items)), ("distinct", .bool s.distinct)] ++
    Json.given "from" (s.sources.map TableRef.listToJson) ++
    Json.given "where_clause" (s.filter.map filterToJson) ++
    [("group_by", .array (Expr.toJsonList s.groupBy))] ++
    Json.given "having" (s.having.map Expr.toJson) ++
    [("order_by", .array (s.orderBy.map OrderItem.toJson))] ++
    Json.given "limit" (s.limit.map wordToJson) ++
    Json.given "offset" (s.offset.map wordToJson))

def ofJson? (room : Nat) (j : Json) : Option Select := do
  let [items, distinct, sources, filter, groupBy, having, orderBy, limit, offset] ←
    j.fields? ["select_list", "distinct", "from", "where_clause", "group_by", "having",
      "order_by", "limit", "offset"] | none
  let items ← Json.required (Json.list? (Expr.ofJson? (room - 2))) items
  let distinct ← Json.defaulted false Json.bool? distinct
  let sources ← Json.optional (TableRef.listOfJson? (room - 1)) sources
  let filter ← Json.optional (filterOfJson? (room - 1)) filter
  let groupBy ← Json.defaulted [] (Json.list? (Expr.ofJson? (room - 2))) groupBy
  let having ← Json.optional (Expr.ofJson? (room - 1)) having
  let orderBy ← Json.defaulted [] (Json.list? (OrderItem.ofJson? (room - 2))) orderBy
  let limit ← Json.optional Json.word? limit
  let offset ← Json.optional Json.word? offset
  pure { items, distinct, sources, filter, groupBy, having, orderBy, limit, offset }

/-- The document of a statement. -/
def document (s : Select) : String := s.toJson.render

/-- The document of a statement, laid out for people. -/
def prettyDocument (s : Select) : String := s.toJson.renderPretty

/-- Reads the document of a statement. The error tells the context and leaves out the reason that a
reader of texts would append to it. -/
def ofDocument (text : String) : Except Error Select :=
  match (Json.read? text).bind (ofJson? Json.maxDepth) with
  | some s => .ok s
  | none => .error (.serialization "decoding select statement")

end Select

end QuerySplit
