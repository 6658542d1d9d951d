import QuerySplit.Expr.Display
import QuerySplit.Select.Basic

/-!
# The SQL text of a statement

Clauses appear in the order of SQL, absent and empty ones not at all. In the `FROM` clause the
first source stands bare; each later one follows its join keyword, or a comma if it has none, and
shows its condition after `ON`.
-/

set_option autoImplicit false

namespace QuerySplit

namespace TableRef

def text (t : TableRef) : String :=
  match t.alias? with
  | some name => t.name ++ " AS " ++ name
  | none => t.name

/-- A source after the first one, with what separates it from the one before. -/
def joinedText (t : TableRef) : String :=
  let table :=
    match t.join.keyword? with
    | some keyword => " " ++ keyword ++ " " ++ t.text
    | none => ", " ++ t.text
  match t.condition with
  | some e => table ++ " ON " ++ e.text
  | none => table

/-- The sources of a `FROM` clause. -/
def listText : List TableRef → String
  | [] => ""
  | first :: rest => first.text ++ String.join (rest.map joinedText)

end TableRef

def OrderItem.text (item : OrderItem) : String :=
  if item.descending then item.expr.text ++ " DESC" else item.expr.text

namespace Select

/-- A clause with its keyword, nothing when it is absent. -/
def clause (keyword : String) : Option String → String
  | some body => " " ++ keyword ++ " " ++ body
  | none => ""

/-- The comma-separated texts of a clause, nothing for an empty list. -/
def listed : List String → Option String
  | [] => none
  | texts => some (", ".intercalate texts)

def text (s : Select) : String :=
  "SELECT " ++ (if s.distinct then "DISTINCT " else "") ++ Expr.listText s.items ++
    clause "FROM" (s.sources.map TableRef.listText) ++
    clause "WHERE" (s.filter.map Expr.text) ++
    clause "GROUP BY" (listed (Expr.texts s.groupBy)) ++
    clause "HAVING" (s.having.map Expr.text) ++
    clause "ORDER BY" (listed (s.orderBy.map OrderItem.text)) ++
    clause "LIMIT" (s.limit.map fun n => n.toNat.repr) ++
    clause "OFFSET" (s.offset.map fun n => n.toNat.repr)

end Select

end QuerySplit
