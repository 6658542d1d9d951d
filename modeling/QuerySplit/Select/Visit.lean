import QuerySplit.Expr.Walk
import QuerySplit.Select.Basic

/-!
# Visiting a statement

The parts of a statement in clause order: select list, `FROM`, `WHERE`, `GROUP BY`, `HAVING`,
`ORDER BY`. `visits` lists every part that a visitor meets when it descends into everything;
`columns` lists every column reference of the statement.
-/

set_option autoImplicit false

namespace QuerySplit

/-- A part of a statement as a visitor meets it. -/
inductive Visit
  | statement
  | sources (tables : List TableRef)
  | filter
  | expr (e : Expr)
deriving DecidableEq

namespace Select

/-- The join conditions in the order of the sources. -/
def conditions (s : Select) : List Expr :=
  s.tables.filterMap TableRef.condition

/-- The expressions of a statement in clause order. -/
def expressions (s : Select) : List Expr :=
  s.items ++ s.conditions ++ s.filter.toList ++ s.groupBy ++ s.having.toList ++
    s.orderBy.map OrderItem.expr

/-- Every column reference of a statement. -/
def columns (s : Select) : List ColumnRef :=
  s.expressions.flatMap Expr.columns

/-- The nodes of some expressions, each tree in pre-order. -/
def nodeVisits (es : List Expr) : List Visit :=
  (es.flatMap Expr.nodes).map .expr

/-- Every part of a statement: a clause before what it holds, a node before its children. -/
def visits (s : Select) : List Visit :=
  .statement :: (nodeVisits s.items ++
    (s.sources.map Visit.sources).toList ++ nodeVisits s.conditions ++
    (s.filter.map fun _ => Visit.filter).toList ++ nodeVisits s.filter.toList ++
    nodeVisits s.groupBy ++ nodeVisits s.having.toList ++
    nodeVisits (s.orderBy.map OrderItem.expr))

end Select

end QuerySplit
