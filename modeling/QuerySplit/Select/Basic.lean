import QuerySplit.Expr.Basic
import QuerySplit.Text.Case
import QuerySplit.Text.Segment

/-!
# Statements

A `SELECT` statement: its select list and its clauses, each absent or present. The sources of the
`FROM` clause stand in written order; each carries the join and the condition that tie it to the
sources before it. An absent `FROM` clause differs from an empty one.
-/

set_option autoImplicit false

namespace QuerySplit

/-- How a source joins the ones before it; the first of a list joins none. -/
inductive JoinKind
  | none
  | inner
  | left
  | right
  | full
  | cross
deriving DecidableEq, Repr

def JoinKind.keyword? : JoinKind → Option String
  | .none => Option.none
  | .inner => some "INNER JOIN"
  | .left => some "LEFT JOIN"
  | .right => some "RIGHT JOIN"
  | .full => some "FULL JOIN"
  | .cross => some "CROSS JOIN"

/-- Whether a qualifier means the table with this name and alias: it is the alias, the full name
or the last dotted segment of the name, in any ASCII case. -/
def meansTable (name : String) (alias? : Option String) (qualifier : String) : Bool :=
  alias?.any (Text.eqIgnoreCase · qualifier) || Text.eqIgnoreCase name qualifier ||
    Text.eqIgnoreCase (Text.shortName name) qualifier

/-- One source of a `FROM` clause. -/
structure TableRef where
  name : String
  alias? : Option String := none
  join : JoinKind := .none
  condition : Option Expr := none
deriving DecidableEq, Repr

namespace TableRef

/-- The name by which columns refer to the table: the alias if there is one. -/
def referenceName (t : TableRef) : String :=
  t.alias?.getD t.name

/-- The last dotted segment of the table's name. -/
def shortName (t : TableRef) : String :=
  Text.shortName t.name

def answersTo (t : TableRef) (qualifier : String) : Bool :=
  meansTable t.name t.alias? qualifier

/-- Whether a column is qualified with this table. -/
def owns (t : TableRef) (c : ColumnRef) : Bool :=
  c.table.any t.answersTo

end TableRef

structure OrderItem where
  expr : Expr
  descending : Bool := false
deriving DecidableEq, Repr

structure Select where
  items : List Expr := []
  distinct : Bool := false
  sources : Option (List TableRef) := none
  filter : Option Expr := none
  groupBy : List Expr := []
  having : Option Expr := none
  orderBy : List OrderItem := []
  limit : Option UInt64 := none
  offset : Option UInt64 := none
deriving DecidableEq

namespace Select

/-- The sources in written order; none without a `FROM` clause. -/
def tables (s : Select) : List TableRef :=
  s.sources.getD []

def firstTable? (s : Select) : Option TableRef :=
  s.tables.head?

end Select

end QuerySplit
