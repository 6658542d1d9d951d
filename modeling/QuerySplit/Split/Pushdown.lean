import QuerySplit.Dialect.Basic
import QuerySplit.Split.Analysis

/-!
# Joins that could be pushed down

A report on the joins with the federated table, without splitting the query. A join can be pushed
down when its condition is an equality of a federated and a dimension column, or two of them
under one `AND`; longer chains cannot.
-/

set_option autoImplicit false

namespace QuerySplit

/-- One equality of a join, both columns without qualifier. -/
structure ColumnPair where
  federated : String
  dimension : String
deriving DecidableEq, Repr

structure PushableJoin where
  table : String
  alias? : Option String := none
  pairs : List ColumnPair
  /-- The join is one equality and its dimension column is in the result. -/
  required : Bool := false
deriving DecidableEq, Repr

structure PushdownReport where
  federatedTable : String
  alias? : Option String := none
  joins : List PushableJoin := []
deriving DecidableEq, Repr

namespace Expr

/-- The columns of an equality between the federated table and a dimension. -/
def columnPair? (f : FederatedTable) (t : TableRef) (e : Expr) : Option ColumnPair :=
  (e.joinSides? f t).map fun sides => ⟨sides.federated.column, sides.dimension.column⟩

/-- The equalities of a condition that can be pushed down, and whether the join is required. -/
def pushablePairs? (s : Select) (f : FederatedTable) (t : TableRef) :
    Expr → Option (List ColumnPair × Bool)
  | .binary left .and right =>
    match left.columnPair? f t, right.columnPair? f t with
    | some first, some second => some ([first, second], false)
    | _, _ => none
  | e => (e.columnPair? f t).map fun pair => ([pair], s.projects t pair.dimension)

/-- Whether a column of the expression is qualified with the table. -/
def mentions (t : TableRef) (e : Expr) : Bool :=
  e.columns.any t.owns

end Expr

namespace Select

/-- The pushable join of a source: by its own condition, or else by the condition of the
federated table if that mentions the source. -/
def pushableJoin? (s : Select) (f : FederatedTable) (t : TableRef) : Option PushableJoin :=
  let own := t.condition.bind (·.pushablePairs? s f t)
  let other := ((s.federatedCondition? f).filter (·.mentions t)).bind (·.pushablePairs? s f t)
  (own.or other).map fun (pairs, required) =>
    { table := t.name, alias? := t.alias?, pairs, required }

/-- The joins with the federated table that could be pushed down. -/
def pushdownReport? (n : Naming) (s : Select) : Option PushdownReport :=
  (s.federatedTable? n).map fun f =>
    { federatedTable := f.name
      alias? := f.alias?
      joins := (s.othersThan f.position).filterMap (s.pushableJoin? f) }

end Select

end QuerySplit
