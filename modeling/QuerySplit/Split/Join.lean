import QuerySplit.Expr.Chain
import QuerySplit.Expr.Walk
import QuerySplit.Split.Basic

/-!
# Joins with the federated table

A join condition that the split can use is an equality of a federated column and a column of the
dimension, in either order. In the condition that the dimension itself carries, an unqualified
column counts as the dimension's.
-/

set_option autoImplicit false

namespace QuerySplit

/-- The two sides of a join, the federated one first. -/
structure JoinSides where
  federated : ColumnRef
  dimension : ColumnRef
deriving DecidableEq, Repr

namespace Expr

/-- The two columns of an equality of columns. -/
def equatedColumns? : Expr → Option (ColumnRef × ColumnRef)
  | .binary (.column left) .eq (.column right) => some (left, right)
  | _ => none

/-- The sides of an equality whose columns pass the given tests, in either order. The order as
written is tried first. -/
def sidesBy? (federated dimension : ColumnRef → Bool) (e : Expr) : Option JoinSides :=
  match e.equatedColumns? with
  | some (left, right) =>
    if federated left && dimension right then some ⟨left, right⟩
    else if federated right && dimension left then some ⟨right, left⟩
    else none
  | none => none

/-- The sides of an equality of a federated column and a column of the table. -/
def joinSides? (f : FederatedTable) (t : TableRef) (e : Expr) : Option JoinSides :=
  e.sidesBy? f.owns t.owns

/-- The sides of an equality in the condition of the table itself. -/
def attachedJoinSides? (f : FederatedTable) (t : TableRef) (e : Expr) : Option JoinSides :=
  (e.joinSides? f t).or (e.sidesBy? f.owns (·.table.isNone))

end Expr

namespace Select

/-- Whether the select list or the grouping has a column of the table, in any ASCII case,
qualified with the table or unqualified. -/
def projects (s : Select) (t : TableRef) (column : String) : Bool :=
  ((s.items ++ s.groupBy).flatMap Expr.columns).any fun c =>
    Text.eqIgnoreCase c.column column && c.table.all t.answersTo

/-- The condition of a dimension that a conjunct states: a comparison of an owned column with a
literal, in this order. -/
def conditionOf? (t : TableRef) : Expr → Option FilterCondition
  | .binary (.column c) op (.literal value) =>
    if op.isComparison && t.owns c then some ⟨c.column, op, value⟩ else none
  | _ => none

/-- The conditions that the `WHERE` clause states for a table. -/
def conditionsOf (s : Select) (t : TableRef) : List FilterCondition :=
  ((s.filter.map Expr.conjuncts).getD []).filterMap (conditionOf? t)

/-- The sources other than the one at a position. -/
def othersThan (s : Select) (position : Nat) : List TableRef :=
  s.tables.eraseIdx position

end Select

end QuerySplit
