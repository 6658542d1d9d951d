import QuerySplit.Expr.Chain
import QuerySplit.Rule.Basic
import QuerySplit.Settings.Basic

/-!
# Membership tests for chains of equalities

A chain `c = v1 OR c = v2 OR c = v3` becomes `c IN (v1, v2, v3)`. The equalities of a chain are
grouped by the written name of their column; the first group, in order of appearance, with at
least `minAlternatives` members takes the place of the whole chain, and the other alternatives
are dropped. A chain is taken as a whole: nothing inside it changes on its own.
-/

set_option autoImplicit false

namespace QuerySplit

namespace Expr

/-- The smallest number of alternatives worth a membership test. -/
def minAlternatives : Nat := 3

/-- The column and value of an equality that has a column on its left. -/
def equality? : Expr → Option (ColumnRef × Expr)
  | .binary (.column c) .eq value => some (c, value)
  | _ => none

/-- The equalities of one column. -/
structure EqualityGroup where
  column : ColumnRef
  values : List Expr
deriving DecidableEq

/-- Adds an equality to the group of its column, or as a group of its own at the end. -/
def EqualityGroup.insert (c : ColumnRef) (value : Expr) :
    List EqualityGroup → List EqualityGroup
  | [] => [⟨c, [value]⟩]
  | g :: rest =>
    if g.column.qualifiedName = c.qualifiedName then ⟨g.column, g.values ++ [value]⟩ :: rest
    else g :: insert c value rest

/-- The equalities of a list, grouped by the written name of their column. -/
def equalityGroups (alternatives : List Expr) : List EqualityGroup :=
  (alternatives.filterMap equality?).foldl
    (fun groups (c, v) => EqualityGroup.insert c v groups) []

/-- The membership test that takes the place of a chain with these alternatives. -/
def membership? (alternatives : List Expr) : Option Expr :=
  if alternatives.length < minAlternatives then none
  else
    ((equalityGroups alternatives).find? fun g => decide (minAlternatives ≤ g.values.length)).map
      fun g => .membership g.column g.values

/-- The expression with its chains replaced, or nothing when no chain is. The search goes through
operators other than `OR`; arguments of calls and values of membership tests stay as they are. -/
def orToIn? : Expr → Option Expr
  | .binary left .or right => membership? (left.alternatives ++ right.alternatives)
  | .binary left op right =>
    match left.orToIn?, right.orToIn? with
    | none, none => none
    | newLeft, newRight => some (.binary (newLeft.getD left) op (newRight.getD right))
  | _ => none

end Expr

namespace Rule

/-- Replaces the chains of the `WHERE` clause. -/
def membershipInFilter (_ : Context) (work : Work) : Outcome Bool :=
  match work.statement.filter.bind Expr.orToIn? with
  | some condition =>
    ({ work with statement := { work.statement with filter := some condition } }, .ok true)
  | none => (work, .ok false)

def orToIn : Rule where
  name := RuleName.orToIn
  phase := .dialectSpecific
  description := "Convert OR chains of column equalities into IN lists"
  apply := membershipInFilter

end Rule

end QuerySplit
