import QuerySplit.Expr.Basic

/-!
# Chains of AND and OR

Nested `AND` nodes, however grouped, state a list of conjuncts; nested `OR` nodes a list of
alternatives. Reading a chain forgets the grouping. Building one from a list groups to the left.
-/

set_option autoImplicit false

namespace QuerySplit.Expr

/-- The conjuncts of an `AND` chain from left to right; any other expression is its own. -/
def conjuncts : Expr → List Expr
  | .binary left .and right => left.conjuncts ++ right.conjuncts
  | e => [e]

/-- The alternatives of an `OR` chain from left to right; any other expression is its own. -/
def alternatives : Expr → List Expr
  | .binary left .or right => left.alternatives ++ right.alternatives
  | e => [e]

/-- The expressions joined by an operator, grouped to the left; nothing for no expressions. -/
def chain? (op : BinaryOp) : List Expr → Option Expr
  | [] => none
  | first :: rest => some (rest.foldl (.binary · op ·) first)

/-- The conjunction of a list. -/
def conjunction? (es : List Expr) : Option Expr :=
  chain? .and es

end QuerySplit.Expr
