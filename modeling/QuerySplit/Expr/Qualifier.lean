import QuerySplit.Expr.Basic

/-!
# Dropping qualifiers

A query over one table needs no qualifiers. `unqualified` drops the qualifier of every column and
changes nothing else.
-/

set_option autoImplicit false

namespace QuerySplit.Expr

mutual

/-- The expression with every column unqualified. -/
def unqualified : Expr → Expr
  | .binary left op right => .binary left.unqualified op right.unqualified
  | .column c => .column c.unqualified
  | .literal v => .literal v
  | .call name args distinct => .call name (unqualifiedList args) distinct
  | .membership c values => .membership c.unqualified (unqualifiedList values)
  | .star => .star

def unqualifiedList : List Expr → List Expr
  | [] => []
  | e :: rest => e.unqualified :: unqualifiedList rest

end

end QuerySplit.Expr
