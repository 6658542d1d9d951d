import QuerySplit.Expr.Build
import QuerySplit.Rule.Basic
import QuerySplit.Settings.Basic

/-!
# Counting rows for distinct keys

The count of the distinct values of a unique key is the count of the rows. A select-list entry
`COUNT(DISTINCT c)` becomes `COUNT(*)` when some variant of the first source has `c` as a unique
key. The variants are looked up once, and only if there is such an entry at all.
-/

set_option autoImplicit false

namespace QuerySplit

namespace Expr

/-- The column whose distinct values an expression counts, if it is such a count. -/
def countedColumn? : Expr → Option ColumnRef
  | .call name [.column c] true => if Text.eqIgnoreCase name "COUNT" then some c else none
  | _ => none

/-- Whether an expression counts the distinct values of a unique key of some variant. -/
def countsKeyOf (variants : List Variant) (e : Expr) : Bool :=
  e.countedColumn?.any fun c => variants.any (·.hasUniqueKey c.column)

end Expr

namespace Rule

/-- Replaces counts of distinct keys by counts of rows. -/
def countRowsForKeys (ctx : Context) (work : Work) : Outcome Bool :=
  match work.statement.firstTable? with
  | none => (work, .ok false)
  | some table =>
    if !work.statement.items.any (·.countedColumn?.isSome) then (work, .ok false)
    else
      match work.lookup ctx (baseName table.name) with
      | (work, .error e) => (work, .error e)
      | (work, .ok variants) =>
        let items := work.statement.items
        if items.any (·.countsKeyOf variants) then
          let items := items.map fun e => if e.countsKeyOf variants then .countRows else e
          ({ work with statement := { work.statement with items } }, .ok true)
        else (work, .ok false)

def countDistinct : Rule where
  name := RuleName.countDistinct
  phase := .generic
  description := "Replace COUNT(DISTINCT unique_key) with COUNT(*)"
  apply := countRowsForKeys

end Rule

end QuerySplit
