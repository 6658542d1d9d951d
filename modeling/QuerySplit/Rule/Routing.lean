import QuerySplit.Rule.Basic
import QuerySplit.Settings.Basic

/-!
# Routing tables to their variants

A source whose name carries a suffix is renamed to the variant of its base that suits the
`WHERE` clause best. A variant scores two for each partitioning and one for each organizing
dimension that the clause filters on; the first variant with the highest score wins, and with no
positive score the name stays. All lookups come before the first renaming.
-/

set_option autoImplicit false

namespace QuerySplit

namespace Expr

/-- The name of an expression that is a column. -/
def columnName? : Expr → Option String
  | .column c => some c.column
  | _ => none

/-- The columns a condition filters on, for routing: at each operator the operands that are
columns, going down the right operand only. Of a chain of conjuncts only the last one counts. -/
def filteredColumns : Expr → List String
  | .binary left _ right =>
    left.columnName?.toList ++ right.columnName?.toList ++ right.filteredColumns
  | _ => []

end Expr

namespace Dimension

/-- What a dimension adds to the score of its variant when its column is filtered on. -/
def weight (d : Dimension) : Nat :=
  (if d.partitions then 2 else 0) + (if d.organizes then 1 else 0)

end Dimension

namespace Variant

def score (v : Variant) (used : List String) : Nat :=
  ((v.dimensions.filter fun d => used.contains d.column).map Dimension.weight).foldr (· + ·) 0

/-- The first variant with the highest score, if that is positive. -/
def best? (used : List String) (variants : List Variant) : Option Variant :=
  (variants.foldl (fun (best, top) v =>
    if top < v.score used then (some v, v.score used) else (best, top)) (none, 0)).1

end Variant

namespace TableRef

/-- The name of a source with the given base after routing among variants. -/
def routedName (t : TableRef) (base : String) (used : List String) (variants : List Variant) :
    String :=
  match Variant.best? used variants with
  | some v => physicalName base v.suffix
  | none => t.name

/-- Routes sources in order, given the lookups so far. Gives the lookups after it, and the routed
sources unless a lookup failed. -/
def routeAll (ctx : Context) (used : List String) :
    List TableRef → List String → List String × Except Error (List TableRef)
  | [], lookups => (lookups, .ok [])
  | t :: rest, lookups =>
    let base := baseName t.name
    if base = t.name then
      let (after, routed) := routeAll ctx used rest lookups
      (after, routed.map (t :: ·))
    else
      match ctx.provider.answer lookups base with
      | .error e => (lookups ++ [base], .error (.ofLookup e))
      | .ok variants =>
        let (after, routed) := routeAll ctx used rest (lookups ++ [base])
        (after, routed.map ({ t with name := t.routedName base used variants } :: ·))

end TableRef

namespace Rule

/-- Routes the sources of the statement. -/
def routeTables (ctx : Context) (work : Work) : Outcome Bool :=
  let used := (work.statement.filter.map Expr.filteredColumns).getD []
  match used, work.statement.sources with
  | [], _ | _, none => (work, .ok false)
  | used, some tables =>
    match TableRef.routeAll ctx used tables work.lookups with
    | (lookups, .error e) => ({ work with lookups }, .error e)
    | (lookups, .ok routed) =>
      if routed.map TableRef.name = tables.map TableRef.name then
        ({ work with lookups }, .ok false)
      else
        ({ statement := { work.statement with sources := some routed }, lookups }, .ok true)

def tableRouting : Rule where
  name := RuleName.tableRouting
  phase := .generic
  description := "Route logical tables to the physical variant matching WHERE-clause usage"
  apply := routeTables

end Rule

end QuerySplit
