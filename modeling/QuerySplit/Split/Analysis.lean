import QuerySplit.Dialect.Basic
import QuerySplit.Expr.Build
import QuerySplit.Expr.Qualifier
import QuerySplit.Select.Visit
import QuerySplit.Split.Join
import QuerySplit.Text.NameMap

/-!
# Splitting a query

The first source that follows the naming convention is the federated table. Every other source
that an equality of columns ties to it is a dimension; a source tied to it in another way takes
no part. The subquery selects every federated column that the query uses, sorted and without
qualifiers, and keeps the conjuncts that are about federated columns alone. Fetched values are
bound by adding a membership test to it.
-/

set_option autoImplicit false

namespace QuerySplit

namespace Select

/-- The first federated table among sources counted from an index. -/
def federatedAmong? (n : Naming) : List TableRef → Nat → Option FederatedTable
  | [], _ => none
  | t :: rest, index =>
    match n.datasetType? t.name with
    | some datasetType => some (.ofTable t datasetType index)
    | none => federatedAmong? n rest (index + 1)

/-- The federated table of a statement. -/
def federatedTable? (n : Naming) (s : Select) : Option FederatedTable :=
  federatedAmong? n s.tables 0

/-- The condition that the source at the federated table's position carries. -/
def federatedCondition? (s : Select) (f : FederatedTable) : Option Expr :=
  s.tables[f.position]?.bind TableRef.condition

/-- How a source joins the federated table: by its own condition, or else by the condition of the
federated table. -/
def joinSides? (s : Select) (f : FederatedTable) (t : TableRef) : Option JoinSides :=
  (t.condition.bind (·.attachedJoinSides? f t)).or
    ((s.federatedCondition? f).bind (·.joinSides? f t))

/-- The dimension join of a source, if it is one. -/
def dimensionJoin? (s : Select) (f : FederatedTable) (t : TableRef) : Option DimensionJoin :=
  (s.joinSides? f t).map fun sides =>
    let first? := (s.conditionsOf t).head?
    { table := t.name
      alias? := t.alias?
      federatedColumn := sides.federated.column
      dimensionColumn := sides.dimension.column
      filterColumn := first?.map FilterCondition.column
      filterOp := first?.map FilterCondition.op
      filterValue := first?.map FilterCondition.value
      needsValues := first?.any fun c => s.projects t c.column }

/-- The dimension joins in the order of the sources. -/
def dimensionJoins (s : Select) (f : FederatedTable) : List DimensionJoin :=
  (s.othersThan f.position).filterMap (s.dimensionJoin? f)

end Select

namespace DimensionJoin

/-- The query that fetches the values of a dimension under conditions. -/
def fetchQuery (j : DimensionJoin) (conditions : List FilterCondition) : String :=
  "SELECT DISTINCT " ++ j.federatedColumn ++ " FROM " ++ j.table ++
    match conditions with
    | [] => ""
    | conditions => " WHERE " ++ " AND ".intercalate (conditions.map FilterCondition.text)

/-- The source that a join is about: the first with its name and alias. -/
def source? (j : DimensionJoin) (s : Select) : Option TableRef :=
  s.tables.find? fun t => t.name == j.table && t.alias? == j.alias?

/-- The values to fetch for a join. -/
def filter (j : DimensionJoin) (s : Select) : DimensionFilter :=
  let conditions := ((j.source? s).map s.conditionsOf).getD []
  { table := j.table
    alias? := j.alias?
    federatedColumn := j.federatedColumn
    conditions
    fetchQuery := j.fetchQuery conditions }

end DimensionJoin

namespace FederatedTable

/-- The federated columns that a statement uses, and those of the joins. -/
def usedColumns (f : FederatedTable) (s : Select) : Text.NameSet :=
  Text.NameSet.ofList
    ((s.columns.filter f.owns).map ColumnRef.column ++ f.joins.map DimensionJoin.federatedColumn)

/-- Whether a conjunct has columns and all of them are federated. -/
def takesConjunct (f : FederatedTable) (e : Expr) : Bool :=
  !e.columns.isEmpty && e.columns.all f.owns

/-- The conjuncts of the `WHERE` clause about federated columns alone, without qualifiers. -/
def pushedConjuncts (f : FederatedTable) (s : Select) : List Expr :=
  (((s.filter.map Expr.conjuncts).getD []).filter f.takesConjunct).map Expr.unqualified

/-- The query over the federated table alone. -/
def subquery (f : FederatedTable) (s : Select) : Select where
  items :=
    match (f.usedColumns s).toList with
    | [] => [.star]
    | names => names.map fun name => .column ⟨none, name⟩
  sources := some [{ name := f.name }]
  filter := Expr.conjunction? (f.pushedConjuncts s)

end FederatedTable

/-- The parts of a split for a federated table whose joins are known. -/
def Split.parts (s : Select) (f : FederatedTable) : List DimensionFilter × Select :=
  (f.joins.map (·.filter s), f.subquery s)

/-- Splits a statement; a statement without a federated table is not split. -/
def Split.analyze? (n : Naming) (s : Select) : Option Split :=
  (s.federatedTable? n).map fun found =>
    let federated := { found with joins := s.dimensionJoins found }
    let (filters, subquery) := Split.parts s federated
    { statement := s, federated, filters, subquery }

namespace Split

/-- The filter that a name addresses: by alias first, then by table, in any ASCII case. -/
def filterFor? (split : Split) (name : String) : Option DimensionFilter :=
  (split.filters.find? fun f => f.alias?.any (Text.eqIgnoreCase · name)).or
    (split.filters.find? fun f => Text.eqIgnoreCase f.table name)

/-- The subquery restricted by a further condition. -/
def restrict (subquery : Select) (condition : Expr) : Select :=
  { subquery with filter := Expr.conjunction? (subquery.filter.toList ++ [condition]) }

/-- Binds the values fetched for a dimension. Nothing is bound without values or without a filter
of that name. -/
def bind? (split : Split) (name : String) (values : List Expr) : Option Split :=
  if values.isEmpty then none
  else (split.filterFor? name).map fun f =>
    { split with
      subquery := restrict split.subquery (.membership ⟨none, f.federatedColumn⟩ values) }

end Split

end QuerySplit
