import QuerySplit.Expr.Display
import QuerySplit.Select.Basic

/-!
# The parts of a split query

A federated table is served by a provider that cannot join it with the native tables, the
dimensions. A query over both is split: for each dimension, the values that pass its filters are
fetched natively; the provider gets a query over the federated table alone, restricted to those
values. These are the records of such a split.
-/

set_option autoImplicit false

namespace QuerySplit

/-- A condition of a dimension: a column compared with a literal. -/
structure FilterCondition where
  column : String
  op : BinaryOp
  value : Literal
deriving DecidableEq, Repr

def FilterCondition.text (c : FilterCondition) : String :=
  c.column ++ " " ++ c.op.symbol ++ " " ++ c.value.text

/-- A join of the federated table with a dimension by an equality of two columns. -/
structure DimensionJoin where
  table : String
  alias? : Option String := none
  /-- The column on the federated side. -/
  federatedColumn : String
  /-- The column on the side of the dimension. -/
  dimensionColumn : String
  /-- The first condition of the `WHERE` clause on the dimension. -/
  filterColumn : Option String := none
  filterOp : Option BinaryOp := none
  filterValue : Option Literal := none
  /-- The filtered column is in the result too, so its values have to come back. -/
  needsValues : Bool := false
deriving DecidableEq, Repr

/-- The federated table of a query. -/
structure FederatedTable where
  name : String
  datasetType : String
  alias? : Option String := none
  joins : List DimensionJoin := []
  /-- The index among the sources. -/
  position : Nat
deriving DecidableEq, Repr

namespace FederatedTable

/-- The federated table that a source is, with no joins yet. -/
def ofTable (t : TableRef) (datasetType : String) (position : Nat) : FederatedTable :=
  { name := t.name, datasetType, alias? := t.alias?, position }

/-- Whether a column is qualified with the federated table. -/
def owns (f : FederatedTable) (c : ColumnRef) : Bool :=
  c.table.any (meansTable f.name f.alias?)

end FederatedTable

/-- The values to fetch from one dimension. -/
structure DimensionFilter where
  table : String
  alias? : Option String := none
  /-- The federated column that the values restrict. -/
  federatedColumn : String
  conditions : List FilterCondition := []
  /-- The query that fetches the values. -/
  fetchQuery : String
deriving DecidableEq, Repr

/-- A query split in two. -/
structure Split where
  statement : Select
  federated : FederatedTable
  filters : List DimensionFilter
  subquery : Select
deriving DecidableEq

end QuerySplit
