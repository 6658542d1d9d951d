import QuerySplit.Expr.Document
import QuerySplit.Select.Document
import QuerySplit.Split.Pushdown

/-!
# Splits as documents

The records of a split and of the pushdown report, written and read field by field. Only the
whole split is never read back.
-/

set_option autoImplicit false

namespace QuerySplit

namespace FilterCondition

def toJson (c : FilterCondition) : Json :=
  .object [("column", .string c.column), ("operator", c.op.toJson), ("value", c.value.toJson)]

def ofJson? (j : Json) : Option FilterCondition := do
  let [column, op, value] ← j.fields? ["column", "operator", "value"] | none
  let column ← Json.required Json.string? column
  let op ← Json.required (BinaryOp.ofJson? .direct) op
  let value ← Json.required (Literal.ofJson? .direct) value
  pure { column, op, value }

end FilterCondition

namespace DimensionJoin

def toJson (d : DimensionJoin) : Json :=
  .object (
    [("table_name", .string d.table)] ++ Json.given "alias" (d.alias?.map .string) ++
    [("join_column", .string d.federatedColumn), ("table_column", .string d.dimensionColumn)] ++
    Json.given "filter_column" (d.filterColumn.map .string) ++
    Json.given "filter_operator" (d.filterOp.map BinaryOp.toJson) ++
    Json.given "filter_value" (d.filterValue.map Literal.toJson) ++
    [("requires_callback", .bool d.needsValues)])

def ofJson? (j : Json) : Option DimensionJoin := do
  let [table, aliasName, federatedColumn, dimensionColumn, filterColumn, filterOp, filterValue,
      needsValues] ←
    j.fields? ["table_name", "alias", "join_column", "table_column", "filter_column",
      "filter_operator", "filter_value", "requires_callback"] | none
  let table ← Json.required Json.string? table
  let alias? ← Json.optional Json.string? aliasName
  let federatedColumn ← Json.required Json.string? federatedColumn
  let dimensionColumn ← Json.required Json.string? dimensionColumn
  let filterColumn ← Json.optional Json.string? filterColumn
  let filterOp ← Json.optional (BinaryOp.ofJson? .direct) filterOp
  let filterValue ← Json.optional (Literal.ofJson? .direct) filterValue
  let needsValues ← Json.defaulted false Json.bool? needsValues
  pure { table, alias?, federatedColumn, dimensionColumn, filterColumn, filterOp, filterValue,
         needsValues }

end DimensionJoin

namespace FederatedTable

def toJson (f : FederatedTable) : Json :=
  .object (
    [("table_name", .string f.name), ("dataset_type", .string f.datasetType)] ++
    Json.given "alias" (f.alias?.map .string) ++
    [("dimension_joins", .array (f.joins.map DimensionJoin.toJson)),
      ("position", Json.natural f.position)])

def ofJson? (j : Json) : Option FederatedTable := do
  let [name, datasetType, aliasName, joins, position] ←
    j.fields? ["table_name", "dataset_type", "alias", "dimension_joins", "position"] | none
  let name ← Json.required Json.string? name
  let datasetType ← Json.required Json.string? datasetType
  let alias? ← Json.optional Json.string? aliasName
  let joins ← Json.defaulted [] (Json.list? DimensionJoin.ofJson?) joins
  let position ← Json.required Json.word? position
  pure { name, datasetType, alias?, joins, position := position.toNat }

end FederatedTable

namespace DimensionFilter

def toJson (f : DimensionFilter) : Json :=
  .object (
    [("table_name", .string f.table)] ++ Json.given "alias" (f.alias?.map .string) ++
    [("federated_column", .string f.federatedColumn),
      ("conditions", .array (f.conditions.map FilterCondition.toJson)),
      ("value_fetch_sql", .string f.fetchQuery)])

def ofJson? (j : Json) : Option DimensionFilter := do
  let [table, aliasName, federatedColumn, conditions, fetchQuery] ←
    j.fields? ["table_name", "alias", "federated_column", "conditions", "value_fetch_sql"] | none
  let table ← Json.required Json.string? table
  let alias? ← Json.optional Json.string? aliasName
  let federatedColumn ← Json.required Json.string? federatedColumn
  let conditions ← Json.defaulted [] (Json.list? FilterCondition.ofJson?) conditions
  let fetchQuery ← Json.required Json.string? fetchQuery
  pure { table, alias?, federatedColumn, conditions, fetchQuery }

end DimensionFilter

def Split.toJson (split : Split) : Json :=
  .object [("original", split.statement.toJson), ("federated_table", split.federated.toJson),
    ("dimension_filters", .array (split.filters.map DimensionFilter.toJson)),
    ("federated_subquery", split.subquery.toJson)]

namespace ColumnPair

def toJson (p : ColumnPair) : Json :=
  .object [("federated_column", .string p.federated), ("dimension_column", .string p.dimension)]

def ofJson? (j : Json) : Option ColumnPair := do
  let [federated, dimension] ← j.fields? ["federated_column", "dimension_column"] | none
  let federated ← Json.required Json.string? federated
  let dimension ← Json.required Json.string? dimension
  pure { federated, dimension }

end ColumnPair

namespace PushableJoin

def toJson (p : PushableJoin) : Json :=
  .object (
    [("dimension_table", .string p.table)] ++
    Json.given "dimension_alias" (p.alias?.map .string) ++
    [("conditions", .array (p.pairs.map ColumnPair.toJson)), ("is_required", .bool p.required)])

def ofJson? (j : Json) : Option PushableJoin := do
  let [table, aliasName, pairs, required] ←
    j.fields? ["dimension_table", "dimension_alias", "conditions", "is_required"] | none
  let table ← Json.required Json.string? table
  let alias? ← Json.optional Json.string? aliasName
  let pairs ← Json.required (Json.list? ColumnPair.ofJson?) pairs
  let required ← Json.defaulted false Json.bool? required
  pure { table, alias?, pairs, required }

end PushableJoin

namespace PushdownReport

def toJson (r : PushdownReport) : Json :=
  .object (
    [("federated_table", .string r.federatedTable)] ++
    Json.given "alias" (r.alias?.map .string) ++
    [("pushable_joins", .array (r.joins.map PushableJoin.toJson))])

def ofJson? (j : Json) : Option PushdownReport := do
  let [federatedTable, aliasName, joins] ←
    j.fields? ["federated_table", "alias", "pushable_joins"] | none
  let federatedTable ← Json.required Json.string? federatedTable
  let alias? ← Json.optional Json.string? aliasName
  let joins ← Json.defaulted [] (Json.list? PushableJoin.ofJson?) joins
  pure { federatedTable, alias?, joins }

end PushdownReport

end QuerySplit
