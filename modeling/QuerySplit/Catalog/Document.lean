import QuerySplit.Catalog.Basic
import QuerySplit.Json.Record

/-!
# Variants as documents

A format is written by its name, an unlisted one as an object with its name under `other`. The
unique keys are a sorted list, read in any order and with repetitions.
-/

set_option autoImplicit false

namespace QuerySplit

namespace StorageFormat

def toJson : StorageFormat → Json
  | .parquet => .string "parquet"
  | .orc => .string "orc"
  | .avro => .string "avro"
  | .delta => .string "delta"
  | .iceberg => .string "iceberg"
  | .other name => .object [("other", .string name)]

/-- The format of a listed name. -/
def ofName? : String → Option StorageFormat
  | "parquet" => some .parquet
  | "orc" => some .orc
  | "avro" => some .avro
  | "delta" => some .delta
  | "iceberg" => some .iceberg
  | _ => none

def ofJson? : Json → Option StorageFormat
  | .object [("other", name)] => (Json.string? name).map .other
  | j => Json.choice? .direct ofName? j

end StorageFormat

namespace Dimension

def toJson (d : Dimension) : Json :=
  .object [("column_name", .string d.column), ("is_partition_key", .bool d.partitions),
    ("is_organized_by", .bool d.organizes)]

def ofJson? (j : Json) : Option Dimension := do
  let [column, partitions, organizes] ←
    j.fields? ["column_name", "is_partition_key", "is_organized_by"] | none
  let column ← Json.required Json.string? column
  let partitions ← Json.defaulted false Json.bool? partitions
  let organizes ← Json.defaulted false Json.bool? organizes
  pure { column, partitions, organizes }

end Dimension

namespace Variant

def toJson (v : Variant) : Json :=
  .object [("base_name", .string v.base), ("suffix", .string v.suffix),
    ("format", v.format.toJson), ("dimensions", .array (v.dimensions.map Dimension.toJson)),
    ("unique_keys", .array (v.uniqueKeys.toList.map .string))]

def ofJson? (j : Json) : Option Variant := do
  let [base, suffix, format, dimensions, uniqueKeys] ←
    j.fields? ["base_name", "suffix", "format", "dimensions", "unique_keys"] | none
  let base ← Json.required Json.string? base
  let suffix ← Json.required Json.string? suffix
  let format ← Json.defaulted .parquet StorageFormat.ofJson? format
  let dimensions ← Json.defaulted [] (Json.list? Dimension.ofJson?) dimensions
  let uniqueKeys ← Json.defaulted [] (Json.list? Json.string?) uniqueKeys
  pure { base, suffix, format, dimensions, uniqueKeys := Text.NameSet.ofList uniqueKeys }

end Variant

end QuerySplit
