import QuerySplit.Dialect.Basic
import QuerySplit.Json.Record

/-!
# Dialects as documents

A dialect is written with its naming convention; a reader may leave out the convention, or the
suffix inside it, for the usual one.
-/

set_option autoImplicit false

namespace QuerySplit

namespace DialectKind

def toJson (kind : DialectKind) : Json := .string kind.name

def ofJson? : Json → Option DialectKind :=
  Json.choice? .direct ofName?

end DialectKind

namespace Naming

def toJson (n : Naming) : Json :=
  .object [("dataset_suffix", .string n.datasetSuffix)]

def ofJson? (j : Json) : Option Naming := do
  let [suffix] ← j.fields? ["dataset_suffix"] | none
  let datasetSuffix ← Json.defaulted ({} : Naming).datasetSuffix Json.string? suffix
  pure { datasetSuffix }

end Naming

namespace Dialect

def toJson (d : Dialect) : Json :=
  .object [("name", .string d.name), ("federated_naming", d.naming.toJson)]

def ofJson? (j : Json) : Option Dialect := do
  let [name, naming] ← j.fields? ["name", "federated_naming"] | none
  let name ← Json.required Json.string? name
  let naming ← Json.defaulted {} Naming.ofJson? naming
  pure { name, naming }

end Dialect

end QuerySplit
