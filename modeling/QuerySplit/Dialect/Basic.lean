import QuerySplit.Text.Case
import QuerySplit.Text.Segment

/-!
# Dialects

A dialect is a name, which rules are switched by, and a naming convention for federated tables: a
table is federated when the dataset in front of it ends in a certain suffix. What is left of the
dataset without the suffix is the dataset type of the table.
-/

set_option autoImplicit false

namespace QuerySplit

/-- The dialects with a name of their own. -/
inductive DialectKind
  | generic
  | postgresql
  | mysql
  | bigquery
  | snowflake
  | trino
  | duckdb
  | teradata
deriving DecidableEq, Repr

namespace DialectKind

def name : DialectKind → String
  | .generic => "generic"
  | .postgresql => "postgresql"
  | .mysql => "mysql"
  | .bigquery => "bigquery"
  | .snowflake => "snowflake"
  | .trino => "trino"
  | .duckdb => "duckdb"
  | .teradata => "teradata"

/-- The dialect of a name in small letters. -/
def ofName? : String → Option DialectKind
  | "generic" => some .generic
  | "postgresql" => some .postgresql
  | "mysql" => some .mysql
  | "bigquery" => some .bigquery
  | "snowflake" => some .snowflake
  | "trino" => some .trino
  | "duckdb" => some .duckdb
  | "teradata" => some .teradata
  | _ => none

/-- The dialect that a text means, in any case. No text means the generic one, and PostgreSQL has
a short name. -/
def parse? (text : String) : Option DialectKind :=
  match Text.keyword text with
  | "" => some .generic
  | "postgres" => some .postgresql
  | name => ofName? name

/-- What is reported when a text means no dialect. -/
def unknownMessage (text : String) : String :=
  "Unknown dialect: " ++ text

end DialectKind

/-- The convention by which federated tables are recognized. -/
structure Naming where
  datasetSuffix : String := "_aqfer"
deriving DecidableEq, Repr

namespace Naming

/-- A text without a suffix, which may differ from the given one in ASCII case. -/
def dropSuffix? (suffix text : List Char) : Option (List Char) :=
  let kept := text.length - suffix.length
  if suffix.length ≤ text.length ∧
      (text.drop kept).map Char.toLower = suffix.map Char.toLower then
    some (text.take kept)
  else none

/-- The dataset type of a federated table, nothing for other tables. The dataset is the segment
right before the last dot; one that is the suffix alone has the type `default`. -/
def datasetType? (n : Naming) (table : String) : Option String :=
  if n.datasetSuffix = "" then none
  else
    match Text.cutLast '.' table.toList with
    | none => none
    | some (before, _) =>
      (dropSuffix? n.datasetSuffix.toList (Text.lastSegment '.' before)).map fun stem =>
        if stem.isEmpty then "default" else String.ofList stem

def isFederated (n : Naming) (table : String) : Bool :=
  (n.datasetType? table).isSome

end Naming

structure Dialect where
  name : String
  naming : Naming := {}
deriving DecidableEq, Repr

namespace Dialect

def ofKind (kind : DialectKind) : Dialect := { name := kind.name }

/-- The generic dialect. -/
def standard : Dialect := ofKind .generic

/-- The known dialect of this name, if it is one. -/
def kind? (d : Dialect) : Option DialectKind := DialectKind.parse? d.name

def isNamed (d : Dialect) (name : String) : Bool := Text.eqIgnoreCase d.name name

end Dialect

end QuerySplit
