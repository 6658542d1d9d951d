import QuerySplit.Error
import QuerySplit.Text.NameMap
import QuerySplit.Text.Segment

/-!
# The catalog of physical tables

A logical table is stored in one or more physical variants, each named by the base name and a
suffix. A variant is laid out by dimensions and may have unique keys. A `Provider` answers which
variants a base name has; `baseName` recovers the base from the name of a variant.
-/

set_option autoImplicit false

namespace QuerySplit

inductive StorageFormat
  | parquet
  | orc
  | avro
  | delta
  | iceberg
  | other (name : String)
deriving DecidableEq, Repr

/-- A column that a variant is laid out by: split by its values, ordered by them, or both. -/
structure Dimension where
  column : String
  partitions : Bool := false
  organizes : Bool := false
deriving DecidableEq, Repr

/-- One physical variant of a logical table. -/
structure Variant where
  base : String
  suffix : String
  format : StorageFormat := .parquet
  dimensions : List Dimension := []
  uniqueKeys : Text.NameSet := Text.NameMap.empty
deriving DecidableEq

/-- A base name with a suffix; without one it stands alone. -/
def physicalName (base suffix : String) : String :=
  if suffix = "" then base else base ++ "_" ++ suffix

namespace Variant

def name (v : Variant) : String := physicalName v.base v.suffix

def hasUniqueKey (v : Variant) (column : String) : Bool :=
  v.uniqueKeys.contains column

end Variant

/-! ## Base names -/

/-- The part of a segment before its last underscore, if that part is not empty. -/
def baseSegment? (segment : List Char) : Option (List Char) :=
  match Text.cutLast '_' segment with
  | some (c :: cs, _) => some (c :: cs)
  | _ => none

/-- The name without the suffix that its last dotted segment carries. A segment without an
underscore, or with one only at its start, carries none. -/
def baseName (name : String) : String :=
  match Text.cutLast '.' name.toList with
  | some (dataset, segment) =>
    match baseSegment? segment with
    | some base => String.ofList (dataset ++ '.' :: base)
    | none => name
  | none =>
    match baseSegment? name.toList with
    | some base => String.ofList base
    | none => name

/-! ## Providers -/

/-- Answers which variants a base name has, in order. The answer may depend on the lookups made
before it. -/
structure Provider where
  answer : (earlier : List String) → (base : String) → Except LookupError (List Variant)

/-- Variants in the order of their registration. -/
structure Catalog where
  variants : List Variant := []
deriving DecidableEq

namespace Catalog

def add (c : Catalog) (v : Variant) : Catalog := ⟨c.variants ++ [v]⟩

def isEmpty (c : Catalog) : Bool := c.variants.isEmpty

/-- The variants of a base name; an unknown name has none. -/
def variantsOf (c : Catalog) (base : String) : List Variant :=
  c.variants.filter (·.base == base)

end Catalog

namespace Provider

/-- Knows no variant of any table. -/
def none : Provider := ⟨fun _ _ => .ok []⟩

def ofCatalog (c : Catalog) : Provider := ⟨fun _ base => .ok (c.variantsOf base)⟩

/-- Fails for the listed base names and answers as before for the others. -/
def failingFor (p : Provider) (failures : List (String × LookupError)) : Provider where
  answer earlier base :=
    match Text.NameMap.valueAt base failures with
    | some e => .error e
    | Option.none => p.answer earlier base

end Provider

end QuerySplit
