import QuerySplit.Pipeline.Basic
import QuerySplit.Rule.CountDistinct
import QuerySplit.Rule.OrToIn
import QuerySplit.Rule.Routing

/-!
# The standard pipeline

The built-in rules in their usual order: routing and counting for all dialects, membership tests
per dialect.
-/

set_option autoImplicit false

namespace QuerySplit

namespace Rule

/-- The built-in rules in their usual order. -/
def standard : List Rule := [tableRouting, countDistinct, orToIn]

/-- The built-in rule of a name. -/
def builtIn? (name : String) : Option Rule :=
  standard.find? (·.name == name)

end Rule

namespace Phase

def name : Phase → String
  | .generic => "generic"
  | .dialectSpecific => "dialect_specific"

def ofName? : String → Option Phase
  | "generic" => some .generic
  | "dialect_specific" => some .dialectSpecific
  | _ => none

end Phase

/-- The built-in rules under settings. -/
def Pipeline.standard (settings : Settings) : Pipeline :=
  { rules := Rule.standard, settings }

end QuerySplit
