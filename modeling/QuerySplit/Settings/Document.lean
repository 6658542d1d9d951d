import QuerySplit.Error
import QuerySplit.Json.Printer
import QuerySplit.Json.Reader
import QuerySplit.Json.Record
import QuerySplit.Settings.Basic

/-!
# Settings as documents

Every member of a settings document may be missing and then has its default. A document that has
the member `dialects` replaces the usual policies by its own. Of several policies for one rule
the last one counts.
-/

set_option autoImplicit false

namespace QuerySplit

namespace DialectMode

def name : DialectMode → String
  | .includes => "include"
  | .excludes => "exclude"

def ofName? : String → Option DialectMode
  | "include" => some .includes
  | "exclude" => some .excludes
  | _ => none

def toJson (mode : DialectMode) : Json := .string mode.name

def ofJson? : Json → Option DialectMode :=
  Json.choice? .direct ofName?

end DialectMode

namespace DialectPolicy

def toJson (p : DialectPolicy) : Json :=
  .object [("mode", p.mode.toJson), ("dialects", .array (p.dialects.map .string))]

def ofJson? (j : Json) : Option DialectPolicy := do
  let [mode, dialects] ← j.fields? ["mode", "dialects"] | none
  let mode ← Json.required DialectMode.ofJson? mode
  let dialects ← Json.defaulted [] (Json.list? Json.string?) dialects
  pure { mode, dialects }

/-- Policies by the name of their rule. -/
def mapToJson (policies : Text.NameMap DialectPolicy) : Json :=
  .object (policies.entries.map fun (rule, p) => (rule, p.toJson))

def mapOfJson? : Json → Option (Text.NameMap DialectPolicy)
  | .object members => do
    let entries ← members.mapM fun (rule, j) => (ofJson? j).map (rule, ·)
    pure (Text.NameMap.ofList entries)
  | _ => none

end DialectPolicy

namespace Switches

def toJson (s : Switches) : Json :=
  .object [(RuleName.tableRouting, .bool s.tableRouting), (RuleName.orToIn, .bool s.orToIn),
    (RuleName.countDistinct, .bool s.countDistinct)]

def ofJson? (j : Json) : Option Switches := do
  let [tableRouting, orToIn, countDistinct] ←
    j.fields? [RuleName.tableRouting, RuleName.orToIn, RuleName.countDistinct] | none
  let tableRouting ← Json.defaulted true Json.bool? tableRouting
  let orToIn ← Json.defaulted true Json.bool? orToIn
  let countDistinct ← Json.defaulted true Json.bool? countDistinct
  pure { tableRouting, orToIn, countDistinct }

end Switches

namespace Settings

def toJson (s : Settings) : Json :=
  .object [("include", .array (s.included.map .string)),
    ("exclude", .array (s.excluded.map .string)), ("flags", s.switches.toJson),
    ("dialects", DialectPolicy.mapToJson s.dialects)]

def ofJson? (j : Json) : Option Settings := do
  let [included, excluded, switches, dialects] ←
    j.fields? ["include", "exclude", "flags", "dialects"] | none
  let included ← Json.defaulted [] (Json.list? Json.string?) included
  let excluded ← Json.defaulted [] (Json.list? Json.string?) excluded
  let switches ← Json.defaulted {} Switches.ofJson? switches
  let dialects ← Json.defaulted usualPolicies DialectPolicy.mapOfJson? dialects
  pure { included, excluded, switches, dialects }

/-- The document of settings. -/
def document (s : Settings) : String := s.toJson.renderPretty

/-- Reads the document of settings. The error tells the context and leaves out the reason that a
reader of texts would append to it. -/
def ofDocument (text : String) : Except Error Settings :=
  match (Json.read? text).bind ofJson? with
  | some s => .ok s
  | none => .error (.config "invalid optimizer config")

end Settings

end QuerySplit
