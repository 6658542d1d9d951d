import QuerySplit.Text.Case
import QuerySplit.Text.NameMap

/-!
# Settings

Settings decide by name which rules run: switches for the built-in rules, a list of rules that
alone run, a list of rules that never run, and per rule a policy on dialects. They are read once
and do not change during a run.
-/

set_option autoImplicit false

namespace QuerySplit

namespace RuleName

def tableRouting : String := "table_routing"
def orToIn : String := "or_to_in"
def countDistinct : String := "count_distinct"

end RuleName

/-- Whether a list of dialects names those a rule runs for, or those it never runs for. -/
inductive DialectMode
  | includes
  | excludes
deriving DecidableEq, Repr

structure DialectPolicy where
  mode : DialectMode
  dialects : List String := []
deriving DecidableEq, Repr

namespace DialectPolicy

/-- Whether the list has a dialect, in any ASCII case. -/
def lists (p : DialectPolicy) (dialect : String) : Bool :=
  p.dialects.any (Text.eqIgnoreCase · dialect)

/-- Whether the policy lets a rule run for a dialect. -/
def admits (p : DialectPolicy) (dialect : String) : Bool :=
  match p.mode with
  | .includes => p.lists dialect
  | .excludes => !p.lists dialect

end DialectPolicy

/-- Switches of the built-in rules. -/
structure Switches where
  tableRouting : Bool := true
  orToIn : Bool := true
  countDistinct : Bool := true
deriving DecidableEq, Repr

/-- Whether a rule is switched on; a rule without a switch is. -/
def Switches.enables (s : Switches) (rule : String) : Bool :=
  if rule = RuleName.tableRouting then s.tableRouting
  else if rule = RuleName.orToIn then s.orToIn
  else if rule = RuleName.countDistinct then s.countDistinct
  else true

/-- The policies of settings that say nothing about dialects: no `IN` lists for Teradata. -/
def usualPolicies : Text.NameMap DialectPolicy :=
  Text.NameMap.empty.insert RuleName.orToIn ⟨.excludes, ["teradata"]⟩

structure Settings where
  included : List String := []
  excluded : List String := []
  switches : Switches := {}
  dialects : Text.NameMap DialectPolicy := usualPolicies
deriving DecidableEq

namespace Settings

/-- Whether the lists let a rule run. Exclusion wins; an empty inclusion list admits all. -/
def listsAdmit (s : Settings) (rule : String) : Bool :=
  !s.excluded.contains rule && (s.included.isEmpty || s.included.contains rule)

/-- Whether the policy of a rule, if it has one, lets it run for a dialect. -/
def policyAdmits (s : Settings) (rule dialect : String) : Bool :=
  (s.dialects.get? rule).all (·.admits dialect)

def including (s : Settings) (rule : String) : Settings :=
  { s with included := s.included ++ [rule] }

def excluding (s : Settings) (rule : String) : Settings :=
  { s with excluded := s.excluded ++ [rule] }

def withSwitches (s : Settings) (switches : Switches) : Settings :=
  { s with switches }

/-- The settings with a policy for a rule in place of any earlier one. -/
def withPolicy (s : Settings) (rule : String) (policy : DialectPolicy) : Settings :=
  { s with dialects := s.dialects.insert rule policy }

end Settings

end QuerySplit
