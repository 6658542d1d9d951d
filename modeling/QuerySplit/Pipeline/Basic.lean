import QuerySplit.Rule.Basic
import QuerySplit.Settings.Basic

/-!
# Pipelines

A pipeline is a list of rules under settings. A run takes the rules of one phase in order, skips
those that the settings do not admit, and stops at the first that fails; what earlier rules did
stays done. A run that succeeds accounts for every rule.

What a run did is told by its summary and its error alone; it keeps no log.
-/

set_option autoImplicit false

namespace QuerySplit

/-- Why a rule did not run. The first reason in this order is given. -/
inductive SkipReason
  | phase
  | disabled
  | config
  | dialect
deriving DecidableEq, Repr

/-- What became of the rules of a successful run, each list in the order of the rules. -/
structure Summary where
  applied : List String := []
  unchanged : List String := []
  skipped : List (String × SkipReason) := []
deriving DecidableEq, Repr

namespace Summary

def changed (s : Summary) : Bool := !s.applied.isEmpty

/-- The summary with a rule in front that ran. -/
def ran (s : Summary) (rule : String) (changed : Bool) : Summary :=
  if changed then { s with applied := rule :: s.applied }
  else { s with unchanged := rule :: s.unchanged }

/-- The summary with a rule in front that did not run. -/
def skip (s : Summary) (rule : String) (reason : SkipReason) : Summary :=
  { s with skipped := (rule, reason) :: s.skipped }

end Summary

/-- Why the settings keep a rule from running, if they do. -/
def Settings.skipReason? (s : Settings) (phase : Phase) (dialect : Dialect) (rule : Rule) :
    Option SkipReason :=
  if rule.phase ≠ phase then some .phase
  else if !s.switches.enables rule.name then some .disabled
  else if !s.listsAdmit rule.name then some .config
  else if !s.policyAdmits rule.name dialect.name then some .dialect
  else none

structure Pipeline where
  rules : List Rule
  settings : Settings := {}

namespace Pipeline

def ruleNames (p : Pipeline) : List String := p.rules.map Rule.name

/-- Runs the rules of a list in order. -/
def runRules (settings : Settings) (phase : Phase) (ctx : Context) :
    List Rule → Work → Outcome Summary
  | [], work => (work, .ok {})
  | rule :: rest, work =>
    match settings.skipReason? phase ctx.dialect rule with
    | some reason =>
      let (last, result) := runRules settings phase ctx rest work
      (last, result.map (·.skip rule.name reason))
    | none =>
      match rule.apply ctx work with
      | (next, .error e) => (next, .error e)
      | (next, .ok changed) =>
        let (last, result) := runRules settings phase ctx rest next
        (last, result.map (·.ran rule.name changed))

/-- Runs one phase. -/
def run (p : Pipeline) (phase : Phase) (ctx : Context) (work : Work) : Outcome Summary :=
  runRules p.settings phase ctx p.rules work

/-- The statement after one phase, only if every rule succeeded. -/
def optimized (p : Pipeline) (phase : Phase) (ctx : Context) (statement : Select) :
    Except Error Select :=
  match p.run phase ctx { statement } with
  | (work, .ok _) => .ok work.statement
  | (_, .error e) => .error e

end Pipeline

end QuerySplit
