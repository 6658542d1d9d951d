import QuerySplit.Catalog.Basic
import QuerySplit.Dialect.Basic
import QuerySplit.Select.Basic

/-!
# Rules

A rule is a named step that changes a statement or leaves it, and says which. It sees the dialect
and may look up variants; every lookup is recorded, also one that fails. A rule that fails leaves
the statement in whatever state it had reached.
-/

set_option autoImplicit false

namespace QuerySplit

/-- When a rule runs: once for all dialects, or for one target dialect. -/
inductive Phase
  | generic
  | dialectSpecific
deriving DecidableEq, Repr

/-- What a rule sees besides the statement. -/
structure Context where
  dialect : Dialect
  provider : Provider

/-- A statement under way, with the base names looked up so far in order. -/
structure Work where
  statement : Select
  lookups : List String := []
deriving DecidableEq

/-- The result of a step: the work it leaves, and an answer or the error it stopped with. -/
abbrev Outcome (α : Type) := Work × Except Error α

namespace Work

/-- The work after a lookup of a base name. -/
def record (w : Work) (base : String) : Work :=
  { w with lookups := w.lookups ++ [base] }

/-- Looks up the variants of a base name. -/
def lookup (w : Work) (ctx : Context) (base : String) : Outcome (List Variant) :=
  (w.record base,
    match ctx.provider.answer w.lookups base with
    | .ok variants => .ok variants
    | .error e => .error (.ofLookup e))

end Work

structure Rule where
  name : String
  phase : Phase
  description : String := "No description available"
  /-- Runs the rule; the answer says whether it changed the statement. -/
  apply : Context → Work → Outcome Bool

end QuerySplit
