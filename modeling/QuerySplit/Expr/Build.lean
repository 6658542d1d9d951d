import QuerySplit.Decimal.Shortest
import QuerySplit.Expr.Chain
import QuerySplit.Text.Segment

/-!
# Building expressions

Expressions from names and values. A name is a column, qualified by what stands before its last
dot. A membership test needs a column; on any other expression it is written as a chain of
equalities.
-/

set_option autoImplicit false

namespace QuerySplit

/-- The column that a dotted name writes. -/
def ColumnRef.ofName (name : String) : ColumnRef :=
  match Text.cutLast '.' name.toList with
  | some (table, column) => ⟨some (String.ofList table), String.ofList column⟩
  | none => ⟨none, name⟩

namespace Literal

def ofString (s : String) : Literal := ⟨s, .string⟩

/-- A number by its text. -/
def ofNumeral (s : String) : Literal := ⟨s, .number⟩

def ofInt (n : Int) : Literal := ofNumeral (toString n)

def ofFloat (x : Float) : Literal := ofNumeral (Decimal.text x)

def ofBool (b : Bool) : Literal := ⟨if b then "TRUE" else "FALSE", .boolean⟩

def null : Literal := ⟨"NULL", .null⟩

def ofDate (s : String) : Literal := ⟨s, .date⟩

def ofTimestamp (s : String) : Literal := ⟨s, .timestamp⟩

end Literal

namespace Expr

/-- The column that a dotted name writes. -/
def ofName (name : String) : Expr := .column (.ofName name)

/-- A call with plain arguments. -/
def function (name : String) (args : List Expr) : Expr := .call name args false

def count (e : Expr) : Expr := function "COUNT" [e]

def countRows : Expr := count .star

def countDistinct (e : Expr) : Expr := .call "COUNT" [e] true

/-- The test whether an expression is one of some values. A column gets a membership node. For
any other expression it is the chain of the equalities, and the expression itself if there are
no values. -/
def isOneOf (e : Expr) (values : List Expr) : Expr :=
  match e with
  | .column c => .membership c values
  | e => (chain? .or (values.map fun v => .binary e .eq v)).getD e

end Expr

end QuerySplit
