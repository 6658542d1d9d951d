/-!
# Expressions

The scalar and boolean expressions of a query. A tree owns its parts; a column may carry the name
or alias of the table it belongs to, and a literal keeps the text it was written with, so no
number loses precision.
-/

set_option autoImplicit false

namespace QuerySplit

inductive BinaryOp
  | eq
  | neq
  | lt
  | lte
  | gt
  | gte
  | and
  | or
  | add
  | sub
  | mul
  | div
  | like
deriving DecidableEq, Repr

namespace BinaryOp

def symbol : BinaryOp → String
  | .eq => "="
  | .neq => "<>"
  | .lt => "<"
  | .lte => "<="
  | .gt => ">"
  | .gte => ">="
  | .and => "AND"
  | .or => "OR"
  | .add => "+"
  | .sub => "-"
  | .mul => "*"
  | .div => "/"
  | .like => "LIKE"

/-- Whether the operator makes a truth value from two scalars. -/
def isComparison : BinaryOp → Bool
  | .eq | .neq | .lt | .lte | .gt | .gte | .like => true
  | .and | .or | .add | .sub | .mul | .div => false

/-- How tightly the operator binds. -/
def precedence : BinaryOp → Nat
  | .or => 1
  | .and => 2
  | .eq | .neq | .lt | .lte | .gt | .gte | .like => 3
  | .add | .sub => 4
  | .mul | .div => 5

end BinaryOp

/-- A column, with the name or alias of its table if it is qualified. -/
structure ColumnRef where
  table : Option String
  column : String
deriving DecidableEq, Repr

namespace ColumnRef

def unqualified (c : ColumnRef) : ColumnRef :=
  { c with table := none }

/-- The column as it is written: after its qualifier and a dot if it has one. -/
def qualifiedName (c : ColumnRef) : String :=
  match c.table with
  | some table => table ++ "." ++ c.column
  | none => c.column

end ColumnRef

inductive LiteralKind
  | string
  | number
  | boolean
  | null
  | date
  | timestamp
  | unknown
deriving DecidableEq, Repr

/-- A literal by its text and kind. -/
structure Literal where
  value : String
  kind : LiteralKind
deriving DecidableEq, Repr

inductive Expr
  | binary (left : Expr) (op : BinaryOp) (right : Expr)
  | column (ref : ColumnRef)
  | literal (value : Literal)
  | call (name : String) (args : List Expr) (distinct : Bool)
  | membership (column : ColumnRef) (values : List Expr)
  | star
deriving Inhabited, Repr

namespace Expr

mutual

/-- Equality of trees. -/
def decEq : (a b : Expr) → Decidable (a = b)
  | .binary l o r, .binary l' o' r' =>
    match decEq l l', decEq r r' with
    | isTrue hl, isTrue hr =>
      if ho : o = o' then isTrue (by rw [hl, ho, hr])
      else isFalse fun h => ho (Expr.binary.inj h).2.1
    | isFalse hl, _ => isFalse fun h => hl (Expr.binary.inj h).1
    | _, isFalse hr => isFalse fun h => hr (Expr.binary.inj h).2.2
  | .column c, .column c' =>
    if h : c = c' then isTrue (by rw [h]) else isFalse fun e => h (Expr.column.inj e)
  | .literal v, .literal v' =>
    if h : v = v' then isTrue (by rw [h]) else isFalse fun e => h (Expr.literal.inj e)
  | .call n as d, .call n' as' d' =>
    match decEqList as as' with
    | isTrue ha =>
      if h : n = n' ∧ d = d' then isTrue (by rw [h.1, ha, h.2])
      else isFalse fun e => h ⟨(Expr.call.inj e).1, (Expr.call.inj e).2.2⟩
    | isFalse ha => isFalse fun e => ha (Expr.call.inj e).2.1
  | .membership c vs, .membership c' vs' =>
    match decEqList vs vs' with
    | isTrue hv =>
      if h : c = c' then isTrue (by rw [h, hv])
      else isFalse fun e => h (Expr.membership.inj e).1
    | isFalse hv => isFalse fun e => hv (Expr.membership.inj e).2
  | .star, .star => isTrue rfl
  | .binary .., .column .. | .binary .., .literal .. | .binary .., .call ..
  | .binary .., .membership .. | .binary .., .star
  | .column .., .binary .. | .column .., .literal .. | .column .., .call ..
  | .column .., .membership .. | .column .., .star
  | .literal .., .binary .. | .literal .., .column .. | .literal .., .call ..
  | .literal .., .membership .. | .literal .., .star
  | .call .., .binary .. | .call .., .column .. | .call .., .literal ..
  | .call .., .membership .. | .call .., .star
  | .membership .., .binary .. | .membership .., .column .. | .membership .., .literal ..
  | .membership .., .call .. | .membership .., .star
  | .star, .binary .. | .star, .column .. | .star, .literal .. | .star, .call ..
  | .star, .membership .. => isFalse (by intro h; cases h)

def decEqList : (as bs : List Expr) → Decidable (as = bs)
  | [], [] => isTrue rfl
  | [], _ :: _ | _ :: _, [] => isFalse (by intro h; cases h)
  | a :: as, b :: bs =>
    match decEq a b, decEqList as bs with
    | isTrue h, isTrue hs => isTrue (by rw [h, hs])
    | isFalse h, _ => isFalse fun e => h (List.cons.inj e).1
    | _, isFalse hs => isFalse fun e => hs (List.cons.inj e).2

end

instance : DecidableEq Expr := decEq

def column? : Expr → Option ColumnRef
  | .column c => some c
  | _ => none

def literal? : Expr → Option Literal
  | .literal v => some v
  | _ => none

/-- Whether this is an application of the given operator. -/
def isOp (op : BinaryOp) : Expr → Bool
  | .binary _ o _ => o == op
  | _ => false

end Expr

end QuerySplit
