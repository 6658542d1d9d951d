import QuerySplit.Expr.Basic
import QuerySplit.Text.UpperCase

/-!
# The SQL text of an expression

The text is plain SQL without regard to dialect. An operand stands in parentheses exactly when it
is an operator application that binds more loosely than the operator above it. A string literal
doubles its quotes; date and timestamp literals are written between quotes as they are.
-/

set_option autoImplicit false

namespace QuerySplit

/-- A text between single quotes, with quotes inside it doubled. -/
def quoteText (s : String) : String :=
  "'" ++ String.ofList (s.toList.flatMap fun c => if c = '\'' then ['\'', '\''] else [c]) ++ "'"

def Literal.text (v : Literal) : String :=
  match v.kind with
  | .string => quoteText v.value
  | .number | .unknown => v.value
  | .boolean => Text.upper v.value
  | .null => "NULL"
  | .date => "DATE '" ++ v.value ++ "'"
  | .timestamp => "TIMESTAMP '" ++ v.value ++ "'"

namespace Expr

/-- Whether an operand of an operator of the given precedence needs parentheses. -/
def looserThan (precedence : Nat) : Expr → Bool
  | .binary _ op _ => decide (op.precedence < precedence)
  | _ => false

def parenthesized (needed : Bool) (text : String) : String :=
  if needed then "(" ++ text ++ ")" else text

mutual

def text : Expr → String
  | .binary left op right =>
    parenthesized (left.looserThan op.precedence) left.text ++ " " ++ op.symbol ++ " " ++
      parenthesized (right.looserThan op.precedence) right.text
  | .column c => c.qualifiedName
  | .literal v => v.text
  | .call name args distinct =>
    name ++ "(" ++ (if distinct then "DISTINCT " else "") ++ ", ".intercalate (texts args) ++ ")"
  | .membership c values => c.qualifiedName ++ " IN (" ++ ", ".intercalate (texts values) ++ ")"
  | .star => "*"

def texts : List Expr → List String
  | [] => []
  | e :: rest => e.text :: texts rest

end

/-- The texts of a list, separated by commas. -/
def listText (es : List Expr) : String :=
  ", ".intercalate (texts es)

end Expr

end QuerySplit
