/-!
# Runs of decimal digits

The number that a run of decimal digits spells, most significant first; the empty run spells
zero. Callers pass digits only.
-/

set_option autoImplicit false

namespace QuerySplit.Decimal

def digitValue (c : Char) : Nat :=
  c.toNat - '0'.toNat

/-- The number that a run of digits spells. -/
def digitsValue (cs : List Char) : Nat :=
  cs.foldl (fun n c => 10 * n + digitValue c) 0

end QuerySplit.Decimal
