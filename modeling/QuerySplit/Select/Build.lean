import QuerySplit.Select.Basic

/-!
# Building statements

Each function changes one clause. Sources are appended in the order they are added, and a first
source makes the `FROM` clause; the other clauses are replaced.
-/

set_option autoImplicit false

namespace QuerySplit

namespace TableRef

def ofName (name : String) : TableRef := { name }

def named (t : TableRef) (name : String) : TableRef := { t with alias? := some name }

/-- The table joined under a condition. -/
def joined (t : TableRef) (join : JoinKind) (condition : Option Expr) : TableRef :=
  { t with join, condition }

end TableRef

namespace Select

/-- A statement with the given select list and no clause. -/
def ofItems (items : List Expr) : Select := { items }

def addSource (s : Select) (t : TableRef) : Select :=
  { s with sources := some (s.tables ++ [t]) }

def makeDistinct (s : Select) : Select := { s with distinct := true }

def fromTable (s : Select) (name : String) : Select := s.addSource (.ofName name)

def fromTableAs (s : Select) (name aliasName : String) : Select :=
  s.addSource ((TableRef.ofName name).named aliasName)

def joinOn (s : Select) (name : String) (on : Expr) : Select :=
  s.addSource ((TableRef.ofName name).joined .inner (some on))

def joinAsOn (s : Select) (name aliasName : String) (on : Expr) : Select :=
  s.addSource (((TableRef.ofName name).named aliasName).joined .inner (some on))

def leftJoinAsOn (s : Select) (name aliasName : String) (on : Expr) : Select :=
  s.addSource (((TableRef.ofName name).named aliasName).joined .left (some on))

def crossJoin (s : Select) (name : String) : Select :=
  s.addSource ((TableRef.ofName name).joined .cross none)

def filterBy (s : Select) (condition : Expr) : Select := { s with filter := some condition }

def groupedBy (s : Select) (es : List Expr) : Select := { s with groupBy := es }

def havingOnly (s : Select) (condition : Expr) : Select := { s with having := some condition }

/-- The statement ordered by expressions, each ascending. -/
def orderedBy (s : Select) (es : List Expr) : Select :=
  { s with orderBy := es.map fun expr => { expr } }

def limitTo (s : Select) (n : UInt64) : Select := { s with limit := some n }

def skipping (s : Select) (n : UInt64) : Select := { s with offset := some n }

end Select

end QuerySplit
