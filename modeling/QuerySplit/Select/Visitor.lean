import QuerySplit.Select.Visit

/-!
# Visitors

A visitor carries a state through a statement. It says what becomes of the state when an expression,
the `FROM` clause or the `WHERE` clause is visited. The walks hand a visitor the parts of what it
visits, in written order: a walk of an expression its children, a walk of the `FROM` clause the join
conditions, a walk of a statement its clauses. How deep a visit goes is up to the visitor: one that
wants to see below the part it was handed walks that part itself.

The `logger` notes every part that it is handed and walks on. The `collector` takes the columns of
every expression that it is handed, which it need not walk.
-/

set_option autoImplicit false

namespace QuerySplit

/-- What becomes of a state when a part of a statement is visited. -/
structure Visitor (σ : Type) where
  expr : Expr → σ → σ
  sources : List TableRef → σ → σ
  filter : Expr → σ → σ

namespace Visitor

variable {σ : Type}

/-! ## Walks -/

section Walks

variable (visit : Expr → σ → σ)

/-- Visits expressions from left to right. -/
def visitEach (es : List Expr) (s : σ) : σ :=
  es.foldl (fun s e => visit e s) s

/-- Visits the children of a node. -/
def walkExpr (e : Expr) (s : σ) : σ :=
  visitEach visit e.children s

/-- Visits the join conditions in the order of the sources. -/
def walkSources (tables : List TableRef) (s : σ) : σ :=
  tables.foldl (fun s t => t.condition.elim s (visit · s)) s

/-- Visits the condition of the `WHERE` clause. -/
def walkFilter (condition : Expr) (s : σ) : σ :=
  visit condition s

end Walks

/-- Visits every clause of a statement. -/
def walkSelect (v : Visitor σ) (q : Select) (s : σ) : σ :=
  let items := visitEach v.expr q.items s
  let sources := q.sources.elim items (v.sources · items)
  let filter := q.filter.elim sources (v.filter · sources)
  let groupBy := visitEach v.expr q.groupBy filter
  let having := q.having.elim groupBy (v.expr · groupBy)
  q.orderBy.foldl (fun s item => v.expr item.expr s) having

/-! ## The two visitors -/

/-- Notes a node and walks on. -/
def logExpr (e : Expr) (log : List Visit) : List Visit :=
  e.children.attach.foldl (fun log c => logExpr c.1 log) (log ++ [.expr e])
termination_by e.size
decreasing_by exact Expr.size_lt_of_mem_children c.2

def logger : Visitor (List Visit) where
  expr := logExpr
  sources tables log := walkSources logExpr tables (log ++ [.sources tables])
  filter condition log := walkFilter logExpr condition (log ++ [.filter])

/-- Takes the columns of an expression. -/
def collectExpr (e : Expr) (columns : List ColumnRef) : List ColumnRef :=
  columns ++ e.columns

def collector : Visitor (List ColumnRef) where
  expr := collectExpr
  sources := walkSources collectExpr
  filter := walkFilter collectExpr

end Visitor

/-- The columns that the collector has after a walk of a statement. -/
def Select.collect (q : Select) : List ColumnRef :=
  Visitor.collector.walkSelect q []

end QuerySplit
