import QuerySplit.Proofs.Occurrences
import QuerySplit.Proofs.Positions
import QuerySplit.Select.Visitor

/-!
# Traversals

The nodes of an expression are met in pre-order, however it is traversed: by the iterator, which
keeps the nodes still to come on a stack that is taken from and pushed to at its end
(`yields_iff`), and by a visitor that notes a node and walks on (`noted_eq`). The columns are
those of the nodes in this order.

A visitor of a whole statement meets its clauses in written order. What it appends to a list on the
way is the concatenation of what it appends for each part (`Appends.walkSelect_eq`). For the logger
this is every part of the statement, for the collector the columns of every expression.

Main statement: `traversals_agree`.
-/

set_option autoImplicit false

namespace QuerySplit

/-! ## The iterator -/

namespace Expr

/-- One turn of the iterator. The node at the end of the stack is taken and its children are pushed
from the last to the first, so the first of them is taken next. -/
def next? (stack : List Expr) : Option (Expr × List Expr) :=
  stack.getLast?.map fun e => (e, stack.dropLast ++ e.children.reverse)

/-- The iterator yields the members of a list, one a turn, and nothing after them. -/
inductive Yields : List Expr → List Expr → Prop
  | done {stack : List Expr} (h : next? stack = none) : Yields stack []
  | turn {stack rest es : List Expr} {e : Expr} (h : next? stack = some (e, rest))
      (hrest : Yields rest es) : Yields stack (e :: es)

/-- An iterator yields one list at most. -/
theorem Yields.unique {stack es es' : List Expr} (h : Yields stack es) (h' : Yields stack es') :
    es = es' := by
  induction h generalizing es' with
  | done hnone =>
    cases h' with
    | done => rfl
    | turn hnext => rw [hnone] at hnext; cases hnext
  | turn hnext _ ih =>
    cases h' with
    | done hnone => rw [hnext] at hnone; cases hnone
    | turn hnext' hrest =>
      rw [hnext] at hnext'
      cases hnext'
      rw [ih hrest]

/-- The walk that takes from the front of a stack and pushes to it yields the same as the iterator,
which does so at the end. -/
theorem yields_walk (stack : List Expr) : Yields stack.reverse (walk stack) := by
  fun_induction walk stack with
  | case1 => exact .done rfl
  | case2 e stack ih =>
    -- reversing the stack puts the last child pushed where the walk has the first
    have hnext : next? (e :: stack).reverse = some (e, (e.children ++ stack).reverse) := by
      simp [next?]
    exact .turn hnext ih

/-- **The iterator stops**, and what it yields are the nodes of the expressions on the stack, each
of them in pre-order. -/
theorem yields_iff {stack es : List Expr} : Yields stack es ↔ es = nodesList stack.reverse := by
  have hyields : Yields stack (nodesList stack.reverse) := by
    have h := yields_walk stack.reverse
    rwa [List.reverse_reverse, walk_eq_nodesList] at h
  constructor
  · exact fun h => h.unique hyields
  · rintro rfl
    exact hyields

end Expr

/-! ## Visitors that append -/

namespace Visitor

variable {α : Type}

/-- Visiting each expression appends what each of them does. -/
theorem visitEach_eq {visit : Expr → List α → List α} {f : Expr → List α} {es : List Expr}
    (h : ∀ e ∈ es, ∀ l, visit e l = l ++ f e) (l : List α) :
    visitEach visit es l = l ++ es.flatMap f := by
  induction es generalizing l with
  | nil => exact (List.append_nil l).symm
  | cons e rest ih =>
    obtain ⟨hfirst, hrest⟩ := List.forall_mem_cons.1 h
    show visitEach visit rest (visit e l) = l ++ (e :: rest).flatMap f
    rw [ih hrest, hfirst, List.flatMap_cons, List.append_assoc]

/-- The sources are walked for their join conditions. -/
theorem walkSources_eq (visit : Expr → List α → List α) (tables : List TableRef) (l : List α) :
    walkSources visit tables l = visitEach visit (tables.filterMap TableRef.condition) l := by
  induction tables generalizing l with
  | nil => rfl
  | cons t rest ih =>
    have hstep : walkSources visit (t :: rest) l =
        walkSources visit rest (t.condition.elim l (visit · l)) := rfl
    rw [hstep, ih]
    cases hcondition : t.condition with
    | none => rw [List.filterMap_cons_none hcondition]; rfl
    | some condition => rw [List.filterMap_cons_some hcondition]; rfl

/-- A visit appends what `f` gives for an expression. At a clause the visitor appends what `note`
gives and walks on. -/
structure Appends (v : Visitor (List α)) (note : Visit → List α) (f : Expr → List α) : Prop where
  expr : ∀ e l, v.expr e l = l ++ f e
  sources : ∀ tables l,
    v.sources tables l = walkSources v.expr tables (l ++ note (.sources tables))
  filter : ∀ condition l, v.filter condition l = walkFilter v.expr condition (l ++ note .filter)

section Clauses

variable {v : Visitor (List α)} {note : Visit → List α} {f : Expr → List α}

/-- A visitor that appends does so over a list. -/
theorem Appends.visitEach_eq (h : v.Appends note f) (es : List Expr) (l : List α) :
    visitEach v.expr es l = l ++ es.flatMap f :=
  Visitor.visitEach_eq (fun e _ => h.expr e) l

/-- The `FROM` clause appends its note and then the join conditions. -/
theorem Appends.sources_eq (h : v.Appends note f) (q : Select) (l : List α) :
    q.sources.elim l (v.sources · l) = l ++
      ((q.sources.map Visit.sources).toList.flatMap note ++ q.conditions.flatMap f) := by
  unfold Select.conditions Select.tables
  cases q.sources with
  | none => simp
  | some tables => simp [h.sources, walkSources_eq, h.visitEach_eq]

/-- The `WHERE` clause appends its note and then the condition. -/
theorem Appends.filter_eq (h : v.Appends note f) (q : Select) (l : List α) :
    q.filter.elim l (v.filter · l) = l ++
      ((q.filter.map fun _ => Visit.filter).toList.flatMap note ++
        q.filter.toList.flatMap f) := by
  cases q.filter with
  | none => simp
  | some condition => simp [h.filter, walkFilter, h.expr]

/-- **What a walk of a statement appends**, clause by clause. -/
theorem Appends.walkSelect_eq (h : v.Appends note f) (q : Select) (l : List α) :
    v.walkSelect q l = l ++ (q.items.flatMap f ++
      (q.sources.map Visit.sources).toList.flatMap note ++ q.conditions.flatMap f ++
      (q.filter.map fun _ => Visit.filter).toList.flatMap note ++ q.filter.toList.flatMap f ++
      q.groupBy.flatMap f ++ q.having.toList.flatMap f ++
      (q.orderBy.map OrderItem.expr).flatMap f) := by
  have hhaving : ∀ l : List α, q.having.elim l (v.expr · l) = l ++ q.having.toList.flatMap f := by
    intro l
    cases q.having with
    | none => simp
    | some condition => simp [h.expr]
  have horder : ∀ l : List α, q.orderBy.foldl (fun l item => v.expr item.expr l) l =
      l ++ (q.orderBy.map OrderItem.expr).flatMap f := by
    intro l
    rw [← h.visitEach_eq, visitEach, List.foldl_map]
  simp only [walkSelect, h.visitEach_eq, h.sources_eq, h.filter_eq, hhaving, horder,
    List.append_assoc]

end Clauses

/-! ## The logger -/

/-- **A visitor that notes a node and walks on** notes the nodes of an expression in pre-order. -/
theorem noted_eq {note : Expr → α} {visit : Expr → List α → List α}
    (h : ∀ e l, visit e l = walkExpr visit e (l ++ [note e])) (e : Expr) (l : List α) :
    visit e l = l ++ e.nodes.map note := by
  induction e using Expr.induction_children generalizing l with
  | h e ih =>
    have hchildren : ∀ es : List Expr,
        (Expr.nodesList es).map note = es.flatMap fun c => c.nodes.map note := by
      intro es
      induction es with
      | nil => rfl
      | cons c rest ih => rw [Expr.nodesList, List.map_append, ih, List.flatMap_cons]
    rw [h, walkExpr, visitEach_eq ih, Expr.nodes_eq, List.map_cons, hchildren,
      List.append_assoc, List.singleton_append]

/-- A visitor that notes every part that it is handed and then walks it. -/
structure Logs (v : Visitor (List Visit)) : Prop where
  expr : ∀ e log, v.expr e log = walkExpr v.expr e (log ++ [.expr e])
  sources : ∀ tables log,
    v.sources tables log = walkSources v.expr tables (log ++ [.sources tables])
  filter : ∀ condition log,
    v.filter condition log = walkFilter v.expr condition (log ++ [.filter])

/-- The logger notes each part and then descends. -/
theorem logger_logs : logger.Logs where
  expr e log := by
    show logExpr e log = walkExpr logExpr e (log ++ [.expr e])
    rw [logExpr, walkExpr, visitEach]
    exact List.foldl_attach (f := fun log c => logExpr c log)
  sources _ _ := rfl
  filter _ _ := rfl

/-- A visitor that logs appends the nodes in pre-order. -/
theorem Logs.appends {v : Visitor (List Visit)} (h : v.Logs) :
    v.Appends (fun part => [part]) fun e => e.nodes.map .expr where
  expr := noted_eq h.expr
  sources := h.sources
  filter := h.filter

/-- What is noted in a statement are all its parts. -/
theorem Logs.walkSelect_eq_visits {v : Visitor (List Visit)} (h : v.Logs) (q : Select) :
    v.walkSelect q [.statement] = q.visits := by
  rw [h.appends.walkSelect_eq, Select.visits]
  simp only [Select.nodeVisits, List.map_flatMap, List.flatMap_singleton', List.singleton_append]

/-! ## The collector -/

/-- The collector appends columns and notes nothing else. -/
theorem collector_appends : collector.Appends (fun _ => []) Expr.columns where
  expr _ _ := rfl
  sources _ _ := by rw [List.append_nil]; rfl
  filter _ _ := by rw [List.append_nil]; rfl

end Visitor

/-- **The collector takes the columns of every expression**, clause by clause. -/
theorem Select.collect_eq_columns (q : Select) : q.collect = q.columns := by
  have hnone : ∀ parts : List Visit, parts.flatMap (fun _ => ([] : List ColumnRef)) = [] :=
    fun _ => List.flatMap_eq_nil_iff.2 fun _ _ => rfl
  rw [collect, Visitor.collector_appends.walkSelect_eq, columns, expressions]
  simp only [hnone, List.flatMap_append, List.append_nil, List.nil_append]

/-- **All traversals meet the same nodes in the same order.** An expression has one list of what
stands at its positions, each once and in their order, and the recursion gives it. The iterator
yields this list and stops, and a visitor that notes a node and walks on notes this list. The
columns of an expression are those of its nodes in this order: that of the node itself, which a
membership test has too, and then those of its children from left to right.

The logger notes all parts of a statement. The collector takes the columns of the expressions of a
statement, clause by clause, so it has every column that occurs anywhere in the statement. -/
theorem traversals_agree :
    (∀ e : Expr, (∀ es, e.IsPreorder es ↔ es = e.nodes) ∧
      (∀ es, Expr.Yields [e] es ↔ es = e.nodes) ∧ Expr.walk [e] = e.nodes ∧
      (∀ {α : Type} (note : Expr → α) (visit : Expr → List α → List α),
        (∀ d l, visit d l = Visitor.walkExpr visit d (l ++ [note d])) →
          ∀ l, visit e l = l ++ e.nodes.map note) ∧
      e.columns = e.nodes.filterMap Expr.ownColumn? ∧
      e.columns = e.ownColumn?.toList ++ e.children.flatMap Expr.columns) ∧
    ∀ q : Select,
      (∀ v : Visitor (List Visit), v.Logs → v.walkSelect q [.statement] = q.visits) ∧
      q.collect = q.columns ∧
      q.collect = q.items.flatMap Expr.columns ++ q.conditions.flatMap Expr.columns ++
        q.filter.toList.flatMap Expr.columns ++ q.groupBy.flatMap Expr.columns ++
        q.having.toList.flatMap Expr.columns ++
        (q.orderBy.map OrderItem.expr).flatMap Expr.columns ∧
      ∀ c, c ∈ q.collect ↔ q.Uses c := by
  refine ⟨fun e => ⟨fun es => ⟨Expr.IsPreorder.eq_nodes, ?_⟩, fun es => ?_, Expr.walk_eq_nodes e,
    fun note visit h => Visitor.noted_eq h e, ?_, e.columns_eq⟩, fun q => ?_⟩
  · rintro rfl
    exact e.isPreorder_nodes
  · rw [Expr.yields_iff, List.reverse_singleton, Expr.nodesList, Expr.nodesList, List.append_nil]
  · rw [Expr.columns, Expr.walk_eq_nodes]
  · refine ⟨fun v h => h.walkSelect_eq_visits q, q.collect_eq_columns, ?_, fun c => ?_⟩
    · rw [q.collect_eq_columns, Select.columns, Select.expressions]
      simp only [List.flatMap_append]
    · rw [q.collect_eq_columns, Select.mem_columns_iff]

/-- A statement with a column below each kind of node: an argument of a call in the select list, the
sides of a join condition, a test and one of its values, and the key of the order. -/
def homeOrders : Select where
  items := [.call "UPPER" [.column ⟨some "c", "name"⟩] false]
  sources := some [{ name := "orders", alias? := some "o" },
    { name := "customers", alias? := some "c", join := .inner,
      condition := some (.binary (.column ⟨some "o", "customer"⟩) .eq (.column ⟨some "c", "id"⟩)) }]
  filter := some (.binary
    (.membership ⟨none, "region"⟩ [.literal ⟨"NA", .string⟩, .column ⟨some "c", "home"⟩]) .and
    (.binary (.column ⟨some "o", "total"⟩) .gt (.literal ⟨"7", .number⟩)))
  orderBy := [{ expr := .column ⟨some "o", "total"⟩, descending := true }]

/-- The logger visits the filter in seven steps, and the columns are collected clause by clause, one
of them twice. -/
theorem traversals_agree_homeOrders :
    Visitor.logger.Logs ∧ Visitor.logger.walkSelect homeOrders [.statement] = homeOrders.visits ∧
      (∀ e ∈ homeOrders.filter, (∀ d l, Visitor.logger.expr d l =
          Visitor.walkExpr Visitor.logger.expr d (l ++ [.expr d])) ∧
        Visitor.logger.expr e [] = e.nodes.map .expr ∧ e.nodes.length = 7) ∧
      homeOrders.collect = [⟨some "c", "name"⟩, ⟨some "o", "customer"⟩, ⟨some "c", "id"⟩,
        ⟨none, "region"⟩, ⟨some "c", "home"⟩, ⟨some "o", "total"⟩, ⟨some "o", "total"⟩] := by
  obtain ⟨hexprs, hstatements⟩ := traversals_agree
  obtain ⟨hvisits, hcollect, -, -⟩ := hstatements homeOrders
  refine ⟨Visitor.logger_logs, hvisits _ Visitor.logger_logs, ?_, ?_⟩
  · intro e he
    obtain ⟨-, -, -, hnoted, -, -⟩ := hexprs e
    cases he
    exact ⟨Visitor.logger_logs.expr, hnoted _ _ Visitor.logger_logs.expr [], by decide +kernel⟩
  · rw [hcollect]
    decide +kernel

end QuerySplit
