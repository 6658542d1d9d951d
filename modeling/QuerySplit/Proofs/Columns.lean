import QuerySplit.Expr.Qualifier
import QuerySplit.Expr.Walk
import QuerySplit.Proofs.Meaning

/-!
# The columns of an expression and its value

The columns of a node, one equation per form, of the parts of a chain and of an expression without
its qualifiers. An expression reads its columns and nothing else of an assignment (`eval_congr`),
and without qualifiers it reads what the assignment gives to the unqualified columns, whatever the
operators and calls mean (`value_unqualified`).
-/

set_option autoImplicit false

namespace QuerySplit.Expr

/-! ## Columns by form -/

/-- The columns of a list of trees are those of each in turn. -/
theorem filterMap_nodesList (es : List Expr) :
    (nodesList es).filterMap ownColumn? = es.flatMap columns := by
  induction es with
  | nil => rfl
  | cons e rest ih =>
    rw [nodesList, List.filterMap_append, ih, List.flatMap_cons, columns, walk_eq_nodes]

/-- The columns of a node are its own one, then those of its children. -/
theorem columns_eq (e : Expr) :
    e.columns = (ownColumn? e).toList ++ e.children.flatMap columns := by
  rw [columns, walk_eq_nodes, nodes_eq, List.filterMap_cons, filterMap_nodesList]
  cases ownColumn? e <;> rfl

@[simp]
theorem columns_binary (left : Expr) (op : BinaryOp) (right : Expr) :
    (binary left op right).columns = left.columns ++ right.columns := by
  simp [columns_eq (.binary left op right), ownColumn?, children]

@[simp]
theorem columns_column (c : ColumnRef) : (column c).columns = [c] := by
  simp [columns_eq (.column c), ownColumn?, children]

@[simp]
theorem columns_literal (v : Literal) : (literal v).columns = [] := by
  simp [columns_eq (.literal v), ownColumn?, children]

@[simp]
theorem columns_call (name : String) (args : List Expr) (distinct : Bool) :
    (call name args distinct).columns = args.flatMap columns := by
  simp [columns_eq (.call name args distinct), ownColumn?, children]

@[simp]
theorem columns_membership (c : ColumnRef) (values : List Expr) :
    (membership c values).columns = c :: values.flatMap columns := by
  simp [columns_eq (.membership c values), ownColumn?, children]

@[simp]
theorem columns_star : star.columns = [] := by
  simp [columns_eq .star, ownColumn?, children]

/-- A chain has the columns of its conjuncts, in the same order. -/
theorem flatMap_columns_conjuncts (e : Expr) : e.conjuncts.flatMap columns = e.columns := by
  fun_induction conjuncts e with
  | case1 left right ihl ihr => rw [List.flatMap_append, ihl, ihr, columns_binary]
  | case2 e _ => rw [List.flatMap_singleton]

/-- Flattening a chain of alternatives loses no column and moves none. -/
theorem flatMap_columns_alternatives (e : Expr) :
    e.alternatives.flatMap columns = e.columns := by
  fun_induction alternatives e with
  | case1 left right ihl ihr => rw [List.flatMap_append, ihl, ihr, columns_binary]
  | case2 e _ => rw [List.flatMap_singleton]

/-- A chain that is built from expressions has the columns of these, in the same order. -/
theorem columns_chain? {op : BinaryOp} {es : List Expr} {e : Expr} (h : chain? op es = some e) :
    e.columns = es.flatMap columns := by
  cases es with
  | nil => cases h
  | cons first rest =>
    cases h
    induction rest generalizing first with
    | nil => rw [List.foldl_nil, List.flatMap_singleton]
    | cons next rest ih => simp [ih]

/-- The columns of a conjunct are among those of the whole. -/
theorem mem_columns_of_conjunct {e d : Expr} {c : ColumnRef} (hd : d ∈ e.conjuncts)
    (hc : c ∈ d.columns) : c ∈ e.columns :=
  flatMap_columns_conjuncts e ▸ List.mem_flatMap_of_mem hd hc

/-- The columns of an alternative are among those of the chain. -/
theorem mem_columns_of_alternative {e a : Expr} {c : ColumnRef} (ha : a ∈ e.alternatives)
    (hc : c ∈ a.columns) : c ∈ e.columns :=
  flatMap_columns_alternatives e ▸ List.mem_flatMap_of_mem ha hc

mutual

/-- Dropping the qualifiers drops that of each column. -/
theorem columns_unqualified :
    ∀ e : Expr, e.unqualified.columns = e.columns.map ColumnRef.unqualified
  | .binary left op right => by
    rw [unqualified, columns_binary, columns_binary, columns_unqualified left,
      columns_unqualified right, List.map_append]
  | .column c => by rw [unqualified, columns_column, columns_column, List.map_singleton]
  | .literal _ => by rw [unqualified, columns_literal, List.map_nil]
  | .call name args distinct => by
    rw [unqualified, columns_call, columns_call, flatMap_columns_unqualifiedList args]
  | .membership c values => by
    rw [unqualified, columns_membership, columns_membership,
      flatMap_columns_unqualifiedList values, List.map_cons]
  | .star => by rw [unqualified, columns_star, List.map_nil]

theorem flatMap_columns_unqualifiedList :
    ∀ es : List Expr,
      (unqualifiedList es).flatMap columns = (es.flatMap columns).map ColumnRef.unqualified
  | [] => rfl
  | e :: rest => by
    rw [unqualifiedList, List.flatMap_cons, List.flatMap_cons, columns_unqualified e,
      flatMap_columns_unqualifiedList rest, List.map_append]

end

/-! ## Columns and values -/

variable {V : Type} (I : Interpretation V)

mutual

/-- Assignments that agree on the columns of an expression give it the same value. -/
theorem eval_congr {read other : ColumnRef → V} :
    ∀ e : Expr, (∀ c ∈ e.columns, read c = other c) → e.eval I read = e.eval I other
  | .binary left op right, h => by
    simp only [columns_binary, List.forall_mem_append] at h
    rw [eval, eval, eval_congr left h.1, eval_congr right h.2]
  | .column c, h => by
    rw [eval, eval, h c (by rw [columns_column]; exact List.mem_singleton_self c)]
  | .literal _, _ => by rw [eval, eval]
  | .call name args distinct, h => by
    rw [columns_call] at h
    rw [eval, eval, evalList_congr args h]
  | .membership c values, h => by
    simp only [columns_membership, List.forall_mem_cons] at h
    rw [eval, eval, h.1, evalList_congr values h.2]
  | .star, _ => by rw [eval, eval]

theorem evalList_congr {read other : ColumnRef → V} :
    ∀ es : List Expr, (∀ c ∈ es.flatMap columns, read c = other c) →
      evalList I read es = evalList I other es
  | [], _ => rfl
  | e :: rest, h => by
    simp only [List.flatMap_cons, List.forall_mem_append] at h
    rw [evalList, evalList, eval_congr e h.1, evalList_congr rest h.2]

end

mutual

/-- An expression without qualifiers reads the unqualified columns, whatever its forms mean. -/
theorem value_unqualified (O : Operations V) (read : ColumnRef → V) :
    ∀ e : Expr, e.unqualified.value O read = e.value O fun c => read c.unqualified
  | .binary left op right => by
    rw [unqualified, value, value, value_unqualified O read left, value_unqualified O read right]
  | .column c => by rw [unqualified, value, value]
  | .literal _ => by rw [unqualified, value, value]
  | .call name args distinct => by
    rw [unqualified, value, value, valueList_unqualified O read args]
  | .membership c values => by
    rw [unqualified, value, value, valueList_unqualified O read values]
  | .star => by rw [unqualified, value, value]

theorem valueList_unqualified (O : Operations V) (read : ColumnRef → V) :
    ∀ es : List Expr,
      valueList O read (unqualifiedList es) = valueList O (fun c => read c.unqualified) es
  | [] => rfl
  | e :: rest => by
    rw [unqualifiedList, valueList, valueList, value_unqualified O read e,
      valueList_unqualified O read rest]

end

/-- The value without qualifiers is the value under the reading that looks at names only. -/
theorem eval_unqualified (read : ColumnRef → V) (e : Expr) :
    e.unqualified.eval I read = e.eval I fun c => read c.unqualified := by
  rw [eval_eq_value, eval_eq_value, value_unqualified]

end QuerySplit.Expr
