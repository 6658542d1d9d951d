import QuerySplit.Expr.Basic

/-!
# Walking an expression

The nodes of a tree come in pre-order: a node before its children, children from left to right.
`nodes` says so by recursion; `walk` gives the same sequence from a stack of trees still to
visit, without recursion on the tree. The columns of an expression are collected along the walk;
a membership test gives its own column before those of its values.

Main statement: `walk_eq_nodes`.
-/

set_option autoImplicit false

namespace QuerySplit.Expr

/-- The direct parts of a node that are expressions. The column of a membership test is none. -/
def children : Expr → List Expr
  | .binary left _ right => [left, right]
  | .call _ args _ => args
  | .membership _ values => values
  | .column _ | .literal _ | .star => []

mutual

/-- The number of nodes. -/
def size : Expr → Nat
  | .binary left _ right => left.size + right.size + 1
  | .call _ args _ => sizeList args + 1
  | .membership _ values => sizeList values + 1
  | .column _ | .literal _ | .star => 1

def sizeList : List Expr → Nat
  | [] => 0
  | e :: rest => e.size + sizeList rest

end

mutual

/-- All nodes in pre-order. -/
def nodes : Expr → List Expr
  | .binary left op right => .binary left op right :: (left.nodes ++ right.nodes)
  | .call name args distinct => .call name args distinct :: nodesList args
  | .membership c values => .membership c values :: nodesList values
  | .column c => [.column c]
  | .literal v => [.literal v]
  | .star => [.star]

def nodesList : List Expr → List Expr
  | [] => []
  | e :: rest => e.nodes ++ nodesList rest

end

/-- The nodes of two lists together are those of each. -/
theorem sizeList_append (as bs : List Expr) :
    sizeList (as ++ bs) = sizeList as + sizeList bs := by
  induction as with
  | nil => simp [sizeList]
  | cons e rest ih => simp [sizeList, ih, Nat.add_assoc]

/-- A node counts itself and the nodes under its children. -/
theorem size_eq (e : Expr) : e.size = sizeList e.children + 1 := by
  cases e <;> simp [size, children, sizeList]

/-- A child is smaller than its parent, which is what recursion over trees descends on. -/
theorem size_lt_of_mem_children {e c : Expr} (hc : c ∈ e.children) : c.size < e.size := by
  have hlist : ∀ es : List Expr, c ∈ es → c.size ≤ sizeList es := by
    intro es hes
    induction es with
    | nil => cases hes
    | cons first rest ih =>
      rw [sizeList]
      rcases List.mem_cons.1 hes with rfl | hrest
      · exact Nat.le_add_right _ _
      · exact Nat.le_add_left_of_le (ih hrest)
  rw [size_eq e]
  exact Nat.lt_succ_of_le (hlist e.children hc)

/-- What holds of a node when it holds of its children holds of every expression. -/
theorem induction_children {P : Expr → Prop} (h : ∀ e, (∀ c ∈ e.children, P c) → P e) (e : Expr) :
    P e :=
  h e fun c _hc => induction_children h c
termination_by e.size
decreasing_by exact size_lt_of_mem_children _hc

/-- The nodes of two lists in a row are those of the first, then those of the second. -/
theorem nodesList_append (as bs : List Expr) :
    nodesList (as ++ bs) = nodesList as ++ nodesList bs := by
  induction as with
  | nil => simp [nodesList]
  | cons e rest ih => simp [nodesList, ih]

/-- In pre-order a node comes first, and its children follow in their order. -/
theorem nodes_eq (e : Expr) : e.nodes = e :: nodesList e.children := by
  cases e <;> simp [nodes, children, nodesList]

/-- The nodes of the trees on a stack: the top one first, then its children on top of the rest. -/
def walk : List Expr → List Expr
  | [] => []
  | e :: stack => e :: walk (e.children ++ stack)
termination_by stack => sizeList stack
decreasing_by
  rw [sizeList_append, sizeList, size_eq]
  omega

/-- A walk visits the trees of the stack one after the other, each in pre-order. -/
theorem walk_eq_nodesList (stack : List Expr) : walk stack = nodesList stack := by
  fun_induction walk stack with
  | case1 => simp [nodesList]
  | case2 e stack ih => rw [ih, nodesList_append, nodesList, nodes_eq, List.cons_append]

/-- The walk with a stack meets the nodes of a tree in pre-order. -/
theorem walk_eq_nodes (e : Expr) : walk [e] = e.nodes := by
  simp [walk_eq_nodesList, nodesList]

/-- The column that a node itself names. -/
def ownColumn? : Expr → Option ColumnRef
  | .column c => some c
  | .membership c _ => some c
  | .binary .. | .literal _ | .call .. | .star => none

/-- The columns of an expression in pre-order. -/
def columns (e : Expr) : List ColumnRef :=
  (walk [e]).filterMap ownColumn?

end QuerySplit.Expr
