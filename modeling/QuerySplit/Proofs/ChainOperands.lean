import Mathlib.Data.List.Basic
import QuerySplit.Proofs.Meaning

/-!
# The operands of a chain

Conjuncts and alternatives are the operands of a chain of one operator, `AND` or `OR`, and what is
said of the two is said of any operator here. No operand is a chain of the operator itself
(`isOp_of_mem_operands`), and a chain that is built of a list has the operands of the members, one
member after the other (`operands_chain?`). So a list without chains of the operator is read off
the chain that is built of it.

Expressions with the same operands are the same expression, or both are chains
(`eq_or_isOp_of_operands_eq`).
-/

set_option autoImplicit false

namespace QuerySplit.Expr

/-- The operands of a chain of an operator from left to right; any other expression is its own. -/
def operands (op : BinaryOp) : Expr → List Expr
  | .binary left o right =>
    if o = op then left.operands op ++ right.operands op else [.binary left o right]
  | e => [e]

variable {op : BinaryOp}

/-- An expression that is no application of the operator is not a chain of it. -/
theorem isOp_eq_false {e : Expr} (h : ∀ left right : Expr, e ≠ binary left op right) :
    e.isOp op = false := by
  cases e with
  | binary left o right =>
    refine beq_eq_false_iff_ne.2 fun ho => ?_
    exact h left right (by rw [ho])
  | _ => rfl

theorem operands_binary (op : BinaryOp) (left right : Expr) :
    (binary left op right).operands op = left.operands op ++ right.operands op :=
  if_pos rfl

/-- An expression that is no chain of the operator is its own only operand. -/
theorem operands_of_isOp {e : Expr} (h : e.isOp op = false) : e.operands op = [e] := by
  cases e with
  | binary left o right => exact if_neg (beq_eq_false_iff_ne.1 h)
  | _ => rfl

/-- Every expression has an operand. -/
theorem operands_ne_nil (op : BinaryOp) (e : Expr) : e.operands op ≠ [] := by
  fun_induction operands op e with
  | case1 left right ihl ihr => exact List.append_ne_nil_of_left_ne_nil ihl _
  | case2 left o right _ => exact List.cons_ne_nil _ _
  | case3 e _ => exact List.cons_ne_nil _ _

/-- No operand of a chain is a chain of the same operator itself. -/
theorem isOp_of_mem_operands {e d : Expr} (hd : d ∈ e.operands op) : d.isOp op = false := by
  fun_induction operands op e with
  | case1 left right ihl ihr => exact (List.mem_append.1 hd).elim ihl ihr
  | case2 left o right hother =>
    rw [List.mem_singleton.1 hd]
    exact beq_eq_false_iff_ne.2 hother
  | case3 e hnot =>
    rw [List.mem_singleton.1 hd]
    exact isOp_eq_false fun left right => hnot left op right

/-- The operands of a chain that is built of a list are those of its members. -/
theorem operands_chain? (op : BinaryOp) (es : List Expr) :
    ((chain? op es).map (operands op)).getD [] = es.flatMap (operands op) := by
  cases es with
  | nil => rfl
  | cons first rest =>
    show (rest.foldl (.binary · op ·) first).operands op = (first :: rest).flatMap (operands op)
    -- the first expression stands for the chain built so far
    induction rest generalizing first with
    | nil => exact (List.flatMap_singleton ..).symm
    | cons next rest ih =>
      rw [List.foldl_cons, ih, List.flatMap_cons, operands_binary, List.append_assoc,
        List.flatMap_cons, List.flatMap_cons]

/-- A list without chains of an operator is read off the chain that is built of it. -/
theorem operands_chain?_of_isOp {es : List Expr} (h : ∀ e ∈ es, e.isOp op = false) :
    ((chain? op es).map (operands op)).getD [] = es := by
  calc ((chain? op es).map (operands op)).getD []
      = es.flatMap (operands op) := operands_chain? op es
    _ = es.flatMap fun e => [e] := List.flatMap_congr fun e he => operands_of_isOp (h e he)
    _ = es := List.flatMap_singleton' es

/-- Only the empty list folds to nothing. -/
theorem chain?_eq_none_iff {es : List Expr} : chain? op es = none ↔ es = [] := by
  cases es <;> simp [chain?]

/-- A chain has at least two operands, so it is not one of its own operands. -/
theorem operands_ne_singleton {e : Expr} (h : e.isOp op = true) (d : Expr) :
    e.operands op ≠ [d] := by
  cases e with
  | binary left o right =>
    obtain rfl : o = op := beq_iff_eq.1 h
    rw [operands_binary]
    intro heq
    have hlength := congrArg List.length heq
    have hleft := List.length_pos_iff.2 (operands_ne_nil o left)
    have hright := List.length_pos_iff.2 (operands_ne_nil o right)
    rw [List.length_append, List.length_singleton] at hlength
    omega
  | _ => cases h

/-- **Operands tell an expression**, up to how a chain is grouped. -/
theorem eq_or_isOp_of_operands_eq {a b : Expr} (h : a.operands op = b.operands op) :
    a = b ∨ a.isOp op = true ∧ b.isOp op = true := by
  cases ha : a.isOp op with
  | false =>
    rw [operands_of_isOp ha] at h
    cases hb : b.isOp op with
    | false =>
      rw [operands_of_isOp hb] at h
      exact .inl (List.singleton_inj.1 h)
    | true => exact absurd h.symm (operands_ne_singleton hb a)
  | true =>
    cases hb : b.isOp op with
    | false =>
      rw [operands_of_isOp hb] at h
      exact absurd h (operands_ne_singleton ha b)
    | true => exact .inr ⟨rfl, rfl⟩

/-! ## Conjuncts -/

/-- Conjuncts are the operands of `AND`. -/
theorem conjuncts_eq_operands (e : Expr) : e.conjuncts = e.operands .and := by
  fun_induction conjuncts e with
  | case1 left right ihl ihr => rw [operands_binary, ihl, ihr]
  | case2 e hnot => exact (operands_of_isOp (isOp_eq_false hnot)).symm

/-- Every expression has a conjunct. -/
theorem conjuncts_ne_nil (e : Expr) : e.conjuncts ≠ [] := by
  rw [conjuncts_eq_operands]
  exact operands_ne_nil .and e

/-- No conjunct is an `AND` chain itself. -/
theorem isOp_of_mem_conjuncts {e d : Expr} (hd : d ∈ e.conjuncts) : d.isOp .and = false := by
  rw [conjuncts_eq_operands] at hd
  exact isOp_of_mem_operands hd

/-- The conjuncts of a conjunction are those of its members, one member after the other. -/
theorem conjuncts_conjunction? (es : List Expr) :
    ((conjunction? es).map conjuncts).getD [] = es.flatMap conjuncts := by
  simp only [funext conjuncts_eq_operands]
  exact operands_chain? .and es

/-- A list without `AND` chains is the list of conjuncts of its conjunction. -/
theorem conjuncts_conjunction?_of_isOp {es : List Expr} (h : ∀ e ∈ es, e.isOp .and = false) :
    ((conjunction? es).map conjuncts).getD [] = es := by
  simp only [funext conjuncts_eq_operands]
  exact operands_chain?_of_isOp h

/-- Only the empty list has no conjunction. -/
theorem conjunction?_eq_none_iff {es : List Expr} : conjunction? es = none ↔ es = [] :=
  chain?_eq_none_iff

/-! ## Alternatives -/

/-- Alternatives are the operands of `OR`. -/
theorem alternatives_eq_operands (e : Expr) : e.alternatives = e.operands .or := by
  fun_induction alternatives e with
  | case1 left right ihl ihr => rw [operands_binary, ihl, ihr]
  | case2 e hnot => exact (operands_of_isOp (isOp_eq_false hnot)).symm

/-- A list without `OR` chains is the list of alternatives of its disjunction. -/
theorem alternatives_chain?_of_isOp {es : List Expr} (h : ∀ e ∈ es, e.isOp .or = false) :
    ((chain? .or es).map alternatives).getD [] = es := by
  simp only [funext alternatives_eq_operands]
  exact operands_chain?_of_isOp h

end QuerySplit.Expr
