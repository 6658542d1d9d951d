import QuerySplit.Proofs.Columns
import QuerySplit.Select.Visit

/-!
# Where columns occur

A column occurs in an expression that names it, as a column or as the column of a membership test,
and wherever it occurs in a part (`ColumnRef.OccursIn`). A statement uses the columns that occur in
its clauses (`Select.Uses`). Both relations are stated on the trees, without a walk; the columns
that the walks collect are the ones that occur (`Expr.mem_columns_iff`, `Select.mem_columns_iff`).
-/

set_option autoImplicit false

namespace QuerySplit

/-- The column is named somewhere in an expression. -/
inductive ColumnRef.OccursIn (c : ColumnRef) : Expr → Prop
  | column : OccursIn c (.column c)
  | left {left right : Expr} {op : BinaryOp} (h : OccursIn c left) :
      OccursIn c (.binary left op right)
  | right {left right : Expr} {op : BinaryOp} (h : OccursIn c right) :
      OccursIn c (.binary left op right)
  | argument {name : String} {args : List Expr} {distinct : Bool} {e : Expr} (he : e ∈ args)
      (h : OccursIn c e) : OccursIn c (.call name args distinct)
  | tested {values : List Expr} : OccursIn c (.membership c values)
  | value {tested : ColumnRef} {values : List Expr} {e : Expr} (he : e ∈ values)
      (h : OccursIn c e) : OccursIn c (.membership tested values)

/-- The column occurs in some clause of a statement. -/
inductive Select.Uses (s : Select) (c : ColumnRef) : Prop
  | item {e : Expr} (he : e ∈ s.items) (h : c.OccursIn e)
  | join {t : TableRef} {e : Expr} (ht : t ∈ s.tables) (he : t.condition = some e)
      (h : c.OccursIn e)
  | filter {e : Expr} (he : s.filter = some e) (h : c.OccursIn e)
  | group {e : Expr} (he : e ∈ s.groupBy) (h : c.OccursIn e)
  | having {e : Expr} (he : s.having = some e) (h : c.OccursIn e)
  | order {item : OrderItem} (hitem : item ∈ s.orderBy) (h : c.OccursIn item.expr)

namespace Expr

/-- A column that stands somewhere in an expression is one of its columns, by induction on where it
stands. -/
theorem mem_columns_of_occursIn {c : ColumnRef} {e : Expr} (h : c.OccursIn e) :
    c ∈ e.columns := by
  induction h with
  | column => simp
  | left _ ih => rw [columns_binary]; exact List.mem_append_left _ ih
  | right _ ih => rw [columns_binary]; exact List.mem_append_right _ ih
  | argument he _ ih => rw [columns_call]; exact List.mem_flatMap_of_mem he ih
  | tested => rw [columns_membership]; exact List.mem_cons_self
  | value he _ ih =>
    rw [columns_membership]
    exact List.mem_cons_of_mem _ (List.mem_flatMap_of_mem he ih)

mutual

/-- Each column of an expression stands somewhere in it. -/
theorem occursIn_of_mem_columns {c : ColumnRef} : ∀ e : Expr, c ∈ e.columns → c.OccursIn e
  | .binary left op right, h => by
    rw [columns_binary] at h
    rcases List.mem_append.1 h with hleft | hright
    · exact .left (occursIn_of_mem_columns left hleft)
    · exact .right (occursIn_of_mem_columns right hright)
  | .column d, h => by
    rw [columns_column] at h
    obtain rfl := List.mem_singleton.1 h
    exact .column
  | .literal _, h => by
    rw [columns_literal] at h
    cases h
  | .call name args distinct, h => by
    rw [columns_call] at h
    obtain ⟨e, he, hoccurs⟩ := exists_occursIn_of_mem_columns args h
    exact .argument he hoccurs
  | .membership tested values, h => by
    rw [columns_membership] at h
    rcases List.mem_cons.1 h with rfl | hvalues
    · exact .tested
    · obtain ⟨e, he, hoccurs⟩ := exists_occursIn_of_mem_columns values hvalues
      exact .value he hoccurs
  | .star, h => by
    rw [columns_star] at h
    cases h

/-- Each column of a list of expressions stands in one of them. -/
theorem exists_occursIn_of_mem_columns {c : ColumnRef} :
    ∀ es : List Expr, c ∈ es.flatMap columns → ∃ e ∈ es, c.OccursIn e
  | [], h => by cases h
  | e :: rest, h => by
    rw [List.flatMap_cons] at h
    rcases List.mem_append.1 h with hfirst | hrest
    · exact ⟨e, List.mem_cons_self, occursIn_of_mem_columns e hfirst⟩
    · obtain ⟨d, hd, hoccurs⟩ := exists_occursIn_of_mem_columns rest hrest
      exact ⟨d, List.mem_cons_of_mem _ hd, hoccurs⟩

end

/-- **The columns of an expression are those that occur in it.** -/
theorem mem_columns_iff {c : ColumnRef} {e : Expr} : c ∈ e.columns ↔ c.OccursIn e :=
  ⟨occursIn_of_mem_columns e, mem_columns_of_occursIn⟩

/-- A chain that is built from expressions names the columns that they name. -/
theorem occursIn_chain? {c : ColumnRef} {op : BinaryOp} {es : List Expr} {e : Expr}
    (h : chain? op es = some e) : c.OccursIn e ↔ ∃ d ∈ es, c.OccursIn d := by
  rw [← mem_columns_iff, columns_chain? h, List.mem_flatMap]
  simp only [mem_columns_iff]

end Expr

namespace Select

/-- The expressions of a statement, clause by clause. -/
theorem mem_expressions_iff {s : Select} {e : Expr} :
    e ∈ s.expressions ↔ e ∈ s.items ∨ (∃ t ∈ s.tables, t.condition = some e) ∨
      s.filter = some e ∨ e ∈ s.groupBy ∨ s.having = some e ∨
      ∃ item ∈ s.orderBy, item.expr = e := by
  simp [expressions, conditions]

/-- A statement uses the columns of its join conditions. -/
theorem uses_of_condition {s : Select} {c : ColumnRef} {e : Expr} (he : e ∈ s.conditions)
    (h : c.OccursIn e) : s.Uses c := by
  obtain ⟨t, ht, hcondition⟩ := List.mem_filterMap.1 he
  exact .join ht hcondition h

/-- **The columns of a statement are those that it uses.** -/
theorem mem_columns_iff {s : Select} {c : ColumnRef} : c ∈ s.columns ↔ s.Uses c := by
  have hclauses : c ∈ s.columns ↔ ∃ e ∈ s.expressions, c.OccursIn e := by
    simp only [columns, List.mem_flatMap, Expr.mem_columns_iff]
  rw [hclauses]
  constructor
  · rintro ⟨e, he, h⟩
    rcases mem_expressions_iff.1 he with
      hitem | ⟨t, ht, hjoin⟩ | hfilter | hgroup | hhaving | ⟨item, hitem, rfl⟩
    · exact .item hitem h
    · exact .join ht hjoin h
    · exact .filter hfilter h
    · exact .group hgroup h
    · exact .having hhaving h
    · exact .order hitem h
  · rintro (⟨he, h⟩ | ⟨ht, he, h⟩ | ⟨he, h⟩ | ⟨he, h⟩ | ⟨he, h⟩ | ⟨hitem, h⟩)
    · exact ⟨_, mem_expressions_iff.2 (.inl he), h⟩
    · exact ⟨_, mem_expressions_iff.2 (.inr (.inl ⟨_, ht, he⟩)), h⟩
    · exact ⟨_, mem_expressions_iff.2 (.inr (.inr (.inl he))), h⟩
    · exact ⟨_, mem_expressions_iff.2 (.inr (.inr (.inr (.inl he)))), h⟩
    · exact ⟨_, mem_expressions_iff.2 (.inr (.inr (.inr (.inr (.inl he))))), h⟩
    · exact ⟨_, mem_expressions_iff.2 (.inr (.inr (.inr (.inr (.inr ⟨_, hitem, rfl⟩))))), h⟩

end Select

end QuerySplit
