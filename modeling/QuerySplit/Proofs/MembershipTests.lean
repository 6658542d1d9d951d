import QuerySplit.Expr.Build
import QuerySplit.Proofs.ChainOperands
import QuerySplit.Proofs.LeftGrouping

/-!
# The test whether an expression is one of some values

For a column the test is a membership node, for any other expression a chain of equalities. The
alternatives of the chain are these equalities (`alternatives_isOneOf`), so both forms are true
exactly when the expression equals one of the values (`isTrue_isOneOf`).

A chain has at least one member. Without values there is no chain, and the expression itself stands
in for it (`isOneOf_nil`). So a condition that is true is found among no values at all, where a
column never is.

Main statement: `isOneOf_tests_membership`.
-/

set_option autoImplicit false

namespace QuerySplit.Expr

/-- The test on anything but a column. -/
theorem isOneOf_of_column? {e : Expr} (h : e.column? = none) (values : List Expr) :
    e.isOneOf values = (chain? .or (values.map (binary e .eq ·))).getD e := by
  cases e with
  | column c => cases h
  | _ => rfl

/-- Without values, the test for an expression that is no column is the expression itself. -/
theorem isOneOf_nil {e : Expr} (h : e.column? = none) : e.isOneOf [] = e := by
  rw [isOneOf_of_column? h]
  rfl

/-- **The alternatives of the chain are the equalities with the values**, in their order. -/
theorem alternatives_isOneOf {e : Expr} (h : e.column? = none) {values : List Expr}
    (hvalues : values ≠ []) :
    (e.isOneOf values).alternatives = values.map (binary e .eq ·) := by
  have hequalities : ∀ a ∈ values.map (binary e .eq ·), a.isOp .or = false := by
    intro a ha
    obtain ⟨v, -, rfl⟩ := List.mem_map.1 ha
    rfl
  have hread := alternatives_chain?_of_isOp hequalities
  obtain ⟨chain, hchain⟩ : ∃ chain, chain? .or (values.map (binary e .eq ·)) = some chain := by
    refine Option.ne_none_iff_exists'.1 fun hnone => hvalues ?_
    exact List.map_eq_nil_iff.1 (chain?_eq_none_iff.1 hnone)
  rw [hchain] at hread
  rw [isOneOf_of_column? h, hchain, Option.getD_some]
  exact hread

variable {V : Type} (I : Interpretation V) (read : ColumnRef → V)

/-- The expression equals one of the values under an assignment. -/
def EqualsOneOf (e : Expr) (values : List Expr) : Prop :=
  ∃ v ∈ values, I.equal (e.eval I read) (v.eval I read) = .holds

/-- For a column, and for any expression where there are values, the test is true when the
expression equals one of them. -/
theorem isTrue_isOneOf {e : Expr} {values : List Expr} (h : values = [] → e.column? ≠ none) :
    (e.isOneOf values).IsTrue I read ↔ e.EqualsOneOf I read values := by
  cases hcolumn : e.column? with
  | some c =>
    cases e with
    | column c => exact isTrue_membership I read c values
    | _ => cases hcolumn
  | none =>
    have hvalues : values ≠ [] := fun hnil => h hnil hcolumn
    rw [isTrue_iff_alternatives, alternatives_isOneOf hcolumn hvalues]
    constructor
    · rintro ⟨_, ha, htrue⟩
      obtain ⟨v, hv, rfl⟩ := List.mem_map.1 ha
      exact ⟨v, hv, htrue⟩
    · rintro ⟨v, hv, hequal⟩
      exact ⟨_, List.mem_map_of_mem hv, hequal⟩

/-- **The test for membership is one**, but for an empty list of values. Under an assignment it is
true exactly when the expression equals one of the values, unless there are no values and the
expression is none that is a column and is itself true: only there does the test say more. The
alternatives of a chain of equalities are the equalities with the values in their order. -/
theorem isOneOf_tests_membership (e : Expr) (values : List Expr) :
    (((e.isOneOf values).IsTrue I read ↔ e.EqualsOneOf I read values) ↔
      ¬ (values = [] ∧ e.column? = none ∧ e.IsTrue I read)) ∧
    (e.column? = none → values ≠ [] →
      (e.isOneOf values).alternatives = values.map (binary e .eq ·)) := by
  refine ⟨⟨?_, fun hnot => ?_⟩, fun hcolumn hvalues => alternatives_isOneOf hcolumn hvalues⟩
  · rintro htest ⟨rfl, hcolumn, htrue⟩
    rw [isOneOf_nil hcolumn] at htest
    obtain ⟨v, hv, -⟩ := htest.1 htrue
    cases hv
  · by_cases hnone : values = [] ∧ e.column? = none
    · obtain ⟨rfl, hcolumn⟩ := hnone
      rw [isOneOf_nil hcolumn]
      refine iff_of_false (fun htrue => hnot ⟨rfl, hcolumn, htrue⟩) ?_
      rintro ⟨v, hv, -⟩
      cases hv
    · exact isTrue_isOneOf I read fun hnil hcolumn => hnone ⟨hnil, hcolumn⟩

/-- A price with the fee of three. -/
def priceWithFee : Expr :=
  .binary (.column ⟨some "o", "price"⟩) .add (.literal ⟨"3", .number⟩)

/-- Seven, and the fee added to five. -/
def sevenOrEight : List Expr :=
  [.literal ⟨"7", .number⟩, .binary (.literal ⟨"3", .number⟩) .add (.literal ⟨"5", .number⟩)]

/-- A sum is tested for two values: true where it equals one of them, and not true elsewhere. -/
theorem isOneOf_tests_membership_priceWithFee :
    priceWithFee.column? = none ∧ sevenOrEight ≠ [] ∧
      (priceWithFee.isOneOf sevenOrEight).alternatives =
        sevenOrEight.map (binary priceWithFee .eq ·) ∧
      (priceWithFee.isOneOf sevenOrEight).IsTrue .scalars (fun _ => some (.number 5)) ∧
      ¬ (priceWithFee.isOneOf sevenOrEight).IsTrue .scalars (fun _ => some (.number 6)) := by
  have hiff : ∀ read, (priceWithFee.isOneOf sevenOrEight).IsTrue .scalars read ↔
      priceWithFee.EqualsOneOf .scalars read sevenOrEight := fun read =>
    (isOneOf_tests_membership .scalars read priceWithFee sevenOrEight).1.2
      fun h => List.cons_ne_nil _ _ h.1
  refine ⟨rfl, List.cons_ne_nil _ _, ?_, ?_, ?_⟩
  · exact (isOneOf_tests_membership .scalars (fun _ => none) priceWithFee sevenOrEight).2 rfl
      (List.cons_ne_nil _ _)
  · rw [hiff]
    exact ⟨_, List.mem_cons_of_mem _ List.mem_cons_self, by decide +kernel⟩
  · rw [hiff]
    rintro ⟨v, hv, hequal⟩
    revert v
    decide +kernel

/-- The truth value TRUE is found among no values. -/
theorem true_isOneOf_nothing :
    ((literal ⟨"TRUE", .boolean⟩).isOneOf []).alternatives = [literal ⟨"TRUE", .boolean⟩] ∧
      ((literal ⟨"TRUE", .boolean⟩).isOneOf []).IsTrue .textual (fun _ => none) ∧
      ¬ (literal ⟨"TRUE", .boolean⟩).EqualsOneOf .textual (fun _ => none) [] := by
  refine ⟨rfl, by decide, ?_⟩
  rintro ⟨v, hv, -⟩
  cases hv

end QuerySplit.Expr
