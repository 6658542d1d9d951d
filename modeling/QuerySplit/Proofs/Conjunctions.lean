import QuerySplit.Proofs.ChainOperands
import QuerySplit.Proofs.LeftGrouping

/-!
# A conjunction and its conjuncts

Flattening an `AND` chain into its conjuncts forgets the grouping, and folding conjuncts into a
conjunction groups them to the left. The two undo each other up to that grouping, and the grouping
shows nowhere: the text of a chain joins the texts of its conjuncts, with parentheses around the
`OR` chains among them (`operandText_and`), and its truth value is Kleene's conjunction of theirs
(`truth_eq_all_conjuncts`). So expressions with the same conjuncts have the same text and the same
truth value.

Main statement: `conjunction_inverts_conjuncts`.
-/

set_option autoImplicit false

namespace QuerySplit

namespace Truth

/-- The conjunction of a list; the empty one holds. -/
def all : List Truth → Truth
  | [] => .holds
  | t :: rest => t.and (all rest)

/-- What holds can be left out of a conjunction. -/
theorem and_holds (a : Truth) : a.and .holds = a := by
  cases a <;> rfl

/-- The conjunction of two lists in a row is that of their conjunctions. -/
theorem all_append (as bs : List Truth) : all (as ++ bs) = (all as).and (all bs) := by
  induction as with
  | nil => rfl
  | cons a as ih => rw [List.cons_append, all, all, ih, and_assoc]

end Truth

namespace Expr

/-! ## The text -/

/-- A chain below its own operator is written without parentheses. -/
theorem operandText_of_isOp {e : Expr} {op : BinaryOp} (h : e.isOp op = true) :
    e.operandText op = e.text := by
  cases e with
  | binary left o right =>
    obtain rfl : o = op := beq_iff_eq.1 h
    exact operandText_of_level_eq rfl
  | _ => cases h

/-- Below an `AND`, an expression shows its conjuncts one after the other. -/
theorem operandText_and (e : Expr) :
    e.operandText .and = " AND ".intercalate (e.conjuncts.map (·.operandText .and)) := by
  fun_induction conjuncts e with
  | case1 left right ihl ihr =>
    have hleft : left.conjuncts.map (·.operandText .and) ≠ [] :=
      List.map_eq_nil_iff.not.2 left.conjuncts_ne_nil
    have hright : right.conjuncts.map (·.operandText .and) ≠ [] :=
      List.map_eq_nil_iff.not.2 right.conjuncts_ne_nil
    have hsymbol : " " ++ BinaryOp.and.symbol ++ " " = " AND " := by decide
    rw [operandText_of_isOp rfl, text_binary, List.map_append,
      String.intercalate_append_of_ne_nil hleft hright, ← ihl, ← ihr, ← hsymbol]
    simp only [String.append_assoc]
  | case2 e _ => rw [List.map_singleton, String.intercalate_singleton]

/-- **The text shows the conjuncts** and not how they are grouped. -/
theorem text_eq_of_conjuncts_eq {a b : Expr} (h : a.conjuncts = b.conjuncts) : a.text = b.text := by
  have hoperands : a.operands .and = b.operands .and := by
    rw [← conjuncts_eq_operands, h, conjuncts_eq_operands]
  rcases eq_or_isOp_of_operands_eq hoperands with rfl | ⟨ha, hb⟩
  · rfl
  · rw [← operandText_of_isOp ha, ← operandText_of_isOp hb, operandText_and, operandText_and, h]

/-! ## The truth value -/

section Value

variable {V : Type} {I : Interpretation V} (read : ColumnRef → V) (hand : I.KleeneAnd)
include hand

/-- The truth value of an `AND` is the conjunction of those of its sides. -/
theorem truth_and (left right : Expr) :
    (binary left .and right).truth I read = (left.truth I read).and (right.truth I read) := by
  rw [truth, eval, hand, I.truth_ofTruth, truth, truth]

/-- The truth value of an `AND` chain does not depend on its grouping. -/
theorem truth_eq_all_conjuncts (e : Expr) :
    e.truth I read = Truth.all (e.conjuncts.map (·.truth I read)) := by
  fun_induction conjuncts e with
  | case1 left right ihl ihr =>
    rw [truth_and read hand, List.map_append, Truth.all_append, ← ihl, ← ihr]
  | case2 e _ => rw [List.map_singleton, Truth.all, Truth.all, Truth.and_holds]

/-- Expressions with the same conjuncts have the same truth value. -/
theorem truth_eq_of_conjuncts_eq {a b : Expr} (h : a.conjuncts = b.conjuncts) :
    a.truth I read = b.truth I read := by
  rw [truth_eq_all_conjuncts read hand, truth_eq_all_conjuncts read hand, h]

end Value

/-! ## Flattening and folding -/

/-- The conjuncts of an expression fold to an expression with these conjuncts. -/
theorem exists_conjunction?_conjuncts (e : Expr) :
    ∃ e', conjunction? e.conjuncts = some e' ∧ e'.conjuncts = e.conjuncts := by
  obtain ⟨e', he'⟩ : ∃ e', conjunction? e.conjuncts = some e' :=
    Option.ne_none_iff_exists'.1 (conjunction?_eq_none_iff.not.2 e.conjuncts_ne_nil)
  have hconjuncts : ((conjunction? e.conjuncts).map conjuncts).getD [] = e.conjuncts :=
    conjuncts_conjunction?_of_isOp fun d hd => isOp_of_mem_conjuncts hd
  rw [he'] at hconjuncts
  exact ⟨e', he', hconjuncts⟩

/-- **Folding and flattening undo each other.** The conjuncts of a conjunction are those of its
members, so they are the members where no member is an `AND` chain; only the empty list has no
conjunction. The conjuncts of an expression are no `AND` chains, and their conjunction has them as
its conjuncts again, with the same text and, where `AND` is Kleene's, the same truth value under
every assignment. -/
theorem conjunction_inverts_conjuncts :
    (∀ es : List Expr, (conjunction? es = none ↔ es = []) ∧
      ((conjunction? es).map conjuncts).getD [] = es.flatMap conjuncts ∧
      ((∀ e ∈ es, e.isOp .and = false) → ((conjunction? es).map conjuncts).getD [] = es)) ∧
    ∀ e : Expr, (∀ d ∈ e.conjuncts, d.isOp .and = false) ∧
      ∃ e', conjunction? e.conjuncts = some e' ∧ e'.conjuncts = e.conjuncts ∧
        (∀ {V : Type} {I : Interpretation V}, I.KleeneAnd → ∀ read : ColumnRef → V,
          e'.truth I read = e.truth I read) ∧
        e'.text = e.text := by
  constructor
  · exact fun es =>
      ⟨conjunction?_eq_none_iff, conjuncts_conjunction? es, conjuncts_conjunction?_of_isOp⟩
  · intro e
    obtain ⟨e', he', hconjuncts⟩ := e.exists_conjunction?_conjuncts
    exact ⟨fun d hd => isOp_of_mem_conjuncts hd, e', he', hconjuncts,
      fun hand read => truth_eq_of_conjuncts_eq read hand hconjuncts,
      text_eq_of_conjuncts_eq hconjuncts⟩

/-- An `AND` chain that is grouped to the right, with an `OR` chain in front. -/
def activeOrNewInRegion : Expr :=
  .binary
    (.binary (.binary (.column ⟨none, "active"⟩) .eq (.literal ⟨"TRUE", .boolean⟩)) .or
      (.binary (.column ⟨none, "age"⟩) .lt (.literal ⟨"7", .number⟩))) .and
    (.binary (.binary (.column ⟨none, "region"⟩) .eq (.literal ⟨"NA", .string⟩)) .and
      (.binary (.column ⟨none, "plan"⟩) .eq (.literal ⟨"pro", .string⟩)))

/-- The conjunction is grouped to the left, and neither the text nor the truth value tells. -/
theorem conjunction_inverts_conjuncts_activeOrNewInRegion :
    ∃ e', conjunction? activeOrNewInRegion.conjuncts = some e' ∧ e' ≠ activeOrNewInRegion ∧
      (conjunction? activeOrNewInRegion.conjuncts).map conjuncts =
        some activeOrNewInRegion.conjuncts ∧
      e'.text = "(active = TRUE OR age < 7) AND region = 'NA' AND plan = 'pro'" ∧
      (∀ read, e'.truth .textual read = activeOrNewInRegion.truth .textual read) := by
  obtain ⟨hlists, hexprs⟩ := conjunction_inverts_conjuncts
  obtain ⟨hleaves, e', he', -, htruth, htext⟩ := hexprs activeOrNewInRegion
  have hback := (hlists activeOrNewInRegion.conjuncts).2.2 hleaves
  rw [he'] at hback
  refine ⟨e', he', ?_, ?_, ?_, htruth Interpretation.textual_kleeneAnd⟩
  · cases he'
    decide
  · rw [he', Option.map_some]
    exact congrArg some hback
  · rw [htext]
    decide +kernel

end Expr

end QuerySplit
