import QuerySplit.Expr.Chain

/-!
# What an expression means

Expressions are read in three-valued logic. An interpretation fixes the values and what literals,
calls and operators do with them; of the operators it leaves all free but `OR`, which is Kleene's
disjunction of the truth values behind its operands. A membership test is the disjunction of the
equalities of its column with each of its values. The columns come from an assignment.

Whether `AND` is Kleene's conjunction too (`Interpretation.KleeneAnd`) and whether `=` is true of
equal values only (`Interpretation.StrictEq`) are properties that an interpretation may have. What
holds whatever the forms of an expression mean is stated of the `value` under any `Operations`, of
which those of an interpretation are a case (`eval_eq_value`).

Main statements: `eval_or` gives the value of an `OR` chain by its alternatives, however it is
grouped, and `isTrue_iff_conjuncts` says that an expression is true when its conjuncts are.
-/

set_option autoImplicit false

namespace QuerySplit

/-- A truth value of three-valued logic. -/
inductive Truth
  | holds
  | fails
  | unknown
deriving DecidableEq, Repr

namespace Truth

/-- Kleene's conjunction. -/
def and : Truth → Truth → Truth
  | .holds, b => b
  | .fails, _ => .fails
  | .unknown, .fails => .fails
  | .unknown, _ => .unknown

/-- Kleene's disjunction. -/
def or : Truth → Truth → Truth
  | .holds, _ => .holds
  | .fails, b => b
  | .unknown, .holds => .holds
  | .unknown, _ => .unknown

/-- The disjunction of a list; the empty one fails. -/
def any : List Truth → Truth
  | [] => .fails
  | t :: rest => t.or (any rest)

/-- A conjunction holds when both sides do. -/
theorem and_eq_holds {a b : Truth} : a.and b = .holds ↔ a = .holds ∧ b = .holds := by
  cases a <;> cases b <;> decide

/-- A disjunction holds when one side does. -/
theorem or_eq_holds {a b : Truth} : a.or b = .holds ↔ a = .holds ∨ b = .holds := by
  cases a <;> cases b <;> decide

theorem and_assoc (a b c : Truth) : (a.and b).and c = a.and (b.and c) := by
  cases a <;> cases b <;> cases c <;> rfl

theorem or_assoc (a b c : Truth) : (a.or b).or c = a.or (b.or c) := by
  cases a <;> cases b <;> cases c <;> rfl

theorem or_fails (a : Truth) : a.or .fails = a := by
  cases a <;> rfl

/-- The disjunction of two lists in a row is that of their disjunctions. -/
theorem any_append (as bs : List Truth) : any (as ++ bs) = (any as).or (any bs) := by
  induction as with
  | nil => rfl
  | cons a as ih => rw [List.cons_append, any, any, ih, or_assoc]

/-- A disjunction holds when one of the list does; unknown ones do not prevent it. -/
theorem any_eq_holds {ts : List Truth} : any ts = .holds ↔ .holds ∈ ts := by
  induction ts with
  | nil => simp [any]
  | cons t ts ih => rw [any, or_eq_holds, ih, List.mem_cons, eq_comm]

end Truth

/-- Values, and what literals, calls and operators do with them. -/
structure Interpretation (V : Type) where
  null : V
  literal : Literal → V
  call : String → List V → Bool → V
  star : V
  /-- The operators; `OR` is not read from here. -/
  op : BinaryOp → V → V → V
  /-- The truth value behind a value. -/
  truth : V → Truth
  ofTruth : Truth → V
  truth_ofTruth : ∀ t, truth (ofTruth t) = t

namespace Interpretation

variable {V : Type} (I : Interpretation V)

/-- The value of an operator. -/
def apply : BinaryOp → V → V → V
  | .or, a, b => I.ofTruth ((I.truth a).or (I.truth b))
  | op, a, b => I.op op a b

/-- The truth value of an equality. -/
def equal (a b : V) : Truth :=
  I.truth (I.apply .eq a b)

/-- `AND` is Kleene's conjunction of the truth values behind its operands. -/
def KleeneAnd : Prop :=
  ∀ a b, I.apply .and a b = I.ofTruth ((I.truth a).and (I.truth b))

/-- An equality is true of equal values other than NULL only. -/
def StrictEq : Prop :=
  ∀ a b, I.equal a b = .holds → a = b ∧ a ≠ I.null

variable {I} in
/-- Where an equality is true of equal values only, the order of the two plays no part. -/
theorem StrictEq.equal_comm (h : I.StrictEq) {a b : V} :
    I.equal a b = .holds ↔ I.equal b a = .holds := by
  constructor
  · intro hequal
    obtain ⟨rfl, -⟩ := h a b hequal
    exact hequal
  · intro hequal
    obtain ⟨rfl, -⟩ := h b a hequal
    exact hequal

/-! ### Values as texts -/

/-- The truth value that a text spells; NULL and any other text are unknown. -/
def truthOfText : Option String → Truth
  | some "TRUE" => .holds
  | some "FALSE" => .fails
  | _ => .unknown

def textOfTruth : Truth → Option String
  | .holds => some "TRUE"
  | .fails => some "FALSE"
  | .unknown => none

/-- Values are the texts of literals, `none` for NULL. Texts are compared as they are, and what
compares with NULL is NULL; the other operators and calls give NULL. -/
def textual : Interpretation (Option String) where
  null := none
  literal v := if v.kind = .null then none else some v.value
  call _ _ _ := none
  star := none
  op
    | .eq, some a, some b => textOfTruth (if a = b then .holds else .fails)
    | .and, a, b => textOfTruth ((truthOfText a).and (truthOfText b))
    | _, _, _ => none
  truth := truthOfText
  ofTruth := textOfTruth
  truth_ofTruth t := by cases t <;> rfl

theorem textual_kleeneAnd : textual.KleeneAnd :=
  fun _ _ => rfl

/-- Comparing texts is strict: nothing equals a missing value. -/
theorem textual_strictEq : textual.StrictEq := by
  intro a b h
  cases a with
  | none => cases b <;> cases h
  | some a =>
    cases b with
    | none => cases h
    | some b =>
      by_cases hab : a = b
      · exact ⟨congrArg some hab, fun hnull => nomatch hnull⟩
      · have hfails : textual.equal (some a) (some b) = .fails := by
          simp only [equal, apply, textual, if_neg hab]
          rfl
        rw [hfails] at h
        cases h

end Interpretation

/-- What every form of an expression does with values. No law is asked of any of them: `OR` and the
membership test are free too. -/
structure Operations (V : Type) where
  binary : BinaryOp → V → V → V
  literal : Literal → V
  call : String → List V → Bool → V
  membership : V → List V → V
  star : V

/-- The operations of an interpretation. -/
def Interpretation.operations {V : Type} (I : Interpretation V) : Operations V where
  binary := I.apply
  literal := I.literal
  call := I.call
  membership v values := I.ofTruth (Truth.any (values.map (I.equal v)))
  star := I.star

namespace Expr

section Value

variable {V : Type} (O : Operations V) (read : ColumnRef → V)

mutual

/-- The value of an expression under any operations and an assignment of values to columns. -/
def value : Expr → V
  | .binary left op right => O.binary op left.value right.value
  | .column c => read c
  | .literal v => O.literal v
  | .call name args distinct => O.call name (valueList args) distinct
  | .membership c values => O.membership (read c) (valueList values)
  | .star => O.star

def valueList : List Expr → List V
  | [] => []
  | e :: rest => e.value :: valueList rest

end

end Value

variable {V : Type} (I : Interpretation V) (read : ColumnRef → V)

mutual

/-- The value of an expression under an assignment of values to columns. -/
def eval : Expr → V
  | .binary left op right => I.apply op left.eval right.eval
  | .column c => read c
  | .literal v => I.literal v
  | .call name args distinct => I.call name (evalList args) distinct
  | .membership c values =>
    I.ofTruth (Truth.any ((evalList values).map (I.equal (read c))))
  | .star => I.star

def evalList : List Expr → List V
  | [] => []
  | e :: rest => e.eval :: evalList rest

end

/-- The truth value of an expression. -/
def truth (e : Expr) : Truth :=
  I.truth (e.eval I read)

/-- The expression is true: neither false nor unknown. -/
def IsTrue (e : Expr) : Prop :=
  e.truth I read = .holds

instance (e : Expr) : Decidable (e.IsTrue I read) :=
  inferInstanceAs (Decidable (e.truth I read = .holds))

mutual

/-- The value under an interpretation is that under its operations. -/
theorem eval_eq_value : ∀ e : Expr, e.eval I read = e.value I.operations read
  | .binary left op right => by
    rw [eval, value, eval_eq_value left, eval_eq_value right, Interpretation.operations]
  | .column _ => by rw [eval, value]
  | .literal _ => by rw [eval, value, Interpretation.operations]
  | .call name args distinct => by
    rw [eval, value, evalList_eq_valueList args, Interpretation.operations]
  | .membership c values => by
    rw [eval, value, evalList_eq_valueList values, Interpretation.operations]
  | .star => by rw [eval, value, Interpretation.operations]

theorem evalList_eq_valueList :
    ∀ es : List Expr, evalList I read es = valueList I.operations read es
  | [] => rfl
  | e :: rest => by rw [evalList, valueList, eval_eq_value e, evalList_eq_valueList rest]

end

/-- A list is evaluated expression by expression. -/
theorem evalList_eq_map (es : List Expr) : evalList I read es = es.map (·.eval I read) := by
  induction es with
  | nil => rfl
  | cons e rest ih => rw [evalList, ih, List.map_cons]

/-! ## Disjunctions -/

/-- The truth value of an `OR` is the disjunction of those of its sides. -/
theorem truth_or (left right : Expr) :
    (binary left .or right).truth I read = (left.truth I read).or (right.truth I read) := by
  rw [truth, eval, Interpretation.apply, I.truth_ofTruth, truth, truth]

/-- The truth value of an `OR` chain does not depend on its grouping. -/
theorem truth_eq_any_alternatives (e : Expr) :
    e.truth I read = Truth.any (e.alternatives.map (·.truth I read)) := by
  fun_induction alternatives e with
  | case1 left right ihl ihr =>
    rw [truth_or, List.map_append, Truth.any_append, ← ihl, ← ihr]
  | case2 e _ => rw [List.map_singleton, Truth.any, Truth.any, Truth.or_fails]

/-- The value of an `OR` chain by its alternatives. -/
theorem eval_or (left right : Expr) :
    (binary left .or right).eval I read =
      I.ofTruth (Truth.any ((left.alternatives ++ right.alternatives).map (·.truth I read))) := by
  rw [eval, Interpretation.apply, ← truth, ← truth, truth_eq_any_alternatives I read left,
    truth_eq_any_alternatives I read right, List.map_append, Truth.any_append]

/-- A chain is true when one of its alternatives is, however it is grouped. -/
theorem isTrue_iff_alternatives (e : Expr) :
    e.IsTrue I read ↔ ∃ a ∈ e.alternatives, a.IsTrue I read := by
  rw [IsTrue, truth_eq_any_alternatives, Truth.any_eq_holds, List.mem_map]
  rfl

/-- A membership test has the value of the chain of its equalities. -/
theorem eval_membership (c : ColumnRef) (values : List Expr) :
    (membership c values).eval I read =
      I.ofTruth (Truth.any (values.map fun v => (binary (.column c) .eq v).truth I read)) := by
  rw [eval, evalList_eq_map, List.map_map]
  rfl

/-- A membership test is true when the column equals one of the values. -/
theorem isTrue_membership (c : ColumnRef) (values : List Expr) :
    (membership c values).IsTrue I read ↔
      ∃ v ∈ values, (binary (.column c) .eq v).IsTrue I read := by
  rw [IsTrue, truth, eval_membership, I.truth_ofTruth, Truth.any_eq_holds, List.mem_map]
  rfl

/-! ## Conjunctions -/

section Conjunction

variable {I} (hand : I.KleeneAnd)
include hand

/-- An `AND` is true when both sides are. -/
theorem isTrue_and (left right : Expr) :
    (binary left .and right).IsTrue I read ↔ left.IsTrue I read ∧ right.IsTrue I read := by
  rw [IsTrue, truth, eval, hand, I.truth_ofTruth, Truth.and_eq_holds]
  rfl

/-- An expression is true when every conjunct of it is. -/
theorem isTrue_iff_conjuncts (e : Expr) :
    e.IsTrue I read ↔ ∀ d ∈ e.conjuncts, d.IsTrue I read := by
  fun_induction conjuncts e with
  | case1 left right ihl ihr => rw [isTrue_and read hand, ihl, ihr, List.forall_mem_append]
  | case2 e _ => rw [List.forall_mem_singleton]

/-- The conjunction of a list is true when every member is. -/
theorem isTrue_conjunction {es : List Expr} {e : Expr} (h : conjunction? es = some e) :
    e.IsTrue I read ↔ ∀ d ∈ es, d.IsTrue I read := by
  cases es with
  | nil => cases h
  | cons first rest =>
    cases h
    suffices fold : ∀ acc : Expr, (rest.foldl (.binary · .and ·) acc).IsTrue I read ↔
        acc.IsTrue I read ∧ ∀ d ∈ rest, d.IsTrue I read by
      rw [fold, List.forall_mem_cons]
    -- the fold groups to the left, so the accumulator is the conjunction of what came before
    induction rest with
    | nil => simp
    | cons d rest ih =>
      intro acc
      rw [List.foldl_cons, ih, isTrue_and read hand, List.forall_mem_cons, and_assoc]

end Conjunction

end Expr

end QuerySplit
