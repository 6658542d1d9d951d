import Mathlib.Data.List.Forall2
import QuerySplit.Proofs.ChainOperands
import QuerySplit.Proofs.Columns

/-!
# Expressions without qualifiers

Dropping the qualifiers of an expression goes along with everything that is read off its tree: the
columns, the operands of a chain and the value over a single row, where a qualifier is not asked
for. It changes nothing else. What an expression can become when qualifiers alone change is a
relation of its own (`SameButQualifiers`), and of all that an expression is related to, the one
without qualifiers is the only one whose columns have none (`eq_unqualified_iff`).

Main statement: `unqualified_drops_qualifiers_only`.
-/

set_option autoImplicit false

namespace QuerySplit.Expr

theorem unqualifiedList_eq_map (es : List Expr) : unqualifiedList es = es.map unqualified := by
  induction es with
  | nil => rfl
  | cons e rest ih => rw [unqualifiedList, ih, List.map_cons]

/-! ## Chains -/

theorem isOp_unqualified (op : BinaryOp) (e : Expr) : e.unqualified.isOp op = e.isOp op := by
  cases e <;> rfl

/-- The operands of a chain without qualifiers are those of the chain, without qualifiers. -/
theorem operands_unqualified (op : BinaryOp) (e : Expr) :
    e.unqualified.operands op = (e.operands op).map unqualified := by
  have hself : ∀ d : Expr, d.isOp op = false → d.unqualified.operands op = [d.unqualified] :=
    fun d hd => operands_of_isOp (by rw [isOp_unqualified, hd])
  fun_induction operands op e with
  | case1 left right ihl ihr => rw [unqualified, operands_binary, ihl, ihr, List.map_append]
  | case2 left o right hother => exact hself _ (beq_eq_false_iff_ne.2 hother)
  | case3 e hnot => exact hself e (isOp_eq_false fun left right => hnot left op right)

/-- Dropping qualifiers keeps the conjuncts in their order. -/
theorem conjuncts_unqualified (e : Expr) :
    e.unqualified.conjuncts = e.conjuncts.map unqualified := by
  rw [conjuncts_eq_operands, conjuncts_eq_operands, operands_unqualified]

/-- Dropping qualifiers keeps the alternatives in their order. -/
theorem alternatives_unqualified (e : Expr) :
    e.unqualified.alternatives = e.alternatives.map unqualified := by
  rw [alternatives_eq_operands, alternatives_eq_operands, operands_unqualified]

/-! ## What is kept -/

/-- Two expressions differ in the qualifiers of their columns at most. -/
inductive SameButQualifiers : Expr → Expr → Prop
  | binary {left left' right right' : Expr} {op : BinaryOp} (hl : SameButQualifiers left left')
      (hr : SameButQualifiers right right') :
      SameButQualifiers (.binary left op right) (.binary left' op right')
  | column {c c' : ColumnRef} (hc : c'.column = c.column) :
      SameButQualifiers (.column c) (.column c')
  | literal {v : Literal} : SameButQualifiers (.literal v) (.literal v)
  | call {name : String} {args args' : List Expr} {distinct : Bool}
      (ha : List.Forall₂ SameButQualifiers args args') :
      SameButQualifiers (.call name args distinct) (.call name args' distinct)
  | membership {c c' : ColumnRef} {values values' : List Expr} (hc : c'.column = c.column)
      (hv : List.Forall₂ SameButQualifiers values values') :
      SameButQualifiers (.membership c values) (.membership c' values')
  | star : SameButQualifiers .star .star

/-- An expression without its qualifiers differs in nothing else. -/
theorem sameButQualifiers_unqualified (e : Expr) : SameButQualifiers e e.unqualified := by
  induction e using induction_children with
  | h e ih =>
    have hlist : ∀ es : List Expr, (∀ c ∈ es, SameButQualifiers c c.unqualified) →
        List.Forall₂ SameButQualifiers es (unqualifiedList es) := by
      intro es hes
      rw [unqualifiedList_eq_map, List.forall₂_map_right_iff]
      exact List.forall₂_same.2 hes
    cases e with
    | binary left op right =>
      exact .binary (ih left (by simp [children])) (ih right (by simp [children]))
    | column c => exact .column rfl
    | literal v => exact .literal
    | call name args distinct => exact .call (hlist args ih)
    | membership c values => exact .membership rfl (hlist values ih)
    | star => exact .star

/-- Where no column has a qualifier, nothing is left to differ in. -/
theorem SameButQualifiers.eq_unqualified {e d : Expr} (h : SameButQualifiers e d)
    (hnone : ∀ c ∈ d.columns, c.table = none) : d = e.unqualified := by
  -- the relation of two calls holds one of their arguments, so the induction is on the nodes
  induction e using induction_children generalizing d with
  | h e ih =>
    have hcolumn : ∀ c c' : ColumnRef, c'.column = c.column → c'.table = none →
        c' = c.unqualified := by
      rintro c ⟨_, _⟩ rfl rfl
      rfl
    have hlist : ∀ es ds : List Expr, (∀ c ∈ es, c ∈ e.children) →
        List.Forall₂ SameButQualifiers es ds →
        (∀ c ∈ ds.flatMap columns, c.table = none) → ds = unqualifiedList es := by
      intro es ds hes hsame hds
      induction hsame with
      | nil => rfl
      | cons hfirst _ ihrest =>
        obtain ⟨hmem, hrest⟩ := List.forall_mem_cons.1 hes
        rw [List.flatMap_cons, List.forall_mem_append] at hds
        rw [unqualifiedList, ih _ hmem hfirst hds.1, ihrest hrest hds.2]
    cases h with
    | @binary left left' right right' op hl hr =>
      rw [columns_binary, List.forall_mem_append] at hnone
      rw [unqualified, ih left (by simp [children]) hl hnone.1,
        ih right (by simp [children]) hr hnone.2]
    | @column c c' hc =>
      rw [columns_column, List.forall_mem_singleton] at hnone
      rw [unqualified, hcolumn c c' hc hnone]
    | literal => rw [unqualified]
    | @call name args args' distinct ha =>
      rw [columns_call] at hnone
      rw [unqualified, hlist args args' (fun _ => id) ha hnone]
    | @membership c c' values values' hc hv =>
      rw [columns_membership, List.forall_mem_cons] at hnone
      rw [unqualified, hcolumn c c' hc hnone.1, hlist values values' (fun _ => id) hv hnone.2]
    | star => rw [unqualified]

/-- **The expression without qualifiers** is the only one that differs from an expression in
qualifiers at most and has none. -/
theorem eq_unqualified_iff {e d : Expr} :
    d = e.unqualified ↔ SameButQualifiers e d ∧ ∀ c ∈ d.columns, c.table = none := by
  constructor
  · rintro rfl
    refine ⟨sameButQualifiers_unqualified e, fun c hc => ?_⟩
    rw [columns_unqualified] at hc
    obtain ⟨c', -, rfl⟩ := List.mem_map.1 hc
    rfl
  · exact fun h => h.1.eq_unqualified h.2

mutual

/-- What has no qualifiers loses none. -/
theorem unqualified_unqualified : ∀ e : Expr, e.unqualified.unqualified = e.unqualified
  | .binary left op right => by
    rw [unqualified, unqualified, unqualified_unqualified left, unqualified_unqualified right]
  | .column _ => rfl
  | .literal _ => rfl
  | .call name args distinct => by
    rw [unqualified, unqualified, unqualifiedList_unqualifiedList args]
  | .membership c values => by
    rw [unqualified, unqualified, unqualifiedList_unqualifiedList values]
    rfl
  | .star => rfl

theorem unqualifiedList_unqualifiedList :
    ∀ es : List Expr, unqualifiedList (unqualifiedList es) = unqualifiedList es
  | [] => rfl
  | e :: rest => by
    rw [unqualifiedList, unqualifiedList, unqualified_unqualified e,
      unqualifiedList_unqualifiedList rest]

end

/-- **Dropping qualifiers goes along with the structure of an expression** and changes nothing but
qualifiers. The columns, conjuncts and alternatives become those of the expression, in their order
and without qualifiers. A second time nothing changes, and the result is the one expression that
has no qualifiers and differs from the given one in these at most. Where columns are read from one
row, whatever their qualifiers, it has the same value for every row and whatever the forms of an
expression mean. -/
theorem unqualified_drops_qualifiers_only (e : Expr) :
    e.unqualified.columns = e.columns.map ColumnRef.unqualified ∧
    e.unqualified.conjuncts = e.conjuncts.map unqualified ∧
    e.unqualified.alternatives = e.alternatives.map unqualified ∧
    e.unqualified.unqualified = e.unqualified ∧
    (∀ d, d = e.unqualified ↔ SameButQualifiers e d ∧ ∀ c ∈ d.columns, c.table = none) ∧
    ∀ {V : Type} (O : Operations V) (row : String → V),
      (e.unqualified.value O fun c => row c.column) = e.value O fun c => row c.column := by
  refine ⟨columns_unqualified e, conjuncts_unqualified e, alternatives_unqualified e,
    unqualified_unqualified e, fun d => eq_unqualified_iff, fun O row => ?_⟩
  rw [value_unqualified]
  rfl

/-- A condition on the fees of an impression, in all forms that an expression has. -/
def feeCondition (imp other : Option String) : Expr :=
  .binary
    (.binary (.binary (.call "COUNT" [.star] false) .lt (.column ⟨imp, "fee"⟩)) .or
      (.membership ⟨other, "fee"⟩ [.column ⟨imp, "rate"⟩, .literal ⟨"7", .number⟩])) .and
    (.call "IS_SET" [.column ⟨imp, "rate"⟩] true)

/-- Operations on texts that show everything that is read, in written order. -/
def readAloud : Operations String where
  binary op left right := left ++ op.symbol ++ right
  literal v := v.value
  call name args distinct := name ++ (if distinct then "!" else "") ++ ",".intercalate args
  membership v values := v ++ "@" ++ ",".intercalate values
  star := "*"

/-- Without its qualifiers the condition is read aloud as before. -/
theorem unqualified_drops_qualifiers_only_feeCondition :
    SameButQualifiers (feeCondition (some "imp") (some "i")) (feeCondition none none) ∧
      (∀ c ∈ (feeCondition none none).columns, c.table = none) ∧
      feeCondition none none = (feeCondition (some "imp") (some "i")).unqualified ∧
      ((feeCondition (some "imp") (some "i")).unqualified.value readAloud fun c => c.column) =
        "COUNT*<feeORfee@rate,7ANDIS_SET!rate" := by
  obtain ⟨-, -, -, -, hiff, hvalue⟩ :=
    unqualified_drops_qualifiers_only (feeCondition (some "imp") (some "i"))
  have hsame : SameButQualifiers (feeCondition (some "imp") (some "i")) (feeCondition none none) :=
    .binary
      (.binary (.binary (.call (.cons .star .nil)) (.column rfl))
        (.membership rfl (.cons (.column rfl) (.cons .literal .nil))))
      (.call (.cons (.column rfl) .nil))
  have hnone : ∀ c ∈ (feeCondition none none).columns, c.table = none := by decide +kernel
  refine ⟨hsame, hnone, (hiff _).2 ⟨hsame, hnone⟩, ?_⟩
  rw [hvalue readAloud fun name => name]
  decide +kernel

end QuerySplit.Expr
