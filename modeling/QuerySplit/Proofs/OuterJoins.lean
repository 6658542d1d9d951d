import Mathlib.Logic.Function.Basic
import QuerySplit.Proofs.SplitSoundness

/-!
# What the subquery keeps of an outer join

An outer join keeps the rows before it where no row of its source matches, with NULLs for the
source. A split does not look at the kind of a join: a dimension restricts the subquery by its
values in either case, as in a semijoin (`Split.Fetched.isTrue_membership_iff`). So a row of the
result may have a federated row that the bound subquery drops
(`federated_row_dropped_advertisedImpressions`).

What the subquery drops is no more than that. A dimension with a condition in the `WHERE` clause is
never NULL in the result, since nothing compares with NULL. The federated row of a row of the
result is kept exactly if every other dimension that was bound has a row of its own there
(`federated_row_kept_iff_matched`).
-/

set_option autoImplicit false

namespace QuerySplit

variable {V : Type}

namespace Interpretation

/-- No comparison of NULL with a value is true. -/
def RejectsNull (I : Interpretation V) : Prop :=
  ∀ (op : BinaryOp) (b : V), op.isComparison = true → I.truth (I.apply op I.null b) ≠ .holds

/-- No comparison with a missing text is true. -/
theorem textual_rejectsNull : textual.RejectsNull := by
  intro op b hcomparison
  have hunknown : textual.truth (textual.apply op textual.null b) = .unknown := by
    cases op <;> cases hcomparison <;> cases b <;> rfl
  rw [hunknown]
  exact Truth.noConfusion

end Interpretation

/-- Whether a join keeps the rows before it for which its source has no row. -/
def JoinKind.keepsUnmatched : JoinKind → Bool
  | .left | .full => true
  | .none | .inner | .right | .cross => false

/-! ## The rows of a result -/

namespace JoinedRows

/-- The rows with another one in place of that of a source. -/
def withRow (g : JoinedRows V) (k : Nat) (row : Row V) : JoinedRows V :=
  { g with row := Function.update g.row k row }

@[simp]
theorem row_withRow_self (g : JoinedRows V) (k : Nat) (row : Row V) :
    (g.withRow k row).row k = row :=
  Function.update_self ..

theorem row_withRow_of_ne (g : JoinedRows V) {i k : Nat} (h : i ≠ k) (row : Row V) :
    (g.withRow k row).row i = g.row i :=
  Function.update_of_ne h ..

variable (g : JoinedRows V) (I : Interpretation V) (db : Database V) (s : Select)

/-- The source contributes a row of its table, and the condition of its join is true. -/
structure Matched (k : Nat) (t : TableRef) : Prop where
  mem : db t.name (g.row k)
  meets : ∀ e ∈ t.condition, e.IsTrue I (g.read s.tables)

/-- The source contributes NULLs, and no row of its table would do. -/
structure Unmatched (k : Nat) (t : TableRef) : Prop where
  nulls : ∀ column, g.row k column = I.null
  unmatched : ∀ row, ¬ (g.withRow k row).Matched I db s k t

/-- The rows make up a row of the result, one to which the first source contributes. The
conditions read all rows; a condition that names no later source says what it says in SQL. -/
structure InResult : Prop where
  first : ∀ t, s.tables[0]? = some t → g.Matched I db s 0 t
  joined : ∀ k t, k ≠ 0 → s.tables[k]? = some t →
    g.Matched I db s k t ∨ t.join.keepsUnmatched = true ∧ g.Unmatched I db s k t
  filter : ∀ e ∈ s.filter, e.IsTrue I (g.read s.tables)

variable {g I db s}

/-- A joined source that is not unmatched is matched: the result holds no third kind of row. -/
theorem InResult.matched_of_not_unmatched (h : g.InResult I db s) {k : Nat} {t : TableRef}
    (hk : k ≠ 0) (ht : s.tables[k]? = some t) (hnot : ¬ g.Unmatched I db s k t) :
    g.Matched I db s k t :=
  (h.joined k t hk ht).resolve_right fun hright => hnot hright.2

/-- Without outer joins, a row of the result is what makes the conditions true. -/
theorem inResult_iff_satisfies (hinner : ∀ t ∈ s.tables, t.join.keepsUnmatched = false) :
    g.InResult I db s ↔ g.From db s ∧ g.Satisfies I s := by
  constructor
  · intro hresult
    have hmatched : ∀ k t, s.tables[k]? = some t → g.Matched I db s k t := by
      intro k t ht
      obtain rfl | hk := eq_or_ne k 0
      · exact hresult.first t ht
      · rcases hresult.joined k t hk ht with hmatched | ⟨hkeeps, -⟩
        · exact hmatched
        · rw [hinner t (List.mem_of_getElem? ht)] at hkeeps
          cases hkeeps
    refine ⟨fun k t ht => (hmatched k t ht).mem, fun e he => ?_, hresult.filter⟩
    obtain ⟨t, hmem, ht⟩ := List.mem_filterMap.1 he
    obtain ⟨k, hk⟩ := List.getElem?_of_mem hmem
    exact (hmatched k t hk).meets e ht
  · rintro ⟨hfrom, hsatisfies⟩
    have hmatched : ∀ k t, s.tables[k]? = some t → g.Matched I db s k t := fun k t ht =>
      ⟨hfrom k t ht, fun e he => hsatisfies.joins e (Select.mem_conditions ht he)⟩
    exact ⟨hmatched 0, fun k t _ ht => .inl (hmatched k t ht), hsatisfies.filter⟩

end JoinedRows

namespace Split

/-! ## Fetched values -/

/-- The values of a call are literals, and those of the join column in all rows that the addressed
filter admits. -/
def Fetched (split : Split) (I : Interpretation V) (db : Database V) (name : String)
    (values : List Expr) : Prop :=
  ∃ literals : List Literal, values = literals.map .literal ∧
    ∀ (i : Nat) (f : DimensionFilter) (j : DimensionJoin), split.filterFor? name = some f →
      split.filters[i]? = some f → split.federated.joins[i]? = some j →
      ∀ v, v ∈ literals.map I.literal ↔
        ∃ row, db j.table row ∧ f.Admits I row ∧ row j.dimensionColumn = v

/-- **Binding fetched values is a semijoin**: it asks for a row that the filter admits and that
agrees on the columns of the join. -/
theorem Fetched.isTrue_membership_iff {split : Split} {I : Interpretation V} {db : Database V}
    {name : String} {values : List Expr} (hfetched : split.Fetched I db name values)
    {f : DimensionFilter} (hf : split.filterFor? name = some f) {i : Nat} {j : DimensionJoin}
    (hi : split.filters[i]? = some f) (hj : split.federated.joins[i]? = some j) (row : Row V) :
    (Expr.membership ⟨none, f.federatedColumn⟩ values).IsTrue I row.read ↔
      ∃ other, db j.table other ∧ f.Admits I other ∧
        I.equal (row f.federatedColumn) (other j.dimensionColumn) = .holds := by
  obtain ⟨literals, rfl, hliterals⟩ := hfetched
  have hvalues := hliterals i f j hf hi hj
  rw [Expr.isTrue_membership]
  constructor
  · rintro ⟨e, he, hequal⟩
    obtain ⟨v, hv, rfl⟩ := List.mem_map.1 he
    obtain ⟨other, hother, hadmits, hvalue⟩ := (hvalues (I.literal v)).1 (List.mem_map_of_mem hv)
    exact ⟨other, hother, hadmits, hvalue ▸ hequal⟩
  · rintro ⟨other, hother, hadmits, hequal⟩
    obtain ⟨v, hv, hvalue⟩ := List.mem_map.1 ((hvalues _).2 ⟨other, hother, hadmits, rfl⟩)
    rw [← hvalue] at hequal
    exact ⟨.literal v, List.mem_map_of_mem hv, hequal⟩

/-- A call that binds values for a filter allows rows that have one of them in its column. -/
def Allows (split : Split) (I : Interpretation V) (call : String × List Expr) (row : Row V) :
    Prop :=
  (split.bind? call.1 call.2).isSome = true → ∀ f, split.filterFor? call.1 = some f →
    (Expr.membership ⟨none, f.federatedColumn⟩ call.2).IsTrue I row.read

/-- What a call allows depends on the filters alone. -/
theorem allows_congr {split other : Split} (hfilters : split.filters = other.filters)
    {I : Interpretation V} {call : String × List Expr} {row : Row V} :
    split.Allows I call row ↔ other.Allows I call row := by
  rw [Allows, Allows, isSome_bind?_congr hfilters, filterFor?, filterFor?, hfilters]

/-- A refused call restricts nothing. -/
theorem allows_of_bind?_eq_none {split : Split} {call : String × List Expr}
    (h : split.bind? call.1 call.2 = none) (I : Interpretation V) (row : Row V) :
    split.Allows I call row := by
  intro hsome
  rw [h] at hsome
  cases hsome

/-- A bind makes the subquery keep those of its rows that the call allows. -/
theorem keeps_of_bind?_eq_some {I : Interpretation V} (hand : I.KleeneAnd) {split bound : Split}
    {call : String × List Expr} (h : split.bind? call.1 call.2 = some bound) {row : Row V} :
    bound.Keeps I row ↔ split.Keeps I row ∧ split.Allows I call row := by
  obtain ⟨f, hf, rfl⟩ := bind?_eq_some h
  have hallows : split.Allows I call row ↔
      (Expr.membership ⟨none, f.federatedColumn⟩ call.2).IsTrue I row.read := by
    simp [Allows, h, hf]
  rw [keeps_restrict_iff hand, hallows]

/-- **After a sequence of calls the subquery keeps what each of them allows.** -/
theorem keeps_bindAll_iff {I : Interpretation V} (hand : I.KleeneAnd) {split : Split}
    {calls : List (String × List Expr)} {row : Row V} :
    (split.bindAll calls).Keeps I row ↔
      split.Keeps I row ∧ ∀ call ∈ calls, split.Allows I call row := by
  induction calls generalizing split with
  | nil => simp [bindAll]
  | cons call rest ih =>
    show (((split.bind? call.1 call.2).getD split).bindAll rest).Keeps I row ↔ _
    rw [List.forall_mem_cons]
    cases hbound : split.bind? call.1 call.2 with
    | none => rw [Option.getD_none, ih, and_iff_right (allows_of_bind?_eq_none hbound I row)]
    | some bound =>
      obtain ⟨f, -, heq⟩ := bind?_eq_some hbound
      have hfilters : bound.filters = split.filters := by rw [heq]
      have hrest : ∀ other, bound.Allows I other row ↔ split.Allows I other row :=
        fun _ => allows_congr hfilters
      rw [Option.getD_some, ih, keeps_of_bind?_eq_some hand hbound, and_assoc]
      simp only [hrest]

end Split

/-! ## Dimensions in the result -/

/-- A source that an equality of columns ties to the federated table stands at one position. -/
theorem Select.position_eq_of_joinSides? {s : Select} (hqualified : s.QualifiedJoins)
    (hunambiguous : s.Unambiguous) {f : FederatedTable} {k : Nat} {t : TableRef}
    (ht : s.tables[k]? = some t) {sides : JoinSides} (hsides : s.joinSides? f t = some sides)
    {i : Nat} {u : TableRef} (hu : s.tables[i]? = some u) (hname : u.name = t.name)
    (halias : u.alias? = t.alias?) : i = k := by
  obtain ⟨e, he, -, howns, hequated⟩ := joinSides?_eq_some hqualified ht hsides
  have hmem : sides.dimension ∈ s.columns := mem_columns_of_condition he hequated.mem_columns.2
  have huowns : u.owns sides.dimension = true := by
    rw [TableRef.owns_congr hname halias]
    exact howns
  exact hunambiguous.position_eq hmem hu ht huowns howns

section Result

variable {I : Interpretation V} {s : Select} (hunambiguous : s.Unambiguous) {db : Database V}
  {g : JoinedRows V} (hresult : g.InResult I db s)
include hunambiguous hresult

/-- **A source with a condition in the `WHERE` clause has a row of its own**: the condition would
not be true of NULLs. -/
theorem matched_of_mem_conditionsOf (hand : I.KleeneAnd) (hrejects : I.RejectsNull) {k : Nat}
    {t : TableRef} (hk : k ≠ 0) (ht : s.tables[k]? = some t) {c : FilterCondition}
    (hc : c ∈ s.conditionsOf t) : g.Matched I db s k t := by
  refine hresult.matched_of_not_unmatched hk ht fun hunmatched => ?_
  obtain ⟨_, _, _, _, hstates⟩ := Select.exists_conjunct_of_mem_conditionsOf hc
  have hcomparison := Select.isComparison_of_conditionOf? hstates
  have htrue : I.truth (I.apply c.op (g.row k c.column) (I.literal c.value)) = .holds :=
    isTrue_of_mem_conditionsOf hunambiguous hresult.filter hand ht hc
  rw [hunmatched.nulls] at htrue
  exact absurd htrue (hrejects c.op _ hcomparison)

section Tied

variable (hstrict : I.StrictEq) (hqualified : s.QualifiedJoins) {f : FederatedTable}
  (hposition : f.position = 0) {federated : TableRef} (hfederated : s.tables[0]? = some federated)
  (howns : f.owns = federated.owns) {k : Nat} {t : TableRef} (hk : k ≠ 0)
  (ht : s.tables[k]? = some t) {sides : JoinSides} (hsides : s.joinSides? f t = some sides)
include hstrict hqualified hposition hfederated howns ht hsides

omit hresult in
/-- The condition that ties a source to the first one compares the values of two columns. -/
theorem exists_condition_isTrue_iff :
    ∃ e, (t.condition = some e ∨ federated.condition = some e) ∧ ∀ rows : JoinedRows V,
      e.IsTrue I (rows.read s.tables) ↔
        I.equal (rows.row 0 sides.federated.column) (rows.row k sides.dimension.column) =
          .holds := by
  obtain ⟨e, hcondition, hattached⟩ := Select.condition_of_joinSides? hsides
  rw [Select.federatedCondition?, hposition, hfederated, Option.bind_some] at hcondition
  have he : e ∈ s.conditions :=
    hcondition.elim (Select.mem_conditions ht) (Select.mem_conditions hfederated)
  obtain ⟨hfederatedOwns, hdimensionOwns, hequated⟩ :=
    Expr.attachedJoinSides?_eq_some (hqualified e he) hattached
  exact ⟨e, hcondition, fun _ => isTrue_iff_of_equatedIn hunambiguous hstrict hequated he
    hfederated (howns ▸ hfederatedOwns) ht hdimensionOwns⟩

/-- The row of a source agrees with the first row on the columns of the join. -/
theorem equal_of_matched (hmatched : g.Matched I db s k t) :
    I.equal (g.row 0 sides.federated.column) (g.row k sides.dimension.column) = .holds := by
  obtain ⟨e, hown | hfirst, htrue⟩ := exists_condition_isTrue_iff hunambiguous hstrict hqualified
    hposition hfederated howns ht hsides
  · exact (htrue g).1 (hmatched.meets e hown)
  · exact (htrue g).1 ((hresult.first federated hfederated).meets e hfirst)

include hk

/-- **A source has a row of its own** if some row of its table agrees with the first row on the
columns of the join. -/
theorem matched_of_equal {row : Row V} (hrow : db t.name row)
    (hequal : I.equal (g.row 0 sides.federated.column) (row sides.dimension.column) = .holds) :
    g.Matched I db s k t := by
  obtain ⟨e, hcondition, htrue⟩ := exists_condition_isTrue_iff hunambiguous hstrict hqualified
    hposition hfederated howns ht hsides
  refine hresult.matched_of_not_unmatched hk ht fun hunmatched => ?_
  rcases hcondition with hown | hfirst
  · -- the row would do in place of the NULLs
    have hmeets : e.IsTrue I ((g.withRow k row).read s.tables) := by
      rw [htrue, g.row_withRow_of_ne hk.symm, g.row_withRow_self]
      exact hequal
    refine absurd ⟨?_, fun e' he' => ?_⟩ (hunmatched.unmatched row)
    · rw [g.row_withRow_self]
      exact hrow
    · cases Option.some.inj (hown.symm.trans he')
      exact hmeets
  · -- the condition is one of the first source, and it is not true of the NULLs
    have hnulls := (htrue g).1 ((hresult.first federated hfederated).meets e hfirst)
    obtain ⟨hsame, hnull⟩ := hstrict _ _ hnulls
    exact absurd (hsame.trans (hunmatched.nulls _)) hnull

end Tied

/-- **What a bind to fetched values asks of the federated row**: that the dimension has a row of its
own, which is no question if there is a condition on it. -/
theorem isTrue_membership_iff_matched (hand : I.KleeneAnd) (hstrict : I.StrictEq)
    (hrejects : I.RejectsNull) (hqualified : s.QualifiedJoins) {n : Naming} {split : Split}
    (hsplit : Split.analyze? n s = some split) (hposition : split.federated.position = 0)
    {name : String} {values : List Expr} (hfetched : split.Fetched I db name values)
    {f : DimensionFilter} (hf : split.filterFor? name = some f) :
    (Expr.membership ⟨none, f.federatedColumn⟩ values).IsTrue I (g.row 0).read ↔
      (f.conditions = [] → ∀ k t, s.tables[k]? = some t → t.name = f.table → t.alias? = f.alias? →
        g.Matched I db s k t) := by
  obtain ⟨federated, hfederated, howns, hjoins, hfilters, -⟩ := Split.analyze?_eq_some hsplit
  obtain ⟨i, hi⟩ := List.getElem?_of_mem (Split.mem_filters_of_filterFor? hf)
  obtain ⟨j, hj, rfl⟩ : ∃ j, split.federated.joins[i]? = some j ∧ j.filter s = f := by
    rw [hfilters, List.getElem?_map] at hi
    exact Option.map_eq_some_iff.1 hi
  obtain ⟨k, t, hk, ht, htable, halias, sides, hsides, hfederatedColumn, hdimensionColumn⟩ :=
    Select.source_of_mem_dimensionJoins (hjoins ▸ List.mem_of_getElem? hj)
  rw [hposition] at hk hfederated
  have hconditions : (j.filter s).conditions = s.conditionsOf t :=
    Select.conditions_filter ht htable halias
  have hcolumn : (j.filter s).federatedColumn = sides.federated.column := hfederatedColumn
  rw [hfetched.isTrue_membership_iff hf hi hj, hcolumn, htable, hdimensionColumn]
  constructor
  · rintro ⟨row, hrow, -, hequal⟩ - k' t' ht' htable' halias'
    -- name and alias pick out one source, for which the fetched row would do
    obtain rfl : k' = k := Select.position_eq_of_joinSides? hqualified hunambiguous ht hsides ht'
      (htable'.trans htable) (halias'.trans halias)
    obtain rfl : t = t' := Option.some.inj (ht.symm.trans ht')
    exact matched_of_equal hunambiguous hresult hstrict hqualified hposition hfederated howns hk ht
      hsides hrow hequal
  · intro hfree
    -- NULLs satisfy no condition, so with one the source has a row without any assumption
    have hmatched : g.Matched I db s k t := by
      cases hstated : s.conditionsOf t with
      | nil => exact hfree (hconditions.trans hstated) k t ht htable.symm halias.symm
      | cons c rest =>
        exact matched_of_mem_conditionsOf hunambiguous hresult hand hrejects hk ht
          (hstated ▸ List.mem_cons_self)
    refine ⟨g.row k, hmatched.mem, fun c hc => ?_, ?_⟩
    · exact isTrue_of_mem_conditionsOf hunambiguous hresult.filter hand ht (hconditions ▸ hc)
    · exact equal_of_matched hunambiguous hresult hstrict hqualified hposition hfederated howns ht
        hsides hmatched

end Result

/-- **What the subquery keeps of an outer join.** The federated table comes first, and the calls
bind all values of their dimensions. Then the federated row of a row of the result satisfies the
subquery if and only if each bound dimension without conditions has a row of its own in it.

The kinds of the joins are free; `AND` is Kleene's, `=` holds of equal values other than NULL only,
and no comparison with NULL is true. -/
theorem federated_row_kept_iff_matched {I : Interpretation V} (hand : I.KleeneAnd)
    (hstrict : I.StrictEq) (hrejects : I.RejectsNull) {n : Naming} {s : Select} {split : Split}
    (hsplit : Split.analyze? n s = some split) (hposition : split.federated.position = 0)
    (hqualified : s.QualifiedJoins) (hunambiguous : s.Unambiguous) {db : Database V}
    {g : JoinedRows V} (hresult : g.InResult I db s) {calls : List (String × List Expr)}
    (hfetched : ∀ call ∈ calls, (split.bind? call.1 call.2).isSome = true →
      split.Fetched I db call.1 call.2) :
    (split.bindAll calls).Keeps I (g.row 0) ↔
      ∀ call ∈ calls, (split.bind? call.1 call.2).isSome = true →
        ∀ f, split.filterFor? call.1 = some f → f.conditions = [] →
          ∀ k t, s.tables[k]? = some t → t.name = f.table → t.alias? = f.alias? →
            g.Matched I db s k t := by
  have hbefore : split.Keeps I (g.row 0) :=
    hposition ▸ keeps_analyze? hunambiguous hresult.filter hand hsplit
  rw [Split.keeps_bindAll_iff hand, and_iff_right hbefore]
  refine forall₃_congr fun call hcall hsome => forall₂_congr fun f hf => ?_
  exact isTrue_membership_iff_matched hunambiguous hresult hand hstrict hrejects hqualified hsplit
    hposition (hfetched call hcall hsome) hf

/-! ### Impressions and their advertisers -/

/-- A database given by its rows. -/
def Database.ofRows (rows : List (String × Row V)) : Database V :=
  fun name row => (name, row) ∈ rows

/-- The values of the join column in the rows that the filter admits. -/
def DimensionFilter.valuesIn (f : DimensionFilter) (I : Interpretation V)
    (rows : List (String × Row V)) (j : DimensionJoin) : List V :=
  (rows.filter fun p => p.1 = j.table ∧ f.Admits I p.2).map fun p => p.2 j.dimensionColumn

/-- The values of a dimension are those in the rows that its filter admits. -/
theorem DimensionFilter.mem_valuesIn {f : DimensionFilter} {I : Interpretation V}
    {rows : List (String × Row V)} {j : DimensionJoin} {v : V} :
    v ∈ f.valuesIn I rows j ↔
      ∃ row, Database.ofRows rows j.table row ∧ f.Admits I row ∧ row j.dimensionColumn = v := by
  simp only [valuesIn, List.mem_map, List.mem_filter, decide_eq_true_eq]
  constructor
  · rintro ⟨⟨name, row⟩, ⟨hrow, rfl, hadmits⟩, rfl⟩
    exact ⟨row, hrow, hadmits, rfl⟩
  · rintro ⟨row, hrow, hadmits, rfl⟩
    exact ⟨(j.table, row), ⟨hrow, rfl, hadmits⟩, rfl⟩

/-- Over a database given by its rows, fetching is a computation. -/
theorem Split.fetched_ofRows {split : Split} {I : Interpretation V} {rows : List (String × Row V)}
    {name : String} {literals : List Literal}
    (h : ∀ p ∈ split.filters.zip split.federated.joins, split.filterFor? name = some p.1 →
      p.1.valuesIn I rows p.2 = literals.map I.literal) :
    split.Fetched I (.ofRows rows) name (literals.map .literal) := by
  refine ⟨literals, rfl, fun i f j hf hi hj v => ?_⟩
  have hmem : (f, j) ∈ split.filters.zip split.federated.joins :=
    List.mem_of_getElem? (List.getElem?_zip_eq_some.2 ⟨hi, hj⟩)
  rw [← h (f, j) hmem hf, DimensionFilter.mem_valuesIn]

/-- The impressions of active campaigns, with the name of the advertiser where it is known. -/
def advertisedImpressions : Select where
  items := [.column ⟨some "imp", "device"⟩, .column ⟨some "a", "name"⟩]
  sources := some [
    { name := "events_aqfer.impressions", alias? := some "imp" },
    { name := "campaigns", alias? := some "c", join := .left
      condition := some (.binary (.column ⟨some "imp", "campaign_id"⟩) .eq
        (.column ⟨some "c", "id"⟩)) },
    { name := "advertisers", alias? := some "a", join := .left
      condition := some (.binary (.column ⟨some "imp", "advertiser_id"⟩) .eq
        (.column ⟨some "a", "id"⟩)) }]
  filter := some (.binary (.column ⟨some "c", "status"⟩) .eq (.literal ⟨"active", .string⟩))

def impressionBy (advertiser : String) : Row (Option String)
  | "campaign_id" => some "11"
  | "advertiser_id" => some advertiser
  | _ => none

def advertiserRow (key : String) : Row (Option String)
  | "id" => some key
  | _ => none

/-- Two impressions; the advertiser of one of them is unknown. -/
def advertisedTables : List (String × Row (Option String)) :=
  [("events_aqfer.impressions", impressionBy "4"), ("events_aqfer.impressions", impressionBy "9"),
    ("campaigns", campaignRow "11" "active"), ("campaigns", campaignRow "12" "paused"),
    ("advertisers", advertiserRow "4")]

/-- An impression with its campaign and a row for its advertiser. -/
def advertisedRows (advertiser : String) (row : Row (Option String)) :
    JoinedRows (Option String) where
  row
    | 0 => impressionBy advertiser
    | 1 => campaignRow "11" "active"
    | _ => row
  elsewhere _ := none

/-- The calls that bind the values of both dimensions. -/
def advertisedCalls : List (String × List Expr) :=
  [("c", [⟨"11", .number⟩].map .literal), ("a", [⟨"4", .number⟩].map .literal)]

/-- Both calls bind, and each binds the values that its dimension has in the tables. -/
theorem fetched_advertisedCalls {split : Split}
    (hsplit : Split.analyze? {} advertisedImpressions = some split) :
    ∀ call ∈ advertisedCalls, (split.bind? call.1 call.2).isSome = true ∧
      split.Fetched .textual (.ofRows advertisedTables) call.1 call.2 := by
  have hcampaigns : split.Fetched .textual (.ofRows advertisedTables) "c"
      ([⟨"11", .number⟩].map .literal) :=
    Split.fetched_ofRows (by cases hsplit; decide +kernel)
  have hadvertisers : split.Fetched .textual (.ofRows advertisedTables) "a"
      ([⟨"4", .number⟩].map .literal) :=
    Split.fetched_ofRows (by cases hsplit; decide +kernel)
  have hbound : ∀ call ∈ advertisedCalls, (split.bind? call.1 call.2).isSome = true := by
    cases hsplit
    decide +kernel
  intro call hcall
  refine ⟨hbound call hcall, ?_⟩
  rw [advertisedCalls, List.mem_cons, List.mem_singleton] at hcall
  rcases hcall with rfl | rfl
  · exact hcampaigns
  · exact hadvertisers

/-- The advertiser decides whether the rows are one of the result. -/
theorem inResult_advertisedRows {advertiser : String} {row : Row (Option String)}
    (himpression : ("events_aqfer.impressions", impressionBy advertiser) ∈ advertisedTables)
    (hadvertiser : ∀ t, advertisedImpressions.tables[2]? = some t →
      (advertisedRows advertiser row).Matched .textual (.ofRows advertisedTables)
          advertisedImpressions 2 t ∨
        t.join.keepsUnmatched = true ∧
          (advertisedRows advertiser row).Unmatched .textual (.ofRows advertisedTables)
            advertisedImpressions 2 t) :
    (advertisedRows advertiser row).InResult .textual (.ofRows advertisedTables)
      advertisedImpressions := by
  constructor
  · intro t ht
    cases ht
    exact ⟨himpression, fun e he => nomatch he⟩
  · intro k t hk ht
    match k with
    | 1 =>
      cases ht
      refine .inl ⟨by simp [Database.ofRows, advertisedTables, advertisedRows], fun e he => ?_⟩
      cases he
      rfl
    | 2 => exact hadvertiser t ht
    | k + 3 => cases ht
  · intro e he
    cases he
    rfl

/-- The impression of a known advertiser is kept. -/
theorem federated_row_kept_iff_matched_advertisedImpressions :
    advertisedImpressions.QualifiedJoins ∧ advertisedImpressions.Unambiguous ∧
    (advertisedRows "4" (advertiserRow "4")).InResult .textual (.ofRows advertisedTables)
      advertisedImpressions ∧
    ∃ split, Split.analyze? {} advertisedImpressions = some split ∧
      split.federated.position = 0 ∧
      (∀ call ∈ advertisedCalls, (split.bind? call.1 call.2).isSome = true ∧
        split.Fetched .textual (.ofRows advertisedTables) call.1 call.2) ∧
      (split.bindAll advertisedCalls).Keeps .textual (impressionBy "4") := by
  have hqualified : advertisedImpressions.QualifiedJoins := by decide +kernel
  have hunambiguous : advertisedImpressions.Unambiguous := by decide +kernel
  have hmatched : ∀ t, advertisedImpressions.tables[2]? = some t →
      (advertisedRows "4" (advertiserRow "4")).Matched .textual (.ofRows advertisedTables)
        advertisedImpressions 2 t := by
    intro t ht
    cases ht
    refine ⟨by simp [Database.ofRows, advertisedTables, advertisedRows], fun e he => ?_⟩
    cases he
    rfl
  have hresult : (advertisedRows "4" (advertiserRow "4")).InResult .textual
      (.ofRows advertisedTables) advertisedImpressions :=
    inResult_advertisedRows (by simp [advertisedTables]) fun t ht => .inl (hmatched t ht)
  obtain ⟨split, hsplit⟩ : ∃ split, Split.analyze? {} advertisedImpressions = some split :=
    ⟨_, rfl⟩
  have hposition : split.federated.position = 0 := by cases hsplit; rfl
  have hcalls := fetched_advertisedCalls hsplit
  refine ⟨hqualified, hunambiguous, hresult, split, hsplit, hposition, hcalls, ?_⟩
  refine (federated_row_kept_iff_matched Interpretation.textual_kleeneAnd
    Interpretation.textual_strictEq Interpretation.textual_rejectsNull hsplit hposition hqualified
    hunambiguous hresult fun call hcall _ => (hcalls call hcall).2).2 ?_
  -- the campaigns have a condition, so the advertisers are what is left
  have hadvertisers : ∀ f ∈ split.filters, f.conditions = [] → f.table = "advertisers" := by
    cases hsplit
    decide +kernel
  intro call _ _ f hf hfree k t ht hname _
  rw [hadvertisers f (Split.mem_filters_of_filterFor? hf) hfree] at hname
  match k with
  | 0 | 1 =>
    cases ht
    exact absurd hname (by decide)
  | 2 => exact hmatched t ht
  | k + 3 => cases ht

/-- The impression of an unknown advertiser is one of the result and dropped nevertheless, although
all joins are left joins and each dimension is bound to its values. -/
theorem federated_row_dropped_advertisedImpressions :
    advertisedImpressions.QualifiedJoins ∧ advertisedImpressions.Unambiguous ∧
    (∀ t ∈ advertisedImpressions.tables.tail, t.join = .left) ∧
    (advertisedRows "9" fun _ => none).InResult .textual (.ofRows advertisedTables)
      advertisedImpressions ∧
    ∃ split, Split.analyze? {} advertisedImpressions = some split ∧
      split.federated.position = 0 ∧
      (∀ f ∈ split.filters, ∃ call ∈ advertisedCalls, split.filterFor? call.1 = some f) ∧
      (∀ call ∈ advertisedCalls, (split.bind? call.1 call.2).isSome = true ∧
        split.Fetched .textual (.ofRows advertisedTables) call.1 call.2) ∧
      ¬ (split.bindAll advertisedCalls).Keeps .textual (impressionBy "9") := by
  have hunmatched : ∀ t, advertisedImpressions.tables[2]? = some t →
      t.join.keepsUnmatched = true ∧
        (advertisedRows "9" fun _ => none).Unmatched .textual (.ofRows advertisedTables)
          advertisedImpressions 2 t := by
    intro t ht
    cases ht
    refine ⟨rfl, fun _ => rfl, fun row hmatched => ?_⟩
    have hrow : row = advertiserRow "4" := by
      simpa [Database.ofRows, advertisedTables] using hmatched.mem
    subst hrow
    exact absurd (hmatched.meets _ rfl) (by decide +kernel)
  have hresult : (advertisedRows "9" fun _ => none).InResult .textual (.ofRows advertisedTables)
      advertisedImpressions :=
    inResult_advertisedRows (by simp [advertisedTables]) fun t ht => .inr (hunmatched t ht)
  obtain ⟨split, hsplit⟩ : ∃ split, Split.analyze? {} advertisedImpressions = some split :=
    ⟨_, rfl⟩
  refine ⟨by decide +kernel, by decide +kernel, by decide, hresult, split, hsplit, ?_⟩
  refine ⟨by cases hsplit; rfl, ?_, fetched_advertisedCalls hsplit, ?_⟩
  · cases hsplit
    decide +kernel
  · cases hsplit
    decide +kernel

end QuerySplit
