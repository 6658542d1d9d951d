import QuerySplit.Proofs.Binding
import QuerySplit.Proofs.JoinedRows
import QuerySplit.Proofs.Recognition

/-!
# A split loses no row

The subquery of a split stands in for the federated table in the original query, so it has to
keep every federated row that the query would use. It does so when it is made, because the
conjuncts it takes over read the federated row alone, and it still does after any number of binds,
as long as each call is given the values of all rows that the dimension's filter admits
(`federated_row_kept`).
-/

set_option autoImplicit false

namespace QuerySplit

variable {V : Type}

/-- The condition as an expression over the columns of its dimension. -/
def FilterCondition.expr (c : FilterCondition) : Expr :=
  .binary (.column ⟨none, c.column⟩) c.op (.literal c.value)

/-- The row meets every condition under which values are fetched. -/
def DimensionFilter.Admits (f : DimensionFilter) (I : Interpretation V) (row : Row V) : Prop :=
  ∀ c ∈ f.conditions, c.expr.IsTrue I row.read

instance (f : DimensionFilter) (I : Interpretation V) (row : Row V) : Decidable (f.Admits I row) :=
  inferInstanceAs (Decidable (∀ c ∈ f.conditions, c.expr.IsTrue I row.read))

namespace Split

/-! ## Binding values -/

/-- The values of a call include, as literals, that of the join column in every row that the
addressed filter admits. -/
def Covers (split : Split) (I : Interpretation V) (db : Database V) (name : String)
    (values : List Expr) : Prop :=
  ∀ (i : Nat) (f : DimensionFilter) (j : DimensionJoin), split.filterFor? name = some f →
    split.filters[i]? = some f → split.federated.joins[i]? = some j →
    ∀ row, db j.table row → f.Admits I row →
      ∃ v, .literal v ∈ values ∧ I.literal v = row j.dimensionColumn

/-- What calls need to cover is fixed by the analysis: binding changes the subquery alone. -/
theorem covers_congr {split other : Split} (hfilters : split.filters = other.filters)
    (hfederated : split.federated = other.federated) {I : Interpretation V} {db : Database V}
    {name : String} {values : List Expr} :
    split.Covers I db name values ↔ other.Covers I db name values := by
  rw [Covers, Covers, filterFor?, filterFor?, hfilters, hfederated]

/-- The row satisfies the `WHERE` clause of the subquery, if there is one. -/
def Keeps (split : Split) (I : Interpretation V) (row : Row V) : Prop :=
  ∀ e ∈ split.subquery.filter, e.IsTrue I row.read

instance (split : Split) (I : Interpretation V) (row : Row V) : Decidable (split.Keeps I row) :=
  inferInstanceAs (Decidable (∀ e ∈ split.subquery.filter, e.IsTrue I row.read))

/-- A further condition on the subquery is one more condition on its rows. -/
theorem keeps_restrict_iff {I : Interpretation V} (hand : I.KleeneAnd) {split : Split}
    {row : Row V} {condition : Expr} :
    { split with subquery := restrict split.subquery condition }.Keeps I row ↔
      split.Keeps I row ∧ condition.IsTrue I row.read := by
  obtain ⟨e, he⟩ : ∃ e, (restrict split.subquery condition).filter = some e :=
    ⟨_, by rw [restrict_eq]⟩
  have htrue := Expr.isTrue_conjunction row.read hand he
  rw [List.forall_mem_append, List.forall_mem_singleton] at htrue
  constructor
  · intro hkeeps
    obtain ⟨hold, hnew⟩ := htrue.1 (hkeeps e he)
    exact ⟨fun d hd => hold d (Option.mem_toList.2 hd), hnew⟩
  · rintro ⟨hkeeps, hnew⟩ e' he'
    rw [he] at he'
    cases he'
    exact htrue.2 ⟨fun d hd => hkeeps d (Option.mem_toList.1 hd), hnew⟩

/-- The invariant of binding: the subquery keeps the row, and each filter admits a row of its
dimension that has the value of the federated column in the column of the join. -/
structure Sound (split : Split) (I : Interpretation V) (db : Database V) (row : Row V) : Prop where
  keeps : split.Keeps I row
  matched : ∀ f ∈ split.filters, ∃ (i : Nat) (j : DimensionJoin),
    split.filters[i]? = some f ∧ split.federated.joins[i]? = some j ∧
    ∃ other, db j.table other ∧ f.Admits I other ∧
      other j.dimensionColumn = row f.federatedColumn ∧
      I.equal (row f.federatedColumn) (row f.federatedColumn) = .holds

/-- **A bind keeps the row** when its values cover the dimension. -/
theorem Sound.bind {I : Interpretation V} (hand : I.KleeneAnd) {split bound : Split}
    {db : Database V} {row : Row V} (hsound : split.Sound I db row) {name : String}
    {values : List Expr} (hbound : split.bind? name values = some bound)
    (hcovers : split.Covers I db name values) : bound.Sound I db row := by
  obtain ⟨f, hf, rfl⟩ := bind?_eq_some hbound
  obtain ⟨i, j, hfilter, hjoin, other, hother, hadmits, hsame, hequal⟩ :=
    hsound.matched f (mem_filters_of_filterFor? hf)
  obtain ⟨v, hv, hvalue⟩ := hcovers i f j hf hfilter hjoin other hother hadmits
  have hmember : (Expr.membership ⟨none, f.federatedColumn⟩ values).IsTrue I row.read := by
    refine (Expr.isTrue_membership I row.read _ values).2 ⟨.literal v, hv, ?_⟩
    show I.equal (row f.federatedColumn) (I.literal v) = .holds
    rw [hvalue, hsame]
    exact hequal
  exact ⟨(keeps_restrict_iff hand).2 ⟨hsound.keeps, hmember⟩, hsound.matched⟩

/-- **A run of binds keeps the row** when every call that binds something covers its dimension. -/
theorem Sound.bindAll {I : Interpretation V} (hand : I.KleeneAnd) {split : Split}
    {db : Database V} {row : Row V} (hsound : split.Sound I db row)
    {calls : List (String × List Expr)}
    (hcovers : ∀ call ∈ calls, (split.bind? call.1 call.2).isSome = true →
      split.Covers I db call.1 call.2) : (split.bindAll calls).Sound I db row := by
  induction calls generalizing split with
  | nil => exact hsound
  | cons call rest ih =>
    rw [List.forall_mem_cons] at hcovers
    show (((split.bind? call.1 call.2).getD split).bindAll rest).Sound I db row
    cases hbound : split.bind? call.1 call.2 with
    | none => exact ih hsound hcovers.2
    | some bound =>
      have hcall : split.Covers I db call.1 call.2 := hcovers.1 (by rw [hbound]; rfl)
      obtain ⟨f, hf, heq⟩ := bind?_eq_some hbound
      have hfilters : bound.filters = split.filters := by rw [heq]
      have hfederated : bound.federated = split.federated := by rw [heq]
      rw [Option.getD_some]
      refine ih (hsound.bind hand hbound hcall) fun other hother hsome => ?_
      rw [isSome_bind?_congr hfilters] at hsome
      exact (covers_congr hfilters hfederated).2 (hcovers.2 other hother hsome)

end Split

/-! ## Rows that the statement keeps -/

section Rows

variable {I : Interpretation V} {s : Select} (hunambiguous : s.Unambiguous) {g : JoinedRows V}
include hunambiguous

/-- An equality between columns of two sources compares the values in their rows, in whichever
order it is written. -/
theorem isTrue_iff_of_equatedIn (hstrict : I.StrictEq) {sides : JoinSides} {e : Expr}
    (hequated : sides.EquatedIn e) (he : e ∈ s.conditions) {i k : Nat} {t dimension : TableRef}
    (ht : s.tables[i]? = some t) (howns : t.owns sides.federated = true)
    (hdimension : s.tables[k]? = some dimension)
    (hdimensionOwns : dimension.owns sides.dimension = true) :
    e.IsTrue I (g.read s.tables) ↔
      I.equal (g.row i sides.federated.column) (g.row k sides.dimension.column) = .holds := by
  obtain ⟨hfederatedColumn, hdimensionColumn⟩ := hequated.mem_columns
  have hleft : g.read s.tables sides.federated = g.row i sides.federated.column :=
    g.read_of_owns hunambiguous (Select.mem_columns_of_condition he hfederatedColumn) ht howns
  have hright : g.read s.tables sides.dimension = g.row k sides.dimension.column :=
    g.read_of_owns hunambiguous (Select.mem_columns_of_condition he hdimensionColumn) hdimension
      hdimensionOwns
  rw [← hleft, ← hright]
  rcases hequated with rfl | rfl
  · rfl
  · rw [hstrict.equal_comm]
    rfl

variable (hfilter : ∀ e ∈ s.filter, e.IsTrue I (g.read s.tables))
include hfilter

/-- A conjunct of the `WHERE` clause holds of a row by itself when its columns belong to it. -/
theorem isTrue_conjunct_of_owns (hand : I.KleeneAnd) {k : Nat} {t : TableRef}
    (ht : s.tables[k]? = some t) {condition d : Expr} (hcondition : condition ∈ s.filter)
    (hd : d ∈ condition.conjuncts) (howns : ∀ c ∈ d.columns, t.owns c = true) :
    d.IsTrue I (g.row k).read := by
  have htrue : d.IsTrue I (g.read s.tables) :=
    (Expr.isTrue_iff_conjuncts _ hand condition).1 (hfilter condition hcondition) d hd
  have hvalue : d.eval I (g.read s.tables) = d.eval I (g.row k).read := by
    refine Expr.eval_congr I d fun c hc => ?_
    have hmem : c ∈ s.columns :=
      Select.mem_columns_of_filter hcondition (Expr.mem_columns_of_conjunct hd hc)
    exact g.read_of_owns hunambiguous hmem ht (howns c hc)
  rw [Expr.IsTrue, Expr.truth, ← hvalue]
  exact htrue

/-- The row of a source meets the conditions that the `WHERE` clause states for the source. -/
theorem isTrue_of_mem_conditionsOf (hand : I.KleeneAnd) {k : Nat} {t : TableRef}
    (ht : s.tables[k]? = some t) {c : FilterCondition} (hc : c ∈ s.conditionsOf t) :
    c.expr.IsTrue I (g.row k).read := by
  obtain ⟨condition, hcondition, d, hd, hstates⟩ :=
    Select.exists_conjunct_of_mem_conditionsOf hc
  obtain ⟨col, rfl, hcolumn, howns⟩ := Select.conditionOf?_eq_some hstates
  have hcolumns : ∀ c' ∈ (Expr.binary (.column col) c.op (.literal c.value)).columns,
      t.owns c' = true := by
    simpa using howns
  have htrue := isTrue_conjunct_of_owns hunambiguous hfilter hand ht hcondition hd hcolumns
  have hread : (g.row k).read col = (g.row k).read ⟨none, c.column⟩ := by
    rw [Row.read, Row.read, hcolumn]
  simpa only [FilterCondition.expr, Expr.IsTrue, Expr.truth, Expr.eval, hread] using htrue

/-- **The subquery keeps the federated row** before anything is bound. -/
theorem isTrue_of_mem_pushedConjuncts (hand : I.KleeneAnd) {f : FederatedTable} {t : TableRef}
    (ht : s.tables[f.position]? = some t) (howns : f.owns = t.owns) {e : Expr}
    (he : e ∈ f.pushedConjuncts s) : e.IsTrue I (g.row f.position).read := by
  obtain ⟨d, hd, rfl⟩ := List.mem_map.1 he
  obtain ⟨hconjunct, htakes⟩ := List.mem_filter.1 hd
  cases hcondition : s.filter with
  | none =>
    rw [hcondition] at hconjunct
    cases hconjunct
  | some condition =>
    rw [hcondition] at hconjunct
    rw [FederatedTable.takesConjunct, Bool.and_eq_true, List.all_eq_true, howns] at htakes
    have htrue := isTrue_conjunct_of_owns hunambiguous hfilter hand ht hcondition hconjunct
      htakes.2
    rw [Expr.IsTrue, Expr.truth, Expr.eval_unqualified]
    exact htrue

/-- The subquery that an analysis makes keeps the federated row. -/
theorem keeps_analyze? (hand : I.KleeneAnd) {n : Naming} {split : Split}
    (hsplit : Split.analyze? n s = some split) :
    split.Keeps I (g.row split.federated.position) := by
  obtain ⟨t, ht, howns, -, -, hsubquery⟩ := Split.analyze?_eq_some hsplit
  intro e he
  rw [hsubquery] at he
  refine (Expr.isTrue_conjunction _ hand he).2 fun d hd => ?_
  exact isTrue_of_mem_pushedConjuncts hunambiguous hfilter hand ht howns hd

end Rows

section Soundness

variable {I : Interpretation V} {s : Select} (hunambiguous : s.Unambiguous)
  {g : JoinedRows V} (hsatisfies : g.Satisfies I s)
include hunambiguous hsatisfies

/-- **A dimension has a row that its filter admits and that agrees with the federated row** on
the two columns of the join, with a value that equals itself. -/
theorem exists_dimension_row (hand : I.KleeneAnd) (hstrict : I.StrictEq)
    (hqualified : s.QualifiedJoins) {db : Database V} (hfrom : g.From db s) {f : FederatedTable}
    {t : TableRef} (ht : s.tables[f.position]? = some t) (howns : f.owns = t.owns)
    {j : DimensionJoin} (hj : j ∈ s.dimensionJoins f) :
    ∃ row, db j.table row ∧ (j.filter s).Admits I row ∧
      row j.dimensionColumn = g.row f.position j.federatedColumn ∧
      I.equal (g.row f.position j.federatedColumn) (g.row f.position j.federatedColumn) =
        .holds := by
  obtain ⟨k, dimension, -, hdimension, htable, halias, sides, hfederatedColumn, hdimensionColumn,
    hfederatedOwns, hdimensionOwns, e, he, hequated⟩ := Select.mem_dimensionJoins hqualified hj
  have hequal : I.equal (g.row f.position j.federatedColumn) (g.row k j.dimensionColumn) =
      .holds := by
    rw [hfederatedColumn, hdimensionColumn]
    exact (isTrue_iff_of_equatedIn hunambiguous hstrict hequated he ht (howns ▸ hfederatedOwns)
      hdimension hdimensionOwns).1 (hsatisfies.joins e he)
  have hsame := (hstrict _ _ hequal).1
  refine ⟨g.row k, htable ▸ hfrom k dimension hdimension, ?_, hsame.symm, hsame.symm ▸ hequal⟩
  intro c hc
  rw [Select.conditions_filter hdimension htable halias] at hc
  exact isTrue_of_mem_conditionsOf hunambiguous hsatisfies.filter hand hdimension hc

/-- What the analysis finds is sound for the federated row. -/
theorem sound_analyze? (hand : I.KleeneAnd) (hstrict : I.StrictEq)
    (hqualified : s.QualifiedJoins) {db : Database V} (hfrom : g.From db s) {n : Naming}
    {split : Split} (hsplit : Split.analyze? n s = some split) :
    split.Sound I db (g.row split.federated.position) := by
  obtain ⟨t, ht, howns, hjoins, hfilters, -⟩ := Split.analyze?_eq_some hsplit
  refine ⟨keeps_analyze? hunambiguous hsatisfies.filter hand hsplit, fun f hf => ?_⟩
  obtain ⟨i, hi⟩ := List.getElem?_of_mem hf
  rw [hfilters, List.getElem?_map] at hi
  obtain ⟨j, hj, rfl⟩ := Option.map_eq_some_iff.1 hi
  have hmem : j ∈ s.dimensionJoins split.federated := hjoins ▸ List.mem_of_getElem? hj
  obtain ⟨row, hrow, hadmits, hsame, hequal⟩ := exists_dimension_row hunambiguous hsatisfies
    hand hstrict hqualified hfrom ht howns hmem
  refine ⟨i, j, ?_, hj, row, hrow, hadmits, hsame, hequal⟩
  rw [hfilters, List.getElem?_map, hj, Option.map_some]

end Soundness

/-- **A split loses no row of an inner join.** Whenever rows of the sources make every join
condition and the `WHERE` condition true, the federated one of them satisfies the subquery, after
any calls that bind values as long as each that binds some is given all those of its dimension.

`AND` is Kleene's and `=` holds of equal values other than NULL only; calls and the other operators
may mean anything. -/
theorem federated_row_kept {I : Interpretation V} (hand : I.KleeneAnd) (hstrict : I.StrictEq)
    {n : Naming} {s : Select} {split : Split} (hsplit : Split.analyze? n s = some split)
    (hqualified : s.QualifiedJoins) (hunambiguous : s.Unambiguous) {db : Database V}
    {g : JoinedRows V} (hfrom : g.From db s) (hsatisfies : g.Satisfies I s)
    {calls : List (String × List Expr)}
    (hcovers : ∀ call ∈ calls, (split.bind? call.1 call.2).isSome = true →
      split.Covers I db call.1 call.2) :
    (split.bindAll calls).Keeps I (g.row split.federated.position) := by
  have hsound := sound_analyze? hunambiguous hsatisfies hand hstrict hqualified hfrom hsplit
  exact (hsound.bindAll hand hcovers).keeps

/-! ### One day of impressions -/

/-- The devices that saw an active campaign on one day. -/
def dailyImpressions : Select where
  items := [.column ⟨some "imp", "device"⟩]
  sources := some [
    { name := "events_aqfer.impressions", alias? := some "imp" },
    { name := "campaigns", alias? := some "c", join := .inner
      condition := some (.binary (.column ⟨some "imp", "campaign_id"⟩) .eq
        (.column ⟨some "c", "id"⟩)) }]
  filter := some (.binary
    (.binary (.column ⟨some "c", "status"⟩) .eq (.literal ⟨"active", .string⟩)) .and
    (.binary (.column ⟨some "imp", "event_date"⟩) .eq (.literal ⟨"2024-01-01", .date⟩)))

def impressionRow : Row (Option String)
  | "campaign_id" => some "11"
  | "event_date" => some "2024-01-01"
  | _ => none

def campaignRow (key status : String) : Row (Option String)
  | "id" => some key
  | "status" => some status
  | _ => none

/-- An impression, an active campaign and a paused one. -/
def dailyTables : Database (Option String) := fun name row =>
  (name, row) ∈ [("events_aqfer.impressions", impressionRow),
    ("campaigns", campaignRow "11" "active"), ("campaigns", campaignRow "12" "paused")]

def dailyRows : JoinedRows (Option String) where
  row
    | 0 => impressionRow
    | _ => campaignRow "11" "active"
  elsewhere _ := none

/-- The row of impressions behind a row of the result is kept after the values of its campaign were
bound. -/
theorem federated_row_kept_dailyImpressions :
    dailyImpressions.QualifiedJoins ∧ dailyImpressions.Unambiguous ∧
    dailyRows.From dailyTables dailyImpressions ∧
    dailyRows.Satisfies .textual dailyImpressions ∧
    ∃ split, Split.analyze? {} dailyImpressions = some split ∧
      (split.bind? "c" [.literal ⟨"11", .number⟩]).isSome = true ∧
      split.Covers .textual dailyTables "c" [.literal ⟨"11", .number⟩] ∧
      (split.bindAll [("c", [.literal ⟨"11", .number⟩])]).Keeps .textual
        (dailyRows.row split.federated.position) := by
  have hqualified : dailyImpressions.QualifiedJoins := by decide +kernel
  have hunambiguous : dailyImpressions.Unambiguous := by decide +kernel
  have hfrom : dailyRows.From dailyTables dailyImpressions := by
    intro k t ht
    match k with
    | 0 => cases ht; simp [dailyTables, dailyRows]
    | 1 => cases ht; simp [dailyTables, dailyRows]
    | k + 2 => cases ht
  have hsatisfies : dailyRows.Satisfies .textual dailyImpressions := by
    constructor
    · intro e he
      cases he with
      | head => rfl
      | tail _ he => cases he
    · intro e he
      cases he
      rfl
  obtain ⟨split, hsplit⟩ : ∃ split, Split.analyze? {} dailyImpressions = some split := ⟨_, rfl⟩
  have hcovers : split.Covers .textual dailyTables "c" [.literal ⟨"11", .number⟩] := by
    intro i f j hf hfilter hjoin row hrow hadmits
    cases hsplit
    have htable : j.table ∈ ["campaigns"] := List.mem_map_of_mem (List.mem_of_getElem? hjoin)
    have hcolumn : j.dimensionColumn ∈ ["id"] := List.mem_map_of_mem (List.mem_of_getElem? hjoin)
    have hconditions : f.conditions ∈ [[⟨"status", .eq, ⟨"active", .string⟩⟩]] :=
      List.mem_map_of_mem (List.mem_of_getElem? hfilter)
    rw [List.mem_singleton] at htable hcolumn hconditions
    have hstatus : row "status" = some "active" := by
      have hequal := hadmits ⟨"status", .eq, ⟨"active", .string⟩⟩ (by simp [hconditions])
      exact (Interpretation.textual_strictEq _ _ hequal).1
    rw [htable] at hrow
    rw [hcolumn]
    have hcampaign : row = campaignRow "11" "active" ∨ row = campaignRow "12" "paused" := by
      simpa [dailyTables] using hrow
    have hid : row "id" = some "11" := by
      rcases hcampaign with rfl | rfl
      · rfl
      · exact absurd hstatus (by decide)
    exact ⟨⟨"11", .number⟩, List.mem_singleton_self _, hid.symm⟩
  refine ⟨hqualified, hunambiguous, hfrom, hsatisfies, split, hsplit, ?_, hcovers, ?_⟩
  · cases hsplit
    rfl
  · refine federated_row_kept Interpretation.textual_kleeneAnd Interpretation.textual_strictEq
      hsplit hqualified hunambiguous hfrom hsatisfies fun call hcall _ => ?_
    rw [List.mem_singleton.1 hcall]
    exact hcovers

end QuerySplit
