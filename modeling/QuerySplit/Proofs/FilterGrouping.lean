import QuerySplit.Proofs.Isolation
import QuerySplit.Select.Build

/-!
# The analysis and the grouping of the filter

The analysis reads the `WHERE` clause in two ways. The conditions of the dimensions and the
conjuncts of the subquery are taken from the conjuncts; the columns that the subquery selects are
collected on a walk over the whole tree. The walk meets the columns of a chain in the order of its
conjuncts, so both ways depend on the list of conjuncts alone (`columns_eq`), and not on how an
`AND` chain is grouped.

Main statement: `Split.analyze?_regrouped`.
-/

set_option autoImplicit false

namespace QuerySplit

/-- Two statements that differ at most in how the `AND` chain of the filter is grouped. -/
structure Select.Regrouped (s s' : Select) : Prop where
  rest : s' = { s with filter := s'.filter }
  conjuncts : s'.conjuncts = s.conjuncts

namespace Select

/-- The columns of a statement, with the filter read conjunct by conjunct. -/
theorem columns_eq (s : Select) :
    s.columns = (s.items ++ s.conditions ++ s.conjuncts ++ s.groupBy ++ s.having.toList ++
      s.orderBy.map OrderItem.expr).flatMap Expr.columns := by
  have hfilter : s.filter.toList.flatMap Expr.columns = s.conjuncts.flatMap Expr.columns := by
    rw [conjuncts]
    cases s.filter with
    | none => rfl
    | some e => exact (List.flatMap_singleton ..).trans e.flatMap_columns_conjuncts.symm
  rw [columns, expressions]
  simp only [List.flatMap_append, hfilter]

namespace Regrouped

variable {s s' : Select} (h : s.Regrouped s')

include h

/-- Both have the same sources. -/
theorem tables : s'.tables = s.tables := by
  rw [h.rest]
  rfl

/-- Both have the same columns in the same order. -/
theorem columns : s'.columns = s.columns := by
  rw [columns_eq, columns_eq, h.conjuncts, h.rest]
  rfl

/-- The conditions of a source are taken from the conjuncts. -/
theorem conditionsOf (t : TableRef) : s'.conditionsOf t = s.conditionsOf t := by
  rw [conditionsOf_eq, conditionsOf_eq, h.conjuncts]

/-- Projection is a matter of the select list alone. -/
theorem projects (t : TableRef) (column : String) :
    s'.projects t column = s.projects t column := by
  rw [h.rest]
  rfl

/-- Which source is federated is a matter of the sources alone. -/
theorem federatedTable? (n : Naming) : s'.federatedTable? n = s.federatedTable? n := by
  rw [Select.federatedTable?, h.tables, Select.federatedTable?]

/-- The sides of a join are a matter of the join conditions alone. -/
theorem joinSides? (f : FederatedTable) (t : TableRef) :
    s'.joinSides? f t = s.joinSides? f t := by
  rw [h.rest]
  rfl

/-- The flag for values that have to come back is part of the join. -/
theorem dimensionJoins (f : FederatedTable) : s'.dimensionJoins f = s.dimensionJoins f := by
  have hjoin : s'.dimensionJoin? f = s.dimensionJoin? f := by
    funext t
    simp only [dimensionJoin?, h.joinSides?, h.conditionsOf, h.projects]
  rw [Select.dimensionJoins, othersThan, h.tables, hjoin, Select.dimensionJoins, othersThan]

/-- The filter of a dimension is taken from the conditions of its source. -/
theorem filter (j : DimensionJoin) : j.filter s' = j.filter s := by
  have hconditions : s'.conditionsOf = s.conditionsOf := funext h.conditionsOf
  simp only [DimensionJoin.filter, DimensionJoin.source?, h.tables, hconditions]

/-- The subquery is made of the conjuncts and the columns, and so of nothing that the grouping
changes. -/
theorem subquery (f : FederatedTable) : f.subquery s' = f.subquery s := by
  have hpushed : f.pushedConjuncts s' = f.pushedConjuncts s :=
    congrArg (fun es => (es.filter f.takesConjunct).map Expr.unqualified) h.conjuncts
  have hused : f.usedColumns s' = f.usedColumns s := by
    rw [FederatedTable.usedColumns, h.columns, FederatedTable.usedColumns]
  rw [FederatedTable.subquery, hused, hpushed, FederatedTable.subquery]

end Regrouped

/-- Two filters with the same conjuncts give statements that differ in the grouping alone. -/
theorem regrouped_filterBy (s : Select) {e e' : Expr} (h : e.conjuncts = e'.conjuncts) :
    (s.filterBy e).Regrouped (s.filterBy e') :=
  ⟨rfl, h.symm⟩

end Select

/-- **The analysis does not depend on how the filter is grouped.** Of two statements that differ
in nothing else, neither is split, or both are, with the same federated table and joins, the same
filters of dimensions and the same subquery. -/
theorem Split.analyze?_regrouped (n : Naming) (s : Select) {e e' : Expr}
    (h : e.conjuncts = e'.conjuncts) :
    Split.analyze? n (s.filterBy e') =
      (Split.analyze? n (s.filterBy e)).map fun split =>
        { split with statement := s.filterBy e' } := by
  have hsame := s.regrouped_filterBy h
  rw [analyze?, analyze?, hsame.federatedTable? n, Option.map_map]
  refine congrArg (Option.map · _) (funext fun found => ?_)
  simp only [parts, Function.comp_apply, hsame.dimensionJoins, hsame.filter, hsame.subquery]

/-- Devices with the status of their campaigns. -/
def campaignDevices : Select where
  items := [.column ⟨some "i", "device"⟩, .column ⟨some "c", "status"⟩]
  sources := some [
    { name := "events_aqfer.impressions", alias? := some "i" },
    { name := "campaigns", alias? := some "c", join := .inner
      condition := some (.binary (.column ⟨some "i", "campaign_id"⟩) .eq
        (.column ⟨some "c", "id"⟩)) }]

/-- Three conditions on impressions and campaigns, put together in some way. -/
def campaignFilter (group : Expr → Expr → Expr → Expr) : Expr :=
  group
    (.binary (.column ⟨some "c", "status"⟩) .eq (.literal ⟨"active", .string⟩))
    (.binary (.column ⟨some "i", "country"⟩) .eq (.literal ⟨"US", .string⟩))
    (.binary (.column ⟨some "c", "cap"⟩) .lte (.literal ⟨"10", .number⟩))

/-- Two groupings of three conditions are split alike, with one dimension whose values have to come
back. -/
theorem Split.analyze?_regrouped_campaignDevices :
    let left := campaignFilter fun a b c => .binary (.binary a .and b) .and c
    let right := campaignFilter fun a b c => .binary a .and (.binary b .and c)
    left.conjuncts = right.conjuncts ∧
      ∃ split, Split.analyze? {} (campaignDevices.filterBy left) = some split ∧
        Split.analyze? {} (campaignDevices.filterBy right) =
          some { split with statement := campaignDevices.filterBy right } ∧
        split.federated.joins.map DimensionJoin.needsValues = [true] ∧
        split.filters.map (fun f => f.conditions.map FilterCondition.column) =
          [["status", "cap"]] ∧
        split.subquery.items = ["campaign_id", "country", "device"].map (.column ⟨none, ·⟩) := by
  have hsame : (campaignFilter fun a b c => .binary (.binary a .and b) .and c).conjuncts =
      (campaignFilter fun a b c => .binary a .and (.binary b .and c)).conjuncts := rfl
  exact ⟨hsame, _, rfl, Split.analyze?_regrouped {} campaignDevices hsame, by decide +kernel,
    by decide +kernel, by decide +kernel⟩

end QuerySplit
