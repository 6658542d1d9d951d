import QuerySplit.Proofs.Columns
import QuerySplit.Proofs.ReferenceNames

/-!
# Which columns a table can take from another

Columns refer to a source by its reference name, but a source also answers to the last segment of
its table's name and, under an alias, to the whole name (`meansByTable`). Where sources have
different reference names, a source owns a column that is qualified by the reference name of
another one exactly if that name is one of these (`Select.owns_eq_meansByTable`).

So the two readings of the `WHERE` clause stay apart up to that: the subquery takes over no
conjunct, and a dimension states no condition, about a column of another source, unless the
reference name of the other source means the table by its name as well (`Split.isolated`). It can
(`Split.isolated_fails_soldImpressions`).
-/

set_option autoImplicit false

namespace QuerySplit

/-! ## The names of a source -/

/-- Whether a qualifier means the table by a name that is not its reference name: by the last
segment of its name or, if it has an alias, by the whole name. -/
def meansByTable (name : String) (alias? : Option String) (qualifier : String) : Bool :=
  alias?.isSome && Text.eqIgnoreCase name qualifier ||
    Text.eqIgnoreCase (Text.shortName name) qualifier

/-- A qualifier means a table by its reference name or by another one. -/
theorem meansTable_eq (name : String) (alias? : Option String) (qualifier : String) :
    meansTable name alias? qualifier =
      (Text.eqIgnoreCase (alias?.getD name) qualifier || meansByTable name alias? qualifier) := by
  cases alias? with
  | none => simp [meansTable, meansByTable]
  | some a => simp [meansTable, meansByTable, Bool.or_assoc]

/-- A qualifier means the same table in any ASCII case. -/
theorem meansByTable_congr {a b : String} (h : Text.eqIgnoreCase a b = true) (name : String)
    (alias? : Option String) : meansByTable name alias? a = meansByTable name alias? b := by
  rw [meansByTable, meansByTable, Text.eqIgnoreCase_congr h, Text.eqIgnoreCase_congr h]

/-- Whether a column is qualified by the reference name of the source. -/
def TableRef.qualifies (t : TableRef) (c : ColumnRef) : Bool :=
  c.table.any (Text.eqIgnoreCase t.referenceName)

namespace Select

variable {s : Select} {i : Nat} {t : TableRef}

/-- Two sources at different positions have different reference names. -/
theorem DistinctReferences.differ (h : s.DistinctReferences) {k : Nat} {other : TableRef}
    (ht : s.tables[i]? = some t) (hother : s.tables[k]? = some other) (hne : k ≠ i) :
    Text.eqIgnoreCase t.referenceName other.referenceName = false := by
  obtain ⟨hi, rfl⟩ := List.getElem?_eq_some_iff.1 ht
  obtain ⟨hk, rfl⟩ := List.getElem?_eq_some_iff.1 hother
  rcases Nat.lt_or_gt_of_ne hne with hlt | hlt
  · rw [Text.eqIgnoreCase_comm]
    exact List.pairwise_iff_getElem.1 h k i hk hi hlt
  · exact List.pairwise_iff_getElem.1 h i k hi hk hlt

/-- **What a source owns of another source's columns**: those whose qualifier means its table by a
name besides its reference name. -/
theorem owns_eq_meansByTable (hdistinct : s.DistinctReferences) {k : Nat} {other : TableRef}
    (ht : s.tables[i]? = some t) (hother : s.tables[k]? = some other) (hne : k ≠ i)
    {c : ColumnRef} (hc : other.qualifies c = true) :
    t.owns c = meansByTable t.name t.alias? other.referenceName := by
  obtain ⟨qualifier, hqualifier, hsame⟩ := (Option.any_eq_true ..).1 hc
  have hdiffer : Text.eqIgnoreCase t.referenceName qualifier = false := by
    rw [← Text.eqIgnoreCase_congr hsame]
    exact hdistinct.differ ht hother hne
  calc t.owns c
      = meansTable t.name t.alias? qualifier := by rw [TableRef.owns, hqualifier]; rfl
    _ = meansByTable t.name t.alias? qualifier := by
        rw [meansTable_eq, ← TableRef.referenceName, hdiffer, Bool.false_or]
    _ = meansByTable t.name t.alias? other.referenceName := (meansByTable_congr hsame ..).symm

/-- A column whose qualifier is the reference name of another source than the one at the position
is qualified by a name that means the table of this one as well. -/
def Isolates (s : Select) (i : Nat) (c : ColumnRef) : Prop :=
  ∀ t k other, s.tables[i]? = some t → s.tables[k]? = some other → k ≠ i →
    other.qualifies c = true → meansByTable t.name t.alias? other.referenceName = true

/-- Where reference names are distinct, a source owns the columns of another one only by a further
name of its table. -/
theorem DistinctReferences.isolates (hdistinct : s.DistinctReferences) (ht : s.tables[i]? = some t)
    {c : ColumnRef} (howns : t.owns c = true) : s.Isolates i c := by
  intro t' k other ht' hother hne hc
  rw [ht] at ht'
  cases ht'
  rw [← owns_eq_meansByTable hdistinct ht hother hne hc]
  exact howns

/-- The conjuncts of the `WHERE` clause. -/
def conjuncts (s : Select) : List Expr :=
  (s.filter.map Expr.conjuncts).getD []

/-- The conditions of a source are read off the conjuncts one by one. -/
theorem conditionsOf_eq (s : Select) (t : TableRef) :
    s.conditionsOf t = s.conjuncts.filterMap (conditionOf? t) :=
  rfl

/-- The one column of a conjunct that states a condition of a source belongs to the source. -/
theorem owns_of_conditionOf? {d : Expr} {condition : FilterCondition}
    (h : conditionOf? t d = some condition) {c : ColumnRef} (hc : c ∈ d.columns) :
    t.owns c = true := by
  obtain ⟨col, rfl, -, howns⟩ := conditionOf?_eq_some h
  rw [Expr.columns_binary, Expr.columns_column, Expr.columns_literal, List.append_nil,
    List.mem_singleton] at hc
  rw [hc]
  exact howns

end Select

/-! ## What the split reads of the `WHERE` clause -/

namespace FederatedTable

/-- The conjuncts that the subquery takes over, with their qualifiers. -/
def takenConjuncts (f : FederatedTable) (s : Select) : List Expr :=
  s.conjuncts.filter f.takesConjunct

/-- The filter of the subquery is the conjunction of the taken conjuncts without their qualifiers.
-/
theorem filter_subquery (f : FederatedTable) (s : Select) :
    (f.subquery s).filter = Expr.conjunction? ((f.takenConjuncts s).map Expr.unqualified) :=
  rfl

/-- A conjunct is taken only if the federated table owns all its columns. -/
theorem owns_of_mem_takenConjuncts {f : FederatedTable} {s : Select} {d : Expr}
    (hd : d ∈ f.takenConjuncts s) {c : ColumnRef} (hc : c ∈ d.columns) : f.owns c = true := by
  have htakes := (List.mem_filter.1 hd).2
  rw [takesConjunct, Bool.and_eq_true, List.all_eq_true] at htakes
  exact htakes.2 c hc

end FederatedTable

namespace Split

/-- **A split keeps the columns of different sources apart** where these have different reference
names. A conjunct that the subquery takes over names the column of another source only if the
reference name of that source means the federated table as well, and a conjunct that states a
condition of a dimension only if it means the dimension as well. -/
theorem isolated {n : Naming} {s : Select} {split : Split}
    (hsplit : Split.analyze? n s = some split) (hdistinct : s.DistinctReferences) :
    (split.subquery.filter =
        Expr.conjunction? ((split.federated.takenConjuncts s).map Expr.unqualified) ∧
      ∀ d ∈ split.federated.takenConjuncts s, ∀ c ∈ d.columns,
        s.Isolates split.federated.position c) ∧
    ∀ f ∈ split.filters, ∃ i t, i ≠ split.federated.position ∧ s.tables[i]? = some t ∧
      f.table = t.name ∧ f.alias? = t.alias? ∧
      f.conditions = s.conjuncts.filterMap (Select.conditionOf? t) ∧
      ∀ d ∈ s.conjuncts, (Select.conditionOf? t d).isSome = true → ∀ c ∈ d.columns,
        s.Isolates i c := by
  obtain ⟨federated, hfederated, howns, hjoins, hfilters, hsubquery⟩ := analyze?_eq_some hsplit
  refine ⟨⟨?_, fun d hd c hc => ?_⟩, fun f hf => ?_⟩
  · rw [hsubquery, FederatedTable.filter_subquery]
  · have htaken : federated.owns c = true :=
      howns ▸ FederatedTable.owns_of_mem_takenConjuncts hd hc
    exact hdistinct.isolates hfederated htaken
  · rw [hfilters, List.mem_map] at hf
    obtain ⟨j, hj, rfl⟩ := hf
    rw [hjoins] at hj
    obtain ⟨i, t, hne, ht, htable, halias, -⟩ := Select.source_of_mem_dimensionJoins hj
    refine ⟨i, t, hne, ht, htable, halias, ?_, fun d _ hstates c hc => ?_⟩
    · rw [Select.conditions_filter ht htable halias, Select.conditionsOf_eq]
    · obtain ⟨condition, hcondition⟩ := Option.isSome_iff_exists.1 hstates
      exact hdistinct.isolates ht (Select.owns_of_conditionOf? hcondition hc)

/-- Impressions with the campaigns, which go by the name `impressions` here, and with the
impressions that were sold. -/
def soldImpressions : Select where
  items := [.column ⟨some "imp", "device"⟩]
  sources := some [
    { name := "events_aqfer.impressions", alias? := some "imp" },
    { name := "campaigns", alias? := some "impressions", join := .inner
      condition := some (.binary (.column ⟨some "imp", "campaign_id"⟩) .eq
        (.column ⟨some "impressions", "id"⟩)) },
    { name := "sales.impressions", alias? := some "sold", join := .inner
      condition := some (.binary (.column ⟨some "imp", "sale_id"⟩) .eq
        (.column ⟨some "sold", "id"⟩)) }]
  filter := some (.binary (.column ⟨some "impressions", "status"⟩) .eq
    (.literal ⟨"active", .string⟩))

/-- The subquery takes over no conjunct that names a column of the sold impressions. -/
theorem isolated_soldImpressions :
    soldImpressions.DistinctReferences ∧
      ∃ split, Split.analyze? {} soldImpressions = some split ∧
        split.federated.takenConjuncts soldImpressions ≠ [] ∧
        ∀ d ∈ split.federated.takenConjuncts soldImpressions, ∀ c ∈ d.columns,
          soldImpressions.Isolates 0 c ∧ c.table ≠ some "sold" := by
  have hdistinct : soldImpressions.DistinctReferences := by decide +kernel
  obtain ⟨split, hsplit⟩ : ∃ split, Split.analyze? {} soldImpressions = some split := ⟨_, rfl⟩
  have hposition : split.federated.position = 0 := by cases hsplit; rfl
  have htaken : split.federated.takenConjuncts soldImpressions ≠ [] := by
    cases hsplit
    decide +kernel
  refine ⟨hdistinct, split, hsplit, htaken, fun d hd c hc => ?_⟩
  have hisolates : soldImpressions.Isolates 0 c :=
    hposition ▸ (isolated hsplit hdistinct).1.2 d hd c hc
  refine ⟨hisolates, fun hsold => ?_⟩
  have hqualifies : c.table.any (Text.eqIgnoreCase "sold") = true := by
    rw [hsold, Option.any_some, Text.eqIgnoreCase_self]
  have hmeans : meansByTable "events_aqfer.impressions" (some "imp") "sold" = true :=
    hisolates _ 2 _ rfl rfl (by decide) hqualifies
  exact absurd hmeans (by decide +kernel)

/-- The status of the campaigns restricts the subquery, and the sold impressions too, although its
column is qualified by the reference name of the campaigns and no two sources share one. -/
theorem isolated_fails_soldImpressions :
    soldImpressions.DistinctReferences ∧
      ∃ split campaigns status, Split.analyze? {} soldImpressions = some split ∧
        split.federated.position = 0 ∧ soldImpressions.tables[1]? = some campaigns ∧
        campaigns.qualifies status = true ∧
        (∃ d ∈ split.federated.takenConjuncts soldImpressions, status ∈ d.columns) ∧
        split.subquery.filter =
          some (.binary (.column status.unqualified) .eq (.literal ⟨"active", .string⟩)) ∧
        ∃ f ∈ split.filters, f.alias? = some "sold" ∧
          ⟨status.column, .eq, ⟨"active", .string⟩⟩ ∈ f.conditions := by
  obtain ⟨split, hsplit⟩ : ∃ split, Split.analyze? {} soldImpressions = some split := ⟨_, rfl⟩
  obtain ⟨campaigns, hcampaigns⟩ : ∃ campaigns, soldImpressions.tables[1]? = some campaigns :=
    ⟨_, rfl⟩
  refine ⟨by decide +kernel, split, campaigns, ⟨some "impressions", "status"⟩, hsplit, ?_⟩
  cases hsplit
  cases hcampaigns
  exact ⟨rfl, rfl, by decide +kernel, by decide +kernel, by decide +kernel, by decide +kernel⟩

end Split

end QuerySplit
