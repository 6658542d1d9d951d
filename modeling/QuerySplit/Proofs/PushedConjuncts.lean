import QuerySplit.Proofs.Isolation
import QuerySplit.Proofs.Occurrences
import QuerySplit.Proofs.Unqualified

/-!
# The conjuncts that the subquery takes over

A conjunct of the `WHERE` clause that reads columns of the federated table alone is a condition on
the federated rows and can be left to the provider. The subquery takes over every such conjunct,
without the qualifiers, and no other (`Split.subquery_conjuncts`). The chain that it builds of them
does not blur the list: a conjunct is no `AND` chain itself, with its qualifiers or without, so the
conjuncts that are read off the chain are the ones that went into it
(`Expr.conjuncts_conjunction?`).
-/

set_option autoImplicit false

namespace QuerySplit

/-! ## The conjuncts of a filter -/

/-- No conjunct of the filter is an `AND` itself. -/
theorem Select.isOp_of_mem_conjuncts {s : Select} {d : Expr} (hd : d ∈ s.conjuncts) :
    d.isOp .and = false := by
  rw [conjuncts] at hd
  cases hfilter : s.filter with
  | none =>
    rw [hfilter] at hd
    cases hd
  | some e =>
    rw [hfilter] at hd
    exact Expr.isOp_of_mem_conjuncts hd

/-! ## The conjuncts of the subquery -/

namespace FederatedTable

/-- The federated table supplies what the expression reads: the expression names a column, and
every column that occurs anywhere in it is qualified with the table. -/
structure Supplies (f : FederatedTable) (d : Expr) : Prop where
  named : ∃ c : ColumnRef, c.OccursIn d
  owned : ∀ c : ColumnRef, c.OccursIn d → f.owns c = true

variable {f : FederatedTable}

/-- The test on a conjunct says that the federated table supplies it. -/
theorem takesConjunct_iff {d : Expr} : f.takesConjunct d = true ↔ f.Supplies d := by
  have hnamed : d.columns.isEmpty = false ↔ ∃ c : ColumnRef, c.OccursIn d := by
    rw [List.isEmpty_eq_false_iff_exists_mem]
    simp only [Expr.mem_columns_iff]
  have howned : d.columns.all f.owns = true ↔ ∀ c : ColumnRef, c.OccursIn d → f.owns c = true := by
    rw [List.all_eq_true]
    simp only [Expr.mem_columns_iff]
  rw [takesConjunct, Bool.and_eq_true, Bool.not_eq_true', hnamed, howned]
  exact ⟨fun h => ⟨h.1, h.2⟩, fun h => ⟨h.named, h.owned⟩⟩

instance (f : FederatedTable) (d : Expr) : Decidable (f.Supplies d) :=
  decidable_of_iff _ takesConjunct_iff

/-- The taken conjuncts are those that the federated table supplies, in their order. -/
theorem takenConjuncts_eq (f : FederatedTable) (s : Select) :
    f.takenConjuncts s = s.conjuncts.filter (f.Supplies ·) := by
  refine List.filter_congr fun d _ => ?_
  rw [Bool.eq_iff_iff, takesConjunct_iff, decide_eq_true_iff]

end FederatedTable

namespace Split

/-- **The subquery takes over the conjuncts that the federated table supplies**, and no others: in
their order, each as often as it is stated, and without the qualifiers. It has no `WHERE` clause
only if there are none. -/
theorem subquery_conjuncts {n : Naming} {s : Select} {split : Split}
    (hsplit : Split.analyze? n s = some split) :
    split.subquery.conjuncts =
        (s.conjuncts.filter (split.federated.Supplies ·)).map Expr.unqualified ∧
      (split.subquery.filter = none ↔ ∀ d ∈ s.conjuncts, ¬ split.federated.Supplies d) := by
  obtain ⟨-, -, -, -, -, hsubquery⟩ := analyze?_eq_some hsplit
  have hfilter : split.subquery.filter = Expr.conjunction?
      ((s.conjuncts.filter (split.federated.Supplies ·)).map Expr.unqualified) := by
    rw [hsubquery, FederatedTable.filter_subquery, FederatedTable.takenConjuncts_eq]
  constructor
  · rw [Select.conjuncts, hfilter]
    refine Expr.conjuncts_conjunction?_of_isOp fun e he => ?_
    obtain ⟨d, hd, rfl⟩ := List.mem_map.1 he
    rw [Expr.isOp_unqualified]
    exact Select.isOp_of_mem_conjuncts (List.mem_filter.1 hd).1
  · rw [hfilter, Expr.conjunction?_eq_none_iff, List.map_eq_nil_iff, List.filter_eq_nil_iff]
    simp only [decide_eq_true_iff]

/-- Impressions under six conditions, in an `AND` chain that is grouped to both sides. The second
and the sixth are the same. -/
def pricedImpressions : Select where
  items := [.column ⟨some "imp", "device"⟩]
  sources := some [
    { name := "events_aqfer.impressions", alias? := some "imp" },
    { name := "campaigns", alias? := some "c", join := .inner
      condition := some (.binary (.column ⟨some "imp", "campaign_id"⟩) .eq
        (.column ⟨some "c", "id"⟩)) }]
  filter := some (.binary
    (.binary
      (.binary (.column ⟨some "c", "cap"⟩) .gt (.column ⟨some "imp", "price"⟩)) .and
      (.binary (.column ⟨some "impressions", "price"⟩) .gt (.literal ⟨"0", .number⟩))) .and
    (.binary
      (.binary
        (.membership ⟨some "imp", "country"⟩ [.literal ⟨"US", .string⟩,
          .call "LOWER" [.column ⟨some "imp", "region"⟩] false]) .and
        (.membership ⟨some "imp", "country"⟩ [.column ⟨some "c", "country"⟩])) .and
      (.binary
        (.binary (.literal ⟨"1", .number⟩) .eq (.literal ⟨"1", .number⟩)) .and
        (.binary (.column ⟨some "impressions", "price"⟩) .gt (.literal ⟨"0", .number⟩)))))

/-- The conditions that name the campaigns or nothing at all stay behind. -/
theorem subquery_conjuncts_pricedImpressions :
    ∃ split, Split.analyze? {} pricedImpressions = some split ∧
      split.subquery.conjuncts = (pricedImpressions.conjuncts.filter
        (split.federated.Supplies ·)).map Expr.unqualified ∧
      split.subquery.conjuncts =
        [.binary (.column ⟨none, "price"⟩) .gt (.literal ⟨"0", .number⟩),
          .membership ⟨none, "country"⟩ [.literal ⟨"US", .string⟩,
            .call "LOWER" [.column ⟨none, "region"⟩] false],
          .binary (.column ⟨none, "price"⟩) .gt (.literal ⟨"0", .number⟩)] := by
  obtain ⟨split, hsplit⟩ : ∃ split, Split.analyze? {} pricedImpressions = some split := ⟨_, rfl⟩
  refine ⟨split, hsplit, (subquery_conjuncts hsplit).1, ?_⟩
  cases hsplit
  decide +kernel

end Split

end QuerySplit
