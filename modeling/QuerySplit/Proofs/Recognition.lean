import QuerySplit.Proofs.Columns
import QuerySplit.Split.Analysis

/-!
# What the analysis recognizes

The federated table is the source at its position (`federatedTable?_eq_some`), so it owns the
columns that this source owns. A dimension join belongs to a source at another position, and the
two columns it names are those of an equality that is a join condition of the statement, in one
order or the other (`mem_dimensionJoins`).
-/

set_option autoImplicit false

namespace QuerySplit

/-! ## The federated table -/

namespace Select

/-- The federated table is a source with a federated name, at its position counted from where the
search started. -/
theorem federatedAmong?_eq_some {n : Naming} {tables : List TableRef} {index : Nat}
    {f : FederatedTable} (h : federatedAmong? n tables index = some f) :
    ∃ k t datasetType, tables[k]? = some t ∧ n.datasetType? t.name = some datasetType ∧
      f = .ofTable t datasetType (index + k) := by
  induction tables generalizing index with
  | nil => cases h
  | cons t rest ih =>
    rw [federatedAmong?] at h
    split at h
    · next datasetType htype =>
      cases h
      exact ⟨0, t, datasetType, rfl, htype, rfl⟩
    · obtain ⟨k, t', datasetType, hget, htype, rfl⟩ := ih h
      refine ⟨k + 1, t', datasetType, ?_, htype, ?_⟩
      · rw [List.getElem?_cons_succ, hget]
      · rw [Nat.add_assoc, Nat.add_comm 1 k]

/-- The federated table is the source at its position. -/
theorem federatedTable?_eq_some {n : Naming} {s : Select} {f : FederatedTable}
    (h : s.federatedTable? n = some f) :
    ∃ t datasetType, s.tables[f.position]? = some t ∧ n.datasetType? t.name = some datasetType ∧
      f = .ofTable t datasetType f.position := by
  obtain ⟨k, t, datasetType, hget, htype, rfl⟩ := federatedAmong?_eq_some h
  have hposition : 0 + k = k := Nat.zero_add k
  exact ⟨t, datasetType, by simpa [FederatedTable.ofTable] using hget, htype, rfl⟩

end Select

/-- The federated table owns what its source owns. -/
theorem FederatedTable.owns_ofTable (t : TableRef) (datasetType : String) (position : Nat) :
    (FederatedTable.ofTable t datasetType position).owns = t.owns :=
  rfl

/-! ## The sides of a join -/

/-- An expression is the equality of the two columns, in one order or the other. -/
def JoinSides.EquatedIn (sides : JoinSides) (e : Expr) : Prop :=
  e = .binary (.column sides.federated) .eq (.column sides.dimension) ∨
    e = .binary (.column sides.dimension) .eq (.column sides.federated)

/-- Both sides are columns of the equality. -/
theorem JoinSides.EquatedIn.mem_columns {sides : JoinSides} {e : Expr} (h : sides.EquatedIn e) :
    sides.federated ∈ e.columns ∧ sides.dimension ∈ e.columns := by
  rcases h with rfl | rfl <;> simp

namespace Expr

/-- Columns are read off an equality between two columns only. -/
theorem equatedColumns?_eq_some {e : Expr} {left right : ColumnRef}
    (h : e.equatedColumns? = some (left, right)) :
    e = .binary (.column left) .eq (.column right) := by
  unfold equatedColumns? at h
  split at h
  · cases h
    rfl
  · cases h

/-- The sides pass their tests, and the expression equates them in one order or the other. -/
theorem sidesBy?_eq_some {federated dimension : ColumnRef → Bool} {e : Expr} {sides : JoinSides}
    (h : e.sidesBy? federated dimension = some sides) :
    federated sides.federated = true ∧ dimension sides.dimension = true ∧ sides.EquatedIn e := by
  unfold sidesBy? at h
  split at h
  · next left right hcolumns =>
    have he := equatedColumns?_eq_some hcolumns
    split at h
    · next hsides =>
      cases h
      rw [Bool.and_eq_true] at hsides
      exact ⟨hsides.1, hsides.2, .inl he⟩
    · split at h
      · next hsides =>
        cases h
        rw [Bool.and_eq_true] at hsides
        exact ⟨hsides.1, hsides.2, .inr he⟩
      · cases h
  · cases h

/-- The expression equates a column that passes the first test with one that passes the second, in
one order or the other. -/
def Equates (federated dimension : ColumnRef → Bool) (e : Expr) : Prop :=
  ∃ sides : JoinSides, sides.EquatedIn e ∧ federated sides.federated = true ∧
    dimension sides.dimension = true

/-- Sides are found whenever some order of the two columns passes the tests. -/
theorem isSome_sidesBy?_iff {federated dimension : ColumnRef → Bool} {e : Expr} :
    (e.sidesBy? federated dimension).isSome = true ↔ e.Equates federated dimension := by
  constructor
  · intro h
    obtain ⟨sides, hsides⟩ := Option.isSome_iff_exists.1 h
    obtain ⟨hfederated, hdimension, hequated⟩ := sidesBy?_eq_some hsides
    exact ⟨sides, hequated, hfederated, hdimension⟩
  · rintro ⟨sides, rfl | rfl, hfederated, hdimension⟩
    · simp [sidesBy?, equatedColumns?, hfederated, hdimension]
    · -- as written the columns may fit the other way round as well
      simp only [sidesBy?, equatedColumns?]
      split
      · rfl
      · simp [hfederated, hdimension]

/-- In the condition of the source itself, sides found by their qualifiers come first. -/
theorem attachedJoinSides?_of_joinSides? {f : FederatedTable} {t : TableRef} {e : Expr}
    {sides : JoinSides} (h : e.joinSides? f t = some sides) :
    e.attachedJoinSides? f t = some sides := by
  rw [attachedJoinSides?, h, Option.some_or]

/-- Whatever counts as the dimension's column, the other one is federated. -/
theorem owns_federated_of_attachedJoinSides? {f : FederatedTable} {t : TableRef} {e : Expr}
    {sides : JoinSides} (h : e.attachedJoinSides? f t = some sides) :
    f.owns sides.federated = true ∧ sides.EquatedIn e := by
  rw [attachedJoinSides?, Option.or_eq_some_iff] at h
  rcases h with hjoin | ⟨-, hunqualified⟩
  · exact (sidesBy?_eq_some hjoin).imp_right And.right
  · exact (sidesBy?_eq_some hunqualified).imp_right And.right

/-- With qualifiers on its columns, a join condition names a column of the table itself. -/
theorem attachedJoinSides?_eq_some {f : FederatedTable} {t : TableRef} {e : Expr}
    {sides : JoinSides} (hqualified : ∀ c ∈ e.columns, c.table.isSome = true)
    (h : e.attachedJoinSides? f t = some sides) :
    f.owns sides.federated = true ∧ t.owns sides.dimension = true ∧ sides.EquatedIn e := by
  rw [attachedJoinSides?, Option.or_eq_some_iff] at h
  rcases h with hjoin | ⟨-, hunqualified⟩
  · exact sidesBy?_eq_some hjoin
  · obtain ⟨-, hnone, hequated⟩ := sidesBy?_eq_some hunqualified
    have hsome := hqualified sides.dimension hequated.mem_columns.2
    rw [Option.isNone_iff_eq_none] at hnone
    rw [hnone] at hsome
    cases hsome

end Expr

/-- Sources with the same name and alias own the same columns. -/
theorem TableRef.owns_congr {t t' : TableRef} (hname : t.name = t'.name)
    (halias : t.alias? = t'.alias?) : t.owns = t'.owns := by
  have hanswers : t.answersTo = t'.answersTo := by
    funext q
    rw [answersTo, answersTo, hname, halias]
  funext c
  rw [owns, owns, hanswers]

namespace Select

/-- Every column of a join condition has a qualifier. -/
def QualifiedJoins (s : Select) : Prop :=
  ∀ e ∈ s.conditions, ∀ c ∈ e.columns, c.table.isSome = true

instance (s : Select) : Decidable s.QualifiedJoins :=
  inferInstanceAs (Decidable (∀ e ∈ s.conditions, ∀ c ∈ e.columns, c.table.isSome = true))

/-- The condition of a source is a join condition of the statement. -/
theorem mem_conditions {s : Select} {k : Nat} {t : TableRef} {e : Expr}
    (ht : s.tables[k]? = some t) (he : t.condition = some e) : e ∈ s.conditions :=
  List.mem_filterMap.2 ⟨t, List.mem_of_getElem? ht, he⟩

/-- The condition that ties a source to the federated table is the source's own or the federated
table's. -/
theorem condition_of_joinSides? {s : Select} {f : FederatedTable} {t : TableRef}
    {sides : JoinSides} (h : s.joinSides? f t = some sides) :
    ∃ e, (t.condition = some e ∨ s.federatedCondition? f = some e) ∧
      e.attachedJoinSides? f t = some sides := by
  rw [joinSides?, Option.or_eq_some_iff] at h
  rcases h with hown | ⟨-, hother⟩
  · obtain ⟨e, he, hsides⟩ := Option.bind_eq_some_iff.1 hown
    exact ⟨e, .inl he, hsides⟩
  · obtain ⟨e, he, hsides⟩ := Option.bind_eq_some_iff.1 hother
    exact ⟨e, .inr he, Expr.attachedJoinSides?_of_joinSides? hsides⟩

/-- The sides of a join come from some join condition, be it that of the source or that of the
federated table. -/
theorem exists_condition_of_joinSides? {s : Select} {f : FederatedTable} {k : Nat} {t : TableRef}
    {sides : JoinSides} (ht : s.tables[k]? = some t) (h : s.joinSides? f t = some sides) :
    ∃ e ∈ s.conditions, e.attachedJoinSides? f t = some sides := by
  obtain ⟨e, hown | hother, hsides⟩ := condition_of_joinSides? h
  · exact ⟨e, mem_conditions ht hown, hsides⟩
  · obtain ⟨federated, hget, he⟩ := Option.bind_eq_some_iff.1 hother
    exact ⟨e, mem_conditions hget he, hsides⟩

/-- With qualified join conditions, a source is joined by an equality of columns that the federated
table and the source own. -/
theorem joinSides?_eq_some {s : Select} (hqualified : s.QualifiedJoins) {f : FederatedTable}
    {k : Nat} {t : TableRef} {sides : JoinSides} (ht : s.tables[k]? = some t)
    (h : s.joinSides? f t = some sides) :
    ∃ e ∈ s.conditions, f.owns sides.federated = true ∧ t.owns sides.dimension = true ∧
      sides.EquatedIn e := by
  obtain ⟨e, he, hsides⟩ := exists_condition_of_joinSides? ht h
  exact ⟨e, he, Expr.attachedJoinSides?_eq_some (hqualified e he) hsides⟩

/-- A dimension join stands for a source at another position than the federated table and names the
two columns by which the source is joined. -/
theorem source_of_mem_dimensionJoins {s : Select} {f : FederatedTable} {j : DimensionJoin}
    (h : j ∈ s.dimensionJoins f) :
    ∃ k t, k ≠ f.position ∧ s.tables[k]? = some t ∧ j.table = t.name ∧ j.alias? = t.alias? ∧
      ∃ sides, s.joinSides? f t = some sides ∧ j.federatedColumn = sides.federated.column ∧
        j.dimensionColumn = sides.dimension.column := by
  obtain ⟨t, hother, hjoin⟩ := List.mem_filterMap.1 h
  obtain ⟨k, hne, ht⟩ := List.mem_eraseIdx_iff_getElem?.1 hother
  obtain ⟨sides, hsides, rfl⟩ := Option.map_eq_some_iff.1 hjoin
  exact ⟨k, t, hne, ht, rfl, rfl, sides, hsides, rfl, rfl⟩

/-- **A dimension join is made from an equality between the federated table and another source**,
and names that source and the two columns. -/
theorem mem_dimensionJoins {s : Select} (hqualified : s.QualifiedJoins) {f : FederatedTable}
    {j : DimensionJoin} (h : j ∈ s.dimensionJoins f) :
    ∃ k t, k ≠ f.position ∧ s.tables[k]? = some t ∧ j.table = t.name ∧ j.alias? = t.alias? ∧
      ∃ sides : JoinSides, j.federatedColumn = sides.federated.column ∧
        j.dimensionColumn = sides.dimension.column ∧ f.owns sides.federated = true ∧
        t.owns sides.dimension = true ∧ ∃ e ∈ s.conditions, sides.EquatedIn e := by
  obtain ⟨k, t, hne, ht, htable, halias, sides, hsides, hfed, hdim⟩ :=
    source_of_mem_dimensionJoins h
  obtain ⟨e, he, hfederated, hdimension, hequated⟩ := joinSides?_eq_some hqualified ht hsides
  exact ⟨k, t, hne, ht, htable, halias, sides, hfed, hdim, hfederated, hdimension, e, he, hequated⟩

/-! ## The conditions of a source -/

/-- A condition read off a conjunct is a comparison of an own column with a literal, as it stands.
-/
theorem conditionOf?_eq_some {t : TableRef} {d : Expr} {c : FilterCondition}
    (h : conditionOf? t d = some c) :
    ∃ col : ColumnRef, d = .binary (.column col) c.op (.literal c.value) ∧
      col.column = c.column ∧ t.owns col = true := by
  unfold conditionOf? at h
  split at h
  · next col op value =>
    split at h
    · next howns =>
      cases h
      rw [Bool.and_eq_true] at howns
      exact ⟨col, rfl, rfl, howns.2⟩
    · cases h
  · cases h

/-- Only comparisons become conditions. -/
theorem isComparison_of_conditionOf? {t : TableRef} {d : Expr} {c : FilterCondition}
    (h : conditionOf? t d = some c) : c.op.isComparison = true := by
  unfold conditionOf? at h
  split at h
  · split at h
    · next hcomparison =>
      cases h
      rw [Bool.and_eq_true] at hcomparison
      exact hcomparison.1
    · cases h
  · cases h

/-- A conjunct states a condition of a source: it compares a column of the source, on its left, with
a literal. -/
structure States (t : TableRef) (d : Expr) (c : FilterCondition) : Prop where
  comparison : c.op.isComparison = true
  compares : ∃ col : ColumnRef, d = .binary (.column col) c.op (.literal c.value) ∧
    col.column = c.column ∧ t.owns col = true

/-- The relation holds of exactly the condition that is read off. -/
theorem conditionOf?_eq_some_iff {t : TableRef} {d : Expr} {c : FilterCondition} :
    conditionOf? t d = some c ↔ States t d c := by
  constructor
  · intro h
    exact ⟨isComparison_of_conditionOf? h, conditionOf?_eq_some h⟩
  · rintro ⟨hcomparison, col, rfl, hcolumn, howns⟩
    rw [conditionOf?, hcomparison, howns, hcolumn]
    rfl

/-- A condition of a source is stated by a conjunct of the `WHERE` clause. -/
theorem exists_conjunct_of_mem_conditionsOf {s : Select} {t : TableRef} {c : FilterCondition}
    (h : c ∈ s.conditionsOf t) :
    ∃ e ∈ s.filter, ∃ d ∈ e.conjuncts, conditionOf? t d = some c := by
  obtain ⟨d, hd, hc⟩ := List.mem_filterMap.1 h
  cases hfilter : s.filter with
  | none =>
    rw [hfilter] at hd
    cases hd
  | some e =>
    rw [hfilter] at hd
    exact ⟨e, rfl, d, hd, hc⟩

/-! ## The source behind a join -/

/-- Sources with the same name and alias have the same conditions. -/
theorem conditionsOf_congr (s : Select) {t t' : TableRef} (hname : t.name = t'.name)
    (halias : t.alias? = t'.alias?) : s.conditionsOf t = s.conditionsOf t' := by
  have hcondition : conditionOf? t = conditionOf? t' := by
    funext e
    unfold conditionOf?
    rw [TableRef.owns_congr hname halias]
  rw [conditionsOf, conditionsOf, hcondition]

/-- The filter of a join has the conditions of the source that the join is about. -/
theorem conditions_filter {s : Select} {j : DimensionJoin} {k : Nat} {t : TableRef}
    (ht : s.tables[k]? = some t) (hname : j.table = t.name) (halias : j.alias? = t.alias?) :
    (j.filter s).conditions = s.conditionsOf t := by
  have hfound : (j.source? s).isSome = true := by
    refine List.find?_isSome.2 ⟨t, List.mem_of_getElem? ht, ?_⟩
    simp [hname, halias]
  obtain ⟨found, hsource⟩ := Option.isSome_iff_exists.1 hfound
  have hmatches : found.name = t.name ∧ found.alias? = t.alias? := by
    have hpred := List.find?_some hsource
    simpa [hname, halias] using hpred
  rw [DimensionJoin.filter, hsource, Option.map_some, Option.getD_some]
  exact conditionsOf_congr s hmatches.1 hmatches.2

end Select

/-! ## The analysis -/

/-- What an analysis consists of, by the federated table that was found. -/
theorem Split.analyze?_eq_some {n : Naming} {s : Select} {split : Split}
    (h : Split.analyze? n s = some split) :
    ∃ t, s.tables[split.federated.position]? = some t ∧ split.federated.owns = t.owns ∧
      split.federated.joins = s.dimensionJoins split.federated ∧
      split.filters = split.federated.joins.map (·.filter s) ∧
      split.subquery = split.federated.subquery s := by
  obtain ⟨found, hfound, rfl⟩ := Option.map_eq_some_iff.1 h
  obtain ⟨t, datasetType, hget, -, heq⟩ := Select.federatedTable?_eq_some hfound
  refine ⟨t, hget, ?_, rfl, rfl, rfl⟩
  show found.owns = t.owns
  rw [heq, FederatedTable.owns_ofTable]

end QuerySplit
