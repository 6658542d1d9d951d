import QuerySplit.Proofs.Binding
import QuerySplit.Proofs.Occurrences
import QuerySplit.Proofs.Recognition

/-!
# The subquery stands alone

The provider of a federated table is handed one query and knows nothing of the statement that it
comes from. So the subquery reads the federated table alone and without an alias, no column in it
has a qualifier, and it selects what it tests: the names of all federated columns that the
statement uses anywhere, each once and in ascending order, or `*` where there is none
(`Select.SelfContained`).

The subquery is made that way (`selfContained_subquery`): what a join or a conjunct takes from the
statement is a federated column of the statement. Binding keeps it that way, since the column of a
dimension filter is one of these (`SelfContained.restrict`).

Main statement: `subquery_selfContained`.
-/

set_option autoImplicit false

namespace QuerySplit

/-- A query over one table and nothing besides, for the columns of the given names. -/
structure Select.SelfContained (q : Select) (table : String) (used : String → Prop) : Prop where
  /-- The table is the only source, and there is no clause besides list, source and filter. -/
  clauses : q = { items := q.items, sources := some [{ name := table }], filter := q.filter }
  unqualified : ∀ c, q.Uses c → c.table = none
  items : q.items = [.star] ∨ ∃ names : List String, names.Pairwise (· < ·) ∧
    (∀ name, name ∈ names ↔ used name) ∧ q.items = names.map fun name => .column ⟨none, name⟩
  items_eq_star_iff : q.items = [.star] ↔ ∀ name, ¬ used name
  /-- What the filter tests is selected. -/
  projected : q.items = [.star] ∨ ∀ e, q.filter = some e → ∀ c : ColumnRef, c.OccursIn e →
    .column c ∈ q.items

/-! ## Lists of unqualified columns -/

namespace Select

/-- A select list made from names holds the unqualified columns of these names. -/
theorem column_mem_unqualified_iff {names : List String} {c : ColumnRef} :
    Expr.column c ∈ names.map (fun name => Expr.column ⟨none, name⟩) ↔
      c.table = none ∧ c.column ∈ names := by
  rw [List.mem_map]
  constructor
  · rintro ⟨name, hname, h⟩
    cases h
    exact ⟨rfl, hname⟩
  · rintro ⟨htable, hcolumn⟩
    exact ⟨c.column, hcolumn, by rw [← htable]⟩

/-- A select list made from names is not the star. -/
theorem unqualified_ne_star (names : List String) :
    names.map (fun name => Expr.column ⟨none, name⟩) ≠ [.star] := by
  intro h
  have hstar : Expr.star ∈ names.map (fun name => Expr.column ⟨none, name⟩) :=
    h ▸ List.mem_singleton_self _
  obtain ⟨name, -, hname⟩ := List.mem_map.1 hstar
  cases hname

/-- A query over one bare source uses the columns of its list and of its filter. -/
theorem uses_cases {q : Select} {table : String}
    (hclauses : q = { items := q.items, sources := some [{ name := table }], filter := q.filter })
    {c : ColumnRef} (h : q.Uses c) :
    (∃ e ∈ q.items, c.OccursIn e) ∨ ∃ e, q.filter = some e ∧ c.OccursIn e := by
  cases h with
  | item he h => exact .inl ⟨_, he, h⟩
  | filter he h => exact .inr ⟨_, he, h⟩
  | join ht he h =>
    rw [hclauses] at ht
    rw [List.mem_singleton.1 ht] at he
    cases he
  | group he h => rw [hclauses] at he; cases he
  | having he h => rw [hclauses] at he; cases he
  | order hitem h => rw [hclauses] at hitem; cases hitem

end Select

namespace FederatedTable

variable {f : FederatedTable} {s : Select}

/-- The name is that of a federated column that the statement uses. -/
def UsesName (f : FederatedTable) (s : Select) (name : String) : Prop :=
  ∃ c : ColumnRef, s.Uses c ∧ f.owns c = true ∧ c.column = name

/-! ## What the subquery takes from the statement -/

/-- A dimension join names a federated column of a join condition. -/
theorem usesName_of_mem_dimensionJoins {j : DimensionJoin} (h : j ∈ s.dimensionJoins f) :
    f.UsesName s j.federatedColumn := by
  obtain ⟨k, t, -, ht, -, -, sides, hsides, hcolumn, -⟩ := Select.source_of_mem_dimensionJoins h
  obtain ⟨e, he, hattached⟩ := Select.exists_condition_of_joinSides? ht hsides
  obtain ⟨howns, hequated⟩ := Expr.owns_federated_of_attachedJoinSides? hattached
  have hoccurs := Expr.mem_columns_iff.1 hequated.mem_columns.1
  exact ⟨sides.federated, Select.uses_of_condition he hoccurs, howns, hcolumn.symm⟩

/-- The used columns are the federated columns of the statement. -/
theorem mem_usedColumns_iff (hjoins : f.joins = s.dimensionJoins f) {name : String} :
    name ∈ (f.usedColumns s).toList ↔ f.UsesName s name := by
  rw [Text.NameSet.mem_toList, usedColumns, Text.NameSet.mem_ofList, List.mem_append]
  constructor
  · rintro (hcolumn | hjoin)
    · obtain ⟨c, hc, rfl⟩ := List.mem_map.1 hcolumn
      obtain ⟨hmem, howns⟩ := List.mem_filter.1 hc
      exact ⟨c, Select.mem_columns_iff.1 hmem, howns, rfl⟩
    · obtain ⟨j, hj, rfl⟩ := List.mem_map.1 hjoin
      exact usesName_of_mem_dimensionJoins (hjoins ▸ hj)
  · rintro ⟨c, huses, howns, rfl⟩
    have hmem := Select.mem_columns_iff.2 huses
    exact .inl (List.mem_map_of_mem (List.mem_filter.2 ⟨hmem, howns⟩))

/-- A column of a pushed conjunct is a federated column of the statement without its
qualifier. -/
theorem unqualified_of_pushedConjunct {e : Expr} {c : ColumnRef}
    (he : e ∈ f.pushedConjuncts s) (hc : c.OccursIn e) :
    c.table = none ∧ f.UsesName s c.column := by
  obtain ⟨d, hd, rfl⟩ := List.mem_map.1 he
  obtain ⟨hconjunct, htakes⟩ := List.mem_filter.1 hd
  rw [takesConjunct, Bool.and_eq_true, List.all_eq_true] at htakes
  have hmem := Expr.mem_columns_iff.2 hc
  rw [Expr.columns_unqualified] at hmem
  obtain ⟨original, horiginal, rfl⟩ := List.mem_map.1 hmem
  cases hfilter : s.filter with
  | none =>
    rw [hfilter] at hconjunct
    cases hconjunct
  | some condition =>
    rw [hfilter] at hconjunct
    have hcondition := Expr.mem_columns_of_conjunct hconjunct horiginal
    have huses : s.Uses original := .filter hfilter (Expr.mem_columns_iff.1 hcondition)
    exact ⟨rfl, original, huses, htakes.2 original horiginal, rfl⟩

/-- The subquery selects `*` when there is no used column, and otherwise all of them. -/
theorem items_subquery (f : FederatedTable) (s : Select) :
    (f.usedColumns s).toList = [] ∧ (f.subquery s).items = [.star] ∨
      (f.usedColumns s).toList ≠ [] ∧ (f.subquery s).items =
        (f.usedColumns s).toList.map fun name => .column ⟨none, name⟩ := by
  unfold subquery
  cases (f.usedColumns s).toList with
  | nil => exact .inl ⟨rfl, rfl⟩
  | cons name rest => exact .inr ⟨List.cons_ne_nil name rest, rfl⟩

/-- No column of the subquery's select list has a qualifier. -/
theorem unqualified_of_mem_items {e : Expr} {c : ColumnRef} (he : e ∈ (f.subquery s).items)
    (hc : c.OccursIn e) : c.table = none := by
  rcases items_subquery f s with ⟨-, hitems⟩ | ⟨-, hitems⟩
  · rw [hitems] at he
    rw [List.mem_singleton.1 he] at hc
    cases hc
  · rw [hitems] at he
    obtain ⟨name, -, rfl⟩ := List.mem_map.1 he
    cases hc
    rfl

/-- A column of the subquery's filter has no qualifier, and its name is one that the statement uses
of the federated table. -/
theorem unqualified_of_filter {e : Expr} {c : ColumnRef} (he : (f.subquery s).filter = some e)
    (hc : c.OccursIn e) : c.table = none ∧ f.UsesName s c.column := by
  obtain ⟨d, hd, hoccurs⟩ := (Expr.occursIn_chain? he).1 hc
  exact unqualified_of_pushedConjunct hd hoccurs

/-- **The subquery stands alone** before anything is bound. -/
theorem selfContained_subquery (hjoins : f.joins = s.dimensionJoins f) :
    (f.subquery s).SelfContained f.name (f.UsesName s) := by
  have hunqualified : ∀ c, (f.subquery s).Uses c → c.table = none := by
    intro c huses
    rcases Select.uses_cases rfl huses with ⟨e, he, hc⟩ | ⟨e, he, hc⟩
    · exact unqualified_of_mem_items he hc
    · exact (unqualified_of_filter he hc).1
  have hused : ∀ name, name ∈ (f.usedColumns s).toList ↔ f.UsesName s name :=
    fun name => mem_usedColumns_iff hjoins
  rcases items_subquery f s with ⟨hnone, hitems⟩ | ⟨hsome, hitems⟩
  · have hunused : ∀ name, ¬ f.UsesName s name := by
      intro name hname
      have hmem := (hused name).2 hname
      rw [hnone] at hmem
      cases hmem
    exact ⟨rfl, hunqualified, .inl hitems, iff_of_true hitems hunused, .inl hitems⟩
  · obtain ⟨name, hname⟩ := List.exists_mem_of_ne_nil _ hsome
    have hstar : (f.subquery s).items ≠ [.star] := hitems ▸ Select.unqualified_ne_star _
    have hunused : ¬ ∀ name, ¬ f.UsesName s name := fun h => h name ((hused name).1 hname)
    refine ⟨rfl, hunqualified, .inr ⟨_, Text.NameSet.toList_ascending _, hused, hitems⟩,
      iff_of_false hstar hunused, .inr fun e he c hc => ?_⟩
    obtain ⟨htable, hcolumn⟩ := unqualified_of_filter he hc
    rw [hitems, Select.column_mem_unqualified_iff]
    exact ⟨htable, (hused c.column).2 hcolumn⟩

end FederatedTable

/-! ## Binding -/

namespace Select.SelfContained

variable {q : Select} {table : String} {used : String → Prop}

/-- **Binding keeps a query alone**: the bound column is one that it selects, and the values add
none. -/
theorem restrict (h : q.SelfContained table used) {column : String} (hused : used column)
    {values : List Expr} (hvalues : ∀ v ∈ values, ∀ c : ColumnRef, ¬ c.OccursIn v) :
    (Split.restrict q (.membership ⟨none, column⟩ values)).SelfContained table used := by
  -- a name is used, so the names are listed and the bound column is among them
  have hstar : q.items ≠ [.star] := fun hitems => h.items_eq_star_iff.1 hitems column hused
  obtain ⟨names, -, hnames, hitems⟩ := h.items.resolve_left hstar
  have hclauses : Split.restrict q (.membership ⟨none, column⟩ values) =
      { items := q.items, sources := some [{ name := table }],
        filter := (Split.restrict q (.membership ⟨none, column⟩ values)).filter } :=
    congrArg (fun p : Select =>
      { p with filter := (Split.restrict q (.membership ⟨none, column⟩ values)).filter }) h.clauses
  have hfilter : ∀ e, (Split.restrict q (.membership ⟨none, column⟩ values)).filter = some e →
      ∀ c : ColumnRef, c.OccursIn e → .column c ∈ q.items := by
    intro e he c hc
    obtain ⟨d, hd, hoccurs⟩ := (Expr.occursIn_chain? he).1 hc
    rcases List.mem_append.1 hd with hold | hnew
    · exact h.projected.resolve_left hstar d (Option.mem_toList.1 hold) c hoccurs
    · rw [List.mem_singleton.1 hnew] at hoccurs
      cases hoccurs with
      | tested => rw [hitems, column_mem_unqualified_iff]; exact ⟨rfl, (hnames column).2 hused⟩
      | value hv hoccurs => exact absurd hoccurs (hvalues _ hv c)
  refine ⟨hclauses, fun c huses => ?_, h.items, h.items_eq_star_iff, .inr hfilter⟩
  rcases uses_cases hclauses huses with ⟨e, he, hc⟩ | ⟨e, he, hc⟩
  · exact h.unqualified c (.item he hc)
  · have hmem := hfilter e he c hc
    rw [hitems, column_mem_unqualified_iff] at hmem
    exact hmem.1

end Select.SelfContained

/-- **The subquery of a split stands alone**, also after any calls whose values name no column. It
selects the names of the federated columns that the statement uses, or `*` if it uses none. -/
theorem Split.subquery_selfContained {n : Naming} {s : Select} {split : Split}
    (hsplit : Split.analyze? n s = some split) {calls : List (String × List Expr)}
    (hvalues : ∀ call ∈ calls, ∀ v ∈ call.2, ∀ c : ColumnRef, ¬ c.OccursIn v) :
    (split.bindAll calls).subquery.SelfContained split.federated.name
      (split.federated.UsesName s) := by
  obtain ⟨-, -, -, hjoins, hfilters, hsubquery⟩ := analyze?_eq_some hsplit
  have hused : ∀ f ∈ split.filters, split.federated.UsesName s f.federatedColumn := by
    intro f hf
    rw [hfilters] at hf
    obtain ⟨j, hj, rfl⟩ := List.mem_map.1 hf
    exact FederatedTable.usesName_of_mem_dimensionJoins (hjoins ▸ hj)
  refine bindAll_induction
    (P := fun later => later.subquery.SelfContained split.federated.name
      (split.federated.UsesName s))
    (hsubquery ▸ FederatedTable.selfContained_subquery hjoins) ?_
  intro call hcall f hf before halone
  exact halone.restrict (hused f hf) (hvalues call hcall)

/-- Impressions by device. Each clause has a federated column of its own, under the alias, the
name or the short name of its table; the join condition stands at the federated table. -/
def impressionReport : Select where
  items := [.column ⟨some "i", "device"⟩, .call "COUNT" [.column ⟨some "I", "user"⟩] true]
  sources := some [
    { name := "campaigns", alias? := some "c" },
    { name := "events_aqfer.impressions", alias? := some "i", join := .left
      condition := some (.binary (.column ⟨some "c", "id"⟩) .eq
        (.column ⟨some "i", "campaign_id"⟩)) }]
  filter := some (.binary
    (.membership ⟨some "i", "country"⟩ [.literal ⟨"US", .string⟩, .literal ⟨"CA", .string⟩]) .and
    (.binary (.column ⟨some "c", "status"⟩) .eq (.literal ⟨"active", .string⟩)))
  groupBy := [.column ⟨some "i", "device"⟩]
  having := some (.binary (.call "MAX" [.column ⟨some "impressions", "price"⟩] false) .gt
    (.literal ⟨"10", .number⟩))
  orderBy := [{ expr := .column ⟨some "events_aqfer.impressions", "day"⟩ }]

/-- The report uses impressions under three names. Its subquery selects each column once, sorted and
without qualifiers, also after a bind. -/
theorem Split.subquery_selfContained_impressionReport :
    ∃ split, Split.analyze? {} impressionReport = some split ∧
      (∀ c : ColumnRef, ¬ c.OccursIn (.literal ⟨"11", .number⟩)) ∧
      (split.bindAll [("c", [.literal ⟨"11", .number⟩])]).subquery.SelfContained
        "events_aqfer.impressions" (split.federated.UsesName impressionReport) ∧
      (split.bindAll [("c", [.literal ⟨"11", .number⟩])]).subquery.items =
        ["campaign_id", "country", "day", "device", "price", "user"].map
          (fun name => .column ⟨none, name⟩) ∧
      (split.bindAll [("c", [.literal ⟨"11", .number⟩])]).subquery.filter =
        some (.binary
          (.membership ⟨none, "country"⟩ [.literal ⟨"US", .string⟩, .literal ⟨"CA", .string⟩]) .and
          (.membership ⟨none, "campaign_id"⟩ [.literal ⟨"11", .number⟩])) := by
  obtain ⟨split, hsplit⟩ : ∃ split, Split.analyze? {} impressionReport = some split := ⟨_, rfl⟩
  have hliteral : ∀ c : ColumnRef, ¬ c.OccursIn (.literal ⟨"11", .number⟩) := nofun
  have halone : (split.bindAll [("c", [.literal ⟨"11", .number⟩])]).subquery.SelfContained
      split.federated.name (split.federated.UsesName impressionReport) :=
    subquery_selfContained hsplit (by simpa using hliteral)
  cases hsplit
  exact ⟨_, rfl, hliteral, halone, by decide +kernel, by decide +kernel⟩

end QuerySplit
