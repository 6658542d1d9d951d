import QuerySplit.Proofs.Dimensions

/-!
# Dimensions that are no native tables

Values of a dimension are fetched natively, so a dimension should not be federated itself. The
search for the federated table takes the first source that follows the naming convention, and only
this one is set aside. The sources before it are native (`Select.isFederated_of_lt`); one after it
may follow the convention too, and becomes a dimension like any other if an equality ties it to the
first. So the dimensions are native exactly if the tied sources after the federated table are
(`Split.dimensions_native_iff`), and they need not be (`Split.fetches_federated_table`).
-/

set_option autoImplicit false

namespace QuerySplit

namespace Select

/-! ## The first federated table -/

/-- No source before the federated one has a federated name: the search stops at the first. The
position counts from where the search started. -/
theorem datasetType?_of_federatedAmong? {n : Naming} {tables : List TableRef} {index : Nat}
    {f : FederatedTable} (h : federatedAmong? n tables index = some f) {k : Nat} {t : TableRef}
    (hk : index + k < f.position) (ht : tables[k]? = some t) : n.datasetType? t.name = none := by
  induction tables generalizing index k with
  | nil => cases h
  | cons first rest ih =>
    rw [federatedAmong?] at h
    split at h
    · cases h
      exact absurd hk (Nat.not_lt.2 (Nat.le_add_right index k))
    · next hfirst =>
      cases k with
      | zero =>
        cases ht
        exact hfirst
      | succ k =>
        have hlater : index + 1 + k < f.position := by omega
        exact ih h hlater ht

/-- No source before the federated table follows the naming convention. -/
theorem isFederated_of_lt {n : Naming} {s : Select} {f : FederatedTable}
    (h : s.federatedTable? n = some f) {k : Nat} {t : TableRef} (hk : k < f.position)
    (ht : s.tables[k]? = some t) : n.isFederated t.name = false := by
  have hnone : n.datasetType? t.name = none :=
    datasetType?_of_federatedAmong? h (by omega) ht
  rw [Naming.isFederated, hnone, Option.isSome_none]

/-! ## The tables of the dimensions -/

/-- The tables that joins name are those of the tied sources. -/
theorem forall_mem_dimensionJoins_iff {s : Select} {f : FederatedTable} {P : String → Prop} :
    (∀ j ∈ s.dimensionJoins f, P j.table) ↔
      ∀ k t, k ≠ f.position → s.tables[k]? = some t → s.Tied f t → P t.name := by
  constructor
  · intro hjoins k t hne ht htied
    obtain ⟨j, hj⟩ := Option.isSome_iff_exists.1 (tied_iff_isSome_dimensionJoin?.1 htied)
    have hother : t ∈ s.othersThan f.position := List.mem_eraseIdx_iff_getElem?.2 ⟨k, hne, ht⟩
    have htable : j.table = t.name := by
      obtain ⟨sides, -, rfl⟩ := Option.map_eq_some_iff.1 hj
      rfl
    rw [← htable]
    exact hjoins j (List.mem_filterMap.2 ⟨t, hother, hj⟩)
  · intro hsources j hj
    obtain ⟨k, t, hne, ht, htable, -, sides, hsides, -⟩ := source_of_mem_dimensionJoins hj
    rw [htable]
    exact hsources k t hne ht (tied_iff.2 (by rw [hsides]; rfl))

/-- No source after the federated table that an equality ties to it follows the naming
convention. -/
def NativeBehind (s : Select) (n : Naming) (f : FederatedTable) : Prop :=
  ∀ t ∈ s.tables.drop (f.position + 1), s.Tied f t → n.isFederated t.name = false

instance (s : Select) (n : Naming) (f : FederatedTable) : Decidable (s.NativeBehind n f) :=
  inferInstanceAs (Decidable (∀ t ∈ s.tables.drop (f.position + 1), s.Tied f t →
    n.isFederated t.name = false))

/-- The sources before the federated table are native, so the ones after it decide. -/
theorem nativeBehind_iff {n : Naming} {s : Select} {f : FederatedTable}
    (hbefore : ∀ k t, k < f.position → s.tables[k]? = some t → n.isFederated t.name = false) :
    s.NativeBehind n f ↔ ∀ k t, k ≠ f.position → s.tables[k]? = some t → s.Tied f t →
      n.isFederated t.name = false := by
  constructor
  · intro hbehind k t hne ht htied
    rcases Nat.lt_or_gt_of_ne hne with hlt | hgt
    · exact hbefore k t hlt ht
    · have hindex : f.position + 1 + (k - (f.position + 1)) = k := by omega
      refine hbehind t (List.mem_of_getElem? (i := k - (f.position + 1)) ?_) htied
      rw [List.getElem?_drop, hindex]
      exact ht
  · intro hsources t ht htied
    obtain ⟨i, hi⟩ := List.getElem?_of_mem ht
    rw [List.getElem?_drop] at hi
    exact hsources (f.position + 1 + i) t (by omega) hi htied

end Select

namespace Split

/-- **The dimensions are native exactly if the tied sources after the federated table are**: the
tables that the joins name, and the ones that values are fetched from. -/
theorem dimensions_native_iff {n : Naming} {s : Select} {split : Split}
    (hsplit : Split.analyze? n s = some split) :
    ((∀ j ∈ split.federated.joins, n.isFederated j.table = false) ↔
      s.NativeBehind n split.federated) ∧
    ((∀ f ∈ split.filters, n.isFederated f.table = false) ↔
      s.NativeBehind n split.federated) := by
  obtain ⟨-, -, -, hjoins, hfilters, -⟩ := analyze?_eq_some hsplit
  have hbefore : ∀ k t, k < split.federated.position → s.tables[k]? = some t →
      n.isFederated t.name = false := by
    intro k t hk ht
    obtain ⟨found, hfound, rfl⟩ := Option.map_eq_some_iff.1 hsplit
    exact Select.isFederated_of_lt hfound hk ht
  have hnative : (∀ j ∈ split.federated.joins, n.isFederated j.table = false) ↔
      s.NativeBehind n split.federated := by
    rw [hjoins, Select.nativeBehind_iff hbefore]
    exact Select.forall_mem_dimensionJoins_iff (P := (n.isFederated · = false))
  have hsame : (∀ f ∈ split.filters, n.isFederated f.table = false) ↔
      ∀ j ∈ split.federated.joins, n.isFederated j.table = false := by
    rw [hfilters, List.forall_mem_map]
    rfl
  exact ⟨hnative, hsame.trans hnative⟩

/-- Impressions with their campaign and with clicks, whose table is federated as well. -/
def clickedImpressions (condition : Expr) : Select where
  items := [.column ⟨some "imp", "device"⟩]
  sources := some [
    { name := "campaigns", alias? := some "c" },
    { name := "events_aqfer.impressions", alias? := some "imp", join := .inner
      condition := some (.binary (.column ⟨some "imp", "campaign_id"⟩) .eq
        (.column ⟨some "c", "id"⟩)) },
    { name := "ads_aqfer.clicks", alias? := some "k", join := .inner, condition := some condition }]
  filter := some (.binary (.column ⟨some "k", "country"⟩) .eq (.literal ⟨"US", .string⟩))

/-- The clicks after the impressions in time. -/
def laterClicks : Expr :=
  .binary (.column ⟨some "imp", "time"⟩) .lt (.column ⟨some "k", "time"⟩)

/-- The click on each impression. -/
def clickOfImpression : Expr :=
  .binary (.column ⟨some "imp", "click_id"⟩) .eq (.column ⟨some "k", "id"⟩)

/-- Clicks that no equality ties to the impressions are no dimension. -/
theorem dimensions_native_iff_laterClicks :
    ∃ split, Split.analyze? Dialect.standard.naming (clickedImpressions laterClicks) = some split ∧
      split.filters.map DimensionFilter.table = ["campaigns"] ∧
      (clickedImpressions laterClicks).NativeBehind Dialect.standard.naming split.federated ∧
      ∀ f ∈ split.filters, Dialect.standard.naming.isFederated f.table = false := by
  obtain ⟨split, hsplit, htables, hbehind⟩ : ∃ split,
      Split.analyze? Dialect.standard.naming (clickedImpressions laterClicks) = some split ∧
      split.filters.map DimensionFilter.table = ["campaigns"] ∧
      (clickedImpressions laterClicks).NativeBehind Dialect.standard.naming split.federated :=
    ⟨_, rfl, by decide +kernel, by decide +kernel⟩
  exact ⟨split, hsplit, htables, hbehind, (dimensions_native_iff hsplit).2.2 hbehind⟩

/-- The clicks become a dimension, and their table is read by the query that fetches its values. -/
theorem fetches_federated_table :
    ∃ split, Split.analyze? Dialect.standard.naming (clickedImpressions clickOfImpression) =
        some split ∧
      (∃ j ∈ split.federated.joins, Dialect.standard.naming.isFederated j.table = true) ∧
      ∃ f ∈ split.filters, Dialect.standard.naming.isFederated f.table = true ∧
        f.fetchQuery =
          "SELECT DISTINCT click_id FROM ads_aqfer.clicks WHERE country = 'US'" := by
  exact ⟨_, rfl, by decide +kernel, by decide +kernel⟩

end Split

end QuerySplit
