import Mathlib.Data.List.Forall2
import QuerySplit.Proofs.Isolation

/-!
# The dimensions of a split

The sources are passed over twice. First each source that an equality ties to the federated table
gets a join; later each join gets a filter, and for that its source is looked up again by name and
alias. Sources may share both, so the lookup can end at another source than the one the join was
made for. This makes no difference to the filter: the conditions that a source has depend on its
name and alias alone (`Select.conditions_filter`).

So joins and filters go hand in hand with the tied sources, in the order of the sources
(`Split.dimensions_correspond`).
-/

set_option autoImplicit false

namespace QuerySplit

/-- What is picked from a list comes, in order, from the elements that something is picked for. -/
theorem forall₂_filter_filterMap {α β : Type} {g : α → Option β} {p : α → Prop} [DecidablePred p]
    (hp : ∀ x, p x ↔ (g x).isSome = true) (xs : List α) :
    List.Forall₂ (fun x y => x ∈ xs ∧ g x = some y) (xs.filter (p ·)) (xs.filterMap g) := by
  induction xs with
  | nil => exact .nil
  | cons x xs ih =>
    have hrest := ih.imp fun _ _ hpicked => hpicked.imp_left (List.mem_cons_of_mem x)
    cases hx : g x with
    | none =>
      have hnot : ¬ p x := by rw [hp, hx]; exact Bool.false_ne_true
      rw [List.filter_cons_of_neg (by simpa using hnot), List.filterMap_cons_none hx]
      exact hrest
    | some y =>
      have hpicks : p x := by rw [hp, hx]; rfl
      rw [List.filter_cons_of_pos (by simpa using hpicks), List.filterMap_cons_some hx]
      exact .cons ⟨List.mem_cons_self, hx⟩ hrest

namespace Select

/-! ## Sources that are tied to the federated table -/

/-- An equality ties the source to the federated table: in the source's own condition one of a
federated column with a column of the source or an unqualified one, in the condition of the
federated table one of a federated column with a column of the source. -/
def Tied (s : Select) (f : FederatedTable) (t : TableRef) : Prop :=
  (∃ e ∈ t.condition, e.Equates f.owns t.owns ∨ e.Equates f.owns (·.table.isNone)) ∨
    ∃ e ∈ s.federatedCondition? f, e.Equates f.owns t.owns

/-- A source is tied to the federated table when its join equates a column of each. -/
theorem tied_iff {s : Select} {f : FederatedTable} {t : TableRef} :
    s.Tied f t ↔ (s.joinSides? f t).isSome = true := by
  rw [joinSides?, Option.isSome_or, Bool.or_eq_true, Option.isSome_bind, Option.isSome_bind,
    Option.any_eq_true, Option.any_eq_true]
  simp only [Expr.attachedJoinSides?, Option.isSome_or, Bool.or_eq_true, Expr.joinSides?,
    Expr.isSome_sidesBy?_iff]
  rfl

instance (s : Select) (f : FederatedTable) (t : TableRef) : Decidable (s.Tied f t) :=
  decidable_of_iff _ tied_iff.symm

/-- The sources that become dimensions are the tied ones. -/
theorem tied_iff_isSome_dimensionJoin? {s : Select} {f : FederatedTable} {t : TableRef} :
    s.Tied f t ↔ (s.dimensionJoin? f t).isSome = true := by
  rw [tied_iff, dimensionJoin?, Option.isSome_map]

/-! ## The conditions of a dimension -/

/-- Some condition of the source is stated by the conjunct. -/
def StatesSome (t : TableRef) (d : Expr) : Prop :=
  ∃ c, States t d c

/-- A conjunct states something of a source when a condition is read off it. -/
theorem statesSome_iff {t : TableRef} {d : Expr} :
    StatesSome t d ↔ (conditionOf? t d).isSome = true := by
  simp only [StatesSome, Option.isSome_iff_exists, conditionOf?_eq_some_iff]

instance (t : TableRef) (d : Expr) : Decidable (StatesSome t d) :=
  decidable_of_iff _ statesSome_iff.symm

/-- The conditions of a source are those that conjuncts state, in their order. -/
theorem forall₂_states_conditionsOf (s : Select) (t : TableRef) :
    List.Forall₂ (States t) (s.conjuncts.filter (StatesSome t ·)) (s.conditionsOf t) := by
  rw [conditionsOf_eq]
  refine (forall₂_filter_filterMap (fun d => statesSome_iff) s.conjuncts).imp ?_
  intro d c hstates
  exact conditionOf?_eq_some_iff.1 hstates.2

/-- A join and a filter are those of a source. -/
structure DimensionOf (s : Select) (t : TableRef) (j : DimensionJoin) (f : DimensionFilter) :
    Prop where
  join_table : j.table = t.name
  join_alias : j.alias? = t.alias?
  table : f.table = j.table
  alias? : f.alias? = j.alias?
  federatedColumn : f.federatedColumn = j.federatedColumn
  conditions : List.Forall₂ (States t) (s.conjuncts.filter (StatesSome t ·)) f.conditions
  /-- The join names the first condition. -/
  filterColumn : j.filterColumn = f.conditions.head?.map FilterCondition.column
  filterOp : j.filterOp = f.conditions.head?.map FilterCondition.op
  filterValue : j.filterValue = f.conditions.head?.map FilterCondition.value
  unfiltered : j.filterColumn = none ∧ j.filterOp = none ∧ j.filterValue = none ↔
    f.conditions = []

/-- The join made for a source and the filter made for the join belong to the source. -/
theorem dimensionOf_of_dimensionJoin? {s : Select} {f : FederatedTable} {t : TableRef}
    {j : DimensionJoin} (ht : t ∈ s.tables) (h : s.dimensionJoin? f t = some j) :
    s.DimensionOf t j (j.filter s) := by
  obtain ⟨sides, -, hj⟩ := Option.map_eq_some_iff.1 h
  obtain ⟨k, hk⟩ := List.getElem?_of_mem ht
  have hconditions : (j.filter s).conditions = s.conditionsOf t :=
    conditions_filter hk (by rw [← hj]) (by rw [← hj])
  subst hj
  exact {
    join_table := rfl
    join_alias := rfl
    table := rfl
    alias? := rfl
    federatedColumn := rfl
    conditions := hconditions ▸ s.forall₂_states_conditionsOf t
    filterColumn := by rw [hconditions]
    filterOp := by rw [hconditions]
    filterValue := by rw [hconditions]
    unfiltered := by
      rw [hconditions]
      simp [List.head?_eq_none_iff] }

end Select

namespace Split

/-- **Joins and filters correspond to the sources.** Each source besides the federated one that an
equality ties to the federated table has a join and a filter of its own, in the order of the
sources, and no other source has. Both go by the name and alias of the source; the conditions of
the filter are those that the conjuncts of the `WHERE` clause state for the source, and the join
names the first of them. -/
theorem dimensions_correspond {n : Naming} {s : Select} {split : Split}
    (hsplit : Split.analyze? n s = some split) :
    split.filters.length = split.federated.joins.length ∧
    List.Forall₂ (fun t dimension => s.DimensionOf t dimension.1 dimension.2)
      ((s.othersThan split.federated.position).filter (s.Tied split.federated ·))
      (split.federated.joins.zip split.filters) := by
  obtain ⟨-, -, -, hjoins, hfilters, -⟩ := analyze?_eq_some hsplit
  constructor
  · rw [hfilters, List.length_map]
  · rw [hfilters, ← List.map_prod_left_eq_zip, List.forall₂_map_right_iff, hjoins]
    refine (forall₂_filter_filterMap (fun t => Select.tied_iff_isSome_dimensionJoin?) _).imp ?_
    intro t j hpicked
    obtain ⟨hother, hjoin⟩ := hpicked
    exact Select.dimensionOf_of_dimensionJoin? (List.mem_of_mem_eraseIdx hother) hjoin

/-- Impressions with their campaign, the campaign before it under the same alias, the impression
before them and all regions. -/
def repeatedCampaigns : Select where
  items := [.column ⟨some "imp", "device"⟩]
  sources := some [
    { name := "campaigns", alias? := some "c" },
    { name := "events_aqfer.impressions", alias? := some "imp", join := .inner
      condition := some (.binary (.column ⟨some "c", "id"⟩) .eq
        (.column ⟨some "imp", "campaign_id"⟩)) },
    { name := "campaigns", alias? := some "c", join := .inner
      condition := some (.binary (.column ⟨some "imp", "former_campaign_id"⟩) .eq
        (.column ⟨none, "id"⟩)) },
    { name := "regions", join := .cross },
    { name := "events_aqfer.impressions", alias? := some "prev", join := .left
      condition := some (.binary (.column ⟨some "imp", "former_id"⟩) .eq
        (.column ⟨some "prev", "id"⟩)) }]
  filter := some (.binary
    (.binary (.column ⟨some "C", "cap"⟩) .lte (.literal ⟨"10", .number⟩)) .and
    (.binary
      (.binary (.literal ⟨"active", .string⟩) .eq (.column ⟨some "c", "status"⟩)) .and
      (.binary (.column ⟨some "campaigns", "name"⟩) .like (.literal ⟨"Acme%", .string⟩))))

/-- Each occurrence of the campaigns has a filter of its own, and the regions have none. -/
theorem dimensions_correspond_repeatedCampaigns :
    ∃ split, Split.analyze? {} repeatedCampaigns = some split ∧
      split.federated.position = 1 ∧
      split.filters.map (fun f =>
        (f.alias?, f.federatedColumn, f.conditions.map FilterCondition.column)) =
        [(some "c", "campaign_id", ["cap", "name"]),
          (some "c", "former_campaign_id", ["cap", "name"]),
          (some "prev", "former_id", [])] ∧
      split.filters.length = split.federated.joins.length ∧
      List.Forall₂ (fun t dimension => repeatedCampaigns.DimensionOf t dimension.1 dimension.2)
        ((repeatedCampaigns.othersThan split.federated.position).filter
          (repeatedCampaigns.Tied split.federated ·))
        (split.federated.joins.zip split.filters) := by
  obtain ⟨split, hsplit⟩ : ∃ split, Split.analyze? {} repeatedCampaigns = some split := ⟨_, rfl⟩
  obtain ⟨hlength, hdimensions⟩ := dimensions_correspond hsplit
  refine ⟨split, hsplit, ?_, ?_, hlength, hdimensions⟩
  · cases hsplit
    rfl
  · cases hsplit
    decide +kernel

end Split

end QuerySplit
