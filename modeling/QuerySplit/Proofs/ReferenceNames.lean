import Mathlib.Data.List.Pairwise
import QuerySplit.Proofs.Binding
import QuerySplit.Proofs.Recognition

/-!
# Dimensions and their reference names

Columns refer to a source by its alias, or by the name of its table if it has none. A caller who
binds values refers to a dimension by a name as well, and the name is looked up among the aliases of
the dimensions first and then among their tables, in the order of the sources. The two readings
agree for every dimension with an alias. A dimension without one is reached by the name of its table
unless an earlier dimension, which then has an alias, is over the same table: that one gets the
values (`bind?_referenceName_shadowed`).

`bind?_referenceName` says for each dimension who gets the values, for statements whose sources have
different reference names.
-/

set_option autoImplicit false

namespace QuerySplit

/-! ## Different reference names -/

namespace DimensionFilter

/-- The name by which columns refer to the dimension: the alias if there is one. -/
def referenceName (f : DimensionFilter) : String :=
  f.alias?.getD f.table

variable {f : DimensionFilter}

/-- A dimension with an alias goes by it. -/
theorem referenceName_eq_alias {name : String} (h : f.alias? = some name) :
    f.referenceName = name := by
  rw [referenceName, h, Option.getD_some]

/-- A dimension without an alias goes by its table. -/
theorem referenceName_eq_table (h : f.alias? = none) : f.referenceName = f.table := by
  rw [referenceName, h, Option.getD_none]

end DimensionFilter

/-- No two sources have reference names that differ in ASCII case at most. -/
def Select.DistinctReferences (s : Select) : Prop :=
  s.tables.Pairwise fun t t' => Text.eqIgnoreCase t.referenceName t'.referenceName = false

instance (s : Select) : Decidable s.DistinctReferences :=
  inferInstanceAs (Decidable (s.tables.Pairwise fun t t' =>
    Text.eqIgnoreCase t.referenceName t'.referenceName = false))

/-- No two dimensions have reference names that differ in ASCII case at most. -/
def Split.DistinctReferences (split : Split) : Prop :=
  split.filters.Pairwise fun f g => Text.eqIgnoreCase f.referenceName g.referenceName = false

/-- The filter made for a source goes by the reference name of the source. -/
theorem Select.referenceName_of_dimensionJoin? {s : Select} {f : FederatedTable} {t : TableRef}
    {j : DimensionJoin} (h : s.dimensionJoin? f t = some j) :
    (j.filter s).referenceName = t.referenceName := by
  obtain ⟨sides, -, rfl⟩ := Option.map_eq_some_iff.1 h
  rfl

/-- Each dimension goes by the reference name of a source of its own. -/
theorem Split.distinctReferences_of_analyze? {n : Naming} {s : Select} {split : Split}
    (hsplit : Split.analyze? n s = some split) (hdistinct : s.DistinctReferences) :
    split.DistinctReferences := by
  obtain ⟨-, -, -, hjoins, hfilters, -⟩ := analyze?_eq_some hsplit
  rw [DistinctReferences, hfilters, hjoins, List.pairwise_map, Select.dimensionJoins,
    List.pairwise_filterMap]
  refine (hdistinct.sublist (List.eraseIdx_sublist ..)).imp ?_
  intro t t' hdiffer j hj j' hj'
  rw [Select.referenceName_of_dimensionJoin? hj, Select.referenceName_of_dimensionJoin? hj']
  exact hdiffer

/-! ## The lookup of a reference name -/

namespace Split

variable {split : Split} {f : DimensionFilter} {i : Nat}

/-- Where reference names are distinct, each belongs to one dimension. -/
theorem DistinctReferences.eq_of_referenceName (h : split.DistinctReferences)
    {g : DimensionFilter} (hf : f ∈ split.filters) (hg : g ∈ split.filters)
    (hsame : Text.eqIgnoreCase g.referenceName f.referenceName = true) : g = f := by
  have hsymm : Std.Symm fun f g : DimensionFilter =>
      Text.eqIgnoreCase f.referenceName g.referenceName = false :=
    ⟨fun f g hdiffer => by rwa [Text.eqIgnoreCase_comm]⟩
  refine Decidable.byContradiction fun hne => ?_
  have hdiffer := List.Pairwise.forall h hg hf hne
  rw [hsame] at hdiffer
  cases hdiffer

/-- An alias addresses the dimension that has it. -/
theorem DistinctReferences.filterFor?_alias (h : split.DistinctReferences)
    (hf : f ∈ split.filters) {name : String} (halias : f.alias? = some name) :
    split.filterFor? name = some f := by
  have hunique : ∀ g ∈ split.filters, g.alias?.any (Text.eqIgnoreCase · name) = true → g = f := by
    intro g hg hany
    obtain ⟨other, hother, hsame⟩ := (Option.any_eq_true ..).1 hany
    refine h.eq_of_referenceName hf hg ?_
    rwa [DimensionFilter.referenceName_eq_alias halias,
      DimensionFilter.referenceName_eq_alias hother]
  have hfound : (split.filters.find? fun g => g.alias?.any (Text.eqIgnoreCase · name)).isSome := by
    rw [List.find?_isSome]
    exact ⟨f, hf, by rw [halias, Option.any_some, Text.eqIgnoreCase_self]⟩
  obtain ⟨g, hg⟩ := Option.isSome_iff_exists.1 hfound
  have heq : g = f := hunique g (List.mem_of_find?_eq_some hg) (by simpa using List.find?_some hg)
  rw [filterFor?, hg, heq, Option.some_or]

/-- The table of a dimension without an alias addresses the first dimension over that table. -/
theorem DistinctReferences.filterFor?_table (h : split.DistinctReferences)
    (hf : split.filters[i]? = some f) (halias : f.alias? = none) :
    split.filterFor? f.table =
      ((split.filters.take i).find? fun g => Text.eqIgnoreCase g.table f.table).or (some f) := by
  have hmem := List.mem_of_getElem? hf
  -- an alias that equals the name of the table would be a second dimension of this reference name
  have hnone : (split.filters.find? fun g => g.alias?.any (Text.eqIgnoreCase · f.table)) =
      none := by
    rw [List.find?_eq_none]
    intro g hg hany
    obtain ⟨other, hother, hsame⟩ := (Option.any_eq_true ..).1 hany
    have heq : g = f := by
      refine h.eq_of_referenceName hmem hg ?_
      rwa [DimensionFilter.referenceName_eq_table halias,
        DimensionFilter.referenceName_eq_alias hother]
    rw [heq, halias] at hother
    cases hother
  obtain ⟨hi, hget⟩ := List.getElem?_eq_some_iff.1 hf
  calc split.filterFor? f.table
      = split.filters.find? fun g => Text.eqIgnoreCase g.table f.table := by
        rw [filterFor?, hnone, Option.none_or]
    _ = (split.filters.take i ++ f :: split.filters.drop (i + 1)).find?
          fun g => Text.eqIgnoreCase g.table f.table := by
        rw [← hget, List.getElem_cons_drop, List.take_append_drop]
    _ = ((split.filters.take i).find? fun g => Text.eqIgnoreCase g.table f.table).or (some f) := by
        rw [List.find?_append, List.find?_cons_of_pos]
        exact Text.eqIgnoreCase_self f.table

/-- No earlier dimension is the same one. -/
theorem DistinctReferences.ne_of_mem_take (h : split.DistinctReferences)
    (hf : split.filters[i]? = some f) {g : DimensionFilter} (hg : g ∈ split.filters.take i) :
    g ≠ f := by
  rintro rfl
  obtain ⟨hi, hget⟩ := List.getElem?_eq_some_iff.1 hf
  obtain ⟨k, hk, hget'⟩ := List.mem_take_iff_getElem.1 hg
  have hdiffer := List.pairwise_iff_getElem.1 h k i (by omega) hi (by omega)
  rw [hget, hget', Text.eqIgnoreCase_self] at hdiffer
  cases hdiffer

/-! ## Who gets the values -/

/-- The split with the federated column of a dimension restricted to some values, at the end of the
filter. -/
def boundTo (split : Split) (f : DimensionFilter) (values : List Expr) : Split :=
  let membership := Expr.membership ⟨none, f.federatedColumn⟩ values
  { split with
    subquery := { split.subquery with
      filter := some (match split.subquery.filter with
        | some earlier => .binary earlier .and membership
        | none => membership) } }

/-- A bind that finds a dimension binds the values to it. -/
theorem bind?_eq_some_boundTo {name : String} {values : List Expr} (hvalues : values ≠ [])
    (h : split.filterFor? name = some f) :
    split.bind? name values = some (split.boundTo f values) := by
  rw [bind?_of_filterFor? hvalues h, restrict_eq]
  rfl

/-- What a name addresses does not depend on the calls before. -/
theorem filterFor?_bindAll (split : Split) (calls : List (String × List Expr)) (name : String) :
    (split.bindAll calls).filterFor? name = split.filterFor? name := by
  rw [filterFor?, filterFor?, filters_bindAll]

/-- **Who gets the values for the reference name of a dimension.** After any calls, it is the
dimension itself if it has an alias or if no earlier dimension is over the same table. Otherwise it
is the first dimension over that table, which is another one. -/
theorem bind?_referenceName {n : Naming} {s : Select} (hsplit : Split.analyze? n s = some split)
    (hdistinct : s.DistinctReferences) (calls : List (String × List Expr))
    (hf : split.filters[i]? = some f) {values : List Expr} (hvalues : values ≠ []) :
    ((f.alias?.isSome = true ∨
          ∀ g ∈ split.filters.take i, Text.eqIgnoreCase g.table f.table = false) →
        (split.bindAll calls).bind? f.referenceName values =
          some ((split.bindAll calls).boundTo f values)) ∧
      ∀ g, f.alias? = none →
        (split.filters.take i).find? (fun g => Text.eqIgnoreCase g.table f.table) = some g →
        g ≠ f ∧ (split.bindAll calls).bind? f.referenceName values =
          some ((split.bindAll calls).boundTo g values) := by
  have hreferences := distinctReferences_of_analyze? hsplit hdistinct
  constructor
  · intro hreached
    refine bind?_eq_some_boundTo hvalues ?_
    rw [filterFor?_bindAll]
    cases halias : f.alias? with
    | some name =>
      rw [DimensionFilter.referenceName_eq_alias halias]
      exact hreferences.filterFor?_alias (List.mem_of_getElem? hf) halias
    | none =>
      have hearlier := hreached.resolve_left (by rw [halias]; nofun)
      have hfirst : (split.filters.take i).find?
          (fun g => Text.eqIgnoreCase g.table f.table) = none :=
        List.find?_eq_none.2 fun g hg => by rw [hearlier g hg]; nofun
      rw [DimensionFilter.referenceName_eq_table halias,
        hreferences.filterFor?_table hf halias, hfirst, Option.none_or]
  · intro g halias hfirst
    constructor
    · exact hreferences.ne_of_mem_take hf (List.mem_of_find?_eq_some hfirst)
    · refine bind?_eq_some_boundTo hvalues ?_
      rw [filterFor?_bindAll, DimensionFilter.referenceName_eq_table halias,
        hreferences.filterFor?_table hf halias, hfirst, Option.some_or]

/-- Impressions of campaigns and of their parents, with an alias for the campaigns alone, and of
advertisers. -/
def impressionFamilies : Select where
  items := [.column ⟨some "imp", "device"⟩]
  sources := some [
    { name := "events_aqfer.impressions", alias? := some "imp" },
    { name := "campaigns", alias? := some "c", join := .inner
      condition := some (.binary (.column ⟨some "imp", "campaign_id"⟩) .eq
        (.column ⟨some "c", "id"⟩)) },
    { name := "campaigns", join := .inner
      condition := some (.binary (.column ⟨some "imp", "parent_id"⟩) .eq
        (.column ⟨some "campaigns", "id"⟩)) },
    { name := "advertisers", join := .inner
      condition := some (.binary (.column ⟨some "imp", "advertiser_id"⟩) .eq
        (.column ⟨some "advertisers", "id"⟩)) }]

/-- The advertisers get the values for their table. The values for the campaigns as a table go to
the first dimension over it, which has an alias, also where the parents are meant. -/
theorem bind?_referenceName_impressionFamilies :
    impressionFamilies.DistinctReferences ∧
      ∃ split campaigns parents advertisers,
        Split.analyze? {} impressionFamilies = some split ∧
        split.filters = [campaigns, parents, advertisers] ∧
        parents.referenceName = "campaigns" ∧ campaigns.federatedColumn = "campaign_id" ∧
        (split.bindAll [("c", [.literal ⟨"7", .number⟩])]).bind? "advertisers"
            [.literal ⟨"4", .number⟩] =
          some ((split.bindAll [("c", [.literal ⟨"7", .number⟩])]).boundTo advertisers
            [.literal ⟨"4", .number⟩]) ∧
        split.bind? "campaigns" [.literal ⟨"8", .number⟩] =
          some (split.boundTo campaigns [.literal ⟨"8", .number⟩]) := by
  have hdistinct : impressionFamilies.DistinctReferences := by decide +kernel
  obtain ⟨split, hsplit⟩ : ∃ split, Split.analyze? {} impressionFamilies = some split := ⟨_, rfl⟩
  obtain ⟨campaigns, parents, advertisers, hfilters⟩ :
      ∃ campaigns parents advertisers, split.filters = [campaigns, parents, advertisers] := by
    cases hsplit
    exact ⟨_, _, _, rfl⟩
  have hnames : split.filters.map (fun f => (f.table, f.alias?, f.federatedColumn)) =
      [("campaigns", some "c", "campaign_id"), ("campaigns", none, "parent_id"),
        ("advertisers", none, "advertiser_id")] := by
    cases hsplit
    decide +kernel
  simp only [hfilters, List.map_cons, List.map_nil, List.cons.injEq, Prod.mk.injEq, and_true]
    at hnames
  obtain ⟨⟨hcampaigns, -, hcolumn⟩, ⟨hparents, hnone, -⟩, hadvertisers, hnone', -⟩ := hnames
  have hearlier : ∀ g ∈ split.filters.take 2,
      Text.eqIgnoreCase g.table advertisers.table = false := by
    simp only [hfilters, List.take_succ_cons, List.take_zero, List.forall_mem_cons, hcampaigns,
      hparents, hadvertisers]
    exact ⟨by decide +kernel, by decide +kernel, List.forall_mem_nil _⟩
  have hfirst : (split.filters.take 1).find?
      (fun g => Text.eqIgnoreCase g.table parents.table) = some campaigns := by
    rw [hfilters, List.take_succ_cons, List.find?_cons_of_pos]
    rw [hcampaigns, hparents, Text.eqIgnoreCase_self]
  have hlast := (bind?_referenceName hsplit hdistinct [("c", [.literal ⟨"7", .number⟩])] (i := 2)
    (by rw [hfilters]; rfl) (List.cons_ne_nil (.literal ⟨"4", .number⟩) [])).1 (.inr hearlier)
  have hshadowed := ((bind?_referenceName hsplit hdistinct [] (i := 1) (by rw [hfilters]; rfl)
    (List.cons_ne_nil (.literal ⟨"8", .number⟩) [])).2 campaigns hnone hfirst).2
  have hreference : parents.referenceName = "campaigns" :=
    (DimensionFilter.referenceName_eq_table hnone).trans hparents
  rw [DimensionFilter.referenceName_eq_table hnone', hadvertisers] at hlast
  rw [hreference] at hshadowed
  exact ⟨hdistinct, split, campaigns, parents, advertisers, hsplit, hfilters, hreference, hcolumn,
    hlast, hshadowed⟩

/-- The reference name of a dimension without an alias does not reach it where an earlier one with
an alias is over the same table. -/
theorem bind?_referenceName_shadowed :
    impressionFamilies.DistinctReferences ∧
      ∃ split f, Split.analyze? {} impressionFamilies = some split ∧ f ∈ split.filters ∧
        f.referenceName = "campaigns" ∧ f.federatedColumn = "parent_id" ∧
        (split.bind? f.referenceName [.literal ⟨"8", .number⟩]).isSome = true ∧
        split.bind? f.referenceName [.literal ⟨"8", .number⟩] ≠
          some (split.boundTo f [.literal ⟨"8", .number⟩]) := by
  refine ⟨by decide +kernel, _, _, rfl, List.mem_cons_of_mem _ (List.mem_cons_self ..), rfl, rfl,
    by decide +kernel, by decide +kernel⟩

end Split

end QuerySplit
