import QuerySplit.Split.Analysis

/-!
# Binding values

A call binds values for the filter that its name addresses, and restricts the subquery by one more
condition; everything else of the split stays. A call without values or without such a filter does
nothing. So what a restriction to the values of any filter keeps, a sequence of calls keeps
(`bindAll_induction`).
-/

set_option autoImplicit false

namespace QuerySplit.Split

/-! ## One call -/

/-- A further condition stands at the end of the chain of the earlier ones. -/
theorem restrict_eq (subquery : Select) (condition : Expr) :
    restrict subquery condition = { subquery with
      filter := some (match subquery.filter with
        | some earlier => .binary earlier .and condition
        | none => condition) } := by
  rw [restrict]
  cases subquery.filter <;> rfl

/-- What a bind that succeeds has done: it found a filter and added one membership test to the
subquery, nothing else. -/
theorem bind?_eq_some {split bound : Split} {name : String} {values : List Expr}
    (h : split.bind? name values = some bound) :
    ∃ f, split.filterFor? name = some f ∧
      bound = { split with
        subquery := restrict split.subquery (.membership ⟨none, f.federatedColumn⟩ values) } := by
  rw [bind?] at h
  split at h
  · cases h
  · obtain ⟨f, hf, rfl⟩ := Option.map_eq_some_iff.1 h
    exact ⟨f, hf, rfl⟩

/-- Whether a call binds anything depends on its name, its values and the filters. -/
theorem isSome_bind?_congr {split other : Split} (h : split.filters = other.filters)
    (name : String) (values : List Expr) :
    (split.bind? name values).isSome = (other.bind? name values).isSome := by
  rw [bind?, bind?, filterFor?, filterFor?, h]
  split
  · rfl
  · rw [Option.isSome_map, Option.isSome_map]

/-- The filter found for a name is one of the filters of the split. -/
theorem mem_filters_of_filterFor? {split : Split} {name : String} {f : DimensionFilter}
    (h : split.filterFor? name = some f) : f ∈ split.filters := by
  rw [filterFor?, Option.or_eq_some_iff] at h
  rcases h with halias | ⟨-, htable⟩
  · exact List.mem_of_find?_eq_some halias
  · exact List.mem_of_find?_eq_some htable

/-- A bind with values succeeds once a filter is found for the name. -/
theorem bind?_of_filterFor? {split : Split} {name : String} {values : List Expr}
    {f : DimensionFilter} (hvalues : values ≠ []) (h : split.filterFor? name = some f) :
    split.bind? name values = some { split with
      subquery := restrict split.subquery (.membership ⟨none, f.federatedColumn⟩ values) } := by
  rw [bind?, h, if_neg (by simpa using hvalues), Option.map_some]

/-! ## A sequence of calls -/

/-- The split after a sequence of calls, each with a name and values. -/
def bindAll (split : Split) (calls : List (String × List Expr)) : Split :=
  calls.foldl (fun split call => (split.bind? call.1 call.2).getD split) split

/-- What a restriction to values of any filter keeps, a sequence of calls keeps. -/
theorem bindAll_induction {P : Split → Prop} {split : Split} {calls : List (String × List Expr)}
    (hstart : P split)
    (hrestrict : ∀ call ∈ calls, ∀ f ∈ split.filters, ∀ before, P before →
      P { before with
        subquery := restrict before.subquery (.membership ⟨none, f.federatedColumn⟩ call.2) }) :
    P (split.bindAll calls) := by
  induction calls generalizing split with
  | nil => exact hstart
  | cons call rest ih =>
    obtain ⟨hcall, hrest⟩ := List.forall_mem_cons.1 hrestrict
    show P (((split.bind? call.1 call.2).getD split).bindAll rest)
    cases hbound : split.bind? call.1 call.2 with
    | none => exact ih hstart hrest
    | some bound =>
      obtain ⟨f, hf, rfl⟩ := bind?_eq_some hbound
      exact ih (hcall f (mem_filters_of_filterFor? hf) split hstart) hrest

/-- Calls never change the filters that later calls are matched with. -/
@[simp]
theorem filters_bindAll (split : Split) (calls : List (String × List Expr)) :
    (split.bindAll calls).filters = split.filters :=
  bindAll_induction (P := fun later => later.filters = split.filters) rfl
    fun _ _ _ _ _ hbefore => hbefore

end QuerySplit.Split
