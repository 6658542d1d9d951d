import Mathlib.Data.List.Forall2
import Mathlib.Data.List.Induction
import QuerySplit.Proofs.Isolation

/-!
# Runs of binds

What a sequence of calls that bind values comes to, for any split. A call binds something if and
only if it has values and some filter goes by its name (`Split.Accepts`); whether one does is not
changed by other calls. Each call that binds adds one test at the end of the conjuncts of the
subquery's `WHERE` clause, whatever stood there before: a missing clause, a chain, or an
alternative, which stays one conjunct (`Select.conjuncts_restrict`). Nothing else of the split
changes.

Main statement: `runs_of_binds`.
-/

set_option autoImplicit false

namespace QuerySplit

/-- The name is the alias of the dimension or the name of its table, in any ASCII case. -/
def DimensionFilter.GoesBy (f : DimensionFilter) (name : String) : Prop :=
  f.alias?.any (Text.eqIgnoreCase · name) = true ∨ Text.eqIgnoreCase f.table name = true

instance (f : DimensionFilter) (name : String) : Decidable (f.GoesBy name) :=
  inferInstanceAs (Decidable (_ ∨ _))

/-- A further condition adds its conjuncts to those of the `WHERE` clause. -/
theorem Select.conjuncts_restrict (subquery : Select) (condition : Expr) :
    (Split.restrict subquery condition).conjuncts =
      subquery.conjuncts ++ condition.conjuncts := by
  rw [Split.restrict_eq, conjuncts, conjuncts]
  cases subquery.filter <;> rfl

namespace Split

/-! ## One call -/

/-- The call has values, and some filter goes by its name. -/
def Accepts (split : Split) (call : String × List Expr) : Prop :=
  call.2 ≠ [] ∧ ∃ f ∈ split.filters, f.GoesBy call.1

instance (split : Split) (call : String × List Expr) : Decidable (split.Accepts call) :=
  inferInstanceAs (Decidable (_ ∧ _))

variable {split : Split} {call : String × List Expr}

/-- The filter that a name addresses goes by it. -/
theorem goesBy_of_filterFor? {name : String} {f : DimensionFilter}
    (h : split.filterFor? name = some f) : f.GoesBy name := by
  rw [filterFor?, Option.or_eq_some_iff] at h
  rcases h with halias | ⟨-, htable⟩
  · exact .inl (by simpa using List.find?_some halias)
  · exact .inr (by simpa using List.find?_some htable)

/-- A filter is found for a name when some filter goes by it. -/
theorem isSome_filterFor?_iff {name : String} :
    (split.filterFor? name).isSome = true ↔ ∃ f ∈ split.filters, f.GoesBy name := by
  rw [filterFor?, Option.isSome_or, Bool.or_eq_true, List.find?_isSome, List.find?_isSome]
  simp only [DimensionFilter.GoesBy, and_or_left, exists_or]

/-- A bind succeeds exactly on the calls that the split accepts. -/
theorem isSome_bind?_iff :
    (split.bind? call.1 call.2).isSome = true ↔ split.Accepts call := by
  rw [Accepts, ← isSome_filterFor?_iff, bind?]
  cases hvalues : call.2 with
  | nil => simp
  | cons v values => simp

/-! ## A sequence of calls -/

/-- A run of calls ends with its last call, which leaves the split as it is when it is refused. -/
theorem bindAll_concat (split : Split) (calls : List (String × List Expr))
    (call : String × List Expr) :
    split.bindAll (calls ++ [call]) =
      ((split.bindAll calls).bind? call.1 call.2).getD (split.bindAll calls) := by
  rw [bindAll, List.foldl_append]
  rfl

/-- Calls do not change what a further call comes to. -/
theorem accepts_bindAll (calls : List (String × List Expr)) :
    (split.bindAll calls).Accepts call ↔ split.Accepts call := by
  rw [Accepts, Accepts, filters_bindAll]

/-- A call that binds adds the test of the federated column of the filter that it addresses. -/
def Adds (split : Split) (call : String × List Expr) (test : Expr) : Prop :=
  ∃ f ∈ split.filters, f.GoesBy call.1 ∧ split.filterFor? call.1 = some f ∧
    test = .membership ⟨none, f.federatedColumn⟩ call.2

/-- Each call that binds adds one test at the end, in the order of the calls. -/
theorem exists_tests_bindAll (split : Split) (calls : List (String × List Expr)) :
    ∃ tests, (split.bindAll calls).subquery.conjuncts = split.subquery.conjuncts ++ tests ∧
      List.Forall₂ split.Adds (calls.filter (split.Accepts ·)) tests := by
  -- the last call meets the filters that the first one met
  induction calls using List.reverseRecOn with
  | nil => exact ⟨[], (List.append_nil _).symm, .nil⟩
  | append_singleton calls call ih =>
    obtain ⟨tests, hconjuncts, hadds⟩ := ih
    rw [bindAll_concat, List.filter_append]
    by_cases haccepts : split.Accepts call
    · obtain ⟨f, hf⟩ := Option.isSome_iff_exists.1 (isSome_filterFor?_iff.2 haccepts.2)
      have hbound := bind?_of_filterFor? haccepts.1
        ((filterFor?_bindAll split calls call.1).trans hf)
      refine ⟨tests ++ [.membership ⟨none, f.federatedColumn⟩ call.2], ?_, ?_⟩
      · rw [hbound, Option.getD_some, Select.conjuncts_restrict, hconjuncts, List.append_assoc]
        rfl
      · have hlast : [call].filter (split.Accepts ·) = [call] := by simp [haccepts]
        rw [hlast]
        exact List.rel_append hadds (.cons ⟨f, mem_filters_of_filterFor? hf,
          goesBy_of_filterFor? hf, hf, rfl⟩ .nil)
    · have hnone : (split.bindAll calls).bind? call.1 call.2 = none := by
        rw [← Option.not_isSome_iff_eq_none, isSome_bind?_iff, accepts_bindAll]
        exact haccepts
      refine ⟨tests, ?_, ?_⟩
      · rw [hnone, Option.getD_none, hconjuncts]
      · have hlast : [call].filter (split.Accepts ·) = [] := by simp [haccepts]
        rw [hlast, List.append_nil]
        exact hadds

/-- Only the filter of the subquery ever changes. -/
theorem bindAll_eq (split : Split) (calls : List (String × List Expr)) :
    split.bindAll calls = { split with
      subquery := { split.subquery with filter := (split.bindAll calls).subquery.filter } } :=
  bindAll_induction
    (P := fun later => later = { split with
      subquery := { split.subquery with filter := later.subquery.filter } }) rfl
    fun _ _ _ _ _ hbefore => by rw [hbefore]; rfl

/-- **What runs of binds come to.** A call binds something if and only if it has values and some
filter goes by its name, and otherwise leaves the split as it was. After all calls the conjuncts of
the subquery are those it had, followed by one test for each call that bound, in the order of the
calls. The rest of the split is as before. -/
theorem runs_of_binds (split : Split) (calls : List (String × List Expr)) :
    (∀ (i : Nat) (call : String × List Expr), calls[i]? = some call →
      (((split.bindAll (calls.take i)).bind? call.1 call.2).isSome = true ↔
        split.Accepts call) ∧
      ((split.bindAll (calls.take i)).bind? call.1 call.2 = none →
        split.bindAll (calls.take (i + 1)) = split.bindAll (calls.take i))) ∧
    (∃ tests, (split.bindAll calls).subquery.conjuncts = split.subquery.conjuncts ++ tests ∧
      List.Forall₂ split.Adds (calls.filter (split.Accepts ·)) tests) ∧
    split.bindAll calls = { split with
      subquery := { split.subquery with filter := (split.bindAll calls).subquery.filter } } := by
  refine ⟨fun i call hcall => ⟨?_, fun hnone => ?_⟩, exists_tests_bindAll split calls,
    bindAll_eq split calls⟩
  · rw [isSome_bind?_iff, accepts_bindAll]
  · rw [List.take_add_one, hcall, Option.toList_some, bindAll_concat, hnone, Option.getD_none]

/-- The impressions of two devices, with their families. -/
def deviceFamilies : Select :=
  { impressionFamilies with
    filter := some (.binary
      (.binary (.column ⟨some "imp", "device"⟩) .eq (.literal ⟨"tv", .string⟩)) .or
      (.binary (.column ⟨some "imp", "device"⟩) .eq (.literal ⟨"phone", .string⟩))) }

/-- Calls by an alias, by no name, without values and by the name of a table. -/
def familyCalls : List (String × List Expr) :=
  [("C", [.literal ⟨"7", .number⟩]), ("publishers", [.literal ⟨"1", .number⟩]),
    ("campaigns", []), ("ADVERTISERS", [.literal ⟨"4", .number⟩])]

/-- The first and the last call bind, after the alternative between the devices. -/
theorem runs_of_binds_deviceFamilies :
    ∃ split, Split.analyze? {} deviceFamilies = some split ∧
      split.subquery.conjuncts.length = 1 ∧
      familyCalls.filter (split.Accepts ·) =
        [("C", [.literal ⟨"7", .number⟩]), ("ADVERTISERS", [.literal ⟨"4", .number⟩])] ∧
      (split.bindAll (familyCalls.take 1)).bind? "publishers" [.literal ⟨"1", .number⟩] = none ∧
      split.bindAll (familyCalls.take 2) = split.bindAll (familyCalls.take 1) ∧
      ∃ tests, (split.bindAll familyCalls).subquery.conjuncts =
          split.subquery.conjuncts ++ tests ∧ tests.length = 2 := by
  obtain ⟨split, hsplit⟩ : ∃ split, Split.analyze? {} deviceFamilies = some split := ⟨_, rfl⟩
  obtain ⟨hcalls, ⟨tests, hconjuncts, hadds⟩, -⟩ := runs_of_binds split familyCalls
  have hbinding : familyCalls.filter (split.Accepts ·) =
      [("C", [.literal ⟨"7", .number⟩]), ("ADVERTISERS", [.literal ⟨"4", .number⟩])] := by
    cases hsplit
    decide +kernel
  have hnone : (split.bindAll (familyCalls.take 1)).bind? "publishers"
      [.literal ⟨"1", .number⟩] = none := by
    cases hsplit
    decide +kernel
  have hlength : tests.length = 2 := by rw [← hadds.length_eq, hbinding]; rfl
  have hone : split.subquery.conjuncts.length = 1 := by
    cases hsplit
    decide +kernel
  exact ⟨split, hsplit, hone, hbinding, hnone, (hcalls 1 _ rfl).2 hnone, tests, hconjuncts, hlength⟩

end Split

end QuerySplit
