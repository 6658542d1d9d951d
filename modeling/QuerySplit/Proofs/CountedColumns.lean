import QuerySplit.Expr.Qualifier
import QuerySplit.Proofs.CountingOutcome

/-!
# Whose keys are counted

Counting asks the variants of the first source for a key of the name that a column has, and does not
look at its qualifier: dropping the qualifiers of the select list before counting or after it comes
to the same. So a count of the distinct values of a column of another source becomes a count of rows
where the first source happens to have a key of that name
(`counting_replaces_column_of_other_source`), though the key says nothing about that column.

`counting_ignores_qualifiers` states the law, and for which statements counting replaces counts of
columns of the first source only: those in which no column with the name of a key is counted under
the qualifier of something else.
-/

set_option autoImplicit false

namespace QuerySplit

/-- The column may be one of the table: it is unqualified, or qualified with the table. -/
def TableRef.MayOwn (t : TableRef) (c : ColumnRef) : Prop :=
  c.table = none ∨ t.owns c = true

namespace Expr

variable {e : Expr} {c : ColumnRef}

/-- An expression counts one column at most. -/
theorem CountsDistinct.unique {c' : ColumnRef} (h : e.CountsDistinct c)
    (h' : e.CountsDistinct c') : c = c' :=
  Option.some.inj ((countedColumn?_eq_some.2 h).symm.trans (countedColumn?_eq_some.2 h'))

/-! ## Dropping qualifiers -/

/-- A call on one column alone becomes a call on one column. -/
theorem unqualified_eq_call {name : String} (h : e.unqualified = .call name [.column c] true) :
    ∃ c', e = .call name [.column c'] true ∧ c'.unqualified = c := by
  cases e with
  | call other args distinct =>
    rw [unqualified] at h
    obtain ⟨rfl, hargs, rfl⟩ := Expr.call.inj h
    cases args with
    | nil => cases hargs
    | cons arg rest =>
      rw [unqualifiedList] at hargs
      obtain ⟨harg, hrest⟩ := List.cons.inj hargs
      cases rest with
      | cons _ _ => cases hrest
      | nil =>
        cases arg with
        | column c' => exact ⟨c', rfl, Expr.column.inj harg⟩
        | _ => cases harg
  | _ => cases h

/-- Without qualifiers, an expression counts the distinct values of the same column, up to its
qualifier. -/
theorem countedColumn?_unqualified (e : Expr) :
    e.unqualified.countedColumn? = e.countedColumn?.map ColumnRef.unqualified := by
  cases h : e.countedColumn? with
  | some c =>
    obtain ⟨name, rfl, hname⟩ := countedColumn?_eq_some.1 h
    exact if_pos hname
  | none =>
    rw [Option.map_none, countedColumn?_eq_none_iff]
    rintro c ⟨name, heq, hname⟩
    obtain ⟨c', rfl, -⟩ := unqualified_eq_call heq
    exact countedColumn?_eq_none_iff.1 h c' ⟨name, rfl, hname⟩

/-- Whether an entry counts a key does not depend on qualifiers. -/
theorem countsKeyOf_unqualified (variants : List Variant) (e : Expr) :
    e.unqualified.countsKeyOf variants = e.countsKeyOf variants := by
  rw [countsKeyOf, countsKeyOf, countedColumn?_unqualified]
  cases e.countedColumn? <;> rfl

/-- Counting rows and dropping qualifiers may be done in either order. -/
theorem countingRows_unqualified (variants : List Variant) (e : Expr) :
    e.unqualified.countingRows variants = (e.countingRows variants).unqualified := by
  rw [countingRows, countingRows, countsKeyOf_unqualified]
  split <;> rfl

end Expr

/-- Whether a select list counts distinct values of a column does not depend on qualifiers. -/
theorem Select.countsDistinct_unqualified {s : Select} :
    { s with items := s.items.map Expr.unqualified }.CountsDistinct ↔ s.CountsDistinct := by
  constructor
  · rintro ⟨bare, hbare, c, name, heq, hname⟩
    obtain ⟨e, he, rfl⟩ := List.mem_map.1 hbare
    obtain ⟨c', rfl, -⟩ := Expr.unqualified_eq_call heq
    exact ⟨_, he, c', name, rfl, hname⟩
  · rintro ⟨e, he, c, name, rfl, hname⟩
    exact ⟨_, List.mem_map_of_mem he, c.unqualified, name, rfl, hname⟩

/-- The work with no qualifiers in the select list. -/
def Work.withBareItems (work : Work) : Work :=
  { work with statement.items := work.statement.items.map Expr.unqualified }

namespace Rule

variable {ctx : Context} {work : Work}

/-- Dropping the qualifiers of the select list commutes with counting. -/
theorem countRowsForKeys_withBareItems (ctx : Context) (work : Work) :
    countRowsForKeys ctx work.withBareItems =
      ((countRowsForKeys ctx work).1.withBareItems, (countRowsForKeys ctx work).2) := by
  rcases work.statement.idle_or_counts with hidle | ⟨table, hfirst, hcounts⟩
  · have hbare : work.withBareItems.statement.firstTable? = none ∨
        ¬ work.withBareItems.statement.CountsDistinct :=
      hidle.imp id (mt Select.countsDistinct_unqualified.1)
    rw [countRowsForKeys_of_idle hidle, countRowsForKeys_of_idle hbare]
  · -- both statements have the same first source, so both ask for its base after the same lookups
    have hbareFirst : work.withBareItems.statement.firstTable? = some table := hfirst
    rw [countRowsForKeys_of_counts hfirst hcounts, countRowsForKeys_of_counts hbareFirst
      (Select.countsDistinct_unqualified.2 hcounts)]
    have hlookups : work.withBareItems.lookups = work.lookups := rfl
    rw [hlookups]
    cases ctx.provider.answer work.lookups (baseName table.name) with
    | error error => rfl
    | ok variants =>
      have hitems : work.withBareItems.statement.items.map (Expr.countingRows variants) =
          (work.statement.items.map (Expr.countingRows variants)).map Expr.unqualified := by
        simp only [Work.withBareItems, List.map_map, Function.comp_def,
          Expr.countingRows_unqualified]
      have hchanged : work.withBareItems.statement.items.map (Expr.countingRows variants) =
            work.withBareItems.statement.items ↔
          work.statement.items.map (Expr.countingRows variants) = work.statement.items := by
        rw [Expr.map_countingRows_eq_self_iff, Expr.map_countingRows_eq_self_iff,
          Work.withBareItems, List.any_map]
        simp only [Function.comp_def, Expr.countsKeyOf_unqualified]
      simp only [ne_eq, hchanged]
      rw [hitems]
      rfl

/-! ## Replaced entries -/

/-- An entry is replaced if it counts a column whose name some variant has as a key. -/
theorem replaced_iff {i : Nat} {e : Expr} (he : work.statement.items[i]? = some e) :
    (countRowsForKeys ctx work).1.statement.items[i]? ≠ some e ↔
      ∃ table variants c, work.statement.firstTable? = some table ∧
        ctx.provider.answer work.lookups (baseName table.name) = .ok variants ∧
        e.CountsDistinct c ∧ c.NamesKey variants := by
  have houtcome := countingOutcome_iff.2 (Eq.refl (countRowsForKeys ctx work))
  generalize countRowsForKeys ctx work = outcome at houtcome
  -- only the last way replaces entries, and in the others nothing is there to replace them by
  cases houtcome with
  | idle hnone =>
    refine iff_of_false (not_not.2 he) ?_
    rintro ⟨table, variants, c, hfirst, -, hcounts, -⟩
    rcases hnone with hnone | hnone
    · rw [hfirst] at hnone
      cases hnone
    · exact hnone ⟨e, List.mem_of_getElem? he, c, hcounts⟩
  | failed hfirst _ hanswer =>
    refine iff_of_false (not_not.2 he) ?_
    rintro ⟨table, variants, c, hfirst', hanswer', -⟩
    cases hfirst.symm.trans hfirst'
    cases hanswer.symm.trans hanswer'
  | @counted table variants items hfirst _ hanswer heach =>
    have hreplaced : items[i]? ≠ some e ↔ e.countsKeyOf variants = true := by
      rw [Expr.forall₂_counted_iff.1 heach, List.getElem?_map, he, Option.map_some, ne_eq,
        Option.some.injEq, Expr.countingRows_eq_self_iff, Bool.not_eq_false]
    refine hreplaced.trans (Expr.countsKeyOf_iff.trans ?_)
    constructor
    · rintro ⟨c, hcounts, hkey⟩
      exact ⟨table, variants, c, hfirst, hanswer, hcounts, hkey⟩
    · rintro ⟨table', variants', c, hfirst', hanswer', hcounts, hkey⟩
      cases hfirst.symm.trans hfirst'
      cases hanswer.symm.trans hanswer'
      exact ⟨c, hcounts, hkey⟩

/-- Every entry that counting replaces counts a column that may be one of the first source. -/
def ReplacesColumnsOfFirst (ctx : Context) (work : Work) : Prop :=
  ∀ (i : Nat) (e : Expr), work.statement.items[i]? = some e →
    (countDistinct.apply ctx work).1.statement.items[i]? ≠ some e →
    ∃ c table, e.CountsDistinct c ∧ work.statement.firstTable? = some table ∧ table.MayOwn c

/-- Stated for the entries of the select list: every count of a column with the name of a key is one
of a column that may belong to the first source. -/
theorem replacesColumnsOfFirst_iff :
    ReplacesColumnsOfFirst ctx work ↔
      ∀ table variants, work.statement.firstTable? = some table →
        ctx.provider.answer work.lookups (baseName table.name) = .ok variants →
        ∀ e ∈ work.statement.items, ∀ c, e.CountsDistinct c → c.NamesKey variants →
          table.MayOwn c := by
  constructor
  · intro h table variants hfirst hanswer e he c hcounts hkey
    obtain ⟨i, hi⟩ := List.getElem?_of_mem he
    obtain ⟨c', table', hcounts', hfirst', howns⟩ :=
      h i e hi ((replaced_iff hi).2 ⟨table, variants, c, hfirst, hanswer, hcounts, hkey⟩)
    cases hfirst.symm.trans hfirst'
    rwa [hcounts.unique hcounts']
  · intro h i e hi hreplaced
    obtain ⟨table, variants, c, hfirst, hanswer, hcounts, hkey⟩ := (replaced_iff hi).1 hreplaced
    exact ⟨c, table, hcounts, hfirst,
      h table variants hfirst hanswer e (List.mem_of_getElem? hi) c hcounts hkey⟩

/-- **Counting does not look at qualifiers.** To drop those of the select list before counting or
after it comes to the same, lookups and answer included. So every entry that counting replaces
counts a column that may be one of the first source if and only if no entry counts a column with the
name of one of its keys under another qualifier. -/
theorem counting_ignores_qualifiers (ctx : Context) (work : Work) :
    countDistinct.apply ctx work.withBareItems =
        ((countDistinct.apply ctx work).1.withBareItems, (countDistinct.apply ctx work).2) ∧
      (ReplacesColumnsOfFirst ctx work ↔
        ∀ table variants, work.statement.firstTable? = some table →
          ctx.provider.answer work.lookups (baseName table.name) = .ok variants →
          ∀ e ∈ work.statement.items, ∀ c, e.CountsDistinct c → c.NamesKey variants →
            table.MayOwn c) :=
  ⟨countRowsForKeys_withBareItems ctx work, replacesColumnsOfFirst_iff⟩

/-- The plans that customers are on. -/
def plansOfCustomers : Work where
  statement :=
    { items := [.countDistinct (.column ⟨some "p", "id"⟩)]
      sources := some [
        { name := "customers_x", alias? := some "c" },
        { name := "plans", alias? := some "p", join := .inner
          condition := some (.binary (.column ⟨some "c", "plan_id"⟩) .eq
            (.column ⟨some "p", "id"⟩)) }] }

/-- The customers that are on a plan, and the names of the plans. -/
def customersOnPlans : Work :=
  { plansOfCustomers with
    statement.items :=
      [.countDistinct (.column ⟨some "c", "id"⟩), .countDistinct (.column ⟨some "p", "name"⟩)] }

/-- No column of the plans that is counted has the name of a key of the customers. -/
theorem counting_ignores_qualifiers_customersOnPlans :
    ReplacesColumnsOfFirst customerContext customersOnPlans ∧
      (countDistinct.apply customerContext customersOnPlans).1.statement.items =
        [.countRows, .countDistinct (.column ⟨some "p", "name"⟩)] := by
  refine ⟨(counting_ignores_qualifiers customerContext customersOnPlans).2.2 ?_,
    by decide +kernel⟩
  intro table variants hfirst hanswer e he c ⟨name, heq, _⟩ ⟨v, hv, hkey⟩
  cases hfirst
  cases hanswer
  rcases List.mem_pair.1 he with rfl | rfl
  · cases heq
    exact .inr (by decide +kernel)
  · cases heq
    have hnone : ∀ v ∈ customers.variants, v.hasUniqueKey "name" = false := by decide +kernel
    rw [hnone v (List.mem_filter.1 hv).1] at hkey
    cases hkey

/-- Counting the plans becomes counting the customers who are on one: the customers have a key of
the name that the plans are counted by. -/
theorem counting_replaces_column_of_other_source :
    ¬ ReplacesColumnsOfFirst customerContext plansOfCustomers ∧
      (countDistinct.apply customerContext plansOfCustomers).1.statement.items = [.countRows] ∧
      plansOfCustomers.statement.tables.map (·.owns ⟨some "p", "id"⟩) = [false, true] := by
  have hrows : (countDistinct.apply customerContext plansOfCustomers).1.statement.items =
      [.countRows] := by
    decide +kernel
  refine ⟨fun h => ?_, hrows, by decide +kernel⟩
  obtain ⟨c, table, ⟨name, heq, -⟩, hfirst, howns⟩ := h 0 _ rfl (by rw [hrows]; decide)
  cases heq
  cases hfirst
  rcases howns with hunqualified | howns
  · cases hunqualified
  · exact absurd howns (by decide +kernel)

end Rule

end QuerySplit
