import Mathlib.Data.List.Dedup
import Mathlib.Data.List.Perm.Subperm
import QuerySplit.Proofs.CountingOutcome
import QuerySplit.Proofs.JoinedRows

/-!
# Counts in groups of rows

A statement over one table selects some of its rows and divides them into groups; each entry of the
select list has a value in each group. A count of rows is the size of the group, a count of distinct
values leaves NULLs and repetitions out, and what any other entry means is left open
(`Aggregation`).

A key of the table is a key of every group (`IsKey.of_subperm`), however the rows were selected and
divided. There its distinct values are as many as the rows, so counting rows in place of distinct
keys keeps the value of every entry (`counting_keeps_values`).
-/

set_option autoImplicit false

namespace QuerySplit

variable {V : Type}

/-! ## Keys -/

/-- The column is a key of the rows: none of them has NULL there, and no two of them the same
value. -/
structure IsKey (null : V) (rows : List (Row V)) (column : String) : Prop where
  present : ∀ row ∈ rows, row column ≠ null
  distinct : (rows.map (· column)).Nodup

/-- A key of some rows is a key of any of them, in any order. -/
theorem IsKey.of_subperm {null : V} {rows group : List (Row V)} {column : String}
    (h : IsKey null rows column) (hsub : group.Subperm rows) : IsKey null group column where
  present row hrow := h.present row (hsub.subset hrow)
  distinct := by
    obtain ⟨arranged, hperm, hsublist⟩ := hsub
    exact (hperm.map (· column)).nodup_iff.1 (h.distinct.sublist (hsublist.map (· column)))

/-! ## Values of entries -/

/-- How the entries of a select list are read in a group of rows. -/
structure Aggregation (V : Type) where
  null : V
  /-- The value of a count. -/
  ofCount : Nat → V
  /-- The value of an entry that counts neither rows nor the distinct values of a column. -/
  other : Expr → List (Row V) → V

namespace Aggregation

variable [DecidableEq V] (A : Aggregation V) (group : List (Row V))

/-- How many distinct values there are besides NULL. -/
def distinctCount (values : List V) : Nat :=
  (values.filter (· ≠ A.null)).dedup.length

/-- The value of an entry in a group. -/
def value : Expr → V
  | .call name [.column c] true =>
    if Text.eqIgnoreCase name "COUNT" then A.ofCount (A.distinctCount (group.map (·.read c)))
    else A.other (.call name [.column c] true) group
  | .call name [.star] false =>
    if Text.eqIgnoreCase name "COUNT" then A.ofCount group.length
    else A.other (.call name [.star] false) group
  | e => A.other e group

/-- The count of rows is the size of the group. -/
theorem value_countRows : A.value group .countRows = A.ofCount group.length := by
  rw [Expr.countRows, Expr.count, Expr.function, value, if_pos (Text.eqIgnoreCase_self "COUNT")]

/-- A count of distinct values counts the values that the group has in the column. -/
theorem value_of_countsDistinct {e : Expr} {c : ColumnRef} (h : e.CountsDistinct c) :
    A.value group e = A.ofCount (A.distinctCount (group.map (·.read c))) := by
  obtain ⟨name, rfl, hname⟩ := h
  exact if_pos hname

/-- A key has as many distinct values as there are rows. -/
theorem distinctCount_of_isKey {group : List (Row V)} {c : ColumnRef}
    (h : IsKey A.null group c.column) :
    A.distinctCount (group.map (·.read c)) = group.length := by
  have hpresent : (group.map (·.read c)).filter (· ≠ A.null) = group.map (·.read c) := by
    rw [List.filter_eq_self]
    intro v hv
    obtain ⟨row, hrow, rfl⟩ := List.mem_map.1 hv
    exact decide_eq_true (h.present row hrow)
  have hdistinct : (group.map (·.read c)).Nodup := h.distinct
  rw [distinctCount, hpresent, hdistinct.dedup, List.length_map]

/-- What becomes of an entry has the value of the entry, where the keys of the variants are keys. -/
theorem value_of_counted {variants : List Variant} {e e' : Expr}
    (hkeys : ∀ c : ColumnRef, c.NamesKey variants → IsKey A.null group c.column)
    (h : Expr.Counted variants e e') : A.value group e' = A.value group e := by
  cases h with
  | @key c hcounts hkey =>
    rw [value_countRows, value_of_countsDistinct A group hcounts,
      distinctCount_of_isKey A (hkeys c hkey)]
  | other => rfl

/-- What becomes of the entries of a select list has their values. -/
theorem map_value_of_counted {variants : List Variant} {items items' : List Expr}
    (hkeys : ∀ c : ColumnRef, c.NamesKey variants → IsKey A.null group c.column)
    (h : List.Forall₂ (Expr.Counted variants) items items') :
    items'.map (A.value group) = items.map (A.value group) := by
  rw [Expr.forall₂_counted_iff.1 h, List.map_map]
  exact List.map_congr_left fun e _ => A.value_of_counted group hkeys (Expr.counted_iff.2 rfl)

end Aggregation

/-! ## Counting rows for keys -/

/-- **Counting rows for keys keeps the value of every entry**, for a statement over one table. The
keys that the variants list are keys of the table; some of its rows are selected, and each of these
is in one group. Then every entry has the same value in every group before and after, and nothing
but the select list has changed, so the rows are selected and divided as before. -/
theorem Rule.counting_keeps_values [DecidableEq V] (A : Aggregation V) {ctx : Context}
    {work after : Work} {changed : Bool} {t : TableRef} (hsources : work.statement.tables = [t])
    (hsuccess : countDistinct.apply ctx work = (after, .ok changed)) {rows selected : List (Row V)}
    (hkeys : ∀ variants, ctx.provider.answer work.lookups (baseName t.name) = .ok variants →
      ∀ v ∈ variants, ∀ column, v.hasUniqueKey column = true → IsKey A.null rows column)
    (hselected : selected.Sublist rows) {groups : List (List (Row V))}
    (hgroups : groups.flatten.Perm selected) :
    (∀ group ∈ groups, after.statement.items.map (A.value group) =
        work.statement.items.map (A.value group)) ∧
      after.statement = { work.statement with items := after.statement.items } := by
  have houtcome := countingOutcome_iff.2 hsuccess.symm
  cases houtcome with
  | idle => exact ⟨fun _ _ => rfl, rfl⟩
  | @counted table variants items hfirst hcounts hanswer heach =>
    have htable : table = t := by
      rw [Select.firstTable?, hsources] at hfirst
      exact (Option.some.inj hfirst).symm
    refine ⟨fun group hgroup => A.map_value_of_counted group ?_ heach, rfl⟩
    -- a key is needed of the group alone, and the group is some of the rows
    rintro c ⟨v, hv, hkey⟩
    have hsub : group.Subperm rows :=
      ((List.sublist_flatten_of_mem hgroup).subperm.trans hgroups.subperm).trans hselected.subperm
    exact (hkeys variants (htable ▸ hanswer) v hv c.column hkey).of_subperm hsub

/-! ### Customers by region -/

/-- The customers of each region, and how many regions they have. -/
def customersByRegion : Work where
  statement :=
    { items := [.column ⟨none, "region"⟩, .countDistinct (.column ⟨none, "id"⟩),
        .countDistinct (.column ⟨none, "region"⟩)]
      sources := some [{ name := "customers_x" }]
      groupBy := [.column ⟨none, "region"⟩] }

/-- A customer by number and region. -/
def customerRow (id region : Nat) : Row (Option Nat) := fun column =>
  if column = "id" then some id else if column = "region" then some region else none

def fourCustomers : List (Row (Option Nat)) :=
  [customerRow 1 10, customerRow 2 20, customerRow 3 10, customerRow 4 20]

/-- Numbers as values; a column has the value of the first row of the group. -/
def firstValues : Aggregation (Option Nat) where
  null := none
  ofCount n := some n
  other
    | .column c, group => group.head?.bind (·.read c)
    | _, _ => none

/-- The catalog of customers has one unique key, the column `id`. -/
theorem eq_id_of_hasUniqueKey {v : Variant} (hv : v ∈ customers.variants) {column : String}
    (h : v.hasUniqueKey column = true) : column = "id" := by
  simp only [customers, List.mem_cons, List.not_mem_nil, or_false] at hv
  rcases hv with rfl | rfl
  · cases h
  · exact List.mem_singleton.1 ((Text.NameSet.mem_ofList _ _).1 h)

/-- Two customers of one region and one of another, of four in all. -/
theorem Rule.counting_keeps_values_customersByRegion :
    (countDistinct.apply customerContext customersByRegion).1.statement.items =
        [.column ⟨none, "region"⟩, .countRows, .countDistinct (.column ⟨none, "region"⟩)] ∧
      IsKey none fourCustomers "id" ∧
      ∀ group ∈ [[customerRow 3 10, customerRow 1 10], [customerRow 4 20]],
        (countDistinct.apply customerContext customersByRegion).1.statement.items.map
            (firstValues.value group) =
          customersByRegion.statement.items.map (firstValues.value group) := by
  have hkey : IsKey none fourCustomers "id" := ⟨by decide, by decide⟩
  have hkeys : ∀ variants,
      customerContext.provider.answer customersByRegion.lookups (baseName "customers_x") =
        .ok variants →
      ∀ v ∈ variants, ∀ column, v.hasUniqueKey column = true →
        IsKey firstValues.null fourCustomers column := by
    intro variants hanswer v hv column hcolumn
    cases hanswer
    rw [eq_id_of_hasUniqueKey (List.mem_filter.1 hv).1 hcolumn]
    exact hkey
  have hselected : [customerRow 1 10, customerRow 3 10, customerRow 4 20].Sublist
      fourCustomers :=
    (List.sublist_cons_self ..).cons_cons _
  have hgroups : [[customerRow 3 10, customerRow 1 10], [customerRow 4 20]].flatten.Perm
      [customerRow 1 10, customerRow 3 10, customerRow 4 20] := List.Perm.swap ..
  have hsuccess : countDistinct.apply customerContext customersByRegion =
      ((countDistinct.apply customerContext customersByRegion).1, .ok true) :=
    Prod.ext rfl (by decide +kernel)
  obtain ⟨hvalues, -⟩ := counting_keeps_values firstValues (t := { name := "customers_x" }) rfl
    hsuccess hkeys hselected hgroups
  exact ⟨by decide +kernel, hkey, hvalues⟩

end QuerySplit
