import QuerySplit.Proofs.BuiltInRules
import QuerySplit.Proofs.ChainOperands

/-!
# The part of the filter that routing reads

Routing looks for the columns of the filter along the right operands and takes a left operand only
if it is a column itself. The right operands of an `AND` chain lead to its last conjunct, however
the chain is grouped. So where no conjunct is a bare column, routing sees the columns of the last
conjunct (`filteredColumns_eq_of_getLast?`), and two statements that agree in it and in their
sources are routed in the same way (`routing_reads_last_conjunct`).

A conjunct that is a bare column is seen where it is an operand of the way down, so then the
grouping counts.
-/

set_option autoImplicit false

namespace QuerySplit

namespace Expr

/-- No conjunct of the expression is a bare column. -/
def NoBareColumn (e : Expr) : Prop :=
  ∀ c, .column c ∉ e.conjuncts

namespace NoBareColumn

/-- Both sides of an `AND` without a bare column are free of one too. -/
theorem of_and {left right : Expr} (h : (binary left .and right).NoBareColumn) :
    left.NoBareColumn ∧ right.NoBareColumn := by
  refine ⟨fun c hc => h c ?_, fun c hc => h c ?_⟩
  · rw [conjuncts]
    exact List.mem_append_left _ hc
  · rw [conjuncts]
    exact List.mem_append_right _ hc

/-- An expression without a bare column names no column by itself. -/
theorem columnName?_eq_none {e : Expr} (h : e.NoBareColumn) : e.columnName? = none := by
  cases e with
  | column c => exact absurd (List.mem_singleton_self _) (h c)
  | _ => rfl

end NoBareColumn

/-- **Routing sees the last conjunct.** Where no conjunct is a bare column, the columns that an
expression filters on are those that its last conjunct does, however the chain is grouped. -/
theorem filteredColumns_eq_of_getLast? {e last : Expr} (hbare : e.NoBareColumn)
    (hlast : e.conjuncts.getLast? = some last) : e.filteredColumns = last.filteredColumns := by
  fun_induction conjuncts e with
  | case1 left right ihl ihr =>
    obtain ⟨hl, hr⟩ := hbare.of_and
    rw [List.getLast?_append_of_ne_nil _ right.conjuncts_ne_nil] at hlast
    rw [filteredColumns, hl.columnName?_eq_none, hr.columnName?_eq_none, ihr hr hlast]
    rfl
  | case2 e _ =>
    cases hlast
    rfl

/-- What names a column is that column alone. -/
theorem columnName?_eq_some {e : Expr} {name : String} :
    e.columnName? = some name ↔ ∃ c : ColumnRef, e = .column c ∧ c.column = name := by
  cases e <;> simp [columnName?]

/-- A name that is filtered on is that of a column of the expression. -/
theorem exists_column_of_mem_filteredColumns {e : Expr} {name : String}
    (h : name ∈ e.filteredColumns) : ∃ c ∈ e.columns, c.column = name := by
  fun_induction filteredColumns e with
  | case1 left op right ih =>
    rw [columns_binary]
    rcases List.mem_append.1 h with h | h
    · rcases List.mem_append.1 h with h | h
      · obtain ⟨c, rfl, hname⟩ := columnName?_eq_some.1 (Option.mem_toList.1 h)
        exact ⟨c, by simp, hname⟩
      · obtain ⟨c, rfl, hname⟩ := columnName?_eq_some.1 (Option.mem_toList.1 h)
        exact ⟨c, by simp, hname⟩
    · obtain ⟨c, hc, hname⟩ := ih h
      exact ⟨c, List.mem_append_right _ hc, hname⟩
  | case2 e _ => cases h

end Expr

namespace Rule

/-- Two outcomes of routing that agree in the answer, in the lookups and in the sources left. -/
structure SameRouting (first second : Outcome Bool) : Prop where
  answer : first.2 = second.2
  lookups : first.1.lookups = second.1.lookups
  sources : first.1.statement.sources = second.1.statement.sources

/-- Routing reads the sources and the columns that are filtered on, and nothing else of a
statement. -/
theorem sameRouting_of_filteredColumns_eq {ctx : Context} {work work' : Work}
    (hsources : work.statement.sources = work'.statement.sources)
    (hlookups : work.lookups = work'.lookups)
    (hused : work.statement.filteredColumns = work'.statement.filteredColumns) :
    SameRouting (routeTables ctx work) (routeTables ctx work') := by
  -- what decides between the cases is the same for both, so the mixed ones are impossible
  rcases routeTables_cases ctx work with ⟨hnone, heq⟩ | ⟨tables, lookups, hsome, htables, hroute⟩
  · rcases routeTables_cases ctx work' with ⟨-, heq'⟩ | ⟨tables, lookups, hsome, htables, -⟩
    · rw [heq, heq']
      exact ⟨rfl, hlookups, hsources⟩
    · rcases hnone with hnone | hnone
      · exact absurd (hused.symm.trans hnone) hsome
      · cases htables.symm.trans (hsources.symm.trans hnone)
  · rcases routeTables_cases ctx work' with
      ⟨hnone, -⟩ | ⟨tables', lookups', hsome', htables', hroute'⟩
    · rcases hnone with hnone | hnone
      · exact absurd (hused.trans hnone) hsome
      · cases htables.symm.trans (hsources.trans hnone)
    · cases htables.symm.trans (hsources.trans htables')
      rw [← hused, ← hlookups] at hroute'
      rcases hroute with ⟨e, hall, heq⟩ | ⟨routed, hall, heq⟩
      · rcases hroute' with ⟨e', hall', heq'⟩ | ⟨routed', hall', heq'⟩
        · cases hall.symm.trans hall'
          rw [heq, heq']
          exact ⟨rfl, rfl, hsources⟩
        · cases hall.symm.trans hall'
      · rcases hroute' with ⟨e', hall', heq'⟩ | ⟨routed', hall', heq'⟩
        · cases hall.symm.trans hall'
        · cases hall.symm.trans hall'
          rw [heq, heq']
          exact ⟨rfl, rfl, rfl⟩

/-- **Routing reads the last conjunct.** Where no conjunct of a filter is a bare column, the columns
that it filters on are those that its last conjunct filters on, and each is the name of a column of
that conjunct. So two statements with such filters that agree in the last conjunct and in the
sources are routed in the same way, by every provider. -/
theorem routing_reads_last_conjunct {e : Expr} (hbare : e.NoBareColumn) :
    ∃ last, e.conjuncts.getLast? = some last ∧
      e.filteredColumns = last.filteredColumns ∧
      (∀ name ∈ e.filteredColumns, ∃ c ∈ last.columns, c.column = name) ∧
      ∀ (ctx : Context) (work work' : Work) (e' : Expr),
        e'.NoBareColumn → e'.conjuncts.getLast? = some last →
        work.statement.filter = some e → work'.statement.filter = some e' →
        work.statement.sources = work'.statement.sources → work.lookups = work'.lookups →
        SameRouting (routeTables ctx work) (routeTables ctx work') := by
  obtain ⟨last, hlast⟩ : ∃ last, e.conjuncts.getLast? = some last :=
    ⟨_, List.getLast?_eq_some_getLast e.conjuncts_ne_nil⟩
  have hcolumns : e.filteredColumns = last.filteredColumns :=
    Expr.filteredColumns_eq_of_getLast? hbare hlast
  refine ⟨last, hlast, hcolumns, fun name hname => ?_, ?_⟩
  · rw [hcolumns] at hname
    exact Expr.exists_column_of_mem_filteredColumns hname
  · intro ctx work work' e' hbare' hlast' hfilter hfilter' hsources hlookups
    have hcolumns' : e'.filteredColumns = last.filteredColumns :=
      Expr.filteredColumns_eq_of_getLast? hbare' hlast'
    refine sameRouting_of_filteredColumns_eq hsources hlookups ?_
    rw [Select.filteredColumns, Select.filteredColumns, hfilter, hfilter', Option.map_some,
      Option.map_some, hcolumns, hcolumns']

end Rule

/-! ## Customers under two filters -/

/-- A test of a column of the customers for a text. -/
def columnIs (column text : String) : Expr :=
  .binary (.column ⟨none, column⟩) .eq (.literal ⟨text, .string⟩)

/-- The active customers of a region under a name, grouped to the right. -/
def namedRegion : Expr :=
  .binary (columnIs "name" "Ann") .and
    (.binary (columnIs "region" "NA") .and (columnIs "status" "active"))

/-- Other customers who are active, grouped to the left. -/
def otherRegions : Expr :=
  .binary (.binary (columnIs "region" "EU") .and (columnIs "id" "7")) .and
    (columnIs "status" "active")

/-- The customers under a filter. -/
def customersWhere (filter : Expr) : Work :=
  { activeCustomers with statement.filter := some filter }

/-- Two filters that differ in all but the last conjunct route the customers to one variant. -/
theorem Rule.routing_reads_last_conjunct_customers :
    namedRegion.NoBareColumn ∧ otherRegions.NoBareColumn ∧
      SameRouting (routeTables customerContext (customersWhere namedRegion))
        (routeTables customerContext (customersWhere otherRegions)) ∧
      (routeTables customerContext (customersWhere otherRegions)).1.statement.tables.map
        TableRef.name = ["customers_b"] := by
  have hnamed : namedRegion.NoBareColumn := by
    simp [Expr.NoBareColumn, namedRegion, columnIs, Expr.conjuncts]
  have hother : otherRegions.NoBareColumn := by
    simp [Expr.NoBareColumn, otherRegions, columnIs, Expr.conjuncts]
  refine ⟨hnamed, hother, ?_, by decide +kernel⟩
  obtain ⟨last, hlast, -, -, hsame⟩ := routing_reads_last_conjunct hnamed
  have hlast' : otherRegions.conjuncts.getLast? = some last := hlast
  exact hsame customerContext _ _ otherRegions hother hlast' rfl rfl rfl rfl

end QuerySplit
