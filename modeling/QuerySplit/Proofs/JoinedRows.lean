import QuerySplit.Proofs.Meaning
import QuerySplit.Select.Visit

/-!
# Rows that a join brings together

A join brings together one row of each source. A column reads the row of the source that owns it,
so the rows make up an assignment of values to columns (`JoinedRows.read`). When no column is
owned by two sources, this does not depend on the order of the sources (`read_of_owns`).
-/

set_option autoImplicit false

namespace QuerySplit

variable {V : Type}

/-- The values of a row by the names of its columns. -/
abbrev Row (V : Type) : Type :=
  String → V

/-- What a column reads of a single row; its qualifier plays no part. -/
def Row.read (row : Row V) (c : ColumnRef) : V :=
  row c.column

/-- Which rows the table of a name holds. -/
abbrev Database (V : Type) : Type :=
  String → Row V → Prop

/-- One row for each source, and what a column reads that no source owns. -/
structure JoinedRows (V : Type) where
  row : Nat → Row V
  elsewhere : ColumnRef → V

namespace JoinedRows

/-- A column reads the row of the source that owns it. -/
def read (g : JoinedRows V) (tables : List TableRef) (c : ColumnRef) : V :=
  match tables.findIdx? (·.owns c) with
  | some k => g.row k c.column
  | none => g.elsewhere c

/-- Each row is one of the table that its source names. -/
def From (g : JoinedRows V) (db : Database V) (s : Select) : Prop :=
  ∀ k t, s.tables[k]? = some t → db t.name (g.row k)

/-- The rows make every join condition and the `WHERE` condition true. For inner joins this says
that the statement keeps them. -/
structure Satisfies (g : JoinedRows V) (I : Interpretation V) (s : Select) : Prop where
  joins : ∀ e ∈ s.conditions, e.IsTrue I (g.read s.tables)
  filter : ∀ e ∈ s.filter, e.IsTrue I (g.read s.tables)

end JoinedRows

namespace Select

/-- No column of the statement is owned by two of its sources. -/
def Unambiguous (s : Select) : Prop :=
  ∀ c ∈ s.columns, s.tables.countP (·.owns c) ≤ 1

instance (s : Select) : Decidable s.Unambiguous :=
  inferInstanceAs (Decidable (∀ c ∈ s.columns, s.tables.countP (·.owns c) ≤ 1))

/-- The columns of a join condition are columns of the statement. -/
theorem mem_columns_of_condition {s : Select} {e : Expr} {c : ColumnRef} (he : e ∈ s.conditions)
    (hc : c ∈ e.columns) : c ∈ s.columns := by
  refine List.mem_flatMap.2 ⟨e, ?_, hc⟩
  simp [expressions, he]

/-- The columns of the filter are columns of the statement. -/
theorem mem_columns_of_filter {s : Select} {e : Expr} {c : ColumnRef} (he : e ∈ s.filter)
    (hc : c ∈ e.columns) : c ∈ s.columns := by
  refine List.mem_flatMap.2 ⟨e, ?_, hc⟩
  simp [expressions, Option.mem_toList.2 he]

end Select

/-- Where one element at most passes a test, the first that does is any that does. -/
theorem findIdx?_of_countP_le_one {α : Type} {p : α → Bool} {xs : List α} {k : Nat} {x : α}
    (hcount : xs.countP p ≤ 1) (hget : xs[k]? = some x) (hx : p x = true) :
    xs.findIdx? p = some k := by
  induction xs generalizing k with
  | nil => cases hget
  | cons y ys ih =>
    rw [List.findIdx?_cons]
    cases k with
    | zero =>
      cases hget
      rw [if_pos hx]
    | succ k =>
      have hget : ys[k]? = some x := hget
      have hmem : 0 < ys.countP p := List.countP_pos_iff.2 ⟨x, List.mem_of_getElem? hget, hx⟩
      by_cases hy : p y = true
      · rw [List.countP_cons_of_pos hy] at hcount
        omega
      · rw [List.countP_cons_of_neg hy] at hcount
        rw [if_neg hy, ih hcount hget, Option.map_some]

/-- In an unambiguous statement, a column that it names has one owner. -/
theorem Select.Unambiguous.position_eq {s : Select} (h : s.Unambiguous) {c : ColumnRef}
    (hc : c ∈ s.columns) {i k : Nat} {t u : TableRef} (ht : s.tables[i]? = some t)
    (hu : s.tables[k]? = some u) (htowns : t.owns c = true) (huowns : u.owns c = true) : i = k :=
  Option.some.inj <|
    (findIdx?_of_countP_le_one (h c hc) ht htowns).symm.trans
      (findIdx?_of_countP_le_one (h c hc) hu huowns)

/-- **A column reads the row of any source that owns it** in an unambiguous statement. -/
theorem JoinedRows.read_of_owns (g : JoinedRows V) {s : Select} (h : s.Unambiguous)
    {c : ColumnRef} (hc : c ∈ s.columns) {k : Nat} {t : TableRef} (ht : s.tables[k]? = some t)
    (howns : t.owns c = true) : g.read s.tables c = (g.row k).read c := by
  have hfirst : s.tables.findIdx? (·.owns c) = some k :=
    findIdx?_of_countP_le_one (h c hc) ht howns
  rw [read, hfirst, Row.read]

end QuerySplit
