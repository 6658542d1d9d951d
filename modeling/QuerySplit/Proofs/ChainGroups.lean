import Mathlib.Data.List.Find
import QuerySplit.Expr.Build
import QuerySplit.Rule.OrToIn

/-!
# The groups of a chain

The equalities of a chain are grouped by the written name of their column. The groups come in the
order in which their names first appear; each holds the values of all equalities of its name, in
order, under the column of the first of them (`find?_equalityGroups`), and each name has one group
(`nodup_keys_equalityGroups`). So a membership test that takes the place of a chain is about the
first column whose name has enough equalities and has every value of the name (`membership?_eq`).

The written name of a column whose own name has no dot is read back as that column
(`ofName_qualifiedName`), so such columns are in one group only when they are equal.
-/

set_option autoImplicit false

namespace QuerySplit

/-! ## Written names -/

namespace ColumnRef

/-- Reading the written name of a column gives the column back. -/
theorem ofName_qualifiedName {c : ColumnRef} (h : '.' ∉ c.column.toList) :
    ofName c.qualifiedName = c := by
  obtain ⟨table, column⟩ := c
  cases table with
  | none =>
    have hcut : Text.cutLast '.' column.toList = none := Text.cutLast_eq_none_iff.2 h
    simp only [ofName, qualifiedName, hcut]
  | some table =>
    have hcut : Text.cutLast '.' (table ++ "." ++ column).toList =
        some (table.toList, column.toList) :=
      Text.cutLast_eq_some_iff.2 ⟨by simp, h⟩
    simp only [ofName, qualifiedName, hcut, String.ofList_toList]

/-- Columns without dots in their own names are told apart by their written names. -/
theorem eq_of_qualifiedName_eq {c d : ColumnRef} (hc : '.' ∉ c.column.toList)
    (hd : '.' ∉ d.column.toList) (h : c.qualifiedName = d.qualifiedName) : c = d := by
  rw [← ofName_qualifiedName hc, h, ofName_qualifiedName hd]

end ColumnRef

namespace Expr

/-! ## Equalities -/

/-- The equalities among some alternatives: their columns and values. -/
def equalities (alternatives : List Expr) : List (ColumnRef × Expr) :=
  alternatives.filterMap equality?

/-- An equality has its column on the left; a value in front of a column is none. -/
theorem equality?_eq_some {e : Expr} {c : ColumnRef} {v : Expr} :
    equality? e = some (c, v) ↔ e = .binary (.column c) .eq v := by
  constructor
  · intro h
    unfold equality? at h
    split at h
    · cases h
      rfl
    · cases h
  · rintro rfl
    rfl

/-- The equalities of a chain are those among its alternatives. -/
theorem mem_equalities {alternatives : List Expr} {c : ColumnRef} {v : Expr} :
    (c, v) ∈ equalities alternatives ↔ .binary (.column c) .eq v ∈ alternatives := by
  rw [equalities, List.mem_filterMap]
  constructor
  · rintro ⟨e, he, heq⟩
    exact equality?_eq_some.1 heq ▸ he
  · intro h
    exact ⟨_, h, rfl⟩

/-! ## Groups -/

namespace EqualityGroup

/-- The name that the equalities of a group share. -/
def key (g : EqualityGroup) : String := g.column.qualifiedName

/-- Inserting adds a name at the end if it is new, and changes no name. -/
theorem keys_insert (c : ColumnRef) (v : Expr) (groups : List EqualityGroup) :
    (insert c v groups).map key =
      if c.qualifiedName ∈ groups.map key then groups.map key
      else groups.map key ++ [c.qualifiedName] := by
  induction groups with
  | nil => rfl
  | cons g rest ih =>
    unfold insert
    by_cases hg : g.column.qualifiedName = c.qualifiedName
    · have hmem : c.qualifiedName ∈ (g :: rest).map key := by
        rw [← hg]
        exact List.mem_cons_self
      rw [if_pos hg, if_pos hmem]
      rfl
    · have hmem : c.qualifiedName ∈ (g :: rest).map key ↔ c.qualifiedName ∈ rest.map key := by
        rw [List.map_cons, List.mem_cons]
        exact ⟨fun h => h.resolve_left (Ne.symm hg), .inr⟩
      rw [if_neg hg, List.map_cons, ih]
      by_cases hr : c.qualifiedName ∈ rest.map key
      · rw [if_pos hr, if_pos (hmem.2 hr)]
        rfl
      · rw [if_neg hr, if_neg (fun h => hr (hmem.1 h))]
        rfl

/-- A value for the name of the first group goes behind the values of that group. -/
theorem insert_cons_same {g : EqualityGroup} {c : ColumnRef} (h : g.key = c.qualifiedName)
    (v : Expr) (rest : List EqualityGroup) :
    insert c v (g :: rest) = ⟨g.column, g.values ++ [v]⟩ :: rest := by
  rw [insert, if_pos (show g.column.qualifiedName = c.qualifiedName from h)]

/-- A value for another name passes the first group. -/
theorem insert_cons_other {g : EqualityGroup} {c : ColumnRef} (h : g.key ≠ c.qualifiedName)
    (v : Expr) (rest : List EqualityGroup) :
    insert c v (g :: rest) = g :: insert c v rest := by
  rw [insert, if_neg (show ¬ g.column.qualifiedName = c.qualifiedName from h)]

/-- The first group whose name passes a test, after one more equality: it has the value too if it
is of the same name, and stays as it is otherwise; the equality starts it if there was none. -/
theorem find?_insert (P : String → Bool) (c : ColumnRef) (v : Expr)
    (groups : List EqualityGroup) :
    (insert c v groups).find? (P ·.key) =
      match groups.find? (P ·.key) with
      | some g => some (if g.key = c.qualifiedName then ⟨g.column, g.values ++ [v]⟩ else g)
      | none => if P c.qualifiedName then some ⟨c, [v]⟩ else none := by
  induction groups with
  | nil => cases hP : P c.qualifiedName <;> simp [insert, key, hP]
  | cons g rest ih =>
    by_cases hg : g.key = c.qualifiedName
    · rw [insert_cons_same hg]
      have hkey : key ⟨g.column, g.values ++ [v]⟩ = g.key := rfl
      cases hP : P g.key with
      | true => simp only [List.find?_cons_of_pos, hkey, hP, if_pos hg]
      | false =>
        -- the name fails the test, so the group that passes has another one
        have hother : ∀ g' ∈ rest.find? (P ·.key), g'.key ≠ c.qualifiedName := by
          intro g' hg' hname
          have hpass := List.find?_some hg'
          rw [hname, ← hg, hP] at hpass
          cases hpass
        simp only [List.find?_cons, hkey, hP, ← hg]
        cases hrest : rest.find? (P ·.key) with
        | none => rfl
        | some g' => simp [hg, hother g' hrest]
    · rw [insert_cons_other hg]
      cases hP : P g.key with
      | true => simp only [List.find?_cons, hP, hg, if_false]
      | false => simp only [List.find?_cons, hP, ih]

end EqualityGroup

open EqualityGroup (key)

/-- The values that equalities of a name give, from left to right. -/
def valuesOf (name : String) (pairs : List (ColumnRef × Expr)) : List Expr :=
  (pairs.filter (·.1.qualifiedName = name)).map Prod.snd

theorem valuesOf_cons_same {c : ColumnRef} {name : String} (h : c.qualifiedName = name) (v : Expr)
    (rest : List (ColumnRef × Expr)) :
    valuesOf name ((c, v) :: rest) = v :: valuesOf name rest := by
  simp [valuesOf, h]

theorem valuesOf_cons_other {c : ColumnRef} {name : String} (h : c.qualifiedName ≠ name) (v : Expr)
    (rest : List (ColumnRef × Expr)) : valuesOf name ((c, v) :: rest) = valuesOf name rest := by
  simp [valuesOf, h]

/-- Adding equalities one by one appends the values of each name to its group. Of the names that
pass a test, the first is that of a group that was there before, or of the first equality. -/
theorem find?_foldl_insert (P : String → Bool) (pairs : List (ColumnRef × Expr))
    (groups : List EqualityGroup) :
    (pairs.foldl (fun groups (c, v) => EqualityGroup.insert c v groups) groups).find? (P ·.key) =
      match groups.find? (P ·.key) with
      | some g => some ⟨g.column, g.values ++ valuesOf g.key pairs⟩
      | none => (pairs.find? (P ·.1.qualifiedName)).map fun first =>
          ⟨first.1, valuesOf first.1.qualifiedName pairs⟩ := by
  induction pairs generalizing groups with
  | nil => cases h : groups.find? (P ·.key) <;> simp [h, valuesOf]
  | cons pair rest ih =>
    obtain ⟨c, v⟩ := pair
    rw [List.foldl_cons, ih, EqualityGroup.find?_insert]
    cases groups.find? (P ·.key) with
    | some g =>
      by_cases hg : g.key = c.qualifiedName
      · have hkey : key ⟨g.column, g.values ++ [v]⟩ = g.key := rfl
        simp only [hg, if_true, hkey, valuesOf_cons_same, List.append_assoc, List.singleton_append]
      · simp only [hg, if_false, valuesOf_cons_other (Ne.symm hg)]
    | none =>
      cases hP : P c.qualifiedName with
      | true =>
        have hkey : key ⟨c, [v]⟩ = c.qualifiedName := rfl
        simp only [if_true, List.find?_cons, hP, Option.map_some, hkey, valuesOf_cons_same,
          List.singleton_append]
      | false =>
        -- the name fails the test, so the equality that passes has another one
        have hother : ∀ first ∈ rest.find? (P ·.1.qualifiedName),
            c.qualifiedName ≠ first.1.qualifiedName := by
          intro first hfirst hname
          have hpass := List.find?_some hfirst
          rw [← hname, hP] at hpass
          cases hpass
        simp only [Bool.false_eq_true, if_false, List.find?_cons, hP]
        refine Option.map_congr fun first hfirst => ?_
        rw [valuesOf_cons_other (hother first hfirst)]

/-- Names stay distinct from insertion to insertion, whatever the groups to start with. -/
theorem nodup_keys_foldl_insert (pairs : List (ColumnRef × Expr)) (groups : List EqualityGroup)
    (h : (groups.map key).Nodup) :
    ((pairs.foldl (fun groups (c, v) => EqualityGroup.insert c v groups) groups).map
      key).Nodup := by
  induction pairs generalizing groups with
  | nil => exact h
  | cons pair rest ih =>
    rw [List.foldl_cons]
    apply ih
    rw [EqualityGroup.keys_insert]
    split
    · exact h
    · next hmem =>
      refine List.nodup_append.2 ⟨h, List.pairwise_singleton _ _, ?_⟩
      intro a ha b hb heq
      rw [List.mem_singleton] at hb
      exact hmem (hb ▸ heq ▸ ha)

/-- **The first group whose name passes a test**: its column is that of the first equality whose
name passes, and its values are those of all equalities of that name in order. -/
theorem find?_equalityGroups (P : String → Bool) (alternatives : List Expr) :
    (equalityGroups alternatives).find? (P ·.key) =
      ((equalities alternatives).find? (P ·.1.qualifiedName)).map fun first =>
        ⟨first.1, valuesOf first.1.qualifiedName (equalities alternatives)⟩ :=
  find?_foldl_insert P (equalities alternatives) []

/-- **Each name has one group.** -/
theorem nodup_keys_equalityGroups (alternatives : List Expr) :
    ((equalityGroups alternatives).map key).Nodup :=
  nodup_keys_foldl_insert (equalities alternatives) [] List.nodup_nil

/-- Where names are distinct, a group is found by its name. -/
theorem find?_key_of_mem {g : EqualityGroup} {groups : List EqualityGroup}
    (hnd : (groups.map key).Nodup) (hg : g ∈ groups) :
    groups.find? (·.key = g.key) = some g := by
  induction groups with
  | nil => cases hg
  | cons first rest ih =>
    obtain ⟨hfirst, hrest⟩ := List.nodup_cons.1 hnd
    rcases List.mem_cons.1 hg with rfl | hg
    · simp
    · have hne : first.key ≠ g.key := fun h => hfirst (h ▸ List.mem_map_of_mem hg)
      simp only [List.find?_cons, hne, decide_false]
      exact ih hrest hg

/-- The values of a group are those of all equalities with its name, in their order. -/
theorem values_of_mem_equalityGroups {alternatives : List Expr} {g : EqualityGroup}
    (hg : g ∈ equalityGroups alternatives) :
    g.values = valuesOf g.key (equalities alternatives) := by
  have hfind := find?_equalityGroups (· = g.key) alternatives
  rw [find?_key_of_mem (nodup_keys_equalityGroups alternatives) hg] at hfind
  obtain ⟨first, hfirst, hgroup⟩ := Option.map_eq_some_iff.1 hfind.symm
  have hname : first.1.qualifiedName = g.key := by simpa using List.find?_some hfirst
  rw [← hname, ← hgroup]

/-! ## The test for a chain -/

/-- A chain has no more values for a name than alternatives. -/
theorem length_valuesOf_le (name : String) (alternatives : List Expr) :
    (valuesOf name (equalities alternatives)).length ≤ alternatives.length := by
  rw [valuesOf, List.length_map]
  exact Nat.le_trans (List.length_filter_le ..) (List.length_filterMap_le ..)

/-- **The membership test that takes the place of a chain** is about the column of the first
equality whose name has enough of them, and has the values of all equalities of that name. -/
theorem membership?_eq (alternatives : List Expr) :
    membership? alternatives =
      ((equalities alternatives).find? fun p =>
        minAlternatives ≤ (valuesOf p.1.qualifiedName (equalities alternatives)).length).map
        fun p => .membership p.1 (valuesOf p.1.qualifiedName (equalities alternatives)) := by
  unfold membership?
  split
  · next hshort =>
    have hnone : ∀ p ∈ equalities alternatives,
        ¬ minAlternatives ≤ (valuesOf p.1.qualifiedName (equalities alternatives)).length := by
      intro p _ henough
      exact Nat.not_le.2 hshort (Nat.le_trans henough (length_valuesOf_le ..))
    rw [List.find?_eq_none.2 (by simpa using hnone), Option.map_none]
  · have hvalues : ∀ g ∈ equalityGroups alternatives,
        decide (minAlternatives ≤ g.values.length) =
          decide (minAlternatives ≤ (valuesOf g.key (equalities alternatives)).length) :=
      fun g hg => by rw [values_of_mem_equalityGroups hg]
    rw [List.find?_congr hvalues, find?_equalityGroups
      (fun name => minAlternatives ≤ (valuesOf name (equalities alternatives)).length),
      Option.map_map]
    rfl

/-- The membership test that takes the place of a chain: some equality is the first of its name,
the name has enough equalities, and the test has that column and the values of the name. -/
theorem membership?_eq_some {alternatives : List Expr} {e : Expr}
    (h : membership? alternatives = some e) :
    ∃ c v values, (c, v) ∈ equalities alternatives ∧
      values = ((equalities alternatives).filter (·.1.qualifiedName = c.qualifiedName)).map
        Prod.snd ∧
      minAlternatives ≤ values.length ∧ e = .membership c values := by
  rw [membership?_eq] at h
  obtain ⟨⟨c, v⟩, hfirst, rfl⟩ := Option.map_eq_some_iff.1 h
  have henough := List.find?_some hfirst
  exact ⟨c, v, _, List.mem_of_find?_eq_some hfirst, rfl, of_decide_eq_true henough, rfl⟩

end Expr

end QuerySplit
