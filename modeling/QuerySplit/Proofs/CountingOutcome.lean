import Mathlib.Data.List.Forall2
import QuerySplit.Proofs.BuiltInRules

/-!
# What counting comes to

The outcome of counting rows for keys as a relation (`Rule.CountingOutcome`): nothing is looked up
where no entry of the select list counts the distinct values of a column, and the base of the first
source is looked up once where some entry does. If that lookup succeeds, each entry becomes what it
becomes by itself (`Expr.Counted`), whatever stands around it.

The relation determines the outcome, and the rule has it (`counting_outcome`). So does a single pass
over the select list (`countByScan`) that looks the variants up at the first count it meets, notes
the positions of the counts of keys and replaces these afterwards. Whether it knows the variants
depends on the entries it has passed; what it notes of an entry does not.
-/

set_option autoImplicit false

namespace QuerySplit

/-! ## Entries -/

/-- The name of the column is a unique key of some variant. -/
def ColumnRef.NamesKey (variants : List Variant) (c : ColumnRef) : Prop :=
  ∃ v ∈ variants, v.hasUniqueKey c.column = true

namespace Expr

variable {variants : List Variant} {e e' : Expr} {c : ColumnRef}

/-- The expression counts the distinct values of the column: it is a call of `COUNT`, in any ASCII
case, with `DISTINCT` and the column as its one argument. -/
def CountsDistinct (e : Expr) (c : ColumnRef) : Prop :=
  ∃ name, e = .call name [.column c] true ∧ Text.eqIgnoreCase name "COUNT" = true

/-- What becomes of an entry of a select list. -/
inductive Counted (variants : List Variant) : Expr → Expr → Prop
  /-- The count of a key becomes the count of the rows. -/
  | key {e : Expr} {c : ColumnRef} (hcounts : e.CountsDistinct c) (hkey : c.NamesKey variants) :
      Counted variants e .countRows
  /-- Any other entry stays. -/
  | other {e : Expr} (hother : ∀ c, e.CountsDistinct c → ¬ c.NamesKey variants) :
      Counted variants e e

/-- An entry counts a key when it counts the distinct values of a column with the name of a key. -/
theorem countsKeyOf_iff :
    e.countsKeyOf variants = true ↔ ∃ c, e.CountsDistinct c ∧ c.NamesKey variants := by
  rw [countsKeyOf, Option.any_eq_true]
  refine exists_congr fun c => and_congr countedColumn?_eq_some ?_
  rw [List.any_eq_true]
  rfl

/-- An entry with no counted column counts none. -/
theorem countedColumn?_eq_none_iff : e.countedColumn? = none ↔ ∀ c, ¬ e.CountsDistinct c := by
  rw [Option.eq_none_iff_forall_ne_some]
  exact forall_congr' fun c => not_congr countedColumn?_eq_some

/-- What counting makes of an entry is determined: it is the entry with rows counted for keys. -/
theorem counted_iff : Counted variants e e' ↔ e' = e.countingRows variants := by
  constructor
  · rintro (⟨hcounts, hkey⟩ | hother)
    · exact (if_pos (countsKeyOf_iff.2 ⟨_, hcounts, hkey⟩)).symm
    · refine (countingRows_eq_self_iff.2 (Bool.eq_false_iff.2 fun hcounts => ?_)).symm
      obtain ⟨c, hc, hkey⟩ := countsKeyOf_iff.1 hcounts
      exact hother c hc hkey
  · rintro rfl
    cases hcounts : e.countsKeyOf variants with
    | true =>
      obtain ⟨c, hc, hkey⟩ := countsKeyOf_iff.1 hcounts
      rw [countingRows, if_pos hcounts]
      exact .key hc hkey
    | false =>
      rw [countingRows_eq_self_iff.2 hcounts]
      refine .other fun c hc hkey => ?_
      rw [countsKeyOf_iff.2 ⟨c, hc, hkey⟩] at hcounts
      cases hcounts

/-- Entries become what they become one by one. -/
theorem forall₂_counted_iff {items items' : List Expr} :
    List.Forall₂ (Counted variants) items items' ↔
      items' = items.map (countingRows variants) := by
  have hcounted : Counted variants = fun e e' => e.countingRows variants = e' := by
    funext e e'
    exact propext (counted_iff.trans eq_comm)
  rw [hcounted, ← List.forall₂_map_left_iff, List.forall₂_eq_eq_eq, eq_comm]

end Expr

/-- Some entry of the select list counts the distinct values of a column. -/
def Select.CountsDistinct (s : Select) : Prop :=
  ∃ e ∈ s.items, ∃ c, e.CountsDistinct c

/-- A statement gives counting nothing to do, or it has a first source and something to count. -/
theorem Select.idle_or_counts (s : Select) :
    (s.firstTable? = none ∨ ¬ s.CountsDistinct) ∨
      ∃ table, s.firstTable? = some table ∧ s.CountsDistinct := by
  cases hfirst : s.firstTable? with
  | none => exact .inl (.inl rfl)
  | some table =>
    by_cases hcounts : s.CountsDistinct
    · exact .inr ⟨table, rfl, hcounts⟩
    · exact .inl (.inr hcounts)

namespace Rule

/-! ## The outcome -/

/-- What counting may come to for a piece of work. -/
inductive CountingOutcome (ctx : Context) (work : Work) : Outcome Bool → Prop
  /-- There is no source, or nothing to count: no lookup is made. -/
  | idle (hnone : work.statement.firstTable? = none ∨ ¬ work.statement.CountsDistinct) :
      CountingOutcome ctx work (work, .ok false)
  /-- The lookup of the base of the first source fails. -/
  | failed {table : TableRef} {error : LookupError}
      (hfirst : work.statement.firstTable? = some table)
      (hcounts : work.statement.CountsDistinct)
      (hanswer : ctx.provider.answer work.lookups (baseName table.name) = .error error) :
      CountingOutcome ctx work (work.record (baseName table.name), .error (.ofLookup error))
  /-- The lookup gives variants; the counts of their keys become counts of the rows. -/
  | counted {table : TableRef} {variants : List Variant} {items : List Expr}
      (hfirst : work.statement.firstTable? = some table)
      (hcounts : work.statement.CountsDistinct)
      (hanswer : ctx.provider.answer work.lookups (baseName table.name) = .ok variants)
      (heach : List.Forall₂ (Expr.Counted variants) work.statement.items items) :
      CountingOutcome ctx work
        ({ work.record (baseName table.name) with statement.items := items },
          .ok (decide (items ≠ work.statement.items)))

variable {ctx : Context} {work : Work} {table : TableRef}

/-- Without a source, or without an entry to replace, counting looks nothing up. -/
theorem countRowsForKeys_of_idle
    (hnone : work.statement.firstTable? = none ∨ ¬ work.statement.CountsDistinct) :
    countRowsForKeys ctx work = (work, .ok false) := by
  rw [countRowsForKeys]
  cases hfirst : work.statement.firstTable? with
  | none => rfl
  | some table =>
    have hitems : work.statement.items.any (·.countedColumn?.isSome) = false := by
      have hnot := hnone.resolve_left (by rw [hfirst]; nofun)
      rw [List.any_eq_false]
      intro e he hsome
      obtain ⟨c, hc⟩ := Option.isSome_iff_exists.1 hsome
      exact hnot ⟨e, he, c, Expr.countedColumn?_eq_some.1 hc⟩
    dsimp only
    rw [hitems]
    rfl

/-- With an entry to replace, counting looks the first source up once, and the answer decides over
all entries. -/
theorem countRowsForKeys_of_counts (hfirst : work.statement.firstTable? = some table)
    (hcounts : work.statement.CountsDistinct) :
    countRowsForKeys ctx work =
      match ctx.provider.answer work.lookups (baseName table.name) with
      | .error error => (work.record (baseName table.name), .error (.ofLookup error))
      | .ok variants =>
        ({ work.record (baseName table.name) with
            statement.items := work.statement.items.map (Expr.countingRows variants) },
          .ok (decide (work.statement.items.map (Expr.countingRows variants) ≠
            work.statement.items))) := by
  rcases countRowsForKeys_cases ctx work with ⟨hnone | hnone, -⟩ |
    ⟨table', hfirst', ⟨error, hanswer, heq⟩ | ⟨variants, hanswer, heq⟩⟩
  · rw [hfirst] at hnone
    cases hnone
  · obtain ⟨e, he, c, hc⟩ := hcounts
    exact absurd hc (Expr.countedColumn?_eq_none_iff.1 (hnone e he) c)
  · cases hfirst.symm.trans hfirst'
    rw [hanswer]
    exact heq
  · cases hfirst.symm.trans hfirst'
    rw [hanswer]
    exact heq

/-- The relation leaves no choice, and the rule meets it. -/
theorem countingOutcome_iff {outcome : Outcome Bool} :
    CountingOutcome ctx work outcome ↔ outcome = countRowsForKeys ctx work := by
  constructor
  · intro h
    cases h with
    | idle hnone => exact (countRowsForKeys_of_idle hnone).symm
    | failed hfirst hcounts hanswer =>
      exact ((countRowsForKeys_of_counts hfirst hcounts).trans (by rw [hanswer])).symm
    | counted hfirst hcounts hanswer heach =>
      rw [Expr.forall₂_counted_iff.1 heach]
      exact ((countRowsForKeys_of_counts hfirst hcounts).trans (by rw [hanswer])).symm
  · rintro rfl
    rcases work.statement.idle_or_counts with hnone | ⟨table, hfirst, hcounts⟩
    · rw [countRowsForKeys_of_idle hnone]
      exact .idle hnone
    · rw [countRowsForKeys_of_counts hfirst hcounts]
      cases hanswer : ctx.provider.answer work.lookups (baseName table.name) with
      | error error => exact .failed hfirst hcounts hanswer
      | ok variants =>
        exact .counted hfirst hcounts hanswer (Expr.forall₂_counted_iff.2 rfl)

/-! ## A single pass -/

/-- Passes over entries from a position on. The variants are looked up at the first count of
distinct values, unless they are known; the positions of the counts of keys are noted. -/
def notedCounts (ctx : Context) (base : String) :
    List Expr → Nat → Option (List Variant) → Work → Outcome (List Nat)
  | [], _, _, work => (work, .ok [])
  | e :: rest, i, known?, work =>
    match e.countedColumn? with
    | none => notedCounts ctx base rest (i + 1) known? work
    | some c =>
      match known?.elim (work.lookup ctx base) fun variants => (work, .ok variants) with
      | (work, .error error) => (work, .error error)
      | (work, .ok variants) =>
        let (last, noted) := notedCounts ctx base rest (i + 1) (some variants) work
        (last, noted.map fun found =>
          if variants.any (·.hasUniqueKey c.column) then i :: found else found)

/-- The entries with counts of rows at the given positions. -/
def countRowsAt (positions : List Nat) (items : List Expr) : List Expr :=
  positions.foldl (fun items i => items.set i .countRows) items

/-- Replaces counts of distinct keys by counts of rows: one pass that finds them, the replacements
after it. -/
def countByScan (ctx : Context) (work : Work) : Outcome Bool :=
  match work.statement.firstTable? with
  | none => (work, .ok false)
  | some table =>
    match notedCounts ctx (baseName table.name) work.statement.items 0 none work with
    | (last, .error error) => (last, .error error)
    | (last, .ok found) =>
      if found = [] then (last, .ok false)
      else ({ last with statement.items := countRowsAt found last.statement.items }, .ok true)

/-- Once the variants are known, nothing is looked up and the counts of keys are noted. -/
theorem notedCounts_known (ctx : Context) (base : String) (variants : List Variant)
    (items : List Expr) (i : Nat) (work : Work) :
    notedCounts ctx base items i (some variants) work =
      (work, .ok (items.findIdxs (·.countsKeyOf variants) i)) := by
  induction items generalizing i with
  | nil => rfl
  | cons e rest ih =>
    rw [notedCounts, List.findIdxs_cons, Expr.countsKeyOf]
    cases e.countedColumn? with
    | none => exact ih (i + 1)
    | some c =>
      simp only [Option.elim_some, ih, Option.any_some]
      rfl

/-- Without counts of distinct values nothing is looked up or noted. -/
theorem notedCounts_of_no_counts {items : List Expr}
    (h : ∀ e ∈ items, e.countedColumn? = none) (base : String) (i : Nat)
    (known? : Option (List Variant)) :
    notedCounts ctx base items i known? work = (work, .ok []) := by
  induction items generalizing i with
  | nil => rfl
  | cons e rest ih =>
    obtain ⟨he, hrest⟩ := List.forall_mem_cons.1 h
    rw [notedCounts, he]
    exact ih hrest (i + 1)

/-- The first count of distinct values has the variants looked up for all that follow. -/
theorem notedCounts_unknown {items : List Expr} {e : Expr} {c : ColumnRef} (he : e ∈ items)
    (hc : e.countedColumn? = some c) (base : String) (i : Nat) :
    notedCounts ctx base items i none work =
      match ctx.provider.answer work.lookups base with
      | .error error => (work.record base, .error (.ofLookup error))
      | .ok variants =>
        (work.record base, .ok (items.findIdxs (·.countsKeyOf variants) i)) := by
  induction items generalizing i with
  | nil => cases he
  | cons first rest ih =>
    cases hfirst : first.countedColumn? with
    | none =>
      -- an entry before the first count is passed without a lookup
      have hrest : e ∈ rest := by
        refine (List.mem_cons.1 he).resolve_left ?_
        rintro rfl
        rw [hfirst] at hc
        cases hc
      rw [notedCounts, hfirst]
      simp only [ih hrest, List.findIdxs_cons, Expr.countsKeyOf, hfirst, Option.any_none]
      rfl
    | some c =>
      rw [notedCounts, hfirst]
      simp only [Option.elim_none, Work.lookup]
      cases ctx.provider.answer work.lookups base with
      | error error => rfl
      | ok variants =>
        simp only [notedCounts_known, List.findIdxs_cons, Expr.countsKeyOf, hfirst,
          Option.any_some]
        rfl

/-- Replacing what was noted is replacing each entry by itself. -/
theorem countRowsAt_findIdxs (variants : List Variant) (passed items : List Expr) :
    countRowsAt (items.findIdxs (·.countsKeyOf variants) passed.length) (passed ++ items) =
      passed ++ items.map (Expr.countingRows variants) := by
  -- positions count from the entries that were passed, which are as they will be
  induction items generalizing passed with
  | nil => rfl
  | cons e rest ih =>
    have hnext := ih (passed ++ [e.countingRows variants])
    rw [List.length_append, List.length_singleton, List.append_assoc, List.append_assoc] at hnext
    rw [List.map_cons, List.findIdxs_cons]
    cases hcounts : e.countsKeyOf variants with
    | true =>
      have hrows : e.countingRows variants = .countRows := if_pos hcounts
      rw [hrows] at hnext ⊢
      rw [if_pos rfl, countRowsAt, List.foldl_cons, List.set_append_right _ _ (Nat.le_refl _),
        Nat.sub_self, List.set_cons_zero]
      exact hnext
    | false =>
      rw [Expr.countingRows_eq_self_iff.2 hcounts] at hnext ⊢
      exact hnext

/-- Nothing is noted where nothing is replaced. -/
theorem noted_eq_nil_iff {variants : List Variant} {items : List Expr} :
    items.findIdxs (·.countsKeyOf variants) 0 = [] ↔
      items.map (Expr.countingRows variants) = items := by
  rw [List.findIdxs_eq_nil_iff, Expr.map_countingRows_eq_self_iff, List.any_eq_false]
  simp only [Bool.not_eq_true]

/-- Counting in one pass looks up, answers and leaves the same. -/
theorem countByScan_eq (ctx : Context) (work : Work) :
    countByScan ctx work = countRowsForKeys ctx work := by
  rw [countByScan]
  cases hfirst : work.statement.firstTable? with
  | none => exact (countRowsForKeys_of_idle (.inl hfirst)).symm
  | some table =>
    by_cases hcounts : work.statement.CountsDistinct
    · obtain ⟨e, he, c, hc⟩ := hcounts
      rw [countRowsForKeys_of_counts hfirst ⟨e, he, c, hc⟩]
      simp only [notedCounts_unknown he (Expr.countedColumn?_eq_some.2 hc)]
      cases ctx.provider.answer work.lookups (baseName table.name) with
      | error error => rfl
      | ok variants =>
        -- replacing at the noted positions is replacing every counted key
        have hmap := countRowsAt_findIdxs variants [] work.statement.items
        simp only [List.nil_append, List.length_nil] at hmap
        by_cases hfound : work.statement.items.findIdxs (·.countsKeyOf variants) = []
        · have hself := noted_eq_nil_iff.1 hfound
          simp only [if_pos hfound, hself, ne_eq, not_true_eq_false, decide_false]
          rfl
        · have hchanged := mt noted_eq_nil_iff.2 hfound
          simp only [if_neg hfound, ne_eq, hchanged, not_false_eq_true, decide_true]
          rw [← hmap]
          rfl
    · have hnone : ∀ e ∈ work.statement.items, e.countedColumn? = none := fun e he =>
        Expr.countedColumn?_eq_none_iff.2 fun c hc => hcounts ⟨e, he, c, hc⟩
      simp only [notedCounts_of_no_counts hnone]
      exact (countRowsForKeys_of_idle (.inr hcounts)).symm

/-- **What counting does.** Its outcome is the one that the relation determines: one lookup at most,
of the base of the first source, and each entry by itself. A single pass that looks the variants up
when it first needs them, and replaces afterwards what it noted, comes to the same. -/
theorem counting_outcome (ctx : Context) (work : Work) :
    (∀ outcome, CountingOutcome ctx work outcome ↔
      outcome = countDistinct.apply ctx work) ∧
    countByScan ctx work = countDistinct.apply ctx work :=
  ⟨fun _ => countingOutcome_iff, countByScan_eq ctx work⟩

end Rule

end QuerySplit
