import Mathlib.Data.List.Forall2
import QuerySplit.Proofs.ChainReplacement
import QuerySplit.Proofs.Runs

/-!
# What a built-in rule can do

One law per rule says everything that its turn can come to, for every provider. Routing and
counting either leave the statement, whatever they answer, or change it and say so: routing gives
the sources new names after all their lookups (`routeTables_cases`), counting replaces entries of
the select list (`countRowsForKeys_cases`). The replacement of chains is one equation
(`membershipInFilter_eq`); it looks nothing up and cannot fail.
-/

set_option autoImplicit false

namespace QuerySplit

/-! ## Routing a list of sources -/

/-- The best variant is one of the variants. The fold carries the best one so far, so the fact is
kept along the fold. -/
theorem Variant.mem_of_best? {used : List String} {variants : List Variant} {v : Variant}
    (h : Variant.best? used variants = some v) : v ∈ variants := by
  refine List.foldlRecOn
    (motive := fun best : Option Variant × Nat => best.1 = some v → v ∈ variants)
    variants _ (fun hnone => by cases hnone)
    (fun best hbest candidate hcandidate hchosen => ?_) h
  dsimp only at hchosen
  split at hchosen
  · cases hchosen
    exact hcandidate
  · exact hbest hchosen

namespace TableRef

variable {ctx : Context} {used : List String} {t : TableRef} {rest tables routed : List TableRef}
  {lookups : List String}

/-- A source without a suffix stays, and nothing is looked up for it. -/
theorem routeAll_cons_plain (h : baseName t.name = t.name) :
    routeAll ctx used (t :: rest) lookups =
      ((routeAll ctx used rest lookups).1, (routeAll ctx used rest lookups).2.map (t :: ·)) := by
  rw [routeAll, if_pos h]

/-- A lookup that fails is recorded, and it ends the routing of the list. -/
theorem routeAll_cons_failed {e : LookupError} (h : baseName t.name ≠ t.name)
    (hanswer : ctx.provider.answer lookups (baseName t.name) = .error e) :
    routeAll ctx used (t :: rest) lookups =
      (lookups ++ [baseName t.name], .error (.ofLookup e)) := by
  rw [routeAll, if_neg h, hanswer]

/-- A lookup that is answered is recorded, the source takes its new name, and the rest follows. -/
theorem routeAll_cons_answered {variants : List Variant} (h : baseName t.name ≠ t.name)
    (hanswer : ctx.provider.answer lookups (baseName t.name) = .ok variants) :
    routeAll ctx used (t :: rest) lookups =
      ((routeAll ctx used rest (lookups ++ [baseName t.name])).1,
        (routeAll ctx used rest (lookups ++ [baseName t.name])).2.map
          ({ t with name := t.routedName (baseName t.name) used variants } :: ·)) := by
  rw [routeAll, if_neg h, hanswer]

/-- What routing makes of a source: the source itself if its name carries no suffix, and otherwise
the source under the name that some answer for its base leads to. -/
def RoutedBy (p : Provider) (used : List String) (t routed : TableRef) : Prop :=
  baseName t.name = t.name ∧ routed = t ∨
    ∃ earlier variants, p.answer earlier (baseName t.name) = .ok variants ∧
      routed = { t with name := t.routedName (baseName t.name) used variants }

/-- Routing goes source by source. -/
theorem forall₂_of_routeAll (h : (routeAll ctx used tables lookups).2 = .ok routed) :
    List.Forall₂ (RoutedBy ctx.provider used) tables routed := by
  induction tables generalizing lookups routed with
  | nil => cases h; exact .nil
  | cons t rest ih =>
    by_cases hplain : baseName t.name = t.name
    · rw [routeAll_cons_plain hplain] at h
      obtain ⟨others, hrest, rfl⟩ := eq_ok_of_map h
      exact .cons (.inl ⟨hplain, rfl⟩) (ih hrest)
    · cases hanswer : ctx.provider.answer lookups (baseName t.name) with
      | error e => rw [routeAll_cons_failed hplain hanswer] at h; cases h
      | ok variants =>
        rw [routeAll_cons_answered hplain hanswer] at h
        obtain ⟨others, hrest, rfl⟩ := eq_ok_of_map h
        exact .cons (.inr ⟨lookups, variants, hanswer, rfl⟩) (ih hrest)

/-- A source keeps its name, or takes that of a variant of its base. -/
theorem routedName_cases (t : TableRef) (base : String) (used : List String)
    (variants : List Variant) :
    t.routedName base used variants = t.name ∨
      ∃ v ∈ variants, t.routedName base used variants = physicalName base v.suffix := by
  unfold routedName
  cases hbest : Variant.best? used variants with
  | none => exact .inl rfl
  | some v => exact .inr ⟨v, Variant.mem_of_best? hbest, rfl⟩

/-- What a source is apart from the name of its table. -/
def place (t : TableRef) : Option String × JoinKind × Option Expr :=
  (t.alias?, t.join, t.condition)

/-- Routing keeps everything of a source but its name. -/
theorem RoutedBy.place_eq {p : Provider} {routed : TableRef} (h : t.RoutedBy p used routed) :
    t.place = routed.place := by
  rcases h with ⟨-, rfl⟩ | ⟨earlier, variants, -, rfl⟩
  · rfl
  · rfl

/-- What routing keeps of each source it keeps of the list. -/
theorem map_eq_of_routeAll {α : Type} {kept : TableRef → α}
    (h : (routeAll ctx used tables lookups).2 = .ok routed)
    (hkept : ∀ t routed, t.RoutedBy ctx.provider used routed → kept t = kept routed) :
    routed.map kept = tables.map kept := by
  have hpaired : List.Forall₂ (· = ·) (tables.map kept) (routed.map kept) :=
    List.forall₂_map_left_iff.2 (List.forall₂_map_right_iff.2
      ((forall₂_of_routeAll h).imp hkept))
  rw [List.forall₂_eq_eq_eq] at hpaired
  exact hpaired.symm

/-- Routing renames sources and does nothing else to them. -/
theorem map_place_of_routeAll (h : (routeAll ctx used tables lookups).2 = .ok routed) :
    routed.map place = tables.map place :=
  map_eq_of_routeAll h fun _ _ hrouted => hrouted.place_eq

end TableRef

/-- Sources that agree in their names and in all else are the same. -/
theorem TableRef.eq_of_map_eq {tables routed : List TableRef}
    (hname : routed.map name = tables.map name) (hplace : routed.map place = tables.map place) :
    routed = tables := by
  induction tables generalizing routed with
  | nil => exact List.map_eq_nil_iff.1 hname
  | cons t rest ih =>
    cases routed with
    | nil => cases hname
    | cons r others =>
      obtain ⟨hr, hothers⟩ := List.cons.inj hname
      obtain ⟨hr', hothers'⟩ := List.cons.inj hplace
      obtain ⟨name, alias?, join, condition⟩ := t
      cases hr
      cases hr'
      rw [ih hothers hothers']

/-- The columns that the filter of a statement filters on. -/
def Select.filteredColumns (s : Select) : List String :=
  (s.filter.map Expr.filteredColumns).getD []

/-! ## Counts of distinct values -/

namespace Expr

/-- An entry of a select list, with the count of rows in place of the count of a key. -/
def countingRows (variants : List Variant) (e : Expr) : Expr :=
  if e.countsKeyOf variants then .countRows else e

/-- The calls that count distinct values of a column are those of `COUNT`, in any ASCII case, with
that column as the only argument. -/
theorem countedColumn?_eq_some {e : Expr} {c : ColumnRef} :
    e.countedColumn? = some c ↔
      ∃ name, e = .call name [.column c] true ∧ Text.eqIgnoreCase name "COUNT" = true := by
  constructor
  · intro h
    unfold countedColumn? at h
    split at h
    · split at h
      · next hname => cases h; exact ⟨_, rfl, hname⟩
      · cases h
    · cases h
  · rintro ⟨name, rfl, hname⟩
    rw [countedColumn?, if_pos hname]

/-- What counts a key counts the distinct values of one column. -/
theorem exists_call_of_countsKeyOf {e : Expr} {variants : List Variant}
    (h : e.countsKeyOf variants = true) :
    ∃ name c, e = .call name [.column c] true ∧ Text.eqIgnoreCase name "COUNT" = true := by
  obtain ⟨c, hc, -⟩ := (Option.any_eq_true ..).1 h
  obtain ⟨name, he, hname⟩ := countedColumn?_eq_some.1 hc
  exact ⟨name, c, he, hname⟩

/-- An entry changes exactly when it counts a key: the count of rows is not itself such a count. -/
theorem countingRows_eq_self_iff {e : Expr} {variants : List Variant} :
    e.countingRows variants = e ↔ e.countsKeyOf variants = false := by
  unfold countingRows
  cases h : e.countsKeyOf variants with
  | false => simp
  | true =>
    obtain ⟨name, c, rfl, -⟩ := exists_call_of_countsKeyOf h
    simp [countRows, count, function]

/-- A select list stays as it is exactly when no entry counts a key. -/
theorem map_countingRows_eq_self_iff {items : List Expr} {variants : List Variant} :
    items.map (countingRows variants) = items ↔ items.any (·.countsKeyOf variants) = false := by
  have hmap : items.map (countingRows variants) = items.map id ↔
      ∀ e ∈ items, e.countingRows variants = id e := List.map_inj_left
  rw [List.map_id] at hmap
  simp [hmap, countingRows_eq_self_iff]

/-! ## Chains -/

/-- Under an operator other than `OR`, nothing is replaced when nothing is replaced on either side.
-/
theorem orToIn?_binary_eq_none_iff {op : BinaryOp} (hop : op ≠ .or) {left right : Expr} :
    (binary left op right).orToIn? = none ↔ left.orToIn? = none ∧ right.orToIn? = none := by
  rw [orToIn?.eq_2 left op right hop]
  cases left.orToIn? <;> cases right.orToIn? <;> simp

/-- An expression stays when it has no chain to replace, and only then. -/
theorem withMemberships_eq_self_iff {e : Expr} : e.withMemberships = e ↔ e.orToIn? = none := by
  fun_induction replacedChains e with
  | case1 left right hsome =>
    obtain ⟨new, hnew⟩ := Option.isSome_iff_exists.1 hsome
    obtain ⟨c, v, values, -, -, -, rfl⟩ := membership?_eq_some hnew
    rw [withMemberships_or, hnew, orToIn?, hnew]
    simp
  | case2 left right hnone =>
    rw [withMemberships_or, orToIn?, Option.not_isSome_iff_eq_none.1 hnone]
    simp
  | case3 left op right hop ihl ihr =>
    rw [withMemberships_binary hop, orToIn?_binary_eq_none_iff hop, ← ihl, ← ihr]
    simp
  | case4 e hor hbinary =>
    cases e with
    | binary left op right => exact absurd rfl (hbinary left op right)
    | _ => simp [withMemberships, orToIn?]

end Expr

/-! ## The turn of a rule -/

namespace Rule

/-- The built-in rules are routing, counting and the replacement of chains. -/
theorem mem_standard {rule : Rule} :
    rule ∈ standard ↔ rule = tableRouting ∨ rule = countDistinct ∨ rule = orToIn := by
  simp [standard]

variable (ctx : Context) (work : Work)

/-- Routing has nothing to do, or it fails after some lookups, or it puts the routed sources in
place of the sources and says whether they differ. -/
theorem routeTables_cases :
    (work.statement.filteredColumns = [] ∨ work.statement.sources = none) ∧
      routeTables ctx work = (work, .ok false) ∨
    ∃ tables lookups, work.statement.filteredColumns ≠ [] ∧
      work.statement.sources = some tables ∧
      ((∃ e, TableRef.routeAll ctx work.statement.filteredColumns tables work.lookups =
          (lookups, .error e) ∧
        routeTables ctx work = ({ work with lookups }, .error e)) ∨
      ∃ routed, TableRef.routeAll ctx work.statement.filteredColumns tables work.lookups =
          (lookups, .ok routed) ∧
        routeTables ctx work =
          ({ statement := { work.statement with sources := some routed }, lookups },
            .ok (decide (routed ≠ tables)))) := by
  obtain ⟨⟨items, distinct, sources, filter, groupBy, having, orderBy, limit, offset⟩, earlier⟩ :=
    work
  unfold routeTables Select.filteredColumns
  cases hused : (filter.map Expr.filteredColumns).getD [] with
  | nil => exact .inl ⟨.inl rfl, rfl⟩
  | cons c cs =>
    cases sources with
    | none => exact .inl ⟨.inr rfl, rfl⟩
    | some tables =>
      rcases hroute : TableRef.routeAll ctx (c :: cs) tables earlier with ⟨lookups, e | routed⟩
      · exact .inr ⟨tables, lookups, nofun, rfl, .inl ⟨e, hroute, by simp only [hroute]⟩⟩
      · refine .inr ⟨tables, lookups, nofun, rfl, .inr ⟨routed, hroute, ?_⟩⟩
        -- routing changes names alone, so sources with the old names are the old ones
        have hnames : routed.map TableRef.name = tables.map TableRef.name ↔ routed = tables :=
          ⟨fun h => TableRef.eq_of_map_eq h (TableRef.map_place_of_routeAll (by rw [hroute])),
            fun h => by rw [h]⟩
        simp only [hroute, hnames]
        by_cases heq : routed = tables <;> simp [heq]

/-- Counting has nothing to do, or its lookup fails, or it replaces the counts of keys and says
whether there are any. -/
theorem countRowsForKeys_cases :
    (work.statement.firstTable? = none ∨
        ∀ e ∈ work.statement.items, e.countedColumn? = none) ∧
      countRowsForKeys ctx work = (work, .ok false) ∨
    ∃ table, work.statement.firstTable? = some table ∧
      ((∃ e, ctx.provider.answer work.lookups (baseName table.name) = .error e ∧
        countRowsForKeys ctx work =
          (work.record (baseName table.name), .error (.ofLookup e))) ∨
      ∃ variants, ctx.provider.answer work.lookups (baseName table.name) = .ok variants ∧
        countRowsForKeys ctx work =
          ({ work.record (baseName table.name) with
              statement.items := work.statement.items.map (Expr.countingRows variants) },
            .ok (decide (work.statement.items.map (Expr.countingRows variants) ≠
              work.statement.items)))) := by
  unfold countRowsForKeys
  cases hfirst : work.statement.firstTable? with
  | none => exact .inl ⟨.inl rfl, rfl⟩
  | some table =>
    cases hcounts : work.statement.items.any (·.countedColumn?.isSome) with
    | false => exact .inl ⟨.inr (by simpa using hcounts), rfl⟩
    | true =>
      cases hanswer : ctx.provider.answer work.lookups (baseName table.name) with
      | error e =>
        exact .inr ⟨table, rfl, .inl ⟨e, hanswer, by simp [Work.lookup, hanswer]⟩⟩
      | ok variants =>
        refine .inr ⟨table, rfl, .inr ⟨variants, hanswer, ?_⟩⟩
        cases hkeys : work.statement.items.any (·.countsKeyOf variants) with
        | false =>
          have hself := Expr.map_countingRows_eq_self_iff.2 hkeys
          simp [Work.lookup, Work.record, hanswer, hkeys, hself]
        | true =>
          have hne : work.statement.items.map (Expr.countingRows variants) ≠
              work.statement.items := fun hself => by
            rw [Expr.map_countingRows_eq_self_iff.1 hself] at hkeys
            cases hkeys
          simp only [Bool.not_true, Bool.false_eq_true, if_false, Work.lookup, Work.record,
            hanswer, hkeys, if_true, hne, ne_eq, not_false_eq_true, decide_true]
          rfl

/-- Replacing chains puts the filter with its chains replaced in place of the filter, and says
whether they differ. -/
theorem membershipInFilter_eq :
    membershipInFilter ctx work =
      ({ work with statement.filter := work.statement.filter.map Expr.withMemberships },
        .ok (decide (work.statement.filter.map Expr.withMemberships ≠
          work.statement.filter))) := by
  obtain ⟨⟨items, distinct, sources, filter, groupBy, having, orderBy, limit, offset⟩, lookups⟩ :=
    work
  cases filter with
  | none => rfl
  | some condition =>
    cases hnew : condition.orToIn? with
    | none =>
      have hself : condition.withMemberships = condition :=
        Expr.withMemberships_eq_self_iff.2 hnew
      simp [membershipInFilter, hnew, hself]
    | some new =>
      have hwith : condition.withMemberships = new := by rw [Expr.withMemberships, hnew]; rfl
      have hne : new ≠ condition := fun h => by
        rw [Expr.withMemberships_eq_self_iff.1 (hwith.trans h)] at hnew
        cases hnew
      simp [membershipInFilter, hnew, hwith, hne]

end Rule

end QuerySplit
