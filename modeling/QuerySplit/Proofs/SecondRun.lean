import Mathlib.Tactic.Choose
import QuerySplit.Proofs.BaseNames
import QuerySplit.Proofs.BuiltInRules
import QuerySplit.Proofs.RuleEffects

/-!
# A second run

A provider that always answers, and each base name the same way, makes every built-in rule a
function of the statement. Each of these functions is idempotent: a routed name gives back the
base that it was routed from, the count of rows is no count of distinct values, and no chain to
replace is left beside a membership test. Routing and counting commute, because the first source
has the same base before and after routing.

Main statement: `second_run_changes_nothing`. The first run of a phase succeeds, and a second run
of it applies no rule and leaves the statement.
-/

set_option autoImplicit false

namespace QuerySplit

/-! ## Steady providers -/

/-- A provider that never fails, answers each base name the same way at all times, and lists
variants whose suffixes can be told from any base. -/
structure Provider.Steady (p : Provider) : Prop where
  answers : ∀ earlier base, ∃ variants, p.answer earlier base = .ok variants
  consistent : ∀ earlier later base, p.answer earlier base = p.answer later base
  suffixes : ∀ earlier base variants, p.answer earlier base = .ok variants →
    ∀ v ∈ variants, v.suffix ≠ "" ∧ PlainSuffix v.suffix

/-- The provider answers each base name with these variants. -/
def Provider.AnswersBy (p : Provider) (variants : String → List Variant) : Prop :=
  ∀ earlier base, p.answer earlier base = .ok (variants base)

/-- The variants of each base name have suffixes that can be told from any base. -/
def PlainlySuffixed (variants : String → List Variant) : Prop :=
  ∀ base, ∀ v ∈ variants base, v.suffix ≠ "" ∧ PlainSuffix v.suffix

/-- A steady provider is given by a function from base names to variants. -/
theorem Provider.Steady.exists_variants {p : Provider} (h : p.Steady) :
    ∃ variants, p.AnswersBy variants ∧ PlainlySuffixed variants := by
  choose variants hvariants using h.answers []
  refine ⟨variants, fun earlier base => ?_, fun base => h.suffixes [] base _ (hvariants base)⟩
  rw [h.consistent earlier [] base, hvariants]

/-! ## Routing -/

namespace TableRef

variable {variants : String → List Variant}

/-- The source under the name that it is routed to. -/
def routed (variants : String → List Variant) (used : List String) (t : TableRef) : TableRef :=
  if baseName t.name = t.name then t
  else { t with name := t.routedName (baseName t.name) used (variants (baseName t.name)) }

/-- Routing succeeds, and the name of each source is a matter of that source alone. -/
theorem routeAll_of_answersBy {ctx : Context} (h : ctx.provider.AnswersBy variants)
    (used : List String) (tables : List TableRef) (lookups : List String) :
    (routeAll ctx used tables lookups).2 = .ok (tables.map (routed variants used)) := by
  induction tables generalizing lookups with
  | nil => rfl
  | cons t rest ih =>
    by_cases hplain : baseName t.name = t.name
    · rw [routeAll_cons_plain hplain, ih, List.map_cons, routed, if_pos hplain]
      rfl
    · rw [routeAll_cons_answered hplain (h lookups _), ih, List.map_cons, routed, if_neg hplain]
      rfl

/-- A routed source is the source itself, or has the physical name of the best variant. -/
theorem routed_cases (hvariants : PlainlySuffixed variants) (used : List String) (t : TableRef) :
    t.routed variants used = t ∨
      ∃ v, Variant.best? used (variants (baseName t.name)) = some v ∧
        t.routed variants used = { t with name := physicalName (baseName t.name) v.suffix } ∧
        baseName (physicalName (baseName t.name) v.suffix) = baseName t.name ∧
        physicalName (baseName t.name) v.suffix ≠ baseName t.name := by
  unfold routed
  rcases baseName_cases t.name with hplain | ⟨suffix, hname, -, htable⟩
  · exact .inl (if_pos hplain)
  · by_cases hplain : baseName t.name = t.name
    · exact .inl (if_pos hplain)
    rw [if_neg hplain, routedName]
    cases hbest : Variant.best? used (variants (baseName t.name)) with
    | none => exact .inl rfl
    | some v =>
      obtain ⟨hne, hsuffix⟩ := hvariants _ v (Variant.mem_of_best? hbest)
      exact .inr ⟨v, rfl, rfl, baseName_physicalName htable hne hsuffix,
        physicalName_ne_base hne⟩

/-- Routing keeps the base of a source. -/
theorem baseName_routed (hvariants : PlainlySuffixed variants) (used : List String)
    (t : TableRef) : baseName (t.routed variants used).name = baseName t.name := by
  rcases routed_cases hvariants used t with h | ⟨v, -, h, hbase, -⟩
  · rw [h]
  · rw [h, hbase]

/-- Routing a source again gives it the same name. -/
theorem routed_routed (hvariants : PlainlySuffixed variants) (used : List String) (t : TableRef) :
    (t.routed variants used).routed variants used = t.routed variants used := by
  rcases routed_cases hvariants used t with h | ⟨v, hbest, h, hbase, hne⟩
  · rw [h, h]
  · -- the base is the same as before, so its variants are, and the best of them is
    rw [h, routed, hbase, if_neg hne.symm, routedName, hbest]

end TableRef

/-! ## Counting and replacing -/

namespace Expr

/-- A count of rows is not counted again. -/
theorem countingRows_countingRows (variants : List Variant) (e : Expr) :
    (e.countingRows variants).countingRows variants = e.countingRows variants := by
  cases h : e.countsKeyOf variants with
  | false =>
    have hself : e.countingRows variants = e := countingRows_eq_self_iff.2 h
    rw [hself, hself]
  | true =>
    have hrows : e.countingRows variants = countRows := if_pos h
    rw [hrows]
    rfl

/-- The membership test that takes the place of a chain is left as it is. -/
theorem withMemberships_of_membership? {alternatives : List Expr} {e : Expr}
    (h : membership? alternatives = some e) : e.withMemberships = e := by
  obtain ⟨c, v, values, -, -, -, rfl⟩ := membership?_eq_some h
  rfl

/-- Where chains have been replaced, none is left to replace. -/
theorem withMemberships_withMemberships (e : Expr) :
    e.withMemberships.withMemberships = e.withMemberships := by
  fun_induction replacedChains e with
  | case1 left right hsome =>
    obtain ⟨new, hnew⟩ := Option.isSome_iff_exists.1 hsome
    rw [withMemberships_or, hnew, Option.getD_some, withMemberships_of_membership? hnew]
  | case2 left right hnone =>
    have hself : (binary left .or right).withMemberships = .binary left .or right := by
      rw [withMemberships_or, Option.not_isSome_iff_eq_none.1 hnone, Option.getD_none]
    rw [hself, hself]
  | case3 left op right hop ihl ihr =>
    rw [withMemberships_binary hop, withMemberships_binary hop, ihl, ihr]
  | case4 e hor hbinary => rw [withMemberships_other hbinary, withMemberships_other hbinary]

end Expr

/-! ## The built-in rules as functions -/

namespace Select

variable {variants : String → List Variant}

/-- The statement with its sources routed. -/
def routed (variants : String → List Variant) (s : Select) : Select :=
  if s.filteredColumns = [] then s
  else { s with sources := s.sources.map (·.map (TableRef.routed variants s.filteredColumns)) }

/-- The base name of the first source. -/
def firstBase? (s : Select) : Option String :=
  s.firstTable?.map (baseName ·.name)

/-- The select list with rows counted for the keys of the first source. -/
def countedItems (variants : String → List Variant) (s : Select) : List Expr :=
  match s.firstBase? with
  | some base => s.items.map (Expr.countingRows (variants base))
  | none => s.items

/-- The statement with rows counted for the keys of its first source. -/
def rowsCounted (variants : String → List Variant) (s : Select) : Select :=
  { s with items := s.countedItems variants }

/-- The statement with the chains of its filter replaced. -/
def chainsReplaced (s : Select) : Select :=
  { s with filter := s.filter.map Expr.withMemberships }

/-- Routing looks at sources and filter alone. -/
theorem routed_items (s : Select) (items : List Expr) :
    ({ s with items } : Select).routed variants = { s.routed variants with items } := by
  unfold routed
  by_cases hused : s.filteredColumns = []
  · rw [if_pos hused]
    exact if_pos hused
  · rw [if_neg hused]
    exact if_neg hused

/-- Routing keeps the filter. -/
theorem filteredColumns_routed (s : Select) :
    (s.routed variants).filteredColumns = s.filteredColumns := by
  unfold routed
  split <;> rfl

/-- Routing keeps the select list. -/
theorem items_routed (s : Select) : (s.routed variants).items = s.items := by
  unfold routed
  split <;> rfl

/-- Routing a statement twice comes to routing it once. -/
theorem routed_routed (hvariants : PlainlySuffixed variants) (s : Select) :
    (s.routed variants).routed variants = s.routed variants := by
  by_cases hused : s.filteredColumns = []
  · rw [routed, filteredColumns_routed, if_pos hused]
  · rw [routed, filteredColumns_routed, if_neg hused, routed, if_neg hused]
    simp [Function.comp_def, TableRef.routed_routed hvariants]

/-- Routing does not change the base of the first source. -/
theorem firstBase?_routed (hvariants : PlainlySuffixed variants) (s : Select) :
    (s.routed variants).firstBase? = s.firstBase? := by
  unfold routed
  split
  · rfl
  · rw [firstBase?, firstTable?, tables, firstBase?, firstTable?, tables]
    cases s.sources with
    | none => rfl
    | some sources =>
      cases sources with
      | nil => rfl
      | cons t rest => simp [TableRef.baseName_routed hvariants]

/-- Counting twice comes to counting once. -/
theorem rowsCounted_rowsCounted (variants : String → List Variant) (s : Select) :
    (s.rowsCounted variants).rowsCounted variants = s.rowsCounted variants := by
  have hbase : (s.rowsCounted variants).firstBase? = s.firstBase? := rfl
  have hitems : (s.rowsCounted variants).countedItems variants = s.countedItems variants := by
    rw [countedItems, hbase, rowsCounted, countedItems]
    cases s.firstBase? with
    | none => rfl
    | some base => simp [Function.comp_def, Expr.countingRows_countingRows]
  rw [rowsCounted, hitems]
  rfl

/-- Routing does not change what counting makes of the select list. -/
theorem countedItems_routed (hvariants : PlainlySuffixed variants) (s : Select) :
    (s.routed variants).countedItems variants = s.countedItems variants := by
  rw [countedItems, countedItems, firstBase?_routed hvariants, items_routed]

/-- Routing and counting commute, since counting asks for the base of the first source. -/
theorem routed_rowsCounted (hvariants : PlainlySuffixed variants) (s : Select) :
    (s.rowsCounted variants).routed variants = (s.routed variants).rowsCounted variants := by
  rw [rowsCounted, routed_items, rowsCounted, countedItems_routed hvariants]

/-- Replacing chains twice comes to replacing them once. -/
theorem chainsReplaced_chainsReplaced (s : Select) :
    s.chainsReplaced.chainsReplaced = s.chainsReplaced := by
  simp [chainsReplaced, Function.comp_def, Expr.withMemberships_withMemberships]

/-- A statement with other sources is the same only if the sources are. -/
theorem sources_eq_self_iff {s : Select} {tables routed : List TableRef}
    (h : s.sources = some tables) :
    ({ s with sources := some routed } : Select) = s ↔ routed = tables := by
  obtain ⟨items, distinct, sources, filter, groupBy, having, orderBy, limit, offset⟩ := s
  cases h
  simp

/-- A statement with another select list is the same only if the list is. -/
theorem items_eq_self_iff {s : Select} {items : List Expr} :
    ({ s with items } : Select) = s ↔ items = s.items := by
  obtain ⟨items', distinct, sources, filter, groupBy, having, orderBy, limit, offset⟩ := s
  simp

/-- A statement with another filter is the same only if the filter is. -/
theorem filter_eq_self_iff {s : Select} {filter : Option Expr} :
    ({ s with filter } : Select) = s ↔ filter = s.filter := by
  obtain ⟨items, distinct, sources, filter', groupBy, having, orderBy, limit, offset⟩ := s
  simp

end Select

namespace Rule

variable {ctx : Context} {variants : String → List Variant}

/-- With a provider given by a function, routing acts as one. -/
theorem actsAs_tableRouting (h : ctx.provider.AnswersBy variants) :
    tableRouting.ActsAs ctx (Select.routed variants) := by
  intro work
  rcases routeTables_cases ctx work with ⟨hnone, heq⟩ |
    ⟨tables, lookups, hused, hsources, ⟨e, hroute, -⟩ | ⟨routed, hroute, heq⟩⟩
  · have hself : work.statement.routed variants = work.statement := by
      unfold Select.routed
      rcases hnone with hused | hsources
      · exact if_pos hused
      · split
        · rfl
        · rw [hsources, Option.map_none, ← hsources]
    refine ⟨work.lookups, ?_⟩
    simp only [hself, ne_eq, not_true_eq_false, decide_false]
    exact heq
  · -- no lookup fails with such a provider
    have hanswered := TableRef.routeAll_of_answersBy h work.statement.filteredColumns tables
      work.lookups
    rw [hroute] at hanswered
    cases hanswered
  · have hanswered := TableRef.routeAll_of_answersBy h work.statement.filteredColumns tables
      work.lookups
    rw [hroute] at hanswered
    cases hanswered
    refine ⟨lookups, ?_⟩
    simp only [Select.routed, if_neg hused, hsources, Option.map_some, ne_eq,
      Select.sources_eq_self_iff hsources]
    exact heq

/-- With a provider given by a function, counting acts as one. -/
theorem actsAs_countDistinct (h : ctx.provider.AnswersBy variants) :
    countDistinct.ActsAs ctx (Select.rowsCounted variants) := by
  intro work
  rcases countRowsForKeys_cases ctx work with ⟨hnone, heq⟩ |
    ⟨table, htable, ⟨e, hanswer, -⟩ | ⟨found, hanswer, heq⟩⟩
  · have hitems : work.statement.countedItems variants = work.statement.items := by
      rw [Select.countedItems, Select.firstBase?]
      rcases hnone with hfirst | hcounts
      · rw [hfirst]
        rfl
      · cases work.statement.firstTable? with
        | none => rfl
        | some table =>
          exact Expr.map_countingRows_eq_self_iff.2 (by
            simp +contextual [Expr.countsKeyOf, hcounts])
    refine ⟨work.lookups, ?_⟩
    simp only [Select.rowsCounted, hitems, ne_eq, not_true_eq_false, decide_false]
    exact heq
  · rw [h] at hanswer
    cases hanswer
  · rw [h] at hanswer
    cases hanswer
    have hitems : work.statement.countedItems variants =
        work.statement.items.map (Expr.countingRows (variants (baseName table.name))) := by
      rw [Select.countedItems, Select.firstBase?, htable]
      rfl
    refine ⟨(work.record (baseName table.name)).lookups, ?_⟩
    simp only [Select.rowsCounted, hitems, ne_eq, Select.items_eq_self_iff]
    exact heq

/-- The replacement of chains acts as a function whatever the provider is. -/
theorem actsAs_orToIn (ctx : Context) : orToIn.ActsAs ctx Select.chainsReplaced := by
  intro work
  refine ⟨work.lookups, ?_⟩
  simp only [Select.chainsReplaced, ne_eq, Select.filter_eq_self_iff]
  exact membershipInFilter_eq ctx work

/-- What a built-in rule makes of a statement, when each base name has these variants. -/
def effect (variants : String → List Variant) (rule : Rule) : Select → Select :=
  if rule.name = RuleName.tableRouting then Select.routed variants
  else if rule.name = RuleName.countDistinct then Select.rowsCounted variants
  else Select.chainsReplaced

/-- Each built-in rule acts as its effect. -/
theorem actsAs_effect (h : ctx.provider.AnswersBy variants) {rule : Rule}
    (hrule : rule ∈ standard) : rule.ActsAs ctx (effect variants rule) := by
  rcases mem_standard.1 hrule with rfl | rfl | rfl
  · exact actsAs_tableRouting h
  · exact actsAs_countDistinct h
  · exact actsAs_orToIn ctx

/-- The effect of each built-in rule is idempotent. -/
theorem effect_effect (hvariants : PlainlySuffixed variants) {rule : Rule}
    (hrule : rule ∈ standard) (s : Select) :
    effect variants rule (effect variants rule s) = effect variants rule s := by
  rcases mem_standard.1 hrule with rfl | rfl | rfl
  · exact Select.routed_routed hvariants s
  · exact Select.rowsCounted_rowsCounted variants s
  · exact Select.chainsReplaced_chainsReplaced s

/-- Built-in rules of one phase commute. -/
theorem effect_comm (hvariants : PlainlySuffixed variants) {rule other : Rule}
    (hrule : rule ∈ standard) (hother : other ∈ standard) (hphase : rule.phase = other.phase)
    (s : Select) :
    effect variants rule (effect variants other s) =
      effect variants other (effect variants rule s) := by
  rcases mem_standard.1 hrule with rfl | rfl | rfl
  · rcases mem_standard.1 hother with rfl | rfl | rfl
    · rfl
    · exact Select.routed_rowsCounted hvariants s
    · cases hphase
  · rcases mem_standard.1 hother with rfl | rfl | rfl
    · exact (Select.routed_rowsCounted hvariants s).symm
    · rfl
    · cases hphase
  · -- chains are replaced in a phase of their own
    rcases mem_standard.1 hother with rfl | rfl | rfl
    · cases hphase
    · cases hphase
    · rfl

end Rule

/-- **A second run changes nothing.** With a steady provider the first run of the standard rules
succeeds, and a second run of the same phase applies none of them and leaves the statement as the
first run left it. -/
theorem Pipeline.second_run_changes_nothing {ctx : Context} (hprovider : ctx.provider.Steady)
    (settings : Settings) (phase : Phase) (work : Work) :
    ∃ settled first, (standard settings).run phase ctx work = (settled, .ok first) ∧
      ∀ lookups, ∃ again second,
        (standard settings).run phase ctx { settled with lookups } = (again, .ok second) ∧
        second.applied = [] ∧ again.statement = settled.statement := by
  obtain ⟨variants, hanswers, hvariants⟩ := hprovider.exists_variants
  have hstandard : ∀ rule ∈ (standard settings).eligible phase ctx.dialect,
      rule ∈ Rule.standard ∧ rule.phase = phase :=
    fun rule hrule => ⟨(mem_eligible.1 hrule).1, Settings.phase_eq_of_mem_eligible hrule⟩
  have hacts : ∀ rule ∈ (standard settings).eligible phase ctx.dialect,
      rule.ActsAs ctx (Rule.effect variants rule) :=
    fun rule hrule => Rule.actsAs_effect hanswers (hstandard rule hrule).1
  refine settles_of_actsAs hacts
    (fun rule hrule => Rule.effect_effect hvariants (hstandard rule hrule).1)
    (fun rule hrule other hother => ?_) work
  obtain ⟨hruleStandard, hrulePhase⟩ := hstandard rule hrule
  obtain ⟨hotherStandard, hotherPhase⟩ := hstandard other hother
  exact Rule.effect_comm hvariants hruleStandard hotherStandard
    (hrulePhase.trans hotherPhase.symm)

/-- The catalog of customers is a steady provider. -/
theorem Provider.steady_customers : customerContext.provider.Steady where
  answers _ base := ⟨customers.variantsOf base, rfl⟩
  consistent _ _ _ := rfl
  suffixes := by
    rintro earlier base variants heq v hv
    cases heq
    have hsuffixes : ∀ v ∈ customers.variants, v.suffix ≠ "" ∧ PlainSuffix v.suffix := by
      simp [customers, PlainSuffix]
    exact hsuffixes v (List.mem_filter.1 hv).1

/-- The first run routes and counts, the second one does neither. -/
theorem Pipeline.second_run_changes_nothing_customers :
    customerContext.provider.Steady ∧
    ∃ settled first, (standard {}).run .generic customerContext activeCustomers =
        (settled, .ok first) ∧
      first.applied = [RuleName.tableRouting, RuleName.countDistinct] ∧
      ∃ again second, (standard {}).run .generic customerContext settled =
          (again, .ok second) ∧
        second.applied = [] ∧ again.statement = settled.statement := by
  obtain ⟨settled, first, hfirst, hagain⟩ :=
    second_run_changes_nothing Provider.steady_customers {} .generic activeCustomers
  have happlied : ((standard {}).run .generic customerContext activeCustomers).2.map
      Summary.applied = .ok [RuleName.tableRouting, RuleName.countDistinct] := by
    decide +kernel
  rw [hfirst] at happlied
  exact ⟨Provider.steady_customers, settled, first, hfirst, Except.ok.inj happlied,
    hagain settled.lookups⟩

end QuerySplit
