import Mathlib.Data.List.Forall2
import QuerySplit.Proofs.BaseNames
import QuerySplit.Proofs.BuiltInRules

/-!
# Columns of routed sources

Routing gives a source another name and leaves the qualifiers of the columns as they are. A column
that is qualified by the alias of its source keeps its source. One that is qualified by the name or
the short name of its source keeps it only where the new name differs in ASCII case at most, so in
general routing detaches it (`routing_detaches_columns`).

`owns_routed_iff` states exactly which columns keep their source. For the columns that are not
qualified by an alias it takes variants whose suffix has no dot: a dot in a suffix moves the last
segment of the name, and the new short name can then be the whole old name.
-/

set_option autoImplicit false

namespace QuerySplit

/-! ## Dots and letter case -/

namespace Text

/-- A dot is the small form of nothing but a dot. -/
theorem eq_dot_of_toLower {c : Char} (h : c.toLower = '.') : c = '.' := by
  unfold Char.toLower at h
  split at h
  · next hcapital =>
    -- the small form of a capital stands from 97 on
    obtain ⟨hfrom, hto⟩ := hcapital
    rw [ge_iff_le, UInt32.le_iff_toNat_le] at hfrom
    rw [UInt32.le_iff_toNat_le] at hto
    have hval := congrArg (fun d : Char => d.val.toNat) h
    simp only [UInt32.toNat_add] at hval
    simp at hfrom hto hval
    omega
  · exact h

/-- Making letters small brings in no dot. -/
theorem dot_notMem_toLower {cs : List Char} (h : '.' ∉ cs) : '.' ∉ cs.map Char.toLower := by
  intro hmem
  obtain ⟨c, hc, hdot⟩ := List.mem_map.1 hmem
  exact h (eq_dot_of_toLower hdot ▸ hc)

end Text

/-- What stands in front of a segment is gone if a text without a dot is all of it. -/
theorem IsFront.eq_nil_of_toLower {front first second : List Char} (hfront : IsFront front)
    (hdot : '.' ∉ second)
    (h : (front ++ first).map Char.toLower = second.map Char.toLower) : front = [] := by
  rcases hfront with rfl | ⟨dataset, rfl⟩
  · rfl
  · refine absurd ?_ (Text.dot_notMem_toLower hdot)
    rw [← h]
    exact List.mem_map_of_mem (f := Char.toLower) (a := '.') (by simp)

/-! ## Names in one dataset -/

/-- Two names differ in their last segment at most. -/
def SameDataset (a b : String) : Prop :=
  ∃ front first second, IsFront front ∧ (a.toList = front ++ first ∧ '.' ∉ first) ∧
    b.toList = front ++ second ∧ '.' ∉ second

namespace SameDataset

/-- Every name is in its own dataset. -/
theorem refl (name : String) : SameDataset name name := by
  obtain ⟨front, hfront, hname, hdot⟩ := exists_front name.toList
  exact ⟨front, _, _, hfront, ⟨hname, hdot⟩, hname, hdot⟩

/-- What follows a name does not move it to another dataset if it has no dot. -/
theorem of_append {base a b : String} {first second : List Char}
    (ha : a.toList = base.toList ++ first) (hfirst : '.' ∉ first)
    (hb : b.toList = base.toList ++ second) (hsecond : '.' ∉ second) : SameDataset a b := by
  obtain ⟨front, hfront, hbase, hdot⟩ := exists_front base.toList
  rw [hbase, List.append_assoc] at ha hb
  exact ⟨front, _, _, hfront, ⟨ha, by simp [hdot, hfirst]⟩, hb, by simp [hdot, hsecond]⟩

/-- A name is in the dataset of every variant of its base. -/
theorem of_physicalName (name : String) {suffix : String} (hsuffix : '.' ∉ suffix.toList) :
    SameDataset name (physicalName (baseName name) suffix) := by
  have hname : ∃ first, name.toList = (baseName name).toList ++ first ∧ '.' ∉ first := by
    rcases baseName_cases name with hplain | ⟨old, hold, hplain, -⟩
    · exact ⟨[], by rw [hplain, List.append_nil], nofun⟩
    · refine ⟨'_' :: old.toList, ?_, by simpa using hplain.2⟩
      have hlist := congrArg String.toList hold
      rw [String.toList_append, String.toList_append] at hlist
      simpa using hlist
  have hvariant : ∃ second, (physicalName (baseName name) suffix).toList =
      (baseName name).toList ++ second ∧ '.' ∉ second := by
    unfold physicalName
    split
    · exact ⟨[], (List.append_nil _).symm, nofun⟩
    · exact ⟨'_' :: suffix.toList, by simp [String.toList_append], by simpa using hsuffix⟩
  obtain ⟨first, hfirst, hdot⟩ := hname
  obtain ⟨second, hsecond, hdot'⟩ := hvariant
  exact of_append hfirst hdot hsecond hdot'

/-- Of two names in one dataset no qualifier means both, unless they differ in case at most. -/
theorem meansTable_iff {a b qualifier : String} (h : SameDataset a b)
    (ha : meansTable a none qualifier = true) :
    meansTable b none qualifier = true ↔ Text.eqIgnoreCase a b = true := by
  obtain ⟨front, first, second, hfront, ⟨halist, hfirst⟩, hblist, hsecond⟩ := h
  have hashort : (Text.shortName a).toList = first := by
    rw [Text.shortName, String.toList_ofList, halist, lastSegment_append hfront hfirst]
  have hbshort : (Text.shortName b).toList = second := by
    rw [Text.shortName, String.toList_ofList, hblist, lastSegment_append hfront hsecond]
  simp only [meansTable, Option.any_none, Bool.false_or, Bool.or_eq_true, Text.eqIgnoreCase_iff,
    Text.lower, halist, hblist, hashort, hbshort] at ha ⊢
  constructor
  · intro hb
    -- a whole name equals a last segment only where nothing stands before the segment
    rcases ha with ha | ha <;> rcases hb with hb | hb
    · exact ha.trans hb.symm
    · obtain rfl := hfront.eq_nil_of_toLower hsecond (ha.trans hb.symm)
      exact ha.trans hb.symm
    · obtain rfl := hfront.eq_nil_of_toLower hfirst (hb.trans ha.symm)
      exact ha.trans hb.symm
    · rw [List.map_append, List.map_append, ha, hb]
  · intro hsame
    have htails : first.map Char.toLower = second.map Char.toLower := by
      rw [List.map_append, List.map_append] at hsame
      exact List.append_cancel_left hsame
    rcases ha with ha | ha
    · exact .inl (hsame.symm.trans ha)
    · exact .inr (htails.symm.trans ha)

end SameDataset

/-! ## The columns of a source -/

/-- No variant that the provider ever answers has a dot in its suffix. -/
def Provider.DotFree (p : Provider) : Prop :=
  ∀ earlier base variants, p.answer earlier base = .ok variants →
    ∀ v ∈ variants, '.' ∉ v.suffix.toList

/-- A catalog whose suffixes have no dot answers no others. -/
theorem Provider.dotFree_ofCatalog {c : Catalog} (h : ∀ v ∈ c.variants, '.' ∉ v.suffix.toList) :
    (ofCatalog c).DotFree := by
  intro earlier base variants hanswer v hv
  cases hanswer
  exact h v (List.mem_of_mem_filter hv)

namespace TableRef

/-- Whether the alias of the source qualifies the column. -/
def ownsByAlias (t : TableRef) (c : ColumnRef) : Bool :=
  c.table.any fun qualifier => t.alias?.any (Text.eqIgnoreCase · qualifier)

/-- Whether the name or the short name of the source qualifies the column. -/
def ownsByName (t : TableRef) (c : ColumnRef) : Bool :=
  c.table.any (meansTable t.name none)

/-- A source owns a column by its alias or by its name. -/
theorem owns_eq (t : TableRef) (c : ColumnRef) :
    t.owns c = (t.ownsByAlias c || t.ownsByName c) := by
  rcases c with ⟨_ | qualifier, column⟩
  · rfl
  · simp only [owns, ownsByAlias, ownsByName, answersTo, meansTable, Option.any_some,
      Option.any_none, Bool.false_or, Bool.or_assoc]

/-- What a source owns by its alias it keeps under a new name. -/
theorem ownsByAlias_congr {t routed : TableRef} (h : t.place = routed.place) (c : ColumnRef) :
    routed.ownsByAlias c = t.ownsByAlias c := by
  have halias : t.alias? = routed.alias? := congrArg Prod.fst h
  rw [ownsByAlias, ownsByAlias, halias]

/-- A column that the old name qualifies is still owned by name under the new one only if both names
are the same up to case. -/
theorem ownsByName_iff {t routed : TableRef} (h : SameDataset t.name routed.name) {c : ColumnRef}
    (hc : t.ownsByName c = true) :
    routed.ownsByName c = true ↔ Text.eqIgnoreCase t.name routed.name = true := by
  obtain ⟨qualifier, htable, hmeans⟩ := (Option.any_eq_true ..).1 hc
  rw [ownsByName, htable, Option.any_some]
  exact h.meansTable_iff hmeans

/-- Routing leaves a source in its dataset. -/
theorem RoutedBy.sameDataset {p : Provider} {used : List String} {t routed : TableRef}
    (hp : p.DotFree) (h : t.RoutedBy p used routed) : SameDataset t.name routed.name := by
  rcases h with ⟨-, rfl⟩ | ⟨earlier, variants, hanswer, rfl⟩
  · exact .refl _
  · rcases routedName_cases t (baseName t.name) used variants with hname | ⟨v, hv, hname⟩
    · rw [hname]
      exact .refl _
    · rw [hname]
      exact .of_physicalName t.name (hp _ _ _ hanswer v hv)

end TableRef

namespace Rule

/-- After routing the source at a position is still there, as it was or routed. -/
theorem getElem?_tables_routeTables {ctx : Context} {work : Work} {changed : Bool} {i : Nat}
    {t : TableRef} (h : (routeTables ctx work).2 = .ok changed)
    (ht : work.statement.tables[i]? = some t) :
    ∃ routed, (routeTables ctx work).1.statement.tables[i]? = some routed ∧
      (routed = t ∨ ∃ used, t.RoutedBy ctx.provider used routed) := by
  rcases routeTables_cases ctx work with ⟨-, heq⟩ | ⟨tables, lookups, -, hsources, hroute⟩
  · exact ⟨t, by rw [heq, ht], .inl rfl⟩
  · rcases hroute with ⟨e, -, heq⟩ | ⟨routed, hall, heq⟩
    · rw [heq] at h
      cases h
    · have hpaired := TableRef.forall₂_of_routeAll (by rw [hall])
      rw [Select.tables, hsources, Option.getD_some] at ht
      obtain ⟨hi, rfl⟩ := List.getElem?_eq_some_iff.1 ht
      have hi' : i < routed.length := hpaired.length_eq ▸ hi
      exact ⟨routed[i], by rw [heq]; exact List.getElem?_eq_getElem hi',
        .inr ⟨_, hpaired.get hi hi'⟩⟩

/-- **Which columns keep their source.** When routing succeeds, the source at each position keeps
the columns that its alias qualifies. Where no suffix has a dot, of all the columns that it owns it
keeps, besides these, every one if its new name differs from the old one in ASCII case at most, and
none otherwise. -/
theorem owns_routed_iff {ctx : Context} {work : Work} {changed : Bool} {i : Nat} {t : TableRef}
    (h : (routeTables ctx work).2 = .ok changed) (ht : work.statement.tables[i]? = some t) :
    ∃ routed, (routeTables ctx work).1.statement.tables[i]? = some routed ∧
      (∀ c, t.ownsByAlias c = true → routed.owns c = true) ∧
      (ctx.provider.DotFree → ∀ c, t.owns c = true →
        (routed.owns c = true ↔
          t.ownsByAlias c = true ∨ Text.eqIgnoreCase t.name routed.name = true)) := by
  obtain ⟨routed, hrouted, hsource⟩ := getElem?_tables_routeTables h ht
  have hplace : t.place = routed.place := by
    rcases hsource with rfl | ⟨used, hby⟩
    · rfl
    · exact hby.place_eq
  refine ⟨routed, hrouted, fun c hc => ?_, fun hp c hc => ?_⟩
  · rw [TableRef.owns_eq, TableRef.ownsByAlias_congr hplace, hc, Bool.true_or]
  · have hdataset : SameDataset t.name routed.name := by
      rcases hsource with rfl | ⟨used, hby⟩
      · exact .refl _
      · exact hby.sameDataset hp
    rw [TableRef.owns_eq, Bool.or_eq_true] at hc ⊢
    rw [TableRef.ownsByAlias_congr hplace]
    rcases hc with halias | hname
    · simp only [halias, true_or]
    · rw [TableRef.ownsByName_iff hdataset hname]

/-- The customers of a region with those who referred them. The former have no alias. -/
def referredCustomers : Work where
  statement :=
    { items := [.column ⟨some "customers_x", "id"⟩, .column ⟨some "r", "id"⟩]
      sources := some [
        { name := "customers_x" },
        { name := "customers_y", alias? := some "r", join := .inner
          condition := some (.binary (.column ⟨some "customers_x", "referrer"⟩) .eq
            (.column ⟨some "r", "id"⟩)) }]
      filter := some (.binary (.column ⟨some "customers_x", "region"⟩) .eq
        (.literal ⟨"NA", .string⟩)) }

/-- No suffix in the catalog of customers has a dot. -/
theorem dotFree_customers : customerContext.provider.DotFree :=
  Provider.dotFree_ofCatalog (by decide)

/-- The first source loses the column that its old name qualifies, the second keeps the one that
its alias does. -/
theorem owns_routed_iff_referredCustomers :
    (routeTables customerContext referredCustomers).2 = .ok true ∧
      ∃ first second,
        (routeTables customerContext referredCustomers).1.statement.tables = [first, second] ∧
        first.owns ⟨some "customers_x", "id"⟩ = false ∧ second.owns ⟨some "r", "id"⟩ = true := by
  have hsuccess : (routeTables customerContext referredCustomers).2 = .ok true := by
    decide +kernel
  obtain ⟨first, second, htables, hname⟩ : ∃ first second,
      (routeTables customerContext referredCustomers).1.statement.tables = [first, second] ∧
        first.name = "customers_a" :=
    ⟨_, _, rfl, by decide +kernel⟩
  obtain ⟨routed, hrouted, -, hiff⟩ := owns_routed_iff (i := 0) hsuccess rfl
  obtain ⟨routed', hrouted', halias, -⟩ := owns_routed_iff (i := 1) hsuccess rfl
  rw [htables] at hrouted hrouted'
  cases hrouted
  cases hrouted'
  have hkeeps := hiff dotFree_customers ⟨some "customers_x", "id"⟩ (by decide +kernel)
  rw [hname] at hkeeps
  refine ⟨hsuccess, first, second, htables, Bool.eq_false_iff.2 fun howns => ?_,
    halias _ (by decide +kernel)⟩
  exact absurd (hkeeps.1 howns) (by decide +kernel)

/-- Routing detaches a column from its source: the first source of the statement owns it before,
and no source does afterwards. -/
theorem routing_detaches_columns :
    ∃ c : ColumnRef, .column c ∈ referredCustomers.statement.items ∧
      (routeTables customerContext referredCustomers).2 = .ok true ∧
      referredCustomers.statement.tables.map (·.owns c) = [true, false] ∧
      (routeTables customerContext referredCustomers).1.statement.tables.map (·.owns c) =
        [false, false] :=
  ⟨⟨some "customers_x", "id"⟩, by decide +kernel, by decide +kernel, by decide +kernel,
    by decide +kernel⟩

end Rule

end QuerySplit
