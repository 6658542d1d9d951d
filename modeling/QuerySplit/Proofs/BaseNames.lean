import QuerySplit.Catalog.Basic

/-!
# Base names and suffixes

A physical name is a base name, an underscore and a suffix. `baseName` reads such a name from its
end: it cuts at the last underscore of the last dotted segment, unless nothing of the segment
stands before it. So it finds the base of every name whose suffix has neither underscore nor dot
(`baseName_suffixed`), and a name that it cuts at all is suffixed that way (`baseName_cases`).
A name is such a base and suffix in one way at most, so the base is the name itself exactly if it is
in none (`baseName_inverts_suffixing`).
-/

set_option autoImplicit false

namespace QuerySplit

/-! ## The last segment of a name -/

/-- The characters in front of the last segment: none, or a dataset and its dot. -/
def IsFront (front : List Char) : Prop :=
  front = [] ∨ ∃ dataset, front = dataset ++ ['.']

/-- Every name has a front and a last segment, which has no dot. -/
theorem exists_front (cs : List Char) :
    ∃ front, IsFront front ∧ cs = front ++ Text.lastSegment '.' cs ∧
      '.' ∉ Text.lastSegment '.' cs := by
  unfold Text.lastSegment
  cases h : Text.cutLast '.' cs with
  | none => exact ⟨[], .inl rfl, rfl, Text.cutLast_eq_none_iff.1 h⟩
  | some cut =>
    obtain ⟨dataset, segment⟩ := cut
    obtain ⟨heq, hdot⟩ := Text.cutLast_eq_some_iff.1 h
    exact ⟨dataset ++ ['.'], .inr ⟨dataset, rfl⟩, by simp [heq], hdot⟩

variable {front segment : List Char}

/-- Behind a dataset, the last segment of a path is the one without a dot. -/
theorem cutLast_dataset (dataset : List Char) (hdot : '.' ∉ segment) :
    Text.cutLast '.' (dataset ++ ['.'] ++ segment) = some (dataset, segment) :=
  Text.cutLast_eq_some_iff.2 ⟨by simp, hdot⟩

/-- A segment without a dot that follows a front is the last one. -/
theorem lastSegment_append (hfront : IsFront front) (hdot : '.' ∉ segment) :
    Text.lastSegment '.' (front ++ segment) = segment := by
  unfold Text.lastSegment
  rcases hfront with rfl | ⟨dataset, rfl⟩
  · rw [List.nil_append, Text.cutLast_eq_none_iff.2 hdot]
  · rw [cutLast_dataset dataset hdot]

/-! ## Cutting a suffix off -/

/-- A segment has a base when an underscore stands in it and not at its start; the base is what
comes before the last one. -/
theorem baseSegment?_eq_some_iff {base : List Char} :
    baseSegment? segment = some base ↔
      base ≠ [] ∧ ∃ suffix, segment = base ++ '_' :: suffix ∧ '_' ∉ suffix := by
  constructor
  · intro h
    unfold baseSegment? at h
    split at h
    · next c cs suffix hcut =>
      cases h
      exact ⟨List.cons_ne_nil c cs, suffix, Text.cutLast_eq_some_iff.1 hcut⟩
    · cases h
  · rintro ⟨hbase, suffix, hcut⟩
    obtain ⟨c, cs, rfl⟩ := List.exists_cons_of_ne_nil hbase
    rw [baseSegment?, Text.cutLast_eq_some_iff.2 hcut]

/-- The base of a name keeps the front and cuts the last segment. -/
theorem toList_baseName {name : String} (hname : name.toList = front ++ segment)
    (hfront : IsFront front) (hdot : '.' ∉ segment) :
    (baseName name).toList = front ++ (baseSegment? segment).getD segment := by
  unfold baseName
  rcases hfront with rfl | ⟨dataset, rfl⟩
  · rw [List.nil_append] at hname
    rw [hname, Text.cutLast_eq_none_iff.2 hdot]
    cases baseSegment? segment with
    | none => simp [hname]
    | some base => simp
  · rw [hname, cutLast_dataset dataset hdot]
    cases hbase : baseSegment? segment with
    | none => simp [hbase, hname]
    | some base => simp [hbase]

/-- A suffix that can be told from any base in front of it. -/
def PlainSuffix (suffix : String) : Prop :=
  '_' ∉ suffix.toList ∧ '.' ∉ suffix.toList

/-- The last segment of the name is not empty. -/
def NamesTable (name : String) : Prop :=
  Text.lastSegment '.' name.toList ≠ []

/-- The base of a suffixed name is what the suffix was added to. -/
theorem baseName_suffixed {base suffix : String} (hbase : NamesTable base)
    (hsuffix : PlainSuffix suffix) : baseName (base ++ "_" ++ suffix) = base := by
  obtain ⟨front, hfront, hlist, hdot⟩ := exists_front base.toList
  have hname : (base ++ "_" ++ suffix).toList =
      front ++ (Text.lastSegment '.' base.toList ++ '_' :: suffix.toList) := by
    rw [String.toList_append, String.toList_append, ← List.append_assoc, ← hlist]
    simp
  have hcut : baseSegment? (Text.lastSegment '.' base.toList ++ '_' :: suffix.toList) =
      some (Text.lastSegment '.' base.toList) :=
    baseSegment?_eq_some_iff.2 ⟨hbase, suffix.toList, rfl, hsuffix.1⟩
  apply String.toList_inj.1
  rw [toList_baseName hname hfront (by simp [hdot, hsuffix.2]), hcut, Option.getD_some, ← hlist]

/-- Every base is recovered from the names of its variants. -/
theorem baseName_physicalName {base suffix : String} (hbase : NamesTable base)
    (hne : suffix ≠ "") (hsuffix : PlainSuffix suffix) :
    baseName (physicalName base suffix) = base := by
  rw [physicalName, if_neg hne]
  exact baseName_suffixed hbase hsuffix

/-- A suffix makes a name longer, also an empty one. -/
theorem suffixed_ne_base (base suffix : String) : base ++ "_" ++ suffix ≠ base := by
  intro h
  have hlength := congrArg String.length h
  rw [String.length_append, String.length_append, show "_".length = 1 from rfl] at hlength
  omega

/-- A suffix that is not empty changes the name. -/
theorem physicalName_ne_base {base suffix : String} (hne : suffix ≠ "") :
    physicalName base suffix ≠ base := by
  rw [physicalName, if_neg hne]
  exact suffixed_ne_base base suffix

/-- A name is its own base, or its base with a suffix. -/
theorem baseName_cases (name : String) :
    baseName name = name ∨
      ∃ suffix, name = baseName name ++ "_" ++ suffix ∧ PlainSuffix suffix ∧
        NamesTable (baseName name) := by
  obtain ⟨front, hfront, hname, hdot⟩ := exists_front name.toList
  have hlist := toList_baseName hname hfront hdot
  cases hcut : baseSegment? (Text.lastSegment '.' name.toList) with
  | none =>
    rw [hcut, Option.getD_none, ← hname] at hlist
    exact .inl (String.toList_inj.1 hlist)
  | some base =>
    rw [hcut, Option.getD_some] at hlist
    obtain ⟨hbase, suffix, hsegment, hunderscore⟩ := baseSegment?_eq_some_iff.1 hcut
    rw [hsegment] at hname hdot
    simp only [List.mem_append, List.mem_cons, not_or] at hdot
    refine .inr ⟨String.ofList suffix, String.toList_inj.1 ?_, ?_, ?_⟩
    · rw [hname, String.toList_append, String.toList_append, hlist]
      simp
    · exact ⟨by simpa using hunderscore, by simpa using hdot.2.2⟩
    · rw [NamesTable, hlist, lastSegment_append hfront hdot.1]
      exact hbase

/-! ## Suffixed names -/

/-- The last segment of a name has no dot, and the name is this segment or has a dot right before
it. -/
def IsLastSegmentOf (segment name : String) : Prop :=
  '.' ∉ segment.toList ∧ (name = segment ∨ ∃ front, name = front ++ "." ++ segment)

/-- The name is a base with a suffix. The last segment of the base is not empty, and the suffix has
neither underscore nor dot. -/
structure IsSuffixed (name base suffix : String) : Prop where
  eq_append : name = base ++ "_" ++ suffix
  plain : PlainSuffix suffix
  named : ∃ segment, IsLastSegmentOf segment base ∧ segment ≠ ""

/-- The last segment stated by its place is the one that the search from the end finds. -/
theorem isLastSegmentOf_iff {segment name : String} :
    IsLastSegmentOf segment name ↔ Text.lastSegment '.' name.toList = segment.toList := by
  have hdot : ".".toList = ['.'] := rfl
  constructor
  · rintro ⟨hsegment, rfl | ⟨front, rfl⟩⟩
    · exact lastSegment_append (.inl rfl) hsegment
    · have hlist : (front ++ "." ++ segment).toList = front.toList ++ ['.'] ++ segment.toList := by
        rw [String.toList_append, String.toList_append, hdot]
      rw [hlist, lastSegment_append (.inr ⟨_, rfl⟩) hsegment]
  · intro h
    obtain ⟨front, hfront, hname, hsegment⟩ := exists_front name.toList
    rw [h] at hname hsegment
    refine ⟨hsegment, ?_⟩
    rcases hfront with rfl | ⟨dataset, rfl⟩
    · exact .inl (String.toList_inj.1 hname)
    · refine .inr ⟨String.ofList dataset, String.toList_inj.1 ?_⟩
      rw [hname, String.toList_append, String.toList_append, String.toList_ofList, hdot]

/-- A name names a table when its last segment is not empty. -/
theorem namesTable_iff {name : String} :
    NamesTable name ↔ ∃ segment, IsLastSegmentOf segment name ∧ segment ≠ "" := by
  constructor
  · intro h
    refine ⟨String.ofList (Text.lastSegment '.' name.toList),
      isLastSegmentOf_iff.2 String.toList_ofList.symm, fun hempty => h ?_⟩
    exact String.ofList_eq_empty_iff.1 hempty
  · rintro ⟨segment, hsegment, hne⟩ hempty
    rw [isLastSegmentOf_iff.1 hsegment] at hempty
    exact hne (String.toList_eq_nil_iff.1 hempty)

/-- A suffixed name has one base. -/
theorem IsSuffixed.baseName_eq {name base suffix : String} (h : IsSuffixed name base suffix) :
    baseName name = base := by
  rw [h.eq_append]
  exact baseName_suffixed (namesTable_iff.2 h.named) h.plain

/-- A suffixed name differs from its base by the underscore at least. -/
theorem IsSuffixed.ne_base {name base suffix : String} (h : IsSuffixed name base suffix) :
    name ≠ base := by
  rw [h.eq_append]
  exact suffixed_ne_base base suffix

/-- **Taking the base of a name undoes the adding of a suffix.** A name is its own base, or it is
its base with a suffix; it is its own base exactly if it is no base with a suffix at all, and no
other base than its own. A base to which a suffix is added is found again. -/
theorem baseName_inverts_suffixing :
    (∀ name, (baseName name = name ∨ ∃ suffix, IsSuffixed name (baseName name) suffix) ∧
      (baseName name = name ↔ ∀ base suffix, ¬ IsSuffixed name base suffix) ∧
      ∀ base suffix, IsSuffixed name base suffix → base = baseName name) ∧
    ∀ base suffix, (∃ segment, IsLastSegmentOf segment base ∧ segment ≠ "") →
      '_' ∉ suffix.toList → '.' ∉ suffix.toList → baseName (base ++ "_" ++ suffix) = base := by
  constructor
  · intro name
    have hcases : baseName name = name ∨ ∃ suffix, IsSuffixed name (baseName name) suffix :=
      (baseName_cases name).imp_right fun ⟨suffix, heq, hplain, hnamed⟩ =>
        ⟨suffix, heq, hplain, namesTable_iff.1 hnamed⟩
    refine ⟨hcases, ⟨fun hself base suffix h => ?_, fun hnone => ?_⟩,
      fun base suffix h => h.baseName_eq.symm⟩
    · exact h.ne_base (hself.symm.trans h.baseName_eq)
    · exact hcases.resolve_right fun ⟨suffix, h⟩ => hnone _ suffix h
  · intro base suffix hnamed hunderscore hdot
    exact baseName_suffixed (namesTable_iff.2 hnamed) ⟨hunderscore, hdot⟩

/-- A base with underscores of its own, also at its end, in a dataset whose name ends in a suffix.
-/
theorem baseName_inverts_suffixing_ordersByYear :
    (∃ segment, IsLastSegmentOf segment "größe_v2.orders_2024_" ∧ segment ≠ "") ∧
      '_' ∉ "Ω".toList ∧ '.' ∉ "Ω".toList ∧
      baseName "größe_v2.orders_2024__Ω" = "größe_v2.orders_2024_" ∧
      IsSuffixed "größe_v2.orders_2024_" (baseName "größe_v2.orders_2024_") "" ∧
      ∀ base suffix, ¬ IsSuffixed "größe_v2._orders" base suffix := by
  obtain ⟨hnames, hsuffixing⟩ := baseName_inverts_suffixing
  have hnamed : ∃ segment, IsLastSegmentOf segment "größe_v2.orders_2024_" ∧ segment ≠ "" :=
    ⟨"orders_2024_", ⟨by decide, .inr ⟨"größe_v2", by decide⟩⟩, by decide⟩
  have hbare : baseName "größe_v2.orders_2024_" = "größe_v2.orders_2024" := by decide +kernel
  refine ⟨hnamed, by decide, by decide, ?_, ?_, ?_⟩
  · exact hsuffixing "größe_v2.orders_2024_" "Ω" hnamed (by decide) (by decide)
  · rw [hbare]
    exact ⟨by decide, ⟨by decide, by decide⟩,
      ⟨"orders_2024", ⟨by decide, .inr ⟨"größe_v2", by decide⟩⟩, by decide⟩⟩
  · exact (hnames "größe_v2._orders").2.1.1 (by decide +kernel)

end QuerySplit
