import QuerySplit.Proofs.ChainSelection

/-!
# Written names and the values of a membership test

The equalities of a chain are grouped by the written name of their column. Two columns are written
the same exactly if they are equal or one of them keeps a dot in its own name where the other one
ends its qualifier (`qualifiedName_eq_iff`): `c.region` is the column `region` of `c` and also an
unqualified column with that name. A name is read as the one of them whose own name has no dot, and
so names and columns without dots in their own names correspond (`names_correspond_to_columns`).

So a membership test takes the values that its own column is compared with, and those that such a
second reading of its name is compared with (`values_compared_with_written_column`). It takes no
others, and without dots in the names of the columns only the former. The second reading is a column
of its own, and a test that takes its values can be true where the chain is not
(`test_takes_values_of_other_column`).
-/

set_option autoImplicit false

namespace QuerySplit

/-! ## Columns that are written the same -/

namespace ColumnRef

/-- The written name read with a longer qualifier: the own name of the first column has a dot, and
what stands in front of the dot belongs to the qualifier of the second. -/
def Requalified (c d : ColumnRef) : Prop :=
  ∃ part, c.column = part ++ "." ++ d.column ∧ d.table = some (qualifiedName ⟨c.table, part⟩)

/-- What is written in front of the own name of a column. -/
def front (table : Option String) : List Char :=
  (table.map fun t => t.toList ++ ['.']).getD []

/-- A qualified name is a front, a dot at its end if it has a qualifier, and the column. -/
theorem toList_qualifiedName (c : ColumnRef) :
    c.qualifiedName.toList = front c.table ++ c.column.toList := by
  obtain ⟨table, column⟩ := c
  cases table <;> simp [qualifiedName, front]

/-- Moving a dotted front between qualifier and column does not show in the name. -/
theorem Requalified.qualifiedName_eq {c d : ColumnRef} (h : c.Requalified d) :
    c.qualifiedName = d.qualifiedName := by
  obtain ⟨part, hcolumn, htable⟩ := h
  apply String.toList_inj.1
  rw [toList_qualifiedName, toList_qualifiedName, hcolumn, htable]
  simp [front, toList_qualifiedName]

theorem not_requalified_self (c : ColumnRef) : ¬ c.Requalified c := by
  rintro ⟨part, hcolumn, -⟩
  have hlength := congrArg String.length hcolumn
  rw [String.length_append, String.length_append, show ".".length = 1 from rfl] at hlength
  omega

/-- Only a column with a dot in its name can take over a front. -/
theorem Requalified.dot_mem {c d : ColumnRef} (h : c.Requalified d) : '.' ∈ c.column.toList := by
  obtain ⟨part, hcolumn, -⟩ := h
  rw [hcolumn]
  simp

/-- A front tells its qualifier. -/
theorem front_injective {a b : Option String} (h : front a = front b) : a = b := by
  cases a with
  | none =>
    cases b with
    | none => rfl
    | some t => simp [front] at h
  | some s =>
    cases b with
    | none => simp [front] at h
    | some t =>
      have hlist := List.append_cancel_right h
      rw [String.toList_inj.1 hlist]

/-- Where the qualifier of one column goes on, the own name of the other one does, or the columns
are equal. -/
theorem eq_or_requalified {c d : ColumnRef} {more : List Char}
    (hfront : front d.table = front c.table ++ more)
    (hcolumn : c.column.toList = more ++ d.column.toList) : c = d ∨ c.Requalified d := by
  obtain ⟨ctable, ccolumn⟩ := c
  obtain ⟨dtable, dcolumn⟩ := d
  dsimp only at hfront hcolumn
  -- a front ends with the dot of its qualifier, so what goes on does too
  rcases List.eq_nil_or_concat' more with rfl | ⟨part, last, rfl⟩
  · rw [List.append_nil] at hfront
    rw [List.nil_append] at hcolumn
    rw [front_injective hfront, String.toList_inj.1 hcolumn]
    exact .inl rfl
  · right
    cases dtable with
    | none => simp [front] at hfront
    | some t =>
      have hends : t.toList ++ ['.'] = front ctable ++ part ++ [last] := by
        rw [List.append_assoc, ← hfront]
        rfl
      obtain ⟨ht, hdot⟩ := List.append_inj' hends rfl
      cases hdot
      refine ⟨String.ofList part, String.toList_inj.1 ?_,
        congrArg some (String.toList_inj.1 ?_)⟩
      · simp [hcolumn]
      · rw [toList_qualifiedName, ht, String.toList_ofList]

/-- **When two columns are written the same**: they are equal, or one is the other with a longer
qualifier. -/
theorem qualifiedName_eq_iff {c d : ColumnRef} :
    c.qualifiedName = d.qualifiedName ↔ c = d ∨ c.Requalified d ∨ d.Requalified c := by
  constructor
  · intro h
    have hlist := congrArg String.toList h
    rw [toList_qualifiedName, toList_qualifiedName] at hlist
    rcases List.append_eq_append_iff.1 hlist with ⟨more, hfront, hcolumn⟩ | ⟨more, hfront, hcolumn⟩
    · exact (eq_or_requalified hfront hcolumn).imp_right .inl
    · exact (eq_or_requalified hfront hcolumn).imp Eq.symm .inr
  · rintro (rfl | h | h)
    · rfl
    · exact h.qualifiedName_eq
    · exact h.qualifiedName_eq.symm

/-! ## Names that are read back -/

/-- A name is the written name of the column that is read from it. -/
theorem qualifiedName_ofName (name : String) : (ofName name).qualifiedName = name := by
  rw [ofName]
  split
  · next table column hcut =>
    apply String.toList_inj.1
    rw [(Text.cutLast_eq_some_iff.1 hcut).1, toList_qualifiedName]
    simp [front]
  · rfl

/-- The dots of a name go to the qualifier. -/
theorem dot_notMem_ofName (name : String) : '.' ∉ (ofName name).column.toList := by
  rw [ofName]
  split
  · next table column hcut =>
    rw [String.toList_ofList]
    exact (Text.cutLast_eq_some_iff.1 hcut).2
  · next hcut => exact Text.cutLast_eq_none_iff.1 hcut

/-- A qualified name is read back as its column exactly when the column has no dot in its own name.
-/
theorem ofName_qualifiedName_iff {c : ColumnRef} :
    ofName c.qualifiedName = c ↔ '.' ∉ c.column.toList :=
  ⟨fun h => h ▸ dot_notMem_ofName c.qualifiedName, ofName_qualifiedName⟩

/-- A column with a dot in its own name is read back with a longer qualifier. -/
theorem requalified_ofName {c : ColumnRef} (hdot : '.' ∈ c.column.toList) :
    c.Requalified (ofName c.qualifiedName) := by
  rcases qualifiedName_eq_iff.1 (qualifiedName_ofName c.qualifiedName) with heq | hshorter | hlonger
  · exact absurd hdot (ofName_qualifiedName_iff.1 heq)
  · exact absurd hshorter.dot_mem (dot_notMem_ofName c.qualifiedName)
  · exact hlonger

end ColumnRef

/-- **Names and columns correspond.** Each name writes a column, whose written name it is. A column
is read back from its written name exactly if its own name has no dot, whatever dots its qualifier
has; another column is read back with a longer qualifier. So columns without dots in their own
names are told apart by their written names. -/
theorem names_correspond_to_columns :
    (∀ name, ∃ c, Expr.ofName name = .column c ∧ c.qualifiedName = name) ∧
    (∀ c : ColumnRef, Expr.ofName c.qualifiedName = .column c ↔ '.' ∉ c.column.toList) ∧
    (∀ c : ColumnRef, '.' ∈ c.column.toList →
      ∃ d, Expr.ofName c.qualifiedName = .column d ∧ c.Requalified d) ∧
    ∀ c d : ColumnRef, '.' ∉ c.column.toList → '.' ∉ d.column.toList →
      c.qualifiedName = d.qualifiedName → c = d := by
  refine ⟨fun name => ⟨_, rfl, ColumnRef.qualifiedName_ofName name⟩, fun c => ?_,
    fun c hdot => ⟨_, rfl, ColumnRef.requalified_ofName hdot⟩,
    fun c d => ColumnRef.eq_of_qualifiedName_eq⟩
  rw [← ColumnRef.ofName_qualifiedName_iff, Expr.ofName, Expr.column.injEq]

/-- The qualifier of the first column has a dot, and so has the own name of the second, which is
written the same. The own name of the third is empty. -/
theorem names_correspond_to_columns_region :
    Expr.ofName "eu.sales.region" = .column ⟨some "eu.sales", "region"⟩ ∧
      Expr.ofName "eu.sales.region" ≠ .column ⟨some "eu", "sales.region"⟩ ∧
      ColumnRef.Requalified ⟨some "eu", "sales.region"⟩ ⟨some "eu.sales", "region"⟩ ∧
      ColumnRef.ofName ".region." = ⟨some ".region", ""⟩ := by
  obtain ⟨-, hread, hlonger, hinjective⟩ := names_correspond_to_columns
  have hname : ColumnRef.qualifiedName ⟨some "eu.sales", "region"⟩ = "eu.sales.region" := by decide
  have hother : ColumnRef.qualifiedName ⟨some "eu", "sales.region"⟩ = "eu.sales.region" := by
    decide
  have hfirst : Expr.ofName "eu.sales.region" = .column ⟨some "eu.sales", "region"⟩ :=
    hname ▸ (hread ⟨some "eu.sales", "region"⟩).2 (by decide)
  refine ⟨hfirst, fun h => ?_, ?_, ?_⟩
  · rw [← hother, hread] at h
    exact h (by decide)
  · obtain ⟨d, hd, hrequalified⟩ := hlonger ⟨some "eu", "sales.region"⟩ (by decide)
    rw [hother, hfirst] at hd
    cases hd
    exact hrequalified
  · exact hinjective _ _ (ColumnRef.dot_notMem_ofName ".region.") (by decide)
      ((ColumnRef.qualifiedName_ofName ".region.").trans (by decide))

namespace Expr

/-! ## The values of a test -/

/-- The values that a column itself is compared with among some alternatives, in order. -/
def valuesEquatedWith (c : ColumnRef) (alternatives : List Expr) : List Expr :=
  ((equalities alternatives).filter (·.1 = c)).map Prod.snd

/-- The values of a name are those that some column with this qualified name is equated with. -/
theorem mem_valuesOf {name : String} {alternatives : List Expr} {v : Expr} :
    v ∈ valuesOf name (equalities alternatives) ↔
      ∃ d : ColumnRef, .binary (.column d) .eq v ∈ alternatives ∧ d.qualifiedName = name := by
  simp only [valuesOf, List.mem_map, List.mem_filter, decide_eq_true_eq]
  constructor
  · rintro ⟨⟨d, w⟩, ⟨hpair, hname⟩, rfl⟩
    exact ⟨d, mem_equalities.1 hpair, hname⟩
  · rintro ⟨d, hmem, hname⟩
    exact ⟨(d, v), ⟨mem_equalities.2 hmem, hname⟩, rfl⟩

/-- The equalities of a name are those of one column exactly if no other column has the name. -/
theorem valuesOf_eq_valuesEquatedWith_iff {c : ColumnRef} {alternatives : List Expr} :
    valuesOf c.qualifiedName (equalities alternatives) = valuesEquatedWith c alternatives ↔
      ∀ d v, .binary (.column d) .eq v ∈ alternatives →
        d.qualifiedName = c.qualifiedName → d = c := by
  have hown : (equalities alternatives).filter (·.1 = c) =
      ((equalities alternatives).filter (·.1.qualifiedName = c.qualifiedName)).filter
        (·.1 = c) := by
    rw [List.filter_filter]
    refine List.filter_congr fun p _ => ?_
    by_cases hp : p.1 = c <;> simp [hp]
  rw [valuesEquatedWith, hown]
  constructor
  · intro h d v hmem hname
    have hlength := congrArg List.length h
    rw [valuesOf, List.length_map, List.length_map, eq_comm,
      List.length_filter_eq_length_iff] at hlength
    have hpair := hlength (d, v)
      (List.mem_filter.2 ⟨mem_equalities.2 hmem, decide_eq_true hname⟩)
    exact of_decide_eq_true hpair
  · intro h
    rw [valuesOf, eq_comm, List.filter_eq_self.2]
    rintro ⟨d, v⟩ hpair
    obtain ⟨hmem, hname⟩ := List.mem_filter.1 hpair
    exact decide_eq_true (h d v (mem_equalities.1 hmem) (of_decide_eq_true hname))

/-- **Which columns the values of a test are compared with.** Each value is compared in the chain
with the column of the test, or with a column whose written name is that of the test read with a
shorter or longer qualifier. The test takes exactly the values of its own column if the chain has
no such second reading, and only then; so it does where no compared column has a dot in its own
name. -/
theorem values_compared_with_written_column {chain : Expr} {c : ColumnRef} {values : List Expr}
    (hor : chain.isOp .or = true) (h : chain.orToIn? = some (.membership c values)) :
    (∀ v ∈ values, ∃ d, .binary (.column d) .eq v ∈ chain.alternatives ∧
      (d = c ∨ d.Requalified c ∨ c.Requalified d)) ∧
    (values = valuesEquatedWith c chain.alternatives ↔
      ∀ d v, .binary (.column d) .eq v ∈ chain.alternatives →
        ¬ d.Requalified c ∧ ¬ c.Requalified d) ∧
    ((∀ d v, .binary (.column d) .eq v ∈ chain.alternatives → '.' ∉ d.column.toList) →
      ∀ v ∈ values, .binary (.column c) .eq v ∈ chain.alternatives) := by
  rw [orToIn?_of_isOp hor] at h
  obtain ⟨c', htakes, hnew⟩ := membership?_eq_some_iff.1 h
  cases hnew
  have hcompared : ∀ v ∈ valuesOf c.qualifiedName (equalities chain.alternatives),
      ∃ d, .binary (.column d) .eq v ∈ chain.alternatives ∧
        (d = c ∨ d.Requalified c ∨ c.Requalified d) := by
    intro v hv
    obtain ⟨d, hmem, hname⟩ := mem_valuesOf.1 hv
    exact ⟨d, hmem, ColumnRef.qualifiedName_eq_iff.1 hname⟩
  refine ⟨hcompared, ?_, fun hdots v hv => ?_⟩
  · rw [valuesOf_eq_valuesEquatedWith_iff]
    refine forall₃_congr fun d v hmem => ?_
    rw [ColumnRef.qualifiedName_eq_iff]
    constructor
    · intro honly
      refine ⟨fun hd => ?_, fun hc => ?_⟩
      · rw [honly (.inr (.inl hd))] at hd
        exact ColumnRef.not_requalified_self c hd
      · rw [honly (.inr (.inr hc))] at hc
        exact ColumnRef.not_requalified_self c hc
    · rintro ⟨hd, hc⟩ (heq | h | h)
      · exact heq
      · exact absurd h hd
      · exact absurd h hc
  · obtain ⟨d, hmem, rfl | hd | hc⟩ := hcompared v hv
    · exact hmem
    · exact absurd hd.dot_mem (hdots d v hmem)
    · -- the column of the test is compared in the chain too
      obtain ⟨before, w, after, hsplit, -⟩ := htakes.first
      have hfirst : .binary (.column c) .eq w ∈ chain.alternatives := by
        rw [hsplit]
        exact List.mem_append_right _ List.mem_cons_self
      exact absurd hc.dot_mem (hdots c w hfirst)

/-- No compared column of the region chain has a dot in its name, so its test takes the values of
the region alone. -/
theorem values_compared_with_written_column_regionChain :
    let chain := regionChain fun a b c => .binary (.binary a .or b) .or c
    let values : List Expr :=
      [.literal ⟨"NA", .string⟩, .literal ⟨"EU", .string⟩, .literal ⟨"NA", .string⟩]
    chain.isOp .or = true ∧ chain.orToIn? = some (.membership ⟨some "c", "region"⟩ values) ∧
      (∀ d v, .binary (.column d) .eq v ∈ chain.alternatives → '.' ∉ d.column.toList) ∧
      ∀ v ∈ values, .binary (.column ⟨some "c", "region"⟩) .eq v ∈ chain.alternatives := by
  intro chain values
  have htest : chain.orToIn? = some (.membership ⟨some "c", "region"⟩ values) := by decide +kernel
  have hdots : ∀ d v, .binary (.column d) .eq v ∈ chain.alternatives →
      '.' ∉ d.column.toList := by
    intro d v hmem
    have hpairs : ∀ p ∈ equalities chain.alternatives, '.' ∉ p.1.column.toList := by
      decide +kernel
    exact hpairs (d, v) (mem_equalities.2 hmem)
  exact ⟨rfl, htest, hdots, (values_compared_with_written_column rfl htest).2.2 hdots⟩

/-- An unqualified column with a dot in its name, and the column that is written the same. -/
def respelledChain : Expr :=
  .binary
    (.binary (.binary (.column ⟨none, "c.region"⟩) .eq (.literal ⟨"NA", .string⟩)) .or
      (.binary (.column ⟨some "c", "region"⟩) .eq (.literal ⟨"EU", .string⟩))) .or
    (.binary (.column ⟨none, "c.region"⟩) .eq (.literal ⟨"APAC", .string⟩))

/-- A test can take a value that its column is compared with nowhere. Where that column has the
value and the other one does not, the test is true and the chain is not. -/
theorem test_takes_values_of_other_column :
    respelledChain.isOp .or = true ∧
      ∃ c values, respelledChain.orToIn? = some (.membership c values) ∧
        (∃ v ∈ values, .binary (.column c) .eq v ∉ respelledChain.alternatives) ∧
        ∃ read, (membership c values).IsTrue .textual read ∧
          ¬ respelledChain.IsTrue .textual read := by
  refine ⟨rfl, ⟨none, "c.region"⟩,
    [.literal ⟨"NA", .string⟩, .literal ⟨"EU", .string⟩, .literal ⟨"APAC", .string⟩],
    by decide +kernel, ?_, ?_⟩
  · exact ⟨.literal ⟨"EU", .string⟩, by decide +kernel, by decide +kernel⟩
  · -- the unqualified column has the value that only the region of `c` is compared with
    refine ⟨fun c => if c.table = none then some "EU" else some "NA", ?_, ?_⟩
    · decide +kernel
    · decide +kernel

end Expr

end QuerySplit
