import QuerySplit.Proofs.ChainGroups
import QuerySplit.Proofs.Columns

/-!
# What the replacement of chains keeps

`withMemberships` is an expression after its chains are replaced, and `replacedChains` lists the
chains that are, each with the operators above it. The replacement works operand by operand below
every operator but `OR` (`withMemberships_binary`).

Where every alternative of each replaced chain equates one column, the value stays
(`eval_withMemberships`). A chain of several columns loses alternatives: then the truth of the new
condition still gives that of the old one, as long as only `AND` stands above the replaced chains
and no column has a dot in its own name (`isTrue_of_withMemberships`).
-/

set_option autoImplicit false

namespace QuerySplit.Expr

/-- A chain that is replaced: the operators above it from the root down, and its alternatives. -/
structure ReplacedChain where
  above : List BinaryOp
  alternatives : List Expr
deriving DecidableEq

/-- The chain seen from one operator further up. -/
def ReplacedChain.below (op : BinaryOp) (chain : ReplacedChain) : ReplacedChain :=
  { chain with above := op :: chain.above }

/-- The chains of an expression that are replaced, from left to right. -/
def replacedChains : Expr → List ReplacedChain
  | .binary left .or right =>
    if (membership? (left.alternatives ++ right.alternatives)).isSome then
      [⟨[], left.alternatives ++ right.alternatives⟩]
    else []
  | .binary left op right =>
    (left.replacedChains ++ right.replacedChains).map (.below op)
  | _ => []

/-- The expression with its chains replaced; itself when there are none. -/
def withMemberships (e : Expr) : Expr :=
  e.orToIn?.getD e

/-! ## The replacement, node by node -/

/-- An `OR` chain becomes its membership test if it has one, and nothing inside it is looked at
otherwise. -/
theorem withMemberships_or (left right : Expr) :
    (binary left .or right).withMemberships =
      (membership? (left.alternatives ++ right.alternatives)).getD (.binary left .or right) := by
  rw [withMemberships, orToIn?]

/-- Below any other operator the operands are replaced on their own. -/
theorem withMemberships_binary {op : BinaryOp} (hop : op ≠ .or) (left right : Expr) :
    (binary left op right).withMemberships =
      .binary left.withMemberships op right.withMemberships := by
  unfold withMemberships
  rw [orToIn?.eq_2 left op right hop]
  cases left.orToIn? with
  | none => cases right.orToIn? <;> rfl
  | some newLeft => cases right.orToIn? <;> rfl

/-- An expression without operands stays. -/
theorem withMemberships_other {e : Expr} (h : ∀ left op right, e ≠ .binary left op right) :
    e.withMemberships = e := by
  cases e with
  | binary left op right => exact absurd rfl (h left op right)
  | _ => rfl

/-- Under another operator, the replaced chains are those of both sides, each one operator deeper.
-/
theorem replacedChains_binary {op : BinaryOp} (hop : op ≠ .or) (left right : Expr) :
    (binary left op right).replacedChains =
      (left.replacedChains ++ right.replacedChains).map (.below op) :=
  replacedChains.eq_2 left op right hop

/-- An expression without a replaced chain stays as it is. -/
theorem withMemberships_eq_self {e : Expr} (h : e.replacedChains = []) :
    e.withMemberships = e := by
  fun_induction replacedChains e with
  | case1 left right hsome => cases h
  | case2 left right hnone =>
    rw [withMemberships_or, Option.not_isSome_iff_eq_none.1 hnone, Option.getD_none]
  | case3 left op right hop ihl ihr =>
    obtain ⟨hl, hr⟩ := List.append_eq_nil_iff.1 (List.map_eq_nil_iff.1 h)
    rw [withMemberships_binary hop, ihl hl, ihr hr]
  | case4 e hor hbinary => exact withMemberships_other hbinary

/-! ## Chains of one column keep their value -/

variable {V : Type}

/-- When all alternatives equate one column, the equalities are the alternatives themselves. -/
theorem map_equalities_of_one_column {alternatives : List Expr} {c : ColumnRef}
    (hone : ∀ a ∈ alternatives, ∃ v, a = .binary (.column c) .eq v) :
    (equalities alternatives).map (fun p => binary (.column c) .eq p.2) = alternatives := by
  induction alternatives with
  | nil => rfl
  | cons a rest ih =>
    obtain ⟨ha, hrest⟩ := List.forall_mem_cons.1 hone
    obtain ⟨v, rfl⟩ := ha
    exact congrArg _ (ih hrest)

/-- A chain whose alternatives all equate one column has the value of its membership test. -/
theorem eval_membership?_of_one_column (I : Interpretation V) (read : ColumnRef → V)
    {alternatives : List Expr} {c : ColumnRef} {e : Expr}
    (hone : ∀ a ∈ alternatives, ∃ v, a = .binary (.column c) .eq v)
    (h : membership? alternatives = some e) :
    e.eval I read = I.ofTruth (Truth.any (alternatives.map (·.truth I read))) := by
  obtain ⟨d, v, values, hfirst, hvalues, -, rfl⟩ := membership?_eq_some h
  have hcolumn : ∀ p ∈ equalities alternatives, p.1 = c := by
    rintro ⟨c', v'⟩ hp
    obtain ⟨v'', heq⟩ := hone _ (mem_equalities.1 hp)
    cases heq
    rfl
  have hd : d = c := hcolumn _ hfirst
  have hall : values = (equalities alternatives).map Prod.snd := by
    rw [hvalues, List.filter_eq_self.2]
    intro p hp
    rw [hcolumn p hp, hd]
    exact decide_eq_true rfl
  calc (membership d values).eval I read
      = I.ofTruth (Truth.any (((equalities alternatives).map fun p =>
          binary (.column c) .eq p.2).map (·.truth I read))) := by
        rw [eval_membership, hd, hall, List.map_map, List.map_map]
        rfl
    _ = I.ofTruth (Truth.any (alternatives.map (·.truth I read))) := by
        rw [map_equalities_of_one_column hone]

/-- **Replacing chains of one column keeps the value.** If all alternatives of every replaced
chain equate one and the same column with some value, the expression means the same afterwards,
under every interpretation and every assignment, wherever the chains stand. -/
theorem eval_withMemberships {e : Expr}
    (hone : ∀ chain ∈ e.replacedChains,
      ∃ c, ∀ a ∈ chain.alternatives, ∃ v, a = .binary (.column c) .eq v)
    (I : Interpretation V) (read : ColumnRef → V) :
    e.withMemberships.eval I read = e.eval I read := by
  fun_induction replacedChains e with
  | case1 left right hsome =>
    obtain ⟨new, hnew⟩ := Option.isSome_iff_exists.1 hsome
    obtain ⟨c, hc⟩ := hone _ (List.mem_singleton_self _)
    rw [withMemberships_or, hnew, Option.getD_some, eval_or]
    exact eval_membership?_of_one_column I read hc hnew
  | case2 left right hnone =>
    rw [withMemberships_or, Option.not_isSome_iff_eq_none.1 hnone, Option.getD_none]
  | case3 left op right hop ihl ihr =>
    simp only [List.forall_mem_map, List.forall_mem_append] at hone
    rw [withMemberships_binary hop, eval, eval, ihl hone.1, ihr hone.2]
  | case4 e hor hbinary =>
    cases e with
    | binary left op right => exact absurd rfl (hbinary left op right)
    | _ => rfl

/-- A condition with a nested chain of one column, NULL among its values, under an `AND`. -/
def regionFilter : Expr :=
  .binary (.binary (.column ⟨none, "active"⟩) .eq (.literal ⟨"TRUE", .boolean⟩)) .and
    (.binary (.binary (.column ⟨some "c", "region"⟩) .eq (.literal ⟨"NA", .string⟩)) .or
      (.binary (.binary (.column ⟨some "c", "region"⟩) .eq (.literal ⟨"NULL", .null⟩)) .or
        (.binary (.column ⟨some "c", "region"⟩) .eq (.literal ⟨"EU", .string⟩))))

/-- A nested chain with NULL among its values keeps the value of the condition around it. -/
theorem eval_withMemberships_regionFilter :
    regionFilter.replacedChains.length = 1 ∧
    (∀ chain ∈ regionFilter.replacedChains,
      ∃ c, ∀ a ∈ chain.alternatives, ∃ v, a = .binary (.column c) .eq v) ∧
    regionFilter.withMemberships.eval .textual (fun _ => some "EU") =
      regionFilter.eval .textual fun _ => some "EU" := by
  have hone : ∀ chain ∈ regionFilter.replacedChains,
      ∃ c, ∀ a ∈ chain.alternatives, ∃ v, a = .binary (.column c) .eq v := by
    intro chain hchain
    refine ⟨⟨some "c", "region"⟩, fun a ha => ?_⟩
    have hpairs : ∀ chain ∈ regionFilter.replacedChains, ∀ a ∈ chain.alternatives,
        (equality? a).map Prod.fst = some ⟨some "c", "region"⟩ := by decide +kernel
    obtain ⟨⟨c, v⟩, hpair, rfl⟩ := Option.map_eq_some_iff.1 (hpairs chain hchain a ha)
    exact ⟨v, equality?_eq_some.1 hpair⟩
  exact ⟨by decide +kernel, hone, eval_withMemberships hone .textual fun _ => some "EU"⟩

/-! ## Chains of several columns admit no new rows -/

/-- If the membership test that takes the place of a chain is true, some alternative is. -/
theorem exists_isTrue_of_membership? {I : Interpretation V} {read : ColumnRef → V}
    {alternatives : List Expr} {e : Expr}
    (hdots : ∀ a ∈ alternatives, ∀ c ∈ a.columns, '.' ∉ c.column.toList)
    (h : membership? alternatives = some e) (htrue : e.IsTrue I read) :
    ∃ a ∈ alternatives, a.IsTrue I read := by
  obtain ⟨c, first, values, hfirst, rfl, -, rfl⟩ := membership?_eq_some h
  obtain ⟨v, hv, htrue⟩ := (isTrue_membership I read c _).1 htrue
  obtain ⟨⟨d, v'⟩, hpair, rfl⟩ := List.mem_map.1 hv
  obtain ⟨hmem, hname⟩ := List.mem_filter.1 hpair
  have hname : d.qualifiedName = c.qualifiedName := of_decide_eq_true hname
  -- both columns stand in the chain, so their names have no dots and tell them apart
  have hnodot : ∀ (c : ColumnRef) (v : Expr), (c, v) ∈ equalities alternatives →
      '.' ∉ c.column.toList := by
    intro c v hmem
    exact hdots _ (mem_equalities.1 hmem) c (by simp)
  have hd : d = c := ColumnRef.eq_of_qualifiedName_eq (hnodot d v' hmem)
    (hnodot c first hfirst) hname
  subst hd
  exact ⟨_, mem_equalities.1 hmem, htrue⟩

/-- **Replacing chains admits no new rows.** Let no column of a condition have a dot in its own
name, and let only `AND` stand above the chains that are replaced, whatever their alternatives
are. Under every assignment that makes the new condition true, the old one is true. -/
theorem isTrue_of_withMemberships {I : Interpretation V} (hand : I.KleeneAnd) {e : Expr}
    (hdots : ∀ c ∈ e.columns, '.' ∉ c.column.toList)
    (habove : ∀ chain ∈ e.replacedChains, ∀ op ∈ chain.above, op = .and)
    (read : ColumnRef → V) (h : e.withMemberships.IsTrue I read) : e.IsTrue I read := by
  fun_induction replacedChains e with
  | case1 left right hsome =>
    obtain ⟨new, hnew⟩ := Option.isSome_iff_exists.1 hsome
    rw [withMemberships_or, hnew, Option.getD_some] at h
    have hparts : ∀ a ∈ (binary left .or right).alternatives, ∀ c ∈ a.columns,
        '.' ∉ c.column.toList :=
      fun a ha c hc => hdots c (mem_columns_of_alternative ha hc)
    rw [isTrue_iff_alternatives]
    exact exists_isTrue_of_membership? hparts hnew h
  | case2 left right hnone =>
    rwa [withMemberships_or, Option.not_isSome_iff_eq_none.1 hnone, Option.getD_none] at h
  | case3 left op right hop ihl ihr =>
    simp only [columns_binary, List.forall_mem_append] at hdots
    by_cases hempty : left.replacedChains ++ right.replacedChains = []
    · have hself : (binary left op right).withMemberships = .binary left op right :=
        withMemberships_eq_self (by rw [replacedChains_binary hop, hempty, List.map_nil])
      rwa [hself] at h
    · obtain ⟨chain, hchain⟩ := List.exists_mem_of_ne_nil _ hempty
      -- a replaced chain stands below the operator, so the operator is `AND`
      have hopAnd : op = .and := habove _ (List.mem_map_of_mem hchain) op List.mem_cons_self
      subst hopAnd
      have hbelow : ∀ chain ∈ left.replacedChains ++ right.replacedChains,
          ∀ op ∈ chain.above, op = .and :=
        fun chain hmem op hop =>
          habove _ (List.mem_map_of_mem hmem) op (List.mem_cons_of_mem _ hop)
      obtain ⟨hl, hr⟩ := List.forall_mem_append.1 hbelow
      rw [withMemberships_binary hop, isTrue_and read hand] at h
      rw [isTrue_and read hand]
      exact ⟨ihl hdots.1 hl h.1, ihr hdots.2 hr h.2⟩
  | case4 e hor hbinary =>
    cases e with
    | binary left op right => exact absurd rfl (hbinary left op right)
    | _ => exact h

/-- A chain of two columns and another test, under an `AND`: the replacement drops the last two
alternatives of the chain. -/
def mixedFilter : Expr :=
  .binary (.binary (.column ⟨none, "active"⟩) .eq (.literal ⟨"TRUE", .boolean⟩)) .and
    (.binary
      (.binary (.binary (.column ⟨some "c", "region"⟩) .eq (.literal ⟨"NA", .string⟩)) .or
        (.binary (.binary (.column ⟨some "c", "region"⟩) .eq (.literal ⟨"TRUE", .string⟩)) .or
          (.binary (.column ⟨some "c", "region"⟩) .eq (.literal ⟨"EU", .string⟩)))) .or
      (.binary (.binary (.column ⟨none, "status"⟩) .eq (.literal ⟨"x", .string⟩)) .or
        (.binary (.column ⟨none, "size"⟩) .gt (.literal ⟨"3", .number⟩))))

/-- A chain of two columns is replaced, and the row that the new condition admits the old one admits
too. -/
theorem isTrue_of_withMemberships_mixedFilter :
    mixedFilter.replacedChains.length = 1 ∧
    (∀ c ∈ mixedFilter.columns, '.' ∉ c.column.toList) ∧
    (∀ chain ∈ mixedFilter.replacedChains, ∀ op ∈ chain.above, op = .and) ∧
    mixedFilter.withMemberships.IsTrue .textual (fun _ => some "TRUE") ∧
    mixedFilter.IsTrue .textual fun _ => some "TRUE" := by
  have hdots : ∀ c ∈ mixedFilter.columns, '.' ∉ c.column.toList := by decide +kernel
  have habove : ∀ chain ∈ mixedFilter.replacedChains, ∀ op ∈ chain.above, op = .and := by
    decide +kernel
  have htrue : mixedFilter.withMemberships.IsTrue .textual fun _ => some "TRUE" := by
    unfold IsTrue
    decide +kernel
  exact ⟨by decide +kernel, hdots, habove, htrue,
    isTrue_of_withMemberships Interpretation.textual_kleeneAnd hdots habove _ htrue⟩

end QuerySplit.Expr
