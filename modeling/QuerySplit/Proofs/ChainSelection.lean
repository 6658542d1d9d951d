import QuerySplit.Proofs.BuiltInRules

/-!
# Which chains are replaced, and by what

The replacement of chains as a relation (`ChainsReplaced`), which says nothing of groups. A chain is
replaced when some name has at least three equalities in it, by the test for the first such name
to appear (`TakesOver`), and stays as a whole otherwise. Below every other operator each operand is
replaced on its own, and nothing else changes. The relation determines the new expression, and
this is the one that the rule leaves (`chainsReplaced_iff`).

A chain is read as the list of its alternatives, so two chains with the same alternatives come to
the same result, however they are grouped (`orToIn?_takes_first_recurring_name`).
-/

set_option autoImplicit false

namespace QuerySplit.Expr

/-- A column whose test takes the place of a chain: its name has at least three equalities, and the
name of no equality before the first of them has as many. -/
structure TakesOver (c : ColumnRef) (alternatives : List Expr) : Prop where
  enough : 3 ≤ (valuesOf c.qualifiedName (equalities alternatives)).length
  first : ∃ before v after, alternatives = before ++ .binary (.column c) .eq v :: after ∧
    ∀ d w, .binary (.column d) .eq w ∈ before →
      (valuesOf d.qualifiedName (equalities alternatives)).length < 3

/-- The expression that replacing chains makes of an expression. -/
inductive ChainsReplaced : Expr → Expr → Prop
  | replaced {chain : Expr} {c : ColumnRef} (hor : chain.isOp .or = true)
      (h : TakesOver c chain.alternatives) :
      ChainsReplaced chain
        (.membership c (valuesOf c.qualifiedName (equalities chain.alternatives)))
  | kept {chain : Expr} (hor : chain.isOp .or = true)
      (h : ∀ name, (valuesOf name (equalities chain.alternatives)).length < 3) :
      ChainsReplaced chain chain
  | operands {left right newLeft newRight : Expr} {op : BinaryOp} (hop : op ≠ .or)
      (hl : ChainsReplaced left newLeft) (hr : ChainsReplaced right newRight) :
      ChainsReplaced (.binary left op right) (.binary newLeft op newRight)
  | other {e : Expr} (h : ∀ left op right, e ≠ .binary left op right) : ChainsReplaced e e

/-! ## The test for a chain -/

/-- The first equality of some kind among the alternatives. -/
theorem find?_equalities_eq_some_iff {alternatives : List Expr} {P : ColumnRef × Expr → Bool}
    {c : ColumnRef} {v : Expr} :
    (equalities alternatives).find? P = some (c, v) ↔
      P (c, v) = true ∧ ∃ before after,
        alternatives = before ++ .binary (.column c) .eq v :: after ∧
        ∀ d w, .binary (.column d) .eq w ∈ before → P (d, w) = false := by
  constructor
  · intro h
    obtain ⟨hP, before, after, heq, hbefore⟩ := List.find?_eq_some_iff_append.1 h
    obtain ⟨front, back, rfl, hfront, hback⟩ := List.filterMap_eq_append_iff.1 heq
    obtain ⟨skipped, e, rest, rfl, hskipped, he, -⟩ := List.filterMap_eq_cons_iff.1 hback
    obtain rfl := equality?_eq_some.1 he
    refine ⟨hP, front ++ skipped, rest, by rw [List.append_assoc], fun d w hmem => ?_⟩
    rcases List.mem_append.1 hmem with hmem | hmem
    · have hpair : (d, w) ∈ before := hfront ▸ mem_equalities.2 hmem
      simpa using hbefore _ hpair
    · cases hskipped _ hmem
  · rintro ⟨hP, before, after, rfl, hbefore⟩
    refine List.find?_eq_some_iff_append.2
      ⟨hP, equalities before, equalities after, ?_, fun ⟨d, w⟩ hpair => ?_⟩
    · rw [equalities, List.filterMap_append, List.filterMap_cons_some (equality?_eq_some.2 rfl)]
      rfl
    · rw [hbefore d w (mem_equalities.1 hpair), Bool.not_false]

/-- A list of alternatives becomes the test for the column that takes over, with all values of its
name. -/
theorem membership?_eq_some_iff {alternatives : List Expr} {new : Expr} :
    membership? alternatives = some new ↔
      ∃ c, TakesOver c alternatives ∧
        new = .membership c (valuesOf c.qualifiedName (equalities alternatives)) := by
  rw [membership?_eq, Option.map_eq_some_iff]
  constructor
  · rintro ⟨⟨c, v⟩, hfind, rfl⟩
    obtain ⟨henough, before, after, heq, hbefore⟩ := find?_equalities_eq_some_iff.1 hfind
    refine ⟨c, ⟨of_decide_eq_true henough, before, v, after, heq, fun d w hmem => ?_⟩, rfl⟩
    exact Nat.not_le.1 (of_decide_eq_false (hbefore d w hmem))
  · rintro ⟨c, ⟨henough, before, v, after, heq, hbefore⟩, rfl⟩
    refine ⟨(c, v), find?_equalities_eq_some_iff.2 ⟨decide_eq_true henough, before, after, heq,
      fun d w hmem => decide_eq_false (Nat.not_le.2 (hbefore d w hmem))⟩, rfl⟩

/-- No test takes the place of a list in which no name has three equalities. -/
theorem membership?_eq_none_iff {alternatives : List Expr} :
    membership? alternatives = none ↔
      ∀ name, (valuesOf name (equalities alternatives)).length < 3 := by
  rw [membership?_eq, Option.map_eq_none_iff, List.find?_eq_none]
  constructor
  · intro h name
    cases hvalues : valuesOf name (equalities alternatives) with
    | nil => exact Nat.zero_lt_succ 2
    | cons v rest =>
      -- a name that has values is the name of an equality
      have hv : v ∈ valuesOf name (equalities alternatives) := hvalues ▸ List.mem_cons_self
      obtain ⟨p, hp, -⟩ := List.mem_map.1 hv
      obtain ⟨hp, hname⟩ := List.mem_filter.1 hp
      have hfew := h p hp
      rw [of_decide_eq_true hname, hvalues] at hfew
      exact Nat.not_le.1 fun henough => hfew (decide_eq_true henough)
  · intro h p _ henough
    exact Nat.not_le.2 (h p.1.qualifiedName) (of_decide_eq_true henough)

/-! ## The replacement -/

/-- A chain is read as the list of its alternatives. -/
theorem orToIn?_of_isOp {chain : Expr} (hor : chain.isOp .or = true) :
    chain.orToIn? = membership? chain.alternatives := by
  cases chain with
  | binary left op right =>
    obtain rfl := eq_of_beq hor
    rw [orToIn?, alternatives]
  | _ => cases hor

/-- What becomes of a chain depends on its alternatives alone, as long as something replaces it. -/
theorem withMemberships_of_isOp {chain : Expr} (hor : chain.isOp .or = true) :
    chain.withMemberships = (membership? chain.alternatives).getD chain := by
  rw [withMemberships, orToIn?_of_isOp hor]

/-- **The relation holds of what the replacement makes of an expression, and of nothing else.** -/
theorem chainsReplaced_iff {e new : Expr} :
    e.ChainsReplaced new ↔ new = e.withMemberships := by
  constructor
  · intro h
    induction h with
    | replaced hor h =>
      rw [withMemberships_of_isOp hor, membership?_eq_some_iff.2 ⟨_, h, rfl⟩, Option.getD_some]
    | kept hor h => rw [withMemberships_of_isOp hor, membership?_eq_none_iff.2 h, Option.getD_none]
    | operands hop _ _ ihl ihr => rw [withMemberships_binary hop, ihl, ihr]
    | other h => exact (withMemberships_other h).symm
  · rintro rfl
    -- the list of replaced chains is made along the same cases as the new expression
    fun_induction replacedChains e with
    | case1 left right hsome =>
      obtain ⟨new, hnew⟩ := Option.isSome_iff_exists.1 hsome
      obtain ⟨c, hc, rfl⟩ := membership?_eq_some_iff.1 hnew
      rw [withMemberships_or, hnew, Option.getD_some]
      exact @ChainsReplaced.replaced (.binary left .or right) c rfl hc
    | case2 left right hnone =>
      have hnew := Option.not_isSome_iff_eq_none.1 hnone
      rw [withMemberships_or, hnew, Option.getD_none]
      exact @ChainsReplaced.kept (.binary left .or right) rfl (membership?_eq_none_iff.1 hnew)
    | case3 left op right hop ihl ihr =>
      rw [withMemberships_binary hop]
      exact .operands hop ihl ihr
    | case4 e hor hbinary =>
      rw [withMemberships_other hbinary]
      exact .other hbinary

/-- **What the replacement of chains does.** The new expression is the one that the relation
determines; the rule reports a change exactly when it differs from the old one; and chains with the
same alternatives stay both or become the same test, however they are grouped. -/
theorem orToIn?_takes_first_recurring_name (e : Expr) :
    (∀ new, e.ChainsReplaced new ↔ new = e.withMemberships) ∧
    e.orToIn? = (if e.withMemberships = e then none else some e.withMemberships) ∧
    ∀ e' : Expr, e.isOp .or = true → e'.isOp .or = true → e'.alternatives = e.alternatives →
      e'.orToIn? = e.orToIn? := by
  refine ⟨fun new => chainsReplaced_iff, ?_, fun e' hor hor' hsame => ?_⟩
  · cases hnew : e.orToIn? with
    | none => rw [if_pos (withMemberships_eq_self_iff.2 hnew)]
    | some new =>
      have hwith : e.withMemberships = new := by rw [withMemberships, hnew, Option.getD_some]
      have hchanged : e.withMemberships ≠ e := fun hself => by
        rw [withMemberships_eq_self_iff.1 hself] at hnew
        cases hnew
      rw [if_neg hchanged, hwith]
  · rw [orToIn?_of_isOp hor, orToIn?_of_isOp hor', hsame]

/-- A chain in three parts put together in some way. Region and status both have three equalities,
in turns, and one value of the region comes twice. -/
def regionChain (group : Expr → Expr → Expr → Expr) : Expr :=
  group
    (.binary (.binary (.column ⟨some "c", "region"⟩) .eq (.literal ⟨"NA", .string⟩)) .or
      (.binary (.column ⟨none, "status"⟩) .eq (.literal ⟨"new", .string⟩)))
    (.binary (.column ⟨some "c", "region"⟩) .eq (.literal ⟨"EU", .string⟩))
    (.binary
      (.binary (.binary (.column ⟨none, "status"⟩) .eq (.literal ⟨"old", .string⟩)) .or
        (.binary (.column ⟨none, "status"⟩) .eq (.literal ⟨"lost", .string⟩))) .or
      (.binary (.column ⟨some "c", "region"⟩) .eq (.literal ⟨"NA", .string⟩)))

/-- Two groupings of a chain in which two columns have three equalities each become one test, that
of the column that comes first. -/
theorem orToIn?_takes_first_recurring_name_regionChain :
    let left := regionChain fun a b c => .binary (.binary a .or b) .or c
    let right := regionChain fun a b c => .binary a .or (.binary b .or c)
    let test : Expr := .membership ⟨some "c", "region"⟩
      [.literal ⟨"NA", .string⟩, .literal ⟨"EU", .string⟩, .literal ⟨"NA", .string⟩]
    left.isOp .or = true ∧ right.isOp .or = true ∧ right.alternatives = left.alternatives ∧
      right.orToIn? = left.orToIn? ∧ left.orToIn? = some test ∧ left.ChainsReplaced test := by
  have hleft := orToIn?_takes_first_recurring_name
    (regionChain fun a b c => .binary (.binary a .or b) .or c)
  exact ⟨rfl, rfl, rfl, hleft.2.2 _ rfl rfl rfl, by decide +kernel,
    (hleft.1 _).2 (by decide +kernel)⟩

end QuerySplit.Expr
