import Mathlib.Data.List.Forall2
import QuerySplit.Proofs.Recognition
import QuerySplit.Split.Pushdown

/-!
# The pushdown report and the analysis

The report on pushable joins and the analysis of a query look at join conditions in ways of their
own. The analysis lets an unqualified column stand for the source that carries the condition; the
report does not, and asks that a condition of the federated table mentions the source; it also
takes two equalities under one `AND`. Both find the same federated table. Where no condition is a
conjunction or equates an unqualified column, each source has the same sides in both
(`pushableJoin?_eq`), so the two lists of joins correspond one to one
(`pushdownReport?_agrees`).
-/

set_option autoImplicit false

namespace QuerySplit

/-! ## One condition -/

namespace Expr

variable {f : FederatedTable} {t : TableRef} {e : Expr}

/-- If the expression equates two columns, both have qualifiers. -/
def EquatesQualified (e : Expr) : Prop :=
  ∀ left right, e = .binary (.column left) .eq (.column right) →
    left.table.isSome = true ∧ right.table.isSome = true

/-- An equality of two qualified columns has no side that is unqualified. -/
theorem sidesBy?_isNone_eq_none (h : e.EquatesQualified) (federated : ColumnRef → Bool) :
    e.sidesBy? federated (·.table.isNone) = none := by
  rw [Option.eq_none_iff_forall_ne_some]
  intro sides hsides
  obtain ⟨-, hnone, hequated⟩ := sidesBy?_eq_some hsides
  have hsome : sides.dimension.table.isSome = true := by
    rcases hequated with he | he
    · exact (h _ _ he).2
    · exact (h _ _ he).1
  rw [Option.isNone_iff_eq_none] at hnone
  rw [hnone] at hsome
  cases hsome

/-- With qualified columns it makes no difference which source carries an equality. -/
theorem attachedJoinSides?_eq (h : e.EquatesQualified) :
    e.attachedJoinSides? f t = e.joinSides? f t := by
  rw [attachedJoinSides?, sidesBy?_isNone_eq_none h, Option.or_none]

/-- A condition that joins a source mentions it. -/
theorem mentions_of_joinSides?_eq_some {sides : JoinSides} (h : e.joinSides? f t = some sides) :
    e.mentions t = true := by
  obtain ⟨-, howns, hequated⟩ := sidesBy?_eq_some h
  exact List.any_eq_true.2 ⟨sides.dimension, hequated.mem_columns.2, howns⟩

/-- The report reads a single condition as one equality. -/
theorem pushablePairs?_eq (s : Select) (h : e.isOp .and = false) :
    e.pushablePairs? s f t = (e.joinSides? f t).map fun sides =>
      ([⟨sides.federated.column, sides.dimension.column⟩],
        s.projects t sides.dimension.column) := by
  unfold pushablePairs?
  split
  · cases h
  · rw [columnPair?, Option.map_map]
    rfl

end Expr

/-! ## One source -/

namespace Select

variable {s : Select} {f : FederatedTable}

/-- No join condition is a conjunction, and none equates an unqualified column. -/
structure PlainJoins (s : Select) : Prop where
  single : ∀ e ∈ s.conditions, e.isOp .and = false
  qualified : ∀ e ∈ s.conditions, e.EquatesQualified

/-- The condition of the federated table is the join condition of some source. -/
theorem mem_conditions_of_federatedCondition? {e : Expr}
    (h : s.federatedCondition? f = some e) : e ∈ s.conditions := by
  obtain ⟨federated, hget, he⟩ := Option.bind_eq_some_iff.1 h
  exact mem_conditions hget he

/-- The report asks first whether the condition mentions the source. This makes no difference to
what can only be found in conditions that do. -/
theorem bind_filter_mentions {β : Type} {t : TableRef} {find? : Expr → Option β}
    (hfind : ∀ e found, find? e = some found → e.mentions t = true) (condition : Option Expr) :
    (condition.filter (·.mentions t)).bind find? = condition.bind find? := by
  cases condition with
  | none => rfl
  | some e =>
    cases hmentions : e.mentions t with
    | true => rw [Option.filter_some_pos hmentions]
    | false =>
      rw [Option.filter_some_neg (by simp [hmentions]), Option.bind_none, Option.bind_some]
      refine (Option.eq_none_iff_forall_ne_some.2 fun found hfound => ?_).symm
      rw [hfind e found hfound] at hmentions
      cases hmentions

/-- The report reads single conditions as equalities. -/
theorem bind_pushablePairs?_eq {condition : Option Expr} (t : TableRef)
    (h : ∀ e ∈ condition, e.isOp .and = false) :
    condition.bind (·.pushablePairs? s f t) =
      (condition.bind (·.joinSides? f t)).map fun sides =>
        ([⟨sides.federated.column, sides.dimension.column⟩],
          s.projects t sides.dimension.column) := by
  cases condition with
  | none => rfl
  | some e => exact Expr.pushablePairs?_eq s (h e rfl)

/-- **The report on a source is made from the sides that the analysis finds for it.** -/
theorem pushableJoin?_eq (h : s.PlainJoins) {t : TableRef} (ht : t ∈ s.tables) :
    s.pushableJoin? f t = (s.joinSides? f t).map fun sides =>
      { table := t.name
        alias? := t.alias?
        pairs := [⟨sides.federated.column, sides.dimension.column⟩]
        required := s.projects t sides.dimension.column } := by
  have hown : ∀ e ∈ t.condition, e ∈ s.conditions :=
    fun e he => List.mem_filterMap.2 ⟨t, ht, he⟩
  have hother : ∀ e ∈ (s.federatedCondition? f).filter (·.mentions t), e ∈ s.conditions :=
    fun e he => mem_conditions_of_federatedCondition? (Option.mem_filter_iff.1 he).1
  have hattached : t.condition.bind (·.attachedJoinSides? f t) =
      t.condition.bind (·.joinSides? f t) :=
    Option.bind_congr fun e he => Expr.attachedJoinSides?_eq (h.qualified e (hown e he))
  rw [pushableJoin?, bind_pushablePairs?_eq t fun e he => h.single e (hown e he),
    bind_pushablePairs?_eq t fun e he => h.single e (hother e he),
    bind_filter_mentions fun _ _ => Expr.mentions_of_joinSides?_eq_some, ← Option.map_or,
    Option.map_map, joinSides?, hattached]
  rfl

end Select

/-! ## The two lists of joins -/

/-- A pushable join reports the one equality that a dimension join is made from. -/
structure PushableJoin.Reports (p : PushableJoin) (j : DimensionJoin) : Prop where
  table : p.table = j.table
  alias? : p.alias? = j.alias?
  pairs : p.pairs = [⟨j.federatedColumn, j.dimensionColumn⟩]

/-- **The report and the analysis agree.** Either both find a federated table, the same one, or
none does. Where no join condition is a conjunction or equates an unqualified column, the pushable
joins report the dimension joins one by one, in order. -/
theorem Select.pushdownReport?_agrees (d : Dialect) (s : Select) :
    (Split.analyze? d.naming s).isSome = (s.pushdownReport? d.naming).isSome ∧
    ∀ split report, Split.analyze? d.naming s = some split →
      s.pushdownReport? d.naming = some report →
      report.federatedTable = split.federated.name ∧ report.alias? = split.federated.alias? ∧
      (s.PlainJoins →
        List.Forall₂ PushableJoin.Reports report.joins split.federated.joins) := by
  constructor
  · rw [Split.analyze?, pushdownReport?, Option.isSome_map, Option.isSome_map]
  · intro split report hsplit hreport
    obtain ⟨f, hf, rfl⟩ := Option.map_eq_some_iff.1 hsplit
    obtain ⟨f', hf', rfl⟩ := Option.map_eq_some_iff.1 hreport
    obtain rfl : f = f' := Option.some.inj (hf.symm.trans hf')
    refine ⟨rfl, rfl, fun h => ?_⟩
    have hsources : List.Forall₂ (fun t t' => t = t' ∧ t ∈ s.tables) (s.othersThan f.position)
        (s.othersThan f.position) :=
      List.forall₂_same.2 fun t ht => ⟨rfl, List.mem_of_mem_eraseIdx ht⟩
    refine List.rel_filterMap ?_ hsources
    rintro t _ ⟨rfl, ht⟩
    rw [pushableJoin?_eq h ht, dimensionJoin?]
    cases s.joinSides? f t with
    | none => exact .none
    | some sides => exact .some ⟨rfl, rfl, rfl⟩

/-- Clicks between a campaign and a device. The clicks carry the condition on the campaign, the
device carries its own, with its column in front. -/
def campaignClicks : Select where
  items := [.column ⟨some "c", "name"⟩, .column ⟨some "devices", "id"⟩]
  sources := some [
    { name := "campaigns", alias? := some "c" },
    { name := "ads_aqfer.clicks", alias? := some "imp", join := .inner
      condition := some (.binary (.column ⟨some "imp", "campaign_id"⟩) .eq
        (.column ⟨some "c", "id"⟩)) },
    { name := "devices", join := .left
      condition := some (.binary (.column ⟨some "devices", "id"⟩) .eq
        (.column ⟨some "clicks", "device_id"⟩)) }]

/-- Two dimensions that are joined by one column each: the report and the split list the same joins
in the same order. -/
theorem Select.pushdownReport?_agrees_campaignClicks :
    campaignClicks.PlainJoins ∧ ∃ split report,
      Split.analyze? Dialect.standard.naming campaignClicks = some split ∧
      campaignClicks.pushdownReport? Dialect.standard.naming = some report ∧
      report.federatedTable = split.federated.name ∧ report.alias? = split.federated.alias? ∧
      report.joins.map PushableJoin.pairs =
        [[⟨"campaign_id", "id"⟩], [⟨"device_id", "id"⟩]] ∧
      List.Forall₂ PushableJoin.Reports report.joins split.federated.joins := by
  have hplain : campaignClicks.PlainJoins := by
    constructor
    · decide
    · simp [campaignClicks, conditions, tables, Expr.EquatesQualified]
  obtain ⟨split, hsplit⟩ :
      ∃ split, Split.analyze? Dialect.standard.naming campaignClicks = some split := ⟨_, rfl⟩
  obtain ⟨report, hreport⟩ :
      ∃ report, campaignClicks.pushdownReport? Dialect.standard.naming = some report := ⟨_, rfl⟩
  obtain ⟨htable, halias, hjoins⟩ :=
    (pushdownReport?_agrees .standard campaignClicks).2 split report hsplit hreport
  refine ⟨hplain, split, report, hsplit, hreport, htable, halias, ?_, hjoins hplain⟩
  cases hreport
  decide +kernel

end QuerySplit
