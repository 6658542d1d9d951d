import QuerySplit.Proofs.Dimensions
import QuerySplit.Proofs.JoinReports
import QuerySplit.Proofs.JoinedRows

/-!
# What a pushable join says

The report on pushable joins gives the column pairs of a condition and drops the condition itself.
It does so for one equality between the federated table and a source, and for two of them under one
`AND` (`Expr.PushedAs`). Nothing is lost: over rows of the two tables such a condition is true
exactly if every pair is equal (`Expr.PushedAs.capturedBy`), in whichever order the equalities are
written.

Main statement: `Select.pushable_joins_capture`, which also says which condition a join is taken
from and which sources have none.
-/

set_option autoImplicit false

namespace QuerySplit

variable {V : Type}

/-! ## Equalities between two tables -/

/-- The column pair of a join. -/
def JoinSides.pair (sides : JoinSides) : ColumnPair :=
  ⟨sides.federated.column, sides.dimension.column⟩

/-- The expression is an equality, in one order or the other, of these columns of the federated
table and of the source. -/
structure JoinSides.TieIn (sides : JoinSides) (f : FederatedTable) (t : TableRef) (e : Expr) :
    Prop where
  equated : sides.EquatedIn e
  federated : f.owns sides.federated = true
  source : t.owns sides.dimension = true

namespace Interpretation

/-- The order of the two sides plays no part in whether an equality is true. -/
def SymmetricEq (I : Interpretation V) : Prop :=
  ∀ a b, I.equal a b = .holds → I.equal b a = .holds

/-- A strict equality is symmetric. -/
theorem StrictEq.symmetricEq {I : Interpretation V} (h : I.StrictEq) : I.SymmetricEq :=
  fun _ _ => h.equal_comm.1

end Interpretation

/-- The two columns of the pair are equal in a row of the federated table and a row of a source. -/
def ColumnPair.Holds (pair : ColumnPair) (I : Interpretation V) (row other : Row V) : Prop :=
  I.equal (row pair.federated) (other pair.dimension) = .holds

/-- The assignment gives the federated columns of the expression the values of one row and the
columns of the source those of another. -/
structure Expr.ReadsRows (e : Expr) (f : FederatedTable) (t : TableRef) (read : ColumnRef → V)
    (row other : Row V) : Prop where
  federated : ∀ c ∈ e.columns, f.owns c = true → read c = row.read c
  source : ∀ c ∈ e.columns, t.owns c = true → read c = other.read c

/-- An equality between the two tables compares the two columns of its pair. -/
theorem JoinSides.TieIn.isTrue_iff {sides : JoinSides} {f : FederatedTable} {t : TableRef}
    {e : Expr} (h : sides.TieIn f t e) {I : Interpretation V} (hsymmetric : I.SymmetricEq)
    {read : ColumnRef → V} {row other : Row V} (hread : e.ReadsRows f t read row other) :
    e.IsTrue I read ↔ sides.pair.Holds I row other := by
  obtain ⟨hfederated, hsource⟩ := h.equated.mem_columns
  have hleft : read sides.federated = row.read sides.federated :=
    hread.federated _ hfederated h.federated
  have hright : read sides.dimension = other.read sides.dimension :=
    hread.source _ hsource h.source
  have hpair : sides.pair.Holds I row other ↔
      I.equal (read sides.federated) (read sides.dimension) = .holds := by
    rw [hleft, hright]
    rfl
  rw [hpair]
  rcases h.equated with rfl | rfl
  · rfl
  · exact ⟨hsymmetric _ _, hsymmetric _ _⟩

/-! ## Conditions that can be pushed down -/

namespace Expr

/-- A condition is pushed down as a list of column pairs: one equality between the federated table
and the source as its pair, two under one `AND` as their pairs. -/
inductive PushedAs (f : FederatedTable) (t : TableRef) : Expr → List ColumnPair → Prop
  | single {e : Expr} {sides : JoinSides} (h : sides.TieIn f t e) : PushedAs f t e [sides.pair]
  | both {left right : Expr} {first second : JoinSides} (hfirst : first.TieIn f t left)
      (hsecond : second.TieIn f t right) :
      PushedAs f t (.binary left .and right) [first.pair, second.pair]

/-- The condition is one equality between the federated table and the source, or two under one
`AND`. -/
def Pushable (f : FederatedTable) (t : TableRef) (e : Expr) : Prop :=
  ∃ pairs, e.PushedAs f t pairs

/-- The pairs say what the condition says, over rows of the two tables. -/
def CapturedBy (f : FederatedTable) (t : TableRef) (e : Expr) (pairs : List ColumnPair) : Prop :=
  ∀ {V : Type} {I : Interpretation V}, I.KleeneAnd → I.SymmetricEq →
    ∀ {read : ColumnRef → V} {row other : Row V}, e.ReadsRows f t read row other →
      (e.IsTrue I read ↔ ∀ pair ∈ pairs, pair.Holds I row other)

variable {s : Select} {f : FederatedTable} {t : TableRef} {e : Expr}

/-- A condition is pushed down as one pair or two. -/
theorem PushedAs.length {pairs : List ColumnPair} (h : e.PushedAs f t pairs) :
    pairs.length = 1 ∨ pairs.length = 2 := by
  cases h with
  | single h => exact .inl rfl
  | both hfirst hsecond => exact .inr rfl

/-- **The column pairs capture the condition.** -/
theorem PushedAs.capturedBy {pairs : List ColumnPair} (h : e.PushedAs f t pairs) :
    e.CapturedBy f t pairs := by
  intro V I hand hsymmetric read row other hread
  cases h with
  | single h => rw [List.forall_mem_singleton, h.isTrue_iff hsymmetric hread]
  | both hfirst hsecond =>
    obtain ⟨hfederated, hsource⟩ := hread
    rw [columns_binary, List.forall_mem_append] at hfederated hsource
    rw [isTrue_and read hand, List.forall_mem_cons, List.forall_mem_singleton,
      hfirst.isTrue_iff hsymmetric ⟨hfederated.1, hsource.1⟩,
      hsecond.isTrue_iff hsymmetric ⟨hfederated.2, hsource.2⟩]

/-- What is pushed down mentions the source. -/
theorem PushedAs.mentions {pairs : List ColumnPair} (h : e.PushedAs f t pairs) :
    e.mentions t = true := by
  cases h with
  | single h =>
    exact List.any_eq_true.2 ⟨_, h.equated.mem_columns.2, h.source⟩
  | both hfirst hsecond =>
    refine List.any_eq_true.2 ⟨_, ?_, hfirst.source⟩
    rw [columns_binary]
    exact List.mem_append_left _ hfirst.equated.mem_columns.2

/-! ### How the report reads a condition -/

/-- A column pair is read off an equality between the two tables. -/
theorem columnPair?_eq_some {pair : ColumnPair} (h : e.columnPair? f t = some pair) :
    ∃ sides : JoinSides, sides.TieIn f t e ∧ sides.pair = pair := by
  obtain ⟨sides, hsides, rfl⟩ := Option.map_eq_some_iff.1 h
  obtain ⟨hfederated, hsource, hequated⟩ := sidesBy?_eq_some hsides
  exact ⟨sides, ⟨hequated, hfederated, hsource⟩, rfl⟩

/-- An equality between the two tables has a column pair. -/
theorem isSome_columnPair?_of_tieIn {sides : JoinSides} (h : sides.TieIn f t e) :
    (e.columnPair? f t).isSome = true := by
  rw [columnPair?, Option.isSome_map, joinSides?, isSome_sidesBy?_iff]
  exact ⟨sides, h.equated, h.federated, h.source⟩

/-- The pairs found say what the condition says, and only a single pair may be required. -/
theorem pushedAs_of_pushablePairs? {pairs : List ColumnPair} {required : Bool}
    (h : e.pushablePairs? s f t = some (pairs, required)) :
    e.PushedAs f t pairs ∧ (required = true → pairs.length = 1) := by
  unfold pushablePairs? at h
  split at h
  · next left right =>
    split at h
    · next hfirst hsecond =>
      cases h
      obtain ⟨first, htie, rfl⟩ := columnPair?_eq_some hfirst
      obtain ⟨second, htie', rfl⟩ := columnPair?_eq_some hsecond
      exact ⟨.both htie htie', fun hrequired => nomatch hrequired⟩
    · cases h
  · obtain ⟨pair, hpair, heq⟩ := Option.map_eq_some_iff.1 h
    cases heq
    obtain ⟨sides, htie, rfl⟩ := columnPair?_eq_some hpair
    exact ⟨.single htie, fun _ => rfl⟩

/-- Pairs are found exactly for the conditions that can be pushed down. -/
theorem isSome_pushablePairs?_iff :
    (e.pushablePairs? s f t).isSome = true ↔ e.Pushable f t := by
  constructor
  · intro h
    obtain ⟨⟨pairs, required⟩, hpairs⟩ := Option.isSome_iff_exists.1 h
    exact ⟨pairs, (pushedAs_of_pushablePairs? hpairs).1⟩
  · rintro ⟨pairs, hpushed⟩
    cases hpushed with
    | single h =>
      have hsome := isSome_columnPair?_of_tieIn h
      have hand : e.isOp .and = false := by rcases h.equated with rfl | rfl <;> rfl
      rw [columnPair?, Option.isSome_map] at hsome
      rw [pushablePairs?_eq s hand, Option.isSome_map]
      exact hsome
    | both hfirst hsecond =>
      obtain ⟨first, hleft⟩ := Option.isSome_iff_exists.1 (isSome_columnPair?_of_tieIn hfirst)
      obtain ⟨second, hright⟩ := Option.isSome_iff_exists.1 (isSome_columnPair?_of_tieIn hsecond)
      rw [pushablePairs?, hleft, hright]
      rfl

end Expr

/-! ## Sources and their pushable joins -/

namespace Select

/-- The condition that a join of the source is taken from, with its pairs: the source's own if that
can be pushed down, and otherwise the condition of the federated table. -/
inductive PushedFrom (s : Select) (f : FederatedTable) (t : TableRef) :
    Expr → List ColumnPair → Prop
  | own {e : Expr} {pairs : List ColumnPair} (he : t.condition = some e)
      (h : e.PushedAs f t pairs) : PushedFrom s f t e pairs
  | federated {e : Expr} {pairs : List ColumnPair}
      (hown : ∀ own, t.condition = some own → ¬ own.Pushable f t)
      (he : s.federatedCondition? f = some e) (h : e.PushedAs f t pairs) :
      PushedFrom s f t e pairs

/-- The source's own condition or that of the federated table can be pushed down. -/
def Pushable (s : Select) (f : FederatedTable) (t : TableRef) : Prop :=
  (∃ e ∈ t.condition, e.Pushable f t) ∨ ∃ e ∈ s.federatedCondition? f, e.Pushable f t

/-- A pushable join is that of a source: it goes by the name and alias of the source, and its one or
two column pairs say what the condition says that they are taken from. -/
structure Captures (s : Select) (f : FederatedTable) (t : TableRef) (p : PushableJoin) :
    Prop where
  table : p.table = t.name
  alias? : p.alias? = t.alias?
  pairs : p.pairs.length = 1 ∨ p.pairs.length = 2
  required : p.required = true → p.pairs.length = 1
  condition : ∃ e, s.PushedFrom f t e p.pairs ∧ e.CapturedBy f t p.pairs

variable {s : Select} {f : FederatedTable} {t : TableRef}

/-- Wherever a condition comes from, it is pushed down as its pairs. -/
theorem PushedFrom.pushedAs {e : Expr} {pairs : List ColumnPair} (h : s.PushedFrom f t e pairs) :
    e.PushedAs f t pairs := by
  cases h with
  | own he h => exact h
  | federated hown he h => exact h

/-- The two conditions in the order in which the report tries them. -/
theorem pushableJoin?_eq_or (s : Select) (f : FederatedTable) (t : TableRef) :
    s.pushableJoin? f t = ((t.condition.bind (·.pushablePairs? s f t)).or
      ((s.federatedCondition? f).bind (·.pushablePairs? s f t))).map fun found =>
        { table := t.name, alias? := t.alias?, pairs := found.1, required := found.2 } := by
  have hmentions : ∀ e found, Expr.pushablePairs? s f t e = some found → e.mentions t = true :=
    fun e found hfound => (Expr.pushedAs_of_pushablePairs? hfound).1.mentions
  rw [pushableJoin?, bind_filter_mentions hmentions]

/-- The pushable sources are those for which a join is reported. -/
theorem pushable_iff : s.Pushable f t ↔ (s.pushableJoin? f t).isSome = true := by
  rw [pushableJoin?_eq_or, Option.isSome_map, Option.isSome_or, Bool.or_eq_true,
    Option.isSome_bind, Option.isSome_bind, Option.any_eq_true, Option.any_eq_true]
  simp only [Expr.isSome_pushablePairs?_iff]
  rfl

instance (s : Select) (f : FederatedTable) (t : TableRef) : Decidable (s.Pushable f t) :=
  decidable_of_iff _ pushable_iff.symm

/-- A reported join captures its source. -/
theorem captures_of_pushableJoin? {p : PushableJoin} (h : s.pushableJoin? f t = some p) :
    s.Captures f t p := by
  rw [pushableJoin?_eq_or] at h
  obtain ⟨⟨pairs, required⟩, hfound, rfl⟩ := Option.map_eq_some_iff.1 h
  obtain ⟨e, hfrom, hrequired⟩ : ∃ e, s.PushedFrom f t e pairs ∧
      (required = true → pairs.length = 1) := by
    rcases Option.or_eq_some_iff.1 hfound with hown | ⟨hnone, hother⟩
    · obtain ⟨e, he, hpairs⟩ := Option.bind_eq_some_iff.1 hown
      obtain ⟨hpushed, hrequired⟩ := Expr.pushedAs_of_pushablePairs? hpairs
      exact ⟨e, .own he hpushed, hrequired⟩
    · obtain ⟨e, he, hpairs⟩ := Option.bind_eq_some_iff.1 hother
      obtain ⟨hpushed, hrequired⟩ := Expr.pushedAs_of_pushablePairs? hpairs
      refine ⟨e, .federated ?_ he hpushed, hrequired⟩
      -- the source's own condition gave no pairs, so it cannot be pushed down
      intro own hown hpushable
      have hsome := Expr.isSome_pushablePairs?_iff (s := s).2 hpushable
      rw [hown, Option.bind_some] at hnone
      rw [hnone] at hsome
      cases hsome
  exact ⟨rfl, rfl, hfrom.pushedAs.length, hrequired, e, hfrom, hfrom.pushedAs.capturedBy⟩

/-- **Pushable joins capture their conditions.** The sources besides the federated one whose own
condition, or that of the federated table, is one equality between the two or two under one `AND`
have a pushable join, in the order of the sources, and no others have. Its one or two pairs are
taken from the source's own condition if that is such a condition, and otherwise from that of the
federated table; over rows of the two tables they are all equal exactly if the condition is true.
Only a join of one pair can be required. -/
theorem pushable_joins_capture {d : Dialect} {s : Select} {report : PushdownReport}
    (hreport : s.pushdownReport? d.naming = some report) :
    ∃ f, s.federatedTable? d.naming = some f ∧
      report.federatedTable = f.name ∧ report.alias? = f.alias? ∧
      List.Forall₂ (s.Captures f) ((s.othersThan f.position).filter (s.Pushable f ·))
        report.joins := by
  obtain ⟨f, hf, rfl⟩ := Option.map_eq_some_iff.1 hreport
  refine ⟨f, hf, rfl, rfl, ?_⟩
  refine (forall₂_filter_filterMap (fun t => pushable_iff) (s.othersThan f.position)).imp ?_
  intro t p hpicked
  exact captures_of_pushableJoin? hpicked.2

/-! ### Clicks by market -/

/-- The clicks carry a condition of two equalities, written the other way round in the second. -/
def marketCondition : Expr :=
  .binary
    (.binary (.column ⟨some "imp", "campaign_id"⟩) .eq (.column ⟨some "c", "id"⟩)) .and
    (.binary (.column ⟨some "c", "market"⟩) .eq (.column ⟨some "imp", "market"⟩))

def marketCampaigns : TableRef :=
  { name := "campaigns", alias? := some "c" }

def marketDevices : TableRef :=
  { name := "devices", join := .left
    condition := some (.binary (.column ⟨some "devices", "id"⟩) .eq
      (.column ⟨some "clicks", "device_id"⟩)) }

/-- The devices of clicks, with campaigns of the same market. The regions are joined by an
alternative. -/
def marketClicks : Select where
  items := [.column ⟨some "devices", "id"⟩]
  sources := some [
    marketCampaigns,
    { name := "ads_aqfer.clicks", alias? := some "imp", join := .inner
      condition := some marketCondition },
    marketDevices,
    { name := "regions", alias? := some "r", join := .inner
      condition := some (.binary
        (.binary (.column ⟨some "imp", "region"⟩) .eq (.column ⟨some "r", "name"⟩)) .or
        (.binary (.column ⟨some "imp", "market"⟩) .eq (.column ⟨some "r", "name"⟩))) }]

def federatedClicks : FederatedTable :=
  { name := "ads_aqfer.clicks", datasetType := "ads", alias? := some "imp", position := 1 }

def clickInEurope : Row (Option String)
  | "campaign_id" => some "11"
  | "market" => some "EU"
  | _ => none

def campaignIn (market : String) : Row (Option String)
  | "id" => some "11"
  | "market" => some market
  | _ => none

/-- Columns under the alias of the clicks read the click, all others the campaign. -/
def readClick (market : String) (c : ColumnRef) : Option String :=
  if c.table = some "imp" then clickInEurope.read c else (campaignIn market).read c

/-- The assignment reads the condition from the click and the campaign. -/
theorem readsRows_readClick (market : String) :
    marketCondition.ReadsRows federatedClicks marketCampaigns (readClick market) clickInEurope
      (campaignIn market) := by
  have hfederated : ∀ c ∈ marketCondition.columns, federatedClicks.owns c = true →
      c.table = some "imp" := by decide +kernel
  have hcampaigns : ∀ c ∈ marketCondition.columns, marketCampaigns.owns c = true →
      c.table ≠ some "imp" := by decide +kernel
  constructor
  · intro c hc howns
    exact if_pos (hfederated c hc howns)
  · intro c hc howns
    exact if_neg (hcampaigns c hc howns)

/-- The condition of the campaigns is true exactly if its two pairs are equal. It is so in one
market and not in the other. -/
theorem pushable_joins_capture_marketClicks :
    ∃ report, marketClicks.pushdownReport? Dialect.standard.naming = some report ∧
      report.joins.map (fun p => (p.table, p.pairs, p.required)) =
        [("campaigns", [⟨"campaign_id", "id"⟩, ⟨"market", "market"⟩], false),
          ("devices", [⟨"device_id", "id"⟩], true)] ∧
      List.Forall₂ (marketClicks.Captures federatedClicks) [marketCampaigns, marketDevices]
        report.joins ∧
      marketCondition.CapturedBy federatedClicks marketCampaigns
        [⟨"campaign_id", "id"⟩, ⟨"market", "market"⟩] ∧
      (∀ market, marketCondition.IsTrue .textual (readClick market) ↔
        ∀ pair ∈ [⟨"campaign_id", "id"⟩, ⟨"market", "market"⟩],
          ColumnPair.Holds pair .textual clickInEurope (campaignIn market)) ∧
      marketCondition.IsTrue .textual (readClick "EU") ∧
      ¬ marketCondition.IsTrue .textual (readClick "US") := by
  have hfederated : marketClicks.federatedTable? Dialect.standard.naming =
      some federatedClicks := by decide +kernel
  obtain ⟨report, hreport, hreported⟩ :
      ∃ report, marketClicks.pushdownReport? Dialect.standard.naming = some report ∧
        report.joins.map (fun p => (p.table, p.pairs, p.required)) =
          [("campaigns", [⟨"campaign_id", "id"⟩, ⟨"market", "market"⟩], false),
            ("devices", [⟨"device_id", "id"⟩], true)] := ⟨_, rfl, by decide +kernel⟩
  obtain ⟨f, hf, -, -, hjoins⟩ := pushable_joins_capture (d := .standard) hreport
  obtain rfl : federatedClicks = f := Option.some.inj (hfederated.symm.trans hf)
  have hsources : (marketClicks.othersThan federatedClicks.position).filter
      (marketClicks.Pushable federatedClicks ·) = [marketCampaigns, marketDevices] := by
    decide +kernel
  rw [hsources] at hjoins
  have hcaptured : marketCondition.CapturedBy federatedClicks marketCampaigns
      [⟨"campaign_id", "id"⟩, ⟨"market", "market"⟩] := by
    obtain ⟨p, rest, hcampaigns, -, hcons⟩ := List.forall₂_cons_left_iff.1 hjoins
    rw [hcons, List.map_cons, List.cons.injEq, Prod.mk.injEq, Prod.mk.injEq] at hreported
    obtain ⟨e, hfrom, hcaptured⟩ := hcampaigns.condition
    rw [hreported.1.2.1] at hcaptured
    cases hfrom with
    | own he h => cases he
    | federated hown he h =>
      obtain rfl : marketCondition = e := Option.some.inj he
      exact hcaptured
  refine ⟨report, hreport, hreported, hjoins, hcaptured, fun market => ?_, by decide +kernel,
    by decide +kernel⟩
  exact hcaptured Interpretation.textual_kleeneAnd Interpretation.textual_strictEq.symmetricEq
    (readsRows_readClick market)

end Select

end QuerySplit
