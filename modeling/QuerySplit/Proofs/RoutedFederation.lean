import QuerySplit.Proofs.Recognition
import QuerySplit.Proofs.RoutedColumns

/-!
# Federated tables under routing

Whether a table is federated, and of which dataset type, is read from what stands before the last
dot of its name. Routing works behind that dot as long as no suffix has one: it cuts the name at an
underscore of the last segment and puts another suffix there. So the two readings of a name do not
meet, whatever dots and underscores it has, and no run of the built-in rules changes which source is
the federated one.

Main statement: `federatedTable?_run`. A source is followed through a run by its `origin`, which
every rule keeps.
-/

set_option autoImplicit false

namespace QuerySplit

/-! ## The dataset of a name -/

/-- What stands before the last dot of a name; nothing if it has none. -/
def datasetPath? (name : String) : Option (List Char) :=
  (Text.cutLast '.' name.toList).map Prod.fst

theorem SameDataset.datasetPath?_eq {a b : String} (h : SameDataset a b) :
    datasetPath? a = datasetPath? b := by
  obtain ⟨front, first, second, hfront, ⟨ha, hfirst⟩, hb, hsecond⟩ := h
  rw [datasetPath?, datasetPath?, ha, hb]
  rcases hfront with rfl | ⟨dataset, rfl⟩
  · rw [List.nil_append, List.nil_append, Text.cutLast_eq_none_iff.2 hfirst,
      Text.cutLast_eq_none_iff.2 hsecond]
  · rw [cutLast_dataset dataset hfirst, cutLast_dataset dataset hsecond]
    rfl

/-- The dataset type of a table is read from its dataset alone. -/
theorem Naming.datasetType?_congr (n : Naming) {a b : String}
    (h : datasetPath? a = datasetPath? b) : n.datasetType? a = n.datasetType? b := by
  unfold datasetPath? at h
  unfold datasetType?
  cases ha : Text.cutLast '.' a.toList with
  | none =>
    rw [ha, Option.map_none, eq_comm, Option.map_eq_none_iff] at h
    rw [h]
  | some cut =>
    rw [ha, Option.map_some, eq_comm, Option.map_eq_some_iff] at h
    obtain ⟨cut', hb, hsame⟩ := h
    rw [hb]
    simp only [hsame]

/-! ## The federated table among renamed sources -/

/-- What decides whether a source is federated and how it is then known, apart from its name. -/
def TableRef.origin (t : TableRef) : Option String × Option (List Char) :=
  (t.alias?, datasetPath? t.name)

/-- Sources of the same origin are the same federated table up to its name. -/
theorem TableRef.ofTable_of_origin {t renamed : TableRef} (h : renamed.origin = t.origin)
    (datasetType : String) (position : Nat) :
    FederatedTable.ofTable renamed datasetType position =
      { FederatedTable.ofTable t datasetType position with name := renamed.name } := by
  have halias : renamed.alias? = t.alias? := congrArg Prod.fst h
  rw [FederatedTable.ofTable, FederatedTable.ofTable, halias]

namespace Select

/-- Of sources with the same origins the federated one is found at the same place. -/
theorem federatedAmong?_of_origins (n : Naming) {tables renamed : List TableRef}
    (h : renamed.map TableRef.origin = tables.map TableRef.origin) (index : Nat) :
    federatedAmong? n tables index = none ∧ federatedAmong? n renamed index = none ∨
      ∃ f k t, federatedAmong? n tables index = some f ∧ f.position = index + k ∧
        renamed[k]? = some t ∧
        federatedAmong? n renamed index = some { f with name := t.name } := by
  induction tables generalizing renamed index with
  | nil =>
    rw [List.map_nil, List.map_eq_nil_iff] at h
    exact .inl ⟨rfl, h ▸ rfl⟩
  | cons t rest ih =>
    rw [List.map_cons, List.map_eq_cons_iff] at h
    obtain ⟨r, others, rfl, hr, hothers⟩ := h
    have htype : n.datasetType? r.name = n.datasetType? t.name :=
      n.datasetType?_congr (congrArg Prod.snd hr)
    rw [federatedAmong?, federatedAmong?, htype]
    cases n.datasetType? t.name with
    | some datasetType =>
      exact .inr ⟨_, 0, r, rfl, rfl, rfl, congrArg some (TableRef.ofTable_of_origin hr _ _)⟩
    | none =>
      rcases ih hothers (index + 1) with hnone | ⟨f, k, t', hf, hposition, ht', hrenamed⟩
      · exact .inl hnone
      · exact .inr ⟨f, k + 1, t', hf, by omega, ht', hrenamed⟩

/-- Statements whose sources have the same origins have the same federated table, under the name
that its source has in each. -/
theorem federatedTable?_of_origins (n : Naming) {before after : Select}
    (h : after.tables.map TableRef.origin = before.tables.map TableRef.origin) :
    (after.federatedTable? n = none ↔ before.federatedTable? n = none) ∧
      ∀ f, before.federatedTable? n = some f → ∃ t, after.tables[f.position]? = some t ∧
        after.federatedTable? n = some { f with name := t.name } := by
  unfold federatedTable?
  rcases federatedAmong?_of_origins n h 0 with
    ⟨hbefore, hafter⟩ | ⟨f, k, t, hbefore, hposition, ht, hafter⟩
  · rw [hbefore, hafter]
    exact ⟨Iff.rfl, nofun⟩
  · rw [hbefore, hafter]
    refine ⟨iff_of_false nofun nofun, fun f' hf' => ?_⟩
    cases hf'
    rw [hposition, Nat.zero_add]
    exact ⟨t, ht, rfl⟩

end Select

/-! ## The rules -/

/-- Routing keeps the origin of a source. -/
theorem TableRef.RoutedBy.origin_eq {p : Provider} {used : List String} {t routed : TableRef}
    (hp : p.DotFree) (h : t.RoutedBy p used routed) : t.origin = routed.origin := by
  have halias : t.alias? = routed.alias? := congrArg Prod.fst h.place_eq
  rw [origin, origin, halias, (h.sameDataset hp).datasetPath?_eq]

/-- A built-in rule keeps the origins of the sources, also when it fails. -/
theorem Rule.map_origin_apply {ctx : Context} (hp : ctx.provider.DotFree) {rule : Rule}
    (hrule : rule ∈ standard) (work : Work) :
    (rule.apply ctx work).1.statement.tables.map TableRef.origin =
      work.statement.tables.map TableRef.origin := by
  rcases mem_standard.1 hrule with rfl | rfl | rfl
  · show (routeTables ctx work).1.statement.tables.map TableRef.origin = _
    rcases routeTables_cases ctx work with ⟨-, heq⟩ |
      ⟨tables, lookups, -, hsources, ⟨e, -, heq⟩ | ⟨routed, hroute, heq⟩⟩
    · rw [heq]
    · rw [heq]
    · rw [heq, Select.tables, Select.tables, hsources, Option.getD_some, Option.getD_some]
      exact TableRef.map_eq_of_routeAll (by rw [hroute]) fun _ _ hrouted => hrouted.origin_eq hp
  · show (countRowsForKeys ctx work).1.statement.tables.map TableRef.origin = _
    rcases countRowsForKeys_cases ctx work with ⟨-, heq⟩ |
      ⟨table, -, ⟨e, -, heq⟩ | ⟨variants, -, heq⟩⟩
    · rw [heq]
    · rw [heq]
      rfl
    · rw [heq]
      rfl
  · show (membershipInFilter ctx work).1.statement.tables.map TableRef.origin = _
    rw [membershipInFilter_eq]
    rfl

namespace Pipeline

/-- **A run keeps what is federated.** If no suffix that the provider answers has a dot, a run of
the built-in rules leaves a statement with a federated table exactly if there was one before. It is
at the same position with the same dataset type and alias, and has the name that its source has now.

The settings and the phase may be any, the naming need not be that of the dialect, and the run may
also fail. -/
theorem federatedTable?_run {ctx : Context} (hp : ctx.provider.DotFree) (n : Naming)
    (settings : Settings) (phase : Phase) (work : Work) :
    let after := ((standard settings).run phase ctx work).1.statement
    (after.federatedTable? n = none ↔ work.statement.federatedTable? n = none) ∧
      ∀ f, work.statement.federatedTable? n = some f → ∃ t, after.tables[f.position]? = some t ∧
        after.federatedTable? n = some { f with name := t.name } := by
  refine Select.federatedTable?_of_origins n ?_
  refine run_induction
    (R := fun before after => after.statement.tables.map TableRef.origin =
      before.statement.tables.map TableRef.origin) (standard settings) phase ctx
    (fun _ => rfl) (fun _ _ _ h h' => h'.trans h) (fun rule hrule => ?_) work
  exact Rule.map_origin_apply hp (mem_eligible.1 hrule).1

/-- The customers of a region on both sides. The remote ones have one copy without a suffix. -/
def regionalCustomers : Catalog where
  variants :=
    [{ base := "customers", suffix := "a",
       dimensions := [{ column := "region", partitions := true }] },
     { base := "eu_v1.crm_aqfer.customers", suffix := "",
       dimensions := [{ column := "region", organizes := true }] }]

def regionalContext : Context :=
  ⟨.standard, .ofCatalog regionalCustomers⟩

/-- The remote customers of a region that are native ones too. -/
def sharedCustomers : Work where
  statement :=
    { items := [.column ⟨some "r", "id"⟩]
      sources := some [
        { name := "customers_x" },
        { name := "eu_v1.crm_aqfer.customers_x", alias? := some "r", join := .inner
          condition := some (.binary (.column ⟨some "r", "id"⟩) .eq
            (.column ⟨some "customers_x", "id"⟩)) }]
      filter := some (.binary (.column ⟨some "r", "region"⟩) .eq (.literal ⟨"NA", .string⟩)) }

/-- Both sources are routed, and the second one stays the federated one. -/
theorem federatedTable?_run_sharedCustomers :
    regionalContext.provider.DotFree ∧
      ∃ f, sharedCustomers.statement.federatedTable? {} = some f ∧ f.position = 1 ∧
        f.datasetType = "crm" ∧ f.name = "eu_v1.crm_aqfer.customers_x" ∧
        ((standard {}).run .generic regionalContext sharedCustomers).1.statement.tables.map
            TableRef.name = ["customers_a", "eu_v1.crm_aqfer.customers"] ∧
        ((standard {}).run .generic regionalContext sharedCustomers).1.statement.federatedTable?
            {} = some { f with name := "eu_v1.crm_aqfer.customers" } := by
  have hdots : regionalContext.provider.DotFree := Provider.dotFree_ofCatalog (by decide)
  obtain ⟨f, hf, hposition, htype, hname⟩ :
      ∃ f, sharedCustomers.statement.federatedTable? {} = some f ∧ f.position = 1 ∧
        f.datasetType = "crm" ∧ f.name = "eu_v1.crm_aqfer.customers_x" :=
    ⟨.ofTable _ _ 1, rfl, rfl, by decide +kernel, rfl⟩
  have hnames : ((standard {}).run .generic regionalContext sharedCustomers).1.statement.tables.map
      TableRef.name = ["customers_a", "eu_v1.crm_aqfer.customers"] := by
    decide +kernel
  obtain ⟨t, ht, hafter⟩ := (federatedTable?_run hdots {} {} .generic sharedCustomers).2 f hf
  have htable : t.name = "eu_v1.crm_aqfer.customers" := by
    have hget := congrArg (fun names : List String => names[f.position]?) hnames
    rw [List.getElem?_map, ht, hposition] at hget
    exact Option.some.inj hget
  rw [htable] at hafter
  exact ⟨hdots, f, hf, hposition, htype, hname, hnames, hafter⟩

end Pipeline

end QuerySplit
