import QuerySplit.Proofs.Documents
import QuerySplit.Proofs.Reach

/-!
# Documents of optimized statements

No built-in rule makes the document of a statement nest deeper. Routing exchanges names, which have
no depth, and the count of rows nests as deep as the count of distinct values that it replaces. A
membership test puts its values into an array of their own, which is one level more; but it takes
the place of a chain, and there each value stood inside an equality below at least one `OR`
(`depth_membership?_le`).

So what fits in the limit before any runs of the built-in rules fits after them, and is read back.

Main statement: `nesting_document_runAll`.
-/

set_option autoImplicit false

namespace QuerySplit

open Json (depth_written_le_iff depth_array_le_iff fieldDepth)

/-- An array is as deep as its deepest item. -/
theorem Json.depth_array_congr {items items' : List Json}
    (h : items.map depth = items'.map depth) : depth (.array items) = depth (.array items') := by
  have hbound : ∀ n, (∀ j ∈ items, j.depth ≤ n) ↔ ∀ j ∈ items', j.depth ≤ n := by
    intro n
    rw [← List.forall_mem_map (P := (· ≤ n)), h, List.forall_mem_map]
  have hle : ∀ n, depthOfItems items ≤ n ↔ depthOfItems items' ≤ n := by
    intro n
    rw [depthOfItems_le_iff, depthOfItems_le_iff, hbound]
  rw [depth, depth, Nat.le_antisymm ((hle _).2 (Nat.le_refl _)) ((hle _).1 (Nat.le_refl _))]

/-! ## Expressions -/

namespace Expr

/-- An application nests one level more than its operands. -/
theorem depth_binary_le_iff {left right : Expr} {op : BinaryOp} {n : Nat} :
    (binary left op right).toJson.depth ≤ n + 1 ↔
      left.toJson.depth ≤ n ∧ right.toJson.depth ≤ n := by
  rw [depth_toJson_le_iff]
  simp [fields, fieldDepth, BinaryOp.toJson, Json.depth]

/-- A test nests two levels more than its values: itself and the array of them. -/
theorem depth_membership_le {c : ColumnRef} {values : List Expr} {n : Nat}
    (h : ∀ v ∈ values, v.toJson.depth ≤ n) : (membership c values).toJson.depth ≤ n + 2 := by
  have hvalues : Json.depth (.array (values.map toJson)) ≤ n + 1 := by
    rw [depth_array_le_iff, List.forall_mem_map]
    exact h
  have hcolumn : c.toJson.depth ≤ n + 1 := by
    obtain ⟨table, column⟩ := c
    cases table <;> exact Nat.succ_le_succ (Nat.zero_le n)
  rw [depth_toJson_le_iff]
  simpa [fields, fieldDepth] using ⟨hcolumn, hvalues⟩

/-- An alternative is no deeper than its chain. -/
theorem depth_alternative_le {e a : Expr} {n : Nat} (h : e.toJson.depth ≤ n)
    (ha : a ∈ e.alternatives) : a.toJson.depth ≤ n := by
  fun_induction alternatives e generalizing n with
  | case1 left right ihl ihr =>
    cases n with
    | zero => exact absurd h (Nat.not_le.2 (depth_toJson_pos _))
    | succ n =>
      obtain ⟨hl, hr⟩ := depth_binary_le_iff.1 h
      rcases List.mem_append.1 ha with ha | ha
      · exact Nat.le_succ_of_le (ihl hl ha)
      · exact Nat.le_succ_of_le (ihr hr ha)
  | case2 e _ => rwa [List.mem_singleton.1 ha]

/-- **A test that takes the place of a chain nests at most one level more than the alternatives**,
and each alternative stands below at least one `OR`. -/
theorem depth_membership?_le {alternatives : List Expr} {new : Expr} {n : Nat}
    (h : membership? alternatives = some new) (hdepth : ∀ a ∈ alternatives, a.toJson.depth ≤ n) :
    new.toJson.depth ≤ n + 1 := by
  obtain ⟨c, v, values, hfirst, rfl, -, rfl⟩ := membership?_eq_some h
  have hequality : ∀ (d : ColumnRef) (w : Expr), (d, w) ∈ equalities alternatives →
      w.toJson.depth + 1 ≤ n := by
    intro d w hmem
    have hle := hdepth _ (mem_equalities.1 hmem)
    cases n with
    | zero => exact absurd hle (Nat.not_le.2 (depth_toJson_pos _))
    | succ n => exact Nat.succ_le_succ (depth_binary_le_iff.1 hle).2
  -- the first equality shows that there is room for a level below the alternatives
  obtain ⟨m, rfl⟩ : ∃ m, n = m + 1 := Nat.exists_eq_add_of_le' (by
    have := hequality c v hfirst
    omega)
  refine depth_membership_le fun w hw => ?_
  obtain ⟨⟨d, w⟩, hmem, rfl⟩ := List.mem_map.1 hw
  exact Nat.le_of_succ_le_succ (hequality d w (List.mem_filter.1 hmem).1)

/-- **Replacing chains makes no expression deeper.** -/
theorem depth_withMemberships_le {e : Expr} {n : Nat} (h : e.toJson.depth ≤ n) :
    e.withMemberships.toJson.depth ≤ n := by
  fun_induction replacedChains e generalizing n with
  | case1 left right hsome =>
    obtain ⟨new, hnew⟩ := Option.isSome_iff_exists.1 hsome
    rw [withMemberships_or, hnew, Option.getD_some]
    cases n with
    | zero => exact absurd h (Nat.not_le.2 (depth_toJson_pos _))
    | succ n =>
      obtain ⟨hl, hr⟩ := depth_binary_le_iff.1 h
      refine depth_membership?_le hnew fun a ha => ?_
      rcases List.mem_append.1 ha with ha | ha
      · exact depth_alternative_le hl ha
      · exact depth_alternative_le hr ha
  | case2 left right hnone =>
    rwa [withMemberships_or, Option.not_isSome_iff_eq_none.1 hnone, Option.getD_none]
  | case3 left op right hop ihl ihr =>
    rw [withMemberships_binary hop]
    cases n with
    | zero => exact absurd h (Nat.not_le.2 (depth_toJson_pos _))
    | succ n =>
      obtain ⟨hl, hr⟩ := depth_binary_le_iff.1 h
      exact depth_binary_le_iff.2 ⟨ihl hl, ihr hr⟩
  | case4 e hor hbinary => rwa [withMemberships_other hbinary]

/-- The count of rows is as deep as the count of distinct values. -/
theorem depth_countingRows (variants : List Variant) (e : Expr) :
    (e.countingRows variants).toJson.depth = e.toJson.depth := by
  unfold countingRows
  split
  · next hcounts =>
    obtain ⟨name, ⟨table, column⟩, rfl, -⟩ := exists_call_of_countsKeyOf hcounts
    cases table <;> rfl
  · rfl

end Expr

/-! ## Statements -/

/-- The depth of a source does not depend on the name of its table. -/
theorem TableRef.depth_congr {t t' : TableRef} (h : t.place = t'.place) :
    t.toJson.depth = t'.toJson.depth := by
  obtain ⟨name, alias?, join, condition⟩ := t
  obtain ⟨name', alias?', join', condition'⟩ := t'
  cases h
  rfl

namespace Select

/-- A statement fits where each of its clauses fits one level further down. -/
theorem depth_toJson_le_iff {s : Select} {n : Nat} :
    s.toJson.depth ≤ n + 1 ↔ ∀ field ∈ s.fields, fieldDepth field.2 ≤ n := by
  rw [toJson_eq_written, depth_written_le_iff]

/-- Select list, sources and filter may be exchanged for ones that are no deeper. -/
theorem depth_exchange_le (s : Select) {items : List Expr} {sources : Option (List TableRef)}
    {filter : Option Expr}
    (hitems : items.map (·.toJson.depth) = s.items.map (·.toJson.depth))
    (hsources : fieldDepth (sources.map TableRef.listToJson) ≤
      fieldDepth (s.sources.map TableRef.listToJson))
    (hfilter : fieldDepth (filter.map filterToJson) ≤ fieldDepth (s.filter.map filterToJson)) :
    ({ s with items, sources, filter } : Select).toJson.depth ≤ s.toJson.depth := by
  obtain ⟨n, hn⟩ : ∃ n, s.toJson.depth = n + 1 := by
    rw [toJson_eq_written, Json.depth]
    exact ⟨_, rfl⟩
  have hlist : Json.depth (.array (items.map Expr.toJson)) =
      Json.depth (.array (s.items.map Expr.toJson)) :=
    Json.depth_array_congr (by rwa [List.map_map, List.map_map])
  have hfields := depth_toJson_le_iff.1 (Nat.le_of_eq hn)
  rw [hn, depth_toJson_le_iff]
  simp only [fields, List.forall_mem_cons] at hfields ⊢
  obtain ⟨hselect, hdistinct, hfrom, hwhere, hrest⟩ := hfields
  exact ⟨Nat.le_trans (Nat.le_of_eq hlist) hselect, hdistinct, Nat.le_trans hsources hfrom,
    Nat.le_trans hfilter hwhere, hrest⟩

/-- Routing leaves the depth of the `FROM` clause. -/
theorem depth_sources_of_routeAll {ctx : Context} {used lookups : List String}
    {tables routed : List TableRef}
    (h : (TableRef.routeAll ctx used tables lookups).2 = .ok routed) :
    (TableRef.listToJson routed).depth = (TableRef.listToJson tables).depth := by
  have hdepths : routed.map (·.toJson.depth) = tables.map (·.toJson.depth) :=
    TableRef.map_eq_of_routeAll h fun _ _ hrouted => TableRef.depth_congr hrouted.place_eq
  have hlist : Json.depth (.array (routed.map TableRef.toJson)) =
      Json.depth (.array (tables.map TableRef.toJson)) :=
    Json.depth_array_congr (by rwa [List.map_map, List.map_map])
  simp only [TableRef.listToJson, Json.depth, Json.depthOfMembers] at hlist ⊢
  rw [hlist]

/-- The filter takes one level of its own around the condition. -/
theorem depth_filterToJson (condition : Expr) :
    (filterToJson condition).depth = condition.toJson.depth + 1 := by
  simp [filterToJson, Json.depth, Json.depthOfMembers]

end Select

/-! ## Rules and runs -/

namespace Rule

variable (ctx : Context) (work : Work)

/-- Routing renames sources, which stand at one depth whatever their names are. -/
theorem depth_routeTables_le :
    (routeTables ctx work).1.statement.toJson.depth ≤ work.statement.toJson.depth := by
  rcases routeTables_cases ctx work with ⟨-, heq⟩ |
    ⟨tables, lookups, -, hsources, ⟨e, -, heq⟩ | ⟨routed, hroute, heq⟩⟩
  · simp only [heq, Nat.le_refl]
  · simp only [heq, Nat.le_refl]
  · simp only [heq]
    refine Select.depth_exchange_le work.statement rfl ?_ (Nat.le_refl _)
    rw [hsources]
    exact Nat.le_of_eq (Select.depth_sources_of_routeAll (by rw [hroute]))

/-- The count of rows is no deeper than the count of a key that it stands for. -/
theorem depth_countRowsForKeys_le :
    (countRowsForKeys ctx work).1.statement.toJson.depth ≤ work.statement.toJson.depth := by
  rcases countRowsForKeys_cases ctx work with ⟨-, heq⟩ |
    ⟨table, -, ⟨e, -, heq⟩ | ⟨variants, -, heq⟩⟩
  · simp only [heq, Nat.le_refl]
  · simp only [heq, Work.record, Nat.le_refl]
  · simp only [heq]
    refine Select.depth_exchange_le work.statement ?_ (Nat.le_refl _) (Nat.le_refl _)
    rw [List.map_map]
    exact List.map_congr_left fun e _ => e.depth_countingRows variants

/-- The filter with its chains replaced is no deeper, since each chain makes room for its test. -/
theorem depth_membershipInFilter_le :
    (membershipInFilter ctx work).1.statement.toJson.depth ≤ work.statement.toJson.depth := by
  simp only [membershipInFilter_eq]
  refine Select.depth_exchange_le work.statement rfl (Nat.le_refl _) ?_
  cases work.statement.filter with
  | none => exact Nat.le_refl _
  | some condition =>
    show (Select.filterToJson condition.withMemberships).depth ≤
      (Select.filterToJson condition).depth
    rw [Select.depth_filterToJson, Select.depth_filterToJson]
    exact Nat.succ_le_succ (Expr.depth_withMemberships_le (Nat.le_refl _))

/-- **The turn of a built-in rule makes no statement nest deeper**, also when it fails. -/
theorem depth_apply_le {rule : Rule} (hrule : rule ∈ standard) :
    (rule.apply ctx work).1.statement.toJson.depth ≤ work.statement.toJson.depth := by
  rcases mem_standard.1 hrule with rfl | rfl | rfl
  · exact depth_routeTables_le ctx work
  · exact depth_countRowsForKeys_le ctx work
  · exact depth_membershipInFilter_le ctx work

end Rule

namespace Pipeline.Call

/-- A run of the built-in rules makes no statement nest deeper. -/
theorem depth_run_le {call : Call} (hbuiltIn : call.BuiltIn) (s : Select) :
    (call.run s).1.statement.toJson.depth ≤ s.toJson.depth :=
  run_induction
    (R := fun before after => after.statement.toJson.depth ≤ before.statement.toJson.depth)
    call.pipeline call.phase call.ctx (fun _ => Nat.le_refl _)
    (fun _ _ _ h h' => Nat.le_trans h' h)
    (fun rule hrule work =>
      Rule.depth_apply_le call.ctx work (hbuiltIn rule (mem_eligible.1 hrule).1))
    { statement := s, lookups := call.earlier }

/-- No sequence of calls makes a statement deeper, by induction on the calls. -/
theorem depth_runAll_le {calls : List Call} (hbuiltIn : ∀ call ∈ calls, call.BuiltIn) (s : Select) :
    (runAll calls s).toJson.depth ≤ s.toJson.depth := by
  induction calls generalizing s with
  | nil => exact Nat.le_refl _
  | cons call rest ih =>
    obtain ⟨hcall, hrest⟩ := List.forall_mem_cons.1 hbuiltIn
    exact Nat.le_trans (ih hrest _) (depth_run_le hcall s)

/-- **Optimized documents still round-trip.** Runs of the built-in rules, however many and whatever
they fail at, never make the document of a statement nest deeper. So if it nests within the limit
before them it does so after them, and the document then is read back as the statement they left. -/
theorem nesting_document_runAll {calls : List Call} (hbuiltIn : ∀ call ∈ calls, call.BuiltIn)
    (s : Select) :
    Json.nesting (runAll calls s).document ≤ Json.nesting s.document ∧
    (Json.nesting s.document ≤ Json.maxDepth →
      Json.nesting (runAll calls s).document ≤ Json.maxDepth ∧
      Select.ofDocument (runAll calls s).document = .ok (runAll calls s)) := by
  have hle : Json.nesting (runAll calls s).document ≤ Json.nesting s.document := by
    rw [Select.document, Select.document, Json.nesting_render (runAll calls s).plain_toJson,
      Json.nesting_render s.plain_toJson]
    exact depth_runAll_le hbuiltIn s
  refine ⟨hle, fun hfits => ?_⟩
  have hfits' := Nat.le_trans hle hfits
  exact ⟨hfits', by rw [Select.ofDocument_document, if_pos hfits']⟩

/-- Active customers under a chain of alternatives, which nests as deep as its test. -/
def chosenCustomers : Select :=
  { activeCustomers.statement with
    filter := some (.binary
      (.binary (.binary (.ofName "id") .eq (.literal (.ofNumeral "1"))) .or
        (.binary (.ofName "id") .eq (.literal (.ofNumeral "2")))) .or
      (.binary (.ofName "id") .eq (.literal (.ofNumeral "3")))) }

/-- The calls change the statement over customers, and what comes out is read back. -/
theorem nesting_document_runAll_chosenCustomers :
    (∀ call ∈ customerCalls, call.BuiltIn) ∧
    runAll customerCalls chosenCustomers ≠ chosenCustomers ∧
    chosenCustomers.toJson.depth = 6 ∧
    Select.ofDocument (runAll customerCalls chosenCustomers).document =
      .ok (runAll customerCalls chosenCustomers) := by
  have hbuiltIn : ∀ call ∈ customerCalls, call.BuiltIn := by
    simp [customerCalls, BuiltIn, standard, Rule.standard]
  have hdepth : chosenCustomers.toJson.depth = 6 := by decide +kernel
  have hfits : Json.nesting chosenCustomers.document ≤ Json.maxDepth := by
    rw [Select.document, Json.nesting_render chosenCustomers.plain_toJson, hdepth]
    decide
  exact ⟨hbuiltIn, by decide +kernel, hdepth,
    ((nesting_document_runAll hbuiltIn chosenCustomers).2 hfits).2⟩

end Pipeline.Call

end QuerySplit
