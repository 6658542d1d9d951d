import QuerySplit.Proofs.OptimizedDocuments
import QuerySplit.Proofs.Spellings

/-!
# Decoded documents printed again

What a decoder accepts may leave members out that the encoder always writes. Of these, only the
list of arguments of a call opens a level: a call that comes without it is printed with an empty
array, one level below the call. So a tree that was decoded within a limit is printed within it,
unless such a call stands at the last level (`Expr.depth_le_of_ofJson?`); then its document nests
one level too deep and is refused. `BareCallAt` says at which levels calls without arguments stand.

Main statement: `reread_unless_bareCall`, with a document at the limit right after it.
-/

set_option autoImplicit false

namespace QuerySplit

open Json (fieldDepth fieldDepth_lt_of_fields? depth_array_le_iff depth_written_le_iff Reading)

/-! ## What decoding a field gives -/

namespace Json

variable {α : Type} {decode : Json → Option α} {field : Option Json} {a : α}

/-- A required field that was decoded was there. -/
theorem required_eq_some (h : required decode field = some a) :
    ∃ j, field = some j ∧ decode j = some a := by
  cases field with
  | none => cases h
  | some j => exact ⟨j, rfl, h⟩

/-- A field with a default was there, or it holds the default. -/
theorem defaulted_eq_some {default : α} (h : defaulted default decode field = some a) :
    field = none ∧ a = default ∨ ∃ j, field = some j ∧ decode j = some a := by
  cases field with
  | none => exact .inl ⟨rfl, (Option.some.inj h).symm⟩
  | some j => exact .inr ⟨j, rfl, h⟩

/-- An optional field that has a value was there, and not as `null`. -/
theorem optional_eq_some (h : optional decode field = some (some a)) :
    ∃ j, field = some j ∧ decode j = some a := by
  cases field with
  | none => cases h
  | some j =>
    refine ⟨j, rfl, ?_⟩
    cases j with
    | null => cases h
    | _ =>
      obtain ⟨b, hb, hsome⟩ := Option.map_eq_some_iff.1 h
      cases hsome
      exact hb

/-- Each member of a decoded list comes from an item of the array. -/
theorem exists_of_mem_list? {j : Json} {as : List α} (h : list? decode j = some as)
    (ha : a ∈ as) : ∃ i, decode i = some a ∧ i.depth < j.depth := by
  cases j with
  | array items =>
    suffices hitem : ∃ i ∈ items, decode i = some a by
      obtain ⟨i, hi, hdecode⟩ := hitem
      exact ⟨i, hdecode, Nat.lt_succ_of_le (depthOfItems_le_iff.1 (Nat.le_refl _) i hi)⟩
    replace h : items.mapM decode = some as := h
    induction items generalizing as with
    | nil =>
      cases h
      cases ha
    | cons item items ih =>
      rw [List.mapM_cons] at h
      obtain ⟨b, hb, h⟩ := Option.bind_eq_some_iff.1 h
      obtain ⟨bs, hbs, h⟩ := Option.bind_eq_some_iff.1 h
      cases h
      rcases List.mem_cons.1 ha with rfl | ha
      · exact ⟨item, List.mem_cons_self, hb⟩
      · obtain ⟨i, hi, hdecode⟩ := ih ha hbs
        exact ⟨i, List.mem_cons_of_mem _ hi, hdecode⟩
  | _ => cases h

/-- A list was decoded from an array, which is a level. -/
theorem depth_pos_of_list? {j : Json} {as : List α} (h : list? decode j = some as) :
    0 < j.depth := by
  cases j with
  | array items => exact Nat.succ_pos _
  | _ => cases h

/-- Each member of a required list was decoded from some value. -/
theorem exists_of_required_list {as : List α} (h : required (list? decode) field = some as)
    (ha : a ∈ as) : ∃ i, decode i = some a := by
  obtain ⟨j, -, hlist⟩ := required_eq_some h
  obtain ⟨i, hi, -⟩ := exists_of_mem_list? hlist ha
  exact ⟨i, hi⟩

/-- Each member of a list that may be missing was decoded from some value. -/
theorem exists_of_defaulted_list {as : List α} (h : defaulted [] (list? decode) field = some as)
    (ha : a ∈ as) : ∃ i, decode i = some a := by
  rcases defaulted_eq_some h with ⟨-, rfl⟩ | ⟨j, -, hlist⟩
  · cases ha
  · obtain ⟨i, hi, -⟩ := exists_of_mem_list? hlist ha
    exact ⟨i, hi⟩

/-- An optional field fits when its value does, if it has one. -/
theorem fieldDepth_map_le_iff {encode : α → Json} {value : Option α} {n : Nat} :
    fieldDepth (value.map encode) ≤ n ↔ ∀ a, value = some a → (encode a).depth ≤ n := by
  cases value <;> simp [fieldDepth]

/-- A list fits when each item does, one level further in. -/
theorem depth_array_map_le_iff {encode : α → Json} {as : List α} {n : Nat} :
    depth (.array (as.map encode)) ≤ n + 1 ↔ ∀ a ∈ as, (encode a).depth ≤ n := by
  rw [depth_array_le_iff, List.forall_mem_map]

end Json

/-! ## Levels of an expression -/

namespace Expr

/-- The levels that a node opens around its children: its record, and the array of a list. -/
def ownLevels : Expr → Nat
  | .call .. | .membership .. => 2
  | .binary .. | .column _ | .literal _ | .star => 1

/-- Every node opens a level of its own. -/
theorem ownLevels_pos (e : Expr) : 0 < e.ownLevels := by
  cases e <;> simp [ownLevels]

/-- A list of expressions takes one level, also when it is empty. -/
theorem depth_list_le_iff {es : List Expr} {n : Nat} :
    Json.depth (.array (es.map toJson)) ≤ n ↔ 0 < n ∧ ∀ c ∈ es, c.toJson.depth < n := by
  cases n with
  | zero => simp [Json.depth]
  | succ n =>
    simp only [depth_array_le_iff, List.forall_mem_map, Nat.lt_succ_iff, Nat.zero_le, true_and]

/-- A document nests as deep as its deepest node with the levels that this one opens. -/
theorem depth_le_iff_children {e : Expr} {n : Nat} :
    e.toJson.depth ≤ n ↔
      e.ownLevels ≤ n ∧ ∀ c ∈ e.children, c.toJson.depth + e.ownLevels ≤ n := by
  have hcolumn : ∀ c : ColumnRef, c.toJson.depth = 1 := by
    rintro ⟨table, column⟩
    cases table <;> rfl
  cases n with
  | zero =>
    have hdepth := e.depth_toJson_pos
    have hown := e.ownLevels_pos
    exact ⟨fun h => by omega, fun h => by omega⟩
  | succ n =>
    rw [depth_toJson_le_iff]
    cases e with
    | binary left op right =>
      simp [fields, fieldDepth, BinaryOp.toJson, Json.depth, ownLevels, children]
    | column c =>
      obtain ⟨table, column⟩ := c
      cases table <;> simp [fields, fieldDepth, Json.depth, ownLevels, children]
    | literal v => simp [fields, fieldDepth, LiteralKind.toJson, Json.depth, ownLevels, children]
    | call name args distinct =>
      have hname : (Json.string name).depth = 0 := rfl
      have hdistinct : (Json.bool distinct).depth = 0 := rfl
      simp only [fields, List.forall_mem_cons, fieldDepth, depth_list_le_iff, ownLevels, children,
        hname, hdistinct, Nat.zero_le, true_and, List.not_mem_nil, false_implies, implies_true,
        and_true]
      exact and_congr Nat.succ_le_succ_iff.symm (forall₂_congr fun _ _ => Nat.succ_le_succ_iff.symm)
    | membership c values =>
      simp only [fields, List.forall_mem_cons, fieldDepth, depth_list_le_iff, ownLevels, children,
        hcolumn, List.not_mem_nil, false_implies, implies_true, and_true]
      constructor
      · rintro ⟨-, hpos, hvalues⟩
        exact ⟨Nat.succ_le_succ hpos, fun v hv => Nat.succ_le_succ (hvalues v hv)⟩
      · rintro ⟨hpos, hvalues⟩
        exact ⟨Nat.le_of_succ_le_succ hpos, Nat.le_of_succ_le_succ hpos,
          fun v hv => Nat.le_of_succ_le_succ (hvalues v hv)⟩
    | star => simp [fields, ownLevels, children]

/-- A call without arguments stands at a level of an expression, which itself stands at level
one. -/
inductive BareCallAt : Nat → Expr → Prop
  | here {name : String} {distinct : Bool} : BareCallAt 1 (.call name [] distinct)
  | inside {level : Nat} {e c : Expr} (hc : c ∈ e.children) (h : BareCallAt level c) :
      BareCallAt (level + e.ownLevels) e

/-- The array that such a call is printed with stands one level further down. -/
theorem lt_depth_of_bareCallAt {level : Nat} {e : Expr} (h : e.BareCallAt level) :
    level < e.toJson.depth := by
  induction h with
  | here => exact Nat.lt_of_lt_of_eq Nat.one_lt_two rfl
  | @inside level e c hc _ ih =>
    have hle := (depth_le_iff_children.1 (Nat.le_refl e.toJson.depth)).2 c hc
    omega

/-! ## What decoding a node gives -/

/-- The fields of a node stand in a record, which is a level. -/
theorem depth_pos_of_ofPayload? {reading : Reading} {child : Nat → Json → Option Expr} {form : Form}
    {j : Json} {e : Expr} (h : ofPayload? reading child form j = some e) : 0 < j.depth := by
  cases j with
  | array | object => exact Nat.succ_pos _
  | _ => cases form <;> cases h

/-- The members of a list were decoded two levels inside the record that has the list as a field. -/
theorem levels_of_list? {child : Json → Option Expr} {items : Json} {es : List Expr} {n : Nat}
    (h : Json.list? child items = some es) (hdepth : items.depth < n) :
    2 ≤ n ∧ ∀ c ∈ es, ∃ i, child i = some c ∧ i.depth + 2 ≤ n := by
  have hown := Json.depth_pos_of_list? h
  refine ⟨Nat.lt_of_le_of_lt hown hdepth, fun c hc => ?_⟩
  obtain ⟨i, hi, hinside⟩ := Json.exists_of_mem_list? h hc
  exact ⟨i, hi, Nat.lt_of_le_of_lt hinside hdepth⟩

/-- **A node was decoded from a value that opens its levels**, and each child from a value that
stands as many levels inside; only the list of a call without arguments may be missing. -/
theorem levels_of_ofPayload? {reading : Reading} {child : Nat → Json → Option Expr} {form : Form}
    {j : Json} {e : Expr} (h : ofPayload? reading child form j = some e) :
    (e.ownLevels ≤ j.depth ∨ ∃ name distinct, e = .call name [] distinct) ∧
    ∀ c ∈ e.children, ∃ levels i, child levels i = some c ∧ i.depth + e.ownLevels ≤ j.depth := by
  have hpos := depth_pos_of_ofPayload? h
  cases form with
  | binary =>
    obtain ⟨given, hgiven, h⟩ := Option.bind_eq_some_iff.1 h
    have hroom := fieldDepth_lt_of_fields? hgiven
    split at h
    next leftField opField rightField =>
      simp only [Option.bind_eq_bind, Option.bind_eq_some_iff, Option.pure_def,
        Option.some.injEq] at h
      obtain ⟨left, hleft, op, -, right, hright, rfl⟩ := h
      obtain ⟨jl, rfl, hleft⟩ := Json.required_eq_some hleft
      obtain ⟨jr, rfl, hright⟩ := Json.required_eq_some hright
      simp only [List.forall_mem_cons, fieldDepth] at hroom
      refine ⟨.inl hpos, ?_⟩
      rw [children, List.forall_mem_cons, List.forall_mem_singleton]
      exact ⟨⟨1, jl, hleft, hroom.1⟩, ⟨1, jr, hright, hroom.2.2.1⟩⟩
    next => cases h
  | column =>
    obtain ⟨c, -, rfl⟩ := Option.map_eq_some_iff.1 h
    exact ⟨.inl hpos, List.forall_mem_nil _⟩
  | literal =>
    obtain ⟨v, -, rfl⟩ := Option.map_eq_some_iff.1 h
    exact ⟨.inl hpos, List.forall_mem_nil _⟩
  | call =>
    obtain ⟨given, hgiven, h⟩ := Option.bind_eq_some_iff.1 h
    have hroom := fieldDepth_lt_of_fields? hgiven
    split at h
    next nameField argsField distinctField =>
      simp only [Option.bind_eq_bind, Option.bind_eq_some_iff, Option.pure_def,
        Option.some.injEq] at h
      obtain ⟨name, -, args, hargs, distinct, -, rfl⟩ := h
      -- a missing list opens no level, and the call that it gives is the exception
      rcases Json.defaulted_eq_some hargs with ⟨-, rfl⟩ | ⟨ja, rfl, hargs⟩
      · exact ⟨.inr ⟨name, distinct, rfl⟩, List.forall_mem_nil _⟩
      · simp only [List.forall_mem_cons, fieldDepth] at hroom
        obtain ⟨hown, hinside⟩ := levels_of_list? hargs hroom.2.1
        exact ⟨.inl hown, fun c hc => ⟨2, hinside c hc⟩⟩
    next => cases h
  | membership =>
    obtain ⟨given, hgiven, h⟩ := Option.bind_eq_some_iff.1 h
    have hroom := fieldDepth_lt_of_fields? hgiven
    split at h
    next testedField valuesField =>
      simp only [Option.bind_eq_bind, Option.bind_eq_some_iff, Option.pure_def,
        Option.some.injEq] at h
      obtain ⟨tested, -, values, hvalues, rfl⟩ := h
      obtain ⟨jv, rfl, hvalues⟩ := Json.required_eq_some hvalues
      simp only [List.forall_mem_cons, fieldDepth] at hroom
      obtain ⟨hown, hinside⟩ := levels_of_list? hvalues hroom.2.1
      exact ⟨.inl hown, fun c hc => ⟨2, hinside c hc⟩⟩
    next => cases h
  | star =>
    obtain rfl : e = .star := by
      cases j with
      | object members => exact (Option.some.inj h).symm
      | array items =>
        cases items with
        | nil => exact (Option.some.inj h).symm
        | cons item items => cases h
      | _ => cases h
    exact ⟨.inl hpos, List.forall_mem_nil _⟩

/-- **A node is printed within the depth that its fields came from** when its children are, unless
it has a call without arguments at the last level. -/
theorem depth_le_of_ofPayload? {reading : Reading} {child : Nat → Json → Option Expr} {form : Form}
    {j : Json} {e : Expr} {n : Nat}
    (hchild : ∀ levels i c m, child levels i = some c → i.depth ≤ m → ¬ c.BareCallAt m →
      c.toJson.depth ≤ m)
    (h : ofPayload? reading child form j = some e) (hdepth : j.depth ≤ n)
    (hbare : ¬ e.BareCallAt n) : e.toJson.depth ≤ n := by
  obtain ⟨hown, hinside⟩ := levels_of_ofPayload? h
  rw [depth_le_iff_children]
  constructor
  · rcases hown with hown | ⟨name, distinct, rfl⟩
    · exact Nat.le_trans hown hdepth
    · -- the list was left out, so the printed one has to fit below the call
      have hpos := depth_pos_of_ofPayload? h
      have hone : n ≠ 1 := by
        rintro rfl
        exact hbare .here
      show 2 ≤ n
      omega
  · intro c hc
    obtain ⟨levels, i, hi, hlevels⟩ := hinside c hc
    obtain ⟨m, rfl⟩ : ∃ m, n = m + e.ownLevels := Nat.exists_eq_add_of_le' (by omega)
    have hle := hchild levels i c m hi (by omega) fun hcall => hbare (.inside hc hcall)
    omega

/-- The parts of a kept node stand in a value as deep as the node's. -/
theorem depth_le_of_keptOfJson? {levels : Nat} {j : Json} {e : Expr} {n : Nat}
    (h : keptOfJson? levels j = some e) (hdepth : j.depth ≤ n) (hbare : ¬ e.BareCallAt n) :
    e.toJson.depth ≤ n := by
  induction levels generalizing j e n with
  | zero => cases h
  | succ levels ih =>
    obtain ⟨⟨form, payload⟩, htagged, hpayload⟩ := Option.bind_eq_some_iff.1 h
    exact depth_le_of_ofPayload? (fun _ _ _ _ hc hd hb => ih hc hd hb) hpayload
      (Nat.le_trans (depth_le_of_tagged? htagged) hdepth) hbare

/-- **An expression that was decoded in some room is printed in that room**, unless it has a call
without arguments at the last level. -/
theorem depth_le_of_ofJson? {room : Nat} {j : Json} {e : Expr} (h : ofJson? room j = some e)
    (hbare : ¬ e.BareCallAt room) : e.toJson.depth ≤ room := by
  rw [ofJson?] at h
  split at h
  · next hfits =>
    have hdepth : j.depth ≤ room := of_decide_eq_true (Bool.and_eq_true_iff.1 hfits).2
    obtain ⟨⟨form, payload⟩, htagged, hpayload⟩ := Option.bind_eq_some_iff.1 h
    exact depth_le_of_ofPayload? (fun _ _ _ _ hc hd hb => depth_le_of_keptOfJson? hc hd hb)
      hpayload (Nat.le_trans (depth_le_of_tagged? htagged) hdepth) hbare
  · cases h

end Expr

/-! ## Levels of a statement -/

namespace Select

/-- An expression stands in a clause of a statement, inside the given number of levels. -/
inductive Holds (s : Select) : Expr → Nat → Prop
  | item {e : Expr} (he : e ∈ s.items) : Holds s e 2
  | join {t : TableRef} {e : Expr} (ht : t ∈ s.tables) (he : t.condition = some e) : Holds s e 4
  | filter {e : Expr} (he : s.filter = some e) : Holds s e 2
  | group {e : Expr} (he : e ∈ s.groupBy) : Holds s e 2
  | having {e : Expr} (he : s.having = some e) : Holds s e 1
  | order {item : OrderItem} (hitem : item ∈ s.orderBy) : Holds s item.expr 3

/-- A call without arguments stands at a level of a statement. -/
def BareCallAt (level : Nat) (s : Select) : Prop :=
  ∃ e inner levels, s.Holds e levels ∧ e.BareCallAt inner ∧ inner + levels = level

/-! ### What decoding a clause gives -/

/-- A join condition was decoded one level inside its source. -/
theorem ofJson?_of_condition {room : Nat} {j : Json} {t : TableRef}
    (h : TableRef.ofJson? room j = some t) {e : Expr} (he : t.condition = some e) :
    ∃ i, Expr.ofJson? (room - 1) i = some e := by
  obtain ⟨given, -, h⟩ := Option.bind_eq_some_iff.1 h
  split at h
  next name aliasName join condition =>
    simp only [Option.bind_eq_bind, Option.bind_eq_some_iff, Option.pure_def,
      Option.some.injEq] at h
    obtain ⟨_, -, _, -, _, -, condition', hcondition, rfl⟩ := h
    obtain rfl : condition' = some e := he
    obtain ⟨i, -, hi⟩ := Json.optional_eq_some hcondition
    exact ⟨i, hi⟩
  next => cases h

/-- A source was decoded two levels inside its clause. -/
theorem ofJson?_of_mem_list {room : Nat} {j : Json} {tables : List TableRef}
    (h : TableRef.listOfJson? room j = some tables) {t : TableRef} (ht : t ∈ tables) :
    ∃ i, TableRef.ofJson? (room - 2) i = some t := by
  obtain ⟨given, -, h⟩ := Option.bind_eq_some_iff.1 h
  split at h
  · exact Json.exists_of_required_list h ht
  · cases h

/-- The filter was decoded one level inside its clause. -/
theorem ofJson?_of_filter {room : Nat} {j : Json} {e : Expr} (h : filterOfJson? room j = some e) :
    ∃ i, Expr.ofJson? (room - 1) i = some e := by
  obtain ⟨given, -, h⟩ := Option.bind_eq_some_iff.1 h
  split at h
  · obtain ⟨i, -, hi⟩ := Json.required_eq_some h
    exact ⟨i, hi⟩
  · cases h

/-- The expression of a sort key was decoded one level inside the key. -/
theorem ofJson?_of_orderItem {room : Nat} {j : Json} {item : OrderItem}
    (h : OrderItem.ofJson? room j = some item) :
    ∃ i, Expr.ofJson? (room - 1) i = some item.expr := by
  obtain ⟨given, -, h⟩ := Option.bind_eq_some_iff.1 h
  split at h
  · simp only [Option.bind_eq_bind, Option.bind_eq_some_iff, Option.pure_def,
      Option.some.injEq] at h
    obtain ⟨expr, hexpr, _, -, rfl⟩ := h
    obtain ⟨i, -, hi⟩ := Json.required_eq_some hexpr
    exact ⟨i, hi⟩
  · cases h

/-- **Each expression of a decoded statement was decoded in the room of its place.** -/
theorem ofJson?_of_holds {room : Nat} {j : Json} {s : Select} (h : ofJson? room j = some s)
    {e : Expr} {levels : Nat} (he : s.Holds e levels) :
    ∃ i, Expr.ofJson? (room - levels) i = some e := by
  obtain ⟨given, -, h⟩ := Option.bind_eq_some_iff.1 h
  split at h
  · simp only [Option.bind_eq_bind, Option.bind_eq_some_iff, Option.pure_def,
      Option.some.injEq] at h
    obtain ⟨items, hitems, distinct, -, sources, hsources, filter, hfilter, groupBy, hgroupBy,
      having, hhaving, orderBy, horderBy, limit, -, offset, -, rfl⟩ := h
    cases he with
    | item he => exact Json.exists_of_required_list hitems he
    | @join t _ ht he =>
      cases sources with
      | none => cases ht
      | some tables =>
        obtain ⟨jf, -, hfrom⟩ := Json.optional_eq_some hsources
        obtain ⟨jt, htable⟩ := ofJson?_of_mem_list hfrom ht
        exact ofJson?_of_condition htable he
    | filter he =>
      obtain rfl : filter = some e := he
      obtain ⟨jf, -, hjf⟩ := Json.optional_eq_some hfilter
      exact ofJson?_of_filter hjf
    | group he => exact Json.exists_of_defaulted_list hgroupBy he
    | having he =>
      obtain rfl : having = some e := he
      obtain ⟨i, -, hi⟩ := Json.optional_eq_some hhaving
      exact ⟨i, hi⟩
    | order hitem =>
      obtain ⟨ji, hji⟩ := Json.exists_of_defaulted_list horderBy hitem
      exact ofJson?_of_orderItem hji
  · cases h

/-! ### The depth of a statement -/

/-- Of a source only the join condition nests further. -/
theorem depth_condition_le_iff {t : TableRef} {n : Nat} :
    t.toJson.depth ≤ n + 1 ↔ ∀ e, t.condition = some e → e.toJson.depth ≤ n := by
  have hname : fieldDepth (t.alias?.map Json.string) ≤ n :=
    Json.fieldDepth_map_le_iff.2 fun _ _ => Nat.zero_le n
  have hscalar : ∀ text, fieldDepth (some (Json.string text)) ≤ n := fun _ => Nat.zero_le n
  rw [TableRef.toJson_eq_written, depth_written_le_iff]
  simp only [TableRef.fields, List.forall_mem_cons, JoinKind.toJson, hname, hscalar, true_and,
    Json.fieldDepth_map_le_iff, List.not_mem_nil, false_implies, implies_true, and_true]

/-- A join condition stands three levels inside its clause: the clause, the list of sources and the
source. -/
theorem depth_listToJson_le_iff {tables : List TableRef} {n : Nat} :
    (TableRef.listToJson tables).depth ≤ n + 3 ↔
      ∀ t ∈ tables, ∀ e, t.condition = some e → e.toJson.depth ≤ n := by
  have hfrom : (TableRef.listToJson tables).depth =
      Json.depth (.array (tables.map TableRef.toJson)) + 1 := by
    simp [TableRef.listToJson, Json.depth, Json.depthOfMembers]
  rw [hfrom, Nat.add_le_add_iff_right]
  exact Json.depth_array_map_le_iff.trans (forall₂_congr fun t _ => depth_condition_le_iff)

/-- A sort key is one level around its expression. -/
theorem depth_orderItem (item : OrderItem) : item.toJson.depth = item.expr.toJson.depth + 1 := by
  simp [OrderItem.toJson, Json.depth, Json.depthOfMembers]

/-- A statement nests as deep as its deepest expression with the levels around it, and at least
four levels are there for the clauses themselves. -/
theorem depth_le_iff_holds {s : Select} {n : Nat} :
    s.toJson.depth ≤ n + 4 ↔ ∀ e levels, s.Holds e levels → e.toJson.depth + levels ≤ n + 4 := by
  have hscalar : ∀ word : Option UInt64, fieldDepth (word.map wordToJson) ≤ n + 3 :=
    fun _ => Json.fieldDepth_map_le_iff.2 fun _ _ => Nat.zero_le _
  have hdistinct : fieldDepth (some (Json.bool s.distinct)) ≤ n + 3 := Nat.zero_le _
  have hlist : ∀ es : List Expr, fieldDepth (some (.array (es.map Expr.toJson))) ≤ n + 3 ↔
      ∀ e ∈ es, e.toJson.depth ≤ n + 2 := fun _ => Json.depth_array_map_le_iff
  have horder : fieldDepth (some (.array (s.orderBy.map OrderItem.toJson))) ≤ n + 3 ↔
      ∀ item ∈ s.orderBy, item.expr.toJson.depth ≤ n + 1 := by
    refine Json.depth_array_map_le_iff.trans (forall₂_congr fun item _ => ?_)
    rw [depth_orderItem, Nat.add_le_add_iff_right]
  have hsources : fieldDepth (s.sources.map TableRef.listToJson) ≤ n + 3 ↔
      ∀ t ∈ s.tables, ∀ e, t.condition = some e → e.toJson.depth ≤ n := by
    cases hs : s.sources with
    | none => simp [fieldDepth, tables, hs]
    | some tables => simpa [fieldDepth, Select.tables, hs] using depth_listToJson_le_iff
  have hfilter : fieldDepth (s.filter.map filterToJson) ≤ n + 3 ↔
      ∀ e, s.filter = some e → e.toJson.depth ≤ n + 2 := by
    refine Json.fieldDepth_map_le_iff.trans (forall₂_congr fun e _ => ?_)
    rw [depth_filterToJson, Nat.add_le_add_iff_right]
  -- field by field: what a clause asks is what its expressions ask with the levels around them
  rw [depth_toJson_le_iff]
  simp only [fields, List.forall_mem_cons, hlist, hdistinct, hsources, hfilter, horder, hscalar,
    Json.fieldDepth_map_le_iff, List.not_mem_nil, false_implies, implies_true, and_true, true_and]
  constructor
  · rintro ⟨hi, hs, hf, hg, hh, ho⟩ e levels he
    cases he with
    | item he => exact Nat.add_le_add_right (hi e he) 2
    | join ht he => exact Nat.add_le_add_right (hs _ ht e he) 4
    | filter he => exact Nat.add_le_add_right (hf e he) 2
    | group he => exact Nat.add_le_add_right (hg e he) 2
    | having he => exact Nat.add_le_add_right (hh e he) 1
    | order hitem => exact Nat.add_le_add_right (ho _ hitem) 3
  · intro h
    exact ⟨fun e he => Nat.le_of_add_le_add_right (h e 2 (.item he)),
      fun t ht e he => Nat.le_of_add_le_add_right (h e 4 (.join ht he)),
      fun e he => Nat.le_of_add_le_add_right (h e 2 (.filter he)),
      fun e he => Nat.le_of_add_le_add_right (h e 2 (.group he)),
      fun e he => Nat.le_of_add_le_add_right (h e 1 (.having he)),
      fun item hitem => Nat.le_of_add_le_add_right (h item.expr 3 (.order hitem))⟩

/-- No clause puts more than four levels around its expressions; a join condition has that many. -/
theorem levels_le_of_holds {s : Select} {e : Expr} {levels : Nat} (h : s.Holds e levels) :
    levels ≤ 4 := by
  cases h <;> decide

/-- **A statement that was decoded in some room is printed in that room**, unless it has a call
without arguments at the last level. -/
theorem depth_le_of_ofJson? {k : Nat} {j : Json} {s : Select} (h : ofJson? (k + 4) j = some s)
    (hbare : ¬ s.BareCallAt (k + 4)) : s.toJson.depth ≤ k + 4 := by
  refine depth_le_iff_holds.2 fun e levels he => ?_
  have hlevels := levels_le_of_holds he
  obtain ⟨i, hi⟩ := ofJson?_of_holds h he
  have hdepth := Expr.depth_le_of_ofJson? hi fun hcall =>
    hbare ⟨e, k + 4 - levels, levels, he, hcall, by omega⟩
  omega

/-- The array of a call without arguments makes a statement deeper than the level of the call. -/
theorem lt_depth_of_bareCallAt {k : Nat} {s : Select} (h : s.BareCallAt (k + 4)) :
    k + 4 < s.toJson.depth := by
  obtain ⟨e, inner, levels, he, hcall, hlevel⟩ := h
  have hlt := Expr.lt_depth_of_bareCallAt hcall
  by_contra hle
  have hroom := depth_le_iff_holds.1 (Nat.le_of_not_lt hle) e levels he
  omega

end Select

/-! ## Documents -/

/-- An expression that was read is the decoded form of some value. -/
theorem Expr.exists_of_ofDocument {text : String} {e : Expr} (h : ofDocument text = .ok e) :
    ∃ j, ofJson? Json.maxDepth j = some e := by
  unfold ofDocument at h
  split at h
  · next hread =>
    cases h
    obtain ⟨j, -, hj⟩ := Option.bind_eq_some_iff.1 hread
    exact ⟨j, hj⟩
  · cases h

/-- A statement that was read is the decoded form of some value. -/
theorem Select.exists_of_ofDocument {text : String} {s : Select} (h : ofDocument text = .ok s) :
    ∃ j, ofJson? Json.maxDepth j = some s := by
  unfold ofDocument at h
  split at h
  · next hread =>
    cases h
    obtain ⟨j, -, hj⟩ := Option.bind_eq_some_iff.1 hread
    exact ⟨j, hj⟩
  · cases h

/-- **What was decoded can be printed and decoded again**, as the same tree, unless a call without
arguments stands at the last level that a document may have. There the call came without the list
of its arguments, the printed list opens one level more, and the printed document is refused. -/
theorem reread_unless_bareCall :
    (∀ (text : String) (e : Expr), Expr.ofDocument text = .ok e →
      (¬ e.BareCallAt Json.maxDepth → Expr.ofDocument e.document = .ok e) ∧
      (e.BareCallAt Json.maxDepth →
        Expr.ofDocument e.document = .error (.serialization "decoding expression"))) ∧
    (∀ (text : String) (s : Select), Select.ofDocument text = .ok s →
      (¬ s.BareCallAt Json.maxDepth → Select.ofDocument s.document = .ok s) ∧
      (s.BareCallAt Json.maxDepth →
        Select.ofDocument s.document = .error (.serialization "decoding select statement"))) := by
  refine ⟨fun text e h => ?_, fun text s h => ?_⟩
  · obtain ⟨j, hj⟩ := Expr.exists_of_ofDocument h
    have hnesting : Json.nesting e.document = e.toJson.depth := Json.nesting_render e.plain_toJson
    rw [Expr.ofDocument_document, hnesting]
    refine ⟨fun hbare => if_pos (Expr.depth_le_of_ofJson? hj hbare), fun hcall => if_neg ?_⟩
    exact Nat.not_le_of_lt (Expr.lt_depth_of_bareCallAt hcall)
  · obtain ⟨j, hj⟩ := Select.exists_of_ofDocument h
    have hnesting : Json.nesting s.document = s.toJson.depth := Json.nesting_render s.plain_toJson
    rw [Select.ofDocument_document, hnesting]
    refine ⟨fun hbare => if_pos (Select.depth_le_of_ofJson? (k := 123) hj hbare),
      fun hcall => if_neg ?_⟩
    exact Nat.not_le_of_lt (Select.lt_depth_of_bareCallAt (k := 123) hcall)

/-- Sums around a call without arguments. -/
def sumsAroundCall : Nat → Expr
  | 0 => .call "NOW" [] false
  | n + 1 => .binary (sumsAroundCall n) .add (.column ⟨none, "a"⟩)

/-- Their documents without the list of arguments, which hold its default. -/
def sumsAroundCallJson : Nat → Json
  | 0 => .object [("type", .string "function_call"), ("name", .string "NOW")]
  | n + 1 => .object [("type", .string "binary_expression"), ("left", sumsAroundCallJson n),
    ("operator", .string "+"), ("right", (Expr.column ⟨none, "a"⟩).toJson)]

/-- The document without the arguments spells the sums. -/
theorem spelled_sumsAroundCall (n : Nat) : (sumsAroundCall n).Spelled (sumsAroundCallJson n) := by
  induction n with
  | zero =>
    have hfields : List.Forall₂ Json.Slot.Admits
        (.required "type" (· = .string Expr.Form.call.name) :: (sumsAroundCall 0).slots)
        [("type", some (.string "function_call")), ("name", some (.string "NOW")), ("args", none),
          ("distinct", none)] :=
      .cons ⟨rfl, rfl⟩ (.cons ⟨rfl, rfl⟩ (.cons ⟨rfl, rfl⟩ (.cons ⟨rfl, rfl⟩ .nil)))
    rw [Expr.spelled_eq]
    exact Json.spelledRecord_written hfields
  | succ n ih =>
    have hfields : List.Forall₂ Json.Slot.Admits
        (.required "type" (· = .string Expr.Form.binary.name) :: (sumsAroundCall (n + 1)).slots)
        [("type", some (.string "binary_expression")), ("left", some (sumsAroundCallJson n)),
          ("operator", some (.string "+")), ("right", some (Expr.column ⟨none, "a"⟩).toJson)] :=
      .cons ⟨rfl, rfl⟩ (.cons ⟨rfl, ih⟩ (.cons ⟨rfl, .inl rfl⟩
        (.cons ⟨rfl, Expr.spelled_toJson _⟩ .nil)))
    rw [Expr.spelled_eq]
    exact Json.spelledRecord_written hfields

/-- Each sum nests one level, and so does the call, which is given no array. -/
theorem depth_sumsAroundCallJson (n : Nat) : (sumsAroundCallJson n).depth = n + 1 := by
  induction n with
  | zero => rfl
  | succ n ih =>
    have hcolumn : (Expr.column ⟨none, "a"⟩).toJson.depth = 1 := rfl
    simp [sumsAroundCallJson, Json.depth, Json.depthOfMembers, ih, hcolumn]

/-- The call stands at the level below those of the sums. -/
theorem bareCallAt_sumsAroundCall (n : Nat) : (sumsAroundCall n).BareCallAt (n + 1) := by
  induction n with
  | zero => exact .here
  | succ n ih =>
    have hchild : sumsAroundCall n ∈ (sumsAroundCall (n + 1)).children := List.mem_cons_self
    exact .inside hchild ih

/-- Up to the limit the document without the arguments is read. -/
theorem ofDocument_sumsAroundCall {n : Nat} (h : n < Json.maxDepth) :
    Expr.ofDocument (sumsAroundCallJson n).render = .ok (sumsAroundCall n) := by
  have hspelled := spelled_sumsAroundCall n
  refine Expr.ofDocument_of_spelled hspelled ?_
    (Json.read?_render ((sumsAroundCall n).plain_of_spelled _ hspelled))
  rw [depth_sumsAroundCallJson]
  exact h

/-- The statement that selects the sums. -/
def selectedSums (n : Nat) : Select where
  items := [sumsAroundCall n]

/-- Its document with nothing but the select list, and without the list of arguments. -/
def selectedSumsJson (n : Nat) : Json :=
  .object [("select_list", .array [sumsAroundCallJson n])]

/-- The document without the other clauses spells the statement. -/
theorem spelled_selectedSums (n : Nat) : (selectedSums n).Spelled (selectedSumsJson n) := by
  have hfields : List.Forall₂ Json.Slot.Admits (selectedSums n).slots
      [("select_list", some (.array [sumsAroundCallJson n])), ("distinct", none), ("from", none),
        ("where_clause", none), ("group_by", none), ("having", none), ("order_by", none),
        ("limit", none), ("offset", none)] :=
    .cons ⟨rfl, List.Forall₂.cons (spelled_sumsAroundCall n) .nil⟩ (.cons ⟨rfl, rfl⟩
      (.cons ⟨rfl, trivial⟩ (.cons ⟨rfl, trivial⟩ (.cons ⟨rfl, rfl⟩ (.cons ⟨rfl, trivial⟩
        (.cons ⟨rfl, rfl⟩ (.cons ⟨rfl, trivial⟩ (.cons ⟨rfl, trivial⟩ .nil))))))))
  exact Json.spelledRecord_written hfields

/-- The statement and its select list are two levels around the sums. -/
theorem depth_selectedSumsJson (n : Nat) : (selectedSumsJson n).depth = n + 3 := by
  simp [selectedSumsJson, Json.depth, Json.depthOfMembers, Json.depthOfItems,
    depth_sumsAroundCallJson]

/-- The call stands two levels deeper than in the sums alone. -/
theorem bareCallAt_selectedSums (n : Nat) : (selectedSums n).BareCallAt (n + 3) :=
  ⟨sumsAroundCall n, n + 1, 2, .item List.mem_cons_self, bareCallAt_sumsAroundCall n, rfl⟩

/-- Up to the limit the document of the statement is read. -/
theorem ofDocument_selectedSums {n : Nat} (h : n + 2 < Json.maxDepth) :
    Select.ofDocument (selectedSumsJson n).render = .ok (selectedSums n) := by
  have hspelled := spelled_selectedSums n
  refine Select.ofDocument_of_spelled hspelled ?_
    (Json.read?_render ((selectedSums n).plain_of_spelled _ hspelled))
  rw [depth_selectedSumsJson]
  exact h

/-- At the limit a document is decoded and its tree, printed again, is refused; so it is with the
statement that selects the tree. -/
theorem reread_refused_sumsAroundCall :
    Expr.ofDocument (sumsAroundCallJson 126).render = .ok (sumsAroundCall 126) ∧
    Expr.ofDocument (sumsAroundCall 126).document =
      .error (.serialization "decoding expression") ∧
    Select.ofDocument (selectedSumsJson 124).render = .ok (selectedSums 124) ∧
    Select.ofDocument (selectedSums 124).document =
      .error (.serialization "decoding select statement") := by
  have hsums := Expr.lt_depth_of_bareCallAt (bareCallAt_sumsAroundCall 126)
  have hselected := Select.lt_depth_of_bareCallAt (k := 123) (bareCallAt_selectedSums 124)
  refine ⟨ofDocument_sumsAroundCall (by decide), ?_, ofDocument_selectedSums (by decide), ?_⟩
  · rw [Expr.ofDocument_document, Expr.document,
      Json.nesting_render (sumsAroundCall 126).plain_toJson]
    exact if_neg (Nat.not_le_of_lt hsums)
  · rw [Select.ofDocument_document, Select.document,
      Json.nesting_render (selectedSums 124).plain_toJson]
    exact if_neg (Nat.not_le_of_lt hselected)

/-- Two sums around the call are read back, and so is a statement that counts its rows. With 126
sums the call stands at the last level, and with 124 in the select list of a statement; there what
was printed is refused. -/
theorem reread_unless_bareCall_sumsAroundCall :
    Expr.ofDocument (sumsAroundCallJson 2).render = .ok (sumsAroundCall 2) ∧
    ¬ (sumsAroundCall 2).BareCallAt Json.maxDepth ∧
    Expr.ofDocument (sumsAroundCall 2).document = .ok (sumsAroundCall 2) ∧
    (sumsAroundCall 126).BareCallAt Json.maxDepth ∧
    Expr.ofDocument (sumsAroundCall 126).document =
      .error (.serialization "decoding expression") ∧
    Select.ofDocument openOrdersSpelling.render = .ok openOrders ∧
    ¬ openOrders.BareCallAt Json.maxDepth ∧
    Select.ofDocument openOrders.document = .ok openOrders ∧
    (selectedSums 124).BareCallAt Json.maxDepth ∧
    Select.ofDocument (selectedSums 124).document =
      .error (.serialization "decoding select statement") := by
  have hsums := ofDocument_sumsAroundCall (n := 2) (by decide)
  have hbare : ¬ (sumsAroundCall 2).BareCallAt Json.maxDepth := by
    intro hcall
    have hlt := Expr.lt_depth_of_bareCallAt hcall
    exact absurd hlt (by decide)
  have hlimit := ofDocument_sumsAroundCall (n := 126) (by decide)
  have hcall := bareCallAt_sumsAroundCall 126
  have horders : Select.ofDocument openOrdersSpelling.render = .ok openOrders :=
    Select.ofDocument_of_spelled spelled_openOrders (by decide)
      (Json.read?_render (openOrders.plain_of_spelled _ spelled_openOrders))
  have hordersBare : ¬ openOrders.BareCallAt Json.maxDepth := by
    intro hcall
    have hlt := Select.lt_depth_of_bareCallAt (k := 123) hcall
    exact absurd hlt (by decide)
  have hselected := ofDocument_selectedSums (n := 124) (by decide)
  have hselectedCall := bareCallAt_selectedSums 124
  exact ⟨hsums, hbare, (reread_unless_bareCall.1 _ _ hsums).1 hbare, hcall,
    (reread_unless_bareCall.1 _ _ hlimit).2 hcall, horders, hordersBare,
    (reread_unless_bareCall.2 _ _ horders).1 hordersBare, hselectedCall,
    (reread_unless_bareCall.2 _ _ hselected).2 hselectedCall⟩

end QuerySplit
