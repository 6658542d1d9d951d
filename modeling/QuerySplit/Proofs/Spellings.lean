import QuerySplit.Proofs.Documents
import QuerySplit.Proofs.PrettyText
import QuerySplit.Proofs.RecordSpellings

/-!
# Documents in other spellings

The encoding of an expression or statement is one of many values that spell it (`Spelled`). The
members of each object may stand in any order, the one that names a form included, and with others
between them; what holds a default may be left out; each record may stand as an array of its
fields, an expression with its form first; inequality and the absence of a join have a second name.
The spellings are defined by recursion over the tree, so they combine freely at all depths.

All spellings that nest within the limit are decoded as the tree they spell
(`spellings_decode`), whatever layout their text has.
-/

set_option autoImplicit false

namespace QuerySplit

open Json (Slot SpelledRecord SpelledArray ReadsSpelled PlainSlots plainSlots_cons plainSlots_nil
  written plain_of_eq_string plain_of_eq_bool Reading)

/-! ## What spells an expression -/

/-- Inequality has two symbols. -/
def BinaryOp.Spelled (op : BinaryOp) (j : Json) : Prop :=
  j = op.toJson ∨ op = .neq ∧ j = .string "!="

namespace ColumnRef

def slots (c : ColumnRef) : List Slot :=
  [.optional "table" (c.table.map fun table => (· = .string table)),
    .required "column" (· = .string c.column)]

def Spelled (c : ColumnRef) : Json → Prop :=
  SpelledRecord c.slots

end ColumnRef

def Literal.slots (v : Literal) : List Slot :=
  [.required "value" (· = .string v.value),
    .defaulted "literal_type" (v.kind = .unknown) (· = v.kind.toJson)]

namespace Expr

/-- A node is a record whose first field names its form. -/
def SpelledNode (form : Form) (slots : List Slot) : Json → Prop :=
  SpelledRecord (.required "type" (· = .string form.name) :: slots)

mutual

/-- The values that spell an expression. -/
def Spelled : Expr → Json → Prop
  | .binary left op right =>
    SpelledNode .binary [.required "left" left.Spelled, .required "operator" op.Spelled,
      .required "right" right.Spelled]
  | .column c => SpelledNode .column c.slots
  | .literal v => SpelledNode .literal v.slots
  | .call name args distinct =>
    SpelledNode .call [.required "name" (· = .string name),
      .defaulted "args" (args = []) (SpelledArray (SpelledEach args)),
      .defaulted "distinct" (distinct = false) (· = .bool distinct)]
  | .membership c values =>
    SpelledNode .membership [.required "column" c.Spelled,
      .required "values" (SpelledArray (SpelledEach values))]
  | .star => SpelledNode .star []

/-- Items that spell expressions one by one. -/
def SpelledEach : List Expr → List Json → Prop
  | [], items => items = []
  | e :: rest, items =>
    ∃ item others, items = item :: others ∧ e.Spelled item ∧ SpelledEach rest others

end

/-- A list is spelled item by item. -/
theorem spelledEach_iff {es : List Expr} {items : List Json} :
    SpelledEach es items ↔ List.Forall₂ Spelled es items := by
  induction es generalizing items with
  | nil => rw [SpelledEach, List.forall₂_nil_left_iff]
  | cons e rest ih =>
    rw [SpelledEach, List.forall₂_cons_left_iff]
    constructor
    · rintro ⟨item, others, rfl, hitem, hothers⟩
      exact ⟨item, others, hitem, ih.1 hothers, rfl⟩
    · rintro ⟨item, others, hitem, hothers, rfl⟩
      exact ⟨item, others, rfl, hitem, ih.2 hothers⟩

/-- The fields of a node without its form. -/
def slots : Expr → List Slot
  | .binary left op right =>
    [.required "left" left.Spelled, .required "operator" op.Spelled,
      .required "right" right.Spelled]
  | .column c => c.slots
  | .literal v => v.slots
  | .call name args distinct =>
    [.required "name" (· = .string name),
      .defaulted "args" (args = []) (SpelledArray (List.Forall₂ Spelled args)),
      .defaulted "distinct" (distinct = false) (· = .bool distinct)]
  | .membership c values =>
    [.required "column" c.Spelled, .required "values" (SpelledArray (List.Forall₂ Spelled values))]
  | .star => []

/-- An expression is spelled like the node that it is. -/
theorem spelled_eq (e : Expr) : e.Spelled = SpelledNode e.form e.slots := by
  have heach : ∀ es, SpelledEach es = List.Forall₂ Spelled es := by
    intro es
    funext items
    exact propext spelledEach_iff
  cases e with
  | call name args distinct => rw [Spelled, heach]; rfl
  | membership c values => rw [Spelled, heach]; rfl
  | _ => rfl

/-- The slots of a node have the names of its fields. -/
theorem names_slots (e : Expr) : e.slots.map Slot.name = e.form.fieldNames := by
  cases e <;> simp [slots, ColumnRef.slots, Literal.slots, form, Form.fieldNames]

end Expr

/-! ## Decoding an expression -/

theorem BinaryOp.readsSpelled (reading : Reading) (op : BinaryOp) (room : Nat) :
    ReadsSpelled (ofJson? reading) op.Spelled room op := by
  rintro _ (rfl | ⟨rfl, rfl⟩) -
  · cases op <;> rfl
  · rfl

theorem BinaryOp.plain_of_spelled (op : BinaryOp) (j : Json) (h : op.Spelled j) : j.Plain := by
  rcases h with rfl | ⟨-, rfl⟩ <;> trivial

theorem ColumnRef.plain_slots (c : ColumnRef) : PlainSlots c.slots := by
  simp only [slots, plainSlots_cons, plainSlots_nil, and_true]
  exact ⟨Json.plain_optional_slot plain_of_eq_string "table" c.table, plain_of_eq_string c.column⟩

/-- A column is read from each of its spellings. -/
theorem ColumnRef.readsSpelled (c : ColumnRef) (room : Nat) :
    ReadsSpelled ofJson? c.Spelled room c := by
  intro j hspelled hdepth
  have hnames : c.slots.map Slot.name = ["table", "column"] := by simp [slots]
  obtain ⟨given, hgiven, htakes, hroom⟩ :=
    hspelled.fields?_within hnames (by decide) (Nat.le_succ_of_le hdepth)
  rw [slots] at htakes
  obtain _ | ⟨htable, _ | ⟨hcolumn, _ | _⟩⟩ := htakes
  simp only [List.forall_mem_cons] at hroom
  have htable' := ReadsSpelled.optional (Json.readsSpelled_string · room)
    (fun _ => Json.noConfusion) htable hroom.1
  have hcolumn' := (Json.readsSpelled_string c.column room).required hcolumn hroom.2.1
  simp only [ofJson?, hgiven, htable', hcolumn', Option.bind_eq_bind, Option.bind_some,
    Option.pure_def]

/-- A literal is read from each of its spellings. -/
theorem Literal.readsSpelled (reading : Reading) (v : Literal) (room : Nat) :
    ReadsSpelled (ofJson? reading) (SpelledRecord v.slots) room v := by
  intro j hspelled hdepth
  have hnames : v.slots.map Slot.name = ["value", "literal_type"] := rfl
  obtain ⟨given, hgiven, htakes, hroom⟩ :=
    hspelled.fields?_within hnames (by decide) (Nat.le_succ_of_le hdepth)
  have hkindReads :
      ReadsSpelled (LiteralKind.ofJson? reading) (· = v.kind.toJson) room v.kind := by
    rintro _ rfl _
    cases v.kind <;> rfl
  obtain _ | ⟨hvalue, _ | ⟨hkind, _ | _⟩⟩ := htakes
  simp only [List.forall_mem_cons] at hroom
  have hvalue' := (Json.readsSpelled_string v.value room).required hvalue hroom.1
  have hkind' := hkindReads.defaulted id hkind hroom.2.1
  simp only [ofJson?, hgiven, hvalue', hkind', Option.bind_eq_bind, Option.bind_some,
    Option.pure_def]

namespace Expr

/-- **The form of a spelled node is found and separated from its fields.** -/
theorem tagged?_of_spelled (reading : Reading) {form : Form} {slots : List Slot} {j : Json}
    (h : SpelledNode form slots j) (hnodup : ("type" :: slots.map Slot.name).Nodup) :
    ∃ payload, tagged? reading j = some (form, payload) ∧ SpelledRecord slots payload := by
  cases j with
  | object members =>
    obtain ⟨tag, htag, hcount, hmember, hpayload⟩ := h.uncons_object hnodup
    refine ⟨_, ?_, hpayload⟩
    rw [tagged?, if_pos hcount, hmember, htag]
    simp only [Option.bind_eq_bind, Option.bind_some, Form.ofTag?_name, Option.pure_def]
  | array items =>
    cases h with
    | array hitems =>
      obtain _ | ⟨htag, hitems⟩ := hitems
      next tag items =>
      refine ⟨.array items, ?_, .array hitems⟩
      have hform : Form.ofTag? reading tag = some form := by
        rw [show tag = .string form.name from htag, Form.ofTag?_name]
      rw [tagged?, hform, Option.map_some]
  | _ => cases h

/-- The parts of a node stand at most as deep as the node. -/
theorem depth_le_of_tagged? {reading : Reading} {form : Form} {j payload : Json}
    (h : tagged? reading j = some (form, payload)) : payload.depth ≤ j.depth := by
  unfold tagged? at h
  split at h
  · next members =>
    split at h
    · simp only [Option.bind_eq_bind, Option.bind_eq_some_iff, Option.pure_def,
        Option.some.injEq, Prod.mk.injEq] at h
      obtain ⟨_, -, _, -, -, rfl⟩ := h
      refine Nat.succ_le_succ (Json.depthOfMembers_le_iff.2 fun m hm => ?_)
      exact Json.depthOfMembers_le_iff.1 (Nat.le_refl _) m (List.mem_of_mem_filter hm)
    · cases h
  · next tag items =>
    obtain ⟨_, -, hpayload⟩ := Option.map_eq_some_iff.1 h
    cases hpayload
    exact Nat.succ_le_succ (Nat.le_max_right _ _)
  · cases h

/-- **A node is decoded from its fields**, however these are spelled, when its children are. -/
theorem ofPayload?_of_spelled (reading : Reading) {child : Nat → Json → Option Expr} {e : Expr}
    {room : Nat} {j : Json}
    (hchild : ∀ c ∈ e.children, ∀ levels, ReadsSpelled (child levels) c.Spelled room c)
    (h : SpelledRecord e.slots j) (hdepth : j.depth ≤ room + 1) :
    ofPayload? reading child e.form j = some e := by
  obtain ⟨given, hgiven, htakes, hroom⟩ :=
    h.fields?_within e.names_slots e.form.nodup_fieldNames hdepth
  cases e with
  | binary left op right =>
    obtain _ | ⟨hleft, _ | ⟨hop, _ | ⟨hright, _ | _⟩⟩⟩ := htakes
    simp only [List.forall_mem_cons] at hroom
    have hleft' := (hchild left (by simp [children]) 1).required hleft hroom.1
    have hop' := (BinaryOp.readsSpelled reading op room).required hop hroom.2.1
    have hright' := (hchild right (by simp [children]) 1).required hright hroom.2.2.1
    simp only [form, Form.fieldNames] at hgiven
    simp only [form, ofPayload?, hgiven, hleft', hop', hright', Option.bind_eq_bind,
      Option.bind_some, Option.pure_def]
  | column c =>
    show (ColumnRef.ofJson? j).map column = _
    rw [c.readsSpelled j.depth j h (Nat.le_refl _), Option.map_some]
  | literal v =>
    show (Literal.ofJson? reading j).map literal = _
    rw [v.readsSpelled reading j.depth j h (Nat.le_refl _), Option.map_some]
  | call name args distinct =>
    have hlist := ReadsSpelled.list fun a (ha : a ∈ args) => hchild a ha 2
    obtain _ | ⟨hname, _ | ⟨hargs, _ | ⟨hdistinct, _ | _⟩⟩⟩ := htakes
    simp only [List.forall_mem_cons] at hroom
    have hname' := (Json.readsSpelled_string name room).required hname hroom.1
    have hargs' := hlist.defaulted id hargs (Nat.le_succ_of_le hroom.2.1)
    have hdistinct' := (Json.readsSpelled_bool distinct room).defaulted id hdistinct hroom.2.2.1
    simp only [form, Form.fieldNames] at hgiven
    simp only [form, ofPayload?, hgiven, hname', hargs', hdistinct', Option.bind_eq_bind,
      Option.bind_some, Option.pure_def]
  | membership c values =>
    have hlist := ReadsSpelled.list fun v (hv : v ∈ values) => hchild v hv 2
    obtain _ | ⟨hcolumn, _ | ⟨hvalues, _ | _⟩⟩ := htakes
    simp only [List.forall_mem_cons] at hroom
    have hcolumn' := (c.readsSpelled room).required hcolumn hroom.1
    have hvalues' := hlist.required hvalues (Nat.le_succ_of_le hroom.2.1)
    simp only [form, Form.fieldNames] at hgiven
    simp only [form, ofPayload?, hgiven, hcolumn', hvalues', Option.bind_eq_bind,
      Option.bind_some, Option.pure_def]
  | star =>
    cases h with
    | object => rfl
    | array hitems =>
      cases hitems
      rfl

/-- The form and the fields of a node have names of their own. -/
theorem nodup_names (e : Expr) : ("type" :: e.slots.map Slot.name).Nodup := by
  rw [names_slots]
  exact List.nodup_cons.2 ⟨e.form.type_notMem_fieldNames, e.form.nodup_fieldNames⟩

/-- **A kept expression is decoded in every spelling** that the levels reach through. -/
theorem keptOfJson?_readsSpelled (levels : Nat) (e : Expr) :
    ReadsSpelled (keptOfJson? levels) e.Spelled levels e := by
  induction levels generalizing e with
  | zero =>
    intro j hspelled hdepth
    rw [spelled_eq] at hspelled
    cases hspelled <;> cases hdepth
  | succ levels ih =>
    intro j hspelled hdepth
    rw [spelled_eq] at hspelled
    obtain ⟨payload, htagged, hpayload⟩ := tagged?_of_spelled .kept hspelled e.nodup_names
    rw [keptOfJson?, htagged]
    exact ofPayload?_of_spelled .kept (fun c _ _ => ih c) hpayload
      (Nat.le_trans (depth_le_of_tagged? htagged) hdepth)

/-- Every spelling is a value that a document can hold. -/
theorem plain_of_spelled (e : Expr) : ∀ j, e.Spelled j → j.Plain := by
  induction e using induction_children with
  | h e ih =>
    intro j hj
    rw [spelled_eq] at hj
    refine hj.plain (plainSlots_cons.2 ⟨plain_of_eq_string e.form.name, ?_⟩)
    cases e with
    | binary left op right =>
      simp only [slots, plainSlots_cons, plainSlots_nil, and_true]
      exact ⟨ih left (by simp [children]), op.plain_of_spelled, ih right (by simp [children])⟩
    | column c => exact c.plain_slots
    | literal v =>
      simp only [slots, Literal.slots, plainSlots_cons, plainSlots_nil, and_true]
      exact ⟨plain_of_eq_string v.value, plain_of_eq_string v.kind.name⟩
    | call name args distinct =>
      simp only [slots, plainSlots_cons, plainSlots_nil, and_true]
      exact ⟨plain_of_eq_string name, Json.plain_of_spelledArray ih, plain_of_eq_bool distinct⟩
    | membership c values =>
      simp only [slots, plainSlots_cons, plainSlots_nil, and_true]
      exact ⟨fun i hi => hi.plain c.plain_slots, Json.plain_of_spelledArray ih⟩
    | star => exact plainSlots_nil

/-- **An expression is decoded in every spelling that fits.** -/
theorem readsSpelled (room : Nat) (e : Expr) : ReadsSpelled (ofJson? room) e.Spelled room e := by
  intro j hj hdepth
  have hfits : j.fits room = true := by
    rw [Json.fits_of_plain (e.plain_of_spelled j hj), decide_eq_true hdepth]
  rw [spelled_eq] at hj
  obtain ⟨payload, htagged, hpayload⟩ := tagged?_of_spelled .direct hj e.nodup_names
  rw [ofJson?, if_pos hfits, htagged]
  exact ofPayload?_of_spelled .kept (fun c _ _ => keptOfJson?_readsSpelled room c) hpayload
    (Nat.le_succ_of_le (Nat.le_trans (depth_le_of_tagged? htagged) hdepth))

end Expr

/-! ## The records of a statement -/

/-- The absence of a join has two names. -/
def JoinKind.Spelled (kind : JoinKind) (j : Json) : Prop :=
  j = kind.toJson ∨ kind = .none ∧ j = .string "NONE"

namespace TableRef

def slots (t : TableRef) : List Slot :=
  [.required "name" (· = .string t.name),
    .optional "alias" (t.alias?.map fun name => (· = .string name)),
    .defaulted "join_type" (t.join = .none) t.join.Spelled,
    .optional "join_condition" (t.condition.map Expr.Spelled)]

def Spelled (t : TableRef) : Json → Prop :=
  SpelledRecord t.slots

/-- The values that spell a `FROM` clause. -/
def SpelledList (tables : List TableRef) : Json → Prop :=
  SpelledRecord [.required "tables" (SpelledArray (List.Forall₂ Spelled tables))]

end TableRef

namespace OrderItem

def slots (item : OrderItem) : List Slot :=
  [.required "expression" item.expr.Spelled,
    .defaulted "descending" (item.descending = false) (· = .bool item.descending)]

def Spelled (item : OrderItem) : Json → Prop :=
  SpelledRecord item.slots

end OrderItem

namespace Select

/-- The values that spell a `WHERE` clause. -/
def SpelledFilter (condition : Expr) : Json → Prop :=
  SpelledRecord [.required "condition" condition.Spelled]

def slots (s : Select) : List Slot :=
  [.required "select_list" (SpelledArray (List.Forall₂ Expr.Spelled s.items)),
    .defaulted "distinct" (s.distinct = false) (· = .bool s.distinct),
    .optional "from" (s.sources.map TableRef.SpelledList),
    .optional "where_clause" (s.filter.map SpelledFilter),
    .defaulted "group_by" (s.groupBy = []) (SpelledArray (List.Forall₂ Expr.Spelled s.groupBy)),
    .optional "having" (s.having.map Expr.Spelled),
    .defaulted "order_by" (s.orderBy = [])
      (SpelledArray (List.Forall₂ OrderItem.Spelled s.orderBy)),
    .optional "limit" (s.limit.map fun n => (· = wordToJson n)),
    .optional "offset" (s.offset.map fun n => (· = wordToJson n))]

/-- The values that spell a statement. -/
def Spelled (s : Select) : Json → Prop :=
  SpelledRecord s.slots

end Select

/-! ## Decoding a statement -/

theorem Expr.not_spelled_null (e : Expr) : ¬ e.Spelled .null := by
  rw [spelled_eq]
  exact Json.not_spelledRecord_null _

theorem JoinKind.readsSpelled (kind : JoinKind) (room : Nat) :
    ReadsSpelled ofJson? kind.Spelled room kind := by
  rintro _ (rfl | ⟨rfl, rfl⟩) -
  · cases kind <;> rfl
  · rfl

/-- A source is read from each of its spellings. -/
theorem TableRef.readsSpelled (k : Nat) (t : TableRef) :
    ReadsSpelled (ofJson? (k + 1)) t.Spelled (k + 1) t := by
  intro j hspelled hdepth
  have hnames : t.slots.map Slot.name = ["name", "alias", "join_type", "join_condition"] := by
    simp [slots]
  obtain ⟨given, hgiven, htakes, hroom⟩ := hspelled.fields?_within hnames (by decide) hdepth
  rw [slots] at htakes
  obtain _ | ⟨hname, _ | ⟨halias, _ | ⟨hjoin, _ | ⟨hcondition, _ | _⟩⟩⟩⟩ := htakes
  simp only [List.forall_mem_cons] at hroom
  obtain ⟨hn, ha, hj, hc, -⟩ := hroom
  have hname' := (Json.readsSpelled_string t.name k).required hname hn
  have halias' := ReadsSpelled.optional (Json.readsSpelled_string · k)
    (fun _ => Json.noConfusion) halias ha
  have hjoin' := (t.join.readsSpelled k).defaulted id hjoin hj
  have hcondition' := ReadsSpelled.optional (Expr.readsSpelled k) Expr.not_spelled_null
    hcondition hc
  simp only [ofJson?, hgiven, Nat.add_sub_cancel, hname', halias', hjoin', hcondition',
    Option.bind_eq_bind, Option.bind_some, Option.pure_def]

/-- The `FROM` clause. -/
theorem TableRef.readsSpelled_list (k : Nat) (tables : List TableRef) :
    ReadsSpelled (listOfJson? (k + 3)) (SpelledList tables) (k + 3) tables :=
  (ReadsSpelled.list fun t _ => t.readsSpelled k).single "tables"

/-- A sort key is read from each of its spellings. -/
theorem OrderItem.readsSpelled (k : Nat) (item : OrderItem) :
    ReadsSpelled (ofJson? (k + 1)) item.Spelled (k + 1) item := by
  intro j hspelled hdepth
  have hnames : item.slots.map Slot.name = ["expression", "descending"] := rfl
  obtain ⟨given, hgiven, htakes, hroom⟩ := hspelled.fields?_within hnames (by decide) hdepth
  obtain _ | ⟨hexpr, _ | ⟨hdescending, _ | _⟩⟩ := htakes
  simp only [List.forall_mem_cons] at hroom
  have hexpr' := (item.expr.readsSpelled k).required hexpr hroom.1
  have hdescending' := (Json.readsSpelled_bool item.descending k).defaulted id hdescending hroom.2.1
  simp only [ofJson?, hgiven, Nat.add_sub_cancel, hexpr', hdescending', Option.bind_eq_bind,
    Option.bind_some, Option.pure_def]

namespace Select

/-- The `WHERE` clause. -/
theorem readsSpelled_filter (k : Nat) (condition : Expr) :
    ReadsSpelled (filterOfJson? (k + 1)) (SpelledFilter condition) (k + 1) condition :=
  (condition.readsSpelled k).single "condition"

theorem readsSpelled_word (n : UInt64) (room : Nat) :
    ReadsSpelled Json.word? (· = wordToJson n) room n := by
  rintro _ rfl hdepth
  exact (Json.reads_word room n).trans (if_pos hdepth)

/-- **A statement is decoded in every spelling that fits.** -/
theorem readsSpelled (k : Nat) (s : Select) :
    ReadsSpelled (ofJson? (k + 4)) s.Spelled (k + 4) s := by
  intro j hspelled hdepth
  have hnames : s.slots.map Slot.name = ["select_list", "distinct", "from", "where_clause",
      "group_by", "having", "order_by", "limit", "offset"] := by
    simp [slots]
  obtain ⟨given, hgiven, htakes, hroom⟩ := hspelled.fields?_within hnames (by decide) hdepth
  rw [slots] at htakes
  obtain _ | ⟨hitems, _ | ⟨hdistinct, _ | ⟨hsources, _ | ⟨hfilter, _ | ⟨hgroupBy, _ | ⟨hhaving,
    _ | ⟨horderBy, _ | ⟨hlimit, _ | ⟨hoffset, _ | _⟩⟩⟩⟩⟩⟩⟩⟩⟩ := htakes
  simp only [List.forall_mem_cons] at hroom
  obtain ⟨hi, hd, hs, hf, hg, hh, ho, hl, hoff, -⟩ := hroom
  have hexprs : ∀ es : List Expr, ReadsSpelled (Json.list? (Expr.ofJson? (k + 2)))
      (SpelledArray (List.Forall₂ Expr.Spelled es)) (k + 3) es :=
    fun es => ReadsSpelled.list fun e _ => e.readsSpelled (k + 2)
  have hitems' := (hexprs s.items).required hitems hi
  have hdistinct' := (Json.readsSpelled_bool s.distinct (k + 3)).defaulted id hdistinct hd
  have hsources' := ReadsSpelled.optional (TableRef.readsSpelled_list k)
    (fun _ => Json.not_spelledRecord_null _) hsources hs
  have hfilter' := ReadsSpelled.optional (readsSpelled_filter (k + 2))
    (fun _ => Json.not_spelledRecord_null _) hfilter hf
  have hgroupBy' := (hexprs s.groupBy).defaulted id hgroupBy hg
  have hhaving' := ReadsSpelled.optional (Expr.readsSpelled (k + 3)) Expr.not_spelled_null
    hhaving hh
  have horderBy' := (ReadsSpelled.list fun item (_ : item ∈ s.orderBy) =>
    item.readsSpelled (k + 1)).defaulted id horderBy ho
  have hlimit' := ReadsSpelled.optional (readsSpelled_word · (k + 3))
    (fun _ => Json.noConfusion) hlimit hl
  have hoffset' := ReadsSpelled.optional (readsSpelled_word · (k + 3))
    (fun _ => Json.noConfusion) hoffset hoff
  have hone : k + 4 - 1 = k + 3 := rfl
  have htwo : k + 4 - 2 = k + 2 := rfl
  simp only [ofJson?, hgiven, hone, htwo, hitems', hdistinct', hsources', hfilter', hgroupBy',
    hhaving', horderBy', hlimit', hoffset', Option.bind_eq_bind, Option.bind_some, Option.pure_def]

end Select

/-! ## The encoding among the spellings -/

theorem ColumnRef.admits_fields (c : ColumnRef) :
    List.Forall₂ Slot.Admits c.slots
      [("table", c.table.map .string), ("column", some (.string c.column))] :=
  .cons (Slot.admits_optional_eq .string "table" c.table) (.cons ⟨rfl, rfl⟩ .nil)

theorem ColumnRef.spelled_toJson (c : ColumnRef) : c.Spelled c.toJson := by
  obtain ⟨table, column⟩ := c
  have hspelled := Json.spelledRecord_written (admits_fields ⟨table, column⟩)
  cases table <;> exact hspelled

/-- **The encoding of an expression spells it.** -/
theorem Expr.spelled_toJson (e : Expr) : e.Spelled e.toJson := by
  induction e using induction_children with
  | h e ih =>
    have hfields : List.Forall₂ Slot.Admits e.slots e.fields := by
      cases e with
      | binary left op right =>
        exact .cons ⟨rfl, ih left (by simp [children])⟩ (.cons ⟨rfl, .inl rfl⟩
          (.cons ⟨rfl, ih right (by simp [children])⟩ .nil))
      | column c => exact c.admits_fields
      | literal v => exact .cons ⟨rfl, rfl⟩ (.cons ⟨rfl, rfl⟩ .nil)
      | call name args distinct =>
        exact .cons ⟨rfl, rfl⟩ (.cons ⟨rfl, Json.spelledArray_map ih⟩ (.cons ⟨rfl, rfl⟩ .nil))
      | membership c values =>
        exact .cons ⟨rfl, c.spelled_toJson⟩ (.cons ⟨rfl, Json.spelledArray_map ih⟩ .nil)
      | star => exact .nil
    rw [spelled_eq, toJson_eq_written]
    exact Json.spelledRecord_written (.cons ⟨rfl, rfl⟩ hfields)

/-- A source spells itself as it is written. -/
theorem TableRef.spelled_toJson (t : TableRef) : t.Spelled t.toJson := by
  rw [toJson_eq_written]
  exact Json.spelledRecord_written (.cons ⟨rfl, rfl⟩
    (.cons (Slot.admits_optional_eq .string "alias" t.alias?) (.cons ⟨rfl, .inl rfl⟩
      (.cons (Slot.admits_optional Expr.spelled_toJson "join_condition" t.condition) .nil))))

theorem OrderItem.spelled_toJson (item : OrderItem) : item.Spelled item.toJson := by
  have hfields : List.Forall₂ Slot.Admits item.slots
      [("expression", some item.expr.toJson), ("descending", some (.bool item.descending))] :=
    .cons ⟨rfl, item.expr.spelled_toJson⟩ (.cons ⟨rfl, rfl⟩ .nil)
  exact Json.spelledRecord_written hfields

/-- **The encoding of a statement spells it.** -/
theorem Select.spelled_toJson (s : Select) : s.Spelled s.toJson := by
  have hsources : ∀ tables, TableRef.SpelledList tables (TableRef.listToJson tables) :=
    fun _ => Json.spelledRecord_single (Json.spelledArray_map fun t _ => t.spelled_toJson)
  have hfilter : ∀ condition, SpelledFilter condition (filterToJson condition) :=
    fun condition => Json.spelledRecord_single condition.spelled_toJson
  have hexprs : ∀ es : List Expr,
      SpelledArray (List.Forall₂ Expr.Spelled es) (.array (es.map Expr.toJson)) :=
    fun _ => Json.spelledArray_map fun e _ => e.spelled_toJson
  have horder : SpelledArray (List.Forall₂ OrderItem.Spelled s.orderBy)
      (.array (s.orderBy.map OrderItem.toJson)) :=
    Json.spelledArray_map fun item _ => item.spelled_toJson
  rw [toJson_eq_written]
  exact Json.spelledRecord_written (.cons ⟨rfl, hexprs s.items⟩ (.cons ⟨rfl, rfl⟩
    (.cons (Slot.admits_optional hsources "from" s.sources)
      (.cons (Slot.admits_optional hfilter "where_clause" s.filter)
        (.cons ⟨rfl, hexprs s.groupBy⟩
          (.cons (Slot.admits_optional Expr.spelled_toJson "having" s.having)
            (.cons ⟨rfl, horder⟩
              (.cons (Slot.admits_optional_eq wordToJson "limit" s.limit)
                (.cons (Slot.admits_optional_eq wordToJson "offset" s.offset) .nil)))))))))

/-! ## Texts -/

theorem JoinKind.plain_of_spelled (kind : JoinKind) (j : Json) (h : kind.Spelled j) : j.Plain := by
  rcases h with rfl | ⟨-, rfl⟩ <;> trivial

theorem TableRef.plain_of_spelled (t : TableRef) (j : Json) (h : t.Spelled j) : j.Plain := by
  refine h.plain ?_
  simp only [slots, plainSlots_cons, plainSlots_nil, and_true]
  exact ⟨plain_of_eq_string t.name, Json.plain_optional_slot plain_of_eq_string "alias" t.alias?,
    t.join.plain_of_spelled,
    Json.plain_optional_slot Expr.plain_of_spelled "join_condition" t.condition⟩

theorem OrderItem.plain_of_spelled (item : OrderItem) (j : Json) (h : item.Spelled j) :
    j.Plain := by
  refine h.plain ?_
  simp only [slots, plainSlots_cons, plainSlots_nil, and_true]
  exact ⟨item.expr.plain_of_spelled, plain_of_eq_bool item.descending⟩

/-- A statement is plain in each of its spellings. -/
theorem Select.plain_of_spelled (s : Select) (j : Json) (h : s.Spelled j) : j.Plain := by
  have hexprs : ∀ (es : List Expr) (i : Json),
      SpelledArray (List.Forall₂ Expr.Spelled es) i → i.Plain :=
    fun _ => Json.plain_of_spelledArray fun e _ => e.plain_of_spelled
  have hsources : ∀ tables i, TableRef.SpelledList tables i → i.Plain :=
    fun _ _ hi => hi.plain_single (Json.plain_of_spelledArray fun t _ => t.plain_of_spelled)
  have hfilter : ∀ condition i, SpelledFilter condition i → i.Plain :=
    fun condition _ hi => hi.plain_single condition.plain_of_spelled
  have hword : ∀ (n : UInt64) (i : Json), i = wordToJson n → i.Plain := by
    rintro n _ rfl
    exact ⟨n.toNat, n.toNat_lt, rfl⟩
  refine h.plain ?_
  simp only [slots, plainSlots_cons, plainSlots_nil, and_true]
  exact ⟨hexprs s.items, plain_of_eq_bool s.distinct,
    Json.plain_optional_slot hsources "from" s.sources,
    Json.plain_optional_slot hfilter "where_clause" s.filter, hexprs s.groupBy,
    Json.plain_optional_slot Expr.plain_of_spelled "having" s.having,
    Json.plain_of_spelledArray fun item _ => item.plain_of_spelled,
    Json.plain_optional_slot hword "limit" s.limit,
    Json.plain_optional_slot hword "offset" s.offset⟩

/-- A text of a spelling is read as what is spelled. -/
theorem Expr.ofDocument_of_spelled {e : Expr} {j : Json} (h : e.Spelled j)
    (hdepth : j.depth ≤ Json.maxDepth) {text : String} (htext : Json.read? text = some j) :
    ofDocument text = .ok e := by
  rw [ofDocument, htext, Option.bind_some, e.readsSpelled Json.maxDepth j h hdepth]

/-- A text that is read as a spelling of a statement, within the limit, is a document of it. -/
theorem Select.ofDocument_of_spelled {s : Select} {j : Json} (h : s.Spelled j)
    (hdepth : j.depth ≤ Json.maxDepth) {text : String} (htext : Json.read? text = some j) :
    ofDocument text = .ok s := by
  have hread : ofJson? Json.maxDepth j = some s := s.readsSpelled 123 j h hdepth
  rw [ofDocument, htext, Option.bind_some, hread]

/-- **Decoding does not depend on the spelling.** The compact text of a value that spells an
expression or statement is read as that expression or statement when it nests within the limit, and
so is every other text of that value. The encoding is one of these values. -/
theorem spellings_decode :
    (∀ (e : Expr) (j : Json), e.Spelled j →
      (Json.nesting j.render ≤ Json.maxDepth → Expr.ofDocument j.render = .ok e) ∧
      (j.depth ≤ Json.maxDepth →
        ∀ text, Json.read? text = some j → Expr.ofDocument text = .ok e)) ∧
    (∀ (s : Select) (j : Json), s.Spelled j →
      (Json.nesting j.render ≤ Json.maxDepth → Select.ofDocument j.render = .ok s) ∧
      (j.depth ≤ Json.maxDepth →
        ∀ text, Json.read? text = some j → Select.ofDocument text = .ok s)) ∧
    (∀ e : Expr, e.Spelled e.toJson) ∧ ∀ s : Select, s.Spelled s.toJson := by
  refine ⟨fun e j hj => ⟨fun hnesting => ?_, fun hdepth _ => Expr.ofDocument_of_spelled hj hdepth⟩,
    fun s j hj => ⟨fun hnesting => ?_, fun hdepth _ => Select.ofDocument_of_spelled hj hdepth⟩,
    Expr.spelled_toJson, Select.spelled_toJson⟩
  · have hplain := e.plain_of_spelled j hj
    rw [Json.nesting_render hplain] at hnesting
    exact Expr.ofDocument_of_spelled hj hnesting (Json.read?_render hplain)
  · have hplain := s.plain_of_spelled j hj
    rw [Json.nesting_render hplain] at hnesting
    exact Select.ofDocument_of_spelled hj hnesting (Json.read?_render hplain)

/-- Orders whose status is not zero. -/
def openOrders : Select where
  items := [.call "COUNT" [.star] false]
  sources := some [{ name := "orders", alias? := some "o" }]
  filter := some (.binary (.column ⟨some "o", "status"⟩) .neq (.literal ⟨"0", .unknown⟩))

/-- Their condition with its members in reverse and a foreign one before them, the sides as arrays
and the other symbol of inequality. -/
def openStatusSpelling : Json :=
  .object [("note", .bool true),
    ("right", .array [.string "literal", .string "0", .string "UNKNOWN"]),
    ("operator", .string "!="),
    ("left", .array [.string "column_reference", .string "o", .string "status"]),
    ("type", .string "binary_expression")]

/-- The statement with its clauses in reverse, most records as arrays and no defaults. -/
def openOrdersSpelling : Json :=
  .object [("where_clause", .array [openStatusSpelling]),
    ("from", .array [.array [.array [.string "orders", .string "o", .string "NONE", .null]]]),
    ("select_list", .array [.array [.string "function_call", .string "COUNT",
      .array [.array [.string "star"]], .bool false]])]

/-- Members may stand in reverse, the unknown ones in front. -/
theorem spelled_reverse {slots : List Slot} {fields : List (String × Option Json)}
    (hfields : List.Forall₂ Slot.Admits slots fields) {unknown : List (String × Json)}
    (hunknown : ∀ m ∈ unknown, m.1 ∉ slots.map Slot.name ∧ m.2.Plain) :
    SpelledRecord slots (.object (written fields ++ unknown).reverse) :=
  .object hfields hunknown (List.reverse_perm _)

/-- The condition is spelled like that: its members may stand in reverse, and a foreign one with
them. -/
theorem spelled_openStatus :
    (Expr.binary (.column ⟨some "o", "status"⟩) .neq (.literal ⟨"0", .unknown⟩)).Spelled
      openStatusSpelling := by
  have hfields : List.Forall₂ Slot.Admits
      [.required "type" (· = .string Expr.Form.binary.name),
        .required "left" (Expr.column ⟨some "o", "status"⟩).Spelled,
        .required "operator" BinaryOp.neq.Spelled,
        .required "right" (Expr.literal ⟨"0", .unknown⟩).Spelled]
      [("type", some (.string "binary_expression")),
        ("left", some (.array [.string "column_reference", .string "o", .string "status"])),
        ("operator", some (.string "!=")),
        ("right", some (.array [.string "literal", .string "0", .string "UNKNOWN"]))] :=
    .cons ⟨rfl, rfl⟩ (.cons ⟨rfl, .array (.cons rfl (.cons rfl (.cons rfl .nil)))⟩
      (.cons ⟨rfl, .inr ⟨rfl, rfl⟩⟩
        (.cons ⟨rfl, .array (.cons rfl (.cons rfl (.cons rfl .nil)))⟩ .nil)))
  have hunknown : ∀ m ∈ [("note", Json.bool true)],
      m.1 ∉ ["type", "left", "operator", "right"] ∧ m.2.Plain := by
    intro m hm
    rw [List.mem_singleton.1 hm]
    exact ⟨by decide, trivial⟩
  exact spelled_reverse hfields hunknown

/-- The statement is spelled like that: every clause that is missing holds its default. -/
theorem spelled_openOrders : openOrders.Spelled openOrdersSpelling := by
  have hstar : Expr.star.Spelled (.array [.string "star"]) := .array (.cons rfl .nil)
  have hcount : (Expr.call "COUNT" [.star] false).Spelled
      (.array [.string "function_call", .string "COUNT", .array [.array [.string "star"]],
        .bool false]) :=
    .array (.cons rfl (.cons rfl
      (.cons (Expr.spelledEach_iff.2 (.cons hstar .nil)) (.cons rfl .nil))))
  have horders : TableRef.Spelled { name := "orders", alias? := some "o" }
      (.array [.string "orders", .string "o", .string "NONE", .null]) :=
    .array (.cons rfl (.cons rfl (.cons (.inr ⟨rfl, rfl⟩) (.cons rfl .nil))))
  have hfrom : TableRef.SpelledList [{ name := "orders", alias? := some "o" }]
      (.array [.array [.array [.string "orders", .string "o", .string "NONE", .null]]]) :=
    .array (.cons (List.Forall₂.cons horders .nil) .nil)
  have hfilter : Select.SpelledFilter
      (.binary (.column ⟨some "o", "status"⟩) .neq (.literal ⟨"0", .unknown⟩))
      (.array [openStatusSpelling]) :=
    .array (.cons spelled_openStatus .nil)
  have hfields : List.Forall₂ Slot.Admits openOrders.slots
      [("select_list", some (.array [.array [.string "function_call", .string "COUNT",
          .array [.array [.string "star"]], .bool false]])),
        ("distinct", none),
        ("from", some (.array [.array [.array [.string "orders", .string "o", .string "NONE",
          .null]]])),
        ("where_clause", some (.array [openStatusSpelling])), ("group_by", none),
        ("having", none), ("order_by", none), ("limit", none), ("offset", none)] :=
    .cons ⟨rfl, List.Forall₂.cons hcount .nil⟩ (.cons ⟨rfl, rfl⟩ (.cons ⟨rfl, hfrom⟩
      (.cons ⟨rfl, hfilter⟩ (.cons ⟨rfl, rfl⟩ (.cons ⟨rfl, trivial⟩ (.cons ⟨rfl, rfl⟩
        (.cons ⟨rfl, trivial⟩ (.cons ⟨rfl, trivial⟩ .nil))))))))
  exact spelled_reverse hfields (List.forall_mem_nil _)

/-- The mixed spelling is read as the statement, in compact text and in pretty text. -/
theorem spellings_decode_openOrders :
    openOrders.Spelled openOrdersSpelling ∧ Json.nesting openOrdersSpelling.render = 5 ∧
    Select.ofDocument openOrdersSpelling.render = .ok openOrders ∧
    Select.ofDocument openOrdersSpelling.renderPretty = .ok openOrders ∧
    Expr.ofDocument openStatusSpelling.render =
      .ok (.binary (.column ⟨some "o", "status"⟩) .neq (.literal ⟨"0", .unknown⟩)) ∧
    Expr.ofDocument openStatusSpelling.renderPretty =
      .ok (.binary (.column ⟨some "o", "status"⟩) .neq (.literal ⟨"0", .unknown⟩)) := by
  have hplain := Select.plain_of_spelled openOrders _ spelled_openOrders
  have hstatusPlain := Expr.plain_of_spelled _ _ spelled_openStatus
  have hnesting : Json.nesting openOrdersSpelling.render = 5 := by
    rw [Json.nesting_render hplain]
    decide
  have hstatusNesting : Json.nesting openStatusSpelling.render = 2 := by
    rw [Json.nesting_render hstatusPlain]
    decide
  obtain ⟨hcompact, hany⟩ := spellings_decode.2.1 openOrders _ spelled_openOrders
  obtain ⟨hstatusCompact, hstatusAny⟩ := spellings_decode.1 _ _ spelled_openStatus
  exact ⟨spelled_openOrders, hnesting, hcompact (by rw [hnesting]; decide),
    hany (by decide) _ (Json.read?_renderPretty hplain),
    hstatusCompact (by rw [hstatusNesting]; decide),
    hstatusAny (by decide) _ (Json.read?_renderPretty hstatusPlain)⟩

end QuerySplit
