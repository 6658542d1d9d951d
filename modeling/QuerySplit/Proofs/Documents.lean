import QuerySplit.Expr.Walk
import QuerySplit.Proofs.JsonRecords
import QuerySplit.Proofs.JsonText
import QuerySplit.Select.Document

/-!
# Documents are read back

The document of an expression or statement is read back as the same tree when its text nests
within the limit, and is refused when it nests deeper (`ofDocument_document`). No tree is ever
read as a different one.

An expression within another one is decoded by its form, so the decoder has to recover the form
and the fields (`tagged?_toJson`), then the node from its fields (`ofPayload?_written`), and so by
induction on the levels left the whole tree (`keptOfJson?_toJson`). The records of a statement are
put together field by field, each with the room that is left at its place.
-/

set_option autoImplicit false

namespace QuerySplit

open Json (Reads ReadsField written fields?_written depth_written_le_iff fieldDepth Reading)

/-! ## Names -/

theorem BinaryOp.reads (reading : Reading) (room : Nat) :
    Reads (BinaryOp.ofJson? reading) BinaryOp.toJson room :=
  Json.reads_choice (fun op => by cases op <;> rfl) reading room

theorem LiteralKind.reads (reading : Reading) (room : Nat) :
    Reads (LiteralKind.ofJson? reading) LiteralKind.toJson room :=
  Json.reads_choice (fun kind => by cases kind <;> rfl) reading room

theorem JoinKind.reads (room : Nat) : Reads JoinKind.ofJson? JoinKind.toJson room :=
  Json.reads_choice (fun kind => by cases kind <;> rfl) .direct room

/-! ## Columns and literals -/

theorem ColumnRef.ofJson?_toJson (c : ColumnRef) : ofJson? c.toJson = some c := by
  obtain ⟨table, column⟩ := c
  cases table <;> rfl

theorem ColumnRef.plain_members (c : ColumnRef) : Json.PlainMembers c.members := by
  obtain ⟨table, column⟩ := c
  cases table with
  | none => exact ⟨trivial, trivial⟩
  | some table => exact ⟨trivial, trivial, trivial⟩

/-- A literal is decoded from its value and the name of its kind. -/
theorem Literal.ofJson?_toJson (reading : Reading) (v : Literal) :
    ofJson? reading v.toJson = some v := by
  have hfields : v.toJson.fields? ["value", "literal_type"] =
      some [some (.string v.value), some v.kind.toJson] := rfl
  have hvalue : Json.required Json.string? (some (.string v.value)) = some v.value := rfl
  have hkind : Json.defaulted .unknown (LiteralKind.ofJson? reading) (some v.kind.toJson) =
      some v.kind := LiteralKind.reads reading 0 v.kind
  simp only [ofJson?, hfields, hvalue, hkind, Option.bind_eq_bind, Option.bind_some,
    Option.pure_def]

namespace Expr

theorem Form.ofTag?_name (reading : Reading) (form : Form) :
    Form.ofTag? reading (.string form.name) = some form := by
  cases form <;> rfl

/-- The names of the fields of a form, in declared order. -/
def Form.fieldNames : Form → List String
  | .binary => ["left", "operator", "right"]
  | .column => ["table", "column"]
  | .literal => ["value", "literal_type"]
  | .call => ["name", "args", "distinct"]
  | .membership => ["column", "values"]
  | .star => []

/-- No two fields of a form have one name, so a field is found by its name. -/
theorem Form.nodup_fieldNames (form : Form) : form.fieldNames.Nodup := by
  cases form <;> decide

/-- The member that names the form cannot be taken for a field. -/
theorem Form.type_notMem_fieldNames (form : Form) : "type" ∉ form.fieldNames := by
  cases form <;> decide

/-! ## The form and the fields of a node -/

def form : Expr → Form
  | .binary .. => .binary
  | .column _ => .column
  | .literal _ => .literal
  | .call .. => .call
  | .membership .. => .membership
  | .star => .star

/-- The fields of a node by name, without its form. -/
def fields : Expr → List (String × Option Json)
  | .binary left op right =>
    [("left", some left.toJson), ("operator", some op.toJson), ("right", some right.toJson)]
  | .column c => [("table", c.table.map .string), ("column", some (.string c.column))]
  | .literal v => [("value", some (.string v.value)), ("literal_type", some v.kind.toJson)]
  | .call name args distinct =>
    [("name", some (.string name)), ("args", some (.array (args.map toJson))),
      ("distinct", some (.bool distinct))]
  | .membership c values =>
    [("column", some c.toJson), ("values", some (.array (values.map toJson)))]
  | .star => []

theorem toJsonList_eq_map (es : List Expr) : toJsonList es = es.map toJson := by
  induction es with
  | nil => rfl
  | cons e rest ih => rw [toJsonList, ih, List.map_cons]

/-- A node is written as the record of its fields, after the member that names its form. -/
theorem toJson_eq_written (e : Expr) :
    e.toJson = .object (written (("type", some (.string e.form.name)) :: e.fields)) := by
  cases e with
  | call name args distinct => rw [toJson, toJsonList_eq_map]; rfl
  | membership c values => rw [toJson, toJsonList_eq_map]; rfl
  | _ => rfl

theorem fieldNames_eq (e : Expr) : e.fields.map (·.1) = e.form.fieldNames := by
  cases e <;> rfl

theorem type_notMem_fields (e : Expr) : "type" ∉ e.fields.map (·.1) := by
  rw [fieldNames_eq]
  exact e.form.type_notMem_fieldNames

/-- **The form of a node and its fields are separated again.** -/
theorem tagged?_toJson (reading : Reading) (e : Expr) :
    tagged? reading e.toJson = some (e.form, .object (written e.fields)) := by
  have hother : ∀ m ∈ written e.fields, m.1 ≠ "type" := by
    intro m hm hname
    exact e.type_notMem_fields (hname ▸ Json.name_of_mem_written hm)
  have hcount : Json.count "type" (("type", .string e.form.name) :: written e.fields) = 1 := by
    have hrest := Json.count_eq_zero hother
    rw [← List.singleton_append, Json.count_append, hrest]
    rfl
  have hmember : Json.member? "type" (("type", .string e.form.name) :: written e.fields) =
      some (.string e.form.name) := by
    rw [Json.member?, if_pos rfl]
  have hfilter : (written e.fields).filter (·.1 != "type") = written e.fields := by
    refine List.filter_eq_self.2 fun m hm => ?_
    simpa using hother m hm
  have htag : ("type" != "type") = false := by decide
  rw [toJson_eq_written, Json.written_cons]
  show tagged? reading (.object (("type", .string e.form.name) :: written e.fields)) = _
  rw [tagged?, if_pos hcount, hmember]
  simp only [Option.bind_eq_bind, Option.bind_some, Form.ofTag?_name, Option.pure_def,
    List.filter_cons, htag, Bool.false_eq_true, if_false, hfilter]

/-! ## Expressions -/

/-- The fields of a node are found by their names. -/
theorem fields?_fields (e : Expr) :
    Json.fields? e.form.fieldNames (.object (written e.fields)) = some (e.fields.map (·.2)) :=
  fields?_written e.fieldNames_eq e.form.nodup_fieldNames

/-- **A node is decoded from its fields** when its children are. -/
theorem ofPayload?_written (reading : Reading) {child : Nat → Json → Option Expr} {e : Expr}
    (hchild : ∀ c ∈ e.children, ∀ levels, child levels c.toJson = some c) :
    ofPayload? reading child e.form (.object (written e.fields)) = some e := by
  have hfields := e.fields?_fields
  cases e with
  | binary left op right =>
    have hleft : child 1 left.toJson = some left := hchild left (by simp [children]) 1
    have hright : child 1 right.toJson = some right := hchild right (by simp [children]) 1
    have hop : BinaryOp.ofJson? reading op.toJson = some op := BinaryOp.reads reading 0 op
    simp only [form, Form.fieldNames, fields, List.map_cons, List.map_nil] at hfields
    simp only [form, ofPayload?, fields, hfields, Json.required, hleft, hop, hright,
      Option.bind_eq_bind, Option.bind_some, Option.pure_def]
  | column c =>
    show (ColumnRef.ofJson? c.toJson).map column = _
    rw [ColumnRef.ofJson?_toJson, Option.map_some]
  | literal v =>
    show (Literal.ofJson? reading v.toJson).map literal = _
    rw [Literal.ofJson?_toJson, Option.map_some]
  | call name args distinct =>
    have hargs : (args.map toJson).mapM (child 2) = some args :=
      Json.mapM_map_eq_some fun c hc => hchild c hc 2
    simp only [form, Form.fieldNames, fields, List.map_cons, List.map_nil] at hfields
    simp only [form, ofPayload?, fields, hfields, Json.required, Json.defaulted, Json.string?,
      Json.bool?, Json.list?, hargs, Option.bind_eq_bind, Option.bind_some, Option.pure_def]
  | membership c values =>
    have hvalues : (values.map toJson).mapM (child 2) = some values :=
      Json.mapM_map_eq_some fun v hv => hchild v hv 2
    simp only [form, Form.fieldNames, fields, List.map_cons, List.map_nil] at hfields
    simp only [form, ofPayload?, fields, hfields, Json.required, ColumnRef.ofJson?_toJson,
      Json.list?, hvalues, Option.bind_eq_bind, Option.bind_some, Option.pure_def]
  | star => rfl

theorem depth_toJson_le_iff {e : Expr} {n : Nat} :
    e.toJson.depth ≤ n + 1 ↔ ∀ field ∈ e.fields, fieldDepth field.2 ≤ n := by
  rw [toJson_eq_written, depth_written_le_iff, List.forall_mem_cons]
  simp [fieldDepth, Json.depth]

/-- Every expression opens a level. -/
theorem depth_toJson_pos (e : Expr) : 0 < e.toJson.depth := by
  rw [toJson_eq_written, Json.depth]
  exact Nat.succ_pos _

/-- Each child stands at least one level inside its parent. -/
theorem depth_child_le {e c : Expr} {n : Nat} (hc : c ∈ e.children)
    (h : e.toJson.depth ≤ n + 1) : c.toJson.depth ≤ n := by
  have hlist : ∀ es : List Expr, Json.depth (.array (es.map toJson)) ≤ n → c ∈ es →
      c.toJson.depth ≤ n := by
    intro es hes hmem
    rw [Json.depth] at hes
    exact Json.depthOfItems_le_iff.1 (Nat.le_of_succ_le hes) _ (List.mem_map_of_mem hmem)
  have hfields := depth_toJson_le_iff.1 h
  cases e with
  | binary left op right =>
    simp only [fields, List.forall_mem_cons, fieldDepth] at hfields
    rcases List.mem_cons.1 hc with rfl | hc
    · exact hfields.1
    · rw [List.mem_singleton.1 hc]
      exact hfields.2.2.1
  | call name args distinct =>
    simp only [fields, List.forall_mem_cons, fieldDepth] at hfields
    exact hlist args hfields.2.1 hc
  | membership column values =>
    simp only [fields, List.forall_mem_cons, fieldDepth] at hfields
    exact hlist values hfields.2.1 hc
  | column _ | literal _ | star => cases hc

/-- **A kept expression is decoded whole** when the levels reach to its innermost part. -/
theorem keptOfJson?_toJson (levels : Nat) {e : Expr} (h : e.toJson.depth ≤ levels) :
    keptOfJson? levels e.toJson = some e := by
  induction levels generalizing e with
  | zero => exact absurd e.depth_toJson_pos (by omega)
  | succ levels ih =>
    rw [keptOfJson?, tagged?_toJson]
    exact ofPayload?_written .kept fun c hc _ => ih (depth_child_le hc h)

mutual

/-- Expressions are written as plain values. -/
theorem plain_toJson : ∀ e : Expr, e.toJson.Plain
  | .binary left _ right => ⟨trivial, plain_toJson left, trivial, plain_toJson right, trivial⟩
  | .column c => ⟨trivial, c.plain_members⟩
  | .literal _ => ⟨trivial, trivial, trivial, trivial⟩
  | .call _ args _ => ⟨trivial, trivial, plain_toJsonList args, trivial, trivial⟩
  | .membership c values => ⟨trivial, c.plain_members, plain_toJsonList values, trivial⟩
  | .star => ⟨trivial, trivial⟩

theorem plain_toJsonList : ∀ es : List Expr, Json.PlainItems (toJsonList es)
  | [] => trivial
  | e :: rest => ⟨plain_toJson e, plain_toJsonList rest⟩

end

/-- **An expression is decoded where it fits**, and nowhere else. -/
theorem reads (room : Nat) : Reads (ofJson? room) toJson room := by
  intro e
  rw [ofJson?, Json.fits_of_plain e.plain_toJson]
  by_cases h : e.toJson.depth ≤ room
  · have hchild : ∀ c ∈ e.children, ∀ levels : Nat, keptOfJson? room c.toJson = some c := by
      intro c hc _
      exact keptOfJson?_toJson room (depth_child_le hc (Nat.le_succ_of_le h))
    rw [if_pos h, decide_eq_true h, if_pos rfl, tagged?_toJson]
    exact ofPayload?_written .kept hchild
  · rw [if_neg h, decide_eq_false h, if_neg Bool.false_ne_true]

theorem toJson_ne_null (e : Expr) : e.toJson ≠ .null := by
  rw [toJson_eq_written]
  exact Json.noConfusion

end Expr

/-! ## The records of a statement -/

namespace TableRef

def fields (t : TableRef) : List (String × Option Json) :=
  [("name", some (.string t.name)), ("alias", t.alias?.map .string),
    ("join_type", some t.join.toJson), ("join_condition", t.condition.map Expr.toJson)]

theorem toJson_eq_written (t : TableRef) : t.toJson = .object (written t.fields) := by
  rw [toJson, fields]
  cases t.condition <;> simp [written, Json.given]

theorem reads (k : Nat) : Reads (ofJson? (k + 1)) toJson (k + 1) := by
  intro t
  have hfields : Json.fields? ["name", "alias", "join_type", "join_condition"]
      (.object (written t.fields)) = some (t.fields.map (·.2)) := fields?_written rfl (by decide)
  have hname := (Json.reads_string k).required t.name
  have halias := (Json.reads_string k).optional (fun _ => Json.noConfusion) t.alias?
  have hjoin := (JoinKind.reads k).defaulted .none t.join
  have hcondition := (Expr.reads k).optional Expr.toJson_ne_null t.condition
  rw [toJson_eq_written, ofJson?, hfields]
  simp only [fields, List.map_cons, List.map_nil, Option.bind_eq_bind, Option.bind_some,
    Nat.add_sub_cancel]
  rw [hname.bind, halias.bind, hjoin.bind, hcondition.bind]
  simp only [Json.ite_ite_none, depth_written_le_iff, List.forall_mem_cons, List.not_mem_nil,
    false_implies, implies_true, and_true]
  rfl

theorem plain_toJson (t : TableRef) : t.toJson.Plain := by
  rw [toJson_eq_written]
  have hstring : ∀ text : String, (Json.string text).Plain := fun _ => trivial
  refine Json.plain_written ?_
  rw [fields, List.forall_mem_cons, List.forall_mem_cons, List.forall_mem_cons,
    List.forall_mem_singleton]
  exact ⟨Json.plain_some (hstring t.name), Json.plain_optional hstring t.alias?,
    Json.plain_some trivial, Json.plain_optional Expr.plain_toJson t.condition⟩

/-- The `FROM` clause. -/
theorem reads_list (k : Nat) : Reads (listOfJson? (k + 3)) listToJson (k + 3) :=
  (reads k).list.single "tables"

end TableRef

namespace OrderItem

theorem reads (k : Nat) : Reads (ofJson? (k + 1)) toJson (k + 1) := by
  intro item
  have hfields : Json.fields? ["expression", "descending"]
      (.object (written [("expression", some item.expr.toJson),
        ("descending", some (.bool item.descending))])) =
      some [some item.expr.toJson, some (.bool item.descending)] := fields?_written rfl (by decide)
  have hexpr := (Expr.reads k).required item.expr
  have hdescending := (Json.reads_bool k).defaulted false item.descending
  have hwritten : item.toJson = .object (written [("expression", some item.expr.toJson),
      ("descending", some (.bool item.descending))]) := rfl
  rw [hwritten, ofJson?, hfields]
  simp only [Option.bind_eq_bind, Option.bind_some, Nat.add_sub_cancel]
  rw [hexpr.bind, hdescending.bind]
  simp only [Json.ite_ite_none, depth_written_le_iff, List.forall_mem_cons, List.not_mem_nil,
    false_implies, implies_true, and_true]
  rfl

end OrderItem

namespace Select

/-- The `WHERE` clause. -/
theorem reads_filter (k : Nat) : Reads (filterOfJson? (k + 1)) filterToJson (k + 1) :=
  (Expr.reads k).single "condition"

def fields (s : Select) : List (String × Option Json) :=
  [("select_list", some (.array (s.items.map Expr.toJson))), ("distinct", some (.bool s.distinct)),
    ("from", s.sources.map TableRef.listToJson), ("where_clause", s.filter.map filterToJson),
    ("group_by", some (.array (s.groupBy.map Expr.toJson))),
    ("having", s.having.map Expr.toJson),
    ("order_by", some (.array (s.orderBy.map OrderItem.toJson))),
    ("limit", s.limit.map wordToJson), ("offset", s.offset.map wordToJson)]

theorem toJson_eq_written (s : Select) : s.toJson = .object (written s.fields) := by
  rw [toJson, fields, Expr.toJsonList_eq_map, Expr.toJsonList_eq_map]
  simp only [written, List.flatMap_cons, List.flatMap_nil, List.append_assoc, List.append_nil]
  rfl

/-- **A statement is decoded where it fits**, and nowhere else. Four levels are those of a join
condition: inside the statement, its `FROM` clause, the list of sources and the source. -/
theorem reads (k : Nat) : Reads (ofJson? (k + 4)) toJson (k + 4) := by
  intro s
  have hfields : Json.fields? ["select_list", "distinct", "from", "where_clause", "group_by",
      "having", "order_by", "limit", "offset"] (.object (written s.fields)) =
      some (s.fields.map (·.2)) := fields?_written rfl (by decide)
  have hitems := (Expr.reads (k + 2)).list.required s.items
  have hdistinct := (Json.reads_bool (k + 3)).defaulted false s.distinct
  have hsources := (TableRef.reads_list k).optional (fun _ => Json.noConfusion) s.sources
  have hfilter := (reads_filter (k + 2)).optional (fun _ => Json.noConfusion) s.filter
  have hgroupBy := (Expr.reads (k + 2)).list.defaulted [] s.groupBy
  have hhaving := (Expr.reads (k + 3)).optional Expr.toJson_ne_null s.having
  have horderBy := (OrderItem.reads (k + 1)).list.defaulted [] s.orderBy
  have hword : Reads Json.word? wordToJson (k + 3) := Json.reads_word (k + 3)
  have hlimit := hword.optional (fun _ => Json.noConfusion) s.limit
  have hoffset := hword.optional (fun _ => Json.noConfusion) s.offset
  have hone : k + 4 - 1 = k + 3 := rfl
  have htwo : k + 4 - 2 = k + 2 := rfl
  rw [toJson_eq_written, ofJson?, hfields, hone, htwo]
  simp only [fields, List.map_cons, List.map_nil, Option.bind_eq_bind, Option.bind_some]
  rw [hitems.bind, hdistinct.bind, hsources.bind, hfilter.bind, hgroupBy.bind, hhaving.bind,
    horderBy.bind, hlimit.bind, hoffset.bind]
  simp only [Json.ite_ite_none, depth_written_le_iff, List.forall_mem_cons, List.not_mem_nil,
    false_implies, implies_true, and_true]
  rfl

theorem plain_toJson (s : Select) : s.toJson.Plain := by
  have hitem : ∀ item : OrderItem, item.toJson.Plain :=
    fun item => ⟨item.expr.plain_toJson, trivial, trivial⟩
  have hsources : ∀ tables : List TableRef, (TableRef.listToJson tables).Plain :=
    fun tables => ⟨Json.plain_array TableRef.plain_toJson tables, trivial⟩
  have hfilter : ∀ condition : Expr, (filterToJson condition).Plain :=
    fun condition => ⟨condition.plain_toJson, trivial⟩
  have hword : ∀ n : UInt64, (wordToJson n).Plain := fun n => ⟨n.toNat, n.toNat_lt, rfl⟩
  rw [toJson_eq_written]
  refine Json.plain_written ?_
  simp only [fields, List.forall_mem_cons, List.not_mem_nil, false_implies, implies_true,
    and_true]
  refine ⟨?_, ?_, ?_, ?_, ?_, ?_, ?_, ?_, ?_⟩
  · exact Json.plain_some (Json.plain_array Expr.plain_toJson s.items)
  · exact Json.plain_some trivial
  · exact Json.plain_optional hsources s.sources
  · exact Json.plain_optional hfilter s.filter
  · exact Json.plain_some (Json.plain_array Expr.plain_toJson s.groupBy)
  · exact Json.plain_optional Expr.plain_toJson s.having
  · exact Json.plain_some (Json.plain_array hitem s.orderBy)
  · exact Json.plain_optional hword s.limit
  · exact Json.plain_optional hword s.offset

end Select

/-! ## Texts -/

/-- A text that was printed from a plain value is decoded where it nests within the room. -/
theorem Json.Reads.read?_render {α : Type} {decode : Json → Option α} {encode : α → Json}
    {room : Nat} (h : Reads decode encode room) {a : α} (hplain : (encode a).Plain) :
    (Json.read? (encode a).render).bind decode =
      if Json.nesting (encode a).render ≤ room then some a else none := by
  rw [Json.read?_render hplain, Option.bind_some, h a, Json.nesting_render hplain]

/-- The document of an expression is read back where it nests within the limit. -/
theorem Expr.ofDocument_document (e : Expr) :
    ofDocument e.document =
      if Json.nesting e.document ≤ Json.maxDepth then .ok e
      else .error (.serialization "decoding expression") := by
  have hread := (reads Json.maxDepth).read?_render e.plain_toJson
  rw [ofDocument, document, hread]
  by_cases hnesting : Json.nesting e.toJson.render ≤ Json.maxDepth
  · simp only [if_pos hnesting]
  · simp only [if_neg hnesting]

/-- The document of a statement is read back where it nests within the limit. -/
theorem Select.ofDocument_document (s : Select) :
    ofDocument s.document =
      if Json.nesting s.document ≤ Json.maxDepth then .ok s
      else .error (.serialization "decoding select statement") := by
  have hreads : Reads (ofJson? Json.maxDepth) toJson Json.maxDepth := reads 123
  have hread := hreads.read?_render s.plain_toJson
  rw [ofDocument, document, hread]
  by_cases hnesting : Json.nesting s.toJson.render ≤ Json.maxDepth
  · simp only [if_pos hnesting]
  · simp only [if_neg hnesting]

/-- **Documents round-trip.** The document of an expression and that of a statement are read back
as the same tree when they nest within the limit, and are refused when they nest deeper. -/
theorem documents_round_trip (e : Expr) (s : Select) :
    (Expr.ofDocument e.document =
      if Json.nesting e.document ≤ Json.maxDepth then .ok e
      else .error (.serialization "decoding expression")) ∧
    (Select.ofDocument s.document =
      if Json.nesting s.document ≤ Json.maxDepth then .ok s
      else .error (.serialization "decoding select statement")) :=
  ⟨e.ofDocument_document, s.ofDocument_document⟩

end QuerySplit
