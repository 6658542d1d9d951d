import Mathlib.Data.List.Basic
import QuerySplit.Catalog.Document
import QuerySplit.Dialect.Document
import QuerySplit.Proofs.RereadDocuments
import QuerySplit.Proofs.SettingsDocuments
import QuerySplit.Split.Document

/-!
# Metadata and splits are read back

A record of the catalog, a dialect and the records of a split are decoded back from their compact
texts. `Json.ReadsBack` says it of one value: its encoding decodes to it and is plain, so that the
text of the encoding is read back as well. The law of a record is put together from those of its
fields (`Json.ReadsBack.record`), whether a field always has a value, may go without one or has a
default.

The unique keys of a variant are a set. A document may list them in any order and more than once
(`Variant.listedKeys?`); a set that is printed and read again is the same set
(`NameSet.ofList_toList`), and what is printed ascends.

Main statement: `metadata_documents_round_trip`.
-/

set_option autoImplicit false

namespace QuerySplit

/-! ## Values that are read back -/

namespace Json

variable {α : Type} {decode : Json → Option α} {encode : α → Json} {a : α}

/-- The encoding of a value decodes to that value and is plain. -/
structure ReadsBack (decode : Json → Option α) (encode : α → Json) (a : α) : Prop where
  decoded : decode (encode a) = some a
  plain : (encode a).Plain

/-- A field of a record decodes to a value and is plain where it has a value. -/
structure FieldReadsBack (decode : Option Json → Option α) (field : Option Json) (a : α) :
    Prop where
  decoded : decode field = some a
  plain : ∀ j ∈ field, j.Plain

/-- **The compact text of such a value is decoded to it.** -/
theorem ReadsBack.text (h : ReadsBack decode encode a) :
    (read? (encode a).render).bind decode = some a := by
  rw [read?_render h.plain, Option.bind_some, h.decoded]

/-- A string is read back. -/
theorem readsBack_string (s : String) : ReadsBack string? .string s :=
  ⟨rfl, trivial⟩

/-- A truth value is read back. -/
theorem readsBack_bool (b : Bool) : ReadsBack bool? .bool b :=
  ⟨rfl, trivial⟩

/-- A choice is read back from its name. -/
theorem readsBack_choice {ofName? : String → Option α} {name : α → String} {reading : Reading}
    (h : ofName? (name a) = some a) :
    ReadsBack (choice? reading ofName?) (fun a => .string (name a)) a :=
  ⟨h, trivial⟩

/-- A number of a machine word. -/
theorem readsBack_word (n : UInt64) : ReadsBack word? (fun n => natural n.toNat) n where
  decoded := (reads_word 0 n).trans (if_pos (Nat.le_refl 0))
  plain := ⟨n.toNat, n.toNat_lt, rfl⟩

/-- A list is read back when its items are. -/
theorem ReadsBack.list (h : ∀ a, ReadsBack decode encode a) (as : List α) :
    ReadsBack (list? decode) (fun as => .array (as.map encode)) as where
  decoded := mapM_map_eq_some fun a _ => (h a).decoded
  plain := plain_array (fun a => (h a).plain) as

/-- A required field is read back when its value is. -/
theorem ReadsBack.required (h : ReadsBack decode encode a) :
    FieldReadsBack (required decode) (some (encode a)) a :=
  ⟨h.decoded, plain_some h.plain⟩

/-- A field with a default is read back with the value that it was written with. -/
theorem ReadsBack.defaulted (h : ReadsBack decode encode a) (default : α) :
    FieldReadsBack (defaulted default decode) (some (encode a)) a :=
  ⟨h.decoded, plain_some h.plain⟩

/-- A field that is left out without a value, so no value may be written as `null`. -/
theorem ReadsBack.optional (h : ∀ a, ReadsBack decode encode a) (hnull : ∀ a, encode a ≠ .null)
    (value : Option α) : FieldReadsBack (optional decode) (value.map encode) value where
  decoded := by
    cases value with
    | none => rfl
    | some a => rw [Option.map_some, optional_some (hnull a), (h a).decoded, Option.map_some]
  plain := plain_optional (fun a => (h a).plain) value

/-- A text that may be missing. -/
theorem fieldReadsBack_text (value : Option String) :
    FieldReadsBack (optional string?) (value.map .string) value :=
  ReadsBack.optional readsBack_string (fun _ => Json.noConfusion) value

/-- **A record is read back** when its fields are: they are found again in the written object, and
the record is built from what they give. -/
theorem ReadsBack.record {names : List String} {build : List (Option Json) → Option α}
    (fields : List (String × Option Json))
    (hdecode : ∀ j, decode j = (fields? names j).bind build)
    (hencode : encode a = .object (written fields)) (hbuild : build (fields.map (·.2)) = some a)
    (hplain : fields.Forall fun field => ∀ j ∈ field.2, j.Plain)
    (hnames : fields.map (·.1) = names := by rfl) (hnodup : names.Nodup := by decide) :
    ReadsBack decode encode a where
  decoded := by rw [hdecode, hencode, fields?_written hnames hnodup, Option.bind_some, hbuild]
  plain := by
    rw [hencode]
    exact plain_written (List.forall_iff_forall_mem.1 hplain)

end Json

open Json (ReadsBack FieldReadsBack readsBack_string readsBack_bool written)

/-! ## Dialects -/

theorem Naming.readsBack (n : Naming) : ReadsBack ofJson? toJson n := by
  have hsuffix := (readsBack_string n.datasetSuffix).defaulted ({} : Naming).datasetSuffix
  refine .record [("dataset_suffix", some (.string n.datasetSuffix))] (fun _ => rfl) rfl ?_ ?_
  · simp only [List.map_cons, List.map_nil, hsuffix.decoded]
    rfl
  · exact hsuffix.plain

theorem Dialect.readsBack (d : Dialect) : ReadsBack ofJson? toJson d := by
  have hname := (readsBack_string d.name).required
  have hnaming := d.naming.readsBack.defaulted {}
  refine .record [("name", some (.string d.name)), ("federated_naming", some d.naming.toJson)]
    (fun _ => rfl) rfl ?_ ?_
  · simp only [List.map_cons, List.map_nil, hname.decoded, hnaming.decoded]
    rfl
  · exact ⟨hname.plain, hnaming.plain⟩

/-! ## Variants -/

/-- A format is read back from its name, and an uncommon one from the object around it. -/
theorem StorageFormat.readsBack (format : StorageFormat) : ReadsBack ofJson? toJson format where
  decoded := by cases format <;> rfl
  plain := by
    cases format with
    | other name => exact ⟨trivial, trivial⟩
    | _ => trivial

theorem Dimension.readsBack (d : Dimension) : ReadsBack ofJson? toJson d := by
  have hcolumn := (readsBack_string d.column).required
  have hpartitions := (readsBack_bool d.partitions).defaulted false
  have horganizes := (readsBack_bool d.organizes).defaulted false
  refine .record [("column_name", some (.string d.column)),
    ("is_partition_key", some (.bool d.partitions)), ("is_organized_by", some (.bool d.organizes))]
    (fun _ => rfl) rfl ?_ ?_
  · simp only [List.map_cons, List.map_nil, hcolumn.decoded, hpartitions.decoded,
      horganizes.decoded]
    rfl
  · exact ⟨hcolumn.plain, hpartitions.plain, horganizes.plain⟩

/-- A set is what its members make. -/
theorem Text.NameSet.ofList_toList (s : NameSet) : ofList s.toList = s := by
  have hfold : ofList s.toList = NameMap.ofList s.entries := List.foldl_map
  rw [hfold, NameMap.ofList_eq_of_perm (.refl _)]

namespace Variant

/-- The document of a variant that lists unique keys in a given order, some of them maybe more
than once. -/
def listing (v : Variant) (listed : List String) : Json :=
  .object [("base_name", .string v.base), ("suffix", .string v.suffix),
    ("format", v.format.toJson), ("dimensions", .array (v.dimensions.map Dimension.toJson)),
    ("unique_keys", .array (listed.map .string))]

/-- A variant lists its keys in ascending order. -/
theorem toJson_eq_listing (v : Variant) : v.toJson = v.listing v.uniqueKeys.toList :=
  rfl

/-- **However a document lists its keys, it is read as the set of them.** -/
theorem readsBack_listing (v : Variant) (listed : List String) :
    ReadsBack ofJson? (fun _ => v.listing listed)
      { v with uniqueKeys := Text.NameSet.ofList listed } := by
  have hbase := (readsBack_string v.base).required
  have hsuffix := (readsBack_string v.suffix).required
  have hformat := v.format.readsBack.defaulted .parquet
  have hdimensions := (ReadsBack.list Dimension.readsBack v.dimensions).defaulted []
  have hkeys := (ReadsBack.list readsBack_string listed).defaulted []
  refine .record [("base_name", some (.string v.base)), ("suffix", some (.string v.suffix)),
    ("format", some v.format.toJson),
    ("dimensions", some (.array (v.dimensions.map Dimension.toJson))),
    ("unique_keys", some (.array (listed.map .string)))] (fun _ => rfl) rfl ?_ ?_
  · simp only [List.map_cons, List.map_nil, hbase.decoded, hsuffix.decoded, hformat.decoded,
      hdimensions.decoded, hkeys.decoded]
    rfl
  · exact ⟨hbase.plain, hsuffix.plain, hformat.plain, hdimensions.plain, hkeys.plain⟩

/-- A variant is read back with its keys, which are written in ascending order. -/
theorem readsBack (v : Variant) : ReadsBack ofJson? toJson v := by
  have hread := v.readsBack_listing v.uniqueKeys.toList
  rw [v.uniqueKeys.ofList_toList] at hread
  exact ⟨hread.decoded, hread.plain⟩

/-- The unique keys that a document lists, in their order there; one without a list has none. -/
def listedKeys? (j : Json) : Option (List String) := do
  let [_, _, _, _, listed] ←
    j.fields? ["base_name", "suffix", "format", "dimensions", "unique_keys"] | none
  Json.defaulted [] (Json.list? Json.string?) listed

/-- The keys that a document lists are read off it in the order of the document. -/
theorem listedKeys?_listing (v : Variant) (listed : List String) :
    listedKeys? (v.listing listed) = some listed :=
  (ReadsBack.list readsBack_string listed).decoded

/-- The keys of a decoded variant are those that its document lists. -/
theorem exists_listedKeys? {j : Json} {v : Variant} (h : ofJson? j = some v) :
    ∃ listed, listedKeys? j = some listed ∧ v.uniqueKeys = Text.NameSet.ofList listed := by
  obtain ⟨given, hgiven, h⟩ := Option.bind_eq_some_iff.1 h
  split at h
  next base suffix format dimensions keys =>
    simp only [Option.bind_eq_bind, Option.bind_eq_some_iff, Option.pure_def,
      Option.some.injEq] at h
    obtain ⟨_, -, _, -, _, -, _, -, listed, hlisted, rfl⟩ := h
    refine ⟨listed, ?_, rfl⟩
    rw [listedKeys?, hgiven]
    exact hlisted
  next => cases h

/-- **A decoded variant is printed with its keys in ascending order**, each of them once. -/
theorem exists_listedKeys?_render {text : String} {v : Variant}
    (h : (Json.read? text).bind ofJson? = some v) :
    ∃ listed keys, (Json.read? text).bind listedKeys? = some listed ∧
      (Json.read? v.toJson.render).bind listedKeys? = some keys ∧
      keys.Pairwise (· < ·) ∧ ∀ k, k ∈ keys ↔ k ∈ listed := by
  obtain ⟨j, hj, hdecoded⟩ := Option.bind_eq_some_iff.1 h
  obtain ⟨listed, hlisted, hkeys⟩ := exists_listedKeys? hdecoded
  have hprinted : (Json.read? v.toJson.render).bind listedKeys? = some v.uniqueKeys.toList := by
    rw [Json.read?_render v.readsBack.plain, Option.bind_some, toJson_eq_listing,
      listedKeys?_listing]
  refine ⟨listed, v.uniqueKeys.toList, ?_, hprinted, v.uniqueKeys.toList_ascending, fun k => ?_⟩
  · rw [hj, Option.bind_some, hlisted]
  · rw [Text.NameSet.mem_toList, hkeys, Text.NameSet.mem_ofList]

end Variant

/-! ## Records of a split -/

theorem BinaryOp.readsBack (op : BinaryOp) : ReadsBack (ofJson? .direct) toJson op :=
  Json.readsBack_choice (by cases op <;> rfl)

theorem Literal.readsBack (v : Literal) : ReadsBack (ofJson? .direct) toJson v :=
  ⟨v.ofJson?_toJson .direct, trivial, trivial, trivial⟩

theorem FilterCondition.readsBack (c : FilterCondition) : ReadsBack ofJson? toJson c := by
  have hcolumn := (readsBack_string c.column).required
  have hop := c.op.readsBack.required
  have hvalue := c.value.readsBack.required
  refine .record [("column", some (.string c.column)), ("operator", some c.op.toJson),
    ("value", some c.value.toJson)] (fun _ => rfl) rfl ?_ ?_
  · simp only [List.map_cons, List.map_nil, hcolumn.decoded, hop.decoded, hvalue.decoded]
    rfl
  · exact ⟨hcolumn.plain, hop.plain, hvalue.plain⟩

theorem DimensionJoin.readsBack (d : DimensionJoin) : ReadsBack ofJson? toJson d := by
  have htable := (readsBack_string d.table).required
  have halias := Json.fieldReadsBack_text d.alias?
  have hfederated := (readsBack_string d.federatedColumn).required
  have hdimension := (readsBack_string d.dimensionColumn).required
  have hcolumn := Json.fieldReadsBack_text d.filterColumn
  have hop := ReadsBack.optional BinaryOp.readsBack (fun _ => Json.noConfusion) d.filterOp
  have hvalue := ReadsBack.optional Literal.readsBack (fun _ => Json.noConfusion) d.filterValue
  have hneeds := (readsBack_bool d.needsValues).defaulted false
  refine .record [("table_name", some (.string d.table)), ("alias", d.alias?.map .string),
    ("join_column", some (.string d.federatedColumn)),
    ("table_column", some (.string d.dimensionColumn)),
    ("filter_column", d.filterColumn.map .string),
    ("filter_operator", d.filterOp.map BinaryOp.toJson),
    ("filter_value", d.filterValue.map Literal.toJson),
    ("requires_callback", some (.bool d.needsValues))]
    (fun _ => rfl) ?_ ?_ ?_
  · simp [toJson, written, Json.given]
  · simp only [List.map_cons, List.map_nil, htable.decoded, halias.decoded, hfederated.decoded,
      hdimension.decoded, hcolumn.decoded, hop.decoded, hvalue.decoded, hneeds.decoded]
    rfl
  · exact ⟨htable.plain, halias.plain, hfederated.plain, hdimension.plain, hcolumn.plain,
      hop.plain, hvalue.plain, hneeds.plain⟩

/-- The position of a table is a machine word. -/
theorem FederatedTable.readsBack {f : FederatedTable} (hposition : f.position < UInt64.size) :
    ReadsBack ofJson? toJson f := by
  have hname := (readsBack_string f.name).required
  have htype := (readsBack_string f.datasetType).required
  have halias := Json.fieldReadsBack_text f.alias?
  have hjoins := (ReadsBack.list DimensionJoin.readsBack f.joins).defaulted []
  have hword : (UInt64.ofNat f.position).toNat = f.position := UInt64.toNat_ofNat_of_lt hposition
  have hnumber := (Json.readsBack_word (UInt64.ofNat f.position)).required
  rw [hword] at hnumber
  refine .record [("table_name", some (.string f.name)),
    ("dataset_type", some (.string f.datasetType)), ("alias", f.alias?.map .string),
    ("dimension_joins", some (.array (f.joins.map DimensionJoin.toJson))),
    ("position", some (Json.natural f.position))] (fun _ => rfl) ?_ ?_ ?_
  · simp [toJson, written, Json.given]
  · simp only [List.map_cons, List.map_nil, hname.decoded, htype.decoded, halias.decoded,
      hjoins.decoded, hnumber.decoded, Option.bind_eq_bind, Option.bind_some, Option.pure_def,
      hword]
  · exact ⟨hname.plain, htype.plain, halias.plain, hjoins.plain, hnumber.plain⟩

theorem DimensionFilter.readsBack (f : DimensionFilter) : ReadsBack ofJson? toJson f := by
  have htable := (readsBack_string f.table).required
  have halias := Json.fieldReadsBack_text f.alias?
  have hfederated := (readsBack_string f.federatedColumn).required
  have hconditions := (ReadsBack.list FilterCondition.readsBack f.conditions).defaulted []
  have hquery := (readsBack_string f.fetchQuery).required
  refine .record [("table_name", some (.string f.table)), ("alias", f.alias?.map .string),
    ("federated_column", some (.string f.federatedColumn)),
    ("conditions", some (.array (f.conditions.map FilterCondition.toJson))),
    ("value_fetch_sql", some (.string f.fetchQuery))] (fun _ => rfl) ?_ ?_ ?_
  · simp [toJson, written, Json.given]
  · simp only [List.map_cons, List.map_nil, htable.decoded, halias.decoded, hfederated.decoded,
      hconditions.decoded, hquery.decoded]
    rfl
  · exact ⟨htable.plain, halias.plain, hfederated.plain, hconditions.plain, hquery.plain⟩

/-! ## The pushdown report -/

theorem ColumnPair.readsBack (p : ColumnPair) : ReadsBack ofJson? toJson p := by
  have hfederated := (readsBack_string p.federated).required
  have hdimension := (readsBack_string p.dimension).required
  refine .record [("federated_column", some (.string p.federated)),
    ("dimension_column", some (.string p.dimension))] (fun _ => rfl) rfl ?_ ?_
  · simp only [List.map_cons, List.map_nil, hfederated.decoded, hdimension.decoded]
    rfl
  · exact ⟨hfederated.plain, hdimension.plain⟩

theorem PushableJoin.readsBack (p : PushableJoin) : ReadsBack ofJson? toJson p := by
  have htable := (readsBack_string p.table).required
  have halias := Json.fieldReadsBack_text p.alias?
  have hpairs := (ReadsBack.list ColumnPair.readsBack p.pairs).required
  have hrequired := (readsBack_bool p.required).defaulted false
  refine .record [("dimension_table", some (.string p.table)),
    ("dimension_alias", p.alias?.map .string),
    ("conditions", some (.array (p.pairs.map ColumnPair.toJson))),
    ("is_required", some (.bool p.required))] (fun _ => rfl) ?_ ?_ ?_
  · simp [toJson, written, Json.given]
  · simp only [List.map_cons, List.map_nil, htable.decoded, halias.decoded, hpairs.decoded,
      hrequired.decoded]
    rfl
  · exact ⟨htable.plain, halias.plain, hpairs.plain, hrequired.plain⟩

theorem PushdownReport.readsBack (r : PushdownReport) : ReadsBack ofJson? toJson r := by
  have htable := (readsBack_string r.federatedTable).required
  have halias := Json.fieldReadsBack_text r.alias?
  have hjoins := (ReadsBack.list PushableJoin.readsBack r.joins).defaulted []
  refine .record [("federated_table", some (.string r.federatedTable)),
    ("alias", r.alias?.map .string),
    ("pushable_joins", some (.array (r.joins.map PushableJoin.toJson)))]
    (fun _ => rfl) ?_ ?_ ?_
  · simp [toJson, written, Json.given]
  · simp only [List.map_cons, List.map_nil, htable.decoded, halias.decoded, hjoins.decoded]
    rfl
  · exact ⟨htable.plain, halias.plain, hjoins.plain⟩

/-! ## Texts -/

/-- **The documents of variants, dialects and splits round-trip.** The compact text of each is
decoded to what was written; the position of a federated table is a machine word. A document of a
variant may list the unique keys in any order and more than once, and whatever text a variant was
decoded from, its own text lists the same keys in strictly ascending order. -/
theorem metadata_documents_round_trip :
    (∀ v : Variant, (Json.read? v.toJson.render).bind Variant.ofJson? = some v) ∧
    (∀ d : Dialect, (Json.read? d.toJson.render).bind Dialect.ofJson? = some d) ∧
    (∀ f : FederatedTable, f.position < UInt64.size →
      (Json.read? f.toJson.render).bind FederatedTable.ofJson? = some f) ∧
    (∀ f : DimensionFilter, (Json.read? f.toJson.render).bind DimensionFilter.ofJson? = some f) ∧
    (∀ r : PushdownReport, (Json.read? r.toJson.render).bind PushdownReport.ofJson? = some r) ∧
    (∀ (v : Variant) (listed : List String),
      (Json.read? (v.listing listed).render).bind Variant.ofJson? =
        some { v with uniqueKeys := Text.NameSet.ofList listed }) ∧
    ∀ (text : String) (v : Variant), (Json.read? text).bind Variant.ofJson? = some v →
      ∃ listed keys, (Json.read? text).bind Variant.listedKeys? = some listed ∧
        (Json.read? v.toJson.render).bind Variant.listedKeys? = some keys ∧
        keys.Pairwise (· < ·) ∧ ∀ k, k ∈ keys ↔ k ∈ listed := by
  refine ⟨?_, ?_, ?_, ?_, ?_, ?_, ?_⟩
  · exact fun v => v.readsBack.text
  · exact fun d => d.readsBack.text
  · exact fun f hposition => (FederatedTable.readsBack hposition).text
  · exact fun f => f.readsBack.text
  · exact fun r => r.readsBack.text
  · exact fun v listed => (v.readsBack_listing listed).text
  · exact fun text v hdecoded => Variant.exists_listedKeys?_render hdecoded

/-- Impressions that are joined with the campaigns of a region. -/
def joinedImpressions : FederatedTable where
  name := "events_aqfer.impressions"
  datasetType := "events"
  alias? := some "i"
  joins := [{ table := "campaigns", federatedColumn := "campaign_id", dimensionColumn := "id",
              filterColumn := some "region", filterOp := some .eq,
              filterValue := some ⟨"NA", .string⟩ }]
  position := 1

/-- Impressions in a format of their own, laid out by their day. -/
def impressionsByDay : Variant where
  base := "impressions"
  suffix := "daily"
  format := .other "hudi"
  dimensions := [{ column := "day", partitions := true }]

/-- The document of the variant lists two keys out of order, one of them twice. -/
theorem metadata_documents_round_trip_impressions :
    joinedImpressions.position < UInt64.size ∧
      (Json.read? joinedImpressions.toJson.render).bind FederatedTable.ofJson? =
        some joinedImpressions ∧
      ∃ v : Variant, (Json.read? (impressionsByDay.listing ["user", "day", "user"]).render).bind
          Variant.ofJson? = some v ∧ v.uniqueKeys.toList = ["day", "user"] ∧
        ∃ listed keys, (Json.read? (impressionsByDay.listing ["user", "day", "user"]).render).bind
            Variant.listedKeys? = some listed ∧
          (Json.read? v.toJson.render).bind Variant.listedKeys? = some keys ∧
          keys.Pairwise (· < ·) ∧ ∀ k, k ∈ keys ↔ k ∈ listed := by
  obtain ⟨-, -, hfederated, -, -, hlisting, hkeys⟩ := metadata_documents_round_trip
  have hposition : joinedImpressions.position < UInt64.size := by decide
  have hdecoded := hlisting impressionsByDay ["user", "day", "user"]
  exact ⟨hposition, hfederated joinedImpressions hposition, _, hdecoded, by decide,
    hkeys _ _ hdecoded⟩

end QuerySplit
