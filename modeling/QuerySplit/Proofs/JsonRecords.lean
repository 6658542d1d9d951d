import QuerySplit.Json.Record
import QuerySplit.Proofs.JsonTokens

/-!
# Records as they are written

A record is written as an object with a member for each field that has a value (`written`). The
names differ, so decoding finds each field again (`fields?_written`). A record fits in some room
when every field fits in one level less (`depth_written_le_iff`), so a decoder of a record that
reads each field where it fits, and fails where it does not, does so for the record too: `Reads`
says it of a decoder and `ReadsField` of a field, and the lemmas below build the former from the
latter.
-/

set_option autoImplicit false

namespace QuerySplit.Json

variable {α : Type}

/-! ## Fields by name -/

/-- The members of a record from its fields; those without a value are left out. -/
def written (fields : List (String × Option Json)) : List (String × Json) :=
  fields.flatMap fun field => given field.1 field.2

theorem written_cons (field : String × Option Json) (fields : List (String × Option Json)) :
    written (field :: fields) = given field.1 field.2 ++ written fields :=
  List.flatMap_cons

/-- The member of a field has its name. -/
theorem name_of_mem_given {name : String} {value : Option Json} {m : String × Json}
    (h : m ∈ given name value) : m.1 = name := by
  cases value with
  | none => cases h
  | some j =>
    rw [List.mem_singleton.1 h]

/-- A written record has no members besides its fields. -/
theorem name_of_mem_written {fields : List (String × Option Json)} {m : String × Json}
    (h : m ∈ written fields) : m.1 ∈ fields.map (·.1) := by
  obtain ⟨field, hfield, hm⟩ := List.mem_flatMap.1 h
  rw [name_of_mem_given hm]
  exact List.mem_map_of_mem hfield

theorem count_append (name : String) (ms ns : List (String × Json)) :
    count name (ms ++ ns) = count name ms + count name ns :=
  List.countP_append

/-- A field is written once at most. -/
theorem count_given_le (name other : String) (value : Option Json) :
    count name (given other value) ≤ 1 := by
  have hlen : (given other value).length ≤ 1 := by
    cases value with
    | none => exact Nat.zero_le 1
    | some j => exact Nat.le_refl 1
  exact Nat.le_trans List.countP_le_length hlen

/-- A name that no member has is counted nowhere. -/
theorem count_eq_zero {name : String} {ms : List (String × Json)} (h : ∀ m ∈ ms, m.1 ≠ name) :
    count name ms = 0 := by
  refine List.countP_eq_zero.2 fun m hm => ?_
  simpa using h m hm

/-- Where the names of the fields differ, no member is repeated, and so none is refused. -/
theorem count_written_le {name : String} {fields : List (String × Option Json)}
    (hnames : (fields.map (·.1)).Nodup) : count name (written fields) ≤ 1 := by
  induction fields with
  | nil => exact Nat.zero_le 1
  | cons field fields ih =>
    rw [List.map_cons, List.nodup_cons] at hnames
    obtain ⟨hfresh, hnames⟩ := hnames
    rw [written_cons, count_append]
    by_cases heq : field.1 = name
    · have hrest : count name (written fields) = 0 := by
        refine count_eq_zero fun m hm hname => hfresh ?_
        rw [heq, ← hname]
        exact name_of_mem_written hm
      have hfield := count_given_le name field.1 field.2
      omega
    · have hfield : count name (given field.1 field.2) = 0 := by
        refine count_eq_zero fun m hm => ?_
        rw [name_of_mem_given hm]
        exact heq
      have hrest := ih hnames
      omega

/-- Members under other names do not hide one that follows them. -/
theorem member?_append_of_ne {name : String} {ms : List (String × Json)}
    (h : ∀ m ∈ ms, m.1 ≠ name) (ns : List (String × Json)) :
    member? name (ms ++ ns) = member? name ns := by
  induction ms with
  | nil => rfl
  | cons m ms ih =>
    obtain ⟨hm, hms⟩ := List.forall_mem_cons.1 h
    rw [List.cons_append, member?, if_neg hm, ih hms]

/-- A field is looked up with the value that it was written with; one without a value is missing. -/
theorem member?_written {name : String} {value : Option Json}
    {fields : List (String × Option Json)} (hnames : (fields.map (·.1)).Nodup)
    (h : (name, value) ∈ fields) : member? name (written fields) = value := by
  induction fields with
  | nil => cases h
  | cons field fields ih =>
    rw [List.map_cons, List.nodup_cons] at hnames
    obtain ⟨hfresh, hnames⟩ := hnames
    rw [written_cons]
    rcases List.mem_cons.1 h with rfl | hmem
    · cases value with
      | none =>
        have hrest : ∀ m ∈ written fields, m.1 ≠ name := by
          intro m hm hname
          exact hfresh (hname ▸ name_of_mem_written hm)
        have hnone := member?_append_of_ne hrest []
        rw [List.append_nil] at hnone
        exact hnone
      | some j =>
        show member? name ((name, j) :: written fields) = some j
        rw [member?, if_pos rfl]
    · have hne : ∀ m ∈ given field.1 field.2, m.1 ≠ name := by
        intro m hm hname
        rw [name_of_mem_given hm] at hname
        exact hfresh (hname ▸ List.mem_map_of_mem hmem)
      rw [member?_append_of_ne hne, ih hnames hmem]

/-- **The fields of a written record are found again.** -/
theorem fields?_written {names : List String} {fields : List (String × Option Json)}
    (hnames : fields.map (·.1) = names) (hnodup : names.Nodup) :
    fields? names (.object (written fields)) = some (fields.map (·.2)) := by
  subst hnames
  have honce : (fields.map (·.1)).any
      (fun name => decide (1 < count name (written fields))) = false := by
    refine List.any_eq_false.2 fun name _ => ?_
    have hle : count name (written fields) ≤ 1 := count_written_le hnodup
    simpa using hle
  have hmembers : (fields.map (·.1)).map (member? · (written fields)) = fields.map (·.2) := by
    rw [List.map_map]
    exact List.map_congr_left fun field hfield => member?_written hnodup hfield
  rw [fields?, honce, if_neg Bool.false_ne_true, hmembers]

/-! ## Depth -/

/-- The depth of a field; one without a value has none. -/
def fieldDepth : Option Json → Nat
  | some j => j.depth
  | none => 0

/-- Items are as deep as the deepest of them. -/
theorem depthOfItems_le_iff {items : List Json} {n : Nat} :
    depthOfItems items ≤ n ↔ ∀ j ∈ items, j.depth ≤ n := by
  induction items with
  | nil => simp [depthOfItems]
  | cons item items ih => rw [depthOfItems, Nat.max_le, ih, List.forall_mem_cons]

/-- Members are as deep as the deepest of their values. -/
theorem depthOfMembers_le_iff {ms : List (String × Json)} {n : Nat} :
    depthOfMembers ms ≤ n ↔ ∀ m ∈ ms, m.2.depth ≤ n := by
  induction ms with
  | nil => simp [depthOfMembers]
  | cons m ms ih => rw [depthOfMembers, Nat.max_le, ih, List.forall_mem_cons]

/-- Of a written record, the members are as deep as the fields. -/
theorem depthOfMembers_written_le_iff {fields : List (String × Option Json)} {n : Nat} :
    depthOfMembers (written fields) ≤ n ↔ ∀ field ∈ fields, fieldDepth field.2 ≤ n := by
  rw [depthOfMembers_le_iff]
  induction fields with
  | nil => simp [written]
  | cons field fields ih =>
    rw [written_cons, List.forall_mem_append, ih, List.forall_mem_cons]
    cases hvalue : field.2 with
    | none => simp [given, fieldDepth]
    | some j => simp [given, fieldDepth]

/-- A written record fits where each field fits one level further down. -/
theorem depth_written_le_iff {fields : List (String × Option Json)} {n : Nat} :
    depth (.object (written fields)) ≤ n + 1 ↔ ∀ field ∈ fields, fieldDepth field.2 ≤ n := by
  rw [depth, Nat.add_le_add_iff_right, depthOfMembers_written_le_iff]

/-- An array fits where each item fits one level further down. -/
theorem depth_array_le_iff {items : List Json} {n : Nat} :
    depth (.array items) ≤ n + 1 ↔ ∀ j ∈ items, j.depth ≤ n := by
  rw [depth, Nat.add_le_add_iff_right, depthOfItems_le_iff]

/-! ## Plain records -/

/-- A list of values is plain when each value is. -/
theorem plainItems_iff {items : List Json} : PlainItems items ↔ ∀ j ∈ items, j.Plain := by
  induction items with
  | nil => simp [PlainItems]
  | cons item items ih => rw [PlainItems, ih, List.forall_mem_cons]

/-- Members are plain when their values are. -/
theorem plainMembers_iff {ms : List (String × Json)} :
    PlainMembers ms ↔ ∀ m ∈ ms, m.2.Plain := by
  induction ms with
  | nil => simp [PlainMembers]
  | cons m ms ih => rw [PlainMembers, ih, List.forall_mem_cons]

/-- A record is plain when the values of its fields are. -/
theorem plain_written {fields : List (String × Option Json)}
    (h : ∀ field ∈ fields, ∀ j ∈ field.2, j.Plain) : Plain (.object (written fields)) := by
  refine plainMembers_iff.2 fun m hm => ?_
  obtain ⟨⟨name, value⟩, hfield, hmem⟩ := List.mem_flatMap.1 hm
  cases value with
  | none => cases hmem
  | some j =>
    rw [List.mem_singleton.1 hmem]
    exact h (name, some j) hfield j rfl

/-- The field of a value. -/
theorem plain_some {j : Json} (h : j.Plain) : ∀ i ∈ some j, i.Plain := by
  intro i hi
  cases hi
  exact h

/-- The field of a value that may be missing. -/
theorem plain_optional {encode : α → Json} (h : ∀ a, (encode a).Plain) (value : Option α) :
    ∀ j ∈ value.map encode, j.Plain := by
  intro j hj
  obtain ⟨a, -, rfl⟩ := Option.map_eq_some_iff.1 hj
  exact h a

/-- A list that is encoded item by item is plain when each item is. -/
theorem plain_array {encode : α → Json} (h : ∀ a, (encode a).Plain) (as : List α) :
    Plain (.array (as.map encode)) := by
  refine plainItems_iff.2 fun j hj => ?_
  obtain ⟨a, -, rfl⟩ := List.mem_map.1 hj
  exact h a

mutual

/-- A plain value can be buffered: each part of it names a value. -/
theorem readable_of_plain : ∀ j : Json, j.Plain → j.readable = true
  | .null, _ | .bool _, _ | .number _, _ | .string _, _ => rfl
  | .array items, h => readableItems_of_plain items h
  | .object members, h => readableMembers_of_plain members h

theorem readableItems_of_plain : ∀ items : List Json, PlainItems items →
    readableItems items = true
  | [], _ => rfl
  | item :: rest, h => by
    rw [readableItems, readable_of_plain item h.1, readableItems_of_plain rest h.2, Bool.and_true]

theorem readableMembers_of_plain : ∀ members : List (String × Json), PlainMembers members →
    readableMembers members = true
  | [], _ => rfl
  | (_, value) :: rest, h => by
    rw [readableMembers, readable_of_plain value h.1, readableMembers_of_plain rest h.2,
      Bool.and_true]

end

/-- A plain value fits wherever there is room for its depth. -/
theorem fits_of_plain {j : Json} (h : j.Plain) (room : Nat) :
    j.fits room = decide (j.depth ≤ room) := by
  rw [fits, readable_of_plain j h, Bool.true_and]

/-! ## Decoders that mind the room -/

/-- The decoder gives back what was encoded when it fits in the room, and fails when not. -/
def Reads (decode : Json → Option α) (encode : α → Json) (room : Nat) : Prop :=
  ∀ a, decode (encode a) = if (encode a).depth ≤ room then some a else none

/-- The same of a field with a value. -/
def ReadsField (decode : Option Json → Option α) (field : Option Json) (room : Nat) (value : α) :
    Prop :=
  decode field = if fieldDepth field ≤ room then some value else none

/-- Reading one field and then the others. -/
theorem bind_ite_some {β : Type} (p : Prop) [Decidable p] (a : α) (f : α → Option β) :
    (if p then some a else none).bind f = if p then f a else none := by
  split <;> rfl

/-- Two fields that both have to fit are one condition. -/
theorem ite_ite_none (p q : Prop) [Decidable p] [Decidable q] (o : Option α) :
    (if p then if q then o else none else none) = if p ∧ q then o else none := by
  by_cases hp : p <;> by_cases hq : q <;> simp [hp, hq]

/-- A record goes on with the value of a field that fits, and fails on one that does not. -/
theorem ReadsField.bind {β : Type} {decode : Option Json → Option α} {field : Option Json}
    {room : Nat} {value : α} (h : ReadsField decode field room value) (f : α → Option β) :
    (decode field).bind f = if fieldDepth field ≤ room then f value else none := by
  rw [h, bind_ite_some]

/-- What has no depth fits everywhere. -/
theorem reads_of_depth_eq_zero {decode : Json → Option α} {encode : α → Json}
    (hdepth : ∀ a, (encode a).depth = 0) (h : ∀ a, decode (encode a) = some a) (room : Nat) :
    Reads decode encode room := by
  intro a
  rw [h a, if_pos (by rw [hdepth a]; exact Nat.zero_le room)]

/-- A string takes no room. -/
theorem reads_string (room : Nat) : Reads string? .string room := by
  have hread : ∀ s : String, string? (.string s) = some s := fun _ => rfl
  exact reads_of_depth_eq_zero (fun _ => rfl) hread room

/-- A truth value takes no room. -/
theorem reads_bool (room : Nat) : Reads bool? .bool room := by
  have hread : ∀ b : Bool, bool? (.bool b) = some b := fun _ => rfl
  exact reads_of_depth_eq_zero (fun _ => rfl) hread room

/-- A number of 64 bits takes no room. -/
theorem reads_word (room : Nat) : Reads word? (fun n : UInt64 => natural n.toNat) room := by
  refine reads_of_depth_eq_zero (fun _ => rfl) (fun n => ?_) room
  have hrange : 0 ≤ (n.toNat : Int) ∧ (n.toNat : Int) < UInt64.size :=
    ⟨Int.natCast_nonneg n.toNat, Int.ofNat_lt.2 n.toNat_lt_size⟩
  rw [natural, word?, if_pos hrange, Int.toNat_natCast, UInt64.ofNat_toNat]

/-- A choice is read from its name. -/
theorem reads_choice {ofName? : String → Option α} {name : α → String}
    (h : ∀ a, ofName? (name a) = some a) (reading : Reading) (room : Nat) :
    Reads (choice? reading ofName?) (fun a => .string (name a)) room :=
  reads_of_depth_eq_zero (fun _ => rfl) h room

/-- A required field is read like its value. -/
theorem Reads.required {decode : Json → Option α} {encode : α → Json} {room : Nat}
    (h : Reads decode encode room) (a : α) :
    ReadsField (required decode) (some (encode a)) room a :=
  h a

/-- A field that is there is read like its value, whatever its default. -/
theorem Reads.defaulted {decode : Json → Option α} {encode : α → Json} {room : Nat}
    (h : Reads decode encode room) (default a : α) :
    ReadsField (defaulted default decode) (some (encode a)) room a :=
  h a

/-- A field that is there and not `null` has the value that is decoded. -/
theorem optional_some {decode : Json → Option α} {j : Json} (h : j ≠ .null) :
    Json.optional decode (some j) = (decode j).map some := by
  cases j with
  | null => exact absurd rfl h
  | _ => rfl

/-- A field without a value is left out, so no value may be written as `null`. -/
theorem Reads.optional {decode : Json → Option α} {encode : α → Json} {room : Nat}
    (h : Reads decode encode room) (hnull : ∀ a, encode a ≠ .null) (value : Option α) :
    ReadsField (optional decode) (value.map encode) room value := by
  cases value with
  | none => exact (if_pos (Nat.zero_le room)).symm
  | some a =>
    rw [ReadsField, Option.map_some, optional_some (hnull a), h a, fieldDepth]
    split <;> rfl

/-- Items that are decoded back one by one are decoded back as a list. -/
theorem mapM_map_eq_some {β : Type} {decode : β → Option α} {encode : α → β} {as : List α}
    (h : ∀ a ∈ as, decode (encode a) = some a) : (as.map encode).mapM decode = some as := by
  induction as with
  | nil => rfl
  | cons a as ih =>
    obtain ⟨ha, has⟩ := List.forall_mem_cons.1 h
    rw [List.map_cons, List.mapM_cons, ha, ih has]
    rfl

/-- Items fit one by one. -/
theorem Reads.mapM {decode : Json → Option α} {encode : α → Json} {room : Nat}
    (h : Reads decode encode room) (as : List α) :
    (as.map encode).mapM decode =
      if ∀ j ∈ as.map encode, j.depth ≤ room then some as else none := by
  induction as with
  | nil => rfl
  | cons a as ih =>
    rw [List.map_cons, List.mapM_cons]
    show (decode (encode a)).bind (fun b => ((as.map encode).mapM decode).bind fun bs =>
      some (b :: bs)) = _
    rw [h a, ih, bind_ite_some, bind_ite_some, ite_ite_none]
    simp only [List.forall_mem_cons]

/-- A list takes one level for its brackets. -/
theorem Reads.list {decode : Json → Option α} {encode : α → Json} {room : Nat}
    (h : Reads decode encode room) :
    Reads (list? decode) (fun as => .array (as.map encode)) (room + 1) := by
  intro as
  simp only [list?, h.mapM as, depth_array_le_iff]

/-- A record of one field. -/
theorem Reads.single {decode : Json → Option α} {encode : α → Json} {room : Nat}
    (h : Reads decode encode room) (name : String) :
    Reads (fun j => do
        let [field] ← j.fields? [name] | none
        Json.required decode field)
      (fun a => .object [(name, encode a)]) (room + 1) := by
  intro a
  have hwritten : Json.object [(name, encode a)] = .object (written [(name, some (encode a))]) :=
    rfl
  have hfields : fields? [name] (.object (written [(name, some (encode a))])) =
      some [some (encode a)] := fields?_written rfl (List.pairwise_singleton _ _)
  simp only [hwritten, hfields, Option.bind_eq_bind, Option.bind_some, depth_written_le_iff,
    List.forall_mem_cons, List.not_mem_nil, false_implies, implies_true, and_true]
  exact h.required a

end QuerySplit.Json
