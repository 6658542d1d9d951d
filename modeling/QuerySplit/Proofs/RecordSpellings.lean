import Mathlib.Data.List.Forall2
import QuerySplit.Proofs.JsonRecords

/-!
# The spellings of a record

One value has many documents. A record may stand as an object, with its members in any order, with
members that no field takes between them and without the members that hold a default, or as an
array of all its fields. `SpelledRecord` says which values spell a record, given how each of its
fields may be spelled (`Slot`). Decoding finds the same fields in all of them
(`SpelledRecord.fields?_eq`), and what reads a field from each of its spellings reads the record
(`ReadsSpelled`).

A part of a value nests less deep than the value (`fieldDepth_lt_of_fields?`), so a decoder that
spends one level of its room on each array and object has room left for the parts.
-/

set_option autoImplicit false

namespace QuerySplit.Json

variable {α : Type}

/-! ## Members in another order -/

/-- Where a name is not repeated, its member is the one that is found. -/
theorem member?_eq_some_iff {name : String} {value : Json} {ms : List (String × Json)}
    (hcount : count name ms ≤ 1) : member? name ms = some value ↔ (name, value) ∈ ms := by
  induction ms with
  | nil => simp [member?]
  | cons m ms ih =>
    obtain ⟨other, first⟩ := m
    have hcons : count name ((other, first) :: ms) =
        count name ms + if other == name then 1 else 0 := List.countP_cons
    by_cases hname : other = name
    · subst hname
      have hrest : count other ms = 0 := by
        rw [hcons, if_pos (beq_self_eq_true other)] at hcount
        omega
      have hfresh : (other, value) ∉ ms := by
        intro hmem
        have hpos : 0 < count other ms := List.countP_pos_iff.2 ⟨_, hmem, beq_self_eq_true other⟩
        omega
      rw [member?, if_pos rfl, List.mem_cons]
      simp [hfresh, eq_comm]
    · rw [member?, if_neg hname, ih (by omega), List.mem_cons]
      simp [Ne.symm hname]

/-- How often a name stands among members does not depend on their order. -/
theorem count_perm {ms ns : List (String × Json)} (h : ms.Perm ns) (name : String) :
    count name ms = count name ns :=
  h.countP_eq _

/-- Where a name is not repeated, its member is found in any order. -/
theorem member?_perm {ms ns : List (String × Json)} (h : ms.Perm ns) {name : String}
    (hcount : count name ns ≤ 1) : member? name ms = member? name ns := by
  refine Option.ext fun value => ?_
  rw [member?_eq_some_iff (by rwa [count_perm h]), member?_eq_some_iff hcount, h.mem_iff]

/-! ## Parts nest less deep -/

/-- What is found under a name is the value of a member. -/
theorem mem_of_member? {name : String} {value : Json} {ms : List (String × Json)}
    (h : member? name ms = some value) : ∃ m ∈ ms, m.2 = value := by
  induction ms with
  | nil => cases h
  | cons m ms ih =>
    rw [member?] at h
    split at h
    · cases h
      exact ⟨m, List.mem_cons_self, rfl⟩
    · obtain ⟨m', hm', hvalue⟩ := ih h
      exact ⟨m', List.mem_cons_of_mem _ hm', hvalue⟩

/-- What is found under a name is no deeper than the members. -/
theorem fieldDepth_member?_le (name : String) (ms : List (String × Json)) :
    fieldDepth (member? name ms) ≤ depthOfMembers ms := by
  cases h : member? name ms with
  | none => exact Nat.zero_le _
  | some value =>
    obtain ⟨m, hm, rfl⟩ := mem_of_member? h
    exact depthOfMembers_le_iff.1 (Nat.le_refl _) m hm

/-- **What a record gives for its fields nests less deep than the record.** -/
theorem fieldDepth_lt_of_fields? {names : List String} {j : Json} {given : List (Option Json)}
    (h : fields? names j = some given) : ∀ field ∈ given, fieldDepth field < j.depth := by
  intro field hfield
  unfold fields? at h
  split at h
  · next members =>
    split at h
    · cases h
    · cases h
      obtain ⟨name, -, rfl⟩ := List.mem_map.1 hfield
      exact Nat.lt_succ_of_le (fieldDepth_member?_le name members)
  · next items =>
    split at h
    · cases h
    · cases h
      rcases List.mem_append.1 hfield with hitem | hmissing
      · obtain ⟨item, hmem, rfl⟩ := List.mem_map.1 hitem
        exact Nat.lt_succ_of_le (depthOfItems_le_iff.1 (Nat.le_refl _) item hmem)
      · rw [List.eq_of_mem_replicate hmissing]
        exact Nat.succ_pos _
  · cases h

/-! ## Records and their fields -/

/-- A declared field of a record: the values that spell it, and whether it may be left out. -/
structure Slot where
  name : String
  Spells : Json → Prop
  MayBeMissing : Prop

namespace Slot

/-- What a record may give for the field. -/
def Takes (slot : Slot) : Option Json → Prop
  | some j => slot.Spells j
  | none => slot.MayBeMissing

/-- A field under its name. -/
def Admits (slot : Slot) (field : String × Option Json) : Prop :=
  slot.name = field.1 ∧ slot.Takes field.2

/-- A field that has to be there. -/
def required (name : String) (spells : Json → Prop) : Slot :=
  ⟨name, spells, False⟩

/-- A field that may be left out where it holds the default. -/
def defaulted (name : String) (isDefault : Prop) (spells : Json → Prop) : Slot :=
  ⟨name, spells, isDefault⟩

/-- A field that is left out or `null` where there is no value. -/
def optional (name : String) : Option (Json → Prop) → Slot
  | some spells => ⟨name, spells, False⟩
  | none => ⟨name, (· = .null), True⟩

@[simp]
theorem name_required (name : String) (spells : Json → Prop) : (required name spells).name = name :=
  rfl

@[simp]
theorem name_defaulted (name : String) (isDefault : Prop) (spells : Json → Prop) :
    (defaulted name isDefault spells).name = name :=
  rfl

@[simp]
theorem name_optional (name : String) (spells : Option (Json → Prop)) :
    (optional name spells).name = name := by
  cases spells <;> rfl

end Slot

/-- The values that spell a record with the given fields. An object has a member for each field
that is not left out, in any order, and any further members under other names; an array has all
the fields in declared order. -/
inductive SpelledRecord (slots : List Slot) : Json → Prop
  | object {fields : List (String × Option Json)} {unknown members : List (String × Json)}
      (hfields : List.Forall₂ Slot.Admits slots fields)
      (hunknown : ∀ m ∈ unknown, m.1 ∉ slots.map Slot.name ∧ m.2.Plain)
      (hmembers : members.Perm (written fields ++ unknown)) : SpelledRecord slots (.object members)
  | array {items : List Json} (hitems : List.Forall₂ Slot.Spells slots items) :
      SpelledRecord slots (.array items)

/-- The values that spell a list whose items are spelled as given. -/
def SpelledArray (each : List Json → Prop) : Json → Prop
  | .array items => each items
  | _ => False

/-- A record as it is written, without members that it does not know. -/
theorem spelledRecord_written {slots : List Slot} {fields : List (String × Option Json)}
    (h : List.Forall₂ Slot.Admits slots fields) : SpelledRecord slots (.object (written fields)) :=
  .object h (List.forall_mem_nil _) (by rw [List.append_nil])

/-- A field that is left out where it has no value is one of the spellings of that field. -/
theorem Slot.admits_optional {spells : α → Json → Prop} {encode : α → Json}
    (h : ∀ a, spells a (encode a)) (name : String) (value : Option α) :
    (optional name (value.map spells)).Admits (name, value.map encode) := by
  cases value with
  | none => exact ⟨rfl, trivial⟩
  | some a => exact ⟨rfl, h a⟩

/-- The same of a field whose value has one spelling only. -/
theorem Slot.admits_optional_eq (encode : α → Json) (name : String) (value : Option α) :
    (optional name (value.map fun a => (· = encode a))).Admits (name, value.map encode) := by
  cases value with
  | none => exact ⟨rfl, trivial⟩
  | some a => exact ⟨rfl, rfl⟩

/-- A record of one field. -/
theorem spelledRecord_single {name : String} {spells : Json → Prop} {j : Json} (h : spells j) :
    SpelledRecord [.required name spells] (.object [(name, j)]) := by
  have hfields : List.Forall₂ Slot.Admits [.required name spells] [(name, some j)] :=
    .cons ⟨rfl, h⟩ .nil
  exact spelledRecord_written hfields

/-- A list encoded item by item is one of its spellings. -/
theorem spelledArray_map {spells : α → Json → Prop} {encode : α → Json} {as : List α}
    (h : ∀ a ∈ as, spells a (encode a)) :
    SpelledArray (List.Forall₂ spells as) (.array (as.map encode)) :=
  List.forall₂_map_right_iff.2 (List.forall₂_same.2 h)

/-- No record is spelled `null`, so an optional record can be told from a missing one. -/
theorem not_spelledRecord_null (slots : List Slot) : ¬ SpelledRecord slots .null := by
  intro h
  cases h

/-- Fields stand under the names of their slots. -/
theorem names_eq_of_forall₂ {slots : List Slot} {fields : List (String × Option Json)}
    (h : List.Forall₂ Slot.Admits slots fields) : fields.map (·.1) = slots.map Slot.name := by
  induction h with
  | nil => rfl
  | cons hfield _ ih => rw [List.map_cons, List.map_cons, ih, hfield.1]

/-- Unknown members change nothing for a declared name, and neither does the order. -/
theorem count_member?_spelled {fields : List (String × Option Json)}
    {unknown members : List (String × Json)} {name : String} {value : Option Json}
    (hnodup : (fields.map (·.1)).Nodup) (hfield : (name, value) ∈ fields)
    (hunknown : ∀ m ∈ unknown, m.1 ≠ name) (hmembers : members.Perm (written fields ++ unknown)) :
    count name members ≤ 1 ∧ member? name members = value := by
  have hcount : count name (written fields ++ unknown) ≤ 1 := by
    rw [count_append, count_eq_zero hunknown]
    exact count_written_le hnodup
  have hvalue : ∀ j, member? name members = some j ↔ value = some j := by
    intro j
    rw [member?_perm hmembers hcount, member?_eq_some_iff hcount, List.mem_append,
      or_iff_left fun hmem => hunknown _ hmem rfl,
      ← member?_eq_some_iff (count_written_le hnodup), member?_written hnodup hfield]
  exact ⟨by rwa [count_perm hmembers], Option.ext hvalue⟩

/-- **Decoding finds the fields of a record in each of its spellings.** -/
theorem SpelledRecord.fields?_eq {slots : List Slot} {j : Json} (h : SpelledRecord slots j)
    {names : List String} (hnames : slots.map Slot.name = names) (hnodup : names.Nodup) :
    ∃ given, fields? names j = some given ∧ List.Forall₂ Slot.Takes slots given := by
  subst hnames
  cases h with
  | @object fields unknown members hfields hunknown hmembers =>
    rw [← names_eq_of_forall₂ hfields] at hunknown hnodup ⊢
    -- no foreign member has the name of a field, so each field is found in whatever order
    have hfound : ∀ field ∈ fields,
        count field.1 members ≤ 1 ∧ member? field.1 members = field.2 := by
      intro field hfield
      refine count_member?_spelled hnodup hfield (fun m hm hname => ?_) hmembers
      exact (hunknown m hm).1 (hname ▸ List.mem_map_of_mem hfield)
    have honce : (fields.map (·.1)).any (fun name => decide (1 < count name members)) = false := by
      refine List.any_eq_false.2 fun name hname => ?_
      obtain ⟨field, hfield, rfl⟩ := List.mem_map.1 hname
      simpa using (hfound field hfield).1
    refine ⟨fields.map (·.2), ?_, List.forall₂_map_right_iff.2 (hfields.imp fun _ _ h => h.2)⟩
    rw [fields?, honce, if_neg Bool.false_ne_true, List.map_map]
    exact congrArg some (List.map_congr_left fun field hfield => (hfound field hfield).2)
  | @array items hitems =>
    have hlength : items.length = (slots.map Slot.name).length := by
      rw [List.length_map, hitems.length_eq]
    refine ⟨items.map some, ?_, List.forall₂_map_right_iff.2 hitems⟩
    rw [fields?, if_neg (by omega), hlength, Nat.sub_self, List.replicate_zero, List.append_nil]

/-- The fields that decoding finds fit in one level less than the record. -/
theorem SpelledRecord.fields?_within {slots : List Slot} {j : Json} (h : SpelledRecord slots j)
    {names : List String} (hnames : slots.map Slot.name = names) (hnodup : names.Nodup) {room : Nat}
    (hdepth : j.depth ≤ room + 1) :
    ∃ given, fields? names j = some given ∧ List.Forall₂ Slot.Takes slots given ∧
      ∀ field ∈ given, fieldDepth field ≤ room := by
  obtain ⟨given, hgiven, htakes⟩ := h.fields?_eq hnames hnodup
  refine ⟨given, hgiven, htakes, fun field hfield => ?_⟩
  exact Nat.le_of_lt_succ (Nat.lt_of_lt_of_le (fieldDepth_lt_of_fields? hgiven field hfield) hdepth)

/-- The first field of a record that stands as an object can be taken out of it. -/
theorem SpelledRecord.uncons_object {name : String} {spells : Json → Prop} {slots : List Slot}
    {members : List (String × Json)}
    (h : SpelledRecord (.required name spells :: slots) (.object members))
    (hnodup : (name :: slots.map Slot.name).Nodup) :
    ∃ j, spells j ∧ count name members = 1 ∧ member? name members = some j ∧
      SpelledRecord slots (.object (members.filter (·.1 != name))) := by
  cases h with
  | @object fields unknown _ hfields hunknown hmembers =>
    have hnames := names_eq_of_forall₂ hfields
    obtain _ | ⟨⟨rfl, htakes⟩, hfields⟩ := hfields
    next field fields =>
    obtain ⟨name, value⟩ := field
    cases value with
    | none => exact htakes.elim
    | some j =>
      -- nothing else has the name of the first field, so leaving it out leaves all the rest
      have hother : ∀ m ∈ written fields ++ unknown, m.1 ≠ name := by
        intro m hm hname
        rcases List.mem_append.1 hm with hm | hm
        · have hfield := name_of_mem_written hm
          rw [names_eq_of_forall₂ hfields, hname] at hfield
          exact (List.nodup_cons.1 hnodup).1 hfield
        · exact (hunknown m hm).1 (hname ▸ List.mem_cons_self)
      obtain ⟨hle, hmember⟩ := count_member?_spelled (hnames ▸ hnodup) List.mem_cons_self
        (fun m hm => hother m (List.mem_append_right _ hm)) hmembers
      have hpos : 0 < count name members :=
        List.countP_pos_iff.2 ⟨_, (member?_eq_some_iff hle).1 hmember, beq_self_eq_true _⟩
      have hkept : (written fields ++ unknown).filter (·.1 != name) = written fields ++ unknown :=
        List.filter_eq_self.2 fun m hm => by simpa using hother m hm
      have hfiltered := hmembers.filter (·.1 != name)
      rw [written_cons, List.append_assoc, given, List.singleton_append,
        List.filter_cons_of_neg (by simp), hkept] at hfiltered
      refine ⟨j, htakes, Nat.le_antisymm hle hpos, hmember, .object hfields ?_ hfiltered⟩
      intro m hm
      exact ⟨fun hname => (hunknown m hm).1 (List.mem_cons_of_mem _ hname), (hunknown m hm).2⟩

/-- Each right member of a pairing has a partner on the left. -/
theorem exists_left_of_forall₂ {β γ : Type} {R : β → γ → Prop} {bs : List β} {cs : List γ}
    (h : List.Forall₂ R bs cs) {c : γ} (hc : c ∈ cs) : ∃ b ∈ bs, R b c := by
  induction h with
  | nil => cases hc
  | @cons b _ _ _ hhead _ ih =>
    rcases List.mem_cons.1 hc with rfl | hc
    · exact ⟨b, List.mem_cons_self, hhead⟩
    · obtain ⟨b', hb', hR⟩ := ih hc
      exact ⟨b', List.mem_cons_of_mem _ hb', hR⟩

/-- All spellings of the fields are plain. -/
def PlainSlots (slots : List Slot) : Prop :=
  ∀ slot ∈ slots, ∀ i, slot.Spells i → i.Plain

theorem plainSlots_nil : PlainSlots [] :=
  List.forall_mem_nil _

/-- The spellings of a list of fields are plain when those of each are. -/
theorem plainSlots_cons {slot : Slot} {slots : List Slot} :
    PlainSlots (slot :: slots) ↔ (∀ i, slot.Spells i → i.Plain) ∧ PlainSlots slots :=
  List.forall_mem_cons

/-- The spellings of a record are plain when those of its fields are. -/
theorem SpelledRecord.plain {slots : List Slot} {j : Json} (h : SpelledRecord slots j)
    (hslots : PlainSlots slots) : j.Plain := by
  cases h with
  | @object fields unknown members hfields hunknown hmembers =>
    have hwritten : Plain (.object (written fields)) := by
      refine plain_written fun field hfield i hi => ?_
      obtain ⟨slot, hslot, -, htakes⟩ := exists_left_of_forall₂ hfields hfield
      rw [Option.mem_def.1 hi] at htakes
      exact hslots slot hslot i htakes
    refine plainMembers_iff.2 fun m hm => ?_
    rcases List.mem_append.1 (hmembers.mem_iff.1 hm) with hm | hm
    · exact plainMembers_iff.1 hwritten m hm
    · exact (hunknown m hm).2
  | @array items hitems =>
    refine plainItems_iff.2 fun item hitem => ?_
    obtain ⟨slot, hslot, hspells⟩ := exists_left_of_forall₂ hitems hitem
    exact hslots slot hslot item hspells

/-- A string is plain. -/
theorem plain_of_eq_string (s : String) (j : Json) (h : j = .string s) : j.Plain := by
  subst h
  trivial

/-- A truth value is plain. -/
theorem plain_of_eq_bool (b : Bool) (j : Json) (h : j = .bool b) : j.Plain := by
  subst h
  trivial

/-- The spellings of a record of one field. -/
theorem SpelledRecord.plain_single {name : String} {spells : Json → Prop} {j : Json}
    (h : SpelledRecord [.required name spells] j) (hspells : ∀ i, spells i → i.Plain) : j.Plain :=
  h.plain (plainSlots_cons.2 ⟨hspells, plainSlots_nil⟩)

/-- An optional field is plain in each spelling when its values are: `null` is plain too. -/
theorem plain_optional_slot {spells : α → Json → Prop} (h : ∀ a i, spells a i → i.Plain)
    (name : String) (value : Option α) :
    ∀ i, (Slot.optional name (value.map spells)).Spells i → i.Plain := by
  intro i hi
  cases value with
  | none =>
    obtain rfl : i = .null := hi
    trivial
  | some a => exact h a i hi

/-- The spellings of a list are plain when those of its items are. -/
theorem plain_of_spelledArray {spells : α → Json → Prop} {as : List α}
    (h : ∀ a ∈ as, ∀ i, spells a i → i.Plain) :
    ∀ j, SpelledArray (List.Forall₂ spells as) j → j.Plain := by
  intro j hj
  cases j with
  | array items =>
    refine plainItems_iff.2 fun item hitem => ?_
    obtain ⟨a, ha, hspells⟩ := exists_left_of_forall₂ hj hitem
    exact h a ha item hspells
  | _ => exact hj.elim

/-! ## Fields read from their spellings -/

/-- Every spelling that fits in the room is decoded as the value. -/
def ReadsSpelled (decode : Json → Option α) (spells : Json → Prop) (room : Nat) (a : α) : Prop :=
  ∀ j, spells j → j.depth ≤ room → decode j = some a

/-- A string has one spelling. -/
theorem readsSpelled_string (s : String) (room : Nat) :
    ReadsSpelled string? (· = .string s) room s := by
  rintro _ rfl _
  rfl

/-- A truth value has one spelling. -/
theorem readsSpelled_bool (b : Bool) (room : Nat) : ReadsSpelled bool? (· = .bool b) room b := by
  rintro _ rfl _
  rfl

namespace ReadsSpelled

variable {decode : Json → Option α} {spells : Json → Prop} {room : Nat} {name : String}
  {field : Option Json}

/-- A required field is read from whatever spells it. -/
theorem required {a : α} (h : ReadsSpelled decode spells room a)
    (htakes : (Slot.required name spells).Takes field) (hdepth : fieldDepth field ≤ room) :
    Json.required decode field = some a := by
  cases field with
  | none => exact htakes.elim
  | some j => exact h j htakes hdepth

/-- A field with a default is read from whatever spells it, and from nothing where it holds the
default. -/
theorem defaulted {default a : α} {isDefault : Prop} (h : ReadsSpelled decode spells room a)
    (hdefault : isDefault → a = default)
    (htakes : (Slot.defaulted name isDefault spells).Takes field)
    (hdepth : fieldDepth field ≤ room) : Json.defaulted default decode field = some a := by
  cases field with
  | none => exact congrArg some (hdefault htakes).symm
  | some j => exact h j htakes hdepth

/-- No value may be spelled `null`, which says that there is none. -/
theorem optional {spells : α → Json → Prop} {value : Option α}
    (h : ∀ a, ReadsSpelled decode (spells a) room a) (hnull : ∀ a, ¬ spells a .null)
    (htakes : (Slot.optional name (value.map spells)).Takes field)
    (hdepth : fieldDepth field ≤ room) : Json.optional decode field = some value := by
  cases value with
  | none =>
    cases field with
    | none => rfl
    | some j =>
      obtain rfl : j = .null := htakes
      rfl
  | some a =>
    cases field with
    | none => exact htakes.elim
    | some j =>
      have hspells : spells a j := htakes
      have hne : j ≠ .null := by
        rintro rfl
        exact hnull a hspells
      rw [optional_some hne, h a j hspells hdepth, Option.map_some]

/-- A list is read from its items, one level further in. -/
theorem list {spells : α → Json → Prop} {as : List α}
    (h : ∀ a ∈ as, ReadsSpelled decode (spells a) room a) :
    ReadsSpelled (list? decode) (SpelledArray (List.Forall₂ spells as)) (room + 1) as := by
  intro j hspelled hdepth
  cases j with
  | array items =>
    rw [depth_array_le_iff] at hdepth
    replace hspelled : List.Forall₂ spells as items := hspelled
    show items.mapM decode = some as
    induction hspelled with
    | nil => rfl
    | @cons a item as items hitem _ ih =>
      obtain ⟨hd, hds⟩ := List.forall_mem_cons.1 hdepth
      obtain ⟨ha, has⟩ := List.forall_mem_cons.1 h
      rw [List.mapM_cons, ha item hitem hd, ih has hds]
      rfl
  | _ => exact hspelled.elim

/-- A record of one field. -/
theorem single {a : α} (h : ReadsSpelled decode spells room a) (name : String) :
    ReadsSpelled (fun j => do
        let [field] ← j.fields? [name] | none
        Json.required decode field)
      (SpelledRecord [.required name spells]) (room + 1) a := by
  intro j hspelled hdepth
  obtain ⟨given, hgiven, htakes, hroom⟩ := hspelled.fields?_within (rfl : _ = [name])
    (List.pairwise_singleton _ _) hdepth
  obtain _ | ⟨hfield, _ | _⟩ := htakes
  simp only [hgiven, Option.bind_eq_bind, Option.bind_some]
  exact h.required hfield (hroom _ List.mem_cons_self)

end ReadsSpelled

end QuerySplit.Json
