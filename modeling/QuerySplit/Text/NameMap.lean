/-!
# Maps and sets of names

A `NameMap` keeps its entries in strictly ascending order of their names, by code point, which is
also the order of their UTF-8 bytes. The order is a field of the type, so two maps with the same
entries are equal, and a set lists its members sorted and once each.

Main statements: `get?_insert` gives the value under every name after an insertion, and
`NameSet.mem_ofList` says that a set built from a list holds the members of the list, which
`NameSet.toList` lists in strictly ascending order.
-/

set_option autoImplicit false

namespace QuerySplit.Text

/-- Entries in strictly ascending order of name. -/
structure NameMap (α : Type) where
  entries : List (String × α)
  ascending : entries.Pairwise (fun a b => a.1 < b.1)

namespace NameMap

variable {α : Type}

instance [DecidableEq α] : DecidableEq (NameMap α) := fun a b =>
  decidable_of_iff (a.entries = b.entries) <| by
    cases a
    cases b
    simp

def empty : NameMap α := ⟨[], .nil⟩

instance : Inhabited (NameMap α) := ⟨empty⟩

/-- Puts an entry at its place; an entry of the same name gives way. -/
def place (name : String) (value : α) : List (String × α) → List (String × α)
  | [] => [(name, value)]
  | entry :: rest =>
    if name < entry.1 then (name, value) :: entry :: rest
    else if name = entry.1 then (name, value) :: rest
    else entry :: place name value rest

/-- Placing an entry brings in nothing else. -/
theorem mem_place {name : String} {value : α} {entries : List (String × α)}
    {e : String × α} (h : e ∈ place name value entries) : e = (name, value) ∨ e ∈ entries := by
  induction entries with
  | nil => simpa [place] using h
  | cons entry rest ih =>
    rw [place] at h
    split at h
    · simpa using h
    · split at h
      · rcases List.mem_cons.1 h with h | h
        · exact .inl h
        · exact .inr (List.mem_cons_of_mem _ h)
      · rcases List.mem_cons.1 h with h | h
        · exact .inr (h ▸ List.mem_cons_self ..)
        · exact (ih h).imp_right (List.mem_cons_of_mem _)

theorem lt_of_not_lt_of_ne {a b : String} (hlt : ¬ a < b) (hne : a ≠ b) : b < a :=
  Decidable.by_contra fun h =>
    hne (String.le_antisymm (String.not_lt.1 h) (String.not_lt.1 hlt))

/-- Entries stay in ascending order of their names. -/
theorem place_ascending {name : String} {value : α} {entries : List (String × α)}
    (h : entries.Pairwise (fun a b => a.1 < b.1)) :
    (place name value entries).Pairwise (fun a b => a.1 < b.1) := by
  induction entries with
  | nil => simp [place]
  | cons entry rest ih =>
    obtain ⟨hhead, hrest⟩ := List.pairwise_cons.1 h
    rw [place]
    split
    next hlt =>
      refine List.pairwise_cons.2 ⟨fun e he => ?_, h⟩
      rcases List.mem_cons.1 he with rfl | he
      · exact hlt
      · exact String.lt_trans hlt (hhead e he)
    next hlt =>
      split
      next heq =>
        exact List.pairwise_cons.2 ⟨fun e he => by simpa [heq] using hhead e he, hrest⟩
      next hne =>
        refine List.pairwise_cons.2 ⟨fun e he => ?_, ih hrest⟩
        rcases mem_place he with rfl | he
        · exact lt_of_not_lt_of_ne hlt hne
        · exact hhead e he

/-- The map with a value under a name; an earlier value under that name is replaced. -/
def insert (m : NameMap α) (name : String) (value : α) : NameMap α :=
  ⟨place name value m.entries, place_ascending m.ascending⟩

/-- The value of the first entry under a name. -/
def valueAt (name : String) : List (String × α) → Option α
  | [] => none
  | entry :: rest => if name = entry.1 then some entry.2 else valueAt name rest

/-- The value under a name. -/
def get? (m : NameMap α) (name : String) : Option α :=
  valueAt name m.entries

/-- Inserts the entries of a list in order, so the last of several values under a name stays. -/
def ofList (entries : List (String × α)) : NameMap α :=
  entries.foldl (fun m e => m.insert e.1 e.2) empty

def keys (m : NameMap α) : List String :=
  m.entries.map (·.1)

/-- An entry that is placed is found under its name, and hides no other. -/
theorem valueAt_place (name other : String) (value : α) (entries : List (String × α)) :
    valueAt other (place name value entries) =
      if other = name then some value else valueAt other entries := by
  induction entries with
  | nil => simp [place, valueAt]
  | cons entry rest ih =>
    rw [place]
    split
    · simp [valueAt]
    · split
      next heq => by_cases ho : other = name <;> simp [valueAt, ho, heq ▸ ho]
      next hne =>
        by_cases ho : other = entry.1
        · simp [valueAt, ho, Ne.symm hne]
        · simp [valueAt, ho, ih]

/-- A value is found under the names of the entries. -/
theorem isSome_valueAt_iff {name : String} {entries : List (String × α)} :
    (valueAt name entries).isSome = true ↔ name ∈ entries.map (·.1) := by
  induction entries with
  | nil => simp [valueAt]
  | cons entry rest ih =>
    rw [valueAt, List.map_cons, List.mem_cons]
    by_cases h : name = entry.1
    · simp [h]
    · simp [h, ih]

/-- After an insertion the name has the new value and every other name its old one. -/
theorem get?_insert (m : NameMap α) (name other : String) (value : α) :
    (m.insert name value).get? other = if other = name then some value else m.get? other :=
  valueAt_place name other value m.entries

end NameMap

/-- A set of names. -/
abbrev NameSet := NameMap Unit

namespace NameSet

/-- The members in ascending order. -/
def toList (s : NameSet) : List String :=
  NameMap.keys s

def add (s : NameSet) (name : String) : NameSet :=
  NameMap.insert s name ()

def ofList (names : List String) : NameSet :=
  names.foldl add NameMap.empty

def contains (s : NameSet) (name : String) : Bool :=
  (NameMap.get? s name).isSome

@[simp]
theorem contains_add (s : NameSet) (name other : String) :
    (s.add name).contains other = (decide (other = name) || s.contains other) := by
  rw [contains, add, NameMap.get?_insert]
  by_cases h : other = name <;> simp [h, contains]

/-- A set built from a list holds exactly the names of the list. -/
theorem mem_ofList (names : List String) (name : String) :
    (ofList names).contains name = true ↔ name ∈ names := by
  suffices h : ∀ s : NameSet, (names.foldl add s).contains name = true ↔
      s.contains name = true ∨ name ∈ names by
    simpa [ofList, contains, NameMap.get?, NameMap.empty, NameMap.valueAt] using h NameMap.empty
  induction names with
  | nil => simp
  | cons first rest ih =>
    intro s
    rw [List.foldl_cons, ih, contains_add]
    by_cases h : name = first <;> simp [h]

/-- The names of a set are listed in ascending order, each once. -/
theorem toList_ascending (s : NameSet) : s.toList.Pairwise (· < ·) :=
  List.pairwise_map.2 s.ascending

theorem mem_toList {s : NameSet} {name : String} : name ∈ s.toList ↔ s.contains name = true :=
  NameMap.isSome_valueAt_iff.symm

end NameSet

end QuerySplit.Text
