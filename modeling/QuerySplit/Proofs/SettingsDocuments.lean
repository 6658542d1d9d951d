import QuerySplit.Proofs.JsonRecords
import QuerySplit.Proofs.PrettyText
import QuerySplit.Settings.Document

/-!
# Settings read from their documents

The policies of settings are printed as the members of an object, and their order there says
nothing: entries inserted one by one into a map come out in the order of their names
(`NameMap.ofList_eq_of_perm`). A member that is taken out of a document is a field without a value
(`without_eq_written`), for which decoding takes the default. So a document without some of its
members gives the settings with the defaults in these places and nowhere else
(`ofDocument_partialJson`).
-/

set_option autoImplicit false

namespace QuerySplit

/-! ## Maps from their entries -/

namespace Text.NameMap

variable {α : Type}

/-- A new entry takes its place among the others and moves none past another. -/
theorem place_perm {name : String} (value : α) {entries : List (String × α)}
    (hfresh : ∀ e ∈ entries, e.1 ≠ name) :
    (place name value entries).Perm ((name, value) :: entries) := by
  induction entries with
  | nil => exact .refl _
  | cons entry rest ih =>
    obtain ⟨hentry, hrest⟩ := List.forall_mem_cons.1 hfresh
    rw [place]
    split
    · exact .refl _
    · rw [if_neg hentry.symm]
      exact ((ih hrest).cons entry).trans (.swap _ _ _)

/-- Inserting entries under distinct new names adds exactly these. The map so far is generalised. -/
theorem entries_foldl_insert_perm {entries : List (String × α)}
    (hnodup : (entries.map (·.1)).Nodup) (m : NameMap α)
    (hfresh : ∀ e ∈ m.entries, e.1 ∉ entries.map (·.1)) :
    (entries.foldl (fun m e => m.insert e.1 e.2) m).entries.Perm (entries ++ m.entries) := by
  induction entries generalizing m with
  | nil => exact .refl _
  | cons entry rest ih =>
    obtain ⟨name, value⟩ := entry
    rw [List.map_cons, List.nodup_cons] at hnodup
    obtain ⟨hname, hnodup⟩ := hnodup
    have hplace : (m.insert name value).entries.Perm ((name, value) :: m.entries) := by
      refine place_perm value fun e he heq => hfresh e he ?_
      rw [heq]
      exact List.mem_cons_self
    have hinserted : ∀ e ∈ (m.insert name value).entries, e.1 ∉ rest.map (·.1) := by
      intro e he hmem
      rcases List.mem_cons.1 (hplace.mem_iff.1 he) with rfl | he
      · exact hname hmem
      · exact hfresh e he (List.mem_cons_of_mem _ hmem)
    exact (ih hnodup _ hinserted).trans ((hplace.append_left rest).trans List.perm_middle)

theorem names_nodup (m : NameMap α) : (m.entries.map (·.1)).Nodup :=
  List.pairwise_map.2 (m.ascending.imp fun hlt => String.ne_of_lt hlt)

/-- A map is its entries. -/
theorem eq_of_entries_eq {m n : NameMap α} (h : m.entries = n.entries) : m = n := by
  cases m
  cases n
  cases h
  rfl

/-- **A map is what its entries make, in whatever order they are inserted.** -/
theorem ofList_eq_of_perm {m : NameMap α} {entries : List (String × α)}
    (h : entries.Perm m.entries) : ofList entries = m := by
  have hnodup : (entries.map (·.1)).Nodup := (h.map _).nodup_iff.2 m.names_nodup
  have hperm : (ofList entries).entries.Perm m.entries := by
    have hfold := entries_foldl_insert_perm hnodup empty (List.forall_mem_nil _)
    exact (hfold.trans (by rw [empty, List.append_nil])).trans h
  refine eq_of_entries_eq (hperm.eq_of_pairwise ?_ (ofList entries).ascending m.ascending)
  intro a b _ _ hab hba
  exact absurd hba (String.lt_asymm hab)

end Text.NameMap

/-! ## Members taken out -/

namespace Json

variable {α : Type}

/-- An object without the members of some names. -/
def without (removed : List String) : Json → Json
  | .object members => .object (members.filter (·.1 ∉ removed))
  | j => j

/-- A member that is taken out is a field without a value. -/
theorem without_eq_written (removed : List String) (members : List (String × Json)) :
    (object members).without removed = .object
      (written (members.map fun m => (m.1, if m.1 ∈ removed then none else some m.2))) := by
  refine congrArg object ?_
  induction members with
  | nil => rfl
  | cons m members ih =>
    rw [List.map_cons, written_cons, ← ih, List.filter_cons]
    by_cases hm : m.1 ∈ removed <;> simp [hm, given]

theorem without_nil (j : Json) : j.without [] = j := by
  cases j <;> simp [without]

/-- What was taken out of an object is missing, and every other field is found. -/
theorem fields?_without (j : Json) (names : List String) {members : List (String × Json)}
    (hj : j = .object members) (hnames : members.map (·.1) = names) (hnodup : names.Nodup)
    (removed : List String) :
    fields? names (j.without removed) =
      some (members.map fun m => if m.1 ∈ removed then none else some m.2) := by
  rw [hj, without_eq_written, fields?_written (by rwa [List.map_map]) hnodup, List.map_map]
  rfl

/-- Taking members out leaves a plain value plain. -/
theorem plain_without {j : Json} (h : j.Plain) (removed : List String) :
    (j.without removed).Plain := by
  cases j with
  | object members =>
    refine plainMembers_iff.2 fun m hm => ?_
    exact plainMembers_iff.1 h m (List.mem_filter.1 hm).1
  | _ => exact h

/-- A field that may have been taken out has its value, or the default. -/
theorem defaulted_unless {decode : Json → Option α} {j : Json} {a : α} (h : decode j = some a)
    (default : α) (p : Prop) [Decidable p] :
    defaulted default decode (if p then none else some j) = some (if p then default else a) := by
  split
  · rfl
  · exact h

theorem list?_strings (ss : List String) : list? string? (.array (ss.map .string)) = some ss :=
  mapM_map_eq_some fun s _ => (rfl : string? (.string s) = some s)

theorem plain_string (s : String) : (Json.string s).Plain :=
  trivial

theorem plain_strings (ss : List String) : Plain (.array (ss.map .string)) :=
  plain_array plain_string ss

end Json

/-! ## Policies -/

namespace DialectPolicy

theorem ofJson?_toJson (p : DialectPolicy) : ofJson? p.toJson = some p := by
  have hfields : Json.fields? ["mode", "dialects"] p.toJson =
      some [some p.mode.toJson, some (.array (p.dialects.map .string))] := by
    rw [← p.toJson.without_nil]
    exact (p.toJson.fields?_without ["mode", "dialects"] rfl rfl (by decide) []).trans rfl
  have hmode : DialectMode.ofJson? p.mode.toJson = some p.mode := by
    cases p.mode <;> rfl
  simp only [ofJson?, hfields, Option.bind_eq_bind, Option.bind_some, Json.required,
    Json.defaulted, hmode, Json.list?_strings, Option.pure_def]

theorem plain_toJson (p : DialectPolicy) : p.toJson.Plain :=
  ⟨trivial, Json.plain_strings p.dialects, trivial⟩

/-- The policies as the members of an object, in a given order. -/
def listToJson (policies : List (String × DialectPolicy)) : Json :=
  .object (policies.map fun (rule, p) => (rule, p.toJson))

theorem plain_listToJson (policies : List (String × DialectPolicy)) :
    (listToJson policies).Plain := by
  refine Json.plainMembers_iff.2 fun m hm => ?_
  obtain ⟨⟨rule, p⟩, -, rfl⟩ := List.mem_map.1 hm
  exact p.plain_toJson

/-- **Policies are decoded back from every order of their members.** -/
theorem mapOfJson?_listToJson {m : Text.NameMap DialectPolicy}
    {policies : List (String × DialectPolicy)} (h : policies.Perm m.entries) :
    mapOfJson? (listToJson policies) = some m := by
  have hpolicy : ∀ (rule : String) (p : DialectPolicy),
      (ofJson? p.toJson).map (rule, ·) = some (rule, p) := by
    intro rule p
    rw [ofJson?_toJson, Option.map_some]
  rw [listToJson, mapOfJson?, Json.mapM_map_eq_some fun policy _ => hpolicy policy.1 policy.2]
  simp only [Option.bind_eq_bind, Option.bind_some, Text.NameMap.ofList_eq_of_perm h,
    Option.pure_def]

end DialectPolicy

/-! ## Switches -/

namespace Switches

/-- The switches with some of them at their defaults. -/
def reset (removed : List String) (s : Switches) : Switches where
  tableRouting := if RuleName.tableRouting ∈ removed then ({} : Switches).tableRouting
    else s.tableRouting
  orToIn := if RuleName.orToIn ∈ removed then ({} : Switches).orToIn else s.orToIn
  countDistinct := if RuleName.countDistinct ∈ removed then ({} : Switches).countDistinct
    else s.countDistinct

theorem plain_toJson (s : Switches) : s.toJson.Plain :=
  ⟨trivial, trivial, trivial, trivial⟩

/-- Switches that were taken out of the document are on. -/
theorem ofJson?_without (s : Switches) (removed : List String) :
    ofJson? (s.toJson.without removed) = some (s.reset removed) := by
  have hfields : Json.fields? [RuleName.tableRouting, RuleName.orToIn, RuleName.countDistinct]
      (s.toJson.without removed) = some [
        if RuleName.tableRouting ∈ removed then none else some (.bool s.tableRouting),
        if RuleName.orToIn ∈ removed then none else some (.bool s.orToIn),
        if RuleName.countDistinct ∈ removed then none else some (.bool s.countDistinct)] :=
    s.toJson.fields?_without [RuleName.tableRouting, RuleName.orToIn, RuleName.countDistinct]
      rfl rfl (by decide) removed
  have hbool : ∀ b, Json.bool? (.bool b) = some b := fun _ => rfl
  simp only [ofJson?, hfields, Option.bind_eq_bind, Option.bind_some,
    Json.defaulted_unless (hbool _), Option.pure_def, reset]

end Switches

/-! ## Settings -/

namespace Settings

/-- The settings with some members, and some of the switches, at their defaults. -/
def reset (removed removedSwitches : List String) (s : Settings) : Settings where
  included := if "include" ∈ removed then ({} : Settings).included else s.included
  excluded := if "exclude" ∈ removed then ({} : Settings).excluded else s.excluded
  switches := if "flags" ∈ removed then ({} : Settings).switches
    else s.switches.reset removedSwitches
  dialects := if "dialects" ∈ removed then ({} : Settings).dialects else s.dialects

/-- The document of settings with the policies in a given order, without some members and some
switches. -/
def partialJson (s : Settings) (policies : List (String × DialectPolicy))
    (removed removedSwitches : List String) : Json :=
  (Json.object [("include", .array (s.included.map .string)),
    ("exclude", .array (s.excluded.map .string)),
    ("flags", s.switches.toJson.without removedSwitches),
    ("dialects", DialectPolicy.listToJson policies)]).without removed

/-- Nothing is left out of the whole document. -/
theorem partialJson_nil (s : Settings) : s.partialJson s.dialects.entries [] [] = s.toJson := by
  rw [partialJson, Json.without_nil, Json.without_nil]
  rfl

theorem plain_partialJson (s : Settings) (policies : List (String × DialectPolicy))
    (removed removedSwitches : List String) :
    (s.partialJson policies removed removedSwitches).Plain :=
  have hplain : Json.Plain (.object [("include", .array (s.included.map .string)),
      ("exclude", .array (s.excluded.map .string)),
      ("flags", s.switches.toJson.without removedSwitches),
      ("dialects", DialectPolicy.listToJson policies)]) :=
    ⟨Json.plain_strings _, Json.plain_strings _, Json.plain_without s.switches.plain_toJson _,
      DialectPolicy.plain_listToJson policies, trivial⟩
  Json.plain_without hplain removed

theorem reset_nil (s : Settings) : s.reset [] [] = s := by
  simp [reset, Switches.reset]

/-- Settings are decoded from any part of their members, with the policies in any order; what is
missing has its default. -/
theorem ofJson?_partialJson (s : Settings) {policies : List (String × DialectPolicy)}
    (hpolicies : policies.Perm s.dialects.entries) (removed removedSwitches : List String) :
    ofJson? (s.partialJson policies removed removedSwitches) =
      some (s.reset removed removedSwitches) := by
  have hfields : Json.fields? ["include", "exclude", "flags", "dialects"]
      (s.partialJson policies removed removedSwitches) = some [
        if "include" ∈ removed then none else some (.array (s.included.map .string)),
        if "exclude" ∈ removed then none else some (.array (s.excluded.map .string)),
        if "flags" ∈ removed then none else some (s.switches.toJson.without removedSwitches),
        if "dialects" ∈ removed then none else some (DialectPolicy.listToJson policies)] :=
    Json.fields?_without _ ["include", "exclude", "flags", "dialects"] rfl rfl (by decide) removed
  simp only [ofJson?, hfields, Option.bind_eq_bind, Option.bind_some,
    Json.defaulted_unless (Json.list?_strings _),
    Json.defaulted_unless (s.switches.ofJson?_without removedSwitches),
    Json.defaulted_unless (DialectPolicy.mapOfJson?_listToJson hpolicies), Option.pure_def, reset]

/-- The same from the text of the document. -/
theorem ofDocument_partialJson (s : Settings) {policies : List (String × DialectPolicy)}
    (hpolicies : policies.Perm s.dialects.entries) (removed removedSwitches : List String) :
    ofDocument (s.partialJson policies removed removedSwitches).renderPretty =
      .ok (s.reset removed removedSwitches) := by
  rw [ofDocument, Json.read?_renderPretty (s.plain_partialJson policies removed removedSwitches),
    Option.bind_some, s.ofJson?_partialJson hpolicies]

/-- **Settings are what their documents say.** The document of settings, with its policies in
whatever order, is read back as the settings; without some of its members it is read as the
settings with these members, and no others, at their defaults. The usual policies come in for a
document without policies only, and none of them joins those of a document that has its own. -/
theorem documents_decode (s : Settings) :
    ofDocument s.document = .ok s ∧
      ∀ policies : List (String × DialectPolicy), policies.Perm s.dialects.entries →
        ofDocument (s.partialJson policies [] []).renderPretty = .ok s ∧
        ∀ removed removedSwitches : List String,
          ofDocument (s.partialJson policies removed removedSwitches).renderPretty =
            .ok (s.reset removed removedSwitches) ∧
          ("dialects" ∉ removed → (s.reset removed removedSwitches).dialects = s.dialects) := by
  have hwhole : ∀ policies : List (String × DialectPolicy), policies.Perm s.dialects.entries →
      ofDocument (s.partialJson policies [] []).renderPretty = .ok s := by
    intro policies hpolicies
    rw [s.ofDocument_partialJson hpolicies, reset_nil]
  refine ⟨?_, fun policies hpolicies => ⟨hwhole policies hpolicies, fun removed switches => ?_⟩⟩
  · have hdocument := hwhole s.dialects.entries (.refl _)
    rwa [partialJson_nil] at hdocument
  · exact ⟨s.ofDocument_partialJson hpolicies removed switches, fun h => if_neg h⟩

/-- Settings with policies for two rules. -/
def twoPolicies : Settings where
  included := [RuleName.orToIn]
  excluded := [RuleName.countDistinct]
  switches := ⟨false, true, false⟩
  dialects := usualPolicies.insert RuleName.countDistinct ⟨.includes, ["bigquery", "snowflake"]⟩

/-- The policies are printed in descending order of their rules, and a list and a switch are left
out. -/
theorem documents_decode_twoPolicies :
    twoPolicies.dialects.entries.reverse.map (·.1) = [RuleName.orToIn, RuleName.countDistinct] ∧
      ofDocument (twoPolicies.partialJson twoPolicies.dialects.entries.reverse ["exclude"]
        [RuleName.tableRouting]).renderPretty =
        .ok { twoPolicies with excluded := [], switches := ⟨true, true, false⟩ } := by
  obtain ⟨-, hpolicies⟩ := documents_decode twoPolicies
  obtain ⟨-, hpartial⟩ := hpolicies twoPolicies.dialects.entries.reverse (List.reverse_perm _)
  refine ⟨by decide, ?_⟩
  rw [(hpartial ["exclude"] [RuleName.tableRouting]).1]
  rfl

end Settings

end QuerySplit
