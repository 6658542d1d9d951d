import QuerySplit.Split.Analysis

/-!
# Literals between quotes

A text is quoted by doubling its quotes and putting it between two more. Read from behind the
opening quote, two quotes stand for one and a single quote ends the text, so what is read is the
text, and the reading ends where it was put down (`unquote?_eq_some_iff`). Strings are written this
way. Dates and timestamps stand between quotes as they are: they are read back exactly if they have
no quote (`quoted_read_back_iff`), and with one they may end early, in the queries that fetch values
as well (`value_leaves_quotes`).
-/

set_option autoImplicit false

namespace QuerySplit

/-! ## Quoted texts -/

/-- A text with each of its quotes doubled. -/
def doubled (cs : List Char) : List Char :=
  cs.flatMap fun c => if c = '\'' then ['\'', '\''] else [c]

/-- Reads a quoted text from behind its opening quote: the text and what follows its closing
quote. -/
def unquote? : List Char → Option (List Char × List Char)
  | [] => none
  | '\'' :: '\'' :: cs => (unquote? cs).map fun (s, rest) => ('\'' :: s, rest)
  | '\'' :: cs => some ([], cs)
  | c :: cs => (unquote? cs).map fun (s, rest) => (c :: s, rest)

theorem doubled_cons (c : Char) (cs : List Char) :
    doubled (c :: cs) = (if c = '\'' then ['\'', '\''] else [c]) ++ doubled cs :=
  List.flatMap_cons

/-- A character other than a quote stands for itself. -/
theorem unquote?_cons_of_ne {c : Char} (h : c ≠ '\'') (cs : List Char) :
    unquote? (c :: cs) = (unquote? cs).map fun (s, rest) => (c :: s, rest) := by
  rw [unquote?]
  · intro _ hquote
    exact absurd hquote h
  · exact h

/-- A quote that no other follows ends the literal. -/
theorem unquote?_quote {cs : List Char} (h : cs.head? ≠ some '\'') :
    unquote? ('\'' :: cs) = some ([], cs) := by
  cases cs with
  | nil => rfl
  | cons c cs =>
    rw [unquote?]
    intro _ heq
    cases heq
    exact h rfl

/-- What is doubled is read back, up to a quote that no other follows. -/
theorem unquote?_complete (s : List Char) {rest : List Char} (hrest : rest.head? ≠ some '\'') :
    unquote? (doubled s ++ '\'' :: rest) = some (s, rest) := by
  induction s with
  | nil => exact unquote?_quote hrest
  | cons c s ih =>
    rw [doubled_cons]
    split
    · next h =>
      subst h
      show (unquote? (doubled s ++ '\'' :: rest)).map _ = _
      rw [ih]
      rfl
    · next h =>
      show unquote? (c :: (doubled s ++ '\'' :: rest)) = _
      rw [unquote?_cons_of_ne h, ih]
      rfl

/-- Only what is doubled is read, so a literal ends at the first single quote. -/
theorem unquote?_sound {cs s rest : List Char} (h : unquote? cs = some (s, rest)) :
    cs = doubled s ++ '\'' :: rest ∧ rest.head? ≠ some '\'' := by
  induction cs using unquote?.induct generalizing s rest with
  | case1 => cases h
  | case2 cs ih =>
    obtain ⟨⟨s, rest⟩, hread, heq⟩ := Option.map_eq_some_iff.1 h
    cases heq
    obtain ⟨rfl, hrest⟩ := ih hread
    exact ⟨rfl, hrest⟩
  | case3 cs hsingle =>
    -- a quote that is not doubled ends the literal
    have hrest : cs.head? ≠ some '\'' := by
      intro hhead
      obtain ⟨tail, rfl⟩ := List.head?_eq_some_iff.1 hhead
      exact hsingle tail rfl
    rw [unquote?_quote hrest] at h
    cases h
    exact ⟨rfl, hrest⟩
  | case4 c cs hpair hquote ih =>
    rw [unquote?_cons_of_ne hquote] at h
    obtain ⟨⟨s, rest⟩, hread, heq⟩ := Option.map_eq_some_iff.1 h
    cases heq
    obtain ⟨rfl, hrest⟩ := ih hread
    rw [doubled_cons, if_neg hquote]
    exact ⟨rfl, hrest⟩

/-- **What is read from behind an opening quote is the text whose quotes were doubled**, and the
reading ends before a text that does not begin with a quote. -/
theorem unquote?_eq_some_iff {cs s rest : List Char} :
    unquote? cs = some (s, rest) ↔ cs = doubled s ++ '\'' :: rest ∧ rest.head? ≠ some '\'' := by
  constructor
  · exact unquote?_sound
  · rintro ⟨rfl, hrest⟩
    exact unquote?_complete s hrest

/-- The reading ends at a given quote exactly if the quotes before it are doubled. -/
theorem unquote?_append_iff {body s rest : List Char} (hrest : rest.head? ≠ some '\'') :
    unquote? (body ++ '\'' :: rest) = some (s, rest) ↔ body = doubled s := by
  rw [unquote?_eq_some_iff, and_iff_left hrest, List.append_left_inj]

/-- Doubling loses nothing. -/
theorem doubled_inj {s t : List Char} : doubled s = doubled t ↔ s = t := by
  constructor
  · intro h
    have hend : ([] : List Char).head? ≠ some '\'' := by decide
    have hread := unquote?_complete s hend
    rw [h, unquote?_complete t hend] at hread
    cases hread
    rfl
  · rintro rfl
    rfl

/-- Doubling adds as many characters as there are quotes. -/
theorem length_doubled (cs : List Char) : (doubled cs).length = cs.length + cs.count '\'' := by
  induction cs with
  | nil => rfl
  | cons c cs ih =>
    rw [doubled_cons, List.length_append, ih, List.length_cons]
    by_cases h : c = '\''
    · rw [if_pos h, h, List.count_cons_self, List.length_cons, List.length_singleton]
      omega
    · rw [if_neg h, List.count_cons_of_ne h, List.length_singleton]
      omega

/-- Doubling the quotes changes exactly the texts that have one. -/
theorem eq_doubled_self_iff {cs : List Char} : cs = doubled cs ↔ '\'' ∉ cs := by
  constructor
  · intro h
    have hlength := length_doubled cs
    rw [← h] at hlength
    exact List.count_eq_zero.1 (by omega)
  · intro h
    induction cs with
    | nil => rfl
    | cons c cs ih =>
      have hc : c ≠ '\'' := (List.ne_of_not_mem_cons h).symm
      rw [doubled_cons, if_neg hc, ← ih (List.not_mem_of_not_mem_cons h)]
      rfl

/-! ## Literals -/

/-- What stands before the opening quote of a literal, for the kinds that are written between
quotes. -/
def LiteralKind.lead? : LiteralKind → Option String
  | .string => some ""
  | .date => some "DATE "
  | .timestamp => some "TIMESTAMP "
  | .number | .boolean | .null | .unknown => none

namespace Literal

/-- What stands between the quotes of a literal. -/
def quotedPart (v : Literal) : List Char :=
  if v.kind = .string then doubled v.value.toList else v.value.toList

/-- A quoted literal is its lead, a quote, the quoted part and a quote. -/
theorem toList_text {v : Literal} {lead : String} (h : v.kind.lead? = some lead) :
    v.text.toList = lead.toList ++ '\'' :: (v.quotedPart ++ ['\'']) := by
  obtain ⟨value, kind⟩ := v
  cases kind <;> cases h <;>
    simp [text, quoteText, quotedPart, doubled, String.toList_append, String.toList_ofList]

/-- Between its quotes stands what is read back as the value: of a string always, of a date or a
timestamp if it has no quote. -/
theorem quotedPart_eq_doubled_iff {v : Literal} :
    v.quotedPart = doubled v.value.toList ↔ v.kind = .string ∨ '\'' ∉ v.value.toList := by
  by_cases h : v.kind = .string
  · simp [quotedPart, h]
  · simp [quotedPart, h, eq_doubled_self_iff]

/-- Between its quotes stands what is read back as some text: of a date or a timestamp if all its
quotes come in pairs. -/
theorem exists_quotedPart_eq_doubled_iff {v : Literal} :
    (∃ s, v.quotedPart = doubled s) ↔
      v.kind = .string ∨ ∃ s, v.value.toList = doubled s := by
  by_cases h : v.kind = .string
  · simp [quotedPart, h, doubled_inj]
  · simp [quotedPart, h]

end Literal

/-! ## Queries that fetch values -/

/-- The text of a query that fetches values, up to the value of a condition. -/
def DimensionFilter.textUpTo (f : DimensionFilter) (before : List FilterCondition)
    (c : FilterCondition) : String :=
  "SELECT DISTINCT " ++ f.federatedColumn ++ " FROM " ++ f.table ++ " WHERE " ++
    String.join (before.map fun b => b.text ++ " AND ") ++ c.column ++ " " ++ c.op.symbol ++ " "

/-- The text of the conditions that follow the value of another. -/
def FilterCondition.textBehind (after : List FilterCondition) : String :=
  String.join (after.map fun c => " AND " ++ c.text)

/-- Around one part, the separators stand behind the parts before it and in front of the others. -/
theorem intercalate_append_cons {α : Type} (sep : List α) (before : List (List α)) (x : List α)
    (after : List (List α)) :
    sep.intercalate (before ++ x :: after) =
      before.flatMap (· ++ sep) ++ x ++ after.flatMap (sep ++ ·) := by
  induction before generalizing x with
  | nil =>
    induction after generalizing x with
    | nil => simp [List.intercalate]
    | cons y after ih =>
      rw [List.nil_append, List.intercalate_cons_cons, ← List.nil_append (y :: after), ih]
      simp
  | cons y before ih =>
    cases before with
    | nil =>
      have hrest := ih x
      rw [List.nil_append] at hrest
      rw [List.singleton_append, List.intercalate_cons_cons, hrest]
      simp
    | cons z before =>
      rw [List.cons_append, List.cons_append, List.intercalate_cons_cons, ← List.cons_append, ih]
      simp

/-- A query with conditions has a `WHERE` clause that shows them one after the other. -/
theorem DimensionJoin.fetchQuery_of_ne_nil (j : DimensionJoin) {conditions : List FilterCondition}
    (h : conditions ≠ []) :
    j.fetchQuery conditions = "SELECT DISTINCT " ++ j.federatedColumn ++ " FROM " ++ j.table ++
      (" WHERE " ++ " AND ".intercalate (conditions.map FilterCondition.text)) := by
  cases conditions with
  | nil => exact absurd rfl h
  | cons c conditions => rfl

/-- A condition in the text of a query that fetches values. -/
theorem DimensionJoin.toList_fetchQuery {j : DimensionJoin} {s : Select}
    {before after : List FilterCondition} {c : FilterCondition}
    (h : (j.filter s).conditions = before ++ c :: after) :
    (j.filter s).fetchQuery.toList = ((j.filter s).textUpTo before c).toList ++
      (c.value.text.toList ++ (FilterCondition.textBehind after).toList) := by
  have hquery : (j.filter s).fetchQuery = j.fetchQuery (before ++ c :: after) := by
    rw [← h]
    simp only [DimensionJoin.filter]
  have hcolumn : (j.filter s).federatedColumn = j.federatedColumn := rfl
  have htable : (j.filter s).table = j.table := rfl
  rw [hquery, j.fetchQuery_of_ne_nil (by simp)]
  -- not by `rw`: the equation of so long a chain of texts is too slow to make
  unfold DimensionFilter.textUpTo
  simp only [hcolumn, htable, FilterCondition.textBehind, FilterCondition.text,
    String.toList_append, String.toList_intercalate, String.toList_join, List.map_append,
    List.map_cons, List.map_map, intercalate_append_cons, List.flatMap_map, List.append_assoc,
    Function.comp_apply]

/-- No quote follows a literal in a query. -/
theorem FilterCondition.head?_textBehind (after : List FilterCondition) :
    (textBehind after).toList.head? ≠ some '\'' := by
  cases after with
  | nil => decide
  | cons c after =>
    rw [textBehind, String.toList_join, List.map_cons, List.flatMap_cons, String.toList_append]
    intro h
    cases h

/-- **A literal between quotes is read back as its value if its kind has the quotes doubled, and
else exactly if the value has no quote.** So it is in a text of its own, and in every query that
fetches values, where the reading has to end where the next condition begins. It ends there, with
whatever text, if the quotes are doubled or the value has them in pairs only. -/
theorem quoted_read_back_iff {v : Literal} {lead : String} (hlead : v.kind.lead? = some lead) :
    (∃ token, v.text.toList = lead.toList ++ '\'' :: token ∧
      (unquote? token = some (v.value.toList, []) ↔
        v.kind = .string ∨ '\'' ∉ v.value.toList)) ∧
    ∀ (s : Select) (t : FederatedTable), ∀ f ∈ (Split.parts s t).1,
      ∀ (before : List FilterCondition) (c : FilterCondition) (after : List FilterCondition),
        f.conditions = before ++ c :: after → c.value = v →
        ∃ token, f.fetchQuery.toList = (f.textUpTo before c ++ lead).toList ++ '\'' :: token ∧
          (unquote? token = some (v.value.toList, (FilterCondition.textBehind after).toList) ↔
            v.kind = .string ∨ '\'' ∉ v.value.toList) ∧
          ((∃ read, unquote? token = some (read, (FilterCondition.textBehind after).toList)) ↔
            v.kind = .string ∨ ∃ read, v.value.toList = doubled read) := by
  constructor
  · refine ⟨v.quotedPart ++ ['\''], v.toList_text hlead, ?_⟩
    rw [unquote?_append_iff (by decide), v.quotedPart_eq_doubled_iff]
  · rintro s t f hf before c after hconditions rfl
    obtain ⟨j, -, rfl⟩ := List.mem_map.1 hf
    have hrest := FilterCondition.head?_textBehind after
    refine ⟨c.value.quotedPart ++ '\'' :: (FilterCondition.textBehind after).toList, ?_, ?_, ?_⟩
    · rw [j.toList_fetchQuery hconditions, c.value.toList_text hlead, String.toList_append]
      simp only [List.append_assoc, List.cons_append, List.nil_append]
    · rw [unquote?_append_iff hrest, c.value.quotedPart_eq_doubled_iff]
    · simp only [unquote?_append_iff hrest]
      exact c.value.exists_quotedPart_eq_doubled_iff

/-- Impressions of the ads of a client that start on a day. -/
def adsFrom (day : String) : Select where
  items := [.column ⟨some "imp", "device"⟩]
  sources := some [
    { name := "events_aqfer.impressions", alias? := some "imp" },
    { name := "ads", alias? := some "a", join := .inner
      condition := some (.binary (.column ⟨some "imp", "ad_id"⟩) .eq
        (.column ⟨some "a", "id"⟩)) }]
  filter := some (.binary
    (.binary (.column ⟨some "a", "client"⟩) .eq (.literal ⟨"O'Brien", .string⟩)) .and
    (.binary (.column ⟨some "a", "day"⟩) .eq (.literal ⟨day, .date⟩)))

/-- A name with a quote and a day without one stay between the quotes of the query. -/
theorem quoted_read_back_iff_adsFrom :
    ∃ split f, Split.analyze? Dialect.standard.naming (adsFrom "2024-01-01") = some split ∧
      f ∈ split.filters ∧
      f.fetchQuery =
        "SELECT DISTINCT ad_id FROM ads WHERE client = 'O''Brien' AND day = DATE '2024-01-01'" ∧
      (∃ token, f.fetchQuery.toList =
          "SELECT DISTINCT ad_id FROM ads WHERE client = ".toList ++ '\'' :: token ∧
        unquote? token = some ("O'Brien".toList, " AND day = DATE '2024-01-01'".toList)) ∧
      ∃ token, f.fetchQuery.toList =
          "SELECT DISTINCT ad_id FROM ads WHERE client = 'O''Brien' AND day = DATE ".toList ++
            '\'' :: token ∧
        unquote? token = some ("2024-01-01".toList, []) := by
  let client : FilterCondition := ⟨"client", .eq, ⟨"O'Brien", .string⟩⟩
  let day : FilterCondition := ⟨"day", .eq, ⟨"2024-01-01", .date⟩⟩
  obtain ⟨split, f, hsplit, hf, hquery, hconditions, hbefore, hbetween, hbehind⟩ : ∃ split f,
      Split.analyze? Dialect.standard.naming (adsFrom "2024-01-01") = some split ∧
      f ∈ (Split.parts (adsFrom "2024-01-01") split.federated).1 ∧
      f.fetchQuery =
        "SELECT DISTINCT ad_id FROM ads WHERE client = 'O''Brien' AND day = DATE '2024-01-01'" ∧
      f.conditions = [client, day] ∧
      f.textUpTo [] client ++ "" = "SELECT DISTINCT ad_id FROM ads WHERE client = " ∧
      f.textUpTo [client] day ++ "DATE " =
        "SELECT DISTINCT ad_id FROM ads WHERE client = 'O''Brien' AND day = DATE " ∧
      FilterCondition.textBehind [day] = " AND day = DATE '2024-01-01'" :=
    ⟨_, _, rfl, List.mem_cons_self, by decide +kernel, by decide +kernel, by decide +kernel,
      by decide +kernel, by decide +kernel⟩
  obtain ⟨-, hclients⟩ := quoted_read_back_iff (rfl : client.value.kind.lead? = some "")
  obtain ⟨-, hdays⟩ := quoted_read_back_iff (rfl : day.value.kind.lead? = some "DATE ")
  obtain ⟨name, hname, hreadName, -⟩ := hclients _ _ f hf [] client [day] hconditions rfl
  obtain ⟨date, hdate, hreadDate, -⟩ := hdays _ _ f hf [client] day [] hconditions rfl
  rw [hbefore] at hname
  rw [hbetween] at hdate
  rw [hbehind] at hreadName
  have hfilter : f ∈ split.filters := by
    obtain ⟨found, -, rfl⟩ := Option.map_eq_some_iff.1 hsplit
    exact hf
  exact ⟨split, f, hsplit, hfilter, hquery, ⟨name, hname, hreadName.2 (.inl rfl)⟩,
    date, hdate, hreadDate.2 (.inr (by decide))⟩

/-- **A day with a quote leaves its quotes**: the literal ends at that quote, and what stands behind
it becomes a part of the query that fetches values. -/
theorem value_leaves_quotes :
    (Literal.text ⟨"2024-01-01' OR 'a' = 'a", .date⟩ = "DATE '2024-01-01' OR 'a' = 'a'" ∧
      unquote? "2024-01-01' OR 'a' = 'a'".toList =
        some ("2024-01-01".toList, " OR 'a' = 'a'".toList)) ∧
    ∃ split f, Split.analyze? Dialect.standard.naming (adsFrom "2024-01-01' OR 'a' = 'a") =
        some split ∧
      f ∈ split.filters ∧
      f.fetchQuery = "SELECT DISTINCT ad_id FROM ads WHERE client = 'O''Brien' " ++
        "AND day = DATE '2024-01-01' OR 'a' = 'a'" :=
  ⟨by decide +kernel, _, _, rfl, List.mem_cons_self, by decide +kernel⟩

end QuerySplit
