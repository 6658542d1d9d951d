/-!
# Segments of a dotted name

A name such as `sales.orders_v2` is read from its end: the part after the last dot is the table
or column, the part before it qualifies it. `cutLast` is the one operation; everything that
splits a name goes through it.

Main statement: `cutLast_eq_some_iff`, a cut is at a separator that no later one follows.
-/

set_option autoImplicit false

namespace QuerySplit.Text

/-- The parts before and after the last separator, or nothing when there is no separator. -/
def cutLast (sep : Char) : List Char → Option (List Char × List Char)
  | [] => none
  | c :: cs =>
    match cutLast sep cs with
    | some (before, after) => some (c :: before, after)
    | none => if c = sep then some ([], cs) else none

/-- The part after the last separator; the whole text when there is none. -/
def lastSegment (sep : Char) (cs : List Char) : List Char :=
  match cutLast sep cs with
  | some (_, after) => after
  | none => cs

/-- The last dotted segment of a name. -/
def shortName (name : String) : String :=
  String.ofList (lastSegment '.' name.toList)

/-- A text is not cut only where the separator is missing. -/
theorem cutLast_eq_none_iff {sep : Char} {cs : List Char} :
    cutLast sep cs = none ↔ sep ∉ cs := by
  induction cs with
  | nil => simp [cutLast]
  | cons c cs ih =>
    rw [cutLast]
    split
    next before after h =>
      have hmem : sep ∈ cs := by
        refine Decidable.by_contra fun hn => ?_
        rw [ih.2 hn] at h
        cases h
      simp [hmem]
    next h =>
      have hmem : sep ∉ cs := ih.1 h
      by_cases hc : c = sep
      · simp [hc]
      · simp [hc, hmem, Ne.symm hc]

/-- The separator behind which there is no other one is where a text is cut. -/
theorem cutLast_append {sep : Char} (before : List Char) {after : List Char} (h : sep ∉ after) :
    cutLast sep (before ++ sep :: after) = some (before, after) := by
  induction before with
  | nil => rw [List.nil_append, cutLast, cutLast_eq_none_iff.2 h, if_pos rfl]
  | cons c before ih => rw [List.cons_append, cutLast, ih]

/-- The two parts with the separator between them are the text, and the second part has no
separator. -/
theorem eq_append_of_cutLast {sep : Char} {cs before after : List Char}
    (h : cutLast sep cs = some (before, after)) : cs = before ++ sep :: after ∧ sep ∉ after := by
  induction cs generalizing before with
  | nil => cases h
  | cons c cs ih =>
    rw [cutLast] at h
    split at h
    · next b a hcut =>
      cases h
      obtain ⟨rfl, hafter⟩ := ih hcut
      exact ⟨rfl, hafter⟩
    · next hcut =>
      split at h
      · next hc =>
        cases h
        exact ⟨by rw [hc, List.nil_append], cutLast_eq_none_iff.1 hcut⟩
      · cases h

/-- A text is cut at its last separator. -/
theorem cutLast_eq_some_iff {sep : Char} {cs before after : List Char} :
    cutLast sep cs = some (before, after) ↔ cs = before ++ sep :: after ∧ sep ∉ after :=
  ⟨eq_append_of_cutLast, fun ⟨hcs, hafter⟩ => hcs ▸ cutLast_append before hafter⟩

end QuerySplit.Text
