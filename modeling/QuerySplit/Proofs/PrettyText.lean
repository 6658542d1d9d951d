import QuerySplit.Proofs.JsonText

/-!
# Printed values laid out for people

The pretty text of a value has line breaks and blanks between its tokens, and nothing else besides
them. A scan takes no notice of blanks (`scans_newLine`), so the pretty text scans to the tokens of
the compact one (`scans_pretty`) and is read back as the same value (`read?_renderPretty`).
-/

set_option autoImplicit false

namespace QuerySplit.Json

open Token (Scans Stops stops_cons scans_quote scans_number scans_nil stops_nil)

/-! ## Blanks -/

/-- A blank between tokens is no part of any. -/
theorem scans_blank {c : Char} (hblank : Token.isBlank c = true) {cs : List Char}
    {ts : List Token} (h : Scans cs ts) : Scans (c :: cs) ts := by
  intro fuel hfuel
  cases fuel with
  | zero => exact absurd hfuel (Nat.not_succ_le_zero _)
  | succ fuel =>
    rw [Token.scanWithin, if_pos hblank]
    exact h fuel (Nat.le_of_succ_le_succ hfuel)

/-- A line break and an indent, however deep, are blanks. -/
theorem scans_newLine (level : Nat) {rest : List Char} {ts : List Token} (h : Scans rest ts) :
    Scans (newLine level rest) ts := by
  have hindent : ∀ n, Scans (List.replicate n ' ' ++ rest) ts := by
    intro n
    induction n with
    | zero => exact h
    | succ n ih =>
      rw [List.replicate_succ]
      exact scans_blank (by decide) ih
  exact scans_blank (by decide) (hindent (2 * level))

/-- A number stops at the end of its line. -/
theorem stops_newLine (level : Nat) (rest : List Char) : Stops (newLine level rest) :=
  stops_cons (by decide)

/-! ## Values -/

mutual

/-- **The pretty text of a value scans to its tokens**, at every level and in front of any text
that ends a number. -/
theorem scans_pretty : ∀ (j : Json) (level : Nat) {rest : List Char} {ts : List Token}, j.Plain →
    Stops rest → Scans rest ts → Scans (j.pretty level rest) (j.tokens ts)
  | .null, _, _, _, hplain, hstops, h => scans_compact .null hplain hstops h
  | .bool b, _, _, _, hplain, hstops, h => scans_compact (.bool b) hplain hstops h
  | .number n, _, _, _, hplain, hstops, h => scans_compact (.number n) hplain hstops h
  | .string s, _, _, _, hplain, hstops, h => scans_compact (.string s) hplain hstops h
  | .array items, level, _, _, hplain, _, h =>
    scans_text_cons (by decide) rfl (scans_prettyItems items level hplain h)
  | .object members, level, _, _, hplain, _, h =>
    scans_text_cons (by decide) rfl (scans_prettyMembers members level hplain h)

/-- Items on lines of their own, and their closing bracket. -/
theorem scans_prettyItems : ∀ (items : List Json) (level : Nat) {rest : List Char}
    {ts : List Token}, PlainItems items → Scans rest ts →
      Scans (prettyItems level items rest) (tokensOfItems items ts)
  | [], _, _, _, _, h => scans_text_cons (by decide) rfl h
  | [item], level, _, _, hplain, h =>
    scans_newLine (level + 1) (scans_pretty item (level + 1) hplain.1 (stops_newLine level _)
      (scans_newLine level (scans_text_cons (by decide) rfl h)))
  | item :: next :: others, level, _, _, hplain, h =>
    scans_newLine (level + 1) (scans_pretty item (level + 1) hplain.1 (stops_cons (by decide))
      (scans_text_cons (by decide) rfl (scans_prettyItems (next :: others) level hplain.2 h)))

/-- Members on lines of their own, and their closing brace. -/
theorem scans_prettyMembers : ∀ (members : List (String × Json)) (level : Nat) {rest : List Char}
    {ts : List Token}, PlainMembers members → Scans rest ts →
      Scans (prettyMembers level members rest) (tokensOfMembers members ts)
  | [], _, _, _, _, h => scans_text_cons (by decide) rfl h
  | [(name, value)], level, _, _, hplain, h =>
    scans_newLine (level + 1) (scans_quote name (scans_text_cons (by decide) rfl
      (scans_blank (by decide) (scans_pretty value (level + 1) hplain.1 (stops_newLine level _)
        (scans_newLine level (scans_text_cons (by decide) rfl h))))))
  | (name, value) :: next :: others, level, _, _, hplain, h =>
    scans_newLine (level + 1) (scans_quote name (scans_text_cons (by decide) rfl
      (scans_blank (by decide) (scans_pretty value (level + 1) hplain.1 (stops_cons (by decide))
        (scans_text_cons (by decide) rfl
          (scans_prettyMembers (next :: others) level hplain.2 h))))))

end

/-- **A value printed for people is read back.** -/
theorem read?_renderPretty {j : Json} (h : j.Plain) : read? j.renderPretty = some j := by
  have hscan : Token.scan j.renderPretty.toList = some (j.tokens []) := by
    rw [renderPretty, String.toList_ofList]
    exact Token.scan_of_scans (scans_pretty j 0 h stops_nil scans_nil)
  rw [read?, hscan, Option.bind_some, Reader.ofTokens?_tokens h]

end QuerySplit.Json
