/-!
# Letter case

Names of tables, functions and dialects are compared without regard to ASCII case: a capital
`A` to `Z` equals its small letter and every other character equals itself only.

Main statements: `eqIgnoreCase` is an equivalence, and it holds exactly when the two texts have
the same small form.
-/

set_option autoImplicit false

namespace QuerySplit.Text

/-- The characters of a text with the ASCII capitals made small. -/
def lower (s : String) : List Char :=
  s.toList.map Char.toLower

/-- Whether two texts differ in ASCII case at most. -/
def eqIgnoreCase (a b : String) : Bool :=
  lower a == lower b

/-- Texts agree up to ASCII case when their small forms are the same. -/
theorem eqIgnoreCase_iff {a b : String} : eqIgnoreCase a b = true ↔ lower a = lower b := by
  simp [eqIgnoreCase]

@[simp]
theorem eqIgnoreCase_self (a : String) : eqIgnoreCase a a = true := by
  simp [eqIgnoreCase]

theorem eqIgnoreCase_comm (a b : String) : eqIgnoreCase a b = eqIgnoreCase b a := by
  rw [Bool.eq_iff_iff, eqIgnoreCase_iff, eqIgnoreCase_iff, eq_comm]

theorem eqIgnoreCase_trans {a b c : String} (hab : eqIgnoreCase a b = true)
    (hbc : eqIgnoreCase b c = true) : eqIgnoreCase a c = true :=
  eqIgnoreCase_iff.2 ((eqIgnoreCase_iff.1 hab).trans (eqIgnoreCase_iff.1 hbc))

/-- Texts that agree up to case agree with the same texts. -/
theorem eqIgnoreCase_congr {a b : String} (h : eqIgnoreCase a b = true) (c : String) :
    eqIgnoreCase c a = eqIgnoreCase c b := by
  rw [eqIgnoreCase, eqIgnoreCase, eqIgnoreCase_iff.1 h]

/-- The small form of a character that an ASCII keyword can hold. The Kelvin sign is the one
character outside ASCII whose small form is an ASCII letter. -/
def keywordChar (c : Char) : Char :=
  if c = '\u212a' then 'k' else c.toLower

/-- The text as it is looked up among ASCII keywords. -/
def keyword (s : String) : String :=
  String.ofList (s.toList.map keywordChar)

end QuerySplit.Text
