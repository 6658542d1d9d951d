import QuerySplit.Json.Printer
import QuerySplit.Json.Token

/-!
# The tokens of a printed value

`tokens` lists the tokens that the compact text of a value is made of, in front of the tokens of a
rest, as the printer puts the text in front of a rest. Scanning the compact text gives exactly
these (`scans_compact`): every string literal is read back character by character, whatever it
holds, and every number up to its last digit.

Numbers are natural numbers below two to the 64 here, the only ones that documents of this library
hold; `Plain` says so of a value, and that every part of it names one.
-/

set_option autoImplicit false

namespace QuerySplit.Json

mutual

/-- Every part names a value, and every number is a natural number of 64 bits. -/
def Plain : Json → Prop
  | .null | .bool _ | .string _ => True
  | .number n => ∃ k : Nat, k < UInt64.size ∧ n = .whole k
  | .array items => PlainItems items
  | .object members => PlainMembers members
  | .unreadable => False

def PlainItems : List Json → Prop
  | [] => True
  | item :: rest => item.Plain ∧ PlainItems rest

def PlainMembers : List (String × Json) → Prop
  | [] => True
  | (_, value) :: rest => value.Plain ∧ PlainMembers rest

end

mutual

/-- The tokens of a value, in front of a rest. -/
def tokens : Json → List Token → List Token
  | .null, rest => .null :: rest
  | .bool b, rest => .bool b :: rest
  | .number n, rest => .number (some n) :: rest
  | .string s, rest => .string (some s) :: rest
  | .unreadable, rest => .string none :: rest
  | .array items, rest => .openArray :: tokensOfItems items rest
  | .object members, rest => .openObject :: tokensOfMembers members rest

/-- The tokens of items and of the closing bracket, in front of a rest. -/
def tokensOfItems : List Json → List Token → List Token
  | [], rest => .closeArray :: rest
  | [item], rest => item.tokens (.closeArray :: rest)
  | item :: others, rest => item.tokens (.comma :: tokensOfItems others rest)

/-- The tokens of members and of the closing brace, in front of a rest. -/
def tokensOfMembers : List (String × Json) → List Token → List Token
  | [], rest => .closeObject :: rest
  | [(name, value)], rest =>
    .string (some name) :: .colon :: value.tokens (.closeObject :: rest)
  | (name, value) :: others, rest =>
    .string (some name) :: .colon :: value.tokens (.comma :: tokensOfMembers others rest)

end

namespace Token

/-! ## Scanning token by token -/

/-- The text is made of these tokens. More fuel than the text is long changes nothing. -/
def Scans (cs : List Char) (tokens : List Token) : Prop :=
  ∀ fuel, cs.length ≤ fuel → scanWithin fuel cs = some tokens

/-- A scan of the whole text has fuel enough. -/
theorem scan_of_scans {cs : List Char} {tokens : List Token} (h : Scans cs tokens) :
    scan cs = some tokens :=
  h cs.length (Nat.le_refl _)

theorem scans_nil : Scans [] [] := by
  intro fuel _
  rw [scanWithin]

/-- A token in front of a text. -/
theorem scans_cons {c : Char} {cs rest : List Char} {token : Token} {tokens : List Token}
    (hblank : isBlank c = false) (hnext : next? (c :: cs) = some (token, rest))
    (hlen : rest.length ≤ cs.length) (h : Scans rest tokens) :
    Scans (c :: cs) (token :: tokens) := by
  intro fuel hfuel
  cases fuel with
  | zero => exact absurd hfuel (Nat.not_succ_le_zero _)
  | succ fuel =>
    have hrest : scanWithin fuel rest = some tokens :=
      h fuel (Nat.le_trans hlen (Nat.le_of_succ_le_succ hfuel))
    rw [scanWithin, hblank]
    simp only [Bool.false_eq_true, if_false, hnext, hrest, Option.bind_eq_bind,
      Option.bind_some, Option.pure_def]

/-! ## String literals -/

/-- A digit of a code is read as what it was written for. -/
theorem hexDigit?_hexChar {n : Nat} (h : n < 16) : hexDigit? (hexChar n) = some n := by
  have hall : ∀ n < 16, hexDigit? (hexChar n) = some n := by decide
  exact hall n h

/-- A control character is named by the two digits of its code. -/
theorem hexCode?_of_lt {n : Nat} (h : n < 0x20) :
    hexCode? '0' '0' (hexChar (n / 16)) (hexChar (n % 16)) = some n := by
  have hzero : hexDigit? '0' = some 0 := by decide
  have hhigh : hexDigit? (hexChar (n / 16)) = some (n / 16) := hexDigit?_hexChar (by omega)
  have hlow : hexDigit? (hexChar (n % 16)) = some (n % 16) := hexDigit?_hexChar (by omega)
  simp only [hexCode?, hzero, hhigh, hlow, Option.bind_eq_bind, Option.bind_some,
    Option.pure_def, Option.some.injEq]
  omega

/-- What the printer writes for a character inside a literal: a short escape, the code of a
control character, or the character itself. -/
theorem escape_cases (c : Char) :
    (∃ e, escape c = ['\\', e] ∧ e ≠ 'u' ∧ shortEscape? e = some c) ∨
    (escape c = ['\\', 'u', '0', '0', hexChar (c.toNat / 16), hexChar (c.toNat % 16)] ∧
      c.toNat < 0x20) ∨
    (escape c = [c] ∧ c ≠ '"' ∧ c ≠ '\\' ∧ ¬ c.toNat < 0x20) := by
  unfold escape
  split
  · next h =>
    subst h
    exact .inl ⟨'"', rfl, by decide, rfl⟩
  split
  · next h =>
    subst h
    exact .inl ⟨'\\', rfl, by decide, rfl⟩
  split
  · next h =>
    subst h
    exact .inl ⟨'b', rfl, by decide, rfl⟩
  split
  · next h =>
    subst h
    exact .inl ⟨'t', rfl, by decide, rfl⟩
  split
  · next h =>
    subst h
    exact .inl ⟨'n', rfl, by decide, rfl⟩
  split
  · next h =>
    subst h
    exact .inl ⟨'f', rfl, by decide, rfl⟩
  split
  · next h =>
    subst h
    exact .inl ⟨'r', rfl, by decide, rfl⟩
  split
  · next hcontrol => exact .inr (.inl ⟨rfl, hcontrol⟩)
  · next hquote hslash _ _ _ _ _ hcontrol => exact .inr (.inr ⟨rfl, hquote, hslash, hcontrol⟩)

/-- A backslash before any letter but `u` is a short escape. -/
theorem piece?_short {e : Char} (h : e ≠ 'u') (rest : List Char) :
    piece? ('\\' :: e :: rest) = (shortEscape? e).map (.char ·, rest) := by
  rw [piece?.eq_def]
  split
  · next heq =>
    cases heq
    exact absurd rfl h
  · next heq =>
    cases heq
    rfl
  · next heq => cases heq
  · next hshort _ heq =>
    cases heq
    exact (hshort e rest rfl rfl).elim
  · next heq => cases heq

/-- A character that needs no escape stands for itself. -/
theorem piece?_plain {c : Char} (hslash : c ≠ '\\') (hcontrol : ¬ c.toNat < 0x20)
    (rest : List Char) : piece? (c :: rest) = some (.char c, rest) := by
  rw [piece?.eq_def]
  split
  · next heq =>
    cases heq
    exact absurd rfl hslash
  · next heq =>
    cases heq
    exact absurd rfl hslash
  · next heq =>
    cases heq
    exact absurd rfl hslash
  · next heq =>
    cases heq
    rw [if_neg hcontrol]
  · next heq => cases heq

/-- The first step of an escaped character is the character. -/
theorem piece?_escape (c : Char) (rest : List Char) :
    piece? (escape c ++ rest) = some (.char c, rest) := by
  obtain ⟨e, hescape, he, hshort⟩ | ⟨hescape, hcontrol⟩ | ⟨hescape, -, hslash, hcontrol⟩ :=
    escape_cases c
  · rw [hescape, List.cons_append, List.singleton_append, piece?_short he, hshort,
      Option.map_some]
  · have hpiece : pieceOfCode c.toNat = .char c := by
      rw [pieceOfCode, if_neg (by omega), Char.ofNat_toNat]
    simp only [hescape, List.cons_append, List.nil_append, piece?, hexCode?_of_lt hcontrol,
      Option.map_some, hpiece]
  · rw [hescape, List.singleton_append, piece?_plain hslash hcontrol]

/-- No character is written with a quote at its start, so none ends the literal. -/
theorem escape_ne_quote (c : Char) (rest tail : List Char) : escape c ++ rest ≠ '"' :: tail := by
  intro h
  obtain ⟨e, hescape, -, -⟩ | ⟨hescape, -⟩ | ⟨hescape, hquote, -, -⟩ := escape_cases c
  · rw [hescape] at h
    cases h
  · rw [hescape] at h
    cases h
  · rw [hescape] at h
    cases h
    exact hquote rfl

/-- Inside a literal each step takes one piece off. -/
theorem body?_of_piece {cs rest : List Char} {p : Piece} (hquote : ∀ tail, cs ≠ '"' :: tail)
    (hpiece : piece? cs = some (p, rest)) :
    body? cs = (body? rest).map fun (ps, tail) => (p :: ps, tail) := by
  rw [body?.eq_def]
  split
  · next heq => exact absurd rfl (hquote _)
  · split
    · next heq =>
      rw [hpiece] at heq
      cases heq
      rfl
    · next heq =>
      rw [hpiece] at heq
      cases heq

/-- The body of a string literal is read back up to its closing quote. -/
theorem body?_flatMap_escape (cs rest : List Char) :
    body? (cs.flatMap escape ++ '"' :: rest) = some (cs.map .char, rest) := by
  induction cs with
  | nil => rw [List.flatMap_nil, List.nil_append, body?, List.map_nil]
  | cons c cs ih =>
    rw [List.flatMap_cons, List.append_assoc,
      body?_of_piece (escape_ne_quote c _) (piece?_escape c _), ih, Option.map_some,
      List.map_cons]

/-- Characters join to themselves; only surrogates need a partner. -/
theorem join?_map_char (cs : List Char) : join? (cs.map .char) = some cs := by
  induction cs with
  | nil => rfl
  | cons c cs ih => rw [List.map_cons, join?, ih, Option.map_some]

/-- A string literal in front of a text is one token, whatever the string holds. -/
theorem scans_quote (s : String) {rest : List Char} {tokens : List Token}
    (h : Scans rest tokens) : Scans (quote s ++ rest) (.string (some s) :: tokens) := by
  have hbody : quote s ++ rest = '"' :: (s.toList.flatMap escape ++ '"' :: rest) := by
    simp [quote]
  rw [hbody]
  refine scans_cons (by decide) ?_ ?_ h
  · rw [next?, body?_flatMap_escape]
    simp only [Option.map_some, join?_map_char, String.ofList_toList]
  · simp only [List.length_append, List.length_cons]
    omega

/-! ## Numbers -/

/-- What follows a number ends it: no digit, point or exponent mark. -/
def Stops (rest : List Char) : Prop :=
  ∀ c ∈ rest.head?, c.isDigit = false ∧ c ≠ '.' ∧ c ≠ 'e' ∧ c ≠ 'E'

theorem stops_nil : Stops [] :=
  fun _ h => nomatch h

/-- A number stops before a character that can be no part of one. -/
theorem stops_cons {c : Char} {rest : List Char}
    (h : c.isDigit = false ∧ c ≠ '.' ∧ c ≠ 'e' ∧ c ≠ 'E') : Stops (c :: rest) := by
  intro d hd
  cases hd
  exact h

/-- Numerals are made of digits. -/
theorem isDigit_of_mem_toDigits {n : Nat} {c : Char} (h : c ∈ Nat.toDigits 10 n) :
    c.isDigit = true :=
  Nat.isDigit_of_mem_toDigits (by decide) (by decide) h

/-- A numeral spells the number that it was written for. -/
theorem digitsValue_toDigits (n : Nat) : Decimal.digitsValue (Nat.toDigits 10 n) = n :=
  Nat.ofDigitChars_ten_toDigits

/-- Only zero is written with a zero in front, and it is written with nothing else. -/
theorem eq_zero_of_head?_toDigits {n : Nat} (h : (Nat.toDigits 10 n).head? = some '0') :
    n = 0 := by
  induction n using Nat.strongRecOn with
  | ind n ih =>
    rw [Nat.toDigits_eq_if (by decide)] at h
    split at h
    · next hlt =>
      simpa using h
    · next hge =>
      obtain ⟨c, cs, hdigits⟩ := List.exists_cons_of_ne_nil
        (Nat.toDigits_ne_nil : Nat.toDigits 10 (n / 10) ≠ [])
      rw [hdigits, List.cons_append, List.head?_cons] at h
      have hzero : n / 10 = 0 := ih (n / 10) (by omega) (by rw [hdigits, List.head?_cons, h])
      omega

/-- The digits in front of a stop are cut off from it. -/
theorem takeWhile_isDigit {ds rest : List Char} (hds : ∀ c ∈ ds, c.isDigit = true)
    (hrest : Stops rest) :
    (ds ++ rest).takeWhile Char.isDigit = ds ∧ (ds ++ rest).dropWhile Char.isDigit = rest := by
  have htake : rest.takeWhile Char.isDigit = [] ∧ rest.dropWhile Char.isDigit = rest := by
    cases rest with
    | nil => exact ⟨rfl, rfl⟩
    | cons c rest =>
      have hc : c.isDigit = false := (hrest c rfl).1
      simp [hc]
  rw [List.takeWhile_append_of_pos hds, List.dropWhile_append_of_pos hds, htake.1, htake.2,
    List.append_nil]
  exact ⟨rfl, rfl⟩

/-- A number that stops has no fraction. -/
theorem fraction?_of_stops {rest : List Char} (h : Stops rest) :
    fraction? rest = some (none, rest) := by
  rw [fraction?.eq_def]
  split
  · next heq => exact absurd rfl (h '.' rfl).2.1
  · rfl

/-- A number that stops has no exponent. -/
theorem exponent?_of_stops {rest : List Char} (h : Stops rest) :
    exponent? rest = some (none, rest) := by
  cases rest with
  | nil => rfl
  | cons c rest =>
    unfold exponent?
    exact if_neg (not_or.2 (h c rfl).2.2)

/-- Further digits make a number no smaller. -/
theorem le_foldl_digits (ds : List Char) (n : Nat) :
    n ≤ ds.foldl (fun n c => 10 * n + Decimal.digitValue c) n := by
  induction ds generalizing n with
  | nil => exact Nat.le_refl n
  | cons d ds ih =>
    rw [List.foldl_cons]
    exact Nat.le_trans (by omega) (ih _)

/-- A number that fits in 64 bits keeps all its digits. -/
theorem leading_of_lt {whole : List Char} (h : Decimal.digitsValue whole < UInt64.size) :
    leading whole [] = (Decimal.digitsValue whole, 0) := by
  suffices hfold : ∀ n, whole.foldl (fun n c => 10 * n + Decimal.digitValue c) n < UInt64.size →
      whole.foldl (fun (p : Nat × Int) c =>
        if p.2 = 0 ∧ 10 * p.1 + Decimal.digitValue c < UInt64.size then
          (10 * p.1 + Decimal.digitValue c, p.2)
        else (p.1, p.2 + 1)) (n, 0) =
      (whole.foldl (fun n c => 10 * n + Decimal.digitValue c) n, 0) by
    have hwhole := hfold 0 h
    simp only [leading, List.foldl_nil]
    rw [hwhole]
    rfl
  clear h
  -- the value read so far only grows, so it is below the bound at every digit
  induction whole with
  | nil => intro n _; rfl
  | cons d whole ih =>
    intro n hn
    rw [List.foldl_cons] at hn
    have hnext : 10 * n + Decimal.digitValue d < UInt64.size :=
      Nat.lt_of_le_of_lt (le_foldl_digits whole _) hn
    simp only [List.foldl_cons, hnext, and_self, if_true]
    exact ih _ hn

/-- A numeral below two to the 64 is read as a whole number without loss. -/
theorem numberOf_toDigits {n : Nat} (h : n < UInt64.size) :
    numberOf false (Nat.toDigits 10 n) none none = some (.whole n) := by
  have hvalue := digitsValue_toDigits n
  have hleading := leading_of_lt (hvalue.symm ▸ h)
  have hrange : inRange n (0 + 0) = true := by simp [inRange]
  simp only [numberOf, Option.getD_none, hleading, hvalue, hrange, Bool.not_true,
    Bool.false_eq_true, if_false]

/-- A numeral is read up to where it stops. -/
theorem unsigned?_toDigits {n : Nat} (h : n < UInt64.size) {rest : List Char} (hrest : Stops rest) :
    unsigned? false (Nat.toDigits 10 n ++ rest) = some (some (.whole n), rest) := by
  have hdigits : ∀ c ∈ Nat.toDigits 10 n, c.isDigit = true :=
    fun c hc => isDigit_of_mem_toDigits hc
  obtain ⟨htake, hdrop⟩ := takeWhile_isDigit hdigits hrest
  have hempty : (Nat.toDigits 10 n).isEmpty = false := by
    simp [Nat.toDigits_ne_nil]
  have hzero : ((Nat.toDigits 10 n).head? == some '0' &&
      decide (1 < (Nat.toDigits 10 n).length)) = false := by
    rw [Bool.and_eq_false_iff]
    by_cases hhead : (Nat.toDigits 10 n).head? = some '0'
    · right
      rw [eq_zero_of_head?_toDigits hhead, Nat.toDigits_zero]
      rfl
    · left
      simpa using hhead
  simp only [unsigned?, htake, hdrop, hempty, hzero, Bool.or_self, Bool.false_eq_true, if_false,
    fraction?_of_stops hrest, exponent?_of_stops hrest, Option.bind_eq_bind, Option.bind_some,
    Option.pure_def, numberOf_toDigits h]

/-- A digit differs from every character that is none. -/
theorem ne_of_isDigit {c d : Char} (hc : c.isDigit = true) (hd : d.isDigit = false) : c ≠ d := by
  rintro rfl
  rw [hc] at hd
  cases hd

/-- A digit starts a number and no other token. -/
theorem next?_of_isDigit {c : Char} (hc : c.isDigit = true) (cs : List Char) :
    next? (c :: cs) = (unsigned? false (c :: cs)).map fun (n, tail) => (.number n, tail) := by
  rw [next?.eq_def]
  split
  case h_11 =>
    next heq =>
      rw [numeral?.eq_def]
      split
      · next heq => cases heq; exact absurd rfl (ne_of_isDigit hc (by decide))
      · rfl
  all_goals
    next heq =>
      cases heq
      exact absurd rfl (ne_of_isDigit hc (by decide))

/-- A numeral in front of a text where it stops is one token. -/
theorem scans_number {n : Nat} (h : n < UInt64.size) {rest : List Char} (hrest : Stops rest)
    {tokens : List Token} (hscans : Scans rest tokens) :
    Scans (Nat.toDigits 10 n ++ rest) (.number (some (.whole n)) :: tokens) := by
  have hnumeral := unsigned?_toDigits h hrest
  cases hdigits : Nat.toDigits 10 n with
  | nil => exact absurd hdigits Nat.toDigits_ne_nil
  | cons c cs =>
    have hc : c.isDigit = true :=
      isDigit_of_mem_toDigits (hdigits ▸ List.mem_cons_self)
    have hblank : isBlank c = false := by
      have hspace : c ≠ ' ' := ne_of_isDigit hc (by decide)
      have htab : c ≠ '\t' := ne_of_isDigit hc (by decide)
      have hline : c ≠ '\n' := ne_of_isDigit hc (by decide)
      have hreturn : c ≠ '\r' := ne_of_isDigit hc (by decide)
      simp [isBlank, hspace, htab, hline, hreturn]
    rw [hdigits, List.cons_append] at hnumeral
    rw [List.cons_append]
    refine scans_cons hblank ?_ ?_ hscans
    · rw [next?_of_isDigit hc, hnumeral, Option.map_some]
    · rw [List.length_append]
      omega

end Token

/-! ## Values -/

open Token (Scans Stops scans_cons stops_cons scans_quote scans_number)

/-- A mark of one character in front of a text is one token. -/
theorem scans_text_cons {c : Char} {cs : List Char} {token : Token} {tokens : List Token}
    (hblank : Token.isBlank c = false) (hnext : Token.next? (c :: cs) = some (token, cs))
    (h : Scans cs tokens) : Scans (c :: cs) (token :: tokens) :=
  scans_cons hblank hnext (Nat.le_refl _) h

mutual

/-- **The compact text of a value scans to its tokens**, in front of any text that ends a
number. -/
theorem scans_compact : ∀ (j : Json) {rest : List Char} {ts : List Token}, j.Plain →
    Stops rest → Scans rest ts → Scans (j.compact rest) (j.tokens ts)
  | .null, rest, _, _, _, h =>
    scans_cons (by decide) rfl (Nat.le_add_right rest.length 3) h
  | .bool true, rest, _, _, _, h =>
    scans_cons (by decide) rfl (Nat.le_add_right rest.length 3) h
  | .bool false, rest, _, _, _, h =>
    scans_cons (by decide) rfl (Nat.le_add_right rest.length 4) h
  | .number n, rest, _, hplain, hstops, h => by
    obtain ⟨k, hk, rfl⟩ := hplain
    exact scans_number hk hstops h
  | .string s, _, _, _, _, h => scans_quote s h
  | .array items, _, _, hplain, _, h =>
    scans_text_cons (by decide) rfl (scans_compactItems items hplain h)
  | .object members, _, _, hplain, _, h =>
    scans_text_cons (by decide) rfl (scans_compactMembers members hplain h)

/-- Items and their closing bracket in front of a text. -/
theorem scans_compactItems : ∀ (items : List Json) {rest : List Char} {ts : List Token},
    PlainItems items → Scans rest ts → Scans (compactItems items rest) (tokensOfItems items ts)
  | [], _, _, _, h => scans_text_cons (by decide) rfl h
  | [item], _, _, hplain, h =>
    scans_compact item hplain.1 (stops_cons (by decide)) (scans_text_cons (by decide) rfl h)
  | item :: next :: others, _, _, hplain, h =>
    scans_compact item hplain.1 (stops_cons (by decide))
      (scans_text_cons (by decide) rfl (scans_compactItems (next :: others) hplain.2 h))

/-- Members and their closing brace in front of a text. -/
theorem scans_compactMembers : ∀ (members : List (String × Json)) {rest : List Char}
    {ts : List Token}, PlainMembers members → Scans rest ts →
      Scans (compactMembers members rest) (tokensOfMembers members ts)
  | [], _, _, _, h => scans_text_cons (by decide) rfl h
  | [(name, value)], _, _, hplain, h =>
    scans_quote name (scans_text_cons (by decide) rfl
      (scans_compact value hplain.1 (stops_cons (by decide))
        (scans_text_cons (by decide) rfl h)))
  | (name, value) :: next :: others, _, _, hplain, h =>
    scans_quote name (scans_text_cons (by decide) rfl
      (scans_compact value hplain.1 (stops_cons (by decide))
        (scans_text_cons (by decide) rfl (scans_compactMembers (next :: others) hplain.2 h))))

end

end QuerySplit.Json
