import QuerySplit.Json.Reader
import QuerySplit.Proofs.JsonTokens

/-!
# Printing and reading values

The compact text of a plain value is read back as that value (`read?_render`), and its brackets
nest exactly as deep as the value (`nesting_render`), where `nesting` counts the brackets of a
text outside string literals. So a limit on the nesting of a text and one on the depth of the
value it was printed from are the same limit.

The reader is a machine over tokens: fed the tokens of a value where one has to follow, it does
what `place` does with the value in the open frames (`run_tokens`).
-/

set_option autoImplicit false

namespace QuerySplit.Json

/-! ## Nesting of a text -/

/-- Where a place of a text stands: outside string literals, inside one, or right after a
backslash inside one. -/
inductive Spot
  | outside
  | inside
  | escaped

/-- The deepest level that the brackets of a text reach from a level. -/
def nestingFrom : Spot → Nat → List Char → Nat
  | _, level, [] => level
  | .outside, level, c :: cs =>
    if c = '"' then nestingFrom .inside level cs
    else if c = '[' ∨ c = '\x7b' then nestingFrom .outside (level + 1) cs
    else if c = ']' ∨ c = '\x7d' then max level (nestingFrom .outside (level - 1) cs)
    else nestingFrom .outside level cs
  | .inside, level, c :: cs =>
    if c = '\\' then nestingFrom .escaped level cs
    else if c = '"' then nestingFrom .outside level cs
    else nestingFrom .inside level cs
  | .escaped, level, _ :: cs => nestingFrom .inside level cs

/-- How many arrays and objects a text opens inside one another. -/
def nesting (text : String) : Nat :=
  nestingFrom .outside 0 text.toList

/-- A text reaches at least the level that it starts from. -/
theorem le_nestingFrom (spot : Spot) (level : Nat) (cs : List Char) :
    level ≤ nestingFrom spot level cs := by
  fun_induction nestingFrom spot level cs <;> omega

/-- An escaped character does not end the literal, and no bracket in it counts. -/
theorem nestingFrom_escape (level : Nat) (c : Char) (rest : List Char) :
    nestingFrom .inside level (escape c ++ rest) = nestingFrom .inside level rest := by
  obtain ⟨e, hescape, -, -⟩ | ⟨hescape, hcontrol⟩ | ⟨hescape, hquote, hslash, -⟩ :=
    Token.escape_cases c
  · rw [hescape]
    rfl
  · have hhex : ∀ n < 16, hexChar n ≠ '\\' ∧ hexChar n ≠ '"' := by decide
    have hhigh := hhex (c.toNat / 16) (by omega)
    have hlow := hhex (c.toNat % 16) (by omega)
    rw [hescape]
    simp [nestingFrom, hhigh, hlow]
  · rw [hescape, List.singleton_append, nestingFrom, if_neg hslash, if_neg hquote]

/-- A string literal opens nothing, whatever it holds. -/
theorem nestingFrom_quote (level : Nat) (s : String) (rest : List Char) :
    nestingFrom .outside level (quote s ++ rest) = nestingFrom .outside level rest := by
  have hbody : ∀ cs : List Char, nestingFrom .inside level (cs.flatMap escape ++ '"' :: rest) =
      nestingFrom .outside level rest := by
    intro cs
    induction cs with
    | nil => rfl
    | cons c cs ih => rw [List.flatMap_cons, List.append_assoc, nestingFrom_escape, ih]
  have hquote : quote s ++ rest = '"' :: (s.toList.flatMap escape ++ '"' :: rest) := by
    simp [quote]
  rw [hquote, nestingFrom, if_pos rfl, hbody]

/-- Digits open and close nothing. -/
theorem nestingFrom_digits (level : Nat) {ds : List Char} (hds : ∀ c ∈ ds, c.isDigit = true)
    (rest : List Char) :
    nestingFrom .outside level (ds ++ rest) = nestingFrom .outside level rest := by
  induction ds with
  | nil => rfl
  | cons d ds ih =>
    obtain ⟨hd, hds⟩ := List.forall_mem_cons.1 hds
    have hne : ∀ c : Char, c.isDigit = false → d ≠ c := fun c hc => Token.ne_of_isDigit hd hc
    rw [List.cons_append, nestingFrom, if_neg (hne '"' (by decide)),
      if_neg (not_or.2 ⟨hne '[' (by decide), hne '\x7b' (by decide)⟩),
      if_neg (not_or.2 ⟨hne ']' (by decide), hne '\x7d' (by decide)⟩), ih hds]

/-- Closing an array or object that was opened at a level. -/
theorem nestingFrom_close {c : Char} (hc : c = ']' ∨ c = '\x7d') (level : Nat)
    (rest : List Char) :
    nestingFrom .outside (level + 1) (c :: rest) =
      max (level + 1) (nestingFrom .outside level rest) := by
  rcases hc with rfl | rfl <;> rfl

mutual

/-- The text of a value reaches as many levels further as the value is deep. -/
theorem nestingFrom_compact : ∀ (j : Json) (level : Nat) (rest : List Char), j.Plain →
    nestingFrom .outside level (j.compact rest) =
      max (level + j.depth) (nestingFrom .outside level rest)
  | .null, level, rest, _ => (Nat.max_eq_right (le_nestingFrom _ level rest)).symm
  | .bool true, level, rest, _ => (Nat.max_eq_right (le_nestingFrom _ level rest)).symm
  | .bool false, level, rest, _ => (Nat.max_eq_right (le_nestingFrom _ level rest)).symm
  | .number n, level, rest, hplain => by
    obtain ⟨k, -, rfl⟩ := hplain
    have hdigits := nestingFrom_digits level
      (fun c (hc : c ∈ Nat.toDigits 10 k) => Token.isDigit_of_mem_toDigits hc) rest
    exact hdigits.trans (Nat.max_eq_right (le_nestingFrom _ level rest)).symm
  | .string s, level, rest, _ =>
    (nestingFrom_quote level s rest).trans (Nat.max_eq_right (le_nestingFrom _ level rest)).symm
  | .array items, level, rest, hplain => by
    have hitems := nestingFrom_compactItems items level rest hplain
    rw [compact, depth]
    exact hitems.trans (by rw [Nat.add_right_comm, Nat.add_assoc])
  | .object members, level, rest, hplain => by
    have hmembers := nestingFrom_compactMembers members level rest hplain
    rw [compact, depth]
    exact hmembers.trans (by rw [Nat.add_right_comm, Nat.add_assoc])

/-- Items and their closing bracket, from inside the array. -/
theorem nestingFrom_compactItems : ∀ (items : List Json) (level : Nat) (rest : List Char),
    PlainItems items →
    nestingFrom .outside (level + 1) (compactItems items rest) =
      max (level + 1 + depthOfItems items) (nestingFrom .outside level rest)
  | [], level, rest, _ => nestingFrom_close (.inl rfl) level rest
  | [item], level, rest, hplain => by
    rw [compactItems, nestingFrom_compact item (level + 1) _ hplain.1,
      nestingFrom_close (.inl rfl), depthOfItems, depthOfItems]
    omega
  | item :: next :: others, level, rest, hplain => by
    have hcomma := nestingFrom_compactItems (next :: others) level rest hplain.2
    rw [compactItems, nestingFrom_compact item (level + 1) _ hplain.1, depthOfItems]
    · show max _ (nestingFrom .outside (level + 1) (compactItems (next :: others) rest)) = _
      rw [hcomma]
      omega
    · exact List.cons_ne_nil next others

/-- Members and their closing brace, from inside the object. -/
theorem nestingFrom_compactMembers : ∀ (members : List (String × Json)) (level : Nat)
    (rest : List Char), PlainMembers members →
    nestingFrom .outside (level + 1) (compactMembers members rest) =
      max (level + 1 + depthOfMembers members) (nestingFrom .outside level rest)
  | [], level, rest, _ => nestingFrom_close (.inr rfl) level rest
  | [(name, value)], level, rest, hplain => by
    rw [compactMembers, nestingFrom_quote]
    show nestingFrom .outside (level + 1) (value.compact ('\x7d' :: rest)) = _
    rw [nestingFrom_compact value (level + 1) _ hplain.1, nestingFrom_close (.inr rfl),
      depthOfMembers, depthOfMembers]
    omega
  | (name, value) :: next :: others, level, rest, hplain => by
    have hcomma := nestingFrom_compactMembers (next :: others) level rest hplain.2
    rw [compactMembers, nestingFrom_quote]
    · show nestingFrom .outside (level + 1)
        (value.compact (',' :: compactMembers (next :: others) rest)) = _
      rw [nestingFrom_compact value (level + 1) _ hplain.1, depthOfMembers]
      show max _ (nestingFrom .outside (level + 1) (compactMembers (next :: others) rest)) = _
      rw [hcomma]
      omega
    · exact List.cons_ne_nil next others

end

/-- **The text of a value nests as deep as the value.** -/
theorem nesting_render {j : Json} (h : j.Plain) : nesting j.render = j.depth := by
  have htext : j.render.toList = j.compact [] := String.toList_ofList
  rw [nesting, htext, nestingFrom_compact j 0 [] h, nestingFrom]
  omega

/-! ## Reading a printed value -/

namespace Reader

/-- The machine from a state over the tokens that follow. -/
def run (state : State) (tokens : List Token) : Option State :=
  tokens.foldlM step state

/-- The machine takes one token at a time and stops at the first that may not follow. -/
theorem run_cons (state : State) (token : Token) (ts : List Token) :
    run state (token :: ts) = (step state token).bind (run · ts) :=
  List.foldlM_cons

/-- Members collected in front of one another are given back in the order of the text. -/
theorem members?_reverse (members : List (String × Json)) :
    members? (members.map fun m => (some m.1, m.2)).reverse = some members := by
  rw [members?, List.foldl_reverse]
  induction members with
  | nil => rfl
  | cons m members ih =>
    rw [List.map_cons, List.foldr_cons, ih]
    rfl

/-- An object of complete members is closed with them in the order of the text. -/
theorem closeObject_reverse (members : List (String × Json)) :
    closeObject (members.map fun m => (some m.1, m.2)).reverse = .object members := by
  rw [closeObject, members?_reverse]

/-- The tokens of a value start none that closes an array, so an array just opened takes them as
one that expects a value. -/
theorem run_opened_tokens (j : Json) (ts : List Token) (items : List Json) (frames : List Frame) :
    run (.opened (.array items :: frames)) (j.tokens ts) =
      run (.value (.array items :: frames)) (j.tokens ts) := by
  cases j <;> rfl

/-- An array may be closed right after it was opened. -/
theorem step_opened_closeArray (frames : List Frame) :
    step (.opened (.array [] :: frames)) .closeArray = place (.array []) frames := by
  cases hplace : place (.array []) frames with
  | none => simp [step, close, hplace, takeValue, scalar?]
  | some state => simp [step, close, hplace]

/-- An object may be closed right after it was opened. -/
theorem step_opened_closeObject (frames : List Frame) :
    step (.opened (.object [] :: frames)) .closeObject = place (.object []) frames := by
  cases hplace : place (.object []) frames with
  | none => simp [step, close, hplace, closeObject, members?, takeName]
  | some state => simp [step, close, hplace, closeObject, members?]

mutual

/-- **Where a value has to follow, the tokens of a value hand it to the open frames.** -/
theorem run_tokens : ∀ (j : Json) (ts : List Token) (frames : List Frame),
    j.Plain → run (.value frames) (j.tokens ts) = (place j frames).bind (run · ts)
  | .null, ts, frames, _ | .bool _, ts, frames, _ | .string _, ts, frames, _
  | .number _, ts, frames, _ => run_cons (.value frames) _ ts
  | .array [], ts, frames, _ => by
    rw [tokens, tokensOfItems, run_cons]
    -- one step by computation: behind the bracket stands an array without items
    show run (.opened (.array [] :: frames)) (.closeArray :: ts) = _
    rw [run_cons, step_opened_closeArray]
  | .array (item :: others), ts, frames, hplain => by
    have hitems := run_tokensOfItems (item :: others) ts [] frames hplain (List.cons_ne_nil _ _)
    rw [tokens, run_cons]
    show run (.opened (.array [] :: frames)) (tokensOfItems (item :: others) ts) = _
    rw [List.reverse_nil, List.nil_append] at hitems
    rw [← hitems]
    cases others <;> exact run_opened_tokens item _ [] frames
  | .object [], ts, frames, _ => by
    rw [tokens, tokensOfMembers, run_cons]
    show run (.opened (.object [] :: frames)) (.closeObject :: ts) = _
    rw [run_cons, step_opened_closeObject]
  | .object (member :: others), ts, frames, hplain => by
    have hmembers := run_tokensOfMembers (member :: others) ts [] frames hplain
      (List.cons_ne_nil _ _)
    rw [tokens, run_cons]
    show run (.opened (.object [] :: frames)) (tokensOfMembers (member :: others) ts) = _
    rw [List.append_nil, closeObject_reverse] at hmembers
    rw [← hmembers]
    cases others <;> rfl

/-- Items after those that the innermost array has; the newest of these is first. -/
theorem run_tokensOfItems : ∀ (items : List Json) (ts : List Token) (done : List Json)
    (frames : List Frame), PlainItems items → items ≠ [] →
    run (.value (.array done :: frames)) (tokensOfItems items ts) =
      (place (.array (done.reverse ++ items)) frames).bind (run · ts)
  | [], _, _, _, _, hne => absurd rfl hne
  | [item], ts, done, frames, hplain, _ => by
    rw [tokensOfItems, run_tokens item _ _ hplain.1]
    show run (.separator (.array (item :: done) :: frames)) (.closeArray :: ts) = _
    rw [run_cons, ← List.reverse_cons]
    rfl
  | item :: next :: others, ts, done, frames, hplain, _ => by
    have hrest := run_tokensOfItems (next :: others) ts (item :: done) frames hplain.2
      (List.cons_ne_nil _ _)
    rw [List.reverse_cons, List.append_assoc] at hrest
    rw [tokensOfItems, run_tokens item _ _ hplain.1]
    · show run (.separator (.array (item :: done) :: frames))
        (.comma :: tokensOfItems (next :: others) ts) = _
      rw [run_cons]
      exact hrest
    · exact List.cons_ne_nil next others

/-- Members after those that the innermost object has; the newest of these is first. -/
theorem run_tokensOfMembers : ∀ (members : List (String × Json)) (ts : List Token)
    (done : List (Option String × Json)) (frames : List Frame), PlainMembers members →
    members ≠ [] →
    run (.name (.object done :: frames)) (tokensOfMembers members ts) =
      (place (closeObject ((members.map fun m => (some m.1, m.2)).reverse ++ done)) frames).bind
        (run · ts)
  | [], _, _, _, _, hne => absurd rfl hne
  | [(name, value)], ts, done, frames, hplain, _ => by
    rw [tokensOfMembers, run_cons]
    show run (.colon (.member done (some name) :: frames)) (.colon :: _) = _
    rw [run_cons]
    show run (.value (.member done (some name) :: frames)) _ = _
    rw [run_tokens value _ _ hplain.1]
    show run (.separator (.object ((some name, value) :: done) :: frames))
      (.closeObject :: ts) = _
    rw [run_cons]
    rfl
  | (name, value) :: next :: others, ts, done, frames, hplain, _ => by
    have hrest := run_tokensOfMembers (next :: others) ts ((some name, value) :: done) frames
      hplain.2 (List.cons_ne_nil _ _)
    rw [tokensOfMembers, run_cons]
    · show run (.colon (.member done (some name) :: frames)) (.colon :: _) = _
      rw [run_cons]
      show run (.value (.member done (some name) :: frames)) _ = _
      rw [run_tokens value _ _ hplain.1]
      show run (.separator (.object ((some name, value) :: done) :: frames))
        (.comma :: tokensOfMembers (next :: others) ts) = _
      rw [run_cons]
      rw [List.map_cons, List.reverse_cons, List.append_assoc]
      exact hrest
    · exact List.cons_ne_nil next others

end

/-- The machine reads the tokens of a value as that value. -/
theorem ofTokens?_tokens {j : Json} (h : j.Plain) : ofTokens? (j.tokens []) = some j := by
  have hrun : (j.tokens []).foldlM step (.value []) = some (.finished j) :=
    run_tokens j [] [] h
  rw [ofTokens?, hrun]

end Reader

/-- **A printed value is read back.** -/
theorem read?_render {j : Json} (h : j.Plain) : read? j.render = some j := by
  have hscan : Token.scan j.render.toList = some (j.tokens []) := by
    rw [render, String.toList_ofList]
    exact Token.scan_of_scans (scans_compact j h Token.stops_nil Token.scans_nil)
  rw [read?, hscan, Option.bind_some, Reader.ofTokens?_tokens h]

end QuerySplit.Json
