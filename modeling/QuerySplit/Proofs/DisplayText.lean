import QuerySplit.Expr.Document
import QuerySplit.Proofs.LeftGrouping

/-!
# Reading a text back

The text of an expression of columns, numbers and operators is a sequence of words and parentheses
(`lexFrom_text`). A word is a column or a number where an operand is due and an operator where one
is due, so even a column named like an operator is told apart from it. A machine with a stack of
open parentheses and operators that wait for their right operand reads the sequence: each operator
first closes those before it that bind as tightly. What it makes of a text is the expression with
operators of one precedence grouped to the left (`read?_text`).

So two expressions have the same text exactly when they agree up to that grouping (`text_eq_iff`).
Where the grouping may move the operators that it moves, they have the same value too; it may not
move a difference past another one, and there the text says nothing of the value.

Main statement: `eval_eq_of_text_eq`.
-/

set_option autoImplicit false

namespace QuerySplit

namespace Display

/-! ## Words -/

/-- A part of a text. -/
inductive Lexeme
  | opening
  | closing
  | word (cs : List Char)
deriving DecidableEq, Repr

/-- Whether a character may stand in a word. -/
def wordChar (c : Char) : Bool :=
  c != ' ' && c != '(' && c != ')'

def startsWithDigit (cs : List Char) : Bool :=
  cs.head?.any Char.isDigit

def finished : List Char → List Lexeme
  | [] => []
  | word => [.word word]

/-- The parts of a text that continues an unfinished word. -/
def lexFrom : List Char → List Char → List Lexeme
  | word, [] => finished word
  | word, ' ' :: rest => finished word ++ lexFrom [] rest
  | word, '(' :: rest => finished word ++ .opening :: lexFrom [] rest
  | word, ')' :: rest => finished word ++ .closing :: lexFrom [] rest
  | word, c :: rest => lexFrom (word ++ [c]) rest

/-- A text that does not continue a word before it. -/
def EndsWord (rest : List Char) : Prop :=
  ∀ word, lexFrom word rest = finished word ++ lexFrom [] rest

/-- A word ends where the text does. -/
theorem endsWord_nil : EndsWord [] := by
  intro word
  simp [lexFrom, finished]

/-- A word ends before a space. -/
theorem endsWord_space (rest : List Char) : EndsWord (' ' :: rest) := by
  intro word
  rw [lexFrom, lexFrom]
  rfl

/-- A word ends before a closing parenthesis. -/
theorem endsWord_closing (rest : List Char) : EndsWord (')' :: rest) := by
  intro word
  rw [lexFrom, lexFrom]
  rfl

/-- Characters of a word continue the word that is being read. -/
theorem lexFrom_word (word : List Char) {cs : List Char} (hcs : cs.all wordChar = true)
    (rest : List Char) : lexFrom word (cs ++ rest) = lexFrom (word ++ cs) rest := by
  induction cs generalizing word with
  | nil => rw [List.nil_append, List.append_nil]
  | cons c cs ih =>
    obtain ⟨hc, hcs⟩ := Bool.and_eq_true_iff.1 (List.all_cons ▸ hcs)
    have hstep : lexFrom word (c :: (cs ++ rest)) = lexFrom (word ++ [c]) (cs ++ rest) := by
      simp only [wordChar, Bool.and_eq_true, bne_iff_ne, ne_eq] at hc
      rw [lexFrom.eq_5 _ _ _ (by simp [hc]) (by simp [hc]) (by simp [hc])]
    rw [List.cons_append, hstep, ih _ hcs, List.append_assoc, List.singleton_append]

/-- Whether the characters make a word. -/
def isWord (cs : List Char) : Bool :=
  !cs.isEmpty && cs.all wordChar

/-- A word in front of something that ends it is read as one part. -/
theorem lexFrom_isWord {cs : List Char} (hcs : isWord cs = true) {rest : List Char}
    (hrest : EndsWord rest) : lexFrom [] (cs ++ rest) = .word cs :: lexFrom [] rest := by
  rw [isWord, Bool.and_eq_true] at hcs
  rw [lexFrom_word [] hcs.2, List.nil_append, hrest]
  cases cs with
  | nil => cases hcs.1
  | cons c cs => rfl

/-- Every symbol of an operator is one word. -/
theorem isWord_symbol (op : BinaryOp) : isWord op.symbol.toList = true := by
  cases op <;> decide

/-- The parts of an operand with the parentheses that it has. -/
def enclosed (needed : Bool) (lexemes : List Lexeme) : List Lexeme :=
  if needed then .opening :: (lexemes ++ [.closing]) else lexemes

end Display

open Display

namespace Expr

/-! ## The parts of a text -/

/-- An expression of unqualified columns, numbers and operators. Names are words that do not start
with a digit, as identifiers do not, and numbers are words that do. -/
inductive Plain : Expr → Prop
  | binary {left right : Expr} (op : BinaryOp) (hl : Plain left) (hr : Plain right) :
      Plain (.binary left op right)
  | column {name : String} (hword : isWord name.toList = true)
      (hdigit : startsWithDigit name.toList = false) : Plain (.column ⟨none, name⟩)
  | number {numeral : String} (hword : isWord numeral.toList = true)
      (hdigit : startsWithDigit numeral.toList = true) : Plain (.literal ⟨numeral, .number⟩)

/-- The parts of the text of a plain expression. -/
def lexemes : Expr → List Lexeme
  | .binary left op right =>
    enclosed (left.looserThan op.precedence) left.lexemes ++ .word op.symbol.toList ::
      enclosed (right.looserThan op.precedence) right.lexemes
  | .column c => [.word c.column.toList]
  | .literal v => [.word v.value.toList]
  | _ => []

/-- The text of an operand has the parts of the operand, in parentheses where it needs them. -/
theorem lexFrom_operandText {e : Expr} (op : BinaryOp) {rest : List Char} (hrest : EndsWord rest)
    (h : ∀ rest, EndsWord rest →
      lexFrom [] (e.text.toList ++ rest) = e.lexemes ++ lexFrom [] rest) :
    lexFrom [] ((e.operandText op).toList ++ rest) =
      enclosed (e.looserThan op.precedence) e.lexemes ++ lexFrom [] rest := by
  cases hneeded : e.looserThan op.precedence with
  | false =>
    rw [operandText, hneeded, parenthesized, if_neg Bool.false_ne_true, h rest hrest]
    rfl
  | true =>
    have htext : (e.operandText op).toList ++ rest = '(' :: (e.text.toList ++ ')' :: rest) := by
      simp [operandText, hneeded, parenthesized]
    rw [htext, lexFrom, h _ (endsWord_closing rest), lexFrom]
    simp [enclosed, finished]

/-- **A text is read as the parts of its expression**, whatever follows it. -/
theorem lexFrom_text {e : Expr} (he : e.Plain) {rest : List Char} (hrest : EndsWord rest) :
    lexFrom [] (e.text.toList ++ rest) = e.lexemes ++ lexFrom [] rest := by
  induction he generalizing rest with
  | @binary left right op _ _ ihl ihr =>
    have htext : (binary left op right).text.toList ++ rest =
        (left.operandText op).toList ++ ' ' :: (op.symbol.toList ++ ' ' ::
          ((right.operandText op).toList ++ rest)) := by
      simp [text_binary]
    rw [htext, lexFrom_operandText op (endsWord_space _) fun _ => ihl, lexFrom,
      lexFrom_isWord (isWord_symbol op) (endsWord_space _), lexFrom,
      lexFrom_operandText op hrest fun _ => ihr, lexemes]
    simp [finished]
  | column hword _ => exact lexFrom_isWord hword hrest
  | number hword _ => exact lexFrom_isWord hword hrest

end Expr

/-! ## The machine -/

namespace Display

/-- What is open before the place that is read. -/
inductive Frame
  /-- An operator with its left operand, waiting for the right one. -/
  | pending (left : Expr) (op : BinaryOp)
  | group

inductive State
  | expecting (frames : List Frame)
  | holding (frames : List Frame) (operand : Expr)
  | failed

/-- Closes the operators in front that bind at least as tightly as a precedence. -/
def settle (precedence : Nat) : List Frame → Expr → List Frame × Expr
  | .pending left op :: frames, e =>
    if precedence ≤ op.precedence then settle precedence frames (.binary left op e)
    else (.pending left op :: frames, e)
  | frames, e => (frames, e)

/-- The operand that a word is. -/
def operand (cs : List Char) : Expr :=
  if startsWithDigit cs then .literal ⟨String.ofList cs, .number⟩
  else .column ⟨none, String.ofList cs⟩

def step : State → Lexeme → State
  | .expecting frames, .opening => .expecting (.group :: frames)
  | .expecting frames, .word cs => .holding frames (operand cs)
  | .holding frames e, .word cs =>
    match BinaryOp.ofSymbol? (String.ofList cs) with
    | some op =>
      .expecting (.pending (settle op.precedence frames e).2 op ::
        (settle op.precedence frames e).1)
    | none => .failed
  | .holding frames e, .closing =>
    match settle 0 frames e with
    | (.group :: frames, e) => .holding frames e
    | _ => .failed
  | _, _ => .failed

def run (state : State) (lexemes : List Lexeme) : State :=
  lexemes.foldl step state

/-- The expression that a text is read as. -/
def read? (text : String) : Option Expr :=
  match run (.expecting []) (lexFrom [] text.toList) with
  | .holding frames e =>
    match settle 0 frames e with
    | ([], e) => some e
    | _ => none
  | _ => none

/-- No operator in front binds as tightly as the precedence, up to the last open parenthesis. -/
def Below (precedence : Nat) : List Frame → Prop
  | .pending _ op :: _ => op.precedence < precedence
  | _ => True

/-- Frames below a precedence are below every tighter one. -/
theorem Below.mono {p q : Nat} {frames : List Frame} (h : Below p frames) (hpq : p ≤ q) :
    Below q frames := by
  cases frames with
  | nil => trivial
  | cons frame frames =>
    cases frame with
    | pending left op => exact Nat.lt_of_lt_of_le h hpq
    | group => trivial

/-- Nothing is closed where no operator in front binds as tightly. -/
theorem settle_of_below {p : Nat} {frames : List Frame} (h : Below p frames) (e : Expr) :
    settle p frames e = (frames, e) := by
  cases frames with
  | nil => rfl
  | cons frame frames =>
    cases frame with
    | pending left op => rw [settle, if_neg (Nat.not_le.2 h)]
    | group => rfl

/-- An operator that binds as tightly takes what follows it as its right operand. -/
theorem settle_pending {p : Nat} {op : BinaryOp} (h : p ≤ op.precedence) (left : Expr)
    (frames : List Frame) (e : Expr) :
    settle p (.pending left op :: frames) e = settle p frames (.binary left op e) := by
  rw [settle, if_pos h]

/-- A state after an expression has been read behind some frames. Operators of the expression may
still be pending; all of them bind at least as tightly as the precedence, so closing down to any
precedence up to that leaves what it leaves of the whole expression. -/
def Holds (precedence : Nat) (frames : List Frame) (e : Expr) (state : State) : Prop :=
  ∃ frames' held, state = .holding frames' held ∧
    ∀ p ≤ precedence, settle p frames' held = settle p frames e

/-- What holds for a precedence holds for every looser one. -/
theorem Holds.mono {p q : Nat} {frames : List Frame} {e : Expr} {state : State}
    (h : Holds p frames e state) (hqp : q ≤ p) : Holds q frames e state := by
  obtain ⟨frames', held, rfl, hsettle⟩ := h
  exact ⟨frames', held, rfl, fun r hr => hsettle r (Nat.le_trans hr hqp)⟩

/-- An operator takes the operand before it as a whole. -/
theorem Holds.step_symbol {op : BinaryOp} {frames : List Frame} {e : Expr} {state : State}
    (h : Holds op.precedence frames e state) (hbelow : Below op.precedence frames) :
    step state (.word op.symbol.toList) = .expecting (.pending e op :: frames) := by
  obtain ⟨frames', held, rfl, hsettle⟩ := h
  have hop : BinaryOp.ofSymbol? (String.ofList op.symbol.toList) = some op := by
    cases op <;> rfl
  simp only [step, hop, hsettle _ (Nat.le_refl _), settle_of_below hbelow]

/-- A closing parenthesis leaves what stands inside as one operand. -/
theorem Holds.step_closing {p : Nat} {frames : List Frame} {e : Expr} {state : State}
    (h : Holds p (.group :: frames) e state) : step state .closing = .holding frames e := by
  obtain ⟨frames', held, rfl, hsettle⟩ := h
  have hclosed : settle 0 frames' held = (.group :: frames, e) := hsettle 0 (Nat.zero_le p)
  simp only [step, hclosed]

/-- Two sequences of parts are read one after the other. -/
theorem run_append (state : State) (first second : List Lexeme) :
    run state (first ++ second) = run (run state first) second :=
  List.foldl_append

/-- The first part takes one step. -/
theorem run_cons (state : State) (lexeme : Lexeme) (rest : List Lexeme) :
    run state (lexeme :: rest) = run (step state lexeme) rest :=
  rfl

end Display

namespace Expr

/-- An operand is left on the stack as a whole. In parentheses nothing in front matters; without
them nothing in front may bind as tightly as the operand. -/
theorem holds_enclosed {e : Expr} {op : BinaryOp} {frames : List Frame}
    (hbelow : op.precedence ≤ e.level → Below e.level frames)
    (h : ∀ frames, Below e.level frames →
      Holds e.level frames e (run (.expecting frames) e.lexemes)) :
    Holds op.precedence frames e
      (run (.expecting frames) (enclosed (e.looserThan op.precedence) e.lexemes)) := by
  rw [looserThan_eq]
  by_cases hlevel : e.level < op.precedence
  · have hinside := h (.group :: frames) trivial
    rw [decide_eq_true hlevel, enclosed, if_pos rfl, run_cons, step, run_append, run_cons,
      hinside.step_closing]
    exact ⟨frames, e, rfl, fun _ _ => rfl⟩
  · have hle := Nat.not_lt.1 hlevel
    rw [decide_eq_false hlevel, enclosed, if_neg Bool.false_ne_true]
    exact (h frames (hbelow hle)).mono hle

/-- **Reading the parts of an expression that is grouped to the left leaves it on the stack.** -/
theorem holds_lexemes {e : Expr} (he : e.Plain) (hleft : e.LeftGrouped) {frames : List Frame}
    (hbelow : Below e.level frames) :
    Holds e.level frames e (run (.expecting frames) e.lexemes) := by
  induction he generalizing frames with
  | @binary left right op _ _ ihl ihr =>
    obtain ⟨hl, hr, hlevel⟩ := hleft
    have hfirst : Holds op.precedence frames left
        (run (.expecting frames) (enclosed (left.looserThan op.precedence) left.lexemes)) :=
      holds_enclosed (fun hle => hbelow.mono hle) fun _ => ihl hl
    -- the right operand binds tighter than its operator, which therefore stays open behind it
    have hsecond : Holds op.precedence (.pending left op :: frames) right
        (run (.expecting (.pending left op :: frames))
          (enclosed (right.looserThan op.precedence) right.lexemes)) :=
      holds_enclosed (fun hle => Nat.lt_of_le_of_ne hle hlevel.symm) fun _ => ihr hr
    rw [lexemes, run_append, run_cons, hfirst.step_symbol hbelow]
    obtain ⟨frames', held, hstate, hsettle⟩ := hsecond
    refine ⟨frames', held, hstate, fun p hp => ?_⟩
    rw [hsettle p hp, settle_pending hp]
  | column hword hdigit =>
    refine ⟨frames, _, rfl, fun p _ => ?_⟩
    rw [operand, hdigit, if_neg Bool.false_ne_true, String.ofList_toList]
  | number hword hdigit =>
    refine ⟨frames, _, rfl, fun p _ => ?_⟩
    rw [operand, hdigit, if_pos rfl, String.ofList_toList]

/-- Regrouping keeps an expression plain. -/
theorem plain_graft {left right : Expr} (op : BinaryOp) (hl : left.Plain) (hr : right.Plain) :
    (graft left op right).Plain := by
  induction hr with
  | @binary first second o hfirst hsecond ih _ =>
    rw [graft]
    split
    · exact .binary o ih hsecond
    · exact .binary op hl (.binary o hfirst hsecond)
  | column hword hdigit => exact .binary op hl (.column hword hdigit)
  | number hword hdigit => exact .binary op hl (.number hword hdigit)

/-- The expression grouped to the left is plain when the given one is. -/
theorem plain_leftGrouped {e : Expr} (he : e.Plain) : e.leftGrouped.Plain := by
  induction he with
  | binary op _ _ ihl ihr => exact plain_graft op ihl ihr
  | column hword hdigit => exact .column hword hdigit
  | number hword hdigit => exact .number hword hdigit

/-- **A text is read as the expression grouped to the left.** -/
theorem read?_text {e : Expr} (he : e.Plain) : read? e.text = some e.leftGrouped := by
  have hplain := plain_leftGrouped he
  have hlex : lexFrom [] e.text.toList = e.leftGrouped.lexemes := by
    have hwhole := lexFrom_text hplain endsWord_nil
    rw [List.append_nil, text_leftGrouped, lexFrom, finished, List.append_nil] at hwhole
    exact hwhole
  obtain ⟨frames', held, hstate, hsettle⟩ : Holds _ [] _ (run (.expecting []) _) :=
    holds_lexemes hplain (leftGrouped_leftGrouped e) trivial
  have hclosed : settle 0 frames' held = ([], e.leftGrouped) := hsettle 0 (Nat.zero_le _)
  simp only [read?, hlex, hstate, hclosed]

/-- **Two expressions have the same text exactly when they agree up to the grouping of operators of
one precedence.** -/
theorem text_eq_iff {e e' : Expr} (he : e.Plain) (he' : e'.Plain) :
    e.text = e'.text ↔ e.leftGrouped = e'.leftGrouped := by
  constructor
  · intro h
    rw [← Option.some_inj, ← read?_text he, h, read?_text he']
  · intro h
    rw [← text_leftGrouped e, h, text_leftGrouped]

/-- **What a text says of the value.** Two plain expressions have the same text exactly when they
agree up to the grouping of operators of one precedence. Then they have the same value, under every
interpretation with the usual laws and every assignment, if no operator stands before a chain on
its right that it may not move past. -/
theorem eval_eq_of_text_eq {V : Type} {I : Interpretation V} (hlaws : I.Arithmetic) {e e' : Expr}
    (he : e.Plain) (he' : e'.Plain) :
    (e.text = e'.text ↔ e.leftGrouped = e'.leftGrouped) ∧
    (e.text = e'.text →
      (∀ pair ∈ e.regroupings ++ e'.regroupings, pair.1.regroups pair.2 = true) →
      ∀ read : ColumnRef → V, e.eval I read = e'.eval I read) := by
  refine ⟨text_eq_iff he he', fun htext hregroups read => ?_⟩
  have hlaw : ∀ pair ∈ e.regroupings ++ e'.regroupings, I.Regroups pair.1 pair.2 :=
    fun pair hpair => hlaws.regroups (hregroups pair hpair)
  obtain ⟨hleft, hleft'⟩ := List.forall_mem_append.1 hlaw
  calc e.eval I read
      = e.leftGrouped.eval I read := (eval_leftGrouped hleft read).symm
    _ = e'.leftGrouped.eval I read := by rw [(text_eq_iff he he').1 htext]
    _ = e'.eval I read := eval_leftGrouped hleft' read

/-- Two operators over three columns, the second one first. -/
def groupedRight (op o : BinaryOp) : Expr :=
  .binary (.column ⟨none, "a"⟩) op (.binary (.column ⟨none, "b"⟩) o (.column ⟨none, "c"⟩))

/-- Two operators over three columns, the first one first. -/
def groupedLeft (op o : BinaryOp) : Expr :=
  .binary (.binary (.column ⟨none, "a"⟩) op (.column ⟨none, "b"⟩)) o (.column ⟨none, "c"⟩)

/-- Both groupings of the three columns are plain. -/
theorem plain_grouped (op o : BinaryOp) : (groupedRight op o).Plain ∧ (groupedLeft op o).Plain := by
  have ha : Plain (.column ⟨none, "a"⟩) := .column (by decide) (by decide)
  have hb : Plain (.column ⟨none, "b"⟩) := .column (by decide) (by decide)
  have hc : Plain (.column ⟨none, "c"⟩) := .column (by decide) (by decide)
  exact ⟨.binary op ha (.binary o hb hc), .binary o (.binary op ha hb) hc⟩

/-- The assignment of 5, 3 and 1 to the columns `a`, `b` and `c`. -/
def fiveThreeOne (c : ColumnRef) : Option Interpretation.Scalar :=
  some (.number (if c.column = "a" then 5 else if c.column = "b" then 3 else 1))

/-- A sum may be regrouped with a difference. -/
theorem eval_eq_of_text_eq_grouped :
    (groupedRight .add .sub).text = "a + b - c" ∧ (groupedLeft .add .sub).text = "a + b - c" ∧
      (groupedRight .add .sub).eval .scalars fiveThreeOne =
        (groupedLeft .add .sub).eval .scalars fiveThreeOne := by
  obtain ⟨hright, hleft⟩ := plain_grouped .add .sub
  have htext : (groupedRight .add .sub).text = (groupedLeft .add .sub).text := by decide +kernel
  exact ⟨by decide +kernel, by decide +kernel,
    (eval_eq_of_text_eq Interpretation.scalars_arithmetic hright hleft).2 htext
      (by decide +kernel) fiveThreeOne⟩

/-- A difference may not: `a - (b - c)` has the text of `(a - b) - c`, and another value. -/
theorem text_conflates_differences :
    (groupedRight .sub .sub).Plain ∧ (groupedLeft .sub .sub).Plain ∧
      (groupedRight .sub .sub).text = (groupedLeft .sub .sub).text ∧
      (groupedRight .sub .sub).text = "a - b - c" ∧
      (groupedRight .sub .sub).eval .scalars fiveThreeOne = some (.number 3) ∧
      (groupedLeft .sub .sub).eval .scalars fiveThreeOne = some (.number 1) :=
  ⟨(plain_grouped .sub .sub).1, (plain_grouped .sub .sub).2, by decide +kernel,
    by decide +kernel, by decide +kernel, by decide +kernel⟩

end Expr

end QuerySplit
