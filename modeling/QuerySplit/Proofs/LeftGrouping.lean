import QuerySplit.Decimal.Digits
import QuerySplit.Expr.Display
import QuerySplit.Proofs.Meaning

/-!
# The grouping that a text shows

An operand that binds as tightly as the operator above it stands without parentheses, on either
side. So the text of `a - (b - c)` is that of `(a - b) - c`: of all expressions that differ in how
operators of one precedence are grouped, a text shows the one that groups them to the left
(`leftGrouped`, `text_leftGrouped`).

To bring an expression into that form, each operator moves past the operators of the chain on its
right, and `regroupings` lists these pairs. Where the interpretation lets each pair be regrouped,
the value stays (`eval_leftGrouped`). The usual laws let `OR`, `AND`, `+` and `*` be regrouped with
themselves and `+` with `-`, and no other pair (`BinaryOp.regroups`).
-/

set_option autoImplicit false

namespace QuerySplit

/-- What has no operator binds more tightly than every operator. -/
theorem BinaryOp.precedence_lt (op : BinaryOp) : op.precedence < 6 := by
  cases op <;> decide

namespace Expr

/-! ## Grouping to the left -/

/-- How tightly an expression binds: like its operator, and tighter than any if it has none. -/
def level : Expr → Nat
  | .binary _ op _ => op.precedence
  | _ => 6

/-- An operator put on the left of an expression below all operators of its precedence that the
expression has in front. -/
def graft (left : Expr) (op : BinaryOp) : Expr → Expr
  | .binary first o second =>
    if o.precedence = op.precedence then .binary (graft left op first) o second
    else .binary left op (.binary first o second)
  | e => .binary left op e

/-- The expression with all chains of one precedence grouped to the left. -/
def leftGrouped : Expr → Expr
  | .binary left op right => graft left.leftGrouped op right.leftGrouped
  | e => e

/-- No operand on the right of an operator binds just as tightly. -/
def LeftGrouped : Expr → Prop
  | .binary left op right =>
    left.LeftGrouped ∧ right.LeftGrouped ∧ right.level ≠ op.precedence
  | _ => True

/-- The operators of the chain of a precedence that the expression is, from left to right. -/
def chainOps (precedence : Nat) : Expr → List BinaryOp
  | .binary left op right =>
    if op.precedence = precedence then
      left.chainOps precedence ++ op :: right.chainOps precedence
    else []
  | _ => []

/-- The pairs of an operator and one that it moves past when the expression is grouped to the
left. -/
def regroupings : Expr → List (BinaryOp × BinaryOp)
  | .binary left op right =>
    left.regroupings ++ (right.chainOps op.precedence).map (op, ·) ++ right.regroupings
  | _ => []

/-- Regrouping leaves the expression as tight as the operator that it grafts. -/
theorem level_graft (left : Expr) (op : BinaryOp) (right : Expr) :
    (graft left op right).level = op.precedence := by
  fun_induction graft left op right with
  | case1 first o second hsame _ => exact hsame
  | case2 first o second _ => rfl
  | case3 e _ => rfl

/-- Grafting between two expressions that are grouped to the left gives a third. -/
theorem leftGrouped_graft {left right : Expr} {op : BinaryOp} (hl : left.LeftGrouped)
    (hr : right.LeftGrouped) : (graft left op right).LeftGrouped := by
  fun_induction graft left op right with
  | case1 first o second _ ih =>
    obtain ⟨hfirst, hsecond, hlevel⟩ := hr
    exact ⟨ih hfirst, hsecond, hlevel⟩
  | case2 first o second hother => exact ⟨hl, hr, hother⟩
  | case3 e hbinary =>
    rw [LeftGrouped, level.eq_2 e hbinary]
    exact ⟨hl, hr, Nat.ne_of_gt op.precedence_lt⟩

/-- Every expression can be grouped to the left. -/
theorem leftGrouped_leftGrouped (e : Expr) : e.leftGrouped.LeftGrouped := by
  induction e using leftGrouped.induct with
  | case1 left op right ihl ihr => exact leftGrouped_graft ihl ihr
  | case2 e hbinary =>
    rw [leftGrouped.eq_2 e hbinary, LeftGrouped.eq_2 e hbinary]
    trivial

/-! ## The text -/

/-- An operand stands in parentheses when it binds less tightly than the operator above it. -/
theorem looserThan_eq (e : Expr) (op : BinaryOp) :
    e.looserThan op.precedence = decide (e.level < op.precedence) := by
  cases e with
  | binary left o right => rfl
  | _ =>
    have hlt := op.precedence_lt
    exact (decide_eq_false (by simp only [level]; omega)).symm

/-- An operand with the parentheses that it has below an operator. -/
def operandText (e : Expr) (op : BinaryOp) : String :=
  parenthesized (e.looserThan op.precedence) e.text

/-- The text of an application is its operands around the symbol of the operator. -/
theorem text_binary (left : Expr) (op : BinaryOp) (right : Expr) :
    (binary left op right).text =
      left.operandText op ++ " " ++ op.symbol ++ " " ++ right.operandText op := by
  rw [text, operandText, operandText]

/-- An operand that binds as tightly as its operator has no parentheses. -/
theorem operandText_of_level_eq {e : Expr} {op : BinaryOp} (h : e.level = op.precedence) :
    e.operandText op = e.text := by
  rw [operandText, looserThan_eq, h, decide_eq_false (Nat.lt_irrefl _), parenthesized,
    if_neg Bool.false_ne_true]

/-- Operators of one precedence write their operands alike. -/
theorem operandText_congr {o op : BinaryOp} (h : o.precedence = op.precedence) (e : Expr) :
    e.operandText o = e.operandText op := by
  rw [operandText, operandText, h]

/-- Moving an operator to the left past others of its precedence does not show. -/
theorem text_graft (left : Expr) (op : BinaryOp) (right : Expr) :
    (graft left op right).text = (binary left op right).text := by
  fun_induction graft left op right with
  | case1 first o second hsame ih =>
    have hright : (binary first o second).operandText op = (binary first o second).text :=
      operandText_of_level_eq hsame
    have hleft : (graft left op first).operandText o = (graft left op first).text :=
      operandText_of_level_eq ((level_graft left op first).trans hsame.symm)
    rw [text_binary, text_binary left, hright, hleft, ih, text_binary, text_binary,
      operandText_congr hsame first]
    simp only [String.append_assoc]
  | case2 first o second _ => rfl
  | case3 e _ => rfl

/-- Grouping to the left does not change how tightly an expression binds. -/
theorem level_leftGrouped (e : Expr) : e.leftGrouped.level = e.level := by
  cases e with
  | binary left op right => exact level_graft ..
  | _ => rfl

/-- **A text does not tell how operators of one precedence are grouped.** -/
theorem text_leftGrouped (e : Expr) : e.leftGrouped.text = e.text := by
  induction e using leftGrouped.induct with
  | case1 left op right ihl ihr =>
    have hoperand : ∀ e : Expr, e.leftGrouped.text = e.text →
        e.leftGrouped.operandText op = e.operandText op := by
      intro e h
      rw [operandText, operandText, looserThan_eq, looserThan_eq, level_leftGrouped, h]
    rw [leftGrouped, text_graft, text_binary, text_binary, hoperand left ihl, hoperand right ihr]
  | case2 e hbinary => rw [leftGrouped.eq_2 e hbinary]

end Expr

/-! ## The value -/

/-- Whether an operator may move past another one of its precedence by the usual laws. -/
def BinaryOp.regroups : BinaryOp → BinaryOp → Bool
  | .or, .or | .and, .and | .add, .add | .add, .sub | .mul, .mul => true
  | _, _ => false

namespace Interpretation

variable {V : Type} (I : Interpretation V)

/-- The interpretation gives the same value to both groupings of two operators. -/
def Regroups (op o : BinaryOp) : Prop :=
  ∀ a b c, I.apply op a (I.apply o b c) = I.apply o (I.apply op a b) c

/-- The laws of Kleene's conjunction, of sums and of products. -/
structure Arithmetic : Prop where
  and : I.KleeneAnd
  add_add : I.Regroups .add .add
  add_sub : I.Regroups .add .sub
  mul_mul : I.Regroups .mul .mul

variable {I}

/-- The usual laws give each regrouping that is allowed. -/
theorem Arithmetic.regroups (h : I.Arithmetic) {op o : BinaryOp} (hop : op.regroups o = true) :
    I.Regroups op o := by
  unfold BinaryOp.regroups at hop
  split at hop
  · intro a b c
    simp only [apply, I.truth_ofTruth, Truth.or_assoc]
  · intro a b c
    simp only [h.and _ _, I.truth_ofTruth, Truth.and_assoc]
  · exact h.add_add
  · exact h.add_sub
  · exact h.mul_mul
  · cases hop

/-! ### Numbers and truth values -/

/-- A value other than NULL. -/
inductive Scalar
  | number (q : Rat)
  | truth (b : Bool)
deriving DecidableEq

/-- The number that a decimal numeral spells: its digits, over a power of ten for those after the
point. -/
def decimalValue (cs : List Char) : Rat :=
  let whole := cs.takeWhile Char.isDigit
  let fraction := (cs.dropWhile Char.isDigit).drop 1
  Decimal.digitsValue whole +
    (Decimal.digitsValue fraction : Rat) / (fraction.foldl (fun n _ => 10 * n) 1 : Nat)

def truthOfScalar : Option Scalar → Truth
  | some (.truth true) => .holds
  | some (.truth false) => .fails
  | _ => .unknown

def scalarOfTruth : Truth → Option Scalar
  | .holds => some (.truth true)
  | .fails => some (.truth false)
  | .unknown => none

/-- An operation on numbers; NULL for other operands. -/
def onNumbers (f : Rat → Rat → Option Scalar) : Option Scalar → Option Scalar → Option Scalar
  | some (.number a), some (.number b) => f a b
  | _, _ => none

/-- Equality of values of one kind; NULL for other operands. -/
def sameScalar : Option Scalar → Option Scalar → Option Bool
  | some (.number a), some (.number b) => some (a == b)
  | some (.truth a), some (.truth b) => some (a == b)
  | _, _ => none

/-- The usual meaning of the operators on numbers and truth values. An operator whose operands are
not of its kind gives NULL, and so do division by zero, calls and literals that are no numbers. -/
def scalars : Interpretation (Option Scalar) where
  null := none
  literal v := if v.kind = .number then some (.number (decimalValue v.value.toList)) else none
  call _ _ _ := none
  star := none
  op
    | .eq, a, b => (sameScalar a b).map .truth
    | .neq, a, b => (sameScalar a b).map fun same => .truth !same
    | .lt, a, b => onNumbers (fun p q => some (.truth (p < q))) a b
    | .lte, a, b => onNumbers (fun p q => some (.truth (p ≤ q))) a b
    | .gt, a, b => onNumbers (fun p q => some (.truth (q < p))) a b
    | .gte, a, b => onNumbers (fun p q => some (.truth (q ≤ p))) a b
    | .add, a, b => onNumbers (fun p q => some (.number (p + q))) a b
    | .sub, a, b => onNumbers (fun p q => some (.number (p - q))) a b
    | .mul, a, b => onNumbers (fun p q => some (.number (p * q))) a b
    | .div, a, b => onNumbers (fun p q => if q = 0 then none else some (.number (p / q))) a b
    | .and, a, b => scalarOfTruth ((truthOfScalar a).and (truthOfScalar b))
    | .or, a, b => scalarOfTruth ((truthOfScalar a).or (truthOfScalar b))
    | .like, _, _ => none
  truth := truthOfScalar
  ofTruth := scalarOfTruth
  truth_ofTruth t := by cases t <;> rfl

/-- Operations on numbers regroup when they do so on the numbers themselves. -/
theorem onNumbers_assoc {f g f' g' : Rat → Rat → Rat}
    (h : ∀ p q r, f p (g q r) = g' (f' p q) r) (a b c : Option Scalar) :
    onNumbers (fun p q => some (.number (f p q))) a
        (onNumbers (fun p q => some (.number (g p q))) b c) =
      onNumbers (fun p q => some (.number (g' p q)))
        (onNumbers (fun p q => some (.number (f' p q))) a b) c := by
  rcases a with _ | _ | _ <;> rcases b with _ | _ | _ <;> rcases c with _ | _ | _ <;>
    simp [onNumbers, h]

/-- Numbers with their sums and products satisfy the usual laws. -/
theorem scalars_arithmetic : scalars.Arithmetic where
  and _ _ := rfl
  add_add := onNumbers_assoc fun p q r => (Rat.add_assoc p q r).symm
  add_sub := onNumbers_assoc fun p q r => by
    rw [Rat.sub_eq_add_neg, Rat.sub_eq_add_neg, Rat.add_assoc]
  mul_mul := onNumbers_assoc fun p q r => (Rat.mul_assoc p q r).symm

end Interpretation

namespace Expr

variable {V : Type} {I : Interpretation V}

/-- An operator that may move past those of the chain on its right keeps the value. -/
theorem eval_graft {left right : Expr} {op : BinaryOp}
    (h : ∀ o ∈ right.chainOps op.precedence, I.Regroups op o) (read : ColumnRef → V) :
    (graft left op right).eval I read = I.apply op (left.eval I read) (right.eval I read) := by
  fun_induction graft left op right with
  | case1 first o second hsame ih =>
    rw [chainOps, if_pos hsame, List.forall_mem_append, List.forall_mem_cons] at h
    rw [eval, ih h.1, eval, h.2.1]
  | case2 first o second _ => rw [eval]
  | case3 e _ => rw [eval]

/-- Grafting keeps the operators of every precedence in their order. -/
theorem chainOps_graft (p : Nat) (left : Expr) (op : BinaryOp) (right : Expr) :
    (graft left op right).chainOps p = (binary left op right).chainOps p := by
  fun_induction graft left op right with
  | case1 first o second hsame ih =>
    by_cases hp : op.precedence = p
    · simp [chainOps, ih, hsame, hp]
    · simp [chainOps, hsame, hp]
  | case2 first o second _ => rfl
  | case3 e _ => rfl

/-- Grouping to the left keeps the operators of every precedence in their order. -/
theorem chainOps_leftGrouped (p : Nat) (e : Expr) : e.leftGrouped.chainOps p = e.chainOps p := by
  induction e using leftGrouped.induct with
  | case1 left op right ihl ihr => rw [leftGrouped, chainOps_graft, chainOps, chainOps, ihl, ihr]
  | case2 e hbinary => rw [leftGrouped.eq_2 e hbinary]

/-- **Grouping to the left keeps the value** where each operator may move past those that it does
move past. -/
theorem eval_leftGrouped {e : Expr} (h : ∀ pair ∈ e.regroupings, I.Regroups pair.1 pair.2)
    (read : ColumnRef → V) : e.leftGrouped.eval I read = e.eval I read := by
  induction e using leftGrouped.induct with
  | case1 left op right ihl ihr =>
    simp only [regroupings, List.forall_mem_append, List.forall_mem_map] at h
    obtain ⟨⟨hleft, hmoved⟩, hright⟩ := h
    rw [leftGrouped, eval_graft (by rwa [chainOps_leftGrouped]), ihl hleft, ihr hright, eval]
  | case2 e hbinary => rw [leftGrouped.eq_2 e hbinary]

end Expr

end QuerySplit
