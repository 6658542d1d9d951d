import Mathlib.Data.List.Perm.Basic
import QuerySplit.Expr.Walk

/-!
# Positions in an expression

A position is the way down from the root of an expression: the index of a child, then the index of
a child of that one, and so on. `part?` looks up what stands at a position, and `Precedes` orders
the positions as they are written: a node before everything below it, and everything below a child
before everything below a later one.

A list is an expression in pre-order (`IsPreorder`) when it has what stands at each position, in
this order and once for each. The recursion `nodes` gives such a list (`isPreorder_nodes`), and
there is no other (`IsPreorder.eq_nodes`), since positions in ascending order are determined by
which they are.
-/

set_option autoImplicit false

namespace QuerySplit.Expr

/-- The part of an expression at a position. -/
def part? : Expr → List Nat → Option Expr
  | e, [] => some e
  | e, i :: p => e.children[i]?.bind (·.part? p)

/-- The part at a position among expressions of which the first is the child with a given index. -/
def partFrom? (i : Nat) (es : List Expr) : List Nat → Option Expr
  | [] => none
  | j :: p => if i ≤ j then es[j - i]?.bind (·.part? p) else none

/-- The order of the positions: a position comes before those below it, and where two part, the one
at the earlier child comes first. -/
def Precedes (p q : List Nat) : Prop :=
  List.Lex (· < ·) p q

/-- The positions are all those at which something is found, in ascending order, and the list has
what is found there. -/
structure ListsParts (find? : List Nat → Option Expr) (ps : List (List Nat)) (es : List Expr) :
    Prop where
  ascending : ps.Pairwise Precedes
  complete : ∀ p, p ∈ ps ↔ (find? p).isSome
  parts : ps.map find? = es.map some

/-- The list has what stands at each position of an expression, in the order of the positions and
once for each of them. -/
def IsPreorder (e : Expr) (es : List Expr) : Prop :=
  ∃ ps, ListsParts e.part? ps es

/-! ## Positions below a node -/

/-- There is no part at any position among no parts. -/
theorem partFrom?_nil (i : Nat) (p : List Nat) : partFrom? i [] p = none := by
  cases p <;> simp [partFrom?]

/-- The position that starts with the number of the first part leads into it. -/
theorem partFrom?_cons_same (i : Nat) (e : Expr) (rest : List Expr) (p : List Nat) :
    partFrom? i (e :: rest) (i :: p) = e.part? p := by
  simp [partFrom?]

/-- A position that starts with another number leads into a later part. -/
theorem partFrom?_cons_other {i j : Nat} (h : j ≠ i) (e : Expr) (rest : List Expr)
    (p : List Nat) : partFrom? i (e :: rest) (j :: p) = partFrom? (i + 1) rest (j :: p) := by
  by_cases hlater : i + 1 ≤ j
  · have hindex : j - i = j - (i + 1) + 1 := by omega
    rw [partFrom?, partFrom?, if_pos (Nat.le_of_lt hlater), if_pos hlater, hindex,
      List.getElem?_cons_succ]
  · have hearlier : ¬ i ≤ j := by omega
    rw [partFrom?, partFrom?, if_neg hearlier, if_neg hlater]

/-- Where something is found, the index is one of the expressions'. -/
theorem exists_of_isSome_partFrom? {i : Nat} {es : List Expr} {p : List Nat}
    (h : (partFrom? i es p).isSome) : ∃ j q, p = j :: q ∧ i ≤ j := by
  cases p with
  | nil => cases h
  | cons j q =>
    refine ⟨j, q, rfl, Decidable.by_contra fun hlt => ?_⟩
    rw [partFrom?, if_neg hlt] at h
    cases h

/-- No parts are listed by no positions. -/
theorem listsParts_nil (i : Nat) : ListsParts (partFrom? i []) [] [] where
  ascending := .nil
  complete p := by simp [partFrom?_nil]
  parts := rfl

/-- The positions in the first of some expressions come before those in the others. -/
theorem ListsParts.cons {i : Nat} {e : Expr} {rest : List Expr} {ps qs : List (List Nat)}
    {as bs : List Expr} (hfirst : ListsParts e.part? ps as)
    (hrest : ListsParts (partFrom? (i + 1) rest) qs bs) :
    ListsParts (partFrom? i (e :: rest)) (ps.map (i :: ·) ++ qs) (as ++ bs) := by
  -- the first index tells the positions in the first expression from those in the others
  have hlater : ∀ q ∈ qs, ∃ j r, q = j :: r ∧ i + 1 ≤ j := fun q hq =>
    exists_of_isSome_partFrom? ((hrest.complete q).1 hq)
  refine ⟨?_, fun p => ?_, ?_⟩
  · refine List.pairwise_append.2 ⟨List.pairwise_map.2 (hfirst.ascending.imp .cons),
      hrest.ascending, fun p hp q hq => ?_⟩
    obtain ⟨p, -, rfl⟩ := List.mem_map.1 hp
    obtain ⟨j, r, rfl, hj⟩ := hlater q hq
    exact .rel hj
  · rw [List.mem_append, hrest.complete]
    cases p with
    | nil => simp [partFrom?]
    | cons j q =>
      by_cases hj : j = i
      · subst hj
        have hnone : partFrom? (j + 1) rest (j :: q) = none := if_neg (Nat.not_succ_le_self j)
        rw [partFrom?_cons_same, ← hfirst.complete, hnone]
        simp
      · rw [partFrom?_cons_other hj]
        simp [Ne.symm hj]
  · have hparts : qs.map (partFrom? i (e :: rest)) = qs.map (partFrom? (i + 1) rest) := by
      refine List.map_congr_left fun q hq => ?_
      obtain ⟨j, r, rfl, hj⟩ := hlater q hq
      exact partFrom?_cons_other (by omega) e rest r
    have hbelow : partFrom? i (e :: rest) ∘ (i :: ·) = e.part? :=
      funext fun p => partFrom?_cons_same i e rest p
    rw [List.map_append, List.map_append, List.map_map, hbelow, hfirst.parts, hparts, hrest.parts]

/-- The root comes before all positions below it. -/
theorem ListsParts.root {e : Expr} {ps : List (List Nat)} {es : List Expr}
    (h : ListsParts (partFrom? 0 e.children) ps es) :
    ListsParts e.part? ([] :: ps) (e :: es) := by
  have hbelow : ∀ p ∈ ps, ∃ j q, p = j :: q ∧ 0 ≤ j := fun p hp =>
    exists_of_isSome_partFrom? ((h.complete p).1 hp)
  have hpart : ∀ j q, e.part? (j :: q) = partFrom? 0 e.children (j :: q) := fun j q => by
    simp [part?, partFrom?]
  refine ⟨List.pairwise_cons.2 ⟨fun p hp => ?_, h.ascending⟩, fun p => ?_, ?_⟩
  · obtain ⟨j, q, rfl, -⟩ := hbelow p hp
    exact .nil
  · cases p with
    | nil => simp [part?]
    | cons j q => simp [hpart, h.complete]
  · have hparts : ps.map e.part? = ps.map (partFrom? 0 e.children) := by
      refine List.map_congr_left fun p hp => ?_
      obtain ⟨j, q, rfl, -⟩ := hbelow p hp
      exact hpart j q
    rw [List.map_cons, List.map_cons, hparts, h.parts, part?]

/-- Where the nodes of each tree are in pre-order, those of the list are: what lies in an earlier
tree comes before what lies in a later one. -/
theorem exists_listsParts_nodesList {es : List Expr} (h : ∀ e ∈ es, e.IsPreorder e.nodes)
    (i : Nat) : ∃ ps, ListsParts (partFrom? i es) ps (nodesList es) := by
  induction es generalizing i with
  | nil => exact ⟨[], listsParts_nil i⟩
  | cons e rest ih =>
    obtain ⟨hfirst, hrest⟩ := List.forall_mem_cons.1 h
    obtain ⟨ps, hps⟩ := hfirst
    obtain ⟨qs, hqs⟩ := ih hrest (i + 1)
    exact ⟨_, hps.cons hqs⟩

/-- **The recursion lists an expression in pre-order.** -/
theorem isPreorder_nodes (e : Expr) : e.IsPreorder e.nodes := by
  induction e using induction_children with
  | h e ih =>
    obtain ⟨ps, hps⟩ := exists_listsParts_nodesList ih 0
    rw [nodes_eq]
    exact ⟨_, hps.root⟩

/-- **An expression has one pre-order**: two lists of all its positions in ascending order are the
same list. -/
theorem IsPreorder.eq_nodes {e : Expr} {es : List Expr} (h : e.IsPreorder es) : es = e.nodes := by
  obtain ⟨ps, hps⟩ := h
  obtain ⟨qs, hqs⟩ := isPreorder_nodes e
  have hnodup : ∀ rs : List (List Nat), rs.Pairwise Precedes → rs.Nodup := by
    intro rs hrs
    refine hrs.imp fun {p q} hlt heq => ?_
    rw [heq] at hlt
    exact List.lt_irrefl q hlt
  have hperm : ps.Perm qs :=
    (List.perm_ext_iff_of_nodup (hnodup ps hps.ascending) (hnodup qs hqs.ascending)).2 fun p => by
      rw [hps.complete, hqs.complete]
  have heq : ps = qs := by
    refine hperm.eq_of_pairwise ?_ hps.ascending hqs.ascending
    intro p q _ _ hpq hqp
    exact absurd hqp (List.lt_asymm hpq)
  have hsome : es.map some = e.nodes.map some := by rw [← hps.parts, heq, hqs.parts]
  exact List.map_injective_iff.2 (fun _ _ => Option.some.inj) hsome

end QuerySplit.Expr
