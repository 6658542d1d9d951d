import QuerySplit.Proofs.Accounts

/-!
# Rules that act as functions

Some rules never fail and map each statement to one result, whatever has been looked up
(`Rule.ActsAs`). A composition of them is the composition of their functions. If the functions are
idempotent and commute, one run leaves a statement that each of them maps to itself, and a second
run has nothing to apply (`settles_of_actsAs`).
-/

set_option autoImplicit false

namespace QuerySplit

/-- The rule maps every statement by one function, whatever has been looked up before, and says
whether that makes a difference. -/
def Rule.ActsAs (rule : Rule) (ctx : Context) (f : Select → Select) : Prop :=
  ∀ work, ∃ lookups, rule.apply ctx work =
    ({ statement := f work.statement, lookups },
      .ok (decide (f work.statement ≠ work.statement)))

/-- A statement that the function does not change comes through the turn of the rule. -/
theorem Rule.ActsAs.apply_of_fixed {rule : Rule} {ctx : Context} {f : Select → Select}
    (h : rule.ActsAs ctx f) {work : Work} (hfixed : f work.statement = work.statement) :
    ∃ lookups, rule.apply ctx work = ({ work with lookups }, .ok false) := by
  obtain ⟨lookups, happly⟩ := h work
  simp only [hfixed, ne_eq, not_true_eq_false, decide_false] at happly
  exact ⟨lookups, happly⟩

section Effects

variable {ctx : Context} {f : Rule → Select → Select} {rules : List Rule}

/-- The statement after the functions of some rules, one after the other. -/
def Select.afterAll (f : Rule → Select → Select) (rules : List Rule) (s : Select) : Select :=
  rules.foldl (fun s rule => f rule s) s

/-- Rules that act as functions act one after the other. -/
theorem Work.statement_after (hacts : ∀ rule ∈ rules, rule.ActsAs ctx (f rule)) (work : Work) :
    (work.after ctx rules).statement = work.statement.afterAll f rules := by
  induction rules generalizing work with
  | nil => rfl
  | cons rule rest ih =>
    obtain ⟨hrule, hrest⟩ := List.forall_mem_cons.1 hacts
    obtain ⟨lookups, happly⟩ := hrule work
    rw [after_cons, ih hrest, happly]
    rfl

/-- A function that commutes with all others may be applied first. -/
theorem Select.afterAll_comm {g : Select → Select}
    (hcomm : ∀ rule ∈ rules, ∀ s, g (f rule s) = f rule (g s)) (s : Select) :
    g (s.afterAll f rules) = (g s).afterAll f rules := by
  induction rules generalizing s with
  | nil => rfl
  | cons rule rest ih =>
    obtain ⟨hrule, hrest⟩ := List.forall_mem_cons.1 hcomm
    rw [afterAll, List.foldl_cons, afterAll, List.foldl_cons, ← hrule]
    exact ih hrest _

/-- Idempotent functions that commute leave a statement that none of them changes. -/
theorem Select.afterAll_fixed (hidem : ∀ rule ∈ rules, ∀ s, f rule (f rule s) = f rule s)
    (hcomm : ∀ rule ∈ rules, ∀ other ∈ rules, ∀ s, f rule (f other s) = f other (f rule s))
    {rule : Rule} (hrule : rule ∈ rules) (s : Select) :
    f rule (s.afterAll f rules) = s.afterAll f rules := by
  induction rules generalizing s with
  | nil => cases hrule
  | cons first rest ih =>
    have hafter : s.afterAll f (first :: rest) = (f first s).afterAll f rest := rfl
    rcases List.mem_cons.1 hrule with rfl | hrest
    · -- the first function is carried through the others to stand beside itself
      have hthrough := afterAll_comm (g := f rule)
        (fun other hother => hcomm rule List.mem_cons_self other (List.mem_cons_of_mem _ hother))
        (f rule s)
      rw [hafter, hthrough, hidem rule List.mem_cons_self]
    · rw [hafter]
      exact ih (fun other hother => hidem other (List.mem_cons_of_mem _ hother))
        (fun one hone other hother =>
          hcomm one (List.mem_cons_of_mem _ hone) other (List.mem_cons_of_mem _ hother))
        hrest _

end Effects

namespace Pipeline

variable {s : Settings} {phase : Phase} {ctx : Context} {f : Rule → Select → Select}

/-- A run in which every eligible rule maps the statement to itself applies none. -/
theorem runRules_of_fixed {rules : List Rule} (work : Work)
    (hacts : ∀ rule ∈ s.eligible phase ctx.dialect rules, rule.ActsAs ctx (f rule))
    (hfixed : ∀ rule ∈ s.eligible phase ctx.dialect rules,
      f rule work.statement = work.statement) :
    ∃ lookups summary, runRules s phase ctx rules work =
      ({ work with lookups }, .ok summary) ∧ summary.applied = [] := by
  induction rules generalizing work with
  | nil => exact ⟨work.lookups, {}, rfl, rfl⟩
  | cons rule rest ih =>
    cases hskip : s.skipReason? phase ctx.dialect rule with
    | some reason =>
      rw [eligible_cons_skipped hskip] at hacts hfixed
      obtain ⟨lookups, summary, hrest, hnone⟩ := ih work hacts hfixed
      refine ⟨lookups, summary.skip rule.name reason, ?_, hnone⟩
      rw [runRules_cons_skipped hskip, hrest]
      rfl
    | none =>
      rw [eligible_cons_admitted hskip] at hacts hfixed
      obtain ⟨hrule, hrest⟩ := List.forall_mem_cons.1 hacts
      obtain ⟨hruleFixed, hrestFixed⟩ := List.forall_mem_cons.1 hfixed
      -- the rule may look something up, and leaves the statement as the others expect it
      obtain ⟨between, happly⟩ := hrule.apply_of_fixed hruleFixed
      obtain ⟨lookups, summary, hrun, hnone⟩ :=
        ih { work with lookups := between } hrest hrestFixed
      refine ⟨lookups, summary.ran rule.name false, ?_, hnone⟩
      rw [runRules_cons_ran hskip (congrArg Prod.snd happly), happly, hrun]
      rfl

/-- **Rules that act as idempotent functions and commute settle a statement in one run.** The
first run succeeds, and a second one applies nothing and leaves the statement. -/
theorem settles_of_actsAs {p : Pipeline}
    (hacts : ∀ rule ∈ p.eligible phase ctx.dialect, rule.ActsAs ctx (f rule))
    (hidem : ∀ rule ∈ p.eligible phase ctx.dialect, ∀ s, f rule (f rule s) = f rule s)
    (hcomm : ∀ rule ∈ p.eligible phase ctx.dialect, ∀ other ∈ p.eligible phase ctx.dialect, ∀ s,
      f rule (f other s) = f other (f rule s)) (work : Work) :
    ∃ settled first, p.run phase ctx work = (settled, .ok first) ∧
      ∀ lookups, ∃ again second, p.run phase ctx { settled with lookups } = (again, .ok second) ∧
        second.applied = [] ∧ again.statement = settled.statement := by
  have hsucceeds : ∀ rule ∈ p.eligible phase ctx.dialect, ∀ work, ∃ changed,
      (rule.apply ctx work).2 = .ok changed := by
    intro rule hrule work
    obtain ⟨lookups, happly⟩ := hacts rule hrule work
    exact ⟨_, congrArg Prod.snd happly⟩
  obtain ⟨first, hfirst⟩ := runRules_of_no_failure (Work.answer?_ne_error hsucceeds work)
  refine ⟨work.after ctx (p.eligible phase ctx.dialect), first, hfirst, fun lookups => ?_⟩
  have hfixed : ∀ rule ∈ p.eligible phase ctx.dialect,
      f rule (work.after ctx (p.eligible phase ctx.dialect)).statement =
        (work.after ctx (p.eligible phase ctx.dialect)).statement := by
    intro rule hrule
    rw [Work.statement_after hacts]
    exact Select.afterAll_fixed hidem hcomm hrule _
  obtain ⟨later, second, hsecond, hnone⟩ := runRules_of_fixed
    { work.after ctx (p.eligible phase ctx.dialect) with lookups } hacts hfixed
  exact ⟨_, second, hsecond, hnone, rfl⟩

end Pipeline

end QuerySplit
