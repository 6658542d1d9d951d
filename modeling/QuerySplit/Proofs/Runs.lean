import Mathlib.Control.Monad.Basic
import QuerySplit.Pipeline.Standard

/-!
# Runs and failures

`Work.after` is the composition of some rules, each applied to what the ones before it left, and
`Work.answer?` is what the rule at a position says in it. Neither knows of settings, and neither
stops at a failure. A run is measured against them over the rules that the settings let run
(`Settings.eligible`).

Main statement: `run_stops_at_first_failure`. If some eligible rule fails, the run ends at the
first that does, with its error and with the work that the rules up to it leave, so no later rule
has a part in the statement or in the lookups. If none fails, the run succeeds and leaves the
composition of all of them.

A rule is any function of the work here. The work of a run is always the composition of some
eligible rules, so what each of these keeps, whole runs keep (`run_induction`).
-/

set_option autoImplicit false

namespace QuerySplit

/-- A mapped answer is a success only if the answer is one. -/
theorem eq_ok_of_map {α β : Type} {result : Except Error α} {f : α → β} {b : β}
    (h : result.map f = .ok b) : ∃ a, result = .ok a ∧ b = f a := by
  cases result with
  | error e => cases h
  | ok a => cases h; exact ⟨a, rfl, rfl⟩

/-! ## Rules one after the other -/

namespace Work

/-- The work after some rules, each applied to what the ones before it left. -/
def after (work : Work) (ctx : Context) (rules : List Rule) : Work :=
  rules.foldl (fun seen rule => (rule.apply ctx seen).1) work

/-- What the rule at a position answers after the rules before it. -/
def answer? (work : Work) (ctx : Context) (rules : List Rule) (i : Nat) :
    Option (Except Error Bool) :=
  rules[i]?.map fun rule => (rule.apply ctx (work.after ctx (rules.take i))).2

variable {ctx : Context}

@[simp]
theorem after_nil (work : Work) : work.after ctx [] = work := rfl

@[simp]
theorem after_cons (work : Work) (rule : Rule) (rest : List Rule) :
    work.after ctx (rule :: rest) = (rule.apply ctx work).1.after ctx rest := rfl

@[simp]
theorem answer?_cons_zero (work : Work) (rule : Rule) (rest : List Rule) :
    work.answer? ctx (rule :: rest) 0 = some (rule.apply ctx work).2 := rfl

/-- What every rule keeps, and what holds between the ends of two steps in a row, holds between
the ends of a composition. -/
theorem after_induction {R : Work → Work → Prop} {rules : List Rule} (refl : ∀ work, R work work)
    (trans : ∀ first second third, R first second → R second third → R first third)
    (step : ∀ rule ∈ rules, ∀ work, R work (rule.apply ctx work).1) (work : Work) :
    R work (work.after ctx rules) := by
  induction rules generalizing work with
  | nil => exact refl work
  | cons rule rest ih =>
    obtain ⟨hrule, hrest⟩ := List.forall_mem_cons.1 step
    exact trans _ _ _ (hrule work) (ih hrest _)

/-- In a composition of rules that never fail none fails. -/
theorem answer?_ne_error {rules : List Rule}
    (h : ∀ rule ∈ rules, ∀ work, ∃ changed, (rule.apply ctx work).2 = .ok changed) (work : Work)
    (i : Nat) (e : Error) : work.answer? ctx rules i ≠ some (.error e) := by
  intro hfails
  obtain ⟨rule, hrule, hanswer⟩ := Option.map_eq_some_iff.1 hfails
  obtain ⟨changed, hchanged⟩ := h rule (List.mem_of_getElem? hrule) (work.after ctx (rules.take i))
  rw [hchanged] at hanswer
  cases hanswer

/-- If some rule of a composition fails, one is the first to. -/
theorem exists_first_failure {work : Work} {rules : List Rule} {i : Nat} {e : Error}
    (h : work.answer? ctx rules i = some (.error e)) :
    ∃ k ≤ i, ∃ first, work.answer? ctx rules k = some (.error first) ∧
      ∀ j < k, ∃ changed, work.answer? ctx rules j = some (.ok changed) := by
  induction rules generalizing work i with
  | nil => cases h
  | cons rule rest ih =>
    cases hanswer : (rule.apply ctx work).2 with
    | error first =>
      exact ⟨0, Nat.zero_le i, first, by rw [answer?_cons_zero, hanswer], fun j hj => by omega⟩
    | ok changed =>
      cases i with
      | zero => rw [answer?_cons_zero, hanswer] at h; cases h
      | succ i =>
        obtain ⟨k, hk, first, hfirst, hbefore⟩ := ih h
        refine ⟨k + 1, Nat.succ_le_succ hk, first, hfirst, fun j hj => ?_⟩
        cases j with
        | zero => exact ⟨changed, by rw [answer?_cons_zero, hanswer]⟩
        | succ j => exact hbefore j (Nat.lt_of_succ_lt_succ hj)

end Work

/-- The rules of a list that the settings let run, in the same order. -/
def Settings.eligible (s : Settings) (phase : Phase) (dialect : Dialect) (rules : List Rule) :
    List Rule :=
  rules.filter fun rule => (s.skipReason? phase dialect rule).isNone

namespace Pipeline

/-- The rules of a pipeline that run in a phase for a dialect. -/
def eligible (p : Pipeline) (phase : Phase) (dialect : Dialect) : List Rule :=
  p.settings.eligible phase dialect p.rules

variable {s : Settings} {phase : Phase} {ctx : Context} {rule : Rule} {rules rest : List Rule}
  {work : Work}

/-! ## One step of a run -/

/-- A rule that is skipped is not among the eligible ones. -/
theorem eligible_cons_skipped {reason : SkipReason} {dialect : Dialect}
    (h : s.skipReason? phase dialect rule = some reason) :
    s.eligible phase dialect (rule :: rest) = s.eligible phase dialect rest :=
  List.filter_cons_of_neg (by simp [h])

/-- A rule that no reason bars comes first among the eligible ones. -/
theorem eligible_cons_admitted {dialect : Dialect}
    (h : s.skipReason? phase dialect rule = none) :
    s.eligible phase dialect (rule :: rest) = rule :: s.eligible phase dialect rest :=
  List.filter_cons_of_pos (by simp [h])

/-- The eligible rules are the registered ones that no reason bars. -/
theorem mem_eligible {dialect : Dialect} :
    rule ∈ s.eligible phase dialect rules ↔
      rule ∈ rules ∧ s.skipReason? phase dialect rule = none := by
  rw [Settings.eligible, List.mem_filter, Option.isNone_iff_eq_none]

/-- A skipped rule is reported and has no part in the work. -/
theorem runRules_cons_skipped {reason : SkipReason}
    (h : s.skipReason? phase ctx.dialect rule = some reason) :
    runRules s phase ctx (rule :: rest) work =
      ((runRules s phase ctx rest work).1,
        (runRules s phase ctx rest work).2.map (·.skip rule.name reason)) := by
  rw [runRules, h]

/-- A rule that fails ends the run with its error, and what it did to the work stays. -/
theorem runRules_cons_failed {e : Error} (h : s.skipReason? phase ctx.dialect rule = none)
    (hanswer : (rule.apply ctx work).2 = .error e) :
    runRules s phase ctx (rule :: rest) work = ((rule.apply ctx work).1, .error e) := by
  obtain ⟨next, heq⟩ : ∃ next, rule.apply ctx work = (next, .error e) := ⟨_, Prod.ext rfl hanswer⟩
  rw [runRules, h, heq]

/-- A rule that does not fail is reported, and the others go on from the work that it left. -/
theorem runRules_cons_ran {changed : Bool} (h : s.skipReason? phase ctx.dialect rule = none)
    (hanswer : (rule.apply ctx work).2 = .ok changed) :
    runRules s phase ctx (rule :: rest) work =
      ((runRules s phase ctx rest (rule.apply ctx work).1).1,
        (runRules s phase ctx rest (rule.apply ctx work).1).2.map (·.ran rule.name changed)) := by
  obtain ⟨next, heq⟩ : ∃ next, rule.apply ctx work = (next, .ok changed) :=
    ⟨_, Prod.ext rfl hanswer⟩
  rw [runRules, h, heq]

/-! ## Whole runs -/

/-- A run ends at the first eligible rule that fails. -/
theorem runRules_of_first_failure {k : Nat} {e : Error}
    (hfails : work.answer? ctx (s.eligible phase ctx.dialect rules) k = some (.error e))
    (hbefore : ∀ j < k, ∃ changed,
      work.answer? ctx (s.eligible phase ctx.dialect rules) j = some (.ok changed)) :
    runRules s phase ctx rules work =
      (work.after ctx ((s.eligible phase ctx.dialect rules).take (k + 1)), .error e) := by
  induction rules generalizing work k with
  | nil => cases hfails
  | cons rule rest ih =>
    cases hskip : s.skipReason? phase ctx.dialect rule with
    | some reason =>
      -- a skipped rule is not eligible, so the failure stays at position `k`
      rw [eligible_cons_skipped hskip] at hfails hbefore ⊢
      rw [runRules_cons_skipped hskip, ih hfails hbefore]
      rfl
    | none =>
      rw [eligible_cons_admitted hskip] at hfails hbefore ⊢
      cases k with
      | zero =>
        rw [Work.answer?_cons_zero] at hfails
        exact runRules_cons_failed hskip (Option.some.inj hfails)
      | succ k =>
        obtain ⟨changed, hanswer⟩ := hbefore 0 (Nat.zero_lt_succ k)
        rw [Work.answer?_cons_zero] at hanswer
        rw [runRules_cons_ran hskip (Option.some.inj hanswer),
          ih hfails fun j hj => hbefore (j + 1) (Nat.succ_lt_succ hj)]
        rfl

/-- A run in which no eligible rule fails succeeds. -/
theorem runRules_of_no_failure
    (h : ∀ i e, work.answer? ctx (s.eligible phase ctx.dialect rules) i ≠ some (.error e)) :
    ∃ summary, runRules s phase ctx rules work =
      (work.after ctx (s.eligible phase ctx.dialect rules), .ok summary) := by
  induction rules generalizing work with
  | nil => exact ⟨{}, rfl⟩
  | cons rule rest ih =>
    cases hskip : s.skipReason? phase ctx.dialect rule with
    | some reason =>
      rw [eligible_cons_skipped hskip] at h ⊢
      obtain ⟨summary, hrest⟩ := ih h
      exact ⟨summary.skip rule.name reason, by rw [runRules_cons_skipped hskip, hrest]; rfl⟩
    | none =>
      rw [eligible_cons_admitted hskip] at h ⊢
      cases hanswer : (rule.apply ctx work).2 with
      | error e => exact absurd (by rw [Work.answer?_cons_zero, hanswer]) (h 0 e)
      | ok changed =>
        obtain ⟨summary, hrest⟩ := ih fun i => h (i + 1)
        exact ⟨summary.ran rule.name changed, by
          rw [runRules_cons_ran hskip hanswer, hrest]; rfl⟩

/-- What every eligible rule keeps, whether it succeeds or fails, a run keeps. -/
theorem run_induction {R : Work → Work → Prop} (p : Pipeline) (phase : Phase) (ctx : Context)
    (refl : ∀ work, R work work)
    (trans : ∀ first second third, R first second → R second third → R first third)
    (step : ∀ rule ∈ p.eligible phase ctx.dialect, ∀ work, R work (rule.apply ctx work).1)
    (work : Work) : R work (p.run phase ctx work).1 := by
  -- either way the work of the run is a composition of eligible rules
  by_cases h : ∃ i e, work.answer? ctx (p.eligible phase ctx.dialect) i = some (.error e)
  · obtain ⟨i, e, hfails⟩ := h
    obtain ⟨k, -, first, hfirst, hbefore⟩ := Work.exists_first_failure hfails
    rw [run, runRules_of_first_failure hfirst hbefore]
    exact Work.after_induction refl trans
      (fun rule hrule => step rule (List.mem_of_mem_take hrule)) work
  · obtain ⟨summary, hrun⟩ := runRules_of_no_failure fun i e hfails => h ⟨i, e, hfails⟩
    rw [run, hrun]
    exact Work.after_induction refl trans step work

/-- **A run stops at the first failure.** When some eligible rule fails, in the composition of all
of them, the run answers the error of the first that does and leaves the work of the rules up to
and including it. When none fails, the run succeeds and leaves the composition of all. -/
theorem run_stops_at_first_failure (p : Pipeline) (phase : Phase) (ctx : Context) (work : Work) :
    (∀ i e, work.answer? ctx (p.eligible phase ctx.dialect) i = some (.error e) →
      ∃ k ≤ i, ∃ first,
        work.answer? ctx (p.eligible phase ctx.dialect) k = some (.error first) ∧
        (∀ j < k, ∃ changed,
          work.answer? ctx (p.eligible phase ctx.dialect) j = some (.ok changed)) ∧
        p.run phase ctx work =
          (work.after ctx ((p.eligible phase ctx.dialect).take (k + 1)), .error first)) ∧
    ((∀ i e, work.answer? ctx (p.eligible phase ctx.dialect) i ≠ some (.error e)) →
      ∃ summary,
        p.run phase ctx work = (work.after ctx (p.eligible phase ctx.dialect), .ok summary)) := by
  refine ⟨fun i e hfails => ?_, runRules_of_no_failure⟩
  obtain ⟨k, hk, first, hfirst, hbefore⟩ := Work.exists_first_failure hfails
  exact ⟨k, hk, first, hfirst, hbefore, runRules_of_first_failure hfirst hbefore⟩

end Pipeline

/-! ## Runs over customers -/

/-- The customers by region, and by status under a unique key. -/
def customers : Catalog where
  variants :=
    [{ base := "customers", suffix := "a",
       dimensions := [{ column := "region", partitions := true }] },
     { base := "customers", suffix := "b",
       dimensions := [{ column := "status", organizes := true }],
       uniqueKeys := Text.NameSet.ofList ["id"] }]

def customerContext : Context := ⟨.standard, .ofCatalog customers⟩

/-- A count of the active customers. -/
def activeCustomers : Work where
  statement :=
    { items := [.countDistinct (.column ⟨none, "id"⟩)]
      sources := some [{ name := "customers_x" }]
      filter := some (.binary (.column ⟨none, "status"⟩) .eq (.literal ⟨"active", .string⟩)) }

/-- What the rule below gives up with. -/
def rejection : Error := .rule "reject_all" "unsupported statement"

/-- A rule that looks up a table, changes the statement and then gives up. -/
def rejectAll : Rule where
  name := "reject_all"
  phase := .generic
  apply _ work :=
    (({ work with statement.distinct := true } : Work).record "orders", .error rejection)

/-- The rule stands twice among the standard ones. -/
def rejecting : Pipeline where
  rules := [.orToIn, .tableRouting, rejectAll, .countDistinct, rejectAll]

/-- A run with a rule that always rejects ends there, after routing; the usual run of the same phase
succeeds. -/
theorem Pipeline.run_stops_at_first_failure_rejecting :
    activeCustomers.answer? customerContext
      (rejecting.eligible .generic customerContext.dialect) 3 = some (.error rejection) ∧
    rejecting.run .generic customerContext activeCustomers =
      (activeCustomers.after customerContext [.tableRouting, rejectAll], .error rejection) ∧
    (∀ i e, activeCustomers.answer? customerContext
      ((Pipeline.standard {}).eligible .generic customerContext.dialect) i ≠ some (.error e)) ∧
    ∃ summary, (Pipeline.standard {}).run .generic customerContext activeCustomers =
      (activeCustomers.after customerContext [.tableRouting, .countDistinct], .ok summary) := by
  have hfails : activeCustomers.answer? customerContext
      (rejecting.eligible .generic customerContext.dialect) 3 = some (.error rejection) := by
    decide +kernel
  have hrouted : activeCustomers.answer? customerContext
      (rejecting.eligible .generic customerContext.dialect) 0 = some (.ok true) := by
    decide +kernel
  have hrejected : activeCustomers.answer? customerContext
      (rejecting.eligible .generic customerContext.dialect) 1 = some (.error rejection) := by
    decide +kernel
  have hnone : ∀ i e, activeCustomers.answer? customerContext
      ((Pipeline.standard {}).eligible .generic customerContext.dialect) i ≠ some (.error e) := by
    intro i e
    have hanswers : ∀ j < 2, activeCustomers.answer? customerContext
        ((Pipeline.standard {}).eligible .generic customerContext.dialect) j = some (.ok true) := by
      decide +kernel
    match i with
    | 0 => simp [hanswers 0]
    | 1 => simp [hanswers 1]
    | i + 2 => exact nofun
  refine ⟨hfails, ?_, hnone, (Pipeline.run_stops_at_first_failure _ _ customerContext _).2 hnone⟩
  obtain ⟨k, -, first, hfirst, hbefore, hrun⟩ :=
    (Pipeline.run_stops_at_first_failure rejecting .generic customerContext _).1 3 _ hfails
  match k with
  | 0 =>
    rw [hrouted] at hfirst
    cases hfirst
  | 1 =>
    rw [hrejected] at hfirst
    cases hfirst
    exact hrun
  | k + 2 =>
    obtain ⟨changed, hchanged⟩ := hbefore 1 (by omega)
    rw [hrejected] at hchanged
    cases hchanged

end QuerySplit
