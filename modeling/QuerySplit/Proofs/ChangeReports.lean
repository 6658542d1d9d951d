import QuerySplit.Proofs.Accounts
import QuerySplit.Proofs.SecondRun

/-!
# What rules say about their changes

A rule answers whether it changed the statement. The answer is right of a built-in rule, and one
that fails has changed nothing, whichever of its lookups failed (`Rule.TellsChanges`).

The summary of a run says that the statement changed if some rule of the run said so. Rules that
tell their changes are not enough for that to be right, since a later rule could undo what an
earlier one did. It is right where the changes of each rule show in a part of the statement that no
later rule touches (`Rule.KeptApart`): the sources for routing, the select list for counting, the
filter for membership tests.
-/

set_option autoImplicit false

namespace QuerySplit

namespace Rule

variable {ctx : Context}

/-- The rule says that it changed the statement if and only if it did. -/
def TellsChanges (rule : Rule) (ctx : Context) : Prop :=
  ∀ work, (rule.apply ctx work).2 = .ok true ↔ (rule.apply ctx work).1.statement ≠ work.statement

/-- Any other answer, and a failure, comes with the statement as it was. -/
theorem TellsChanges.statement_eq {rule : Rule} {work : Work} (h : rule.TellsChanges ctx)
    (hanswer : (rule.apply ctx work).2 ≠ .ok true) :
    (rule.apply ctx work).1.statement = work.statement := by
  by_contra hne
  exact hanswer ((h work).2 hne)

/-- Routing reports a change exactly when some source has a new name. -/
theorem tellsChanges_tableRouting (ctx : Context) : tableRouting.TellsChanges ctx := by
  intro work
  change (routeTables ctx work).2 = .ok true ↔ (routeTables ctx work).1.statement ≠ work.statement
  rcases routeTables_cases ctx work with ⟨-, heq⟩ |
    ⟨tables, lookups, -, hsources, ⟨e, -, heq⟩ | ⟨routed, -, heq⟩⟩
  · simp [heq]
  · simp [heq]
  · simp [heq, Select.sources_eq_self_iff hsources]

/-- Counting reports a change exactly when some entry is new; the lookup it records is not a change
of the statement. -/
theorem tellsChanges_countDistinct (ctx : Context) : countDistinct.TellsChanges ctx := by
  intro work
  change (countRowsForKeys ctx work).2 = .ok true ↔
    (countRowsForKeys ctx work).1.statement ≠ work.statement
  rcases countRowsForKeys_cases ctx work with ⟨-, heq⟩ |
    ⟨table, -, ⟨e, -, heq⟩ | ⟨variants, -, heq⟩⟩
  · simp [heq]
  · simp [heq, Work.record]
  · simp [heq, Work.record, Select.items_eq_self_iff]

/-- The replacement of chains reports a change exactly when the filter is new. -/
theorem tellsChanges_orToIn (ctx : Context) : orToIn.TellsChanges ctx := by
  intro work
  change (membershipInFilter ctx work).2 = .ok true ↔
    (membershipInFilter ctx work).1.statement ≠ work.statement
  simp [membershipInFilter_eq, Select.filter_eq_self_iff]

/-- Each built-in rule reports its changes truly, for every provider. -/
theorem tellsChanges_of_mem_standard {rule : Rule} (h : rule ∈ standard) :
    rule.TellsChanges ctx := by
  rcases mem_standard.1 h with rfl | rfl | rfl
  · exact tellsChanges_tableRouting ctx
  · exact tellsChanges_countDistinct ctx
  · exact tellsChanges_orToIn ctx

end Rule

/-! ## The part of a statement that a rule writes -/

/-- A part of a statement that can be replaced by itself. -/
structure Select.Part (α : Type) where
  get : Select → α
  put : α → Select → Select
  get_put : ∀ a s, get (put a s) = a
  put_get : ∀ s, put (get s) s = s

namespace Select.Part

def sources : Part (Option (List TableRef)) where
  get := Select.sources
  put sources s := { s with sources }
  get_put _ _ := rfl
  put_get _ := rfl

def items : Part (List Expr) where
  get := Select.items
  put items s := { s with items }
  get_put _ _ := rfl
  put_get _ := rfl

def filter : Part (Option Expr) where
  get := Select.filter
  put filter s := { s with filter }
  get_put _ _ := rfl
  put_get _ := rfl

end Select.Part

namespace Rule

variable {ctx : Context} {α β : Type} {part : Select.Part α} {other : Select.Part β} {rule : Rule}

/-- The rule replaces a part of the statement and nothing else. -/
def Writes (rule : Rule) (ctx : Context) (part : Select.Part α) : Prop :=
  ∀ work, ∃ a, (rule.apply ctx work).1.statement = part.put a work.statement

/-- The rule leaves a part of the statement as it is. -/
def Keeps (rule : Rule) (ctx : Context) (part : Select.Part α) : Prop :=
  ∀ work, part.get (rule.apply ctx work).1.statement = part.get work.statement

/-- What a rule changes shows in the part that it writes. -/
theorem Writes.statement_eq {work : Work} (h : rule.Writes ctx part)
    (hsame : part.get (rule.apply ctx work).1.statement = part.get work.statement) :
    (rule.apply ctx work).1.statement = work.statement := by
  obtain ⟨a, heq⟩ := h work
  rw [heq, part.get_put] at hsame
  rw [heq, hsame, part.put_get]

/-- A rule that writes one part keeps every part that this one does not share. -/
theorem Writes.keeps (h : rule.Writes ctx part)
    (hother : ∀ a s, other.get (part.put a s) = other.get s) : rule.Keeps ctx other := by
  intro work
  obtain ⟨a, heq⟩ := h work
  rw [heq, hother]

/-- Routing writes the sources, also when it fails. -/
theorem tableRouting_writes (ctx : Context) : tableRouting.Writes ctx .sources := by
  intro work
  change ∃ sources, (routeTables ctx work).1.statement = { work.statement with sources }
  rcases routeTables_cases ctx work with ⟨-, heq⟩ |
    ⟨tables, lookups, -, -, ⟨e, -, heq⟩ | ⟨routed, -, heq⟩⟩
  · exact ⟨_, by rw [heq]⟩
  · exact ⟨_, by rw [heq]⟩
  · exact ⟨_, by rw [heq]⟩

/-- Counting writes the select list. -/
theorem countDistinct_writes (ctx : Context) : countDistinct.Writes ctx .items := by
  intro work
  change ∃ items, (countRowsForKeys ctx work).1.statement = { work.statement with items }
  rcases countRowsForKeys_cases ctx work with ⟨-, heq⟩ |
    ⟨table, -, ⟨e, -, heq⟩ | ⟨variants, -, heq⟩⟩
  · exact ⟨_, by rw [heq]⟩
  · exact ⟨_, by rw [heq]; rfl⟩
  · exact ⟨_, by rw [heq]; rfl⟩

/-- The replacement of chains writes the filter. -/
theorem orToIn_writes (ctx : Context) : orToIn.Writes ctx .filter := by
  intro work
  change ∃ filter, (membershipInFilter ctx work).1.statement = { work.statement with filter }
  exact ⟨_, by rw [membershipInFilter_eq]⟩

/-- Each of the rules writes a part that no later one touches. -/
inductive KeptApart (ctx : Context) : List Rule → Prop
  | nil : KeptApart ctx []
  | cons {rule : Rule} {rest : List Rule} {α : Type} {part : Select.Part α}
      (writes : rule.Writes ctx part) (kept : ∀ later ∈ rest, later.Keeps ctx part)
      (apart : KeptApart ctx rest) : KeptApart ctx (rule :: rest)

/-- The three built-in rules write three different clauses. -/
theorem standard_keptApart (ctx : Context) : KeptApart ctx standard := by
  refine .cons (tableRouting_writes ctx) ?_
    (.cons (countDistinct_writes ctx) ?_ (.cons (orToIn_writes ctx) nofun .nil))
  · intro later hlater
    rcases List.mem_pair.1 hlater with rfl | rfl
    · exact (countDistinct_writes ctx).keeps fun _ _ => rfl
    · exact (orToIn_writes ctx).keeps fun _ _ => rfl
  · intro later hlater
    rw [List.mem_singleton.1 hlater]
    exact (orToIn_writes ctx).keeps fun _ _ => rfl

end Rule

/-! ## Runs -/

namespace Summary

/-- A skipped rule does not make a summary one of changes. -/
theorem changed_skip (s : Summary) (rule : String) (reason : SkipReason) :
    (s.skip rule reason).changed = s.changed := rfl

theorem changed_ran (s : Summary) (rule : String) (changed : Bool) :
    (s.ran rule changed).changed = (changed || s.changed) := by
  cases changed <;> rfl

end Summary

namespace Pipeline

variable {s : Settings} {phase : Phase} {ctx : Context} {rules : List Rule} {work last : Work}
  {summary : Summary}

/-- What all rules keep, a run keeps. -/
theorem runRules_keeps {α : Type} {part : Select.Part α}
    (h : ∀ rule ∈ rules, rule.Keeps ctx part) (work : Work) :
    part.get (runRules s phase ctx rules work).1.statement = part.get work.statement := by
  refine run_induction
    (R := fun before after => part.get after.statement = part.get before.statement)
    ⟨rules, s⟩ phase ctx (fun _ => rfl) (fun _ _ _ hfirst hsecond => hsecond.trans hfirst)
    (fun rule hrule work => ?_) work
  exact h rule (mem_eligible.1 hrule).1 work

/-- **The summary of a run tells whether it changed the statement**, for rules that tell their
changes and are kept apart. -/
theorem runRules_changed_iff (htells : ∀ rule ∈ rules, rule.TellsChanges ctx)
    (hapart : Rule.KeptApart ctx rules)
    (h : runRules s phase ctx rules work = (last, .ok summary)) :
    summary.changed = true ↔ last.statement ≠ work.statement := by
  induction hapart generalizing work summary with
  | nil =>
    cases h
    simp [Summary.changed]
  | @cons rule rest α part writes kept apart ih =>
    obtain ⟨hrule, hrest⟩ := List.forall_mem_cons.1 htells
    rcases runRules_cons_eq_ok h with ⟨reason, -, others, hothers, rfl⟩ |
      ⟨changed, -, hanswer, others, hothers, rfl⟩
    · rw [Summary.changed_skip]
      exact ih hrest hothers
    · rw [Summary.changed_ran]
      cases changed with
      | false =>
        have hsame : (rule.apply ctx work).1.statement = work.statement :=
          hrule.statement_eq (by rw [hanswer]; nofun)
        rw [Bool.false_or, ← hsame]
        exact ih hrest hothers
      | true =>
        refine iff_of_true rfl fun hback => (hrule work).1 hanswer (writes.statement_eq ?_)
        -- the part that shows the change has come through the rules after it
        have hkept : part.get last.statement = part.get (rule.apply ctx work).1.statement := by
          rw [← runRules_keeps kept (rule.apply ctx work).1, hothers]
        rw [← hkept, hback]

/-- **Built-in rules report their changes.** Each says that it changed the statement if and only if
it did; if it says that it did not, or fails, the statement is as before. So a run of the standard
rules that succeeds has a summary with changes if and only if the statement differs. -/
theorem standard_reports_changes (ctx : Context) :
    (∀ rule ∈ Rule.standard, ∀ work : Work,
      ((rule.apply ctx work).2 = .ok true ↔
        (rule.apply ctx work).1.statement ≠ work.statement) ∧
      ((rule.apply ctx work).2 = .ok false →
        (rule.apply ctx work).1.statement = work.statement) ∧
      ∀ e, (rule.apply ctx work).2 = .error e →
        (rule.apply ctx work).1.statement = work.statement) ∧
    ∀ (settings : Settings) (phase : Phase) (work last : Work) (summary : Summary),
      (standard settings).run phase ctx work = (last, .ok summary) →
      (summary.changed = true ↔ last.statement ≠ work.statement) := by
  have htells : ∀ rule ∈ Rule.standard, rule.TellsChanges ctx :=
    fun _ hrule => Rule.tellsChanges_of_mem_standard hrule
  refine ⟨fun rule hrule work => ⟨htells rule hrule work, fun h => ?_, fun e h => ?_⟩, ?_⟩
  · exact (htells rule hrule).statement_eq (by rw [h]; nofun)
  · exact (htells rule hrule).statement_eq (by rw [h]; nofun)
  · intro settings phase work last summary hrun
    exact runRules_changed_iff htells (Rule.standard_keptApart ctx) hrun

end Pipeline

/-! ## Customers and their orders -/

/-- The customers are known, and the orders cannot be asked for. -/
def ordersUnavailable : Context :=
  ⟨.standard, (Provider.ofCatalog customers).failingFor
    [("orders", .unavailable "orders" "timeout")]⟩

/-- The active customers beside their orders. -/
def customersAndOrders : Work where
  statement :=
    { activeCustomers.statement with
      sources := some [{ name := "customers_x" }, { name := "orders_x" }] }

/-- Routing has a name for the customers when the lookup of the orders fails. A run over the
customers alone counts their rows. -/
theorem Pipeline.standard_reports_changes_customers :
    (Rule.tableRouting.apply ordersUnavailable customersAndOrders).2 =
        .error (.metadata "orders" "timeout") ∧
      (Rule.tableRouting.apply ordersUnavailable customersAndOrders).1.lookups =
        ["customers", "orders"] ∧
      (Rule.tableRouting.apply ordersUnavailable customersAndOrders).1.statement =
        customersAndOrders.statement ∧
      ∃ last summary, (Pipeline.standard {}).run .generic ordersUnavailable activeCustomers =
          (last, .ok summary) ∧
        summary.applied = [RuleName.tableRouting, RuleName.countDistinct] ∧
        last.statement ≠ activeCustomers.statement := by
  have hfails : (Rule.tableRouting.apply ordersUnavailable customersAndOrders).2 =
      .error (.metadata "orders" "timeout") := by
    decide +kernel
  obtain ⟨hrules, hruns⟩ := Pipeline.standard_reports_changes ordersUnavailable
  obtain ⟨-, -, hfailed⟩ := hrules .tableRouting (Rule.mem_standard.2 (.inl rfl))
    customersAndOrders
  refine ⟨hfails, by decide +kernel, hfailed _ hfails, ?_⟩
  have happlied : ((Pipeline.standard {}).run .generic ordersUnavailable activeCustomers).2.map
      Summary.applied = .ok [RuleName.tableRouting, RuleName.countDistinct] := by
    decide +kernel
  obtain ⟨summary, hsummary, hnames⟩ := eq_ok_of_map happlied
  refine ⟨_, summary, Prod.ext rfl hsummary, hnames.symm, ?_⟩
  refine (hruns {} .generic _ _ summary (Prod.ext rfl hsummary)).1 ?_
  rw [Summary.changed, ← hnames]
  rfl

end QuerySplit
