import QuerySplit.Proofs.Runs

/-!
# The account of a run

In a run that succeeds each registered rule meets one fate: it is skipped for a reason, or it runs
and says whether it changed the statement. `Settings.Bars` tells for each reason on its own what
it stands for; the reason given is the first one that holds (`skipReason?_eq_some_iff`).

Main statement: `run_accounts_for_every_rule`. The summary of a run lists the registered rules by
their fates, in the order of registration, and the fate of a rule follows from the settings and
from its answer to the work that the eligible rules before it left.
-/

set_option autoImplicit false

namespace QuerySplit

/-! ## What each reason stands for -/

/-- The place of a reason in the order in which they are looked for. -/
def SkipReason.rank : SkipReason → Nat
  | .phase => 0
  | .disabled => 1
  | .config => 2
  | .dialect => 3

/-- What holds for every reason is four statements, in the order in which reasons are looked for. -/
theorem SkipReason.forall_iff {P : SkipReason → Prop} :
    (∀ reason, P reason) ↔ P .phase ∧ P .disabled ∧ P .config ∧ P .dialect :=
  ⟨fun h => ⟨h _, h _, h _, h _⟩, fun ⟨hphase, hdisabled, hconfig, hdialect⟩ reason => by
    cases reason <;> assumption⟩

/-- The rule has a switch, and the switch is off. -/
def Switches.Off (s : Switches) (rule : String) : Prop :=
  (rule = RuleName.tableRouting ∧ s.tableRouting = false) ∨
    (rule = RuleName.orToIn ∧ s.orToIn = false) ∨
    (rule = RuleName.countDistinct ∧ s.countDistinct = false)

/-- A rule that is not enabled has a switch of its own that is off; a rule without one is enabled.
-/
theorem Switches.enables_eq_false_iff {s : Switches} {rule : String} :
    s.enables rule = false ↔ s.Off rule := by
  have hrouting : RuleName.tableRouting ≠ RuleName.orToIn ∧
      RuleName.tableRouting ≠ RuleName.countDistinct := by decide
  have hcounting : RuleName.orToIn ≠ RuleName.countDistinct := by decide
  unfold enables Off
  split
  · next h => simp [h, hrouting]
  · next hne =>
    split
    · next h => simp [h, hrouting.1.symm, hcounting]
    · next hne' =>
      split
      · next h => simp [h, hrouting.2.symm, hcounting.symm]
      · next hne'' => simp [hne, hne', hne'']

/-- The policy keeps a rule from running for a dialect: an inclusion list lacks its name, or an
exclusion list has it, in any ASCII case. -/
def DialectPolicy.Refuses (p : DialectPolicy) (dialect : String) : Prop :=
  match p.mode with
  | .includes => ∀ d ∈ p.dialects, Text.lower d ≠ Text.lower dialect
  | .excludes => ∃ d ∈ p.dialects, Text.lower d = Text.lower dialect

/-- Dialects are listed in any ASCII case. -/
theorem DialectPolicy.lists_iff {p : DialectPolicy} {dialect : String} :
    p.lists dialect = true ↔ ∃ d ∈ p.dialects, Text.lower d = Text.lower dialect := by
  simp only [lists, List.any_eq_true, Text.eqIgnoreCase_iff]

/-- A policy does not admit a dialect exactly when it refuses it. -/
theorem DialectPolicy.admits_eq_false_iff {p : DialectPolicy} {dialect : String} :
    p.admits dialect = false ↔ p.Refuses dialect := by
  unfold admits Refuses
  cases p.mode with
  | includes => rw [Bool.eq_false_iff, ne_eq, lists_iff]; simp
  | excludes => rw [Bool.not_eq_false', lists_iff]

namespace Settings

variable {s : Settings} {phase : Phase} {dialect : Dialect} {rule : Rule}

/-- What each reason for skipping a rule stands for, without regard to the others. -/
def Bars (s : Settings) (phase : Phase) (dialect : Dialect) (rule : Rule) : SkipReason → Prop
  | .phase => rule.phase ≠ phase
  | .disabled => s.switches.Off rule.name
  | .config => rule.name ∈ s.excluded ∨ s.included ≠ [] ∧ rule.name ∉ s.included
  | .dialect => ∃ policy, s.dialects.get? rule.name = some policy ∧ policy.Refuses dialect.name

/-- The lists keep a rule out by naming it among the excluded ones, or by leaving it out of a list
of included ones. An empty list of included rules keeps none out. -/
theorem listsAdmit_eq_false_iff {name : String} :
    s.listsAdmit name = false ↔
      name ∈ s.excluded ∨ s.included ≠ [] ∧ name ∉ s.included := by
  by_cases hexcluded : name ∈ s.excluded <;> simp [listsAdmit, hexcluded]

/-- Only a rule with a policy of its own can be kept out for a dialect. -/
theorem policyAdmits_eq_false_iff {name dialect : String} :
    s.policyAdmits name dialect = false ↔
      ∃ policy, s.dialects.get? name = some policy ∧ policy.Refuses dialect := by
  unfold policyAdmits
  cases s.dialects.get? name with
  | none => simp
  | some policy => simp [DialectPolicy.admits_eq_false_iff]

/-- The second gate, as the search for a reason tests it. -/
theorem bars_disabled_iff :
    s.Bars phase dialect rule .disabled ↔ (!s.switches.enables rule.name) = true := by
  rw [Bool.not_eq_true', Switches.enables_eq_false_iff, Bars]

/-- The third gate, as the search for a reason tests it. -/
theorem bars_config_iff :
    s.Bars phase dialect rule .config ↔ (!s.listsAdmit rule.name) = true := by
  rw [Bool.not_eq_true', listsAdmit_eq_false_iff, Bars]

/-- The fourth gate, as the search for a reason tests it. -/
theorem bars_dialect_iff :
    s.Bars phase dialect rule .dialect ↔ (!s.policyAdmits rule.name dialect.name) = true := by
  rw [Bool.not_eq_true', policyAdmits_eq_false_iff, Bars]

/-- **The reason for skipping a rule is the first that holds.** -/
theorem skipReason?_eq_some_iff {reason : SkipReason} :
    s.skipReason? phase dialect rule = some reason ↔
      s.Bars phase dialect rule reason ∧
        ∀ earlier : SkipReason, earlier.rank < reason.rank →
          ¬ s.Bars phase dialect rule earlier := by
  rw [SkipReason.forall_iff]
  unfold skipReason?
  -- the gates in their order: each branch knows that the reasons before it do not hold
  split
  · next h =>
    have hphase : s.Bars phase dialect rule .phase := h
    cases reason <;> simp [SkipReason.rank, hphase]
  next h =>
  have hphase : ¬ s.Bars phase dialect rule .phase := h
  split
  · next h =>
    cases reason <;> simp [SkipReason.rank, hphase, bars_disabled_iff.2 h]
  next h =>
  have hdisabled : ¬ s.Bars phase dialect rule .disabled := mt bars_disabled_iff.1 h
  split
  · next h =>
    cases reason <;> simp [SkipReason.rank, hphase, hdisabled, bars_config_iff.2 h]
  next h =>
  have hconfig : ¬ s.Bars phase dialect rule .config := mt bars_config_iff.1 h
  split
  · next h =>
    cases reason <;> simp [SkipReason.rank, hphase, hdisabled, hconfig, bars_dialect_iff.2 h]
  next h =>
  have hdialect : ¬ s.Bars phase dialect rule .dialect := mt bars_dialect_iff.1 h
  cases reason <;> simp [hphase, hdisabled, hconfig, hdialect]

/-- A rule is not skipped when no reason holds. -/
theorem skipReason?_eq_none_iff :
    s.skipReason? phase dialect rule = none ↔ ∀ reason, ¬ s.Bars phase dialect rule reason := by
  rw [SkipReason.forall_iff, bars_disabled_iff, bars_config_iff, bars_dialect_iff, Bars]
  unfold skipReason?
  grind

/-- Every eligible rule belongs to the phase of the run. -/
theorem phase_eq_of_mem_eligible {rules : List Rule} (h : rule ∈ s.eligible phase dialect rules) :
    rule.phase = phase :=
  Decidable.not_not.1 (skipReason?_eq_none_iff.1 (Pipeline.mem_eligible.1 h).2 .phase)

end Settings

/-! ## Fates -/

/-- What becomes of a rule in a run that succeeds. -/
inductive Fate
  | skipped (reason : SkipReason)
  | ran (changed : Bool)
deriving DecidableEq, Repr

/-- The fate of a rule when its turn comes; a rule that fails has none. -/
def Settings.fate? (s : Settings) (phase : Phase) (ctx : Context) (rule : Rule) (seen : Work) :
    Option Fate :=
  match s.skipReason? phase ctx.dialect rule, (rule.apply ctx seen).2 with
  | some reason, _ => some (.skipped reason)
  | none, .ok changed => some (.ran changed)
  | none, .error _ => none

namespace Settings

variable {s : Settings} {phase : Phase} {ctx : Context} {rule : Rule} {seen : Work}

/-- A rule is skipped for the reason that the settings give, whatever it would have answered. -/
theorem fate?_eq_skipped_iff {reason : SkipReason} :
    s.fate? phase ctx rule seen = some (.skipped reason) ↔
      s.skipReason? phase ctx.dialect rule = some reason := by
  unfold fate?
  split <;> simp [*]

/-- A rule has run when the settings gave no reason against it and it did not fail. -/
theorem fate?_eq_ran_iff {changed : Bool} :
    s.fate? phase ctx rule seen = some (.ran changed) ↔
      s.skipReason? phase ctx.dialect rule = none ∧ (rule.apply ctx seen).2 = .ok changed := by
  unfold fate?
  split <;> simp [*]

end Settings

namespace Summary

/-- The summary of rules with these fates, each list in their order. -/
def ofFates (fates : List (String × Fate)) : Summary where
  applied := (fates.filter (·.2 = .ran true)).map Prod.fst
  unchanged := (fates.filter (·.2 = .ran false)).map Prod.fst
  skipped := fates.filterMap fun (rule, fate) =>
    match fate with
    | .skipped reason => some (rule, reason)
    | .ran _ => none

/-- A skipped rule goes in front of the skipped ones. -/
theorem ofFates_cons_skipped (rule : String) (reason : SkipReason)
    (rest : List (String × Fate)) :
    ofFates ((rule, .skipped reason) :: rest) = (ofFates rest).skip rule reason := by
  simp [ofFates, skip]

/-- A rule that ran goes in front of the applied or the unchanged ones. -/
theorem ofFates_cons_ran (rule : String) (changed : Bool) (rest : List (String × Fate)) :
    ofFates ((rule, .ran changed) :: rest) = (ofFates rest).ran rule changed := by
  cases changed <;> simp [ofFates, ran]

/-- The three lists of a summary hold each rule once. -/
theorem perm_ofFates (fates : List (String × Fate)) :
    ((ofFates fates).applied ++ (ofFates fates).unchanged ++
      (ofFates fates).skipped.map Prod.fst).Perm (fates.map Prod.fst) := by
  induction fates with
  | nil => exact .nil
  | cons entry rest ih =>
    obtain ⟨rule, fate⟩ := entry
    cases fate with
    | skipped reason =>
      rw [ofFates_cons_skipped]
      exact List.perm_middle.trans (ih.cons rule)
    | ran changed =>
      rw [ofFates_cons_ran]
      cases changed with
      | true => exact ih.cons rule
      | false =>
        refine .trans ?_ (ih.cons rule)
        exact List.perm_middle.append_right _

end Summary

namespace Pipeline

variable {s : Settings} {phase : Phase} {ctx : Context} {rules : List Rule} {work last : Work}
  {summary : Summary}

/-- A run that succeeds has succeeded on the first rule and on the others. -/
theorem runRules_cons_eq_ok {rule : Rule} {rest : List Rule}
    (h : runRules s phase ctx (rule :: rest) work = (last, .ok summary)) :
    (∃ reason, s.skipReason? phase ctx.dialect rule = some reason ∧
      ∃ others, runRules s phase ctx rest work = (last, .ok others) ∧
        summary = others.skip rule.name reason) ∨
    (∃ changed, s.skipReason? phase ctx.dialect rule = none ∧
      (rule.apply ctx work).2 = .ok changed ∧
      ∃ others, runRules s phase ctx rest (rule.apply ctx work).1 = (last, .ok others) ∧
        summary = others.ran rule.name changed) := by
  cases hskip : s.skipReason? phase ctx.dialect rule with
  | some reason =>
    rw [runRules_cons_skipped hskip] at h
    obtain ⟨hlast, hsummary⟩ := Prod.mk.inj h
    obtain ⟨others, hrest, rfl⟩ := eq_ok_of_map hsummary
    exact .inl ⟨reason, rfl, others, Prod.ext hlast hrest, rfl⟩
  | none =>
    cases hanswer : (rule.apply ctx work).2 with
    | error e =>
      rw [runRules_cons_failed hskip hanswer] at h
      cases h
    | ok changed =>
      rw [runRules_cons_ran hskip hanswer] at h
      obtain ⟨hlast, hsummary⟩ := Prod.mk.inj h
      obtain ⟨others, hrest, rfl⟩ := eq_ok_of_map hsummary
      exact .inr ⟨changed, rfl, rfl, others, Prod.ext hlast hrest, rfl⟩

/-- A run that succeeds gives each rule its fate, in order. -/
theorem exists_fates (h : runRules s phase ctx rules work = (last, .ok summary)) :
    ∃ fates : List Fate, fates.length = rules.length ∧
      summary = .ofFates ((rules.map Rule.name).zip fates) ∧
      ∀ (i : Nat) (rule : Rule), rules[i]? = some rule → fates[i]? =
        s.fate? phase ctx rule (work.after ctx (s.eligible phase ctx.dialect (rules.take i))) := by
  induction rules generalizing work summary with
  | nil => cases h; exact ⟨[], rfl, rfl, nofun⟩
  | cons rule rest ih =>
    rcases runRules_cons_eq_ok h with ⟨reason, hskip, others, hrest, rfl⟩ |
      ⟨changed, hskip, hanswer, others, hrest, rfl⟩
    · -- a skipped rule has no part in the work that the others find
      obtain ⟨fates, hlength, rfl, hfates⟩ := ih hrest
      refine ⟨.skipped reason :: fates, by simp [hlength],
        (Summary.ofFates_cons_skipped ..).symm, fun i other hi => ?_⟩
      cases i with
      | zero =>
        cases hi
        simp [Settings.fate?, hskip]
      | succ i =>
        rw [List.take_succ_cons, eligible_cons_skipped hskip]
        exact hfates i other hi
    · obtain ⟨fates, hlength, rfl, hfates⟩ := ih hrest
      refine ⟨.ran changed :: fates, by simp [hlength],
        (Summary.ofFates_cons_ran ..).symm, fun i other hi => ?_⟩
      cases i with
      | zero =>
        cases hi
        simp [Settings.fate?, hskip, Settings.eligible, hanswer]
      | succ i =>
        rw [List.take_succ_cons, eligible_cons_admitted hskip]
        exact hfates i other hi

/-- **A run accounts for every rule.** Each registered rule meets one fate, the three lists of the
summary hold the rules by their fates, in order and once per registration, and a rule is skipped
for the first reason that bars it, or it runs and says whether it changed the statement. -/
theorem run_accounts_for_every_rule {p : Pipeline}
    (h : p.run phase ctx work = (last, .ok summary)) :
    ∃ fates : List Fate, fates.length = p.rules.length ∧
      summary = .ofFates (p.ruleNames.zip fates) ∧
      (summary.applied ++ summary.unchanged ++ summary.skipped.map Prod.fst).Perm p.ruleNames ∧
      ∀ (i : Nat) (rule : Rule) (fate : Fate), p.rules[i]? = some rule → fates[i]? = some fate →
        (∀ reason, fate = .skipped reason ↔
          p.settings.Bars phase ctx.dialect rule reason ∧
            ∀ earlier : SkipReason, earlier.rank < reason.rank →
              ¬ p.settings.Bars phase ctx.dialect rule earlier) ∧
        (∀ changed, fate = .ran changed ↔
          (∀ reason, ¬ p.settings.Bars phase ctx.dialect rule reason) ∧
            (rule.apply ctx (work.after ctx
              (p.settings.eligible phase ctx.dialect (p.rules.take i)))).2 = .ok changed) := by
  obtain ⟨fates, hlength, rfl, hfates⟩ := exists_fates h
  have hnames : (p.ruleNames.zip fates).map Prod.fst = p.ruleNames :=
    List.map_fst_zip (by simp [ruleNames, hlength])
  refine ⟨fates, hlength, rfl, ?_, fun i rule fate hrule hfate => ?_⟩
  · have hperm := Summary.perm_ofFates (p.ruleNames.zip fates)
    rwa [hnames] at hperm
  · rw [hfates i rule hrule] at hfate
    constructor
    · intro reason
      rw [← Settings.skipReason?_eq_some_iff, ← Settings.fate?_eq_skipped_iff, hfate,
        Option.some_inj]
    · intro changed
      rw [← Settings.skipReason?_eq_none_iff, ← Settings.fate?_eq_ran_iff, hfate,
        Option.some_inj]

/-- Routing stands twice among the rules, and counting is switched off. -/
def routingTwice : Pipeline where
  rules := [.orToIn, .tableRouting, .countDistinct, .tableRouting]
  settings := { switches.countDistinct := false }

/-- Routing stands at two positions and meets two fates: it changes the statement the first time and
finds nothing to change the second time. -/
theorem run_accounts_for_every_rule_routingTwice :
    ∃ summary, routingTwice.run .generic customerContext activeCustomers =
        (activeCustomers.after customerContext [.tableRouting, .tableRouting], .ok summary) ∧
      summary = ⟨["table_routing"], ["table_routing"],
        [("or_to_in", .phase), ("count_distinct", .disabled)]⟩ ∧
      ∃ fates, summary = .ofFates (routingTwice.ruleNames.zip fates) ∧
        fates = [.skipped .phase, .ran true, .skipped .disabled, .ran false] := by
  have hrun : routingTwice.run .generic customerContext activeCustomers =
      (activeCustomers.after customerContext [.tableRouting, .tableRouting],
        .ok ⟨["table_routing"], ["table_routing"],
          [("or_to_in", .phase), ("count_distinct", .disabled)]⟩) := by
    decide +kernel
  obtain ⟨fates, hlength, hsummary, -, hfates⟩ := run_accounts_for_every_rule hrun
  refine ⟨_, hrun, rfl, fates, hsummary, ?_⟩
  match fates, hlength with
  | [first, second, third, fourth], _ =>
    have hfirst : first = .skipped .phase :=
      ((hfates 0 _ _ rfl rfl).1 .phase).2 (Settings.skipReason?_eq_some_iff.1 (by decide))
    have hsecond : second = .ran true :=
      ((hfates 1 _ _ rfl rfl).2 true).2
        ⟨Settings.skipReason?_eq_none_iff.1 (by decide), by decide +kernel⟩
    have hthird : third = .skipped .disabled :=
      ((hfates 2 _ _ rfl rfl).1 .disabled).2 (Settings.skipReason?_eq_some_iff.1 (by decide))
    have hfourth : fourth = .ran false :=
      ((hfates 3 _ _ rfl rfl).2 false).2
        ⟨Settings.skipReason?_eq_none_iff.1 (by decide), by decide +kernel⟩
    rw [hfirst, hsecond, hthird, hfourth]

end Pipeline

end QuerySplit
