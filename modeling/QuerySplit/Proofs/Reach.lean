import Mathlib.Data.List.Forall2
import QuerySplit.Proofs.Accounts
import QuerySplit.Proofs.BuiltInRules

/-!
# What the built-in rules may touch

Over any sequence of runs with the built-in rules, in any order and number, under any settings and
with any providers, failing ones included, a statement keeps its frame (`Select.SameFrame`): the
sources in their order with aliases, joins and conditions, and every clause besides select list
and filter. The select list keeps its length, and an entry changes at most from the count of the
distinct values of one column to the count of rows.

A generic run leaves the filter. A run for a dialect changes at most the condition of the filter,
looks nothing up and cannot fail.

Main statement: `standard_runs_keep_frame`. Each rule keeps the frame by its law in
`BuiltInRules`, a run by `run_induction`, a sequence of runs by induction on the sequence.
-/

set_option autoImplicit false

namespace QuerySplit

/-! ## The frame of a statement -/

/-- An entry of a select list that stays, or that counts rows where it counted the distinct values
of one column. -/
def Expr.KeptOrCounted (before after : Expr) : Prop :=
  after = before ∨ after = .countRows ∧
    ∃ name c, before = .call name [.column c] true ∧ Text.eqIgnoreCase name "COUNT" = true

/-- Two steps come to one: nothing becomes of a count of rows. -/
theorem Expr.KeptOrCounted.trans {first second third : Expr}
    (h : first.KeptOrCounted second) (h' : second.KeptOrCounted third) :
    first.KeptOrCounted third := by
  rcases h' with rfl | ⟨rfl, name, c, rfl, hname⟩
  · exact h
  · rcases h with rfl | ⟨hrows, -⟩
    · exact .inr ⟨rfl, name, c, rfl, hname⟩
    · -- the count of rows is not a count of distinct values
      cases hrows

/-- Two statements that agree up to the names of the tables, the filter and the entries of the
select list that count distinct values. -/
structure Select.SameFrame (before after : Select) : Prop where
  sources : after.sources.map (·.map TableRef.place) = before.sources.map (·.map TableRef.place)
  items : List.Forall₂ Expr.KeptOrCounted before.items after.items
  distinct : after.distinct = before.distinct
  groupBy : after.groupBy = before.groupBy
  having : after.having = before.having
  orderBy : after.orderBy = before.orderBy
  limit : after.limit = before.limit
  offset : after.offset = before.offset

namespace Select.SameFrame

/-- A select list may stay. -/
theorem keptOrCounted_refl (items : List Expr) : List.Forall₂ Expr.KeptOrCounted items items :=
  List.forall₂_same.2 fun _ _ => .inl rfl

/-- Two steps come to one, entry by entry. -/
theorem keptOrCounted_trans {first second third : List Expr}
    (h : List.Forall₂ Expr.KeptOrCounted first second)
    (h' : List.Forall₂ Expr.KeptOrCounted second third) :
    List.Forall₂ Expr.KeptOrCounted first third := by
  induction h generalizing third with
  | nil => exact h'
  | cons hhead _ ih =>
    cases h' with
    | cons hhead' htail' => exact .cons (hhead.trans hhead') (ih htail')

/-- A statement has its own frame. -/
theorem refl (s : Select) : s.SameFrame s where
  sources := rfl
  items := keptOrCounted_refl s.items
  distinct := rfl
  groupBy := rfl
  having := rfl
  orderBy := rfl
  limit := rfl
  offset := rfl

/-- What two steps keep, both together keep. -/
theorem trans {first second third : Select} (h : first.SameFrame second)
    (h' : second.SameFrame third) : first.SameFrame third where
  sources := h'.sources.trans h.sources
  items := keptOrCounted_trans h.items h'.items
  distinct := h'.distinct.trans h.distinct
  groupBy := h'.groupBy.trans h.groupBy
  having := h'.having.trans h.having
  orderBy := h'.orderBy.trans h.orderBy
  limit := h'.limit.trans h.limit
  offset := h'.offset.trans h.offset

/-- Sources may be exchanged for others that differ in the names of their tables. -/
theorem of_sources {s : Select} {tables routed : List TableRef} (hs : s.sources = some tables)
    (h : routed.map TableRef.place = tables.map TableRef.place) :
    s.SameFrame { s with sources := some routed } :=
  { refl s with sources := by rw [hs, Option.map_some, Option.map_some, h] }

/-- Counts of keys may be exchanged for counts of rows. -/
theorem of_items (s : Select) (variants : List Variant) :
    s.SameFrame { s with items := s.items.map (Expr.countingRows variants) } :=
  { refl s with
    items := List.forall₂_map_right_iff.2 (List.forall₂_same.2 fun e _ => by
      unfold Expr.countingRows
      split
      · next he => exact .inr ⟨rfl, Expr.exists_call_of_countsKeyOf he⟩
      · exact .inl rfl) }

/-- The filter may be exchanged. -/
theorem of_filter (s : Select) (filter : Option Expr) : s.SameFrame { s with filter } :=
  { refl s with }

end Select.SameFrame

/-! ## One rule -/

namespace Rule

/-- Routing keeps the frame of a statement, and its filter too. -/
theorem sameFrame_routeTables (ctx : Context) (work : Work) :
    work.statement.SameFrame (routeTables ctx work).1.statement ∧
      (routeTables ctx work).1.statement.filter = work.statement.filter := by
  rcases routeTables_cases ctx work with ⟨-, heq⟩ |
    ⟨tables, lookups, -, hsources, ⟨e, -, heq⟩ | ⟨routed, hroute, heq⟩⟩
  · rw [heq]
    exact ⟨.refl _, rfl⟩
  · rw [heq]
    exact ⟨.refl _, rfl⟩
  · rw [heq]
    exact ⟨.of_sources hsources (TableRef.map_place_of_routeAll (by rw [hroute])), rfl⟩

/-- Counting keeps the frame of a statement, and its filter too. -/
theorem sameFrame_countRowsForKeys (ctx : Context) (work : Work) :
    work.statement.SameFrame (countRowsForKeys ctx work).1.statement ∧
      (countRowsForKeys ctx work).1.statement.filter = work.statement.filter := by
  rcases countRowsForKeys_cases ctx work with ⟨-, heq⟩ |
    ⟨table, -, ⟨e, -, heq⟩ | ⟨variants, -, heq⟩⟩
  · rw [heq]
    exact ⟨.refl _, rfl⟩
  · rw [heq]
    exact ⟨.refl _, rfl⟩
  · rw [heq]
    exact ⟨.of_items _ variants, rfl⟩

end Rule

namespace Pipeline

variable {p : Pipeline} {dialect : Dialect} {rule : Rule}

/-- Of the built-in rules, routing and counting run for all dialects. -/
theorem eq_of_mem_eligible_generic (hp : ∀ rule ∈ p.rules, rule ∈ Rule.standard)
    (h : rule ∈ p.eligible .generic dialect) :
    rule = .tableRouting ∨ rule = .countDistinct := by
  have hphase : rule.phase = .generic := Settings.phase_eq_of_mem_eligible h
  rcases Rule.mem_standard.1 (hp rule (mem_eligible.1 h).1) with rfl | rfl | rfl
  · exact .inl rfl
  · exact .inr rfl
  · cases hphase

/-- Of the built-in rules, the replacement of chains runs for one dialect. -/
theorem eq_of_mem_eligible_dialectSpecific (hp : ∀ rule ∈ p.rules, rule ∈ Rule.standard)
    (h : rule ∈ p.eligible .dialectSpecific dialect) : rule = .orToIn := by
  have hphase : rule.phase = .dialectSpecific := Settings.phase_eq_of_mem_eligible h
  rcases Rule.mem_standard.1 (hp rule (mem_eligible.1 h).1) with rfl | rfl | rfl
  · cases hphase
  · cases hphase
  · rfl

/-! ## Runs -/

/-- One run of a pipeline, on whatever statement: everything that may differ from run to run. -/
structure Call where
  pipeline : Pipeline
  phase : Phase
  ctx : Context
  /-- The lookups that the provider has answered before. -/
  earlier : List String

namespace Call

/-- All rules of the call are built-in rules. -/
def BuiltIn (call : Call) : Prop :=
  ∀ rule ∈ call.pipeline.rules, rule ∈ Rule.standard

def run (call : Call) (s : Select) : Outcome Summary :=
  call.pipeline.run call.phase call.ctx { statement := s, lookups := call.earlier }

/-- The statement after some runs, each on what the one before it left, also when that failed. -/
def runAll (calls : List Call) (s : Select) : Select :=
  calls.foldl (fun s call => (call.run s).1.statement) s

variable {call : Call}

/-- A generic run keeps the frame and the filter. -/
theorem run_generic (hbuiltIn : call.BuiltIn) (hphase : call.phase = .generic) (s : Select) :
    s.SameFrame (call.run s).1.statement ∧ (call.run s).1.statement.filter = s.filter := by
  refine run_induction
    (R := fun before after => before.statement.SameFrame after.statement ∧
      after.statement.filter = before.statement.filter) call.pipeline call.phase call.ctx
    (fun work => ⟨.refl _, rfl⟩)
    (fun first second third h h' => ⟨h.1.trans h'.1, h'.2.trans h.2⟩) (fun rule hrule => ?_)
    { statement := s, lookups := call.earlier }
  rw [hphase] at hrule
  rcases eq_of_mem_eligible_generic hbuiltIn hrule with rfl | rfl
  · exact Rule.sameFrame_routeTables call.ctx
  · exact Rule.sameFrame_countRowsForKeys call.ctx

/-- A run for a dialect succeeds, looks nothing up and changes at most the condition of the
filter. -/
theorem run_dialectSpecific (hbuiltIn : call.BuiltIn) (hphase : call.phase = .dialectSpecific)
    (s : Select) :
    (∃ summary, (call.run s).2 = .ok summary) ∧ (call.run s).1.lookups = call.earlier ∧
      (call.run s).1.statement = { s with filter := (call.run s).1.statement.filter } ∧
      (call.run s).1.statement.filter.isSome = s.filter.isSome := by
  -- one rule alone is for dialects, and it neither fails nor looks anything up
  have horToIn : ∀ rule ∈ call.pipeline.eligible call.phase call.ctx.dialect, rule = .orToIn := by
    rw [hphase]
    exact fun rule hrule => eq_of_mem_eligible_dialectSpecific hbuiltIn hrule
  constructor
  · have hsucceeds : ∀ rule ∈ call.pipeline.eligible call.phase call.ctx.dialect, ∀ work,
        ∃ changed, (rule.apply call.ctx work).2 = .ok changed := by
      intro rule hrule work
      rw [horToIn rule hrule]
      exact ⟨_, congrArg Prod.snd (Rule.membershipInFilter_eq call.ctx work)⟩
    obtain ⟨summary, hrun⟩ := runRules_of_no_failure
      (Work.answer?_ne_error hsucceeds { statement := s, lookups := call.earlier })
    exact ⟨summary, congrArg Prod.snd hrun⟩
  · refine run_induction
      (R := fun before after => after.lookups = before.lookups ∧
        after.statement = { before.statement with filter := after.statement.filter } ∧
        after.statement.filter.isSome = before.statement.filter.isSome)
      call.pipeline call.phase call.ctx (fun work => ⟨rfl, rfl, rfl⟩) ?_ (fun rule hrule work => ?_)
      { statement := s, lookups := call.earlier }
    · intro first second third h h'
      refine ⟨h'.1.trans h.1, ?_, h'.2.2.trans h.2.2⟩
      rw [h'.2.1, h.2.1]
    · rw [horToIn rule hrule, show Rule.orToIn.apply call.ctx work = _ from
        Rule.membershipInFilter_eq call.ctx work]
      exact ⟨rfl, rfl, Option.isSome_map⟩

/-- A run keeps the frame. -/
theorem sameFrame_run (hbuiltIn : call.BuiltIn) (s : Select) :
    s.SameFrame (call.run s).1.statement := by
  cases hphase : call.phase with
  | generic => exact (run_generic hbuiltIn hphase s).1
  | dialectSpecific =>
    rw [(run_dialectSpecific hbuiltIn hphase s).2.2.1]
    exact .of_filter s _

/-- **Runs of the built-in rules keep the frame of a statement**, however many there are and
whatever they fail at. A generic one leaves the filter; one for a dialect succeeds without any
lookup and changes at most the condition of the filter. -/
theorem standard_runs_keep_frame {calls : List Call} (hbuiltIn : ∀ call ∈ calls, call.BuiltIn)
    (s : Select) :
    s.SameFrame (runAll calls s) ∧
    ∀ call ∈ calls, ∀ t : Select,
      (call.phase = .generic → (call.run t).1.statement.filter = t.filter) ∧
      (call.phase = .dialectSpecific →
        (∃ summary, (call.run t).2 = .ok summary) ∧ (call.run t).1.lookups = call.earlier ∧
        (call.run t).1.statement = { t with filter := (call.run t).1.statement.filter } ∧
        (call.run t).1.statement.filter.isSome = t.filter.isSome) := by
  constructor
  · induction calls generalizing s with
    | nil => exact .refl s
    | cons call rest ih =>
      obtain ⟨hcall, hrest⟩ := List.forall_mem_cons.1 hbuiltIn
      exact (sameFrame_run hcall s).trans (ih hrest _)
  · intro call hcall t
    exact ⟨fun hphase => (run_generic (hbuiltIn call hcall) hphase t).2,
      fun hphase => run_dialectSpecific (hbuiltIn call hcall) hphase t⟩

/-- A run whose second rule fails after the first one has counted rows, a run that routes, and a
run for a dialect with the same rule twice. -/
def customerCalls : List Call :=
  [{ pipeline := { rules := [.countDistinct, .tableRouting] }
     phase := .generic
     ctx := ⟨.standard, ⟨fun earlier base =>
       if earlier = [] then .ok (customers.variantsOf base) else .error (.notFound base)⟩⟩
     earlier := [] },
   { pipeline := .standard {}, phase := .generic, ctx := customerContext, earlier := [] },
   { pipeline := { rules := [.orToIn, .orToIn] }
     phase := .dialectSpecific
     ctx := customerContext
     earlier := ["customers"] }]

/-- Calls in both phases count rows for a key and route the customers, and the frame stays. -/
theorem standard_runs_keep_frame_customerCalls :
    (∀ call ∈ customerCalls, call.BuiltIn) ∧
    activeCustomers.statement.SameFrame (runAll customerCalls activeCustomers.statement) ∧
    (runAll customerCalls activeCustomers.statement).items = [.countRows] ∧
    (runAll customerCalls activeCustomers.statement).tables.map TableRef.name =
      ["customers_b"] := by
  have hbuiltIn : ∀ call ∈ customerCalls, call.BuiltIn := by
    simp [customerCalls, BuiltIn, standard, Rule.standard]
  exact ⟨hbuiltIn, (standard_runs_keep_frame hbuiltIn _).1, by decide +kernel, by decide +kernel⟩

end Call

end Pipeline

end QuerySplit
