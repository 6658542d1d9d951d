import QuerySplit.Proofs.SecondRun

/-!
# Routing and counting in either order

Counting asks for the base name of the very source that routing renames, and routing reads the
filter and the sources, which counting leaves. With a provider that always answers, and each base
name the same way, neither rule disturbs what the other reads: the routed name has the base of the
old one. So the two rules may change places (`routing_counting_commute`).

That holds of any two rules that act as functions, if the functions commute and neither makes or
unmakes a difference for the other (`ActsAs.commute`).
-/

set_option autoImplicit false

namespace QuerySplit

namespace Rule

/-- From this work both rules succeed in either order and leave the same statement, and each
reports the same in both orders about whether it changed it. -/
def Commute (first second : Rule) (ctx : Context) (work : Work) : Prop :=
  ∃ changedByFirst changedBySecond,
    ((first.apply ctx work).2 = .ok changedByFirst ∧
      (second.apply ctx (first.apply ctx work).1).2 = .ok changedBySecond) ∧
    ((second.apply ctx work).2 = .ok changedBySecond ∧
      (first.apply ctx (second.apply ctx work).1).2 = .ok changedByFirst) ∧
    (second.apply ctx (first.apply ctx work).1).1.statement =
      (first.apply ctx (second.apply ctx work).1).1.statement

/-- Rules that act as functions may change places if the functions commute and each changes what
the other leaves exactly where it changes what the other was given. -/
theorem ActsAs.commute {first second : Rule} {ctx : Context} {f g : Select → Select}
    (hfirst : first.ActsAs ctx f) (hsecond : second.ActsAs ctx g)
    (hcomm : ∀ s, f (g s) = g (f s)) (hf : ∀ s, f (g s) = g s ↔ f s = s)
    (hg : ∀ s, g (f s) = f s ↔ g s = s) (work : Work) : first.Commute second ctx work := by
  obtain ⟨lookups, happly⟩ := hfirst work
  obtain ⟨lookups', happly'⟩ := hsecond work
  obtain ⟨last, hlast⟩ := hsecond { statement := f work.statement, lookups }
  obtain ⟨last', hlast'⟩ := hfirst { statement := g work.statement, lookups := lookups' }
  refine ⟨decide (f work.statement ≠ work.statement), decide (g work.statement ≠ work.statement),
    ⟨?_, ?_⟩, ⟨?_, ?_⟩, ?_⟩
  · rw [happly]
  · rw [happly, hlast]
    simp only [ne_eq, hg]
  · rw [happly']
  · rw [happly', hlast']
    simp only [ne_eq, hf]
  · rw [happly, hlast, happly', hlast']
    exact (hcomm work.statement).symm

end Rule

/-! ## What one rule leaves for the other -/

namespace Select

variable {variants : String → List Variant}

/-- Routing changes a statement exactly where it changes the one with rows counted. -/
theorem routed_rowsCounted_eq_self_iff (s : Select) :
    (s.rowsCounted variants).routed variants = s.rowsCounted variants ↔
      s.routed variants = s := by
  rw [rowsCounted, routed_items]
  constructor
  · intro h
    -- the routed statement has the old select list, so that list can be put back on both sides
    have hback := congrArg (fun t : Select => { t with items := s.items }) h
    calc s.routed variants
        = { s.routed variants with items := s.items } := by rw [← items_routed s]
      _ = s := hback
  · intro h
    rw [h]

/-- Counting changes a statement exactly where it changes the routed one. -/
theorem rowsCounted_routed_eq_self_iff (hvariants : PlainlySuffixed variants) (s : Select) :
    (s.routed variants).rowsCounted variants = s.routed variants ↔
      s.rowsCounted variants = s := by
  rw [rowsCounted, items_eq_self_iff, countedItems_routed hvariants, items_routed, rowsCounted,
    items_eq_self_iff]

end Select

namespace Rule

/-- **Routing and counting commute** for every provider that always answers, each base name the
same way, and lists variants whose suffixes can be told from any base. -/
theorem routing_counting_commute {ctx : Context} (hprovider : ctx.provider.Steady) (work : Work) :
    tableRouting.Commute countDistinct ctx work := by
  obtain ⟨variants, hanswers, hvariants⟩ := hprovider.exists_variants
  exact ActsAs.commute (actsAs_tableRouting hanswers) (actsAs_countDistinct hanswers)
    (Select.routed_rowsCounted hvariants) Select.routed_rowsCounted_eq_self_iff
    (Select.rowsCounted_routed_eq_self_iff hvariants) work

/-- For a count of the active customers both rules make a difference, whichever comes first. -/
theorem routing_counting_commute_activeCustomers :
    customerContext.provider.Steady ∧
      tableRouting.Commute countDistinct customerContext activeCustomers ∧
      (tableRouting.apply customerContext activeCustomers).2 = .ok true ∧
      (countDistinct.apply customerContext activeCustomers).2 = .ok true :=
  ⟨Provider.steady_customers, routing_counting_commute Provider.steady_customers activeCustomers,
    by decide +kernel, by decide +kernel⟩

end Rule

end QuerySplit
