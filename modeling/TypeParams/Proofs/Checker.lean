/-
What checkers answer about types that are there.

A checker may look up whatever it likes, so it may run into a fault.
`Checker.Total` says that it does not as long as it is asked about types
of a graph of types. Nothing else is asked of a checker where a match is
only to come to an end.

# Two answers

A checker has two answers to give, which types are assignable and which
are the same, and the second need not follow from the first. Where it
does, because the checker leaves it at `bothWays`, one that answers the
first question answers both (`Total.of_bothWays`), and one that finds
every type assignable to itself finds it the same as itself
(`Reflexive.of_bothWays`). A match asks the second question in two
places: for a parameter that is bound already, and for the values of a
record that is seen as a map.

# The structural checker

The structural checker is total. It answers whether the types are in the
relation `Graph.Assignable`, and takes two types for the same if they
are in it both ways round.
-/
import TypeParams.Checker
import TypeParams.Proofs.Subtype.Decision

namespace TypeParams.Checker

variable {g : Graph} {a b : TypeId}

/-- The checker answers whatever it is asked about types that are
there. -/
structure Total (checker : Checker) : Prop where
  assignable : ∀ g : Graph, g.WellFormed → ∀ a b : TypeId,
    a.index < g.size → b.index < g.size →
    Returns (checker.assignable g a b)
  sameType : ∀ g : Graph, g.WellFormed → ∀ a b : TypeId,
    a.index < g.size → b.index < g.size →
    Returns (checker.sameType g a b)

/-- A checker that has no answer of its own to which types are the same
answers if it does to which are assignable. -/
theorem Total.of_bothWays {checker : Checker}
    (hsame : checker.sameType = bothWays checker.assignable)
    (h : ∀ g : Graph, g.WellFormed → ∀ a b : TypeId,
      a.index < g.size → b.index < g.size →
      Returns (checker.assignable g a b)) : checker.Total := by
  refine ⟨h, fun g hg a b ha hb => ?_⟩
  rw [hsame]
  unfold bothWays
  by_cases heq : a = b
  · rw [if_pos heq]
    exact .ok true
  · rw [if_neg heq]
    refine (h g hg a b ha hb).bind fun answer _ => ?_
    cases answer with
    | true => exact h g hg b a hb ha
    | false => exact .pure false

/-- The checker finds every type of the graph assignable to itself, and
the same as itself. -/
structure Reflexive (checker : Checker) (g : Graph) : Prop where
  assignable : ∀ a : TypeId, a.index < g.size →
    checker.assignable g a a = .ok true
  sameType : ∀ a : TypeId, a.index < g.size →
    checker.sameType g a a = .ok true

/-- For a checker that has no answer of its own to which types are the
same, the second follows from the first, or rather from nothing: types
with the same id are the same. -/
theorem Reflexive.of_bothWays {checker : Checker}
    (hsame : checker.sameType = bothWays checker.assignable)
    (h : ∀ a : TypeId, a.index < g.size →
      checker.assignable g a a = .ok true) : checker.Reflexive g := by
  refine ⟨h, fun a _ => ?_⟩
  rw [hsame]
  exact if_pos rfl

/-- In a graph of types the structural checker answers, and is right. -/
theorem structural_answers (hg : g.WellFormed) (ha : a.index < g.size)
    (hb : b.index < g.size) :
    ∃ answer, structural.assignable g a b = .ok answer ∧
      (answer = true ↔ g.Assignable a b) :=
  Graph.assignable_answers hg.closed.closedOn (hg.builtin_lt rfl)
    (hg.builtin_lt rfl) ha hb

/-- It finds just those types assignable that are. -/
theorem structural_assignable_iff (hg : g.WellFormed)
    (ha : a.index < g.size) (hb : b.index < g.size) :
    structural.assignable g a b = .ok true ↔ g.Assignable a b := by
  obtain ⟨answer, h, hiff⟩ := structural_answers hg ha hb
  rw [h, ← hiff, Except.ok.injEq]

/-- It answers whatever it is asked. -/
theorem structural_total : structural.Total := by
  refine .of_bothWays rfl fun g hg a b ha hb => ?_
  obtain ⟨answer, h, -⟩ := structural_answers hg ha hb
  exact ⟨answer, h⟩

/-- Types are the same if each is assignable to the other. -/
theorem structural_sameType_iff {P : TypeId → Prop} (hP : g.ClosedOn P)
    (hdata : P .anydata) (hnil : P .nil) (ha : P a) (hb : P b) :
    structural.sameType g a b = .ok true ↔
      g.Assignable a b ∧ g.Assignable b a := by
  obtain ⟨answer, hab, hiff⟩ : ∃ answer,
      structural.assignable g a b = .ok answer ∧
        (answer = true ↔ g.Assignable a b) :=
    Graph.assignable_answers hP hdata hnil ha hb
  obtain ⟨answer', hba, hiff'⟩ : ∃ answer,
      structural.assignable g b a = .ok answer ∧
        (answer = true ↔ g.Assignable b a) :=
    Graph.assignable_answers hP hdata hnil hb ha
  change bothWays structural.assignable g a b = .ok true ↔ _
  unfold bothWays
  by_cases heq : a = b
  · subst heq
    simp [Graph.Assignable.refl]
  · rw [if_neg heq, ← hiff, ← hiff', hab]
    cases answer with
    | true =>
        change structural.assignable g b a = .ok true ↔ _
        simp [hba]
    | false =>
        change Except.ok false = .ok true ↔ _
        simp

end TypeParams.Checker
