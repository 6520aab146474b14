/-
Assignability as a relation. A rule says when two types are related, in
terms of how others are; the types that may stand for each other are
those of the largest relation all of whose pairs go by their rule, or
are pairs of one type.

`Graph.Data` says of a type as a whole what `Graph.isData` decides.
-/
import TypeParams.Subtype.Search

namespace TypeParams

namespace Graph

/-- What a type has to be made of to be data leads from one type to
another. -/
inductive DataReaches (g : Graph) (a : TypeId) : TypeId → Prop where
  | refl : DataReaches g a a
  | step {b c : TypeId} {node : Node} {parts : List TypeId} :
      DataReaches g a b → g.node? b = some node →
      node.kind.dataParts? = some parts → c ∈ parts →
      DataReaches g a c

/-- Nothing that a type has to be made of to be data is of a form that
never is. -/
def Data (g : Graph) (id : TypeId) : Prop :=
  ∀ b, g.DataReaches id b →
    ∃ node, g.node? b = some node ∧ node.kind.dataParts?.isSome

end Graph

-- ============================================================== rules

/-- What a premise says, of a relation between types. -/
def Premise.Holds (g : Graph) (R : TypeId → TypeId → Prop) :
    Premise → Prop
  | .fact holds => holds = true
  | .sub source target => R source target
  | .data id => g.Data id
  | .notOnlyErrors id => g.onlyErrors id = .ok false

/-- What a rule says, of a relation between types. -/
def Rule.Holds (g : Graph) (R : TypeId → TypeId → Prop) : Rule → Prop
  | .all premises => ∀ p ∈ premises, p.Holds g R
  | .any premises => ∃ p ∈ premises, p.Holds g R

theorem Premise.Holds.mono {g : Graph} {R S : TypeId → TypeId → Prop}
    (h : ∀ a b, R a b → S a b) {premise : Premise}
    (hp : premise.Holds g R) : premise.Holds g S := by
  cases premise with
  | sub source target => exact h _ _ hp
  | fact | data | notOnlyErrors => exact hp

/-- A rule that holds of a relation holds of every larger one. -/
theorem Rule.Holds.mono {g : Graph} {R S : TypeId → TypeId → Prop}
    (h : ∀ a b, R a b → S a b) {rule : Rule} (hr : rule.Holds g R) :
    rule.Holds g S := by
  cases rule with
  | all premises => exact fun p hp => (hr p hp).mono h
  | any premises =>
      obtain ⟨p, hp, hh⟩ := hr
      exact ⟨p, hp, hh.mono h⟩

-- ========================================================== relations

namespace Graph

/-- Two types go by their rule. -/
def Step (g : Graph) (R : TypeId → TypeId → Prop) (a b : TypeId) : Prop :=
  ∃ s t, g.node? a = some s ∧ g.node? b = some t ∧
    (Rule.of a s b t).Holds g R

/-- All pairs of a relation are pairs of one type or go by their
rule. -/
def Consistent (g : Graph) (R : TypeId → TypeId → Prop) : Prop :=
  ∀ a b, R a b → a = b ∨ g.Step R a b

/-- The largest relation whose pairs go by their rule. -/
def Assignable (g : Graph) (a b : TypeId) : Prop :=
  ∃ R, g.Consistent R ∧ R a b

theorem Step.mono {g : Graph} {R S : TypeId → TypeId → Prop}
    (h : ∀ a b, R a b → S a b) {a b : TypeId} (hs : g.Step R a b) :
    g.Step S a b := by
  obtain ⟨s, t, ha, hb, hr⟩ := hs
  exact ⟨s, t, ha, hb, hr.mono h⟩

theorem Assignable.refl (g : Graph) (a : TypeId) : g.Assignable a a :=
  ⟨Eq, fun _ _ h => .inl h, rfl⟩

/-- Assignability is itself such a relation. -/
theorem consistent_assignable (g : Graph) :
    g.Consistent g.Assignable := by
  rintro a b ⟨R, hR, hab⟩
  rcases hR a b hab with h | h
  · exact .inl h
  · exact .inr (h.mono fun x y hxy => ⟨R, hR, hxy⟩)

end Graph

end TypeParams
