/-
Doubles: the same type made twice in one graph.

Where a match makes a union or a tuple, the same match made again makes
another, with another id and the same node. The checker does not tell
the two apart, on either side (`Doubles.source`, `Doubles.target`), and
takes them for the same type (`Doubles.assignable`), if no type is
missing below: a missing type is assignable to itself alone, so a union
of such would not even be assignable to its double.

# Forms that gather

Nothing of this holds of all forms. An error is looked up by its id: the
top error type takes every error, and a double of it takes those with
the same detail. So doubles are unions or tuples, the two forms that a
match makes, and the proofs go by the rules for these. For a union the
double is met on one side of a rule while the members are on the other;
that assignability is not transitive in general does not matter, because
the two have the very same members.

# Twins

Twins are the same type made in two graphs that have grown from one. In
a graph that has grown from both they are doubles (`Twins.doubles`),
which is how what is known of two runs is put to the checker.
-/
import TypeParams.Proofs.Matching.Drawn
import TypeParams.Proofs.Subtype.Downward
import TypeParams.Proofs.Subtype.Joins

namespace TypeParams

/-- The forms that a match makes are unions and tuples. -/
theorem Kind.exists_of_gathers {kind : Kind} (h : kind.gathers = true) :
    (∃ members, kind = .union members) ∨
      ∃ members rest, kind = .tuple members rest := by
  cases kind with
  | union members => exact .inl ⟨members, rfl⟩
  | tuple members rest => exact .inr ⟨members, rest, rfl⟩
  | leaf | array | map | record | error | stream | table | function
  | object | typedesc | xml => cases h

namespace Graph

variable {g₀ g : Graph} {a b c : TypeId}

/-- The same type, or two unions or tuples of one node, made of whole
types. -/
def Doubles (g : Graph) (a b : TypeId) : Prop :=
  a = b ∨ ∃ node, g.node? a = some node ∧ g.node? b = some node ∧
    node.kind.gathers = true ∧ ∀ c ∈ node.kind.children, g.Whole c

/-- Doubles are so both ways. -/
theorem Doubles.symm (h : g.Doubles a b) : g.Doubles b a := by
  rcases h with rfl | ⟨node, hna, hnb, hgathers, hparts⟩
  · exact .inl rfl
  · exact .inr ⟨node, hnb, hna, hgathers, hparts⟩

/-- A double is assignable to the other. -/
theorem Doubles.assignable (hg : g.Closed) (h : g.Doubles a b) :
    g.Assignable a b := by
  rcases h with rfl | ⟨node, hna, hnb, hgathers, hparts⟩
  · exact .refl _ _
  apply Assignable.of_relates hna hnb
  rcases Kind.exists_of_gathers hgathers with
    ⟨members, hkind⟩ | ⟨members, rest, hkind⟩
  · rw [hkind] at hparts
    apply Rule.Relates.members hkind
    · rw [hkind]
      exact Kind.noConfusion
    · intro m hm
      exact ((hparts m hm).solid hg).assignable_of_member (.refl _ _)
        (.single ⟨node, members, hnb, hkind, hm⟩)
  · apply Rule.Relates.shape
    rw [hkind]
    apply Kind.Fits.row rfl rfl
    exact ⟨Nat.le_refl _, fun i x hx => ⟨x, hx, .refl _ _⟩⟩

/-- Nothing is data of one double and not of the other. -/
theorem Doubles.data (h : g.Doubles a b) (hdata : g.Data a) :
    g.Data b := by
  rcases h with rfl | ⟨node, hna, hnb, hgathers, hparts⟩
  · exact hdata
  refine Data.of_closed (S := fun x => x = b ∨ g.Data x) ?_ (.inl rfl)
  intro x hx
  rcases hx with rfl | hx
  · obtain ⟨parts, hdparts, hall⟩ := hdata.parts hna
    exact ⟨node, parts, hnb, hdparts, fun p hp => .inr (hall p hp)⟩
  · obtain ⟨node', hn', -⟩ := hx x .refl
    obtain ⟨parts, hdparts, hall⟩ := hx.parts hn'
    exact ⟨node', parts, hn', hdparts, fun p hp => .inr (hall p hp)⟩

/-- What takes one double takes the other. -/
theorem Doubles.source (hg : g.Closed) (h : g.Doubles a b)
    (hac : g.Assignable a c) : g.Assignable b c := by
  have hba := h.symm.assignable hg
  have hdata := h.data
  rcases h with rfl | ⟨node, hna, hnb, hgathers, -⟩
  · exact hac
  -- the relation with all pairs of `b` added that `a` has
  refine ⟨fun x y => g.Assignable x y ∨ x = b ∧ g.Assignable a y, ?_,
    .inr ⟨rfl, hac⟩⟩
  clear hac
  intro x y hxy
  rcases hxy with hxy | ⟨rfl, hay⟩
  · exact hxy.step_or
  rcases hay.relates with rfl | ⟨s, t, hs, ht, hr⟩
  · exact hba.step_or
  rw [hna, Option.some.injEq] at hs
  subst hs
  refine .inr ⟨node, t, hnb, ht, Rule.holds_iff.mpr ?_⟩
  rcases Kind.exists_of_gathers hgathers with
    ⟨members, hkind⟩ | ⟨members, rest, hkind⟩
  · rcases hr.source with hnever | ⟨members', hunion, h⟩ | hsingle
    · rw [hkind] at hnever
      cases hnever
    · exact .members hunion hr.target fun m hm => .inl (h m hm)
    · rw [hkind] at hsingle
      cases hsingle
  · cases hr with
    | never hs | members hs =>
        rw [hkind] at hs
        cases hs
    | member hs ht hm h => exact .member hs ht hm (.inr ⟨rfl, h⟩)
    | leaf hs ht h =>
        refine .leaf hs ht ?_
        cases h with
        | any =>
            apply Leaf.Takes.any
            unfold onlyErrors
            rw [onlyErrorsWithin_of_node hnb, hkind]
            rfl
        | anydata h => exact .anydata (hdata h)
        | readonly h => exact .readonly h
        | same _ h | byte h | xml h =>
            rw [hkind] at h
            cases h
    | shape h =>
        have hrow : node.kind.row? = some ⟨members, rest⟩ := by
          rw [hkind]
          rfl
        obtain ⟨row', ht, hfits⟩ := h.exists_row hrow
        exact .shape (.row hrow ht (hfits.mono fun _ _ => .inl))

/-- What is assignable to one double is assignable to the other. -/
theorem Doubles.target (hg : g.Closed) (h : g.Doubles a b)
    (hca : g.Assignable c a) : g.Assignable c b := by
  have hab := h.assignable hg
  rcases h with rfl | ⟨node, hna, hnb, hgathers, -⟩
  · exact hca
  refine ⟨fun x y => g.Assignable x y ∨ y = b ∧ g.Assignable x a, ?_,
    .inr ⟨rfl, hca⟩⟩
  clear hca
  intro x y hxy
  rcases hxy with hxy | ⟨rfl, hxa⟩
  · exact hxy.step_or
  rcases hxa.relates with rfl | ⟨s, t, hs, ht, hr⟩
  · exact hab.step_or
  rw [hna, Option.some.injEq] at ht
  subst ht
  refine .inr ⟨s, node, hs, hnb, Rule.holds_iff.mpr ?_⟩
  cases hr with
  | never hs ht => exact .never hs ht
  | members hs ht h => exact .members hs ht fun m hm => .inr ⟨rfl, h m hm⟩
  | member hs ht hm h => exact .member hs ht hm (.inl h)
  | leaf hs ht =>
      rw [ht] at hgathers
      cases hgathers
  | shape h =>
      -- the target is a tuple, and its id plays no part
      rcases Kind.exists_of_gathers hgathers with
        ⟨members, hkind⟩ | ⟨members, rest, hkind⟩
      · exact absurd hkind (h.target.2 members)
      · have hrow : node.kind.row? = some ⟨members, rest⟩ := by
          rw [hkind]
          rfl
        obtain ⟨row, hs, hfits⟩ := h.exists_row_source hrow
        exact .shape (.row hs hrow (hfits.mono fun _ _ => .inl))

/-- Twins of one graph are doubles. -/
theorem Twins.doubles (hg₀ : g₀.Closed) (hext : g₀.Extends g)
    (hab : Twins g₀ g g a b) (ha : g.Drawn g₀.Whole b) :
    g.Doubles a b := by
  rcases hab with ⟨-, rfl⟩ | ⟨-, hb, node, hna, hnb, -⟩
  · exact .inl rfl
  rcases ha with hwhole | ⟨node', hnb', hgathers, hparts⟩
  · exact absurd hwhole.lt (Nat.not_lt.mpr hb)
  · rw [hnb, Option.some.injEq] at hnb'
    subst hnb'
    exact .inr ⟨node, hna, hnb, hgathers,
      fun c hc => (hparts c hc).extends hg₀ hext⟩

/-- A graph of types stays one when types are added that gather others. -/
theorem Flat.wellFormed (hg₀ : g₀.WellFormed) (h : g₀.Flat g) :
    g.WellFormed := by
  refine .of_extends (closed_iff.mpr fun id node hn c hc => h.nodes.lt ?_)
    (hg₀.extends_builtin.trans h.nodes)
  by_cases hid : id.index < g₀.size
  · rw [h.nodes.node?_eq hid] at hn
    exact hg₀.closed.closedOn.child hid hn c hc
  · exact (h.added id node (Nat.le_of_not_lt hid) hn).2 c hc

end Graph

end TypeParams
