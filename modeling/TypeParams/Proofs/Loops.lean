/-
Unions that are among their own members.

# Walks that have no end

Nothing keeps a union from being a member of itself, or of one of its
members, and so on. A walk from member to member that does not look where
it has been goes round there for ever. There is one such walk: the one
that tells whether a type is an error type or a union of such. It has a
fault of its own for this, `Fault.endless`.

The walk takes the members of a union in order, and does not come to one
unless all before it are errors (`Graph.Asks`). So not every union that
is among its own members has it go round: one that has a member other
than an error before it comes back to itself is answered.
`onlyErrors_fault` says where a fault comes from, and in a closed graph
it comes from a union that asks for itself (`onlyErrors_returnsOr`).

# Growth

Types are added to a graph while the walk is asked about what it holds
so far. Where each added type is made of types below it
(`Graph.Stacks`), no union becomes a member of itself that was not one
before: from an added type, parts lead down until they are among what
was there, and that is closed (`Stacks.of_transGen`). A graph without
such unions, `Graph.Unlooped`, stays one.
-/
import TypeParams.Proofs.Layer
import TypeParams.Proofs.Subtype.Unions
import TypeParams.Proofs.Walks

namespace TypeParams.Graph

open Relation (ReflTransGen TransGen)

variable {g g' g'' : Graph} {P : TypeId → Prop}

-- ==================================================== what is asked for

/-- Telling whether there are only errors in a union comes to this
member: all members before it are errors. -/
def Asks (g : Graph) (u m : TypeId) : Prop :=
  ∃ node before behind, g.node? u = some node ∧
    node.kind = .union (before ++ m :: behind) ∧
    ∀ b ∈ before, ∃ path, g.onlyErrorsWithin path b = .ok true

/-- What is asked for is a member. -/
theorem Asks.member {u m : TypeId} (h : g.Asks u m) : g.Member u m := by
  obtain ⟨node, before, behind, hn, hkind, -⟩ := h
  exact ⟨node, _, hn, hkind, by simp⟩

/-- Where a fault comes from: an id without a node that is asked for, or
a union that is asked for and asks for itself. -/
theorem onlyErrorsWithin_fault {path : List TypeId} {id : TypeId}
    {fault : Fault} (hpath : ∀ p ∈ path, TransGen g.Asks p id)
    (h : g.onlyErrorsWithin path id = .error fault) :
    (∃ x, fault = .missing x g.size ∧ ReflTransGen g.Asks id x ∧
        g.node? x = none) ∨
      ∃ u, fault = .endless u ∧ ReflTransGen g.Asks id u ∧
        TransGen g.Asks u u := by
  induction path, id using onlyErrorsWithin.induct g with
  | case1 path id hn =>
      rw [onlyErrorsWithin_of_none hn] at h
      cases h
      exact .inl ⟨id, rfl, .refl, hn⟩
  | case2 path id node hn hmem =>
      rw [onlyErrorsWithin_of_node hn, if_pos hmem] at h
      cases h
      exact .inr ⟨id, rfl, .refl, hpath id hmem⟩
  | case3 path id node hn hmem detail hkind =>
      rw [onlyErrorsWithin_of_node hn, if_neg hmem, hkind] at h
      cases h
  | case4 path id node hn hmem members hkind hempty =>
      rw [onlyErrorsWithin_of_node hn, if_neg hmem, hkind] at h
      simp only [hempty, if_true] at h
      cases h
  | case5 path id node hn hmem members hkind hempty ih =>
      rw [onlyErrorsWithin_of_node hn, if_neg hmem, hkind] at h
      simp only [hempty, Bool.false_eq_true, if_false] at h
      -- the fault is that of the first member that is no error
      obtain ⟨before, m, behind, rfl, hbefore, hm⟩ :=
        exists_of_allM_error h
      have hasks : g.Asks id m :=
        ⟨node, before, behind, hn, hkind, fun b hb => ⟨_, hbefore b hb⟩⟩
      have hpath' : ∀ p ∈ id :: path, TransGen g.Asks p m := by
        rw [List.forall_mem_cons]
        exact ⟨.single hasks, fun p hp => (hpath p hp).tail hasks⟩
      rcases ih m hpath' hm with ⟨x, hx, hreach, hnone⟩ | ⟨u, hu, hreach, hloop⟩
      · exact .inl ⟨x, hx, .head hasks hreach, hnone⟩
      · exact .inr ⟨u, hu, .head hasks hreach, hloop⟩
  | case6 path id node hn hmem herror hunion =>
      rw [onlyErrorsWithin_of_node hn, if_neg hmem] at h
      split at h
      next detail hkind => exact absurd hkind (herror detail)
      next members hkind => exact absurd hkind (hunion members)
      · cases h

/-- Where a fault comes from, for a walk that starts afresh. -/
theorem onlyErrors_fault {id : TypeId} {fault : Fault}
    (h : g.onlyErrors id = .error fault) :
    (∃ x, fault = .missing x g.size ∧ ReflTransGen g.Asks id x ∧
        g.node? x = none) ∨
      ∃ u, fault = .endless u ∧ ReflTransGen g.Asks id u ∧
        TransGen g.Asks u u :=
  onlyErrorsWithin_fault (by simp) h

-- ============================================================ own members

/-- The fault of a union of the graph that is among its own members,
however far down. -/
def Endless (g : Graph) (fault : Fault) : Prop :=
  ∃ u, fault = .endless u ∧ TransGen g.Member u u

/-- No union is among its own members, however far down. -/
def Unlooped (g : Graph) : Prop := ∀ u, ¬ TransGen g.Member u u

/-- Unions that come after their members. -/
theorem Unlooped.of_order
    (h : ∀ id ∈ g.ids, ∀ node ∈ g.node? id,
      ∀ m ∈ node.kind.unionMembers?.getD [], m.index < id.index) :
    g.Unlooped :=
  not_transGen_member_of_order h

/-- Where no union is among its own members there is no fault of such a
union. -/
theorem Unlooped.not_endless (h : g.Unlooped) (fault : Fault) :
    ¬ g.Endless fault := by
  rintro ⟨u, -, hu⟩
  exact h u hu

/-- In a closed set there is an answer, unless a union is among its own
members. -/
theorem onlyErrors_returnsOr (hP : g.ClosedOn P) {id : TypeId}
    (hid : P id) : ReturnsOr g.Endless (g.onlyErrors id) := by
  cases hrun : g.onlyErrors id with
  | ok answer => exact .inl (.ok answer)
  | error fault =>
      refine .inr ⟨fault, rfl, ?_⟩
      rcases onlyErrors_fault hrun with ⟨x, -, hreach, hnone⟩ | ⟨u, rfl, -, hloop⟩
      · -- what is asked for stays in the set, and has a node
        have hx : P x := by
          clear hrun hnone
          induction hreach with
          | refl => exact hid
          | tail _ hasks ih =>
              exact hP.reaches ih (.step .refl hasks.member.child)
        obtain ⟨node, hn, -⟩ := hP x hx
        rw [hnone] at hn
        cases hn
      · exact ⟨u, rfl, TransGen.mono (fun _ _ => Asks.member) u u hloop⟩

-- ================================================================ growth

/-- Types were added, each of them made of types below it. -/
structure Stacks (g g' : Graph) : Prop where
  nodes : g.Extends g'
  below : ∀ id node, g.size ≤ id.index → g'.node? id = some node →
    ∀ c ∈ node.kind.children, c.index < id.index

theorem Stacks.refl (g : Graph) : g.Stacks g where
  nodes := .refl g
  below _ _ hle hn := absurd (index_lt_of_node? hn) (Nat.not_lt.mpr hle)

/-- Types that were put on top, and more on top of these. -/
theorem Stacks.trans (h : g.Stacks g') (h' : g'.Stacks g'') :
    g.Stacks g'' where
  nodes := h.nodes.trans h'.nodes
  below id node hle hn := by
    by_cases hid : id.index < g'.size
    · rw [h'.nodes.node?_eq hid] at hn
      exact h.below id node hle hn
    · exact h'.below id node (Nat.le_of_not_lt hid) hn

/-- A new type of types that were there. -/
theorem Stacks.push {node : Node}
    (hparts : ∀ c ∈ node.kind.children, c.index < g.size) :
    g.Stacks (g.push node) where
  nodes := g.extends_push node
  below id node' hle hn := by
    obtain ⟨i⟩ := id
    rw [node?_push] at hn
    split at hn
    next hi =>
      cases hn
      subst hi
      exact hparts
    next => exact absurd (index_lt_of_node? hn) (Nat.not_lt.mpr hle)

/-- Steps to parts that lead back to where they began do so among what
was there. From what was added they lead down. -/
theorem Stacks.of_transGen (hg : g.Closed) (h : g.Stacks g')
    {E E' : TypeId → TypeId → Prop} (hchild : ∀ a b, E' a b → g'.Child a b)
    (hold : ∀ a b, a.index < g.size → E' a b → E a b) {u : TypeId}
    (hu : TransGen E' u u) : TransGen E u u := by
  have hstep : ∀ {a b}, E' a b →
      (a.index < g.size → b.index < g.size) ∧
        (g.size ≤ a.index → b.index < a.index) := by
    intro a b hab
    obtain ⟨node, hn, hb⟩ := hchild a b hab
    refine ⟨fun ha => ?_, fun ha => h.below a node ha hn b hb⟩
    rw [h.nodes.node?_eq ha] at hn
    exact hg.child ⟨node, hn, hb⟩
  have hleads : ∀ {a b}, TransGen E' a b →
      (a.index < g.size → b.index < g.size ∧ TransGen E a b) ∧
        (g.size ≤ a.index → b.index < a.index) := by
    intro a b hab
    induction hab with
    | single hab =>
        refine ⟨fun ha => ⟨(hstep hab).1 ha, .single (hold _ _ ha hab)⟩, ?_⟩
        exact (hstep hab).2
    | @tail b c _ hbc ih =>
        refine ⟨fun ha => ?_, fun ha => ?_⟩
        · obtain ⟨hb, hab⟩ := ih.1 ha
          exact ⟨(hstep hbc).1 hb, hab.tail (hold _ _ hb hbc)⟩
        · have hb := ih.2 ha
          by_cases hlt : b.index < g.size
          · exact Nat.lt_of_lt_of_le ((hstep hbc).1 hlt) ha
          · exact Nat.lt_trans ((hstep hbc).2 (Nat.le_of_not_lt hlt)) hb
  by_cases hlt : u.index < g.size
  · exact ((hleads hu).1 hlt).2
  · exact absurd ((hleads hu).2 (Nat.le_of_not_lt hlt)) (Nat.lt_irrefl _)

/-- A union that is among its own members was so before. -/
theorem Stacks.endless (hg : g.Closed) (h : g.Stacks g') {fault : Fault}
    (hfault : g'.Endless fault) : g.Endless fault := by
  obtain ⟨u, rfl, hu⟩ := hfault
  refine ⟨u, rfl, h.of_transGen hg (fun _ _ => Member.child) ?_ hu⟩
  rintro a b ha ⟨node, members, hn, hkind, hb⟩
  rw [h.nodes.node?_eq ha] at hn
  exact ⟨node, members, hn, hkind, hb⟩

/-- No union is among its own members after types were put on top, if
none was before. -/
theorem Stacks.unlooped (hg : g.Closed) (h : g.Stacks g')
    (hunlooped : g.Unlooped) : g'.Unlooped := by
  intro u hu
  obtain ⟨v, -, hv⟩ := h.endless hg ⟨u, rfl, hu⟩
  exact hunlooped v hv

/-- Part of a graph without such unions has none either. -/
theorem Unlooped.of_extends (h : g'.Unlooped) (hext : g.Extends g') :
    g.Unlooped := by
  intro u hu
  refine h u (TransGen.mono ?_ u u hu)
  rintro a b ⟨node, members, hn, hkind, hb⟩
  exact ⟨node, members, hext _ _ hn, hkind, hb⟩

end TypeParams.Graph
