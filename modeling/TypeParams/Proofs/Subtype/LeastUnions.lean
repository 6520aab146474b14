/-
The union of types is their least upper bound.

Making a union comes out in one of three ways (`Store.Made`), by what
the types contribute to it: nothing, one type, or more. In each the type
that is given back stands for a union of the contributions
(`Made.sums`), so it is below a type exactly if they are, and they are
exactly if the types are that they come from. That each of the types is
below the union is the same, read at the union itself.

# What is asked of the types

They must be there, or the union is not made. And no missing type may be
among their members, at any depth (`Graph.Solid`): the missing type is
below nothing but itself, so there is no bound for it and anything else.
A union may be among its own members.

# Answers stay

Nodes that were there stay, so answers about them do too
(`WellFormed.assignable_extends`). The bound is stated in the store that
the union was made in, for types that were there before and for the
union itself, and holds for the checker's answers and not only for the
relation.
-/
import TypeParams.Proofs.Allocation
import TypeParams.Proofs.Checker
import TypeParams.Proofs.Subtype.Growth
import TypeParams.Proofs.Subtype.Joins

namespace TypeParams

namespace Graph

variable {g g' : Graph}

/-- A graph that has grown says the same of the types that were
there. -/
theorem WellFormed.assignable_extends (hg : g.WellFormed)
    (hg' : g'.WellFormed) (hgg' : g.Extends g') {a b : TypeId}
    (ha : a.index < g.size) (hb : b.index < g.size) :
    Checker.structural.assignable g' a b
      = Checker.structural.assignable g a b := by
  obtain ⟨answer, h, hiff⟩ := Checker.structural_answers hg ha hb
  obtain ⟨answer', h', hiff'⟩ :=
    Checker.structural_answers hg' (hgg'.lt ha) (hgg'.lt hb)
  have hsame := assignable_agrees_iff hg.closed.closedOn
    (hg.builtin_lt rfl) (hg.builtin_lt rfl) (hgg'.agreesOn _) ha hb
  rw [h, h', Except.ok.injEq, Bool.eq_iff_iff, hiff, hiff', hsame]

/-- A type from a list that members do not leave is solid if nothing in
the list is missing. -/
theorem Solid.of_list {a : TypeId} (ids : List TypeId)
    (h : ∀ id ∈ ids, ∃ node ∈ g.node? id, node.kind ≠ .leaf .noType ∧
      ∀ m ∈ node.kind.unionMembers?.getD [], m ∈ ids)
    (ha : a ∈ ids) : g.Solid a := by
  have hmem : ∀ x, Relation.ReflTransGen g.Member a x → x ∈ ids := by
    intro x hx
    induction hx with
    | refl => exact ha
    | tail _ hm ih =>
        obtain ⟨node, hn, -, hmembers⟩ := h _ ih
        obtain ⟨node', members, hn', hkind, hm⟩ := hm
        cases (Option.mem_def.mp hn).symm.trans hn'
        rw [hkind] at hmembers
        exact hmembers _ hm
  intro x hx
  obtain ⟨node, hn, hpresent, -⟩ := h x (hmem x hx)
  exact ⟨node, hn, hpresent⟩

end Graph

namespace Store

variable {store store' : Store} {ids members : List TypeId} {u : TypeId}

-- ==================================================== making a union

/-- What is made of the members of a union: never of none, and a new
type of two or more. A single member is the union already. -/
inductive Made (store : Store) : List TypeId → TypeId → Store → Prop
  | never : Made store [] .never store
  | one (id : TypeId) : Made store [id] id store
  | new {members : List TypeId} (several : 2 ≤ members.length) :
      Made store members ⟨store.size⟩
        { store with
          graph := store.graph.push (.anonymous (.union members)) }

/-- A union can be made of types that are there, and is made of what
they contribute. -/
theorem unionOf_made (h : ∀ id ∈ ids, (store.graph.node? id).isSome) :
    ∃ members u store', store.unionOf ids = .ok (u, store') ∧
      store.graph.Composes ids members ∧ store.Made members u store' := by
  obtain ⟨members, hmembers⟩ := Graph.unionMembers_returns h
  have hcomposes := Graph.composes_of_unionMembers hmembers
  unfold unionOf
  rw [hmembers]
  match members with
  | [] => exact ⟨_, _, _, rfl, hcomposes, .never⟩
  | [id] => exact ⟨_, _, _, rfl, hcomposes, .one id⟩
  | m :: m' :: ms => exact ⟨_, _, _, rfl, hcomposes, .new (by simp)⟩

/-- Nothing that was there changes. -/
theorem Made.extends (h : store.Made members u store') :
    store.graph.Extends store'.graph := by
  cases h with
  | never => exact .refl _
  | one => exact .refl _
  | new => exact Graph.extends_push _ _

/-- What is given back stands for the union of the members. -/
theorem Made.sums (h : store.Made members u store') :
    store'.graph.Sums members u := by
  cases h with
  | never => rfl
  | one => rfl
  | new hseveral =>
      match members, hseveral with
      | m :: m' :: ms, _ => exact ⟨_, Graph.node?_push_self _ _, rfl⟩

/-- The store has a graph of types afterwards. -/
theorem Made.wellFormed (h : store.Made members u store')
    (hstore : store.graph.WellFormed)
    (hmembers : ∀ m ∈ members, m.index < store.graph.size) :
    store'.graph.WellFormed := by
  refine .of_extends ?_ (hstore.extends_builtin.trans h.extends)
  cases h with
  | never => exact hstore.closed
  | one => exact hstore.closed
  | new =>
      have hext := Graph.extends_push store.graph
        (.anonymous (.union members))
      rw [Graph.closed_iff]
      intro id node hn c hc
      rw [Graph.node?_push] at hn
      split at hn
      · cases hn
        exact hext.lt (hmembers c hc)
      · exact hext.lt (hstore.closed node (Graph.mem_nodes_of_node? hn) c hc)

-- ============================================================ the bound

/-- What is made of types is below another type exactly if they are. -/
theorem Made.assignable_iff (h : store.Made members u store')
    (hstore' : store'.graph.WellFormed)
    (hcomposes : store.graph.Composes ids members)
    (hids : ∀ id ∈ ids, store.graph.Solid id) {c : TypeId} {t : Node}
    (ht : store'.graph.node? c = some t)
    (ht' : t.kind ≠ .leaf .noType) :
    store'.graph.Assignable u c ↔
      ∀ id ∈ ids, store'.graph.Assignable id c := by
  have hcomposes' := hcomposes.extends h.extends
  have hids' := fun id hid => (hids id hid).extends h.extends
  rw [h.sums.assignable_iff hstore' (hcomposes'.solid hids') ht ht',
    hcomposes'.assignable_iff hids' ht ht']

/-- The union of types without a missing type among their members is the
least type that they all are assignable to. Its members are what they
contribute, each once, in order, and answers about types that were there
stay. A layer that shows what the store holds makes the same. -/
theorem unionOf_least (store : Store) (hstore : store.graph.WellFormed)
    {ids : List TypeId} (hids : ∀ id ∈ ids, store.graph.Solid id) :
    ∃ members u store', store.unionOf ids = .ok (u, store') ∧
      store.graph.Composes ids members ∧ members.Nodup ∧
      store.Made members u store' ∧
      (∀ id ∈ ids,
        Checker.structural.assignable store'.graph id u = .ok true) ∧
      (∀ c t, store'.graph.node? c = some t → t.kind ≠ .leaf .noType →
        (Checker.structural.assignable store'.graph u c = .ok true ↔
          ∀ id ∈ ids,
            Checker.structural.assignable store'.graph id c
              = .ok true)) ∧
      (∀ a b, a.index < store.size → b.index < store.size →
        Checker.structural.assignable store'.graph a b
          = Checker.structural.assignable store.graph a b) ∧
      ∀ layer : Layer, layer.flattened = store → ∃ layer',
        layer.unionOf ids = .ok (u, layer') ∧
          layer'.flattened = store' := by
  have hnode : ∀ id ∈ ids, (store.graph.node? id).isSome := by
    intro id hid
    obtain ⟨node, hn, -⟩ := (hids id hid).node
    exact Option.isSome_of_eq_some hn
  obtain ⟨members, u, store', hrun, hcomposes, hmade⟩ := unionOf_made hnode
  have hsolid := hcomposes.solid hids
  have hstore' : store'.graph.WellFormed :=
    hmade.wellFormed hstore fun m hm => (hsolid m hm).lt
  have hids' : ∀ id ∈ ids, id.index < store'.graph.size :=
    fun id hid => hmade.extends.lt (hids id hid).lt
  have hu := hmade.sums.solid hstore'
    fun m hm => (hsolid m hm).extends hmade.extends
  -- that it is a bound is the same, read at the union itself
  have hleast : ∀ c t, store'.graph.node? c = some t →
      t.kind ≠ .leaf .noType →
      (Checker.structural.assignable store'.graph u c = .ok true ↔
        ∀ id ∈ ids,
          Checker.structural.assignable store'.graph id c = .ok true) := by
    intro c t ht ht'
    have hc := Graph.index_lt_of_node? ht
    rw [Checker.structural_assignable_iff hstore' hu.lt hc,
      hmade.assignable_iff hstore' hcomposes hids ht ht']
    exact forall₂_congr fun id hid =>
      (Checker.structural_assignable_iff hstore' (hids' id hid) hc).symm
  refine ⟨members, u, store', hrun, hcomposes, hcomposes.nodup, hmade, ?_,
    hleast, ?_, ?_⟩
  · obtain ⟨t, ht, ht'⟩ := hu.node
    rw [← hleast u t ht ht',
      Checker.structural_assignable_iff hstore' hu.lt hu.lt]
    exact .refl _ _
  · intro a b ha hb
    exact hstore.assignable_extends hstore' hmade.extends ha hb
  · rintro layer rfl
    rw [Layer.unionOf_flattened] at hrun
    match hlayer : layer.unionOf ids, hrun with
    | .ok (u', layer'), hrun =>
        cases hrun
        exact ⟨layer', rfl, rfl⟩

/-- Nested lists of ints (21, 22), or nil (23), unions with a marker or a
name (24, 25), and a union of these that is its own member (26). In a
list that is no member of a union the elements may be missing. -/
def nestedLists : Store where
  graph := ⟨Graph.builtin.nodes ++ #[
    .anonymous (.array ⟨22⟩),
    .anonymous (.union [.int, ⟨21⟩]),
    .anonymous (.union [⟨22⟩, .nil, ⟨21⟩]),
    .marker "T" ⟨1⟩ (.union [.string, .int]),
    .named "Either" ⟨1⟩ (.union [.string, ⟨27⟩]),
    .anonymous (.union [⟨24⟩, ⟨25⟩, ⟨26⟩, .nil]),
    .anonymous (.array .noType)]⟩

/-- The unnamed unions give way, the others and nested ones stay. -/
theorem nestedLists_unionOf_least :
    nestedLists.graph.WellFormed ∧
    (∀ id ∈ [⟨23⟩, .int, ⟨24⟩, ⟨25⟩, ⟨26⟩], nestedLists.graph.Solid id) ∧
    ∃ store', nestedLists.unionOf [⟨23⟩, .int, ⟨24⟩, ⟨25⟩, ⟨26⟩]
        = .ok (⟨28⟩, store') ∧
      nestedLists.Made [⟨22⟩, .nil, ⟨21⟩, .int, ⟨24⟩, ⟨25⟩, ⟨26⟩] ⟨28⟩
        store' ∧
      Checker.structural.assignable store'.graph ⟨26⟩ ⟨28⟩ = .ok true ∧
      (Checker.structural.assignable store'.graph ⟨28⟩ ⟨26⟩ = .ok true ↔
        ∀ id ∈ [⟨23⟩, .int, ⟨24⟩, ⟨25⟩, ⟨26⟩],
          Checker.structural.assignable store'.graph id ⟨26⟩
            = .ok true) := by
  have hg : nestedLists.graph.WellFormed := by decide
  have hids : ∀ id ∈ [⟨23⟩, .int, ⟨24⟩, ⟨25⟩, ⟨26⟩],
      nestedLists.graph.Solid id := by
    intro id hid
    refine .of_list [.nil, .int, .string, ⟨21⟩, ⟨22⟩, ⟨23⟩, ⟨24⟩, ⟨25⟩,
      ⟨26⟩, ⟨27⟩] (by decide) ?_
    revert id
    decide
  refine ⟨hg, hids, ?_⟩
  obtain ⟨members, u, store', hrun, -, -, -, hupper, hleast, -⟩ :=
    unionOf_least nestedLists hg hids
  cases hrun
  exact ⟨_, rfl, .new (by decide), hupper ⟨26⟩ (by decide),
    hleast ⟨26⟩ _ rfl Kind.noConfusion⟩

end Store

end TypeParams
