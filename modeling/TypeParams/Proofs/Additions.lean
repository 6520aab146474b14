/-
What is added to a graph.

The calls of a resolution add types to its graph, and put them together
from types that were added before and types that were there. `Adds`
keeps track of which of the latter are used: an added type is no marker,
and its parts are added types or in a given set (`Admits`).

# The set

What this is good for depends on the set. With all the types that were
there, the graph stays closed. With those that are free of markers, the
added types are free of markers too (`Adds.markerFree`): a path from one
of them runs through added types until it enters the set, and ends
there. The set must be closed in the graph that was there at first, and
may be chosen after the fact, since `Adds` is shown for any set that has
what the calls draw on.

# Steps

A node is added at the end (`Adds.push`), or takes the place of one that
was added before (`Adds.put`), as when a reserved id is defined. Either
way the nodes that were there at first do not change.
-/
import TypeParams.Proofs.Layer
import TypeParams.Proofs.Marker

namespace TypeParams.Graph

/-- All markers of the graph have names. -/
def MarkersNamed (g : Graph) : Prop :=
  ∀ node ∈ g.nodes.toList, node.isMarker = true →
    node.name.isSome = true

instance (g : Graph) : Decidable g.MarkersNamed :=
  inferInstanceAs (Decidable (∀ node ∈ _, _))

/-- The type is in the set, or one that was added. -/
def Admits (g₀ : Graph) (T : TypeId → Prop) (g : Graph) (id : TypeId) :
    Prop :=
  T id ∨ g₀.size ≤ id.index ∧ id.index < g.size

/-- The first graph is part of the second. What was added is no marker
and made of types of the set and of what was added. -/
structure Adds (g₀ : Graph) (T : TypeId → Prop) (g : Graph) : Prop where
  nodes : g₀.Extends g
  added : ∀ id node, g₀.size ≤ id.index → g.node? id = some node →
    node.isMarker = false ∧
      ∀ c ∈ node.kind.children, Admits g₀ T g c

variable {g₀ g g' : Graph} {T : TypeId → Prop} {id : TypeId}

/-- What may be used may be used later. -/
theorem Admits.mono (h : Admits g₀ T g id) (hle : g.size ≤ g'.size) :
    Admits g₀ T g' id :=
  h.imp_right fun hid => ⟨hid.1, Nat.lt_of_lt_of_le hid.2 hle⟩

-- =============================================================== growth

theorem Adds.refl (g : Graph) (T : TypeId → Prop) : Adds g T g where
  nodes := .refl g
  added _ _ hle hn :=
    absurd (index_lt_of_node? hn) (Nat.not_lt.mpr hle)

/-- Giving an id its node keeps the others. -/
theorem size_le_of_put {node : Node}
    (hput : ∀ j, g'.node? j = if j = id then some node else g.node? j) :
    g.size ≤ g'.size := by
  refine Nat.le_of_not_lt fun hlt => ?_
  obtain ⟨node', hn⟩ :=
    exists_node_of_lt (show (TypeId.mk g'.size).index < g.size from hlt)
  have hsome : ∃ node, g'.node? ⟨g'.size⟩ = some node := by
    rw [hput]
    split
    · exact ⟨node, rfl⟩
    · exact ⟨node', hn⟩
  obtain ⟨node'', hn'⟩ := hsome
  exact Nat.lt_irrefl _ (index_lt_of_node? hn')

/-- One more node, or one in the place of another that was added. -/
theorem Adds.put (h : Adds g₀ T g) {node : Node}
    (hput : ∀ j, g'.node? j = if j = id then some node else g.node? j)
    (hid : g₀.size ≤ id.index) (hmarker : node.isMarker = false)
    (hparts : ∀ c ∈ node.kind.children, Admits g₀ T g c) :
    Adds g₀ T g' ∧ Admits g₀ T g' id := by
  have hle : g.size ≤ g'.size := size_le_of_put hput
  refine ⟨⟨?_, ?_⟩, .inr ⟨hid, ?_⟩⟩
  · intro j node' hn
    have hne : j ≠ id := by
      rintro rfl
      exact Nat.not_lt.mpr hid (index_lt_of_node? hn)
    rw [hput, if_neg hne]
    exact h.nodes j node' hn
  · intro j node' hj hn
    rw [hput] at hn
    split at hn
    · cases hn
      exact ⟨hmarker, fun c hc => (hparts c hc).mono hle⟩
    · obtain ⟨hm, hc⟩ := h.added j node' hj hn
      exact ⟨hm, fun c hmem => (hc c hmem).mono hle⟩
  · have hn := hput id
    rw [if_pos rfl] at hn
    exact index_lt_of_node? hn

/-- A new node of types that may be used may be used in turn. -/
theorem Adds.push (h : Adds g₀ T g) (node : Node)
    (hmarker : node.isMarker = false)
    (hparts : ∀ c ∈ node.kind.children, Admits g₀ T g c) :
    Adds g₀ T (g.push node) ∧ Admits g₀ T (g.push node) ⟨g.size⟩ := by
  refine h.put (fun j => ?_) h.nodes.size_le hmarker hparts
  obtain ⟨i⟩ := j
  rw [node?_push]
  simp only [TypeId.mk.injEq]

-- =============================================================== sets

variable (hT : g₀.ClosedOn T)

include hT

/-- From added types and types of the set no others are reached. -/
theorem Adds.closedOn (h : Adds g₀ T g) : g.ClosedOn (Admits g₀ T g) := by
  rintro a (ha | ⟨hle, hlt⟩)
  · obtain ⟨node, hn, hc⟩ := hT a ha
    exact ⟨node, h.nodes a node hn, fun c hmem => .inl (hc c hmem)⟩
  · obtain ⟨node, hn⟩ := exists_node_of_lt hlt
    exact ⟨node, hn, (h.added a node hle hn).2⟩

/-- A graph of types stays one. -/
theorem Adds.wellFormed (hg₀ : g₀.WellFormed) (h : Adds g₀ T g) :
    g.WellFormed := by
  refine .of_extends (closed_iff.mpr fun id node hn c hc => ?_)
    (hg₀.extends_builtin.trans h.nodes)
  by_cases hid : id.index < g₀.size
  · have hn₀ : g₀.node? id = some node :=
      (h.nodes.node?_eq hid).symm.trans hn
    exact h.nodes.lt (hg₀.closed.closedOn.child hid hn₀ c hc)
  · exact (h.closedOn hT).lt
      ((h.added id node (Nat.le_of_not_lt hid) hn).2 c hc)

/-- What is made of types that are free of markers is free of
markers. -/
theorem Adds.markerFree (hfree : ∀ a, T a → g₀.MarkerFree a)
    (h : Adds g₀ T g) (hid : Admits g₀ T g id) : g.MarkerFree id := by
  intro b hb node hn
  rcases (h.closedOn hT).reaches hid hb with hb | ⟨hle, -⟩
  · obtain ⟨node', hn', -⟩ := hT b hb
    rw [h.nodes b node' hn'] at hn
    cases hn
    exact hfree b hb b .refl _ hn'
  · exact (h.added b node hle hn).1

omit hT

/-- Markers that have names are all there are: none is added. -/
theorem Adds.markersNamed (hg₀ : g₀.MarkersNamed) (h : Adds g₀ T g) :
    g.MarkersNamed := by
  intro node hmem hmarker
  obtain ⟨id, hn⟩ := exists_id_of_mem hmem
  by_cases hid : id.index < g₀.size
  · rw [h.nodes.node?_eq hid] at hn
    exact hg₀ node (mem_nodes_of_node? hn) hmarker
  · have hfree := (h.added id node (Nat.le_of_not_lt hid) hn).1
    rw [hfree] at hmarker
    cases hmarker

end TypeParams.Graph
