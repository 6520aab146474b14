/-
What the operations of a layer do to the nodes it shows.

A layer is a store with nodes of its own on top, and what is looked at
is the graph of both. Each operation is described here by what it does
to that graph, and nothing after this file looks at the layer's arrays.

# Adding and defining

Allocating and reserving put one node at the end (`Graph.push`), so the
graph grows. A reserved node is there from the start, with the form of
the missing type, until it is defined. Defining changes the one node
that was reserved for it and no other (`Layer.node?_define`); it fails
for an id that is not waiting (`Layer.define_eq_ok`), so only what was
reserved is ever changed.

# Unions

A union is a new node, unless it has one member or none
(`Layer.unionOf_cases`): with none it is the type never, and with one
that member. Members are the given types, with unnamed unions taken
apart (`Layer.mem_unionMembers`).
-/
import TypeParams.Layer
import TypeParams.Proofs.Fallible
import TypeParams.Proofs.Graph
import TypeParams.Proofs.Walks

namespace TypeParams

-- ============================================================= one more

namespace Graph

variable {g : Graph}

/-- The graph with one more node, under the next id. -/
def push (g : Graph) (node : Node) : Graph := ⟨g.nodes.push node⟩

/-- The last id has the new node, and all others have what they had. -/
theorem node?_push (g : Graph) (node : Node) (id : TypeId) :
    (g.push node).node? id
      = if id.index = g.size then some node else g.node? id := by
  unfold push node? size
  rw [Array.getElem?_push]

theorem node?_push_self (g : Graph) (node : Node) :
    (g.push node).node? ⟨g.size⟩ = some node := by
  rw [node?_push, if_pos rfl]

/-- One more node is growth. -/
theorem extends_push (g : Graph) (node : Node) :
    g.Extends (g.push node) := by
  intro id node' hn
  have hlt := index_lt_of_node? hn
  rw [node?_push, if_neg (Nat.ne_of_lt hlt), hn]

/-- A graph is closed if the parts of all its nodes are below its size. -/
theorem closed_iff :
    g.Closed ↔ ∀ id node, g.node? id = some node →
      ∀ c ∈ node.kind.children, c.index < g.size := by
  constructor
  · intro hg id node hn
    exact hg node (mem_nodes_of_node? hn)
  · intro h node hmem
    obtain ⟨id, hn⟩ := exists_id_of_mem hmem
    exact h id node hn

end Graph

namespace Layer

variable {layer layer' : Layer} {id : TypeId} {node : Node}

-- ===================================================== adding and defining

/-- Allocating puts the node at the end. -/
theorem graph_alloc_eq (layer : Layer) (node : Node) :
    (layer.alloc node).2.graph = layer.graph.push node :=
  graph_alloc layer node

/-- Reserving puts a missing type there. -/
theorem graph_reserve_eq (layer : Layer) :
    layer.reserve.2.graph
      = layer.graph.push (.anonymous (.leaf .noType)) :=
  graph_reserve layer

/-- The next id is the size of the graph. -/
theorem nextId_eq (layer : Layer) : layer.nextId = ⟨layer.graph.size⟩ := by
  rw [size_graph]
  rfl

/-- Only what is pending can be defined. -/
theorem define_eq_ok :
    layer.define id node = .ok layer' ↔
      id ∈ layer.pending ∧
        layer' = { layer with
          fresh :=
            layer.fresh.setIfInBounds (id.index - layer.baseSize) node
          pending := layer.pending.erase id } := by
  unfold define
  split
  next hmem => simp [hmem, eq_comm]
  next hmem =>
    simp only [hmem, false_and, iff_false]
    split
    · simp
    · simp

/-- Defining an id of the layer gives it its node and leaves the other
nodes alone. -/
theorem node?_define (h : layer.define id node = .ok layer')
    (hbase : layer.baseSize ≤ id.index)
    (hlt : id.index < layer.graph.size) (j : TypeId) :
    layer'.graph.node? j
      = if j = id then some node else layer.graph.node? j := by
  obtain ⟨-, rfl⟩ := define_eq_ok.mp h
  have hsize : layer.graph.size
      = layer.baseSize + layer.fresh.size := size_graph layer
  rw [node?_graph, node?_graph]
  unfold node?
  change (if j.index < layer.baseSize then _ else
    (layer.fresh.setIfInBounds (id.index - layer.baseSize) node)[
      j.index - layer.baseSize]?) = _
  by_cases hj : j.index < layer.baseSize
  · have hne : j ≠ id := by
      rintro rfl
      omega
    rw [if_pos hj, if_pos hj, if_neg hne]
  · rw [if_neg hj, if_neg hj, Array.getElem?_setIfInBounds]
    by_cases hid : j = id
    · subst hid
      rw [if_pos rfl, if_pos rfl, if_pos (by omega)]
    · have hne : id.index - layer.baseSize
          ≠ j.index - layer.baseSize := by
        intro heq
        refine hid ?_
        obtain ⟨i⟩ := id
        obtain ⟨k⟩ := j
        congr 1
        change layer.baseSize ≤ i at hbase
        change ¬ k < layer.baseSize at hj
        change i - layer.baseSize = k - layer.baseSize at heq
        omega
      rw [if_neg hne, if_neg hid]

-- =============================================================== unions

/-- What a type contributes to a union: itself or its parts. -/
theorem mem_unionParts {g : Graph} {parts : List TypeId}
    (h : g.unionParts id = .ok parts) :
    ∃ node, g.node? id = some node ∧
      ∀ p ∈ parts, p = id ∨ p ∈ node.kind.children := by
  obtain ⟨node, hn, h⟩ := bind_eq_ok.mp h
  refine ⟨node, Graph.node_eq_ok.mp hn, ?_⟩
  split at h
  next members hkind =>
    cases pure_eq_ok.mp h
    intro p hp
    split at hp
    · rw [hkind]
      exact .inr hp
    · exact .inl (List.mem_singleton.mp hp)
  next =>
    cases pure_eq_ok.mp h
    exact fun p hp => .inl (List.mem_singleton.mp hp)

/-- Members of a union are the types it is made of, or parts of
these. -/
theorem mem_unionMembers {g : Graph} {ids members : List TypeId}
    (h : g.unionMembers ids = .ok members) :
    ∀ m ∈ members, ∃ id ∈ ids, ∃ node, g.node? id = some node ∧
      (m = id ∨ m ∈ node.kind.children) := by
  obtain ⟨parts, hparts, h⟩ := bind_eq_ok.mp h
  cases pure_eq_ok.mp h
  intro m hm
  rw [List.mem_eraseDups, List.mem_flatten] at hm
  obtain ⟨own, hown, hmem⟩ := hm
  obtain ⟨id, hid, hunion⟩ := exists_of_mem_mapM hparts hown
  obtain ⟨node, hn, hor⟩ := mem_unionParts hunion
  exact ⟨id, hid, node, hn, hor m hmem⟩

/-- The union of some types is never, or one of its members, or a new
unnamed union of them. -/
theorem unionOf_cases {ids : List TypeId}
    (h : layer.unionOf ids = .ok (id, layer')) :
    ∃ members, layer.graph.unionMembers ids = .ok members ∧
      ((id = .never ∧ layer' = layer) ∨
        (members = [id] ∧ layer' = layer) ∨
        (id = layer.nextId ∧
          layer' = (layer.alloc (.anonymous (.union members))).2)) := by
  obtain ⟨members, hmembers, h⟩ := bind_eq_ok.mp h
  refine ⟨members, hmembers, ?_⟩
  split at h
  · cases pure_eq_ok.mp h
    exact .inl ⟨rfl, rfl⟩
  · cases pure_eq_ok.mp h
    exact .inr (.inl ⟨rfl, rfl⟩)
  · cases pure_eq_ok.mp h
    exact .inr (.inr ⟨rfl, rfl⟩)

end Layer

end TypeParams
