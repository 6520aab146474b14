/-
Which types a type is made of. A graph is closed when every part of
every node has a node, and then so has everything that can be reached
from an id that has one.
-/
import TypeParams.Graph

namespace TypeParams.Graph

/-- One type is a part of another. -/
def Child (g : Graph) (a b : TypeId) : Prop :=
  ∃ node, g.node? a = some node ∧ b ∈ node.kind.children

/-- One type is another, or a part of one that it reaches. -/
inductive Reaches (g : Graph) (a : TypeId) : TypeId → Prop where
  | refl : Reaches g a a
  | step {b c : TypeId} : Reaches g a b → g.Child b c → Reaches g a c

/-- Every part of every node has a node. -/
def Closed (g : Graph) : Prop :=
  ∀ node ∈ g.nodes.toList, ∀ c ∈ node.kind.children, c.index < g.size

instance (g : Graph) : Decidable g.Closed :=
  inferInstanceAs (Decidable (∀ node ∈ g.nodes.toList,
    ∀ c ∈ node.kind.children, c.index < g.size))

theorem Reaches.trans {g : Graph} {a b c : TypeId} (hab : g.Reaches a b)
    (hbc : g.Reaches b c) : g.Reaches a c := by
  induction hbc with
  | refl => exact hab
  | step _ hchild ih => exact ih.step hchild

theorem node?_isSome_iff {g : Graph} {id : TypeId} :
    (g.node? id).isSome ↔ id.index < g.size := by
  simp [node?, size]

theorem mem_nodes_of_node? {g : Graph} {id : TypeId} {node : Node}
    (h : g.node? id = some node) : node ∈ g.nodes.toList := by
  obtain ⟨hlt, rfl⟩ := Array.getElem?_eq_some_iff.mp h
  simp

theorem Closed.child {g : Graph} (hg : g.Closed) {a b : TypeId}
    (h : g.Child a b) : b.index < g.size := by
  obtain ⟨node, hnode, hb⟩ := h
  exact hg node (mem_nodes_of_node? hnode) b hb

/-- In a closed graph everything reached has a node. -/
theorem Closed.reaches {g : Graph} (hg : g.Closed) {a b : TypeId}
    (ha : a.index < g.size) (h : g.Reaches a b) : b.index < g.size := by
  cases h with
  | refl => exact ha
  | step _ hchild => exact hg.child hchild

end TypeParams.Graph
