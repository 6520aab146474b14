/-
Graphs that walks can rely on, and how they grow.

# Sets without faults

A walk over a graph looks up the type it starts from and then parts of
types it has looked up, so it can miss a node only by leaving the ids
that the graph has. `Graph.ClosedOn` says of a set of ids that a walk
inside it never does: each of them has a node, and the parts of that
node are in the set too. The ids of a closed graph are such a set
(`Closed.closedOn`), and what a closed graph reaches from a member stays
inside (`ClosedOn.reaches`).

The set is a parameter, and not always the whole graph, because a type
may be half made: while a copy is being written, its reserved id has no
node yet, and only the ids outside the copy can be walked. What such a
walk does is then a matter of the set alone.

# Growth

`Graph.Extends` is how graphs grow: what was there stays as it was,
under the same id (`extends_iff_prefix` reads it off the arrays). A
closed set stays closed when the graph grows (`ClosedOn.extends`),
whatever the new nodes are, and from inside it nothing new is reached
(`Reaches.of_extends`). `Graph.AgreesOn` is the weaker relation in which
two graphs need not contain one another: they have the same nodes on a
set. A walk inside a closed set cannot tell such graphs apart.

# Construction

`Graph.WellFormed` is what every graph of types has by construction: it
is closed and begins with the builtin types. It can be decided, so a
given graph is shown well formed by running the check.
-/
import TypeParams.Builtin
import TypeParams.Graph.Reach

namespace TypeParams.Graph

variable {g g' g'' : Graph}

-- ================================================== sets without faults

/-- The ids of a set have nodes, whose parts are in the set again. -/
def ClosedOn (g : Graph) (P : TypeId → Prop) : Prop :=
  ∀ a, P a → ∃ node, g.node? a = some node ∧ ∀ c ∈ node.kind.children, P c

/-- Ids below the size of the graph have nodes. -/
theorem exists_node_of_lt {id : TypeId} (h : id.index < g.size) :
    ∃ node, g.node? id = some node :=
  Option.isSome_iff_exists.mp (node?_isSome_iff.mpr h)

/-- A node of the graph is the node of some id. -/
theorem exists_id_of_mem {node : Node} (h : node ∈ g.nodes.toList) :
    ∃ id, g.node? id = some node := by
  obtain ⟨i, hi, rfl⟩ := List.mem_iff_getElem.mp h
  refine ⟨⟨i⟩, ?_⟩
  unfold node?
  rw [← Array.getElem?_toList]
  exact List.getElem?_eq_getElem hi

/-- The ids of a closed graph are a closed set. -/
theorem Closed.closedOn (hg : g.Closed) :
    g.ClosedOn (·.index < g.size) := by
  intro a ha
  obtain ⟨node, hnode⟩ := exists_node_of_lt ha
  exact ⟨node, hnode, fun c hc => hg.child ⟨node, hnode, hc⟩⟩

/-- The parts of a node whose id is in a closed set are in it too. -/
theorem ClosedOn.child {P : TypeId → Prop} (h : g.ClosedOn P)
    {a : TypeId} {node : Node} (ha : P a) (hn : g.node? a = some node) :
    ∀ c ∈ node.kind.children, P c := by
  obtain ⟨node', hn', hc⟩ := h a ha
  rw [hn] at hn'
  cases hn'
  exact hc

/-- A closed set holds ids of the graph only. -/
theorem ClosedOn.lt {P : TypeId → Prop} (h : g.ClosedOn P) {a : TypeId}
    (ha : P a) : a.index < g.size := by
  obtain ⟨node, hn, -⟩ := h a ha
  exact index_lt_of_node? hn

/-- A walk that starts in a closed set stays in it. -/
theorem ClosedOn.reaches {P : TypeId → Prop} (h : g.ClosedOn P)
    {a b : TypeId} (ha : P a) (hab : g.Reaches a b) : P b := by
  induction hab with
  | refl => exact ha
  | step _ hchild ih =>
      obtain ⟨node, hn, hc⟩ := hchild
      exact h.child ih hn _ hc

/-- What holds of every node of a list that is not left holds of all
that is reached from it. -/
theorem forall_reaches_of_list {Q : Node → Prop} {a : TypeId}
    {ids : List TypeId}
    (h : ∀ id ∈ ids, ∃ node ∈ g.node? id,
      (∀ c ∈ node.kind.children, c ∈ ids) ∧ Q node)
    (ha : a ∈ ids) :
    a.index < g.size ∧
      ∀ b node, g.Reaches a b → g.node? b = some node → Q node := by
  have hclosed : g.ClosedOn (· ∈ ids) := by
    intro b hb
    obtain ⟨node, hn, hc, -⟩ := h b hb
    exact ⟨node, hn, hc⟩
  refine ⟨hclosed.lt ha, fun b node hb hn => ?_⟩
  obtain ⟨node', hn', -, hnode⟩ := h b (hclosed.reaches ha hb)
  rw [Option.mem_def, hn, Option.some.injEq] at hn'
  exact hn' ▸ hnode

-- =============================================================== growth

/-- Every node of one graph is in the other, under the same id. -/
def Extends (g g' : Graph) : Prop :=
  ∀ id node, g.node? id = some node → g'.node? id = some node

theorem Extends.refl (g : Graph) : g.Extends g := fun _ _ h => h

/-- Growth adds up. -/
theorem Extends.trans (h : g.Extends g') (h' : g'.Extends g'') :
    g.Extends g'' :=
  fun id node hn => h' id node (h id node hn)

/-- A graph that has grown is no smaller. -/
theorem Extends.size_le (h : g.Extends g') : g.size ≤ g'.size := by
  refine Nat.le_of_not_lt fun hlt => ?_
  -- the first id past the larger graph would have a node in it
  obtain ⟨node, hnode⟩ :=
    exists_node_of_lt (show (TypeId.mk g'.size).index < g.size from hlt)
  exact Nat.lt_irrefl _ (index_lt_of_node? (h _ _ hnode))

/-- An id of the graph is one of the grown graph. -/
theorem Extends.lt (h : g.Extends g') {id : TypeId}
    (hid : id.index < g.size) : id.index < g'.size :=
  Nat.lt_of_lt_of_le hid h.size_le

/-- An id that had a node has the same one. -/
theorem Extends.node?_eq (h : g.Extends g') {id : TypeId}
    (hid : id.index < g.size) : g'.node? id = g.node? id := by
  obtain ⟨node, hnode⟩ := exists_node_of_lt hid
  rw [hnode, h id node hnode]

/-- A graph grows by nodes at its end. -/
theorem extends_iff_prefix :
    g.Extends g' ↔ g.nodes.toList <+: g'.nodes.toList := by
  constructor
  · intro h
    refine List.prefix_iff_getElem?.mpr fun i hi => ?_
    rw [Array.getElem?_toList]
    apply h ⟨i⟩
    unfold node?
    rw [← Array.getElem?_toList, List.getElem?_eq_getElem hi]
  · intro h id node hn
    obtain ⟨rest, hrest⟩ := h
    unfold node? at hn ⊢
    rw [← Array.getElem?_toList] at hn ⊢
    have hlt := (List.getElem?_eq_some_iff.mp hn).1
    rw [← hrest, List.getElem?_append_left hlt, hn]

/-- Ids of a set that have a node have the same one in the other
graph. -/
def AgreesOn (g : Graph) (P : TypeId → Prop) (g' : Graph) : Prop :=
  ∀ id node, P id → g.node? id = some node → g'.node? id = some node

/-- A grown graph agrees with the first on every set. -/
theorem Extends.agreesOn (h : g.Extends g') (P : TypeId → Prop) :
    g.AgreesOn P g' :=
  fun id node _ => h id node

/-- A set is closed in every graph that agrees on it. -/
theorem ClosedOn.agrees {P : TypeId → Prop} (h : g.ClosedOn P)
    (hgg' : g.AgreesOn P g') : g'.ClosedOn P := by
  intro a ha
  obtain ⟨node, hn, hc⟩ := h a ha
  exact ⟨node, hgg' a node ha hn, hc⟩

/-- Graphs that agree on a closed set look up the same on it. -/
theorem AgreesOn.node?_eq {P : TypeId → Prop} (h : g.ClosedOn P)
    (hgg' : g.AgreesOn P g') {id : TypeId} (hid : P id) :
    g'.node? id = g.node? id := by
  obtain ⟨node, hn, -⟩ := h id hid
  rw [hn, hgg' id node hid hn]

/-- On a closed set, agreement holds both ways: the other graph has no
nodes there that the first one lacks. -/
theorem AgreesOn.symm {P : TypeId → Prop} (h : g.ClosedOn P)
    (hgg' : g.AgreesOn P g') : g'.AgreesOn P g := by
  intro id node hid hn
  rw [← hgg'.node?_eq h hid]
  exact hn

/-- A closed set stays closed when the graph grows. -/
theorem ClosedOn.extends {P : TypeId → Prop} (h : g.ClosedOn P)
    (hgg' : g.Extends g') : g'.ClosedOn P :=
  h.agrees (hgg'.agreesOn P)

/-- What is reached in a graph is reached in a larger one. -/
theorem Reaches.extends {a b : TypeId} (h : g.Reaches a b)
    (hgg' : g.Extends g') : g'.Reaches a b := by
  induction h with
  | refl => exact .refl
  | step _ hchild ih =>
      obtain ⟨node, hn, hc⟩ := hchild
      exact ih.step ⟨node, hgg' _ _ hn, hc⟩

/-- From an id of a closed set, a larger graph reaches no more. -/
theorem Reaches.of_extends {P : TypeId → Prop} (hP : g.ClosedOn P)
    (hgg' : g.Extends g') {a b : TypeId} (ha : P a)
    (h : g'.Reaches a b) : g.Reaches a b := by
  induction h with
  | refl => exact .refl
  | step _ hchild ih =>
      obtain ⟨node, hn, hc⟩ := hchild
      obtain ⟨node', hn', -⟩ := hP _ (hP.reaches ha ih)
      rw [hgg' _ _ hn'] at hn
      cases hn
      exact ih.step ⟨_, hn', hc⟩

-- ========================================================= construction

/-- The graph is closed, and its first nodes are the builtin types. -/
structure WellFormed (g : Graph) : Prop where
  closed : g.Closed
  builtins : Graph.builtin.nodes.toList <+: g.nodes.toList

instance (g : Graph) : Decidable g.WellFormed :=
  decidable_of_iff
    (g.Closed ∧ Graph.builtin.nodes.toList <+: g.nodes.toList)
    ⟨fun h => ⟨h.1, h.2⟩, fun h => ⟨h.closed, h.builtins⟩⟩

/-- A well formed graph has grown from the builtin types. -/
theorem WellFormed.extends_builtin (hg : g.WellFormed) :
    Graph.builtin.Extends g :=
  extends_iff_prefix.mpr hg.builtins

theorem WellFormed.node?_anydata (hg : g.WellFormed) :
    g.node? .anydata = some (.anonymous (.leaf .anydata)) :=
  hg.extends_builtin _ _ rfl

theorem WellFormed.node?_nil (hg : g.WellFormed) :
    g.node? .nil = some (.anonymous (.leaf .nil)) :=
  hg.extends_builtin _ _ rfl

/-- A closed graph that has grown from the builtin types is well formed. -/
theorem WellFormed.of_extends (hclosed : g.Closed)
    (hbuiltin : Graph.builtin.Extends g) : g.WellFormed :=
  ⟨hclosed, extends_iff_prefix.mp hbuiltin⟩

/-- Builtin types have nodes. -/
theorem WellFormed.builtin_lt (hg : g.WellFormed) {id : TypeId}
    (h : id.isBuiltin = true) : id.index < g.size :=
  hg.extends_builtin.lt (by
    rw [size_builtin]
    simpa [TypeId.isBuiltin] using h)

end TypeParams.Graph
