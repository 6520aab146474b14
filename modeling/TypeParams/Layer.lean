/-
Layers. A layer holds nodes of its own on top of a store that it does
not change; its ids go on where those of the store end. What a layer
shows is `Layer.graph`, the nodes of the store followed by its own, and
the lemmas below say what each operation does to that view.
-/
import TypeParams.Store

namespace TypeParams

/-- Nodes stacked on a store. -/
structure Layer where
  base : Store
  fresh : Array Node := #[]
  /-- The ids this layer reserved and has not defined, in ascending
  order. -/
  pending : List TypeId := []
  deriving DecidableEq

namespace Layer

/-- A layer with no nodes of its own. -/
def on (store : Store) : Layer := { base := store }

def baseSize (layer : Layer) : Nat := layer.base.size

def size (layer : Layer) : Nat := layer.baseSize + layer.fresh.size

/-- Every node that the layer shows, by id. -/
def graph (layer : Layer) : Graph :=
  ⟨layer.base.graph.nodes ++ layer.fresh⟩

def node? (layer : Layer) (id : TypeId) : Option Node :=
  if id.index < layer.baseSize then layer.base.graph.node? id
  else layer.fresh[id.index - layer.baseSize]?

def node (layer : Layer) (id : TypeId) : Except Fault Node :=
  match layer.node? id with
  | some node => .ok node
  | none => .error (.missing id layer.size)

def kind (layer : Layer) (id : TypeId) : Except Fault Kind :=
  return (← layer.node id).kind

/-- Whether an id is beyond those of the store. -/
def isLocal (layer : Layer) (id : TypeId) : Bool :=
  layer.baseSize ≤ id.index

/-- The id that the next node will get. -/
def nextId (layer : Layer) : TypeId := ⟨layer.size⟩

-- ========================================================= allocation

def alloc (layer : Layer) (node : Node) : TypeId × Layer :=
  (layer.nextId, { layer with fresh := layer.fresh.push node })

def reserve (layer : Layer) : TypeId × Layer :=
  ( layer.nextId,
    { layer with
      fresh := layer.fresh.push (.anonymous (.leaf .noType))
      pending := layer.pending ++ [layer.nextId] })

/-- Gives an id that this layer reserved its node. Ids that the store
has pending cannot be defined through a layer. -/
def define (layer : Layer) (id : TypeId) (node : Node) :
    Except Error Layer :=
  if id ∈ layer.pending then
    .ok
      { layer with
        fresh :=
          layer.fresh.setIfInBounds (id.index - layer.baseSize) node
        pending := layer.pending.erase id }
  else if layer.size ≤ id.index then .error (.unknownType id)
  else .error (.notPendingHere id)

/-- The union of some types, as in a store. -/
def unionOf (layer : Layer) (ids : List TypeId) :
    Except Fault (TypeId × Layer) := do
  match ← layer.graph.unionMembers ids with
  | [] => return (.never, layer)
  | [id] => return (id, layer)
  | members => return layer.alloc (.anonymous (.union members))

/-- A type or nil. -/
def nilable (layer : Layer) (id : TypeId) :
    Except Fault (TypeId × Layer) :=
  layer.unionOf [id, .nil]

/-- Takes the layer's own nodes off the store. -/
def detach (layer : Layer) : Detached := ⟨layer.baseSize, layer.fresh⟩

-- =========================================================== the view

@[simp] theorem graph_on (store : Store) :
    (Layer.on store).graph = store.graph := by
  simp [on, graph]

@[simp] theorem size_graph (layer : Layer) :
    layer.graph.size = layer.size := by
  simp [graph, Graph.size, size, baseSize, Store.size]

theorem node?_graph (layer : Layer) (id : TypeId) :
    layer.graph.node? id = layer.node? id := by
  simp only [Graph.node?, graph, Array.getElem?_append]
  rfl

theorem node_graph (layer : Layer) (id : TypeId) :
    layer.graph.node id = layer.node id := by
  simp only [Graph.node, node?_graph, size_graph]
  rfl

theorem kind_graph (layer : Layer) (id : TypeId) :
    layer.graph.kind id = layer.kind id := by
  simp only [Graph.kind, node_graph]
  rfl

theorem graph_alloc (layer : Layer) (node : Node) :
    (layer.alloc node).2.graph = ⟨layer.graph.nodes.push node⟩ := by
  simp [alloc, graph]

theorem graph_reserve (layer : Layer) :
    layer.reserve.2.graph
      = ⟨layer.graph.nodes.push (.anonymous (.leaf .noType))⟩ := by
  simp [reserve, graph]

end Layer

end TypeParams
