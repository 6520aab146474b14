/-
The store of a program's types. Types are added at the end, so an id
means the same for good. An id can be reserved before its node is known,
which is how types that contain themselves are built; until it is
defined it is pending.
-/
import TypeParams.Builtin
import TypeParams.Error

namespace TypeParams

/-- Nodes that a layer has made, taken off it: they belong at the end of
a store of `baseSize` nodes. -/
structure Detached where
  baseSize : Nat
  nodes : Array Node
  deriving DecidableEq

/-- The types of a program. -/
structure Store where
  graph : Graph
  /-- The ids reserved and not yet defined, in ascending order. -/
  pending : List TypeId := []
  deriving DecidableEq

namespace Store

/-- The store that holds the builtin types only. -/
def initial : Store := { graph := .builtin }

def size (store : Store) : Nat := store.graph.size

/-- The id that the next node will get. -/
def nextId (store : Store) : TypeId := ⟨store.size⟩

-- ========================================================= allocation

/-- Adds a node, under a new id. -/
def alloc (store : Store) (node : Node) : TypeId × Store :=
  (store.nextId, { store with graph := ⟨store.graph.nodes.push node⟩ })

/-- Hands out a new id whose node is to be given later. -/
def reserve (store : Store) : TypeId × Store :=
  ( store.nextId,
    { graph := ⟨store.graph.nodes.push (.anonymous (.leaf .noType))⟩
      pending := store.pending ++ [store.nextId] })

/-- Gives a reserved id its node. -/
def define (store : Store) (id : TypeId) (node : Node) :
    Except Error Store :=
  if id ∈ store.pending then
    .ok
      { graph := ⟨store.graph.nodes.setIfInBounds id.index node⟩
        pending := store.pending.erase id }
  else if store.size ≤ id.index then .error (.unknownType id)
  else .error (.alreadyDefined id)

/-- The union of some types. No type at all gives never, and a single
member is that member; otherwise the union is a new type. -/
def unionOf (store : Store) (ids : List TypeId) :
    Except Fault (TypeId × Store) := do
  match ← store.graph.unionMembers ids with
  | [] => return (.never, store)
  | [id] => return (id, store)
  | members => return store.alloc (.anonymous (.union members))

/-- A type or nil. -/
def nilable (store : Store) (id : TypeId) :
    Except Fault (TypeId × Store) :=
  store.unionOf [id, .nil]

/-- Refuses a store in which an id was reserved and not defined,
naming the least such id. -/
def validate (store : Store) : Except Error Unit :=
  match store.pending with
  | [] => .ok ()
  | id :: _ => .error (.undefined id)

-- ============================================================= commit

/-- A store after nodes were added to it, and the ids they got: from
`first`, up to but not including `stop`. -/
structure Commit where
  store : Store
  first : TypeId
  stop : TypeId
  deriving DecidableEq

/-- Adds the nodes of a layer, under the ids they had there. That takes
a store as large as the one that the layer was put on. -/
def commit (store : Store) (detached : Detached) : Except Error Commit :=
  if detached.baseSize = store.size then
    let extended : Store :=
      { store with graph := ⟨store.graph.nodes ++ detached.nodes⟩ }
    .ok ⟨extended, store.nextId, extended.nextId⟩
  else .error (.staleLayer detached.baseSize store.size)

end Store

end TypeParams
