/-
Type graphs. A graph is a row of nodes; an id names the node at its
position. Ids inside nodes may lead anywhere, also back, and also to no
node at all. Looking such an id up is a `Fault`, and ends what was being
computed. So is asking for all members of a union that is a member of
itself: one would not come to an end.

Walks over a graph that keep the ids they are inside of stop because a
graph has finitely many ids (`Graph.remaining_ids_lt`).
-/
import TypeParams.Node
import TypeParams.Remaining

namespace TypeParams

/-- Why there is no result. -/
inductive Fault where
  /-- An id was looked up that has no node; `size` is how many nodes
  there were. -/
  | missing (id : TypeId) (size : Nat)
  /-- The members of a union lead back to it, and a walk that goes from
  member to member has no end. -/
  | endless (id : TypeId)
  deriving DecidableEq

def Fault.message : Fault → String
  | .missing id size =>
      "type id " ++ id.label ++ " out of range (" ++ toString size
        ++ " nodes)"
  | .endless id => "union " ++ id.label ++ " is a member of itself"

/-- The nodes that ids are looked up in. -/
structure Graph where
  nodes : Array Node
  deriving DecidableEq

namespace Graph

def size (g : Graph) : Nat := g.nodes.size

def node? (g : Graph) (id : TypeId) : Option Node := g.nodes[id.index]?

/-- The node of an id that must have one. -/
def node (g : Graph) (id : TypeId) : Except Fault Node :=
  match g.node? id with
  | some node => .ok node
  | none => .error (.missing id g.size)

def kind (g : Graph) (id : TypeId) : Except Fault Kind :=
  return (← g.node id).kind

/-- The ids that have a node, in ascending order. -/
def ids (g : Graph) : List TypeId := (List.range g.size).map TypeId.mk

theorem index_lt_of_node? {g : Graph} {id : TypeId} {node : Node}
    (h : g.node? id = some node) : id.index < g.size :=
  (Array.getElem?_eq_some_iff.mp h).1

theorem mem_ids {g : Graph} {id : TypeId} :
    id ∈ g.ids ↔ id.index < g.size := by
  constructor
  · intro h
    obtain ⟨i, hi, rfl⟩ := List.mem_map.mp h
    exact List.mem_range.mp hi
  · intro h
    exact List.mem_map.mpr ⟨id.index, List.mem_range.mpr h, rfl⟩

/-- Entering a node that one is not yet inside of leaves fewer to
enter. -/
theorem remaining_ids_lt {g : Graph} {id : TypeId} {node : Node}
    {path : List TypeId} (h : g.node? id = some node) (hp : id ∉ path) :
    remaining (fun _ => 1) g.ids (id :: path)
      < remaining (fun _ => 1) g.ids path :=
  remaining_cons_lt (mem_ids.mpr (index_lt_of_node? h)) hp

-- ==================================================== forms of unions

def isNil (g : Graph) (id : TypeId) : Except Fault Bool :=
  return (← g.kind id) == .leaf .nil

/-- The other member of a union of two members one of which is nil. The
second member is looked at first. -/
def withoutNil? (g : Graph) (id : TypeId) :
    Except Fault (Option TypeId) := do
  match ← g.kind id with
  | .union [a, b] =>
      if ← g.isNil b then return some a
      if ← g.isNil a then return some b
      return none
  | _ => return none

/-- Whether a type met inside the given unions is an error type, or a
union of one or more members all of which are. Members are taken in
order up to the first that is not. A union met again inside itself would
be gone through again, and again: there is no answer. -/
def onlyErrorsWithin (g : Graph) (path : List TypeId) (id : TypeId) :
    Except Fault Bool :=
  match _ : g.node? id with
  | none => .error (.missing id g.size)
  | some node =>
      if _ : id ∈ path then .error (.endless id)
      else
        match node.kind with
        | .error _ => .ok true
        | .union members =>
            if members.isEmpty then .ok false
            else members.allM fun m => g.onlyErrorsWithin (id :: path) m
        | _ => .ok false
termination_by remaining (fun _ => 1) g.ids path
decreasing_by exact remaining_ids_lt ‹_› ‹_›

/-- Whether a type is an error type or a union of error types only. -/
def onlyErrors (g : Graph) (id : TypeId) : Except Fault Bool :=
  g.onlyErrorsWithin [] id

/-- What a type contributes to a union it becomes a member of: the
members of an unnamed union, itself otherwise. -/
def unionParts (g : Graph) (id : TypeId) : Except Fault (List TypeId) := do
  let node ← g.node id
  match node.kind with
  | .union members =>
      return if node.name.isNone && !node.isMarker then members else [id]
  | _ => return [id]

/-- The members of the union of some types: unnamed unions among them
give way to their members, and each id is kept where it comes first. -/
def unionMembers (g : Graph) (ids : List TypeId) :
    Except Fault (List TypeId) :=
  return (← ids.mapM g.unionParts).flatten.eraseDups

end Graph

end TypeParams
