/-
The markers of a type: the type parameters that it mentions. A walk
starts at the type and goes on to the parts of what it meets, but not
past a marker. It keeps a list of the ids still to be looked at; the
parts of a type are put in front, so a type is finished before what
stands behind it.
-/
import TypeParams.Graph

namespace TypeParams.Graph

def childrenOf (g : Graph) (id : TypeId) : List TypeId :=
  (g.node? id).elim [] (·.kind.children)

/-- What a walk has left to do: the ids in its list, and whatever those
it has not visited may put there. -/
def walkWork (g : Graph) (visited todo : List TypeId) : Nat :=
  remaining (fun id => (g.childrenOf id).length + 1) g.ids visited
    + todo.length

theorem walkWork_cons (g : Graph) (visited todo : List TypeId)
    (id : TypeId) :
    g.walkWork visited todo < g.walkWork visited (id :: todo) := by
  simp [walkWork]

theorem walkWork_visit {g : Graph} {id : TypeId} {node : Node}
    {visited : List TypeId} (todo : List TypeId)
    (hn : g.node? id = some node) (hv : id ∉ visited) :
    g.walkWork (id :: visited) (node.kind.children ++ todo)
      < g.walkWork visited (id :: todo) := by
  have hmem : id ∈ g.ids := mem_ids.mpr (index_lt_of_node? hn)
  have := remaining_cons_add_le
    (fun id => (g.childrenOf id).length + 1) hmem hv
  simp only [childrenOf, hn, Option.elim_some] at this
  simp only [walkWork, List.length_append, List.length_cons, childrenOf]
  omega

/-- Whether the walk that has still to look at `todo` meets a marker. It
stops at the first. -/
def containsMarkerFrom (g : Graph) (visited todo : List TypeId) :
    Except Fault Bool :=
  match todo with
  | [] => .ok false
  | id :: todo =>
      match _ : g.node? id with
      | none => .error (.missing id g.size)
      | some node =>
          if node.isMarker then .ok true
          else if _ : id ∈ visited then g.containsMarkerFrom visited todo
          else
            g.containsMarkerFrom (id :: visited)
              (node.kind.children ++ todo)
termination_by g.walkWork visited todo
decreasing_by
  · exact walkWork_cons ..
  · exact walkWork_visit _ ‹_› ‹_›

/-- The markers that the walk meets after those of `found`, each listed
where it was met first. -/
def markersFrom (g : Graph) (found visited todo : List TypeId) :
    Except Fault (List TypeId) :=
  match todo with
  | [] => .ok found
  | id :: todo =>
      match _ : g.node? id with
      | none => .error (.missing id g.size)
      | some node =>
          if node.isMarker then
            g.markersFrom (if id ∈ found then found else found ++ [id])
              visited todo
          else if _ : id ∈ visited then g.markersFrom found visited todo
          else
            g.markersFrom found (id :: visited)
              (node.kind.children ++ todo)
termination_by g.walkWork visited todo
decreasing_by
  · exact walkWork_cons ..
  · exact walkWork_cons ..
  · exact walkWork_visit _ ‹_› ‹_›

/-- Whether a type mentions a type parameter. -/
def containsMarker (g : Graph) (id : TypeId) : Except Fault Bool :=
  g.containsMarkerFrom [] [id]

/-- The type parameters that a type mentions, in the order in which
they are met. -/
def markers (g : Graph) (id : TypeId) : Except Fault (List TypeId) :=
  g.markersFrom [] [] [id]

end TypeParams.Graph
