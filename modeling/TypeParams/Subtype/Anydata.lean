/-
Types of data. A type is a type of data when nothing it is made of can
hold anything but data: `Kind.dataParts?` says what has to be data for a
form to be, and a type is one when that never leads to a form that is
not.
-/
import TypeParams.Graph

namespace TypeParams

def Leaf.isData : Leaf → Bool
  | .noType | .any | .readonly => false
  | _ => true

/-- The parts that have to be data for a type of this form to be data;
none if it never is. A table's key and the unnamed fields of an open
record need not be looked at, and xml is data whatever it holds. -/
def Kind.dataParts? : Kind → Option (List TypeId)
  | .leaf form => if form.isData then some [] else none
  | .array element => some [element]
  | .tuple members rest => some (members ++ rest.toList)
  | .map constraint => some [constraint]
  | .record shape =>
      some (shape.fields.map (·.type) ++ shape.rest.toList)
  | .union members => some members
  | .table shape => some [shape.row]
  | .xml _ => some []
  | .error _ | .stream .. | .function _ | .object _ | .typedesc _ => none

namespace Graph

/-- Whether a type that stands inside the given types is data, if they
are. -/
def isDataWithin (g : Graph) (path : List TypeId) (id : TypeId) :
    Except Fault Bool :=
  if _ : id ∈ path then .ok true
  else
    match _ : g.node? id with
    | none => .error (.missing id g.size)
    | some node =>
        match node.kind.dataParts? with
        | none => .ok false
        | some parts => parts.allM fun p => g.isDataWithin (id :: path) p
termination_by remaining (fun _ => 1) g.ids path
decreasing_by exact remaining_ids_lt ‹_› ‹_›

/-- Whether every value of a type is data. -/
def isData (g : Graph) (id : TypeId) : Except Fault Bool :=
  g.isDataWithin [] id

end Graph

end TypeParams
