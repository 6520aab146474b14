/-
Nodes of a type graph: a kind, and what a program says of the type
besides: its name, the scope that declares it, whether it is a type
parameter.
-/
import TypeParams.Kind
import TypeParams.Scope

namespace TypeParams

structure Flags where
  /-- The type is a type parameter's marker. -/
  parameterized : Bool := false
  readonly : Bool := false
  deriving DecidableEq

/-- A type as the graph holds it. -/
structure Node where
  kind : Kind
  name : Option String := none
  scope : ScopeId := .root
  flags : Flags := {}
  deriving DecidableEq

namespace Node

def anonymous (kind : Kind) : Node := { kind }

def named (name : String) (scope : ScopeId) (kind : Kind) : Node :=
  { kind, name := some name, scope }

/-- A type parameter's marker. Its kind is a witness: a form that types
bound to the parameter are known to have. -/
def marker (name : String) (scope : ScopeId) (witness : Kind) : Node :=
  { kind := witness, name := some name, scope
    flags := { parameterized := true } }

def isMarker (node : Node) : Bool := node.flags.parameterized

/-- What the parameter is known by, if the node is a marker with a
name. -/
def markerKey? (node : Node) : Option MarkerKey :=
  if node.isMarker then node.name.map fun name => ⟨node.scope, name⟩
  else none

/-- Whether the node is a union that nobody gave a name. -/
def isUnnamedUnion (node : Node) : Bool :=
  node.name.isNone && node.kind.unionMembers?.isSome

end Node

end TypeParams
