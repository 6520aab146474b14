/-
Scopes and marker keys. A scope stands for what declares a named type (a
module, a function); a type parameter is known by the scope that declares
it together with its name, so two functions may both have a `T`.
-/
namespace TypeParams

/-- A scope, by its position among those declared. -/
structure ScopeId where
  value : Nat
  deriving DecidableEq

namespace ScopeId

/-- The scope of builtin types and of types that inference makes. -/
def root : ScopeId := ⟨0⟩

def label (scope : ScopeId) : String := "scope#" ++ toString scope.value

end ScopeId

-- ============================================================ scopes

/-- The scopes declared so far, by name, the root scope first. -/
structure Scopes where
  names : List String

namespace Scopes

def initial : Scopes := ⟨["<root>"]⟩

/-- A new scope. Names need not differ: the scope is the position. -/
def declare (scopes : Scopes) (name : String) : ScopeId × Scopes :=
  (⟨scopes.names.length⟩, ⟨scopes.names ++ [name]⟩)

def name? (scopes : Scopes) (scope : ScopeId) : Option String :=
  scopes.names[scope.value]?

def size (scopes : Scopes) : Nat := scopes.names.length

end Scopes

-- ======================================================= marker keys

/-- What a type parameter is known by. -/
structure MarkerKey where
  scope : ScopeId
  name : String
  deriving DecidableEq

namespace MarkerKey

/-- Keys are ordered by scope, and within a scope by name, code point
by code point. -/
def le (a b : MarkerKey) : Bool :=
  a.scope.value < b.scope.value
    || a.scope == b.scope && decide (a.name ≤ b.name)

/-- The keys in ascending order, with repetitions. -/
def sort (keys : List MarkerKey) : List MarkerKey :=
  keys.mergeSort le

end MarkerKey

end TypeParams
