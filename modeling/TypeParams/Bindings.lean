/-
What the type parameters of a call are bound to. The first binding of a
parameter stands: nothing takes it back.
-/
import TypeParams.Scope
import TypeParams.TypeId

namespace TypeParams

/-- A parameter, the marker it was met at, and the type it is bound
to. -/
structure Binding where
  key : MarkerKey
  marker : TypeId
  bound : TypeId
  deriving DecidableEq

/-- Bindings, oldest first. -/
structure Bindings where
  entries : List Binding := []
  deriving DecidableEq

namespace Bindings

def empty : Bindings := {}

def size (env : Bindings) : Nat := env.entries.length

/-- What a parameter is bound to. -/
def lookup? (env : Bindings) (key : MarkerKey) : Option TypeId :=
  (env.entries.find? (·.key == key)).map (·.bound)

/-- What the first parameter of that name is bound to, whatever its
scope. -/
def lookupName? (env : Bindings) (name : String) : Option TypeId :=
  (env.entries.find? (·.key.name == name)).map (·.bound)

def contains (env : Bindings) (key : MarkerKey) : Bool :=
  (env.lookup? key).isSome

def add (env : Bindings) (binding : Binding) : Bindings :=
  ⟨env.entries ++ [binding]⟩

@[simp] theorem lookup?_empty (key : MarkerKey) :
    empty.lookup? key = none := rfl

/-- A new binding is seen where there was none. -/
theorem lookup?_add (env : Bindings) (binding : Binding)
    (key : MarkerKey) :
    (env.add binding).lookup? key
      = (env.lookup? key).or
          (if binding.key = key then some binding.bound else none) := by
  by_cases h : binding.key = key <;>
    simp [lookup?, add, List.find?_append, h]

end Bindings

end TypeParams
