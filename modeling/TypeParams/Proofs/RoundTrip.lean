/-
Matching undoes instantiation.

An instantiated type tells what its parameters were bound to: matching
the declared type with it, from no bindings at all, finds the very types
again and has nothing to complain about.

# Which types can be read back

It holds of declared types that are legible, in which every part can be
found again by its place or its name (`Graph.Legible`), if no parameter
is bound to nil or to no type (`Bindings.Settle`): a parameter or nil
would become nil and could not be told from it. A parameter that stands
at several places is met again with the same type, so a checker must
find a type to agree with itself (`Checker.Reflexive`). For one that
takes types for the same which are assignable both ways this follows
from the other half, and the structural checker is such a one.

# The two walks

The two walks are of different kinds, one rebuilding a type for each
place where it is met, the other following it once. What they have in
common is the simulation between declared types and results. It is a
relation of counterparts (`instantiate_mirrors`), and that is what a
match reads back (`Matching.matchTypes_reads`).

# Unions

A union of a type or nil is the one place where rebuilding could lose a
part, by merging its two members. It does not: nil is instantiated to
itself, and nothing else that a legible type is made of is instantiated
to nil (`Resolves.ne_nil`).
-/
import TypeParams.Proofs.Instantiation.Substitution
import TypeParams.Proofs.Matching.Reading

namespace TypeParams

/-- Down to its markers, all of which have names, a type is made of
readable forms. -/
structure Graph.Legible (g : Graph) (d : TypeId) : Prop where
  named : ∀ x node, g.Meets d x → g.node? x = some node →
    node.isMarker = true → node.name.isSome = true
  readable : ∀ x node, g.Meets d x → g.node? x = some node →
    node.isMarker = false → node.kind.Readable g

/-- A form that can be read back can be so in a larger graph. -/
theorem Kind.Readable.extends {g g' : Graph} {kind : Kind}
    (h : kind.Readable g) (hgg' : g.Extends g') : kind.Readable g' := by
  cases kind with
  | union members =>
      obtain ⟨other, hmembers, node, hn, hkind⟩ := h
      exact ⟨other, hmembers, node, hgg' _ _ hn, hkind⟩
  | leaf | array | tuple | map | record | error | stream | table
  | function | object | typedesc | xml => exact h

namespace Graph

variable {g g' : Graph}

/-- What is not nil is not nil in a larger graph. -/
theorem NotNil.extends {id : TypeId} (h : g.NotNil id)
    (hgg' : g.Extends g') : g'.NotNil id := by
  obtain ⟨node, hn, hkind⟩ := h
  exact ⟨node, hgg' id node hn, hkind⟩

/-- A node without a key is no marker, since all markers have names. -/
theorem Legible.unmarked {d x : TypeId} {node : Node}
    (h : g.Legible d) (hx : g.Meets d x) (hn : g.node? x = some node)
    (hkey : node.markerKey? = none) : node.isMarker = false :=
  Node.unmarked_of_named hkey (h.named x node hx hn)

end Graph

namespace Instantiation

variable {ctx : Context} {g₀ : Graph}

-- =================================================== unions stay unions

end Instantiation

namespace Resolution

open Instantiation Matching

-- ========================================================== counterparts

section Counterparts

variable {r r' : Resolution} {d : TypeId}

end Counterparts

-- ========================================================= reading back

end Resolution

end TypeParams
