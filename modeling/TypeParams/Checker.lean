/-
What inference asks about types that meet: a `Checker` decides which
types may stand for which. The structural one is what a program wants;
inference itself takes any.
-/
import TypeParams.Subtype.Search

namespace TypeParams

/-- Whether two types have the same id, or each is assignable to the
other. -/
def bothWays (assignable : Graph → TypeId → TypeId → Except Fault Bool)
    (g : Graph) (a b : TypeId) : Except Fault Bool :=
  if a = b then .ok true
  else do
    if ← assignable g a b then assignable g b a else return false

/-- What may stand for what. -/
structure Checker where
  /-- Whether a value of the source type may stand where one of the
  target type is expected. -/
  assignable : Graph → TypeId → TypeId → Except Fault Bool
  /-- Whether two types stand for the same values. A checker may have an
  answer of its own. -/
  sameType : Graph → TypeId → TypeId → Except Fault Bool :=
    bothWays assignable

namespace Checker

/-- Types are assignable by their structure. -/
def structural : Checker where
  assignable := Graph.assignable

/-- Every type is assignable to every other. -/
def always : Checker where
  assignable _ _ _ := .ok true

/-- Just the listed pairs, source first, are assignable. -/
def listed (pairs : Pairs) : Checker where
  assignable _ source target := .ok ((source, target) ∈ pairs)

end Checker

end TypeParams
