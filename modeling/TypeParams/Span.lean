/-
Source spans: where in a program something was written.
-/
namespace TypeParams

/-- A stretch of a source file. -/
structure Span where
  file : Nat
  lo : Nat
  hi : Nat
  deriving DecidableEq

namespace Span

/-- The span of what was written nowhere: builtin types, types that
inference makes. -/
def null : Span := ⟨0, 0, 0⟩

def isNull (span : Span) : Bool := span == null

def label (span : Span) : String :=
  "Span(" ++ toString span.file ++ ":" ++ toString span.lo ++ "-"
    ++ toString span.hi ++ ")"

end Span

end TypeParams
