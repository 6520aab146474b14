/-
What inference reports. A `Problem` is a cause; its severity, code and
wording are decided here and nowhere else. None of them stops inference.
-/
import TypeParams.Diagnostic

namespace TypeParams

/-- The three sorts of problem, each with a code of its own. -/
inductive ProblemKind where
  | uninferred
  | mismatch
  | tooDeep
  deriving DecidableEq

namespace ProblemKind

def code : ProblemKind → String
  | .uninferred => "E-TP001"
  | .mismatch => "E-TP002"
  | .tooDeep => "W-TP003"

def severity : ProblemKind → Severity
  | .uninferred => .error
  | .mismatch => .error
  | .tooDeep => .warning

/-- The sort of problem that a diagnostic was made for, by its code. -/
def of? (diagnostic : Diagnostic) : Option ProblemKind :=
  [uninferred, mismatch, tooDeep].find? fun kind =>
    diagnostic.code == some kind.code

end ProblemKind

/-- A problem met while inferring type parameters. Types are given as
they are written. -/
inductive Problem where
  /-- No argument says what the parameter stands for. -/
  | uninferred (parameter : String)
  /-- The parameter is bound to a type that a later argument does not
  agree with. -/
  | mismatch (parameter bound actual : String)
  /-- The type lies below the last level that is followed. -/
  | tooDeep (type : String) (limit : Nat)
  deriving DecidableEq

namespace Problem

def kind : Problem → ProblemKind
  | .uninferred .. => .uninferred
  | .mismatch .. => .mismatch
  | .tooDeep .. => .tooDeep

private def quoted (text : String) : String := "'" ++ text ++ "'"

def message : Problem → String
  | .uninferred parameter =>
      "cannot infer type for type parameter " ++ quoted parameter
  | .mismatch parameter bound actual =>
      "incompatible types for type parameter " ++ quoted parameter
        ++ ": expected " ++ quoted bound ++ ", found " ++ quoted actual
  | .tooDeep type limit =>
      "type " ++ quoted type ++ " is nested deeper than "
        ++ toString limit
        ++ " levels; type parameters below it are ignored"

def suggestions : Problem → List String
  | .uninferred parameter =>
      ["provide an argument that determines " ++ quoted parameter]
  | _ => []

/-- The diagnostic for a problem met at a span. -/
def diagnostic (problem : Problem) (span : Span) : Diagnostic :=
  Diagnostic.withSpan
    { severity := problem.kind.severity
      message := problem.message
      suggestions := problem.suggestions
      code := some problem.kind.code }
    span

end Problem

end TypeParams
