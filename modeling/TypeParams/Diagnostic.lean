/-
Diagnostics: messages for the author of a program, with a severity, and
the log that keeps them in the order they were reported.
-/
import TypeParams.Span

namespace TypeParams

inductive Severity where
  | info
  | warning
  | error
  deriving DecidableEq

/-- A message, where it belongs, and hints on what to do. -/
structure Diagnostic where
  severity : Severity
  message : String
  span : Option Span := none
  suggestions : List String := []
  code : Option String := none
  deriving DecidableEq

namespace Diagnostic

/-- Attaches a span, unless it is the null span. -/
def withSpan (diagnostic : Diagnostic) (span : Span) : Diagnostic :=
  if span.isNull then diagnostic else { diagnostic with span := some span }

def withCode (diagnostic : Diagnostic) (code : String) : Diagnostic :=
  { diagnostic with code := some code }

def withSuggestion (diagnostic : Diagnostic) (suggestion : String) :
    Diagnostic :=
  { diagnostic with
    suggestions := diagnostic.suggestions ++ [suggestion] }

def isError (diagnostic : Diagnostic) : Bool :=
  diagnostic.severity == .error

/-- The same diagnostic with an error made a warning. -/
def softened (diagnostic : Diagnostic) : Diagnostic :=
  if diagnostic.isError then { diagnostic with severity := .warning }
  else diagnostic

/-- One line: the message, the code in brackets, the hints. -/
def text (diagnostic : Diagnostic) : String :=
  let code := diagnostic.code.elim "" fun code => " [" ++ code ++ "]"
  let hints :=
    if diagnostic.suggestions.isEmpty then ""
    else " (hints: " ++ "; ".intercalate diagnostic.suggestions ++ ")"
  diagnostic.message ++ code ++ hints

end Diagnostic

-- ================================================================ log

/-- The diagnostics reported so far, oldest first. -/
structure Log where
  entries : List Diagnostic := []
  deriving DecidableEq

namespace Log

def empty : Log := {}

def report (log : Log) (diagnostic : Diagnostic) : Log :=
  ⟨log.entries ++ [diagnostic]⟩

def size (log : Log) : Nat := log.entries.length

def hasErrors (log : Log) : Bool := log.entries.any (·.isError)

def withCode (log : Log) (code : String) : List Diagnostic :=
  log.entries.filter (·.code == some code)

end Log

end TypeParams
