/-
Ids, keys, spans and diagnostics as plain data, and back. Where numbers
are in range reading undoes writing; it refuses numbers that are not,
fields of the wrong sort, and structures that lack a field that must be
there.
-/
import TypeParams.Datum
import TypeParams.Diagnostic
import TypeParams.Scope
import TypeParams.TypeId

namespace TypeParams

/-- One more than the largest id, scope or offset. -/
private def wordLimit : Nat := UInt32.size

/-- One more than the largest file number. -/
private def fileLimit : Nat := UInt64.size

namespace TypeId

def encode (id : TypeId) : Datum := .ofNat id.index

def decode? (datum : Datum) : Option TypeId :=
  (datum.nat? wordLimit).map TypeId.mk

end TypeId

namespace ScopeId

def encode (scope : ScopeId) : Datum := .ofNat scope.value

def decode? (datum : Datum) : Option ScopeId :=
  (datum.nat? wordLimit).map ScopeId.mk

end ScopeId

namespace Datum

/-- A name is a structure with one field. -/
def ofName (name : String) : Datum := .object [("name", .text name)]

def name? (datum : Datum) : Option String := do
  let [name] ← datum.structure? ["name"] | none
  (← name).text?

end Datum

namespace MarkerKey

def encode (key : MarkerKey) : Datum :=
  .object [("scope", key.scope.encode), ("name", .ofName key.name)]

def decode? (datum : Datum) : Option MarkerKey := do
  let [scope, name] ← datum.structure? ["scope", "name"] | none
  return ⟨← ScopeId.decode? (← scope), ← (← name).name?⟩

end MarkerKey

namespace Span

def encode (span : Span) : Datum :=
  .object
    [("file", .ofNat span.file), ("lo", .ofNat span.lo),
     ("hi", .ofNat span.hi)]

def decode? (datum : Datum) : Option Span := do
  let [file, lo, hi] ← datum.structure? ["file", "lo", "hi"] | none
  return ⟨← (← file).nat? fileLimit, ← (← lo).nat? wordLimit,
    ← (← hi).nat? wordLimit⟩

end Span

namespace Severity

def label : Severity → String
  | .info => "Info"
  | .warning => "Warning"
  | .error => "Error"

def encode (severity : Severity) : Datum := .text severity.label

def ofLabel? (label : String) : Option Severity :=
  [info, warning, error].find? (·.label == label)

/-- A severity is its label, or an object that has the label for its
only field and null in it. -/
def decode? : Datum → Option Severity
  | .text label => ofLabel? label
  | .object [(label, .null)] => ofLabel? label
  | _ => none

end Severity

namespace Diagnostic

def encode (diagnostic : Diagnostic) : Datum :=
  .object
    [("level", diagnostic.severity.encode),
     ("message", .text diagnostic.message),
     ("span", .ofOption Span.encode diagnostic.span),
     ("suggestions", .ofTexts diagnostic.suggestions),
     ("code", .ofOption Datum.text diagnostic.code)]

def decode? (datum : Datum) : Option Diagnostic := do
  let [level, message, span, suggestions, code] ←
    datum.structure? ["level", "message", "span", "suggestions", "code"]
    | none
  return {
    severity := ← Severity.decode? (← level)
    message := ← (← message).text?
    span := ← Datum.optional? Span.decode? span
    suggestions := ← (← (← suggestions).list?).mapM (·.text?)
    code := ← Datum.optional? Datum.text? code }

end Diagnostic

end TypeParams
