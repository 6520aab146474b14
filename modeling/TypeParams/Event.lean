/-
Trace events: what inference tells of its course to whoever listens. An
event is a cause; its level and wording are decided here. Types are
given as they were written when the event happened.
-/
import TypeParams.Scope
import TypeParams.Store

namespace TypeParams

/-- Which way types are compared where a marker stands. -/
inductive Variance where
  | covariant
  /-- In a parameter of a function type. -/
  | contravariant
  deriving DecidableEq

def Variance.label : Variance → String
  | .covariant => "Covariant"
  | .contravariant => "Contravariant"

inductive EventLevel where
  | trace
  | debug
  | warn
  | error
  deriving DecidableEq

inductive Event where
  /-- A declared type was met again in the same argument. -/
  | alreadyMatched (expected : TypeId)
  | bound (key : MarkerKey) (type : String)
  | rejected (key : MarkerKey) (held actual : String)
      (variance : Variance)
  /-- Unions met that are not both a type or nil. -/
  | unionsSkipped
  | unpaired (expected actual : String)
  | matchingStopped (depth : Nat)
  | cycleMet (declared : TypeId)
  | instantiationStopped (depth : Nat)
  | cycleNotClosed (id : TypeId) (error : Error)
  | argumentsIgnored (count : Nat) (signature : String)
  /-- Nodes were added to a store: ids from `first`, before `stop`. -/
  | committed (first stop : TypeId)
  deriving DecidableEq

namespace Event

/-- The event of nodes having been added to a store. -/
def ofCommit (commit : Store.Commit) : Event :=
  .committed commit.first commit.stop

def level : Event → EventLevel
  | .bound .. | .rejected .. => .debug
  | .matchingStopped _ | .instantiationStopped _ => .warn
  | .cycleNotClosed .. => .error
  | .alreadyMatched _ | .unionsSkipped | .unpaired .. | .cycleMet _
  | .argumentsIgnored .. | .committed .. => .trace

def message : Event → String
  | .alreadyMatched expected =>
      "already matched " ++ expected.label ++ ", skipping"
  | .bound key type =>
      "bound type parameter " ++ key.name ++ " to " ++ type
  | .rejected key held actual variance =>
      "type parameter " ++ key.name ++ " bound to " ++ held
        ++ " rejects " ++ actual ++ " (" ++ variance.label ++ ")"
  | .unionsSkipped => "general union matching is not supported, skipping"
  | .unpaired expected actual =>
      "no structural pairing for " ++ expected ++ " against " ++ actual
  | .matchingStopped depth =>
      "type parameter matching stopped at depth " ++ toString depth
  | .cycleMet declared =>
      "cycle through " ++ declared.label ++ " while instantiating"
  | .instantiationStopped depth =>
      "type parameter instantiation stopped at depth " ++ toString depth
  | .cycleNotClosed id error =>
      "failed to close instantiated cycle at " ++ id.label ++ ": "
        ++ error.message
  | .argumentsIgnored count signature =>
      toString count ++ " arguments past the end of '" ++ signature
        ++ "' ignored"
  | .committed first stop =>
      "committed local types " ++ first.label ++ ".." ++ stop.label

end Event

end TypeParams
