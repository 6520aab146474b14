/-
Refused operations. Each way an operation can be refused is a
constructor; the wording is in `Error.message`, and `Error.kind` says
what a caller can tell apart.
-/
import TypeParams.TypeId

namespace TypeParams

/-- Why an operation was refused. -/
inductive Error where
  /-- The id has no node. -/
  | unknownType (id : TypeId)
  /-- The id was reserved and has no definition. -/
  | undefined (id : TypeId)
  /-- The nodes belong on a store of another size. -/
  | staleLayer (expected found : Nat)
  /-- The id has its definition. -/
  | alreadyDefined (id : TypeId)
  /-- The layer has not reserved the id, or it has its definition. -/
  | notPendingHere (id : TypeId)
  /-- A function type was called for. -/
  | notFunction (found : String)
  | other (text : String)
  deriving DecidableEq

/-- What a caller can tell apart without reading the message. -/
inductive ErrorKind where
  | unknownType
  | undefined
  | staleLayer
  | generic
  deriving DecidableEq

namespace Error

def kind : Error → ErrorKind
  | .unknownType _ => .unknownType
  | .undefined _ => .undefined
  | .staleLayer .. => .staleLayer
  | .alreadyDefined _ | .notPendingHere _ | .notFunction _ | .other _ =>
      .generic

private def generic (text : String) : String := "Generic error: " ++ text

def message : Error → String
  | .unknownType id => "unknown type id " ++ id.label
  | .undefined id =>
      "type id " ++ id.label ++ " was reserved but never defined"
  | .staleLayer expected found =>
      "local types were allocated against an arena of "
        ++ toString expected ++ " nodes, found " ++ toString found
  | .alreadyDefined id =>
      generic ("type id " ++ id.label ++ " is already defined")
  | .notPendingHere id =>
      generic ("type id " ++ id.label ++ " is not a pending local type")
  | .notFunction found =>
      generic ("expected a function type, found '" ++ found ++ "'")
  | .other text => generic text

end Error

end TypeParams
