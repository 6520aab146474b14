/-
Ids of types. A type is a node of a graph and is named by its position
there, so an id is a number. The first ids are the same in every graph:
the builtin types, whose ids are the constants below.
-/
namespace TypeParams

/-- The position of a type's node. An id is only a name: nothing says
that a graph has a node for it. -/
structure TypeId where
  index : Nat
  deriving DecidableEq

namespace TypeId

/-- How an id is written: its index after a number sign. -/
def label (id : TypeId) : String := "#" ++ toString id.index

-- ======================================================= builtin ids

/-- Stands for a type that is not there, such as that of an argument
left out. -/
def noType : TypeId := ⟨0⟩
def nil : TypeId := ⟨1⟩
def never : TypeId := ⟨2⟩
def int : TypeId := ⟨3⟩
def float : TypeId := ⟨4⟩
def decimal : TypeId := ⟨5⟩
def string : TypeId := ⟨6⟩
def boolean : TypeId := ⟨7⟩
def byte : TypeId := ⟨8⟩
def any : TypeId := ⟨9⟩
def anydata : TypeId := ⟨10⟩
def readonly : TypeId := ⟨11⟩
/-- `anydata|readonly`, what the top error's detail may hold. -/
def detailValue : TypeId := ⟨12⟩
/-- `map<anydata|readonly>`, the top error's detail. -/
def errorDetail : TypeId := ⟨13⟩
/-- The error type that every error type is assignable to. -/
def error : TypeId := ⟨14⟩
def xmlElement : TypeId := ⟨15⟩
def xmlComment : TypeId := ⟨16⟩
def xmlProcessingInstruction : TypeId := ⟨17⟩
def xmlText : TypeId := ⟨18⟩
/-- The union of the four kinds of xml item. -/
def xmlItems : TypeId := ⟨19⟩
/-- A sequence of any xml items. -/
def xml : TypeId := ⟨20⟩

/-- How many builtin types there are. -/
def builtinCount : Nat := 21

def isBuiltin (id : TypeId) : Bool := id.index < builtinCount

end TypeId

end TypeParams
