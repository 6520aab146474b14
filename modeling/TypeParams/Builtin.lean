/-
The builtin types: the nodes that every store begins with, in the order
of their ids.
-/
import TypeParams.Graph

namespace TypeParams

/-- The forms of the builtin types, by id. -/
def builtinKinds : List Kind :=
  [.leaf .noType, .leaf .nil, .leaf .never, .leaf .int, .leaf .float,
   .leaf .decimal, .leaf .string, .leaf .boolean, .leaf .byte, .leaf .any,
   .leaf .anydata, .leaf .readonly,
   .union [.anydata, .readonly],
   .map .detailValue,
   .error .errorDetail,
   .leaf (.xmlItem .element), .leaf (.xmlItem .comment),
   .leaf (.xmlItem .processingInstruction), .leaf (.xmlItem .text),
   .union [.xmlElement, .xmlComment, .xmlProcessingInstruction, .xmlText],
   .xml .xmlItems]

/-- The graph of the builtin types. They have no names. -/
def Graph.builtin : Graph := ⟨(builtinKinds.map Node.anonymous).toArray⟩

theorem Graph.size_builtin : Graph.builtin.size = TypeId.builtinCount :=
  rfl

end TypeParams
