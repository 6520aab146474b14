/-
Types as text. A named type is written by its name, except where it is
itself what is asked for; an unnamed type is written out, and where it
would have to be written inside itself stands `...`.

Parts are written in order, so of several ids without a node the first
one met decides the fault. An id without a node can be written (as
invalid), but not where something follows that a union would need
parentheses for: there its node has to be looked at.
-/
import TypeParams.Graph

namespace TypeParams

def XmlItem.label : XmlItem → String
  | .element => "xml:Element"
  | .comment => "xml:Comment"
  | .processingInstruction => "xml:ProcessingInstruction"
  | .text => "xml:Text"

def Leaf.label : Leaf → String
  | .noType => "<no type>"
  | .nil => "()"
  | .never => "never"
  | .int => "int"
  | .float => "float"
  | .decimal => "decimal"
  | .string => "string"
  | .boolean => "boolean"
  | .byte => "byte"
  | .any => "any"
  | .anydata => "anydata"
  | .readonly => "readonly"
  | .xmlItem item => item.label

/-- What a declaration of the method starts with. -/
def Method.heading (method : Method) : String :=
  match method.resource with
  | some resource =>
      "resource function " ++ resource.accessor ++ " "
        ++ "/".intercalate resource.path
  | none => "function " ++ method.name

/-- The name that stands for a node in a text. At the top a type is
written out, but a marker has nothing else to be written as. -/
def Node.shownName? (node : Node) (top : Bool) : Option String :=
  node.name.filter fun _ => !top || node.isMarker

namespace Graph

-- ==================================================== forms, by parts

section Forms

variable (g : Graph) (child : TypeId → Except Fault String)

/-- A part that something is written behind: an unnamed union gets
parentheses. -/
def atomText (id : TypeId) : Except Fault String := do
  let text ← child id
  let node ← g.node id
  return if node.isUnnamedUnion then "(" ++ text ++ ")" else text

/-- The type of all further members, if there is one. -/
def restTexts (rest : Option TypeId) : Except Fault (List String) :=
  rest.toList.mapM fun id => return (← g.atomText child id) ++ "..."

def tupleText (members : List TypeId) (rest : Option TypeId) :
    Except Fault String := do
  let members ← members.mapM child
  let rest ← g.restTexts child rest
  return "[" ++ ", ".intercalate (members ++ rest) ++ "]"

def recordText (record : RecordType) : Except Fault String := do
  let fields ← record.fields.mapM fun field => do
    let type ← child field.type
    return (if field.readonly then "readonly " else "") ++ type ++ " "
      ++ field.name ++ (if field.optional then "?;" else ";")
  let rest ← g.restTexts child record.rest
  let parts := fields ++ rest.map (· ++ ";")
  let bar := if record.isSealed || record.rest.isSome then "|" else ""
  let body := if parts.isEmpty then "" else " " ++ " ".intercalate parts ++ " "
  return "record \x7b" ++ bar ++ body ++ bar ++ "\x7d"

/-- A union with nil of one other type is that type with a question
mark. -/
def unionText (id : TypeId) (members : List TypeId) :
    Except Fault String := do
  match ← g.withoutNil? id with
  | some inner => return (← g.atomText child inner) ++ "?"
  | none => return "|".intercalate (← members.mapM child)

def tableText (table : TableType) : Except Fault String := do
  let row ← child table.row
  match table.key with
  | some key =>
      return "table<" ++ row ++ "> key<" ++ (← child key) ++ ">"
  | none =>
      return "table<" ++ row ++ ">"
        ++ (if table.keyFields.isEmpty then ""
            else " key(" ++ ", ".intercalate table.keyFields ++ ")")

/-- Parameters and result; the result nil is not written. -/
def signatureText (signature : Signature) : Except Fault String := do
  let params ← signature.params.mapM child
  let rest ← g.restTexts child signature.rest
  let head := "(" ++ ", ".intercalate (params ++ rest) ++ ")"
  if signature.result = .nil then return head
  else return head ++ " returns " ++ (← child signature.result)

def methodText (method : Method) : Except Fault String := do
  let signature ←
    match ← g.kind method.type with
    | .function signature => g.signatureText child signature
    | _ => pure ("(" ++ (← child method.type) ++ ")")
  return method.heading ++ signature ++ ";"

def objectText (object : ObjectType) : Except Fault String := do
  let fields ← object.fields.mapM fun field =>
    return (← child field.type) ++ " " ++ field.name ++ ";"
  let methods ← object.methods.mapM (g.methodText child)
  let parts := fields ++ methods
  if parts.isEmpty then return "object \x7b\x7d"
  else return "object \x7b " ++ " ".intercalate parts ++ " \x7d"

/-- The text of a type from the texts of its parts. -/
def kindText (id : TypeId) : Kind → Except Fault String
  | .leaf leaf => .ok leaf.label
  | .array element => return (← g.atomText child element) ++ "[]"
  | .tuple members rest => g.tupleText child members rest
  | .map constraint => return "map<" ++ (← child constraint) ++ ">"
  | .record record => g.recordText child record
  | .union members => g.unionText child id members
  | .error detail =>
      if id = .error then .ok "error"
      else return "error<" ++ (← child detail) ++ ">"
  | .stream constraint (some completion) =>
      return "stream<" ++ (← child constraint) ++ ", "
        ++ (← child completion) ++ ">"
  | .stream constraint none =>
      return "stream<" ++ (← child constraint) ++ ">"
  | .table table => tableText child table
  | .function signature => do
      let text ← g.signatureText child signature
      return (if signature.isolated then "isolated " else "")
        ++ "function " ++ text
  | .object object => g.objectText child object
  | .typedesc constraint =>
      return "typedesc<" ++ (← child constraint) ++ ">"
  | .xml constraint =>
      if id = .xml ∨ constraint = .xmlItems then .ok "xml"
      else return "xml<" ++ (← child constraint) ++ ">"

end Forms

-- ========================================================= whole types

/-- The text of a type that stands inside the given types. -/
def renderWithin (g : Graph) (path : List TypeId) (top : Bool)
    (id : TypeId) : Except Fault String :=
  match _ : g.node? id with
  | none => .ok ("<invalid " ++ id.label ++ ">")
  | some node =>
      match node.shownName? top with
      | some name => .ok name
      | none =>
          if _ : id ∈ path then .ok "..."
          else
            g.kindText (fun c => g.renderWithin (id :: path) false c)
              id node.kind
termination_by remaining (fun _ => 1) g.ids path
decreasing_by exact remaining_ids_lt ‹_› ‹_›

/-- The text of a type. -/
def render (g : Graph) (id : TypeId) : Except Fault String :=
  g.renderWithin [] true id

end Graph

end TypeParams
