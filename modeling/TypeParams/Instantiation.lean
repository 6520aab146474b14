/-
Instantiation: the type that a declared type stands for once its
parameters are bound. A declared type that mentions a parameter is
rebuilt with the bindings in its place; so is any other type with parts,
except xml and the top error type. A declared type met inside itself is
not rebuilt again: it gets an id there and then, which is defined when
the rebuilding of the outer one is done.

`resolveStep` is one level of it, given what to do with the parts;
`resolve` goes down as many levels as there are.
-/
import TypeParams.Bindings
import TypeParams.Marker
import TypeParams.Workspace

namespace TypeParams.Instantiation

/-- What an instantiation does not change. -/
structure Context where
  env : Bindings
  config : Config
  span : Span

/-- A declared type that is being rebuilt, and the id of the result if
it was already needed. -/
structure Frame where
  declared : TypeId
  slot : Option TypeId := none
  deriving DecidableEq

structure State where
  work : Workspace
  /-- The declared types being rebuilt, innermost first. -/
  frames : List Frame := []
  deriving DecidableEq

abbrev InstantiateM := EStateM Fault State

/-- An action on the workspace. -/
def onWork {α : Type} (action : WorkM α) : InstantiateM α := fun s =>
  match action s.work with
  | .ok a work => .ok a { s with work }
  | .error fault work => .error fault { s with work }

-- ============================================================== cycles

/-- The id of a type that is being rebuilt, handing it out if nobody
has asked before. -/
def cycleSlot (declared : TypeId) : InstantiateM TypeId := fun s =>
  match (s.frames.find? (·.declared == declared)).bind (·.slot) with
  | some id => .ok id s
  | none =>
      let (id, types) := s.work.types.reserve
      let frames := s.frames.map fun frame =>
        if frame.declared = declared then { frame with slot := some id }
        else frame
      .ok id { work := { s.work with types }, frames }

def enter (declared : TypeId) : InstantiateM Unit :=
  modify fun s => { s with frames := { declared } :: s.frames }

/-- Ends the innermost rebuilding and gives the id that was handed out
for its result, if one was. -/
def leave : InstantiateM (Option TypeId) := fun s =>
  match s.frames with
  | [] => .ok none s
  | frame :: frames => .ok frame.slot { s with frames }

/-- Gives the result its node: under the id handed out for it, or a new
one. -/
def place (slot : Option TypeId) (node : Node) : WorkM TypeId := do
  match slot with
  | none => .alloc node
  | some id =>
      match (← get).types.define id node with
      | .ok types => modify fun w => { w with types }
      | .error error =>
          WorkM.tell fun _ => .ok (.cycleNotClosed id error)
      return id

-- ============================================================== levels

/-- Whether a type mentions a type parameter. -/
def containsMarker (id : TypeId) : WorkM Bool :=
  .inspect (·.containsMarker id)

/-- Whether a type stands for itself: it has no parts, or is the top
error type, or xml that mentions no parameter. -/
def standsForItself (id : TypeId) : Kind → WorkM Bool
  | .leaf _ => return true
  | .error _ => return id = .error
  | .xml _ => return !(← containsMarker id)
  | _ => return false

/-- Whether the rebuilt type has the name of the declared one: it does
if it is a mere copy. -/
def keepsName (id : TypeId) (node : Node) : WorkM Bool := do
  if node.name.isSome then return !(← containsMarker id)
  else return false

/-- The form of a declared type over other parts. Members of a union
that have become the same are one. -/
def rebuiltKind (kind : Kind) (parts : List TypeId) : Kind :=
  match kind.withChildren parts with
  | .union members => .union members.eraseDups
  | kind => kind

/-- The node of a rebuilt type. It is never a marker. -/
def rebuiltNode (declared : Node) (keepsName : Bool)
    (parts : List TypeId) : Node where
  kind := rebuiltKind declared.kind parts
  name := if keepsName then declared.name else none
  scope := if keepsName then declared.scope else .root
  flags := { declared.flags with parameterized := false }

/-- Rebuilds a declared type; `descend` gives the types that its parts
stand for. A union left with one member is that member, unless the
union itself has been referred to. -/
def rebuild (descend : TypeId → InstantiateM TypeId) (declared : TypeId)
    (node : Node) : InstantiateM TypeId := do
  let keepsName ← onWork (keepsName declared node)
  enter declared
  let parts ← node.kind.children.mapM descend
  let slot ← leave
  let rebuilt := rebuiltNode node keepsName parts
  match slot, rebuilt.kind with
  | none, .union [member] => return member
  | slot, _ => onWork (place slot rebuilt)

/-- One level of an instantiation. There is no `descend` at the last
level. -/
def resolveStep (ctx : Context)
    (descend : Option (TypeId → InstantiateM TypeId))
    (declared : TypeId) : InstantiateM TypeId := do
  let node ← onWork (.node declared)
  if let some key := node.markerKey? then
    return (ctx.env.lookup? key).getD .noType
  else if (← get).frames.any (·.declared == declared) then
    onWork (.tell fun _ => .ok (.cycleMet declared))
    cycleSlot declared
  else if ← onWork (standsForItself declared node.kind) then
    return declared
  else
    match descend with
    | some descend => rebuild descend declared node
    | none =>
        onWork (.reportLimit ctx.config ctx.span .instantiationStopped
          declared)
        return declared

/-- The type that a declared type stands for, looking through so many
levels of it. A parameter that is not bound stands for no type. -/
def resolve (ctx : Context) : Nat → TypeId → InstantiateM TypeId
  | 0, declared => resolveStep ctx none declared
  | depth + 1, declared =>
      resolveStep ctx (some fun part => resolve ctx depth part) declared

end TypeParams.Instantiation
