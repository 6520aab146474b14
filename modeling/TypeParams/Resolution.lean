/-
The resolution of one call: type parameters are inferred argument by
argument, and declared types instantiated with what was inferred. A
resolution has a layer of its own on the store of declared types, so the
store does not change; what it made can be committed when it is done.
-/
import TypeParams.Instantiation
import TypeParams.Matching

namespace TypeParams

structure Resolution where
  checker : Checker
  config : Config
  types : Layer
  env : Bindings := {}
  journal : Journal := {}

/-- Actions on a resolution. A fault does not undo what was done before
it. -/
abbrev ResolveM := EStateM Fault Resolution

/-- What a finished resolution hands back. -/
structure Outcome where
  env : Bindings
  diagnostics : List Diagnostic
  hasErrors : Bool
  detached : Detached
  deriving DecidableEq

/-- The declared and the actual types that meet in a call, in order.
Arguments left out are missing types, and arguments past the parameters
meet the rest parameter, if there is one. -/
def Signature.argumentPairs (signature : Signature) (args : List TypeId) :
    List (TypeId × TypeId) :=
  let further := args.drop signature.params.length
  signature.params.zip args
    ++ (signature.params.drop args.length).map (·, .noType)
    ++ signature.rest.toList.flatMap fun rest => further.map (rest, ·)

/-- How many arguments of a call meet no parameter. -/
def Signature.ignoredCount (signature : Signature) (args : List TypeId) :
    Nat :=
  if signature.rest.isSome then 0
  else args.length - signature.params.length

namespace Resolution

/-- Starts resolving a call, over the declared types of a store. -/
def begin (checker : Checker) (config : Config) (store : Store)
    (listening : Bool) : Resolution :=
  { checker, config, types := .on store, journal := { listening } }

def workspace (resolution : Resolution) : Workspace :=
  { types := resolution.types, journal := resolution.journal }

/-- Takes over what a walk has left behind. -/
def withWork (resolution : Resolution) (work : Workspace) : Resolution :=
  { resolution with types := work.types, journal := work.journal }

/-- An action on the workspace. -/
def onWork {α : Type} (action : WorkM α) : ResolveM α := fun r =>
  match action r.workspace with
  | .ok a work => .ok a (r.withWork work)
  | .error fault work => .error fault (r.withWork work)

-- ============================================================== binding

/-- Matches a declared with an actual type. -/
def matchArgument (declared actual : TypeId) (span : Span) :
    ResolveM Unit := fun r =>
  let ctx : Matching.Context := ⟨r.checker, r.config, span⟩
  let start : Matching.State := { work := r.workspace, env := r.env }
  match Matching.matchTypes ctx r.config.maxDepth declared actual
      .covariant start with
  | .ok () s => .ok () { r.withWork s.work with env := s.env }
  | .error fault s =>
      .error fault { r.withWork s.work with env := s.env }

/-- Infers the parameters that a declared type mentions from the type
of an argument, the missing type if it was left out. A declared type
that mentions none is not looked at any further. -/
def bindArgument (declared actual : TypeId) (span : Span) :
    ResolveM Unit := do
  if ← onWork (.inspect (·.containsMarker declared)) then
    matchArgument declared actual span

/-- The signature of a function type, or the refusal of any other
type. -/
def signature (id : TypeId) : ResolveM (Except Error Signature) :=
  onWork do
    let node ← WorkM.node id
    match node.kind with
    | .function signature => return .ok signature
    | _ =>
        return .error (.notFunction (← WorkM.inspect (·.render id)))

/-- Infers the parameters of a function type from all arguments of a
call. -/
def bindCall (id : TypeId) (args : List TypeId) (span : Span) :
    ResolveM (Except Error Unit) := do
  match ← signature id with
  | .error error => return .error error
  | .ok signature =>
      for (declared, actual) in signature.argumentPairs args do
        bindArgument declared actual span
      let ignored := signature.ignoredCount args
      if 0 < ignored then
        onWork (.tell fun g =>
          return .argumentsIgnored ignored (← g.render id))
      return .ok ()

-- ======================================================== instantiating

/-- The type that a declared type stands for. -/
def instantiate (declared : TypeId) (span : Span) : ResolveM TypeId :=
  fun r =>
    let ctx : Instantiation.Context := ⟨r.env, r.config, span⟩
    let start : Instantiation.State := { work := r.workspace }
    match Instantiation.resolve ctx r.config.maxDepth declared start with
    | .ok id s => .ok id (r.withWork s.work)
    | .error fault s => .error fault (r.withWork s.work)

/-- The function type that a declared function type stands for. -/
def instantiateSignature (id : TypeId) :
    ResolveM (Except Error TypeId) := do
  match ← signature id with
  | .error error => return .error error
  | .ok _ => return .ok (← instantiate id .null)

-- ============================================================== results

/-- What the parameter of a marker is bound to. -/
def boundType? (resolution : Resolution) (marker : TypeId) :
    Except Fault (Option TypeId) := do
  let node ← resolution.types.node marker
  return node.markerKey?.bind resolution.env.lookup?

def diagnostics (resolution : Resolution) : List Diagnostic :=
  resolution.journal.log.entries

def hasErrors (resolution : Resolution) : Bool :=
  resolution.journal.log.hasErrors

/-- The events told since they were last taken. -/
def takeEvents (resolution : Resolution) : List Event × Resolution :=
  ( resolution.journal.events,
    { resolution with journal := { resolution.journal with events := [] } })

def finish (resolution : Resolution) : Outcome where
  env := resolution.env
  diagnostics := resolution.diagnostics
  hasErrors := resolution.hasErrors
  detached := resolution.types.detach

end Resolution

end TypeParams
