/-
What matching and instantiation work on and leave behind: the layer they
add types to, the diagnostics, and, if somebody listens, the events.

An action of `WorkM` may run into a fault. What it did before stays
done, so the events up to the fault are not lost. An event is put into
words only if somebody listens, and putting it into words can itself be
what runs into a fault.
-/
import TypeParams.Config
import TypeParams.Event
import TypeParams.Layer
import TypeParams.Problem
import TypeParams.Render

namespace TypeParams

/-- What has been told so far. -/
structure Journal where
  log : Log := {}
  /-- Whether somebody listens to events. -/
  listening : Bool := false
  /-- The events since they were last taken, oldest first. -/
  events : List Event := []
  deriving DecidableEq

structure Workspace where
  types : Layer
  journal : Journal
  /-- Whether the present walk has told that it met its last level. -/
  limitReported : Bool := false
  deriving DecidableEq

/-- Actions on a workspace. -/
abbrev WorkM := EStateM Fault Workspace

namespace WorkM

/-- Computes something from the types as they are. -/
def inspect {α : Type} (f : Graph → Except Fault α) : WorkM α := fun w =>
  match f w.types.graph with
  | .ok a => .ok a w
  | .error fault => .error fault w

def node (id : TypeId) : WorkM Node := fun w =>
  match w.types.node id with
  | .ok node => .ok node w
  | .error fault => .error fault w

/-- Adds a node, under a new id. -/
def alloc (node : Node) : WorkM TypeId := fun w =>
  let (id, types) := w.types.alloc node
  .ok id { w with types }

/-- The union of some types. -/
def unionOf (ids : List TypeId) : WorkM TypeId := fun w =>
  match w.types.unionOf ids with
  | .ok (id, types) => .ok id { w with types }
  | .error fault => .error fault w

-- ============================================================= telling

/-- Tells an event, if somebody listens. -/
def tell (event : Graph → Except Fault Event) : WorkM Unit := fun w =>
  if w.journal.listening then
    match event w.types.graph with
    | .ok event =>
        .ok () { w with
          journal :=
            { w.journal with events := w.journal.events ++ [event] } }
    | .error fault => .error fault w
  else .ok () w

/-- Reports a problem, in lossy settings as a warning at most. -/
def report (config : Config) (span : Span)
    (problem : Graph → Except Fault Problem) : WorkM Unit := do
  let problem ← inspect problem
  let diagnostic := problem.diagnostic span
  let diagnostic :=
    if config.lossy then diagnostic.softened else diagnostic
  modify fun w =>
    { w with
      journal := { w.journal with log := w.journal.log.report diagnostic } }

/-- Tells and reports, once in a walk, that a type lies below the last
level that is followed. -/
def reportLimit (config : Config) (span : Span)
    (event : Nat → Event) (id : TypeId) : WorkM Unit := do
  if !(← get).limitReported then
    modify fun w => { w with limitReported := true }
    tell fun _ => .ok (event config.maxDepth)
    report config span fun g =>
      return .tooDeep (← g.render id) config.maxDepth

end WorkM

end TypeParams
