/-
Matching: inferring type parameters from a declared and an actual type.
Where the declared type has a marker, the actual type opposite it is what
the parameter is bound to; where the parameter is bound already, the two
are compared. A declared type is followed once in a match, however often
it is met, and no deeper than the settings allow.

`matchStep` is one level of it, given what to do a level further down;
`matchTypes` goes down as many levels as there are.
-/
import TypeParams.Bindings
import TypeParams.Marker
import TypeParams.Matching.Plan
import TypeParams.Workspace

namespace TypeParams.Matching

/-- What a match does not change. -/
structure Context where
  checker : Checker
  config : Config
  span : Span

structure State where
  work : Workspace
  env : Bindings
  /-- The declared types followed so far, latest first. -/
  visited : List TypeId := []
  deriving DecidableEq

abbrev MatchM := EStateM Fault State

/-- An action on the workspace. -/
def onWork {α : Type} (action : WorkM α) : MatchM α := fun s =>
  match action s.work with
  | .ok a work => .ok a { s with work }
  | .error fault work => .error fault { s with work }

-- ============================================================= markers

/-- Whether a type agrees with what a parameter is bound to. Where it is
a parameter's, the two have to be the same. -/
def Context.compatible (ctx : Context) (variance : Variance)
    (bound actual : TypeId) (g : Graph) : Except Fault Bool :=
  match variance with
  | .covariant => ctx.checker.assignable g actual bound
  | .contravariant => ctx.checker.sameType g bound actual

/-- Reports that nothing says what a marker stands for. -/
def reportUninferred (ctx : Context) (marker : TypeId) : MatchM Unit :=
  onWork (.report ctx.config ctx.span fun g =>
    return .uninferred (← g.render marker))

/-- A marker meets an actual type: it is bound to it, or compared with
what it is bound to. A missing type binds nothing. -/
def bindMarker (ctx : Context) (marker : TypeId) (key : MarkerKey)
    (actual : TypeId) (variance : Variance) : MatchM Unit := do
  match (← get).env.lookup? key with
  | none =>
      if actual = .noType then reportUninferred ctx marker
      else
        onWork (.tell fun g => return .bound key (← g.render actual))
        modify fun s => { s with env := s.env.add ⟨key, marker, actual⟩ }
  | some bound =>
      if actual ≠ .noType then
        let compatible ←
          onWork (.inspect (ctx.compatible variance bound actual))
        if !compatible then
          onWork (.tell fun g =>
            return .rejected key (← g.render bound) (← g.render actual)
              variance)
          onWork (.report ctx.config ctx.span fun g =>
            return .mismatch (← g.render marker)
              (← g.render bound) (← g.render actual))

/-- The markers that a type mentions and that have a name, each with
what it is known by. -/
def keyedMarkers (g : Graph) (id : TypeId) :
    Except Fault (List (MarkerKey × TypeId)) := do
  return (← g.markers id).filterMap fun marker =>
    ((g.node? marker).bind (·.markerKey?)).map (·, marker)

/-- The first of the markers that are known by the same. -/
def firstOfEachKey :
    List (MarkerKey × TypeId) → List (MarkerKey × TypeId)
  | [] => []
  | first :: rest =>
      first :: (firstOfEachKey rest).filter (·.1 ≠ first.1)

/-- A type meets a missing one: every marker that it mentions and that
is not bound is reported, once for each parameter. -/
def reportUnbound (ctx : Context) (expected : TypeId) : MatchM Unit := do
  let keyed ← onWork (.inspect (keyedMarkers · expected))
  let env := (← get).env
  for (_, marker) in firstOfEachKey
      (keyed.filter fun (key, _) => !env.contains key) do
    reportUninferred ctx marker

-- ============================================================== levels

/-- Makes the actual type of a pairing. -/
def Source.resolve : Source → WorkM (Option TypeId)
  | .given id => return some id
  | .unionOf ids => return some (← WorkM.unionOf ids)
  | .keyOf table => do
      if let some key := table.key then return some key
      if table.keyFields.isEmpty then return none
      let row ← WorkM.node table.row
      let .record shape := row.kind | return none
      let some fields := table.keyFields.mapM shape.field? | return none
      match fields with
      | [field] => return some field.type
      | fields =>
          return some
            (← WorkM.alloc (.anonymous (.tuple (fields.map (·.type)) none)))

/-- Does what a plan says; `descend` matches a level further down. -/
def followPlan (descend : TypeId → TypeId → Variance → MatchM Unit)
    (expected actual : TypeId) : Plan → MatchM Unit
  | .pairs pairings =>
      pairings.forM fun pairing => do
        if let some actual ← onWork pairing.source.resolve then
          descend pairing.expected actual pairing.variance
  | .generalUnions => onWork (.tell fun _ => .ok .unionsSkipped)
  | .unpaired =>
      onWork (.tell fun g =>
        return .unpaired (← g.render expected) (← g.render actual))

/-- One level of a match. There is no `descend` at the last level. -/
def matchStep (ctx : Context)
    (descend : Option (TypeId → TypeId → Variance → MatchM Unit))
    (expected actual : TypeId) (variance : Variance) : MatchM Unit := do
  if expected ∈ (← get).visited then
    onWork (.tell fun _ => .ok (.alreadyMatched expected))
  else
    let node ← onWork (.node expected)
    match node.markerKey? with
    | some key => bindMarker ctx expected key actual variance
    | none =>
        if actual = .noType then reportUnbound ctx expected
        else if node.kind.isLeaf then return
        else
          match descend with
          | none =>
              onWork (.reportLimit ctx.config ctx.span .matchingStopped
                expected)
          | some descend =>
              modify fun s =>
                { s with visited := expected :: s.visited }
              let plan ← onWork (.inspect fun g => do
                plan g ctx.checker ctx.config.maxDepth variance expected
                  node.kind actual (← g.kind actual))
              followPlan descend expected actual plan

/-- Matches a declared with an actual type, through so many levels. -/
def matchTypes (ctx : Context) :
    Nat → TypeId → TypeId → Variance → MatchM Unit
  | 0, expected, actual, variance =>
      matchStep ctx none expected actual variance
  | depth + 1, expected, actual, variance =>
      matchStep ctx
        (some fun expected actual variance =>
          matchTypes ctx depth expected actual variance)
        expected actual variance

end TypeParams.Matching
