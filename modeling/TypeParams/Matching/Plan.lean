/-
What matching does with a declared and an actual type that meet. The
answer is a `Plan`: which parts of the declared type meet which types
next, and which way they are compared. An actual type may first have to
be made from several; a `Source` says how.
-/
import TypeParams.Checker
import TypeParams.Event

namespace TypeParams.Matching

/-- Where the actual type of a pairing comes from. -/
inductive Source where
  | given (id : TypeId)
  | unionOf (ids : List TypeId)
  /-- The type of a table's key, if it has one that is known. -/
  | keyOf (table : TableType)
  deriving DecidableEq

/-- A part of a declared type and the type that it meets. -/
structure Pairing where
  expected : TypeId
  source : Source
  variance : Variance
  deriving DecidableEq

/-- What follows when two types meet. -/
inductive Plan where
  /-- These pairings, in order. -/
  | pairs (pairings : List Pairing)
  /-- Nothing: two unions that are not both a type or nil. -/
  | generalUnions
  /-- Nothing: the forms have no parts that stand for each other. -/
  | unpaired
  deriving DecidableEq

-- =================================================== types in a union

/-- What a member contributes to the elements of a union that meets an
array. -/
def elementTypes : Kind → List TypeId
  | .array element => [element]
  | .tuple members rest => members ++ rest.toList
  | .map constraint => [constraint]
  | .record shape => shape.valueTypes
  | _ => []

/-- The constraint and the completion of a stream that says nothing of
one. -/
def streamParts? : Kind → Option (TypeId × TypeId)
  | .stream constraint completion =>
      some (constraint, completion.getD .nil)
  | _ => none

variable (g : Graph)

/-- What an xml sequence of xml sequences of … holds, looking at most
so many sequences deep. -/
def xmlContent : Nat → TypeId → Except Fault TypeId
  | 0, id => do
      let _ ← g.kind id
      return id
  | depth + 1, id => do
      match ← g.kind id with
      | .xml constraint => xmlContent depth constraint
      | _ => return id

/-- What a member contributes to a union that meets an xml sequence. -/
def xmlTypes (depth : Nat) (id : TypeId) : Except Fault (List TypeId) := do
  match ← g.kind id with
  | .xml constraint => return [← xmlContent g depth constraint]
  | .leaf (.xmlItem _) => return [id]
  | _ => return []

-- ==================================================== records as maps

variable (checker : Checker)

/-- Adds a type, unless one that is the same is there. -/
def addDistinct (types : List TypeId) (id : TypeId) :
    Except Fault (List TypeId) := do
  if ← types.anyM fun type => checker.sameType g type id then return types
  else return types ++ [id]

/-- The type that a record's unnamed fields add to a map's: none if it
has no values. -/
def mapRest? (record : RecordType) : Except Fault (Option TypeId) := do
  match record.restType with
  | none => return none
  | some rest =>
      match ← g.kind rest with
      | .leaf .never | .leaf .noType => return none
      | _ => return some rest

/-- What the values of a record seen as a map are: the types of its
fields and of the unnamed ones, without those that another covers. -/
def mapConstraint (record : RecordType) : Except Fault Source := do
  let rest ← mapRest? g record
  let types ← record.fields.foldlM
    (fun types field => do
      let covered ←
        match rest with
        | some rest => checker.assignable g field.type rest
        | none => pure false
      if covered then return types
      else addDistinct g checker types field.type)
    []
  let types ← rest.toList.foldlM (addDistinct g checker) types
  match types with
  | [type] => return .given type
  | types => return .unionOf types

-- ============================================================== plans

/-- Pairs a part with an actual type that is there. -/
def pair (variance : Variance) (expected actual : TypeId) : Pairing :=
  ⟨expected, .given actual, variance⟩

/-- Pairs a part with the union of what was found, if anything was. -/
def pairUnion (variance : Variance) (expected : TypeId)
    (found : List TypeId) : Plan :=
  .pairs (if found.isEmpty then []
    else [⟨expected, .unionOf found, variance⟩])

/-- Pairs fields with those of the same name. -/
def pairFields (variance : Variance) (fields actual : List Field) :
    List Pairing :=
  fields.filterMap fun field =>
    (actual.find? (·.name == field.name)).map fun other =>
      pair variance field.type other.type

def pairMethods (variance : Variance) (methods : List Method)
    (actual : ObjectType) : List Pairing :=
  methods.filterMap fun method =>
    (actual.method? method.name).map fun other =>
      pair variance method.type other.type

/-- Pairs rest types, where both have one. -/
def pairRests (variance : Variance) (rest actual : Option TypeId) :
    List Pairing :=
  (rest.toList.zip actual.toList).map fun (rest, actual) =>
    pair variance rest actual

/-- Parameters are compared the other way round, whichever way the
functions are. -/
def pairSignatures (signature actual : Signature) : List Pairing :=
  signature.params.zipWith (pair .contravariant) actual.params
    ++ pairRests .contravariant signature.rest actual.rest
    ++ [pair .covariant signature.result actual.result]

/-- A stream meets a union: the streams among the members count as one
stream of all they hold. -/
def planStreamUnion (variance : Variance) (constraint : TypeId)
    (completion : Option TypeId) (members : List TypeId) :
    Except Fault Plan := do
  let streams := (← members.mapM g.kind).filterMap streamParts?
  if streams.isEmpty then return .pairs []
  else
    return .pairs
      (⟨constraint, .unionOf (streams.map (·.1)), variance⟩
        :: completion.toList.map fun completion =>
          ⟨completion, .unionOf (streams.map (·.2)), variance⟩)

/-- A declared error type meets anything. The top error type has
nothing to infer. -/
def planError (variance : Variance) (expected detail actual : TypeId)
    (actualKind : Kind) : Except Fault Plan := do
  if expected = .error then return .pairs []
  else
    match actualKind with
    | .error actualDetail =>
        return .pairs [pair variance detail actualDetail]
    | .union _ =>
        if ← g.onlyErrors actual then
          return .pairs [pair variance detail .errorDetail]
        else return .unpaired
    | _ => return .unpaired

/-- What follows when a declared type of a kind with parts meets an
actual type. -/
def plan (maxDepth : Nat) (variance : Variance) (expected : TypeId)
    (kind : Kind) (actual : TypeId) (actualKind : Kind) :
    Except Fault Plan :=
  match kind, actualKind with
  | .array element, .array actualElement =>
      return .pairs [pair variance element actualElement]
  | .array element, .tuple members rest =>
      return .pairs
        [⟨element, .unionOf (members ++ rest.toList), variance⟩]
  | .array element, .union members => do
      let kinds ← members.mapM g.kind
      return pairUnion variance element (kinds.flatMap elementTypes)
  | .map constraint, .map actualConstraint =>
      return .pairs [pair variance constraint actualConstraint]
  | .map constraint, .record shape =>
      return .pairs
        [⟨constraint, ← mapConstraint g checker shape, variance⟩]
  | .stream constraint completion,
    .stream actualConstraint actualCompletion =>
      return .pairs
        (pair variance constraint actualConstraint
          :: completion.toList.map fun completion =>
            pair variance completion (actualCompletion.getD .nil))
  | .stream constraint completion, .union members =>
      planStreamUnion g variance constraint completion members
  | .table shape, .table actualShape =>
      return .pairs
        (pair variance shape.row actualShape.row
          :: shape.key.toList.map fun key =>
            ⟨key, .keyOf actualShape, variance⟩)
  | .tuple members rest, .tuple actualMembers actualRest =>
      return .pairs
        (members.zipWith (pair variance) actualMembers
          ++ pairRests variance rest actualRest)
  | .union _, .union _ => do
      let inner ← g.withoutNil? expected
      let actualInner ← g.withoutNil? actual
      match inner, actualInner with
      | some inner, some actualInner =>
          return .pairs [pair variance inner actualInner]
      | _, _ => return .generalUnions
  | .record shape, .record actualShape =>
      return .pairs (pairFields variance shape.fields actualShape.fields)
  | .function signature, .function actualSignature =>
      return .pairs (pairSignatures signature actualSignature)
  | .object shape, .object actualShape =>
      return .pairs
        (pairFields variance shape.fields actualShape.fields
          ++ pairMethods variance shape.methods actualShape)
  | .error detail, actualKind =>
      planError g variance expected detail actual actualKind
  | .xml constraint, .xml actualConstraint =>
      return .pairs
        [pair variance constraint (← xmlContent g maxDepth actualConstraint)]
  | .xml constraint, .leaf (.xmlItem _) =>
      return .pairs [pair variance constraint actual]
  | .xml constraint, .union members => do
      let found ← members.mapM (xmlTypes g maxDepth)
      return pairUnion variance constraint found.flatten
  | .typedesc constraint, .typedesc actualConstraint =>
      return .pairs [pair variance constraint actualConstraint]
  | _, _ => return .unpaired

end TypeParams.Matching
