/-
When one type is assignable to another, in one step. The answer is a
`Rule`: premises all of which, or one of which, must hold. A premise is
a fact, or says that two other types are related, or something of the
source as a whole. Premises are in the order in which they are tried.
-/
import TypeParams.Node

namespace TypeParams

/-- Something that must hold for two types to be related. -/
inductive Premise where
  | fact (holds : Bool)
  /-- A value of the source may stand for one of the target. -/
  | sub (source target : TypeId)
  /-- Every value of the type is data. -/
  | data (id : TypeId)
  /-- The type is not one of errors only. -/
  | notOnlyErrors (id : TypeId)
  deriving DecidableEq

/-- What relates two types. -/
inductive Rule where
  | all (premises : List Premise)
  | any (premises : List Premise)
  deriving DecidableEq

/-- The rule of types that are related, or not, without more ado. -/
def Rule.decided (holds : Bool) : Rule := .all [.fact holds]

namespace Premise

/-- A part that the target has a type for, if it has one. -/
def into (target : Option TypeId) (source : TypeId) : Premise :=
  target.elim (fact false) (sub source)

/-- A part that the source has a type for, if it has one. -/
def outOf (source : Option TypeId) (target : TypeId) : Premise :=
  source.elim (fact false) (sub · target)

end Premise

-- ================================================= premises, by shape

/-- Members stand opposite members, and those left over opposite the
target's rest type. -/
def tuplePremises (members : List TypeId) (rest : Option TypeId)
    (targets : List TypeId) (targetRest : Option TypeId) :
    List Premise :=
  if members.length < targets.length then [.fact false]
  else
    members.zipWith .sub targets
      ++ (members.drop targets.length).map (.into targetRest)
      ++ rest.toList.map (.into targetRest)

namespace RecordType

/-- What a record must have for a field of the target: the field, not
optional where the target's is not. An optional field may be
missing. -/
def fieldPremises (record : RecordType) (target : Field) :
    List Premise :=
  match record.field? target.name with
  | some field =>
      [.fact (!field.optional || target.optional),
       .sub field.type target.type]
  | none => [.fact target.optional]

/-- Fields of the target are found by name; all others fall under its
rest type. -/
def recordPremises (record target : RecordType) : List Premise :=
  let others :=
    record.fields.filter fun field => (target.field? field.name).isNone
  target.fields.flatMap record.fieldPremises
    ++ others.map (fun field => .into target.restType field.type)
    ++ record.restType.toList.map (.into target.restType)

/-- Every field's type, and that of the fields without a name. -/
def valueTypes (record : RecordType) : List TypeId :=
  record.fields.map (·.type) ++ record.restType.toList

/-- A map has any field or none, so the target may insist on none. -/
def mapPremises (target : RecordType) (constraint : TypeId) :
    List Premise :=
  target.fields.flatMap (fun field =>
      [.fact field.optional, .sub constraint field.type])
    ++ [.into target.restType constraint]

end RecordType

/-- Parameters are taken the other way round. -/
def Signature.premises (signature target : Signature) : List Premise :=
  [.fact (signature.isolated || !target.isolated),
   .fact (signature.params.length == target.params.length)]
    ++ target.params.zipWith .sub signature.params
    ++ target.rest.toList.map (.into signature.rest)
    ++ [.sub signature.result target.result]

/-- The target's fields and methods are found by name. -/
def ObjectType.premises (object target : ObjectType) : List Premise :=
  target.fields.map (fun field =>
      .outOf ((object.field? field.name).map (·.type)) field.type)
    ++ target.methods.map (fun method =>
      .outOf ((object.method? method.name).map (·.type)) method.type)

/-- Keys have to agree where both tables have a key type. -/
def TableType.premises (table target : TableType) : List Premise :=
  .sub table.row target.row
    :: match table.key, target.key with
       | some key, some targetKey => [.sub key targetKey]
       | _, _ => []

/-- The premises for a type of a form other than a union to be
assignable to one of a form other than a union or a leaf. -/
def Kind.premises (source target : TypeId) : Kind → Kind → List Premise
  | .array element, .array targetElement => [.sub element targetElement]
  | .tuple members rest, .array targetElement =>
      (members ++ rest.toList).map (.sub · targetElement)
  | .tuple members rest, .tuple targets targetRest =>
      tuplePremises members rest targets targetRest
  | .array element, .tuple targets targetRest =>
      [.fact targets.isEmpty, .into targetRest element]
  | .map constraint, .map targetConstraint =>
      [.sub constraint targetConstraint]
  | .record shape, .map targetConstraint =>
      shape.valueTypes.map (.sub · targetConstraint)
  | .record shape, .record targetShape =>
      shape.recordPremises targetShape
  | .map constraint, .record targetShape =>
      targetShape.mapPremises constraint
  | .error detail, .error targetDetail =>
      if target = .error then [] else [.sub detail targetDetail]
  | .stream constraint completion,
    .stream targetConstraint targetCompletion =>
      [.sub constraint targetConstraint,
       .sub (completion.getD .nil) (targetCompletion.getD .nil)]
  | .table shape, .table targetShape => shape.premises targetShape
  | .function signature, .function targetSignature =>
      signature.premises targetSignature
  | .object shape, .object targetShape => shape.premises targetShape
  | .typedesc constraint, .typedesc targetConstraint =>
      [.sub constraint targetConstraint]
  | .xml constraint, .xml targetConstraint =>
      [.sub constraint targetConstraint]
  | .leaf (.xmlItem _), .xml targetConstraint =>
      [.sub source targetConstraint]
  | _, _ => [.fact false]

-- ============================================================== rules

/-- Whether values of a node's type cannot change. -/
def Node.isReadonly (node : Node) : Bool :=
  node.flags.readonly
    || match node.kind with
       | .leaf .noType | .leaf .any | .leaf .anydata => false
       | .leaf _ | .error _ | .typedesc _ => true
       | _ => false

/-- The rule for a source other than a union and a leaf target. -/
def Leaf.rule (source : TypeId) (s : Node) (target : TypeId) : Leaf → Rule
  | .any => .all [.notOnlyErrors source]
  | .anydata => .all [.data source]
  | .readonly => .decided s.isReadonly
  | .never => .decided false
  | .int => .decided (s.kind == .leaf .int || s.kind == .leaf .byte)
  | .xmlItem item =>
      match s.kind with
      | .xml constraint => .all [.sub constraint target]
      | kind => .decided (kind == .leaf (.xmlItem item))
  | form => .decided (s.kind == .leaf form)

/-- What relates two types. The missing type is related to none;
otherwise never is assignable to all, a union to what all its members
are assignable to, and anything else to a union that has a member it is
assignable to. -/
def Rule.of (source : TypeId) (s : Node) (target : TypeId) (t : Node) :
    Rule :=
  match s.kind, t.kind with
  | .leaf .noType, _ => .decided false
  | _, .leaf .noType => .decided false
  | .leaf .never, _ => .decided true
  | .union members, _ => .all (members.map (.sub · target))
  | _, .union members => .any (members.map (.sub source))
  | _, .leaf form => form.rule source s target
  | kind, targetKind => .all (kind.premises source target targetKind)

end TypeParams
