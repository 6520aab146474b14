/-
Structural forms of types. A `Kind` says how a type is built from others;
the parts are given by id, so types may share parts and contain
themselves. Leaves have no parts.

`Kind.children` lists the parts in the order in which they are written,
and `Kind.withChildren` puts other ids in their place: every walk over a
type sees a kind through these two.
-/
import TypeParams.TypeId

namespace TypeParams

-- ============================================================ leaves

/-- The four kinds of item in an xml sequence. -/
inductive XmlItem where
  | element
  | comment
  | processingInstruction
  | text
  deriving DecidableEq

/-- The forms without parts. -/
inductive Leaf where
  | noType
  | nil
  | never
  | int
  | float
  | decimal
  | string
  | boolean
  | byte
  | any
  | anydata
  | readonly
  | xmlItem (item : XmlItem)
  deriving DecidableEq

-- ======================================================= compositions

/-- A field of a record or an object. -/
structure Field where
  name : String
  type : TypeId
  optional : Bool := false
  readonly : Bool := false
  deriving DecidableEq

/-- What a resource method is reached by: `get` on `users/all`. -/
structure Resource where
  accessor : String
  path : List String
  deriving DecidableEq

/-- A method of an object; its type is a function type. -/
structure Method where
  name : String
  type : TypeId
  resource : Option Resource := none
  deriving DecidableEq

/-- Named fields, and the type of the fields that are not named. -/
structure RecordType where
  fields : List Field
  rest : Option TypeId := none
  isSealed : Bool := false
  deriving DecidableEq

/-- Rows of one type, told apart by a key: a type, or fields of the
row. -/
structure TableType where
  row : TypeId
  key : Option TypeId := none
  keyFields : List String := []
  deriving DecidableEq

/-- The parameters and the result of a function. -/
structure Signature where
  params : List TypeId
  rest : Option TypeId := none
  result : TypeId
  isolated : Bool := false
  deriving DecidableEq

structure ObjectType where
  fields : List Field
  methods : List Method
  deriving DecidableEq

/-- How a type is built. -/
inductive Kind where
  | leaf (form : Leaf)
  | array (element : TypeId)
  | tuple (members : List TypeId) (rest : Option TypeId)
  | map (constraint : TypeId)
  | record (shape : RecordType)
  | union (members : List TypeId)
  | error (detail : TypeId)
  | stream (constraint : TypeId) (completion : Option TypeId)
  | table (shape : TableType)
  | function (signature : Signature)
  | object (shape : ObjectType)
  | typedesc (constraint : TypeId)
  | xml (constraint : TypeId)
  deriving DecidableEq

/-- The type of the fields that a record does not name. A record that
says nothing about them admits any data, unless it is sealed. -/
def RecordType.restType (record : RecordType) : Option TypeId :=
  match record.rest with
  | some rest => some rest
  | none => if record.isSealed then none else some .anydata

/-- The same field of another type. -/
def Field.retype (field : Field) (type : TypeId) : Field :=
  { field with type }

/-- The same method of another type. -/
def Method.retype (method : Method) (type : TypeId) : Method :=
  { method with type }

def RecordType.field? (record : RecordType) (name : String) :
    Option Field :=
  record.fields.find? (·.name == name)

def ObjectType.field? (object : ObjectType) (name : String) :
    Option Field :=
  object.fields.find? (·.name == name)

def ObjectType.method? (object : ObjectType) (name : String) :
    Option Method :=
  object.methods.find? (·.name == name)

namespace Kind

def isLeaf : Kind → Bool
  | .leaf _ => true
  | _ => false

/-- Xml sequences and xml items. -/
def isXml : Kind → Bool
  | .xml _ => true
  | .leaf (.xmlItem _) => true
  | _ => false

def unionMembers? : Kind → Option (List TypeId)
  | .union members => some members
  | _ => none

def signature? : Kind → Option Signature
  | .function signature => some signature
  | _ => none

/-- The type of the unnamed fields, of a record that admits any. -/
def restType? : Kind → Option TypeId
  | .record shape => shape.restType
  | _ => none

/-- The first field of that name, in a record or an object. -/
def field? (name : String) : Kind → Option Field
  | .record shape => shape.field? name
  | .object shape => shape.field? name
  | _ => none

/-- The first method of that name, in an object. -/
def method? (name : String) : Kind → Option Method
  | .object shape => shape.method? name
  | _ => none

-- ============================================================== parts

/-- The parts of a type, in the order in which they are written. -/
def children : Kind → List TypeId
  | .leaf _ => []
  | .array element => [element]
  | .tuple members rest => members ++ rest.toList
  | .map constraint => [constraint]
  | .record shape => shape.fields.map (·.type) ++ shape.rest.toList
  | .union members => members
  | .error detail => [detail]
  | .stream constraint completion => constraint :: completion.toList
  | .table shape => shape.row :: shape.key.toList
  | .function signature =>
      signature.params ++ signature.rest.toList ++ [signature.result]
  | .object shape =>
      shape.fields.map (·.type) ++ shape.methods.map (·.type)
  | .typedesc constraint => [constraint]
  | .xml constraint => [constraint]

/-- The same form over other parts, one for each of `children` and in
that order. Everything but the parts stays. -/
def withChildren (ids : List TypeId) : Kind → Kind
  | .leaf form => .leaf form
  | .array element => .array (ids.headD element)
  | .tuple members _ =>
      .tuple (ids.take members.length) (ids.drop members.length).head?
  | .map constraint => .map (ids.headD constraint)
  | .record shape =>
      .record { shape with
        fields := shape.fields.zipWith Field.retype ids
        rest := (ids.drop shape.fields.length).head? }
  | .union _ => .union ids
  | .error detail => .error (ids.headD detail)
  | .stream constraint _ =>
      .stream (ids.headD constraint) (ids.drop 1).head?
  | .table shape =>
      .table { shape with
        row := ids.headD shape.row
        key := (ids.drop 1).head? }
  | .function signature =>
      .function { signature with
        params := ids.dropLast.take signature.params.length
        rest := (ids.dropLast.drop signature.params.length).head?
        result := ids.getLastD signature.result }
  | .object shape =>
      .object {
        fields := shape.fields.zipWith Field.retype ids
        methods :=
          shape.methods.zipWith Method.retype
            (ids.drop shape.fields.length) }
  | .typedesc constraint => .typedesc (ids.headD constraint)
  | .xml constraint => .xml (ids.headD constraint)

/-- A list with room for `n` entries and an optional one is its first
`n` entries and the entry after them. -/
private theorem take_append_head? (n : Nat) (rest : Option TypeId)
    (ids : List TypeId) (h : ids.length = n + rest.toList.length) :
    ids.take n ++ (ids.drop n).head?.toList = ids := by
  have hlen : (ids.drop n).length ≤ 1 := by
    cases rest <;> simp at h ⊢ <;> omega
  have hdrop : (ids.drop n).head?.toList = ids.drop n := by
    match hd : ids.drop n with
    | [] => rfl
    | [_] => rfl
    | _ :: _ :: _ => simp [hd] at hlen
  rw [hdrop, List.take_append_drop]

/-- Retyping parts and reading their types back gives as many of the
ids as there are parts. -/
private theorem map_zipWith_retype {α : Type} (retype : α → TypeId → α)
    (type : α → TypeId) (h : ∀ a id, type (retype a id) = id)
    (parts : List α) (ids : List TypeId) :
    (parts.zipWith retype ids).map type = ids.take parts.length := by
  induction parts generalizing ids with
  | nil => simp
  | cons a parts ih =>
      cases ids with
      | nil => simp
      | cons id ids => simp [h, ih]

/-- Retyping parts with their own types changes none of them. -/
private theorem zipWith_retype_map {α : Type} (retype : α → TypeId → α)
    (type : α → TypeId) (h : ∀ a, retype a (type a) = a)
    (parts : List α) (ids : List TypeId) :
    parts.zipWith retype (parts.map type ++ ids) = parts := by
  induction parts with
  | nil => simp
  | cons a parts ih => simp [h, ih]

/-- The parts of a rebuilt kind are the ids it was rebuilt over. -/
theorem children_withChildren (kind : Kind) {ids : List TypeId}
    (h : ids.length = kind.children.length) :
    (kind.withChildren ids).children = ids := by
  cases kind with
  | leaf form => simpa [children, withChildren, eq_comm] using h
  | union members => rfl
  | array | map | error | typedesc | xml =>
      match ids, h with
      | [_], _ => rfl
  | tuple members rest =>
      exact take_append_head? _ rest ids (by simpa [children] using h)
  | stream constraint completion =>
      match ids, h with
      | id :: ids, h =>
          have := take_append_head? 0 completion ids (by
            simp only [children, List.length_cons] at h; omega)
          simpa [children, withChildren] using this
  | table shape =>
      match ids, h with
      | id :: ids, h =>
          have := take_append_head? 0 shape.key ids (by
            simp only [children, List.length_cons] at h; omega)
          simpa [children, withChildren] using this
  | record shape =>
      simp only [children, withChildren,
        map_zipWith_retype Field.retype (·.type) fun _ _ => rfl]
      exact take_append_head? _ shape.rest ids
        (by simpa [children] using h)
  | object shape =>
      simp only [children, List.length_append, List.length_map] at h
      simp only [children, withChildren,
        map_zipWith_retype Field.retype (·.type) fun _ _ => rfl,
        map_zipWith_retype Method.retype (·.type) fun _ _ => rfl]
      have hlen : (ids.drop shape.fields.length).length
          ≤ shape.methods.length := by
        rw [List.length_drop]; omega
      rw [List.take_of_length_le hlen, List.take_append_drop]
  | function signature =>
      obtain ⟨params, rest, result, isolated⟩ := signature
      have hne : ids ≠ [] := by
        rintro rfl
        simp [children] at h
      have hinit : ids.dropLast.length
          = params.length + rest.toList.length := by
        simp only [children, List.length_append, List.length_cons,
          List.length_nil] at h
        rw [List.length_dropLast]; omega
      simp only [children, withChildren, take_append_head? _ rest _ hinit,
        List.getLastD_eq_getLast?, List.getLast?_eq_some_getLast hne,
        Option.getD_some]
      exact List.dropLast_concat_getLast hne

/-- Rebuilding over a kind's own parts changes nothing. -/
theorem withChildren_children (kind : Kind) :
    kind.withChildren kind.children = kind := by
  cases kind with
  | leaf | array | map | error | typedesc | xml | union => rfl
  | tuple members rest => cases rest <;> simp [children, withChildren]
  | stream constraint completion =>
      cases completion <;> simp [children, withChildren]
  | table shape =>
      obtain ⟨row, key, keyFields⟩ := shape
      cases key <;> simp [children, withChildren]
  | record shape =>
      obtain ⟨fields, rest, isSealed⟩ := shape
      simp only [children, withChildren,
        zipWith_retype_map Field.retype (·.type) fun _ => rfl]
      cases rest <;> simp
  | object shape =>
      obtain ⟨fields, methods⟩ := shape
      have hmethods := zipWith_retype_map Method.retype (·.type)
        (fun _ => rfl) methods []
      simp only [children, withChildren,
        zipWith_retype_map Field.retype (·.type) fun _ => rfl]
      simpa using hmethods
  | function signature =>
      obtain ⟨params, rest, result, isolated⟩ := signature
      cases rest <;> simp [children, withChildren]

end Kind

end TypeParams
