/-
Forms that differ at most in their parts.

`Kind.Alike R` relates two forms of the same constructor: names, flags
and keys are the same, an optional part is there in both or in neither,
and parts at the same place are related by `R`. It is what a copy has in
common with what it is a copy of, and what doubles of a type have in
common.

# Taking forms apart

`Alike.children` reads the relation off the lists of parts, and
`Alike.imp_of_mem` changes `R` for another relation that need only hold
where `R` does between parts. Most uses go through these two and do not
split the forms.

# Rebuilding

Rebuilding a form over related ids gives such a form
(`Kind.alike_withChildren`). `Kind.withChildren` takes the new parts as
one list and deals them out from the left, so the proof for each form
splits that list where the form's own parts end: `forall₂_split` at a
given length, `forall₂_head?` for a part that may be missing, and
`forall₂_retype` for fields and methods, which keep everything but their
type.
-/
import Mathlib.Data.List.Forall2
import TypeParams.Kind

namespace TypeParams

variable {R : TypeId → TypeId → Prop}

/-- An entry is found by its name if names differ. -/
theorem find?_of_nodup {α κ : Type} [DecidableEq κ] {name : α → κ}
    {as : List α} (hnodup : (as.map name).Nodup) {a : α} (ha : a ∈ as) :
    as.find? (name · == name a) = some a := by
  induction as with
  | nil => cases ha
  | cons b as ih =>
      rw [List.map_cons, List.nodup_cons] at hnodup
      rcases List.mem_cons.mp ha with rfl | ha
      · simp
      · have hne : name b ≠ name a := fun heq =>
          hnodup.1 (heq ▸ List.mem_map_of_mem ha)
        rw [List.find?_cons_of_neg (by simpa using hne)]
        exact ih hnodup.2 ha

/-- Every entry of a list has one that it is related to. -/
theorem exists_mem_of_forall₂ {α β : Type} {S : α → β → Prop}
    {as : List α} {bs : List β} (h : List.Forall₂ S as bs) {a : α}
    (ha : a ∈ as) : ∃ b ∈ bs, S a b := by
  induction h with
  | nil => cases ha
  | cons hab _ ih =>
      rcases List.mem_cons.mp ha with rfl | ha
      · exact ⟨_, List.mem_cons_self, hab⟩
      · obtain ⟨b, hb, hab⟩ := ih ha
        exact ⟨b, List.mem_cons_of_mem _ hb, hab⟩

/-- The same field of a related type. -/
def Field.Alike (R : TypeId → TypeId → Prop) (f f' : Field) : Prop :=
  ∃ type, R f.type type ∧ f' = { f with type }

/-- The same method of a related type. -/
def Method.Alike (R : TypeId → TypeId → Prop) (m m' : Method) : Prop :=
  ∃ type, R m.type type ∧ m' = { m with type }

namespace Kind

/-- The same form with related parts. -/
inductive Alike (R : TypeId → TypeId → Prop) : Kind → Kind → Prop where
  | leaf (form : Leaf) : Alike R (.leaf form) (.leaf form)
  | array {element element' : TypeId} (helement : R element element') :
      Alike R (.array element) (.array element')
  | tuple {members members' : List TypeId} {rest rest' : Option TypeId}
      (hmembers : List.Forall₂ R members members')
      (hrest : Option.Rel R rest rest') :
      Alike R (.tuple members rest) (.tuple members' rest')
  | map {constraint constraint' : TypeId}
      (hconstraint : R constraint constraint') :
      Alike R (.map constraint) (.map constraint')
  | record {fields fields' : List Field} {rest rest' : Option TypeId}
      {isSealed : Bool}
      (hfields : List.Forall₂ (Field.Alike R) fields fields')
      (hrest : Option.Rel R rest rest') :
      Alike R (.record ⟨fields, rest, isSealed⟩)
        (.record ⟨fields', rest', isSealed⟩)
  | union {members members' : List TypeId}
      (hmembers : List.Forall₂ R members members') :
      Alike R (.union members) (.union members')
  | error {detail detail' : TypeId} (hdetail : R detail detail') :
      Alike R (.error detail) (.error detail')
  | stream {constraint constraint' : TypeId}
      {completion completion' : Option TypeId}
      (hconstraint : R constraint constraint')
      (hcompletion : Option.Rel R completion completion') :
      Alike R (.stream constraint completion)
        (.stream constraint' completion')
  | table {row row' : TypeId} {key key' : Option TypeId}
      {keyFields : List String} (hrow : R row row')
      (hkey : Option.Rel R key key') :
      Alike R (.table ⟨row, key, keyFields⟩)
        (.table ⟨row', key', keyFields⟩)
  | function {params params' : List TypeId} {rest rest' : Option TypeId}
      {result result' : TypeId} {isolated : Bool}
      (hparams : List.Forall₂ R params params')
      (hrest : Option.Rel R rest rest') (hresult : R result result') :
      Alike R (.function ⟨params, rest, result, isolated⟩)
        (.function ⟨params', rest', result', isolated⟩)
  | object {fields fields' : List Field} {methods methods' : List Method}
      (hfields : List.Forall₂ (Field.Alike R) fields fields')
      (hmethods : List.Forall₂ (Method.Alike R) methods methods') :
      Alike R (.object ⟨fields, methods⟩) (.object ⟨fields', methods'⟩)
  | typedesc {constraint constraint' : TypeId}
      (hconstraint : R constraint constraint') :
      Alike R (.typedesc constraint) (.typedesc constraint')
  | xml {constraint constraint' : TypeId}
      (hconstraint : R constraint constraint') :
      Alike R (.xml constraint) (.xml constraint')

/-- Entries that are related in one way are so in another, if entries of
the first list are. -/
private theorem forall₂_imp_of_mem {α : Type} {S T : α → α → Prop}
    {as bs : List α} (h : List.Forall₂ S as bs)
    (hST : ∀ a ∈ as, ∀ b, S a b → T a b) : List.Forall₂ T as bs := by
  induction h with
  | nil => exact .nil
  | cons hab _ ih =>
      rw [List.forall_mem_cons] at hST
      exact .cons (hST.1 _ hab) (ih hST.2)

/-- So is a part that may be missing. -/
private theorem optionRel_imp_of_mem {S : TypeId → TypeId → Prop}
    {a b : Option TypeId} (h : Option.Rel R a b)
    (hRS : ∀ x ∈ a.toList, ∀ y, R x y → S x y) : Option.Rel S a b := by
  cases h with
  | some hab => exact .some (hRS _ (List.mem_singleton.mpr rfl) _ hab)
  | none => exact .none

/-- Only the parts themselves need to be related in the other way. -/
theorem Alike.imp_of_mem {S : TypeId → TypeId → Prop} {kind kind' : Kind}
    (h : kind.Alike R kind')
    (hRS : ∀ a ∈ kind.children, ∀ b, R a b → S a b) :
    kind.Alike S kind' := by
  cases h with
  | leaf form => exact .leaf form
  | array h => exact .array (hRS _ List.mem_cons_self _ h)
  | map h => exact .map (hRS _ List.mem_cons_self _ h)
  | error h => exact .error (hRS _ List.mem_cons_self _ h)
  | typedesc h => exact .typedesc (hRS _ List.mem_cons_self _ h)
  | xml h => exact .xml (hRS _ List.mem_cons_self _ h)
  | union h => exact .union (forall₂_imp_of_mem h hRS)
  | tuple h hrest =>
      rw [children, List.forall_mem_append] at hRS
      exact .tuple (forall₂_imp_of_mem h hRS.1)
        (optionRel_imp_of_mem hrest hRS.2)
  | stream h hrest =>
      rw [children, List.forall_mem_cons] at hRS
      exact .stream (hRS.1 _ h) (optionRel_imp_of_mem hrest hRS.2)
  | table h hrest =>
      rw [children, List.forall_mem_cons] at hRS
      exact .table (hRS.1 _ h) (optionRel_imp_of_mem hrest hRS.2)
  | function hparams hrest hresult =>
      rw [children, List.forall_mem_append, List.forall_mem_append] at hRS
      exact .function (forall₂_imp_of_mem hparams hRS.1.1)
        (optionRel_imp_of_mem hrest hRS.1.2)
        (hRS.2 _ (List.mem_singleton.mpr rfl) _ hresult)
  | record hfields hrest =>
      rw [children, List.forall_mem_append, List.forall_mem_map] at hRS
      refine .record (forall₂_imp_of_mem hfields ?_)
        (optionRel_imp_of_mem hrest hRS.2)
      rintro f hf f' ⟨type, htype, hf'⟩
      exact ⟨type, hRS.1 f hf _ htype, hf'⟩
  | object hfields hmethods =>
      rw [children, List.forall_mem_append, List.forall_mem_map,
        List.forall_mem_map] at hRS
      refine .object (forall₂_imp_of_mem hfields ?_)
        (forall₂_imp_of_mem hmethods ?_)
      · rintro f hf f' ⟨type, htype, hf'⟩
        exact ⟨type, hRS.1 f hf _ htype, hf'⟩
      · rintro m hm m' ⟨type, htype, hm'⟩
        exact ⟨type, hRS.2 m hm _ htype, hm'⟩

/-- Forms that are alike for one relation are so for a weaker one. -/
theorem Alike.mono {S : TypeId → TypeId → Prop}
    (hRS : ∀ a b, R a b → S a b) {kind kind' : Kind}
    (h : kind.Alike R kind') : kind.Alike S kind' :=
  h.imp_of_mem fun a _ b => hRS a b

/-- Both forms have no parts by their constructor, or neither. -/
theorem Alike.isLeaf_eq {kind kind' : Kind} (h : kind.Alike R kind') :
    kind'.isLeaf = kind.isLeaf := by
  cases h <;> rfl

/-- What is alike to a union is one, with a member for each member. -/
theorem Alike.of_union {kind : Kind} {parts : List TypeId}
    (h : kind.Alike R (.union parts)) :
    ∃ members, kind = .union members ∧ List.Forall₂ R members parts := by
  cases h with
  | union hmembers => exact ⟨_, rfl, hmembers⟩

private theorem forall₂_toList {a b : Option TypeId}
    (h : Option.Rel R a b) : List.Forall₂ R a.toList b.toList := by
  cases h with
  | some hab => exact .cons hab .nil
  | none => exact .nil

private theorem forall₂_types {α : Type} {T : α → α → Prop}
    {type : α → TypeId} (hT : ∀ a b, T a b → R (type a) (type b))
    {as bs : List α} (h : List.Forall₂ T as bs) :
    List.Forall₂ R (as.map type) (bs.map type) := by
  rw [List.forall₂_map_left_iff, List.forall₂_map_right_iff]
  exact h.imp hT

/-- The parts of forms that are alike are related one by one. -/
theorem Alike.children {kind kind' : Kind} (h : kind.Alike R kind') :
    List.Forall₂ R kind.children kind'.children := by
  have hfield : ∀ f f' : Field, f.Alike R f' → R f.type f'.type := by
    rintro f f' ⟨type, htype, rfl⟩
    exact htype
  have hmethod : ∀ m m' : Method, m.Alike R m' → R m.type m'.type := by
    rintro m m' ⟨type, htype, rfl⟩
    exact htype
  cases h with
  | leaf form => exact .nil
  | array h | map h | error h | typedesc h | xml h => exact .cons h .nil
  | union h => exact h
  | tuple h hrest => exact List.rel_append h (forall₂_toList hrest)
  | stream h hrest | table h hrest =>
      exact .cons h (forall₂_toList hrest)
  | function hparams hrest hresult =>
      exact List.rel_append (List.rel_append hparams (forall₂_toList hrest))
        (.cons hresult .nil)
  | record hfields hrest =>
      exact List.rel_append (forall₂_types hfield hfields)
        (forall₂_toList hrest)
  | object hfields hmethods =>
      exact List.rel_append (forall₂_types hfield hfields)
        (forall₂_types hmethod hmethods)

/-- Leaves have no parts. -/
theorem children_of_isLeaf {kind : Kind} (h : kind.isLeaf = true) :
    kind.children = [] := by
  cases kind with
  | leaf form => rfl
  | array | tuple | map | record | union | error | stream | table
  | function | object | typedesc | xml => cases h

-- ============================================================ rebuilding

/-- A list of parts in two pieces, and the ids that go with each. -/
private theorem forall₂_split {front back ids : List TypeId}
    (h : List.Forall₂ R (front ++ back) ids) :
    List.Forall₂ R front (ids.take front.length) ∧
      List.Forall₂ R back (ids.drop front.length) := by
  have htake := List.forall₂_take front.length h
  have hdrop := List.forall₂_drop front.length h
  rw [List.take_left] at htake
  rw [List.drop_left] at hdrop
  exact ⟨htake, hdrop⟩

/-- A part that may be missing takes the next id if it is there. -/
private theorem forall₂_head? {rest : Option TypeId} {ids : List TypeId}
    (h : List.Forall₂ R rest.toList ids) : Option.Rel R rest ids.head? := by
  cases rest with
  | none =>
      rw [List.forall₂_nil_left_iff.mp h]
      exact .none
  | some part =>
      cases h with
      | cons hid _ => exact .some hid

/-- Fields or methods take the next ids, one each. -/
private theorem forall₂_retype {α : Type} {type : α → TypeId}
    {retype : α → TypeId → α} {parts : List α} {more ids : List TypeId}
    (h : List.Forall₂ R (parts.map type ++ more) ids) :
    List.Forall₂ (fun a a' => ∃ id, R (type a) id ∧ a' = retype a id)
      parts (parts.zipWith retype ids) := by
  induction parts generalizing ids with
  | nil => exact .nil
  | cons a parts ih =>
      cases h with
      | cons hid hrest => exact .cons ⟨_, hid, rfl⟩ (ih hrest)

/-- A form over related ids is alike. -/
theorem alike_withChildren {kind : Kind} {ids : List TypeId}
    (h : List.Forall₂ R kind.children ids) :
    kind.Alike R (kind.withChildren ids) := by
  cases kind with
  | leaf form => exact .leaf form
  | union members => exact .union h
  | array element =>
      cases h with
      | cons hid _ => exact .array hid
  | map constraint =>
      cases h with
      | cons hid _ => exact .map hid
  | error detail =>
      cases h with
      | cons hid _ => exact .error hid
  | typedesc constraint =>
      cases h with
      | cons hid _ => exact .typedesc hid
  | xml constraint =>
      cases h with
      | cons hid _ => exact .xml hid
  | tuple members rest =>
      obtain ⟨hmembers, hrest⟩ := forall₂_split h
      exact .tuple hmembers (forall₂_head? hrest)
  | record shape =>
      obtain ⟨fields, rest, isSealed⟩ := shape
      have hrest := (forall₂_split h).2
      rw [List.length_map] at hrest
      exact .record (forall₂_retype h) (forall₂_head? hrest)
  | stream constraint completion =>
      cases h with
      | cons hid hrest =>
          exact .stream hid (forall₂_head? hrest)
  | table shape =>
      obtain ⟨row, key, keyFields⟩ := shape
      cases h with
      | cons hid hrest =>
          exact .table hid (forall₂_head? hrest)
  | object shape =>
      obtain ⟨fields, methods⟩ := shape
      have hmethods := (forall₂_split h).2
      rw [List.length_map, ← List.append_nil (methods.map _)] at hmethods
      exact .object (forall₂_retype h) (forall₂_retype hmethods)
  | function signature =>
      obtain ⟨params, rest, result, isolated⟩ := signature
      -- the result stands last
      obtain ⟨hfront, hlast⟩ := forall₂_split h
      obtain ⟨result', _, hresult, hnil, hdrop⟩ :=
        List.forall₂_cons_left_iff.mp hlast
      rw [List.forall₂_nil_left_iff.mp hnil] at hdrop
      have hids := List.take_append_drop (params ++ rest.toList).length ids
      rw [hdrop] at hids
      obtain ⟨hparams, hrest⟩ := forall₂_split hfront
      rw [← hids]
      simp only [withChildren, List.dropLast_concat, List.getLastD_concat]
      exact .function hparams (forall₂_head? hrest) hresult

end Kind

end TypeParams
