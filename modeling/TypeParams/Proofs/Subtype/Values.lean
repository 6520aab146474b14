/-
What assignability says of values.

`Graph.Has` says which values a type has, for values that are data and
types made of scalars, lists, mappings and unions. It is read off the
forms and knows nothing of rules. A type that is assignable to another
should have no value that the other has not.

# The exception

It is so but for one pair of shapes. A record may leave out an optional
field of the record it is assignable to; what it admits under that name
all the same, as one of its unnamed fields, is not looked at
(`open_escapes`). With that looked at as well, `Graph.Covered`, values
go where types go (`has_of_assignable`).

# The induction

The induction is on how the value is in the source type, which is finite
even where the type contains itself. A union among the targets is passed
through to a member that is no union (`Grounded.exists_target`), and
what the value has in that member it has in the union. For each shape of
a value there is a lemma that goes from its items or entries to the
whole, given that the items and entries go where their types go.

`Comparable` names the two sets that the argument stays in, those of the
sources and those of the targets: what is asked of the two sides is not
the same, and parts of a source are compared with parts of a target
only.
-/
import TypeParams.Proofs.Subtype.Unions

namespace TypeParams

-- ============================================================== values

/-- Values that are data. -/
inductive Value where
  | nil
  | int (n : Int)
  | float (x : Float)
  | decimal (digits : Int) (exponent : Int)
  | string (text : String)
  | boolean (b : Bool)
  | list (items : List Value)
  | mapping (entries : List (String × Value))

/-- The forms of types that are told by their values. -/
def Kind.isOfValues : Kind → Bool
  | .leaf .noType | .leaf .any | .leaf .readonly | .leaf (.xmlItem _) =>
      false
  | .error _ | .stream .. | .table _ | .function _ | .object _
  | .typedesc _ | .xml _ => false
  | .leaf _ | .array _ | .tuple .. | .map _ | .record _ | .union _ => true

namespace RecordType

/-- A type that an entry of a record is held to: that of a field of its
name, or the rest type if there is none. -/
def TypeOf (shape : RecordType) (name : String) (x : TypeId) : Prop :=
  (∃ f ∈ shape.fields, f.name = name ∧ f.type = x) ∨
    ((∀ f ∈ shape.fields, f.name ≠ name) ∧ shape.restType = some x)

variable {shape shape' : RecordType} {name : String} {x : TypeId}

/-- In a record with unnamed fields every entry is held to a type. -/
theorem exists_typeOf {r : TypeId} (hr : shape.restType = some r)
    (name : String) : ∃ x, shape.TypeOf name x := by
  by_cases hfield : ∃ f ∈ shape.fields, f.name = name
  · obtain ⟨f, hf, hname⟩ := hfield
    exact ⟨f.type, .inl ⟨f, hf, hname, rfl⟩⟩
  · exact ⟨r, .inr ⟨fun f hf hname => hfield ⟨f, hf, hname⟩, hr⟩⟩

/-- The types that entries are held to are those of the values. -/
theorem TypeOf.mem_valueTypes (h : shape.TypeOf name x) :
    x ∈ shape.valueTypes := by
  rcases h with ⟨f, hf, -, rfl⟩ | ⟨-, hr⟩
  · exact List.mem_append_left _ (List.mem_map_of_mem hf)
  · exact List.mem_append_right _ (Option.mem_toList.mpr hr)

theorem TypeOf.on {P : TypeId → Prop} (h : shape.TypeOf name x)
    (hparts : ∀ c ∈ (Kind.record shape).children, P c)
    (hdata : P .anydata) : P x := by
  obtain ⟨hfields, hrest⟩ := record_children hparts
  exact on_valueTypes hfields (on_restType hrest hdata) x h.mem_valueTypes

/-- A field that the target asks for is asked for by the source. -/
theorem Fits.asked {R : TypeId → TypeId → Prop} (h : shape.Fits R shape')
    {f : Field} (hf : f ∈ shape'.fields) (hasked : f.optional = false) :
    ∃ own ∈ shape.fields, own.name = f.name ∧ own.optional = false := by
  cases hown : shape.field? f.name with
  | none =>
      rw [h.missing f hf hown] at hasked
      cases hasked
  | some own =>
      obtain ⟨hmem, hname⟩ := field?_mem hown
      exact ⟨own, hmem, hname, (h.named f hf own hown).1 hasked⟩

/-- An entry is held to a type by the target, and to one below by the
source, if the source's rest type is below the fields that only the
target names. -/
theorem Fits.typeOf {R : TypeId → TypeId → Prop} (h : shape.Fits R shape')
    (hsome : ∃ x, shape.TypeOf name x)
    (hrest : ∀ f ∈ shape'.fields, shape.field? f.name = none →
      ∀ r, shape.restType = some r → R r f.type) :
    (∃ y, shape'.TypeOf name y) ∧
      ∀ y, shape'.TypeOf name y → ∃ x, shape.TypeOf name x ∧ R x y := by
  obtain ⟨x, hx⟩ := hsome
  constructor
  · by_cases hnot : shape'.field? name = none
    · -- it falls under the rest type of the target
      rcases hx with ⟨f, hf, rfl, -⟩ | ⟨-, hr⟩
      · obtain ⟨r, hr, -⟩ := h.unnamed f hf hnot
        exact exists_typeOf hr _
      · obtain ⟨r, hr, -⟩ := h.rest x hr
        exact exists_typeOf hr _
    · obtain ⟨f, hf⟩ := Option.ne_none_iff_exists'.mp hnot
      obtain ⟨hmem, hname⟩ := field?_mem hf
      exact ⟨f.type, .inl ⟨f, hmem, hname, rfl⟩⟩
  · rintro y (⟨f', hf', rfl, rfl⟩ | ⟨hnot, hr'⟩)
    · cases hown : shape.field? f'.name with
      | some own =>
          obtain ⟨hmem, hname⟩ := field?_mem hown
          exact ⟨own.type, .inl ⟨own, hmem, hname, rfl⟩,
            (h.named f' hf' own hown).2⟩
      | none =>
          rcases hx with ⟨f, hf, hname, -⟩ | hx
          · exact absurd hname (field?_eq_none_iff.mp hown f hf)
          · exact ⟨x, .inr hx, hrest f' hf' hown x hx.2⟩
    · rcases hx with ⟨f, hf, rfl, rfl⟩ | hx
      · obtain ⟨r, hr, hfr⟩ := h.unnamed f hf
          (field?_eq_none_iff.mpr hnot)
        rw [hr, Option.some.injEq] at hr'
        exact ⟨f.type, .inl ⟨f, hf, rfl, rfl⟩, hr' ▸ hfr⟩
      · obtain ⟨r, hr, hxr⟩ := h.rest x hx.2
        rw [hr, Option.some.injEq] at hr'
        exact ⟨x, .inr hx, hr' ▸ hxr⟩

end RecordType

namespace Graph

/-- A type has a value. -/
inductive Has (g : Graph) : Value → TypeId → Prop where
  | nil {id : TypeId} (hkind : g.kind id = .ok (.leaf .nil)) :
      Has g .nil id
  | int {id : TypeId} {n : Int} (hkind : g.kind id = .ok (.leaf .int)) :
      Has g (.int n) id
  | byte {id : TypeId} {n : Int} (hkind : g.kind id = .ok (.leaf .byte))
      (hlow : 0 ≤ n) (hhigh : n < 256) : Has g (.int n) id
  | float {id : TypeId} {x : Float}
      (hkind : g.kind id = .ok (.leaf .float)) : Has g (.float x) id
  | decimal {id : TypeId} {digits exponent : Int}
      (hkind : g.kind id = .ok (.leaf .decimal)) :
      Has g (.decimal digits exponent) id
  | string {id : TypeId} {text : String}
      (hkind : g.kind id = .ok (.leaf .string)) : Has g (.string text) id
  | boolean {id : TypeId} {b : Bool}
      (hkind : g.kind id = .ok (.leaf .boolean)) : Has g (.boolean b) id
  | anydata {id : TypeId} {v : Value}
      (hkind : g.kind id = .ok (.leaf .anydata)) : Has g v id
  | member {id m : TypeId} {members : List TypeId} {v : Value}
      (hkind : g.kind id = .ok (.union members)) (hm : m ∈ members)
      (h : Has g v m) : Has g v id
  | array {id element : TypeId} {items : List Value}
      (hkind : g.kind id = .ok (.array element))
      (hitems : ∀ v ∈ items, Has g v element) : Has g (.list items) id
  /-- The items after the members are of the rest type; there are none
  if there is no such type. -/
  | tuple {id : TypeId} {members : List TypeId} {rest : Option TypeId}
      {items : List Value}
      (hkind : g.kind id = .ok (.tuple members rest))
      (hlength : members.length ≤ items.length)
      (hclosed : rest = none → items.length = members.length)
      (hmembers : ∀ (i : Nat) (v : Value) (m : TypeId),
        items[i]? = some v → members[i]? = some m → Has g v m)
      (hrest : ∀ (i : Nat) (v : Value) (r : TypeId), items[i]? = some v →
        members.length ≤ i → rest = some r → Has g v r) :
      Has g (.list items) id
  | map {id constraint : TypeId} {entries : List (String × Value)}
      (hkind : g.kind id = .ok (.map constraint))
      (hentries : ∀ name v, (name, v) ∈ entries → Has g v constraint) :
      Has g (.mapping entries) id
  /-- Fields that are not optional are there, fields that are there are
  of their type, and other entries are of the rest type; there are none
  if there is no such type. -/
  | record {id : TypeId} {shape : RecordType}
      {entries : List (String × Value)}
      (hkind : g.kind id = .ok (.record shape))
      (hrequired : ∀ f ∈ shape.fields, f.optional = false →
        ∃ v, (f.name, v) ∈ entries)
      (hnamed : ∀ f ∈ shape.fields, ∀ v, (f.name, v) ∈ entries →
        Has g v f.type)
      (hclosed : shape.restType = none →
        ∀ name v, (name, v) ∈ entries → ∃ f ∈ shape.fields, f.name = name)
      (hothers : ∀ r, shape.restType = some r →
        ∀ name v, (name, v) ∈ entries →
          (∀ f ∈ shape.fields, f.name ≠ name) → Has g v r) :
      Has g (.mapping entries) id

variable {g : Graph} {v : Value}

-- ====================================================== one type for another

/-- A type has its values by its form. -/
theorem Has.of_kind_eq {s t : TypeId} (h : g.kind t = g.kind s)
    (hv : g.Has v s) : g.Has v t := by
  cases hv with
  | nil hkind => exact .nil (h.trans hkind)
  | int hkind => exact .int (h.trans hkind)
  | byte hkind hlow hhigh => exact .byte (h.trans hkind) hlow hhigh
  | float hkind => exact .float (h.trans hkind)
  | decimal hkind => exact .decimal (h.trans hkind)
  | string hkind => exact .string (h.trans hkind)
  | boolean hkind => exact .boolean (h.trans hkind)
  | anydata hkind => exact .anydata (h.trans hkind)
  | member hkind hm h' => exact .member (h.trans hkind) hm h'
  | array hkind hitems => exact .array (h.trans hkind) hitems
  | tuple hkind hlength hclosed hmembers hrest =>
      exact .tuple (h.trans hkind) hlength hclosed hmembers hrest
  | map hkind hentries => exact .map (h.trans hkind) hentries
  | record hkind hrequired hnamed hclosed hothers =>
      exact .record (h.trans hkind) hrequired hnamed hclosed hothers

/-- What a leaf takes has no values but the leaf's. -/
theorem Has.of_takes {R : TypeId → TypeId → Prop} {s t : TypeId}
    {node node' : Node} {form : Leaf} (hn : g.node? s = some node)
    (hn' : g.node? t = some node') (hform : node'.kind = .leaf form)
    (hvalues : node'.kind.isOfValues = true)
    (htakes : form.Takes g R s node t) (hv : g.Has v s) : g.Has v t := by
  have hkind' : g.kind t = .ok (.leaf form) :=
    kind_eq_ok.mpr ⟨node', hn', hform⟩
  cases htakes with
  | any | readonly | xml =>
      rw [hform] at hvalues
      cases hvalues
  | anydata => exact .anydata hkind'
  | same _ hkind =>
      refine hv.of_kind_eq (hkind'.trans (Eq.symm ?_))
      exact kind_eq_ok.mpr ⟨node, hn, hkind⟩
  | byte hkind =>
      have hkind : g.kind s = .ok (.leaf .byte) :=
        kind_eq_ok.mpr ⟨node, hn, hkind⟩
      cases hv with
      | byte => exact .int hkind'
      | nil h | int h | float h | decimal h | string h | boolean h
      | anydata h | member h | array h | tuple h | map h | record h =>
          rw [hkind] at h
          cases h

/-- The values of an array or a tuple, by position. -/
theorem Has.of_row {t : TypeId} {node : Node} {row : Row}
    {items : List Value} (hn : g.node? t = some node)
    (hrow : node.kind.row? = some row)
    (hlength : row.members.length ≤ items.length)
    (hitems : ∀ (i : Nat) (v : Value), items[i]? = some v →
      ∃ y, row.at? i = some y ∧ g.Has v y) : g.Has (.list items) t := by
  have hkind : g.kind t = .ok node.kind := kind_eq_ok.mpr ⟨node, hn, rfl⟩
  generalize node.kind = kind at hrow hkind
  cases kind with
  | array element =>
      cases hrow
      refine .array hkind fun v hv => ?_
      obtain ⟨i, hi⟩ := List.mem_iff_getElem?.mp hv
      obtain ⟨y, hy, hvy⟩ := hitems i v hi
      cases hy
      exact hvy
  | tuple members rest =>
      cases hrow
      refine .tuple hkind hlength (fun hrest => ?_)
        (fun i v m hv hm => ?_) (fun i v r hv hle hr => ?_)
      · -- nothing stands after the members
        refine Nat.le_antisymm (Nat.le_of_not_lt fun hlt => ?_) hlength
        obtain ⟨y, hy, -⟩ := hitems members.length _
          (List.getElem?_eq_getElem hlt)
        rw [Row.at?_of_le (Nat.le_refl _), hrest] at hy
        cases hy
      · obtain ⟨y, hy, hvy⟩ := hitems i v hv
        rw [Row.at?, hm, Option.some_or] at hy
        cases hy
        exact hvy
      · obtain ⟨y, hy, hvy⟩ := hitems i v hv
        rw [Row.at?_of_le hle, hr] at hy
        cases hy
        exact hvy
  | leaf | map | record | union | error | stream | table | function
  | object | typedesc | xml => cases hrow

/-- The values of a record, by what their entries are held to. -/
theorem Has.of_record {t : TypeId} {shape : RecordType}
    {entries : List (String × Value)}
    (hkind : g.kind t = .ok (.record shape))
    (hrequired : ∀ f ∈ shape.fields, f.optional = false →
      ∃ v, (f.name, v) ∈ entries)
    (hentries : ∀ name v, (name, v) ∈ entries →
      (∃ y, shape.TypeOf name y) ∧
        ∀ y, shape.TypeOf name y → g.Has v y) :
    g.Has (.mapping entries) t := by
  refine .record hkind hrequired (fun f hf v hv => ?_)
    (fun hnone name v hv => ?_) (fun r hr name v hv hnot => ?_)
  · exact (hentries f.name v hv).2 _ (.inl ⟨f, hf, rfl, rfl⟩)
  · obtain ⟨⟨y, hy⟩, -⟩ := hentries name v hv
    rcases hy with ⟨f, hf, hname, -⟩ | ⟨-, hr⟩
    · exact ⟨f, hf, hname⟩
    · rw [hnone] at hr
      cases hr
  · exact (hentries name v hv).2 r (.inr ⟨hnot, hr⟩)

-- ======================================================== two sets of types

/-- Sources and targets whose values can be compared. What a record of
the first may hold under a name that it does not mention is assignable
to the field of that name in any record of the second that it is
assignable to. -/
structure Comparable (g : Graph) (P Q : TypeId → Prop) : Prop where
  source : g.ClosedOn P
  sourceData : P .anydata
  target : g.Grounded Q
  values : ∀ id node, Q id → g.node? id = some node →
    node.kind.isOfValues = true
  covered : ∀ s t shape shape', P s → Q t →
    g.kind s = .ok (.record shape) → g.kind t = .ok (.record shape') →
    g.Assignable s t → ∀ f ∈ shape'.fields, shape.field? f.name = none →
    ∀ r, shape.restType = some r → g.Assignable r f.type

namespace Comparable

variable {P Q : TypeId → Prop} (h : g.Comparable P Q)
include h

/-- Unions among the targets and leaves need not be looked at for each
form of the source. -/
theorem has_of_single {s t : TypeId} {node : Node}
    (hn : g.node? s = some node) (hsingle : node.kind.isSingle = true)
    (hself : g.Has v s) (ht : Q t) (hst : g.Assignable s t)
    (hfits : ∀ t' node', Q t' → g.node? t' = some node' →
      g.Assignable s t' →
      node.kind.Fits g.Assignable s t' node'.kind → g.Has v t') :
    g.Has v t := by
  have hdown : ∀ u m, g.Assignable s u → (g.Has v u → g.Has v t) →
      g.Member u m → g.Assignable s m → g.Has v m → g.Has v t := by
    rintro u m - hu ⟨node, members, hn, hunion, hm⟩ - hv
    exact hu (.member (kind_eq_ok.mpr ⟨node, hn, hunion⟩) hm hv)
  obtain ⟨t', node', ht', hn', hnot, hst', hup⟩ :=
    h.target.exists_target hn hsingle hdown ht hst id
  refine hup ?_
  rcases hst'.relates with rfl | ⟨node₁, node₁', hn₁, hn₁', hr⟩
  · exact hself
  rw [hn, Option.some.injEq] at hn₁
  rw [hn', Option.some.injEq] at hn₁'
  subst hn₁ hn₁'
  rcases hr.of_single hsingle hnot with ⟨form, hform, htakes⟩ | hshape
  · exact hself.of_takes hn hn' hform (h.values t' node' ht' hn') htakes
  · exact hfits t' node' ht' hn' hst' hshape

/-- A leaf other than an xml item fits no shape. -/
theorem has_of_leaf {s t : TypeId} {form : Leaf}
    (hkind : g.kind s = .ok (.leaf form))
    (hsingle : (Kind.leaf form).isSingle = true)
    (hitem : ∀ item, form ≠ .xmlItem item) (hself : g.Has v s) (ht : Q t)
    (hst : g.Assignable s t) : g.Has v t := by
  obtain ⟨node, hn, hform⟩ := kind_eq_ok.mp hkind
  refine h.has_of_single hn (hform ▸ hsingle) hself ht hst ?_
  intro t' node' _ _ _ hfits
  rw [hform] at hfits
  generalize node'.kind = kind at hfits
  cases hfits with
  | row hs => cases hs
  | item => exact absurd rfl (hitem _)

/-- Lists go where their items go. -/
theorem has_of_row {s t : TypeId} {node : Node} {row : Row}
    {items : List Value} (hn : g.node? s = some node)
    (hrow : node.kind.row? = some row)
    (hlength : row.members.length ≤ items.length)
    (hitems : ∀ (i : Nat) (v : Value), items[i]? = some v →
      ∃ x, row.at? i = some x ∧
        ∀ y, Q y → g.Assignable x y → g.Has v y)
    (hself : g.Has (.list items) s) (ht : Q t) (hst : g.Assignable s t) :
    g.Has (.list items) t := by
  refine h.has_of_single hn (Kind.isSingle_of_row? hrow) hself ht hst ?_
  intro t' node' ht' hn' _ hfits
  obtain ⟨row', hrow', hfits⟩ := hfits.exists_row hrow
  have hparts := h.target.closed.child ht' hn'
  rw [Kind.children_of_row? hrow'] at hparts
  refine .of_row hn' hrow' (Nat.le_trans hfits.length hlength) ?_
  intro i v hv
  obtain ⟨x, hx, hxv⟩ := hitems i v hv
  obtain ⟨y, hy, hxy⟩ := hfits.pointwise i x hx
  exact ⟨y, hy, hxv y (hparts y (Row.mem_of_at? hy)) hxy⟩

/-- Entries go where the constraint goes. -/
theorem has_of_map {s t constraint : TypeId}
    {entries : List (String × Value)}
    (hkind : g.kind s = .ok (.map constraint))
    (hentries : ∀ name v, (name, v) ∈ entries →
      ∀ y, Q y → g.Assignable constraint y → g.Has v y)
    (hself : g.Has (.mapping entries) s) (ht : Q t)
    (hst : g.Assignable s t) : g.Has (.mapping entries) t := by
  obtain ⟨node, hn, hform⟩ := kind_eq_ok.mp hkind
  refine h.has_of_single hn (by rw [hform]; rfl) hself ht hst ?_
  intro t' node' ht' hn' _ hfits
  rw [hform] at hfits
  have hkind' : g.kind t' = .ok node'.kind :=
    kind_eq_ok.mpr ⟨node', hn', rfl⟩
  have hparts := h.target.closed.child ht' hn'
  generalize node'.kind = kind' at hfits hkind' hparts
  cases hfits with
  | row hs => cases hs
  | map hconstraint =>
      refine .map hkind' fun name v hv => ?_
      exact hentries name v hv _ (hparts _ List.mem_cons_self) hconstraint
  | entries hfields hrest =>
      obtain ⟨r, hr, hconstraint⟩ := hrest
      refine .of_record hkind' (fun f hf hasked => ?_) fun name v hv => ?_
      · rw [(hfields f hf).1] at hasked
        cases hasked
      · refine ⟨RecordType.exists_typeOf hr name, fun y hy => ?_⟩
        refine hentries name v hv y (hy.on hparts h.target.anydata) ?_
        rcases hy with ⟨f, hf, -, rfl⟩ | ⟨-, hr'⟩
        · exact (hfields f hf).2
        · rw [hr, Option.some.injEq] at hr'
          exact hr' ▸ hconstraint

/-- Entries go where their fields go. -/
theorem has_of_record {s t : TypeId} {shape : RecordType}
    {entries : List (String × Value)} (hs : P s)
    (hkind : g.kind s = .ok (.record shape))
    (hrequired : ∀ f ∈ shape.fields, f.optional = false →
      ∃ v, (f.name, v) ∈ entries)
    (hentries : ∀ name v, (name, v) ∈ entries →
      (∃ x, shape.TypeOf name x) ∧ ∀ x, shape.TypeOf name x →
        ∀ y, Q y → g.Assignable x y → g.Has v y)
    (hself : g.Has (.mapping entries) s) (ht : Q t)
    (hst : g.Assignable s t) : g.Has (.mapping entries) t := by
  obtain ⟨node, hn, hform⟩ := kind_eq_ok.mp hkind
  refine h.has_of_single hn (by rw [hform]; rfl) hself ht hst ?_
  intro t' node' ht' hn' hst' hfits
  rw [hform] at hfits
  have hkind' : g.kind t' = .ok node'.kind :=
    kind_eq_ok.mpr ⟨node', hn', rfl⟩
  have hparts := h.target.closed.child ht' hn'
  generalize node'.kind = kind' at hfits hkind' hparts
  cases hfits with
  | row hs => cases hs
  | values hvalues =>
      refine .map hkind' fun name v hv => ?_
      obtain ⟨⟨x, hx⟩, hgo⟩ := hentries name v hv
      exact hgo x hx _ (hparts _ List.mem_cons_self)
        (hvalues x hx.mem_valueTypes)
  | @record _ shape' hfits =>
      refine .of_record hkind' (fun f hf hasked => ?_) fun name v hv => ?_
      · obtain ⟨own, hown, hname, hthere⟩ := hfits.asked hf hasked
        exact hname ▸ hrequired own hown hthere
      · obtain ⟨hsome, hgo⟩ := hentries name v hv
        obtain ⟨hsome', hbelow⟩ := hfits.typeOf hsome
          (h.covered s t' shape shape' hs ht' hkind hkind' hst')
        refine ⟨hsome', fun y hy => ?_⟩
        obtain ⟨x, hx, hxy⟩ := hbelow y hy
        exact hgo x hx y (hy.on hparts h.target.anydata) hxy

/-- Values go where types go. -/
theorem has {s t : TypeId} (hv : g.Has v s) (hs : P s) (ht : Q t)
    (hst : g.Assignable s t) : g.Has v t := by
  induction hv generalizing t with
  | nil hkind => exact h.has_of_leaf hkind rfl (by simp) (.nil hkind) ht hst
  | int hkind => exact h.has_of_leaf hkind rfl (by simp) (.int hkind) ht hst
  | byte hkind hlow hhigh =>
      exact h.has_of_leaf hkind rfl (by simp) (.byte hkind hlow hhigh) ht hst
  | float hkind =>
      exact h.has_of_leaf hkind rfl (by simp) (.float hkind) ht hst
  | decimal hkind =>
      exact h.has_of_leaf hkind rfl (by simp) (.decimal hkind) ht hst
  | string hkind =>
      exact h.has_of_leaf hkind rfl (by simp) (.string hkind) ht hst
  | boolean hkind =>
      exact h.has_of_leaf hkind rfl (by simp) (.boolean hkind) ht hst
  | anydata hkind =>
      exact h.has_of_leaf hkind rfl (by simp) (.anydata hkind) ht hst
  -- a value of a union is one of a member, which goes wherever the union
  -- goes
  | member hkind hm hv ih =>
      have hmembers := h.source.of_kind hs hkind
      obtain ⟨node, hn, hunion⟩ := kind_eq_ok.mp hkind
      rcases hst.of_member ⟨node, _, hn, hunion, hm⟩ with rfl | hmt
      · exact .member hkind hm hv
      · exact ih (hmembers _ hm) ht hmt
  | @array id element items hkind hitems ih =>
      obtain ⟨node, hn, hform⟩ := kind_eq_ok.mp hkind
      have helement := h.source.of_kind hs hkind element List.mem_cons_self
      refine h.has_of_row hn (by rw [hform]; rfl) (Nat.zero_le _) ?_
        (.array hkind hitems) ht hst
      intro i v hv
      refine ⟨element, rfl, fun y hy hxy => ?_⟩
      exact ih v (List.mem_of_getElem? hv) helement hy hxy
  | @tuple id members rest items hkind hlength hclosed hmembers hrest ihm
      ihr =>
      obtain ⟨node, hn, hform⟩ := kind_eq_ok.mp hkind
      have hparts := h.source.of_kind hs hkind
      refine h.has_of_row hn (by rw [hform]; rfl) hlength ?_
        (.tuple hkind hlength hclosed hmembers hrest) ht hst
      intro i v hv
      have hi := (List.getElem?_eq_some_iff.mp hv).1
      -- the position is that of a member, or falls under the rest type
      by_cases hlt : i < members.length
      · have hm : members[i]? = some members[i] :=
          List.getElem?_eq_getElem hlt
        refine ⟨members[i], by rw [Row.at?_of_lt hlt, hm], ?_⟩
        intro y hy hxy
        exact ihm i v _ hv hm
          (hparts _ (List.mem_append_left _ (List.getElem_mem hlt))) hy hxy
      · have hle := Nat.not_lt.mp hlt
        cases rest with
        | none => exact absurd (hclosed rfl ▸ hi) hlt
        | some r =>
            refine ⟨r, Row.at?_of_le hle, fun y hy hxy => ?_⟩
            exact ihr i v r hv hle rfl (hparts r (by simp [Kind.children]))
              hy hxy
  | @map id constraint entries hkind hentries ih =>
      have hconstraint :=
        h.source.of_kind hs hkind constraint List.mem_cons_self
      exact h.has_of_map hkind
        (fun name v hv y => ih name v hv hconstraint)
        (.map hkind hentries) ht hst
  | @record id shape entries hkind hrequired hnamed hclosed hothers ihn
      iho =>
      have hparts := h.source.of_kind hs hkind
      refine h.has_of_record hs hkind hrequired ?_
        (.record hkind hrequired hnamed hclosed hothers) ht hst
      intro name v hv
      refine ⟨?_, fun x hx y hy hxy => ?_⟩
      · cases hr : shape.restType with
        | some r => exact RecordType.exists_typeOf hr name
        | none =>
            obtain ⟨f, hf, hname⟩ := hclosed hr name v hv
            exact ⟨f.type, .inl ⟨f, hf, hname, rfl⟩⟩
      · have hx' := hx.on hparts h.sourceData
        rcases hx with ⟨f, hf, rfl, rfl⟩ | ⟨hnot, hr⟩
        · exact ihn f hf v hv hx' hy hxy
        · exact iho x hr name v hv hnot hx' hy hxy

end Comparable

-- ========================================================== the theorem

/-- Where two records are concerned, what the one may hold under a name
that only the other mentions is assignable to the field of that name. -/
def covers (g : Graph) (s t : TypeId) : Bool :=
  match g.kind s, g.kind t with
  | .ok (.record shape), .ok (.record shape') =>
      shape'.fields.all fun f => (shape.field? f.name).isSome ||
        shape.restType.all fun r => g.assignable r f.type == .ok true
  | _, _ => true

/-- Optional fields that a record leaves out are looked at, wherever a
type inside the one is assignable to a type inside the other. -/
def Covered (g : Graph) (source target : TypeId) : Prop :=
  ∀ s t, g.Reaches source s → g.Reaches target t →
    g.assignable s t = .ok true → g.covers s t = true

/-- What the record holds under the name of a field that it leaves out
is below the field's type. -/
theorem field_of_covers {s t : TypeId} {shape shape' : RecordType}
    (h : g.covers s t = true) (hs : g.kind s = .ok (.record shape))
    (ht : g.kind t = .ok (.record shape')) {f : Field}
    (hf : f ∈ shape'.fields) (hnone : shape.field? f.name = none)
    {r : TypeId} (hr : shape.restType = some r) :
    g.assignable r f.type = .ok true := by
  rw [covers, hs, ht] at h
  have hfield := List.all_eq_true.mp h f hf
  simpa [hnone, hr] using hfield

/-- If a type made of scalars, lists, mappings and unions is assignable
to another, and optional fields that its records leave out are looked
at, then the other has all its values. -/
theorem has_of_assignable (hg : g.WellFormed) {source target : TypeId}
    (hs : g.MadeOf Kind.isOfValues source)
    (ht : g.MadeOf Kind.isOfValues target)
    (hcovered : g.Covered source target)
    (hst : g.assignable source target = .ok true) {v : Value}
    (hv : g.Has v source) : g.Has v target := by
  have hground : g.Grounded (g.MadeOf Kind.isOfValues) :=
    MadeOf.grounded hg rfl rfl
  have hcompare :
      g.Comparable (MadeOf.Near g source) (MadeOf.Near g target) := by
    refine ⟨(hs.grounded_near hg rfl rfl).closed, .inr (.inl rfl),
      ht.grounded_near hg rfl rfl, fun id node hid hn => ?_, ?_⟩
    · exact (ht.of_near hg rfl rfl hid).admits hn
    · intro s t shape shape' hs' ht' hkind hkind' hst f hf hnone r hr
      have hmade := hs.of_near hg rfl rfl hs'
      have hmade' := ht.of_near hg rfl rfl ht'
      have hcovers := hcovered s t (hs'.reaches hg hkind rfl)
        (ht'.reaches hg hkind' rfl)
        ((hground.assignable_iff hmade hmade').mpr hst)
      -- the rest type and the field are such types too
      obtain ⟨-, hrest⟩ :=
        record_children (hground.closed.of_kind hmade hkind)
      obtain ⟨hfields, -⟩ :=
        record_children (hground.closed.of_kind hmade' hkind')
      refine (hground.assignable_iff ?_ (hfields f hf)).mp
        (field_of_covers hcovers hkind hkind' hf hnone hr)
      exact RecordType.on_restType hrest hground.anydata r hr
  exact hcompare.has hv (.inl .refl) (.inl .refl)
    ((hground.assignable_iff hs ht).mp hst)

/-- A string or nil (21), a record of a byte and otherwise strings (22),
and an open record of an int and an optional note (23). -/
def noted : Graph :=
  ⟨Graph.builtin.nodes ++ #[
    .anonymous (.union [.string, .nil]),
    .anonymous (.record
      { fields := [{ name := "a", type := .byte }], rest := some .string }),
    .anonymous (.record { fields :=
      [{ name := "a", type := .int },
       { name := "note", type := ⟨21⟩, optional := true }] })]⟩

/-- The note is among the strings of the first record, and a note to the
second. -/
theorem noted_has :
    noted.WellFormed ∧ noted.assignable ⟨22⟩ ⟨23⟩ = .ok true ∧
      noted.Has (.mapping [("a", .int 7), ("note", .string "b")]) ⟨22⟩ ∧
      noted.Has (.mapping [("a", .int 7), ("note", .string "b")]) ⟨23⟩ := by
  have hg : noted.WellFormed := by decide
  have hids : MadeOf.check noted Kind.isOfValues
      (fun id => if id = ⟨21⟩ then 1 else 0)
      [.nil, .int, .string, .byte, ⟨21⟩, ⟨22⟩, ⟨23⟩] = true := by
    decide +kernel
  have hcovered : noted.Covered ⟨22⟩ ⟨23⟩ := by
    have hpairs : ∀ s ∈ [.nil, .int, .string, .byte, ⟨21⟩, ⟨22⟩, ⟨23⟩],
        ∀ t ∈ [.nil, .int, .string, .byte, ⟨21⟩, ⟨22⟩, ⟨23⟩],
        noted.assignable s t = .ok true → noted.covers s t = true := by
      decide +kernel
    intro s t hs ht
    exact hpairs s ((MadeOf.check_closed hids).reaches (by simp) hs) t
      ((MadeOf.check_closed hids).reaches (by simp) ht)
  have hst : noted.assignable ⟨22⟩ ⟨23⟩ = .ok true := by decide +kernel
  have hv : noted.Has (.mapping [("a", .int 7), ("note", .string "b")])
      ⟨22⟩ := by
    refine .record rfl (by simp) ?_ (by simp [RecordType.restType]) ?_
    · intro f hf v hmem
      cases List.mem_singleton.mp hf
      simp only [List.mem_cons, Prod.mk.injEq, List.not_mem_nil,
        or_false] at hmem
      rcases hmem with ⟨-, rfl⟩ | ⟨hname, -⟩
      · exact .byte rfl (by decide) (by decide)
      · exact absurd hname (by decide)
    · intro r hr name v hmem hnot
      cases hr
      simp only [List.mem_cons, Prod.mk.injEq, List.not_mem_nil,
        or_false] at hmem
      rcases hmem with ⟨rfl, -⟩ | ⟨-, rfl⟩
      · exact absurd rfl (hnot _ List.mem_cons_self)
      · exact .string rfl
  exact ⟨hg, hst, hv, has_of_assignable hg (.of_check hids (by simp))
    (.of_check hids (by simp)) hcovered hst hv⟩

/-- An open record without fields (21), and one with an optional int
(22). -/
def opened : Graph :=
  ⟨Graph.builtin.nodes ++ #[
    .anonymous (.record { fields := [] }),
    .anonymous (.record { fields :=
      [{ name := "x", type := .int, optional := true }] })]⟩

/-- A record that does not mention a field may hold anything there, and
yet is assignable to one that says what the field holds. -/
theorem open_escapes :
    opened.WellFormed ∧ opened.MadeOf Kind.isOfValues ⟨21⟩ ∧
      opened.MadeOf Kind.isOfValues ⟨22⟩ ∧
      opened.assignable ⟨21⟩ ⟨22⟩ = .ok true ∧
      opened.Has (.mapping [("x", .string "a")]) ⟨21⟩ ∧
      ¬ opened.Has (.mapping [("x", .string "a")]) ⟨22⟩ := by
  have hids : MadeOf.check opened Kind.isOfValues (fun _ => 0)
      [.int, ⟨21⟩, ⟨22⟩] = true := by decide +kernel
  refine ⟨by decide, .of_check hids (by simp), .of_check hids (by simp),
    by decide +kernel, ?_, ?_⟩
  · refine .record rfl (by simp) (by simp) (by simp [RecordType.restType]) ?_
    intro r hr name v _ _
    cases hr
    exact .anydata rfl
  · intro h
    cases h with
    | record hkind _ hnamed =>
        cases hkind
        have hx := hnamed _ List.mem_cons_self _ List.mem_cons_self
        cases hx with
        | string hkind | anydata hkind | member hkind => cases hkind
    | anydata hkind | member hkind | map hkind => cases hkind

end Graph

end TypeParams
