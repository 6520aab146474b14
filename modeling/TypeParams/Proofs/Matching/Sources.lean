/-
What the actual types of a plan are made from.

A plan opposes parts of the declared type to types that come from the
actual one: its parts, or what their forms hold, or a few builtin types
that stand in for what is not written. So a set that is closed under
parts and has those builtin types has every type that a plan draws on
(`plan_draws`).

# Following the plan's helpers

`Draws` says it of the pairings of a plan. Most are pairs of parts,
taken side by side, by name, or rest against rest, and there is one
lemma for each way of pairing. The exceptions look further than the
parts: an XML type is opened until its content is found, and a record
that is matched as a map collects the types of its values. What is found
there is below the actual type as well, by the closure of the set and
not by being a part.

# Types that are made

A source makes at most one new type of what it draws on, a union or the
tuple of a table's key, and the new type is no marker
(`Source.resolve_adds`). So a layer that has no marker among what it
added has none after a match either. `Keyed` lists what the key of a
table is found to be, so that this is argued about once for its four
cases.
-/
import TypeParams.Proofs.Additions
import TypeParams.Proofs.Matching.Levels
import TypeParams.Proofs.Subtype.Mentions

namespace TypeParams.Matching

variable {g : Graph} {P : TypeId → Prop} {variance : Variance}

/-- The types that the actual type of a pairing is made from. -/
def Source.ids : Source → List TypeId
  | .given id => [id]
  | .unionOf ids => ids
  | .keyOf table => table.row :: table.key.toList

/-- The pairings are with types of a set, or made from such. -/
def Draws (P : TypeId → Prop) (pairings : List Pairing) : Prop :=
  ∀ p ∈ pairings, ∀ id ∈ p.source.ids, P id

-- ============================================================== pairings

theorem Draws.nil : Draws P [] := by
  intro p hp
  cases hp

/-- One more pairing, with types of the set. -/
theorem Draws.cons {pairing : Pairing} {pairings : List Pairing}
    (hsource : ∀ id ∈ pairing.source.ids, P id)
    (h : Draws P pairings) : Draws P (pairing :: pairings) :=
  List.forall_mem_cons.mpr ⟨hsource, h⟩

/-- Pairings of one list and of another. -/
theorem Draws.append {pairings pairings' : List Pairing}
    (h : Draws P pairings) (h' : Draws P pairings') :
    Draws P (pairings ++ pairings') :=
  List.forall_mem_append.mpr ⟨h, h'⟩

/-- A pair with a type of the set. -/
theorem draws_pair {expected actual : TypeId} (h : P actual) :
    Draws P [pair variance expected actual] := by
  refine .cons ?_ .nil
  intro id hid
  rw [List.mem_singleton.mp hid]
  exact h

/-- Pairs of types taken side by side. -/
theorem draws_zipWith {types actual : List TypeId}
    (h : ∀ a ∈ actual, P a) :
    Draws P (types.zipWith (pair variance) actual) := by
  induction types generalizing actual with
  | nil => exact .nil
  | cons c types ih =>
      cases actual with
      | nil => exact .nil
      | cons a actual =>
          rw [List.forall_mem_cons] at h
          exact (draws_pair h.1).append (ih h.2)

/-- The rest of one against the rest of the other, where both have one. -/
theorem draws_rests {rest actual : Option TypeId}
    (h : ∀ a ∈ actual, P a) :
    Draws P (pairRests variance rest actual) := by
  cases rest with
  | none => exact .nil
  | some rest =>
      cases actual with
      | none => exact .nil
      | some a => exact draws_pair (h a rfl)

/-- Entries that are found by their names. -/
theorem draws_named {α : Type} {type : α → TypeId} {as bs : List α}
    {matching : α → α → Bool} (h : ∀ b ∈ bs, P (type b)) :
    Draws P (as.filterMap fun a =>
      (bs.find? (matching a)).map fun b =>
        pair variance (type a) (type b)) := by
  intro p hp
  obtain ⟨a, -, hp⟩ := List.mem_filterMap.mp hp
  obtain ⟨b, hb, rfl⟩ := Option.map_eq_some_iff.mp hp
  intro id hid
  rw [List.mem_singleton.mp hid]
  exact h b (List.mem_of_find?_eq_some hb)

/-- One type against the union of several. -/
theorem draws_pairUnion {expected : TypeId} {found : List TypeId}
    (h : ∀ id ∈ found, P id) {pairings : List Pairing}
    (hplan : pairUnion variance expected found = .pairs pairings) :
    Draws P pairings := by
  unfold pairUnion at hplan
  cases hplan
  by_cases hempty : found.isEmpty = true
  · rw [if_pos hempty]
    exact .nil
  · rw [if_neg hempty]
    exact .cons h .nil

-- ======================================================= parts of forms

/-- The values of a record are its parts, or any data. -/
theorem on_recordValues {shape : RecordType}
    (hparts : ∀ c ∈ (Kind.record shape).children, P c)
    (hdata : P .anydata) : ∀ t ∈ shape.valueTypes, P t := by
  obtain ⟨hfields, hrest⟩ := record_children hparts
  exact RecordType.on_valueTypes hfields
    (RecordType.on_restType hrest hdata)

/-- The elements of a container are its parts, or any data. -/
theorem on_elementTypes {kind : Kind} (hparts : ∀ c ∈ kind.children, P c)
    (hdata : P .anydata) : ∀ t ∈ elementTypes kind, P t := by
  intro t ht
  cases kind with
  | record shape => exact on_recordValues hparts hdata t ht
  | array | tuple | map => exact hparts t ht
  | leaf | union | error | stream | table | function | object | typedesc
  | xml => cases ht

/-- A stream's values and its completion, which is nil if it is not
written. -/
theorem on_streamParts {kind : Kind} {parts : TypeId × TypeId}
    (hparts : ∀ c ∈ kind.children, P c) (hnil : P .nil)
    (h : streamParts? kind = some parts) : P parts.1 ∧ P parts.2 := by
  cases kind with
  | stream constraint completion =>
      cases h
      refine ⟨hparts _ List.mem_cons_self, ?_⟩
      cases completion with
      | none => exact hnil
      | some c =>
          exact hparts c (List.mem_cons_of_mem _ List.mem_cons_self)
  | leaf | array | tuple | map | record | union | error | table
  | function | object | typedesc | xml => cases h

/-- The content of an XML type is below it, however deep it is looked
for. -/
theorem on_xmlContent (hP : g.ClosedOn P) {depth : Nat}
    {id content : TypeId} (hid : P id)
    (h : xmlContent g depth id = .ok content) : P content := by
  induction depth generalizing id with
  | zero =>
      obtain ⟨kind, -, h⟩ := bind_eq_ok.mp h
      cases pure_eq_ok.mp h
      exact hid
  | succ depth ih =>
      obtain ⟨kind, hkind, h⟩ := bind_eq_ok.mp h
      split at h
      next constraint =>
        exact ih (hP.of_kind hid hkind _ List.mem_cons_self) h
      next =>
        cases pure_eq_ok.mp h
        exact hid

/-- So are the types that an XML type holds. -/
theorem on_xmlTypes (hP : g.ClosedOn P) {depth : Nat} {id : TypeId}
    (hid : P id) {types : List TypeId}
    (h : xmlTypes g depth id = .ok types) : ∀ t ∈ types, P t := by
  obtain ⟨kind, hkind, h⟩ := bind_eq_ok.mp h
  split at h
  next constraint =>
    obtain ⟨content, hcontent, h⟩ := bind_eq_ok.mp h
    cases pure_eq_ok.mp h
    have hmem := hP.of_kind hid hkind _ List.mem_cons_self
    intro t ht
    rw [List.mem_singleton.mp ht]
    exact on_xmlContent hP hmem hcontent
  next =>
    cases pure_eq_ok.mp h
    intro t ht
    rw [List.mem_singleton.mp ht]
    exact hid
  next =>
    cases pure_eq_ok.mp h
    intro t ht
    cases ht

-- ======================================================= records as maps

/-- Adding a type to a list adds that type at most. -/
theorem mem_addDistinct {checker : Checker} {types types' : List TypeId}
    {id : TypeId} (h : addDistinct g checker types id = .ok types') :
    ∀ t ∈ types', t ∈ types ∨ t = id := by
  obtain ⟨known, -, h⟩ := bind_eq_ok.mp h
  cases known with
  | true =>
      cases pure_eq_ok.mp h
      exact fun t ht => .inl ht
  | false =>
      cases pure_eq_ok.mp h
      intro t ht
      simpa using ht

/-- The unnamed fields that count as values are those of the record. -/
theorem mem_mapRest {shape : RecordType} {rest : Option TypeId}
    (h : mapRest? g shape = .ok rest) :
    ∀ t ∈ rest, t ∈ shape.restType := by
  unfold mapRest? at h
  cases hrest : shape.restType with
  | none =>
      rw [hrest] at h
      cases pure_eq_ok.mp h
      exact fun t ht => ht
  | some own =>
      rw [hrest] at h
      obtain ⟨kind, -, h⟩ := bind_eq_ok.mp h
      split at h
      · cases pure_eq_ok.mp h
        intro t ht
        cases ht
      · cases pure_eq_ok.mp h
        intro t ht
        cases ht
      · cases pure_eq_ok.mp h
        exact fun t ht => ht

/-- Adds the type of a field, unless that of the unnamed fields covers
it. -/
def addField (g : Graph) (checker : Checker) (rest : Option TypeId)
    (types : List TypeId) (field : Field) : Except Fault (List TypeId) := do
  let covered ←
    match rest with
    | some rest => checker.assignable g field.type rest
    | none => pure false
  if covered then return types
  else addDistinct g checker types field.type

/-- Making a map of a record, in steps: the unnamed fields, the fields,
and the two together. -/
theorem mapConstraint_eq (g : Graph) (checker : Checker)
    (shape : RecordType) :
    mapConstraint g checker shape = (do
      let rest ← mapRest? g shape
      let types ← shape.fields.foldlM (addField g checker rest) []
      let types ← rest.toList.foldlM (addDistinct g checker) types
      match types with
      | [type] => return .given type
      | types => return .unionOf types) := rfl

/-- Adding a field adds its type at most. -/
theorem mem_addField {checker : Checker} {rest : Option TypeId}
    {types types' : List TypeId} {field : Field}
    (h : addField g checker rest types field = .ok types') :
    ∀ t ∈ types', t ∈ types ∨ t = field.type := by
  have hcases : types = types' ∨
      addDistinct g checker types field.type = .ok types' := by
    cases rest with
    | none => exact .inr h
    | some own =>
        obtain ⟨covered, -, h⟩ := bind_eq_ok.mp h
        cases covered with
        | true => exact .inl (pure_eq_ok.mp h)
        | false => exact .inr h
  rcases hcases with rfl | hadd
  · exact fun t ht => .inl ht
  · exact mem_addDistinct hadd

/-- The types that are collected from fields are theirs. The induction
is over the fields, for whatever was collected before. -/
theorem mem_foldFields {checker : Checker} {rest : Option TypeId}
    {fields : List Field} {types : List TypeId}
    (h : fields.foldlM (addField g checker rest) [] = .ok types) :
    ∀ t ∈ types, t ∈ fields.map (·.type) := by
  refine foldlM_invariant
    (I := fun types => ∀ t ∈ types, t ∈ fields.map (·.type)) ?_ ?_ h
  · intro field hfield known known' hknown hturn t ht
    rcases mem_addField hturn t ht with ht | rfl
    · exact hknown t ht
    · exact List.mem_map_of_mem hfield
  · intro t ht
    cases ht

/-- A record seen as a map holds the values of the record. -/
theorem ids_mapConstraint {checker : Checker} {shape : RecordType}
    {source : Source} (h : mapConstraint g checker shape = .ok source) :
    ∀ t ∈ source.ids, t ∈ shape.valueTypes := by
  rw [mapConstraint_eq] at h
  obtain ⟨rest, hrest, h⟩ := bind_eq_ok.mp h
  obtain ⟨types, htypes, h⟩ := bind_eq_ok.mp h
  obtain ⟨types', htypes', h⟩ := bind_eq_ok.mp h
  have hfields : ∀ t ∈ types, t ∈ shape.valueTypes := fun t ht =>
    List.mem_append_left _ (mem_foldFields htypes t ht)
  have hall : ∀ t ∈ types', t ∈ shape.valueTypes := by
    refine foldlM_invariant
      (I := fun types => ∀ t ∈ types, t ∈ shape.valueTypes) ?_ hfields
      htypes'
    intro own hown known known' hknown hturn t ht
    rcases mem_addDistinct hturn t ht with ht | rfl
    · exact hknown t ht
    · have hmem := mem_mapRest hrest t (Option.mem_toList.mp hown)
      exact List.mem_append_right _ (Option.mem_toList.mpr hmem)
  split at h
  · cases pure_eq_ok.mp h
    exact hall
  · cases pure_eq_ok.mp h
    exact hall

-- ================================================================= plans

/-- A stream against a union: its values against those of all streams in
it, and its completion against theirs. -/
theorem draws_streamUnion (hP : g.ClosedOn P) (hnil : P .nil)
    {constraint : TypeId} {completion : Option TypeId}
    {members : List TypeId} (hmembers : ∀ m ∈ members, P m)
    {pairings : List Pairing}
    (h : planStreamUnion g variance constraint completion members
      = .ok (.pairs pairings)) : Draws P pairings := by
  obtain ⟨kinds, hkinds, h⟩ := bind_eq_ok.mp h
  have hstreams : ∀ parts ∈ kinds.filterMap streamParts?,
      P parts.1 ∧ P parts.2 := by
    intro parts hmem
    obtain ⟨kind, hkind, hparts⟩ := List.mem_filterMap.mp hmem
    obtain ⟨m, hm, hlook⟩ := exists_of_mem_mapM hkinds hkind
    exact on_streamParts (hP.of_kind (hmembers m hm) hlook) hnil hparts
  by_cases hempty : (kinds.filterMap streamParts?).isEmpty = true
  · rw [if_pos hempty] at h
    cases pure_eq_ok.mp h
    exact .nil
  · rw [if_neg hempty] at h
    cases pure_eq_ok.mp h
    refine .cons ?_ ?_
    · intro id hid
      obtain ⟨parts, hmem, rfl⟩ := List.mem_map.mp hid
      exact (hstreams parts hmem).1
    · intro p hp id hid
      obtain ⟨c, -, rfl⟩ := List.mem_map.mp hp
      obtain ⟨parts, hmem, rfl⟩ := List.mem_map.mp hid
      exact (hstreams parts hmem).2

/-- An error type against another: detail against detail, where a union of
error types has the general detail. -/
theorem draws_error {expected detail actual : TypeId} {actualKind : Kind}
    (hparts : ∀ c ∈ actualKind.children, P c) (hdetail : P .errorDetail)
    {pairings : List Pairing}
    (h : planError g variance expected detail actual actualKind
      = .ok (.pairs pairings)) : Draws P pairings := by
  unfold planError at h
  by_cases htop : expected = .error
  · rw [if_pos htop] at h
    cases pure_eq_ok.mp h
    exact .nil
  · rw [if_neg htop] at h
    split at h
    next actualDetail =>
      cases pure_eq_ok.mp h
      exact draws_pair (hparts _ List.mem_cons_self)
    next members =>
      obtain ⟨errors, -, h⟩ := bind_eq_ok.mp h
      cases errors with
      | true =>
          cases pure_eq_ok.mp h
          exact draws_pair hdetail
      | false => cases pure_eq_ok.mp h
    next => cases pure_eq_ok.mp h

/-- A plan draws on a closed set that has the parts of the actual type
and the builtin types that stand in for what is not written. It draws on
the actual type itself only where that has no parts. -/
theorem plan_draws_on_parts (hP : g.ClosedOn P) (hnil : P .nil)
    (hdata : P .anydata) (hdetail : P .errorDetail) {checker : Checker}
    {maxDepth : Nat} {expected actual : TypeId} {kind : Kind}
    {actualNode : Node} (hnode : g.node? actual = some actualNode)
    (hparts : ∀ c ∈ actualNode.kind.children, P c)
    (hleaf : actualNode.kind.isLeaf = true → P actual)
    {pairings : List Pairing}
    (h : plan g checker maxDepth variance expected kind actual
      actualNode.kind = .ok (.pairs pairings)) : Draws P pairings := by
  -- the forms are told apart below, and the actual type goes by its own
  have hinner : ∀ inner, g.withoutNil? actual = .ok (some inner) →
      P inner :=
    fun inner hinner => hparts inner (Graph.mem_of_withoutNil? hnode hinner)
  generalize actualNode.kind = actualKind at hparts hleaf h
  unfold plan at h
  split at h
  next element actualElement =>
    cases pure_eq_ok.mp h
    exact draws_pair (hparts _ List.mem_cons_self)
  next element members rest =>
    cases pure_eq_ok.mp h
    exact .cons hparts .nil
  next element members =>
    obtain ⟨kinds, hkinds, h⟩ := bind_eq_ok.mp h
    refine draws_pairUnion ?_ (pure_eq_ok.mp h)
    intro t ht
    obtain ⟨kind, hkind, ht⟩ := List.mem_flatMap.mp ht
    obtain ⟨m, hm, hlook⟩ := exists_of_mem_mapM hkinds hkind
    exact on_elementTypes (hP.of_kind (hparts m hm) hlook) hdata t ht
  next constraint actualConstraint =>
    cases pure_eq_ok.mp h
    exact draws_pair (hparts _ List.mem_cons_self)
  next constraint shape =>
    obtain ⟨source, hsource, h⟩ := bind_eq_ok.mp h
    cases pure_eq_ok.mp h
    refine .cons ?_ .nil
    intro t ht
    exact on_recordValues hparts hdata t (ids_mapConstraint hsource t ht)
  next constraint completion actualConstraint actualCompletion =>
    cases pure_eq_ok.mp h
    obtain ⟨hfirst, hsecond⟩ := on_streamParts hparts hnil rfl
    refine (draws_pair hfirst).append ?_
    intro p hp
    obtain ⟨c, -, rfl⟩ := List.mem_map.mp hp
    exact draws_pair hsecond _ List.mem_cons_self
  next constraint completion members =>
    exact draws_streamUnion hP hnil hparts h
  next shape actualShape =>
    cases pure_eq_ok.mp h
    refine (draws_pair (hparts _ List.mem_cons_self)).append ?_
    intro p hp
    obtain ⟨key, -, rfl⟩ := List.mem_map.mp hp
    exact hparts
  next members rest actualMembers actualRest =>
    cases pure_eq_ok.mp h
    obtain ⟨hmembers, hrest⟩ := List.forall_mem_append.mp hparts
    exact (draws_zipWith hmembers).append
      (draws_rests fun a ha => hrest a (Option.mem_toList.mpr ha))
  next members actualMembers =>
    obtain ⟨inner, -, h⟩ := bind_eq_ok.mp h
    obtain ⟨actualInner, hlook, h⟩ := bind_eq_ok.mp h
    split at h
    · cases pure_eq_ok.mp h
      exact draws_pair (hinner _ hlook)
    · cases pure_eq_ok.mp h
  next shape actualShape =>
    cases pure_eq_ok.mp h
    exact draws_named (record_children hparts).1
  next signature actualSignature =>
    cases pure_eq_ok.mp h
    obtain ⟨hfront, hresult⟩ := List.forall_mem_append.mp hparts
    obtain ⟨hparams, hrest⟩ := List.forall_mem_append.mp hfront
    refine ((draws_zipWith hparams).append (draws_rests ?_)).append
      (draws_pair (hresult _ List.mem_cons_self))
    exact fun a ha => hrest a (Option.mem_toList.mpr ha)
  next shape actualShape =>
    cases pure_eq_ok.mp h
    obtain ⟨hfields, hmethods⟩ := List.forall_mem_append.mp hparts
    refine (draws_named fun f hf => ?_).append
      (draws_named fun m hm => ?_)
    · exact hfields _ (List.mem_map_of_mem hf)
    · exact hmethods _ (List.mem_map_of_mem hm)
  next detail actualKind => exact draws_error hparts hdetail h
  next constraint actualConstraint =>
    obtain ⟨content, hcontent, h⟩ := bind_eq_ok.mp h
    cases pure_eq_ok.mp h
    exact draws_pair
      (on_xmlContent hP (hparts _ List.mem_cons_self) hcontent)
  next constraint item =>
    cases pure_eq_ok.mp h
    exact draws_pair (hleaf rfl)
  next constraint members =>
    obtain ⟨found, hfound, h⟩ := bind_eq_ok.mp h
    refine draws_pairUnion ?_ (pure_eq_ok.mp h)
    intro t ht
    obtain ⟨own, hown, ht⟩ := List.mem_flatten.mp ht
    obtain ⟨m, hm, hlook⟩ := exists_of_mem_mapM hfound hown
    exact on_xmlTypes hP (hparts m hm) hlook t ht
  next constraint actualConstraint =>
    cases pure_eq_ok.mp h
    exact draws_pair (hparts _ List.mem_cons_self)
  next => cases pure_eq_ok.mp h

/-- A plan draws on any such set that has the actual type. -/
theorem plan_draws (hP : g.ClosedOn P) (hnil : P .nil)
    (hdata : P .anydata) (hdetail : P .errorDetail) {checker : Checker}
    {maxDepth : Nat} {expected actual : TypeId} {kind : Kind}
    {actualNode : Node} (hactual : P actual)
    (hnode : g.node? actual = some actualNode) {pairings : List Pairing}
    (h : plan g checker maxDepth variance expected kind actual
      actualNode.kind = .ok (.pairs pairings)) : Draws P pairings :=
  plan_draws_on_parts hP hnil hdata hdetail hnode (hP.child hactual hnode)
    (fun _ => hactual) h

-- =============================================================== sources

open TypeParams.Graph (Adds Admits)

variable {g₀ : Graph} {T : TypeId → Prop} {w w' : Workspace}

/-- The union of admitted types is one of them, or never, or added. -/
theorem unionOf_adds (hT : g₀.ClosedOn T) (hnever : T .never)
    (hadds : Adds g₀ T w.types.graph) {ids : List TypeId} {id : TypeId}
    (hids : ∀ i ∈ ids, Admits g₀ T w.types.graph i)
    (h : WorkM.unionOf ids w = .ok id w') :
    w.types.graph.Extends w'.types.graph ∧ Adds g₀ T w'.types.graph ∧
      Admits g₀ T w'.types.graph id := by
  obtain ⟨types, hunion, rfl⟩ := WorkM.unionOf_run.mp h
  obtain ⟨members, hmembers, hcases⟩ := Layer.unionOf_cases hunion
  have hall : ∀ m ∈ members, Admits g₀ T w.types.graph m := by
    intro m hm
    obtain ⟨i, hi, node, hn, rfl | hc⟩ :=
      Layer.mem_unionMembers hmembers m hm
    · exact hids m hi
    · exact (hadds.closedOn hT).child (hids i hi) hn m hc
  rcases hcases with ⟨rfl, rfl⟩ | ⟨rfl, rfl⟩ | ⟨rfl, rfl⟩
  · exact ⟨.refl _, hadds, .inl hnever⟩
  · exact ⟨.refl _, hadds, hall id List.mem_cons_self⟩
  · rw [Layer.nextId_eq, Layer.graph_alloc_eq]
    exact ⟨Graph.extends_push _ _, hadds.push _ rfl hall⟩

/-- What the key of a table is found to be. -/
inductive Keyed (table : TableType) (w : Workspace) :
    Option TypeId → Workspace → Prop where
  | unknown : Keyed table w none w
  | given {key : TypeId} (hkey : table.key = some key) :
      Keyed table w (some key) w
  /-- The type of the one key field. -/
  | single {row : Node} {shape : RecordType} {field : Field}
      (hrow : w.types.graph.node? table.row = some row)
      (hkind : row.kind = .record shape) (hfield : field ∈ shape.fields) :
      Keyed table w (some field.type) w
  /-- A new tuple of the key fields' types. -/
  | several {row : Node} {shape : RecordType} {fields : List Field}
      (hrow : w.types.graph.node? table.row = some row)
      (hkind : row.kind = .record shape)
      (hfields : ∀ f ∈ fields, f ∈ shape.fields) :
      Keyed table w (some w.types.nextId)
        { w with types := (w.types.alloc
            (.anonymous (.tuple (fields.map (·.type)) none))).2 }

/-- Fields that are found by their names are fields of the record. -/
theorem mem_of_mapM_field? {shape : RecordType} {names : List String}
    {fields : List Field} (h : names.mapM shape.field? = some fields) :
    ∀ f ∈ fields, f ∈ shape.fields := by
  induction names generalizing fields with
  | nil =>
      cases h
      intro f hf
      cases hf
  | cons name names ih =>
      simp only [List.mapM_cons, Option.bind_eq_bind,
        Option.bind_eq_some_iff, Option.pure_def, Option.some.injEq] at h
      obtain ⟨field, hfield, rest, hrest, rfl⟩ := h
      exact List.forall_mem_cons.mpr
        ⟨List.mem_of_find?_eq_some hfield, ih hrest⟩

/-- The type of a key that these fields make up. -/
def keyOfFields : List Field → WorkM (Option TypeId)
  | [field] => return some field.type
  | fields =>
      return some
        (← WorkM.alloc (.anonymous (.tuple (fields.map (·.type)) none)))

/-- The type of a key that is known by its fields only. -/
def keyOfRow (table : TableType) : WorkM (Option TypeId) := do
  if table.keyFields.isEmpty then return none
  let row ← WorkM.node table.row
  let .record shape := row.kind | return none
  let some fields := table.keyFields.mapM shape.field? | return none
  keyOfFields fields

/-- The key of a table is the written one, or is made of the fields that
it is known by. -/
theorem resolve_keyOf_eq (table : TableType) :
    (Source.keyOf table).resolve
      = match table.key with
        | some key => pure (some key)
        | none => keyOfRow table := by
  obtain ⟨row, key, keyFields⟩ := table
  cases key with
  | some key => rfl
  | none => rfl

/-- What a key that is known by its fields is found to be. -/
theorem keyOfRow_keyed {table : TableType} {source : Option TypeId}
    (h : keyOfRow table w = .ok source w') : Keyed table w source w' := by
  unfold keyOfRow at h
  by_cases hempty : table.keyFields.isEmpty = true
  · rw [if_pos hempty] at h
    cases h
    exact .unknown
  · rw [if_neg hempty] at h
    obtain ⟨row, w₁, hread, h⟩ := bind_run.mp h
    obtain ⟨hrow, rfl⟩ := WorkM.node_run.mp hread
    cases hkind : row.kind with
    | record shape =>
        rw [hkind] at h
        cases hmap : table.keyFields.mapM shape.field? with
        | none =>
            simp only [hmap] at h
            cases h
            exact .unknown
        | some fields =>
            simp only [hmap] at h
            have hfields := mem_of_mapM_field? hmap
            match fields, h with
            | [field], h =>
                cases h
                exact .single hrow hkind (hfields field List.mem_cons_self)
            | [], h =>
                cases h
                exact .several hrow hkind hfields
            | _ :: _ :: _, h =>
                cases h
                exact .several hrow hkind hfields
    | leaf | array | tuple | map | union | error | stream | table
    | function | object | typedesc | xml =>
        rw [hkind] at h
        cases h
        exact .unknown

/-- What the key of any table is found to be. -/
theorem resolve_keyOf {table : TableType} {source : Option TypeId}
    (h : (Source.keyOf table).resolve w = .ok source w') :
    Keyed table w source w' := by
  rw [resolve_keyOf_eq] at h
  cases hkey : table.key with
  | some key =>
      rw [hkey] at h
      cases h
      exact .given hkey
  | none =>
      rw [hkey] at h
      exact keyOfRow_keyed h

/-- The key of an admitted table is admitted. -/
theorem Keyed.adds (hT : g₀.ClosedOn T)
    (hadds : Adds g₀ T w.types.graph) {table : TableType}
    {key : Option TypeId} (hrow : Admits g₀ T w.types.graph table.row)
    (hkey : ∀ k ∈ table.key, Admits g₀ T w.types.graph k)
    (h : Keyed table w key w') :
    w.types.graph.Extends w'.types.graph ∧ Adds g₀ T w'.types.graph ∧
      ∀ k ∈ key, Admits g₀ T w'.types.graph k := by
  have hfield : ∀ row shape, w.types.graph.node? table.row = some row →
      row.kind = .record shape →
      ∀ f ∈ shape.fields, Admits g₀ T w.types.graph f.type := by
    intro row shape hn hkind
    have hparts := (hadds.closedOn hT).child hrow hn
    rw [hkind] at hparts
    exact (record_children hparts).1
  cases h with
  | unknown =>
      refine ⟨.refl _, hadds, fun k hk => ?_⟩
      cases hk
  | given hknown =>
      refine ⟨.refl _, hadds, fun k hk => ?_⟩
      cases hk
      exact hkey _ hknown
  | single hn hkind hmem =>
      refine ⟨.refl _, hadds, fun k hk => ?_⟩
      cases hk
      exact hfield _ _ hn hkind _ hmem
  | @several row shape fields hn hkind hmem =>
      have hparts : ∀ c ∈ fields.map (·.type) ++ [],
          Admits g₀ T w.types.graph c := by
        rw [List.append_nil]
        intro c hc
        obtain ⟨f, hf, rfl⟩ := List.mem_map.mp hc
        exact hfield row shape hn hkind f (hmem f hf)
      obtain ⟨hadds', hid⟩ := hadds.push
        (.anonymous (.tuple (fields.map Field.type) none)) rfl hparts
      rw [Layer.graph_alloc_eq, Layer.nextId_eq]
      refine ⟨Graph.extends_push _ _, hadds', fun k hk => ?_⟩
      cases hk
      exact hid

/-- If what a pairing's actual type is made from is admitted, then so is
the type. -/
theorem Source.resolve_adds (hT : g₀.ClosedOn T) (hnever : T .never)
    (hadds : Adds g₀ T w.types.graph) {source : Source}
    {actual : Option TypeId}
    (hids : ∀ id ∈ source.ids, Admits g₀ T w.types.graph id)
    (h : source.resolve w = .ok actual w') :
    w.types.graph.Extends w'.types.graph ∧ Adds g₀ T w'.types.graph ∧
      ∀ a ∈ actual, Admits g₀ T w'.types.graph a := by
  cases source with
  | given id =>
      cases h
      refine ⟨.refl _, hadds, fun a ha => ?_⟩
      cases ha
      exact hids _ List.mem_cons_self
  | unionOf ids =>
      obtain ⟨id, w₁, hunion, h⟩ := bind_run.mp h
      cases h
      obtain ⟨hext, hadds', hid⟩ :=
        unionOf_adds hT hnever hadds hids hunion
      refine ⟨hext, hadds', fun a ha => ?_⟩
      cases ha
      exact hid
  | keyOf table =>
      obtain ⟨hrow, hkey⟩ := List.forall_mem_cons.mp hids
      refine (resolve_keyOf h).adds hT hadds hrow fun k hk => ?_
      exact hkey k (Option.mem_toList.mpr hk)

end TypeParams.Matching
