/-
Plans in graphs that agree.

A plan is read off the form of the declared type, the actual type and
what is below that one. In two graphs that agree on a closed set with
everything below the actual type, the plan is the same (`plan_agrees`).
The actual type itself may go by different ids, as long as it has the
same form.

# What a plan looks at

Of what is below the declared type a plan looks at one thing only, which
member of a union is nil; that has to be the same. Everything else is
looked up on the side of the actual type: the members of a union, the
content of an XML type, and, where a record is matched as a map, which
of its values' types cover each other. The last is put to the checker,
and the structural checker answers alike in graphs that agree
(`Graph.Agreement.assignable_eq`), because its search never leaves a
closed set with anydata and nil.

# The order of the lemmas

First the single lookups on the set, then the helpers that make a record
into a map, each with the equation between the two graphs, and last the
plan, form by form. Where a helper folds over a list, the list so far
has to be in the set for the next step, so its lemma carries that along.
-/
import TypeParams.Proofs.Checker
import TypeParams.Proofs.Matching.Sources
import TypeParams.Proofs.Subtype.Growth

namespace TypeParams

variable {g g' : Graph} {P : TypeId → Prop}

-- ====================================================== single lookups

/-- The two agree on a closed set with the types that stand in for what
is not written. -/
structure Graph.Agreement (g : Graph) (P : TypeId → Prop) (g' : Graph) :
    Prop where
  closed : g.ClosedOn P
  agrees : g.AgreesOn P g'
  nil : P .nil
  anydata : P .anydata

namespace Graph.Agreement

variable (h : g.Agreement P g')
include h

/-- The same form is looked up. -/
theorem kind_eq {id : TypeId} (hid : P id) : g'.kind id = g.kind id := by
  obtain ⟨node, hn, -⟩ := h.closed id hid
  rw [kind_of_node hn, kind_of_node (h.agrees _ _ hid hn)]

/-- The same types are nil. -/
theorem isNil_eq {id : TypeId} (hid : P id) :
    g'.isNil id = g.isNil id := by
  unfold isNil
  rw [h.kind_eq hid]

/-- Unions have the same members. -/
theorem unionParts_eq {id : TypeId} (hid : P id) :
    g'.unionParts id = g.unionParts id := by
  obtain ⟨node, hn, -⟩ := h.closed id hid
  unfold unionParts
  rw [node_eq_ok.mpr hn, node_eq_ok.mpr (h.agrees _ _ hid hn)]

/-- Types of one form, with parts in the set. -/
theorem withoutNil?_eq {a b : TypeId} {node : Node}
    (ha : g.node? a = some node) (hb : g'.node? b = some node)
    (hparts : ∀ c ∈ node.kind.children, P c) :
    g'.withoutNil? b = g.withoutNil? a := by
  rw [withoutNil?_of_node ha, withoutNil?_of_node hb]
  refine otherThanNil_congr fun x y hkind => ?_
  rw [hkind] at hparts
  exact ⟨h.isNil_eq (hparts y (by simp [Kind.children])),
    fun _ => h.isNil_eq (hparts x (by simp [Kind.children]))⟩

/-- An XML type has the same content, however deep it is looked for. -/
theorem xmlContent_eq (depth : Nat) {id : TypeId} (hid : P id) :
    Matching.xmlContent g' depth id = Matching.xmlContent g depth id := by
  induction depth generalizing id with
  | zero =>
      unfold Matching.xmlContent
      rw [h.kind_eq hid]
  | succ depth ih =>
      unfold Matching.xmlContent
      rw [h.kind_eq hid]
      obtain ⟨node, hn, hparts⟩ := h.closed id hid
      rw [kind_of_node hn]
      cases hkind : node.kind with
      | xml constraint =>
          rw [hkind] at hparts
          exact ih (hparts _ List.mem_cons_self)
      | leaf | array | tuple | map | record | union | error | stream
      | table | function | object | typedesc => rfl

/-- It holds the same types. -/
theorem xmlTypes_eq (depth : Nat) {id : TypeId} (hid : P id) :
    Matching.xmlTypes g' depth id = Matching.xmlTypes g depth id := by
  unfold Matching.xmlTypes
  rw [h.kind_eq hid]
  obtain ⟨node, hn, hparts⟩ := h.closed id hid
  rw [kind_of_node hn]
  cases hkind : node.kind with
  | xml constraint =>
      rw [hkind] at hparts
      change (Matching.xmlContent g' depth constraint >>= _) = _
      rw [h.xmlContent_eq depth (hparts _ List.mem_cons_self)]
      rfl
  | leaf form => cases form <;> rfl
  | array | tuple | map | record | union | error | stream
  | table | function | object | typedesc => rfl

/-- The structural checker answers alike. -/
theorem assignable_eq {a b : TypeId} (ha : P a) (hb : P b) :
    Checker.structural.assignable g' a b
      = Checker.structural.assignable g a b := by
  obtain ⟨answer, hanswer, hiff⟩ :=
    assignable_answers h.closed h.anydata h.nil ha hb
  obtain ⟨answer', hanswer', hiff'⟩ := assignable_answers
    (h.closed.agrees h.agrees) h.anydata h.nil ha hb
  rw [assignable_agrees_iff h.closed h.anydata h.nil h.agrees ha hb,
    ← hiff] at hiff'
  have heq : answer' = answer := Bool.eq_iff_iff.mpr hiff'
  rw [heq] at hanswer'
  exact hanswer'.trans hanswer.symm

/-- The same types are the same. -/
theorem sameType_eq {a b : TypeId} (ha : P a) (hb : P b) :
    Checker.structural.sameType g' a b
      = Checker.structural.sameType g a b := by
  change bothWays Checker.structural.assignable g' a b
    = bothWays Checker.structural.assignable g a b
  unfold bothWays
  rw [h.assignable_eq ha hb, h.assignable_eq hb ha]

end Graph.Agreement

-- ================================================================ plans

namespace Matching

variable (h : g.Agreement P g')
include h

/-- The unnamed fields of a record count as values of a map in both
graphs, or in neither. -/
theorem mapRest?_agrees {shape : RecordType}
    (hrest : ∀ r ∈ shape.restType, P r) :
    mapRest? g' shape = mapRest? g shape := by
  unfold mapRest?
  cases hshape : shape.restType with
  | none => rfl
  | some rest =>
      change (g'.kind rest >>= _) = (g.kind rest >>= _)
      rw [h.kind_eq (hrest rest hshape)]

/-- A type that is there already is left out in both graphs. -/
theorem addDistinct_agrees {types : List TypeId} {id : TypeId}
    (htypes : ∀ t ∈ types, P t) (hid : P id) :
    addDistinct g' .structural types id
      = addDistinct g .structural types id := by
  unfold addDistinct
  rw [anyM_congr fun t ht => h.sameType_eq (htypes t ht) hid]

/-- The type of a field is added in both graphs, or in neither. -/
theorem addField_agrees {rest : Option TypeId} {types : List TypeId}
    {field : Field} (hrest : ∀ r ∈ rest, P r)
    (htypes : ∀ t ∈ types, P t) (hfield : P field.type) :
    addField g' .structural rest types field
      = addField g .structural rest types field := by
  unfold addField
  rw [addDistinct_agrees h htypes hfield]
  cases rest with
  | none => rfl
  | some own =>
      change (Checker.structural.assignable g' field.type own >>= _)
        = (Checker.structural.assignable g field.type own >>= _)
      rw [h.assignable_eq hfield (hrest own rfl)]

/-- The fields of a record are collected alike. -/
theorem foldFields_agrees {rest : Option TypeId} {fields : List Field}
    (hrest : ∀ r ∈ rest, P r) (hfields : ∀ f ∈ fields, P f.type) :
    fields.foldlM (addField g' .structural rest) []
      = fields.foldlM (addField g .structural rest) [] := by
  refine (foldlM_congr (I := fun types => ∀ t ∈ types, P t) ?_ ?_
    (by simp)).symm
  · intro f hf types htypes
    exact (addField_agrees h hrest htypes (hfields f hf)).symm
  · intro f hf types types' htypes hturn t ht
    rcases mem_addField hturn t ht with ht | rfl
    · exact htypes t ht
    · exact hfields f hf

/-- The type of the unnamed fields is added alike. -/
theorem foldRest_agrees {rest : Option TypeId} {types : List TypeId}
    (hrest : ∀ r ∈ rest, P r) (htypes : ∀ t ∈ types, P t) :
    rest.toList.foldlM (addDistinct g' .structural) types
      = rest.toList.foldlM (addDistinct g .structural) types := by
  cases rest with
  | none => rfl
  | some own =>
      simp only [Option.toList_some, List.foldlM_cons, List.foldlM_nil]
      rw [addDistinct_agrees h htypes (hrest own rfl)]

/-- A record makes the same map in both graphs. -/
theorem mapConstraint_agrees {shape : RecordType}
    (hvalues : ∀ t ∈ shape.valueTypes, P t) :
    mapConstraint g' .structural shape
      = mapConstraint g .structural shape := by
  have hfields : ∀ f ∈ shape.fields, P f.type := fun f hf =>
    hvalues _ (List.mem_append_left _ (List.mem_map_of_mem hf))
  have hshape : ∀ r ∈ shape.restType, P r := fun r hr =>
    hvalues _ (List.mem_append_right _ (Option.mem_toList.mpr hr))
  rw [mapConstraint_eq, mapConstraint_eq, mapRest?_agrees h hshape]
  refine bind_congr_ok fun rest hrest => ?_
  have hrestP : ∀ r ∈ rest, P r := fun r hr =>
    hshape r (mem_mapRest hrest r hr)
  rw [foldFields_agrees h hrestP hfields]
  refine bind_congr_ok fun types htypes => ?_
  rw [foldRest_agrees h hrestP]
  intro t ht
  obtain ⟨f, hf, rfl⟩ := List.mem_map.mp (mem_foldFields htypes t ht)
  exact hfields f hf

/-- Types of one form are planned for alike. -/
theorem plan_agrees {maxDepth : Nat} {variance : Variance}
    {expected a b : TypeId} {kind actualKind : Kind}
    (hparts : ∀ c ∈ actualKind.children, P c)
    (hexpected : g'.withoutNil? expected = g.withoutNil? expected)
    (hinner : g'.withoutNil? b = g.withoutNil? a)
    (herrors : ∀ members, actualKind = .union members →
      g'.onlyErrors b = g.onlyErrors a)
    (hleaf : actualKind.isLeaf = true → b = a) :
    plan g' .structural maxDepth variance expected kind b actualKind
      = plan g .structural maxDepth variance expected kind a
          actualKind := by
  have hkinds : ∀ members, actualKind = .union members →
      members.mapM g'.kind = members.mapM g.kind := by
    rintro members rfl
    exact mapM_congr fun m hm => h.kind_eq (hparts m hm)
  unfold plan
  split
  next element members rest => rfl
  next => rfl
  next element members => rw [hkinds members rfl]
  next => rfl
  next constraint shape =>
    rw [mapConstraint_agrees h (on_recordValues hparts h.anydata)]
  next => rfl
  next constraint completion members =>
    unfold planStreamUnion
    rw [hkinds members rfl]
  next => rfl
  next => rfl
  next members actualMembers => rw [hexpected, hinner]
  next => rfl
  next => rfl
  next => rfl
  next detail =>
    unfold planError
    split
    next => rfl
    next =>
      split
      next => rfl
      next members => rw [herrors members rfl]
      next => rfl
  next constraint actualConstraint =>
    rw [h.xmlContent_eq _ (hparts _ List.mem_cons_self)]
  next constraint item => rw [hleaf rfl]
  next constraint members =>
    have hfound : members.mapM (xmlTypes g' maxDepth)
        = members.mapM (xmlTypes g maxDepth) :=
      mapM_congr fun m hm => h.xmlTypes_eq maxDepth (hparts m hm)
    rw [hfound]
  next => rfl
  next => rfl

end Matching

end TypeParams
