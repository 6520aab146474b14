/-
A copy of a type is the same type.

Instantiating a type without markers replaces nothing. It still makes
new types: with other ids, shared in another way, and with unions that
lost equal members or became the only one they had left. The checker
tells none of this.

# One relation for both directions

Each half of the argument needs the other, because a function takes its
parameters the other way round. So there is one relation for both
directions (`Linked`), between types and results, and between results
and types. Unions are why it is not consistent as it stands: a result
that is a member of a union is related to the union and not to one of
its members only. What is, is the relation to everything that a linked
type is a member of, at any depth (`Below`). A step of the checker on
the source's side goes on with the members of the source; one on the
target's side follows the path to the linked type.

# What instantiation leaves behind

`Simulates` is the relation between types and results that an
instantiation leaves behind, over the graph before and the graph after.
For a plain type, in which nothing is replaced, a result is a `Copy` of
the type, unless the type is a union that has collapsed into what was
made for all its members. Being consistent is then shown rule by rule
(`Simulates.consistent`), and the largest relation contains every
consistent one.

Fields and methods are found by name, so names must differ
(`Kind.Distinct`): of two fields of one name, the first would be
compared with both.
-/
import TypeParams.Proofs.Checker
import TypeParams.Proofs.Instantiation.Substitution
import TypeParams.Proofs.Subtype.Downward

namespace TypeParams

variable {R S : TypeId → TypeId → Prop}

-- ===================================================== alike forms fit

/-- Entries of the same names are found in each other's place. -/
theorem find?_of_forall₂ {α κ : Type} [DecidableEq κ] {name : α → κ}
    {T : α → α → Prop} (hname : ∀ a b, T a b → name b = name a)
    {as bs : List α} (h : List.Forall₂ T as bs)
    (hnodup : (as.map name).Nodup) {b : α} (hb : b ∈ bs) :
    ∃ a, as.find? (name · == name b) = some a ∧ T a b := by
  obtain ⟨a, ha, hab⟩ := exists_mem_of_forall₂ h.flip hb
  refine ⟨a, ?_, hab⟩
  rw [hname a b hab]
  exact find?_of_nodup hnodup ha

/-- Entries that are related have the same names in the same order. -/
theorem names_of_forall₂ {α κ : Type} {name : α → κ}
    {T : α → α → Prop} (hname : ∀ a b, T a b → name b = name a)
    {as bs : List α} (h : List.Forall₂ T as bs) :
    bs.map name = as.map name := by
  induction h with
  | nil => rfl
  | cons hab _ ih => rw [List.map_cons, List.map_cons, hname _ _ hab, ih]

/-- Alike fields have the same name. -/
theorem Field.Alike.name_eq (f f' : Field) (h : f.Alike S f') :
    f'.name = f.name := by
  obtain ⟨type, -, rfl⟩ := h
  rfl

/-- Alike methods have the same name. -/
theorem Method.Alike.name_eq (m m' : Method) (h : m.Alike S m') :
    m'.name = m.name := by
  obtain ⟨type, -, rfl⟩ := h
  rfl

namespace Kind

variable {kind kind' : Kind}

/-- Forms are alike both ways round. -/
theorem Alike.swap (h : kind.Alike S kind') :
    kind'.Alike (fun x y => S y x) kind := by
  have hfield : ∀ {f f' : Field}, f.Alike S f' →
      f'.Alike (fun x y => S y x) f := by
    rintro f f' ⟨type, htype, rfl⟩
    exact ⟨f.type, htype, rfl⟩
  have hmethod : ∀ {m m' : Method}, m.Alike S m' →
      m'.Alike (fun x y => S y x) m := by
    rintro m m' ⟨type, htype, rfl⟩
    exact ⟨m.type, htype, rfl⟩
  have hrel : ∀ {x y : Option TypeId}, Option.Rel S x y →
      Option.Rel (fun x y => S y x) y x := by
    intro x y h
    cases h with
    | some h => exact .some h
    | none => exact .none
  cases h with
  | leaf form => exact .leaf form
  | array h => exact .array h
  | map h => exact .map h
  | error h => exact .error h
  | typedesc h => exact .typedesc h
  | xml h => exact .xml h
  | union h => exact .union h.flip
  | tuple h hrest => exact .tuple h.flip (hrel hrest)
  | stream h hcompletion => exact .stream h (hrel hcompletion)
  | table h hkey => exact .table h (hrel hkey)
  | function hparams hrest hresult =>
      exact .function hparams.flip (hrel hrest) hresult
  | record hfields hrest =>
      exact .record (hfields.flip.imp fun _ _ => hfield) (hrel hrest)
  | object hfields hmethods =>
      exact .object (hfields.flip.imp fun _ _ => hfield)
        (hmethods.flip.imp fun _ _ => hmethod)

/-- No two fields and no two methods have the same name. -/
def Distinct : Kind → Prop
  | .record shape => shape.Distinct
  | .object shape =>
      (shape.fields.map (·.name)).Nodup ∧
        (shape.methods.map (·.name)).Nodup
  | _ => True

instance : (kind : Kind) → Decidable kind.Distinct
  | .record _ => inferInstanceAs (Decidable (List.Nodup _))
  | .object _ => inferInstanceAs (Decidable (List.Nodup _ ∧ List.Nodup _))
  | .leaf _ | .array _ | .tuple _ _ | .map _ | .union _ | .error _
  | .stream _ _ | .table _ | .function _ | .typedesc _ | .xml _ =>
      inferInstanceAs (Decidable True)

/-- Alike forms have distinct names, or neither has. -/
theorem Alike.distinct (h : kind.Alike S kind') (hd : kind.Distinct) :
    kind'.Distinct := by
  cases h with
  | record hfields hrest =>
      change (List.map _ _).Nodup
      rw [names_of_forall₂ Field.Alike.name_eq hfields]
      exact hd
  | object hfields hmethods =>
      change (List.map _ _).Nodup ∧ (List.map _ _).Nodup
      rw [names_of_forall₂ Field.Alike.name_eq hfields,
        names_of_forall₂ Method.Alike.name_eq hmethods]
      exact hd
  | leaf | array | tuple | map | union | error | stream | table
  | function | typedesc | xml => trivial

end Kind

/-- Records with the same fields of related types fit. -/
theorem RecordType.fits_of_alike {fields fields' : List Field}
    {rest rest' : Option TypeId} {isSealed : Bool}
    (hfields : List.Forall₂ (Field.Alike R) fields fields')
    (hrest : Option.Rel R rest rest')
    (hdistinct : (fields.map (·.name)).Nodup)
    (hdata : R .anydata .anydata) :
    Fits R ⟨fields, rest, isSealed⟩ ⟨fields', rest', isSealed⟩ where
  named := by
    intro f' hf' own hown
    obtain ⟨f, hf, type, htype, rfl⟩ :=
      find?_of_forall₂ Field.Alike.name_eq hfields hdistinct hf'
    have heq : some own = some f := hown.symm.trans hf
    cases heq
    exact ⟨fun h => h, htype⟩
  missing := by
    intro f' hf' hnone
    obtain ⟨f, hf, -⟩ :=
      find?_of_forall₂ Field.Alike.name_eq hfields hdistinct hf'
    exact nomatch hf.symm.trans hnone
  unnamed := by
    intro f hf hnone
    obtain ⟨f', hf', halike⟩ := exists_mem_of_forall₂ hfields hf
    exact absurd (halike.name_eq) (field?_eq_none_iff.mp hnone f' hf')
  rest := by
    intro r hr
    cases hrest with
    | some h =>
        cases hr
        exact ⟨_, rfl, h⟩
    | none =>
        cases isSealed with
        | true => cases hr
        | false =>
            cases hr
            exact ⟨_, rfl, hdata⟩

/-- Objects with the same fields and methods of related types fit. -/
theorem ObjectType.fits_of_alike {fields fields' : List Field}
    {methods methods' : List Method}
    (hfields : List.Forall₂ (Field.Alike R) fields fields')
    (hmethods : List.Forall₂ (Method.Alike R) methods methods')
    (hdistinct : (fields.map (·.name)).Nodup)
    (hdistinct' : (methods.map (·.name)).Nodup) :
    Fits R ⟨fields, methods⟩ ⟨fields', methods'⟩ where
  fields := by
    intro f' hf'
    obtain ⟨f, hf, type, htype, rfl⟩ :=
      find?_of_forall₂ Field.Alike.name_eq hfields hdistinct hf'
    exact ⟨f, hf, htype⟩
  methods := by
    intro m' hm'
    obtain ⟨m, hm, type, htype, rfl⟩ :=
      find?_of_forall₂ Method.Alike.name_eq hmethods hdistinct' hm'
    exact ⟨m, hm, htype⟩

/-- Forms that are alike fit, whichever way round their parts are
taken. -/
theorem Kind.Alike.fits {kind kind' : Kind} (h : kind.Alike S kind')
    (hto : ∀ x y, S x y → R x y) (hfrom : ∀ x y, S x y → R y x)
    (hrefl : ∀ x, R x x) (hleaf : kind.isLeaf = false)
    (hunion : ∀ members, kind ≠ .union members)
    (hdistinct : kind.Distinct) (a b : TypeId) :
    kind.Fits R a b kind' := by
  have hR : kind.Alike R kind' := h.mono hto
  cases hR with
  | leaf form => cases hleaf
  | union => exact absurd rfl (hunion _)
  | array hpart => exact .row rfl rfl (Row.fits_of_forall₂ .nil (.some hpart))
  | tuple hmembers hrest =>
      exact .row rfl rfl (Row.fits_of_forall₂ hmembers hrest)
  | map hpart => exact .map hpart
  | error hpart => exact .error fun _ => hpart
  | typedesc hpart => exact .typedesc hpart
  | xml hpart => exact .xml hpart
  | stream hpart hcompletion =>
      refine .stream hpart ?_
      cases hcompletion with
      | some hpart => exact hpart
      | none => exact hrefl _
  | table hpart hkey =>
      refine .table hpart ?_
      intro key hk key' hk'
      cases hkey with
      | some hpart =>
          cases hk
          cases hk'
          exact hpart
      | none => cases hk
  | function _ _ hresult =>
      -- parameters are taken the other way round
      cases h with
      | function hparams hrest _ =>
          refine .function ⟨fun h => h, ?_, ?_, hresult⟩
          · exact hparams.flip.imp fun y x hxy => hfrom x y hxy
          · intro r hr
            cases hrest with
            | some hpart =>
                cases hr
                exact ⟨_, rfl, hfrom _ _ hpart⟩
            | none => cases hr
  | record hfields hrest =>
      exact .record
        (RecordType.fits_of_alike hfields hrest hdistinct (hrefl _))
  | object hfields hmethods =>
      exact .object (ObjectType.fits_of_alike hfields hmethods
        hdistinct.1 hdistinct.2)

-- ========================================================= plain types

namespace Graph

variable {g g' : Graph} {d : TypeId}

/-- A type in which nothing is replaced, missing or named twice. -/
structure Plain (g : Graph) (d : TypeId) : Prop where
  lt : d.index < g.size
  markerFree : g.MarkerFree d
  present : ∀ x node, g.Reaches d x → g.node? x = some node →
    node.kind ≠ .leaf .noType
  distinct : ∀ x node, g.Reaches d x → g.node? x = some node →
    node.kind.Distinct

/-- What a plain type reaches is plain. -/
theorem Plain.reaches {x : TypeId} (hg : g.Closed) (h : g.Plain d)
    (hx : g.Reaches d x) : g.Plain x where
  lt := hg.closedOn.reaches h.lt hx
  markerFree := h.markerFree.reaches hx
  present := fun y node hy => h.present y node (hx.trans hy)
  distinct := fun y node hy => h.distinct y node (hx.trans hy)

/-- A type from a list that is not left is plain if all of it is. -/
theorem Plain.of_list (ids : List TypeId)
    (h : ∀ id ∈ ids, ∃ node ∈ g.node? id,
      (∀ c ∈ node.kind.children, c ∈ ids) ∧ node.isMarker = false ∧
        node.kind ≠ .leaf .noType ∧ node.kind.Distinct)
    (hd : d ∈ ids) : g.Plain d := by
  obtain ⟨hlt, hall⟩ := forall_reaches_of_list h hd
  exact ⟨hlt, fun x hx node hn => (hall x node hx hn).1,
    fun x node hx hn => (hall x node hx hn).2.1,
    fun x node hx hn => (hall x node hx hn).2.2⟩

/-- So are its parts. -/
theorem Plain.child {c : TypeId} {node : Node} (hg : g.Closed)
    (h : g.Plain d) (hn : g.node? d = some node)
    (hc : c ∈ node.kind.children) : g.Plain c :=
  h.reaches hg (.step .refl ⟨node, hn, hc⟩)

/-- A plain type is no named marker. -/
theorem Plain.markerKey?_eq {node : Node} (h : g.Plain d)
    (hn : g.node? d = some node) : node.markerKey? = none := by
  cases hkey : node.markerKey? with
  | none => rfl
  | some key =>
      have hmarker := Node.isMarker_of_markerKey? hkey
      rw [h.markerFree d .refl node hn] at hmarker
      cases hmarker

/-- Members are reached. -/
theorem Member.reaches {x q : TypeId}
    (h : Relation.ReflTransGen g.Member x q) : g.Reaches x q := by
  induction h with
  | refl => exact .refl
  | tail _ hm ih => exact ih.step hm.child

/-- Members stay members as the graph grows. -/
theorem Member.extends {x q : TypeId} (hext : g.Extends g')
    (h : g.Member x q) : g'.Member x q := by
  obtain ⟨node, members, hn, hkind, hm⟩ := h
  exact ⟨node, members, hext _ _ hn, hkind, hm⟩

end Graph

-- ============================================================== copies

namespace Instantiation

variable {env : Bindings} {g g' : Graph} {Sim : TypeId → TypeId → Prop}

/-- What is made of a type in which nothing is replaced, unless it is
made of a member: the type itself, a union of the results of the
members, or a type of the same form. -/
inductive Copy (g g' : Graph) (Sim : TypeId → TypeId → Prop)
    (x : TypeId) : TypeId → Prop where
  | same : Copy g g' Sim x x
  | union {y : TypeId} {node copy : Node} {members parts : List TypeId}
      (hnode : g.node? x = some node) (hcopy : g'.node? y = some copy)
      (hkind : node.kind = .union members)
      (hparts : copy.kind = .union parts)
      (hto : ∀ m ∈ members, ∃ p ∈ parts, Sim m p)
      (hfrom : ∀ p ∈ parts, ∃ m ∈ members, Sim m p) :
      Copy g g' Sim x y
  | shape {y : TypeId} {node copy : Node}
      (hnode : g.node? x = some node) (hcopy : g'.node? y = some copy)
      (hleaf : node.kind.isLeaf = false)
      (hunion : ∀ members, node.kind ≠ .union members)
      (halike : node.kind.Alike Sim copy.kind) :
      Copy g g' Sim x y

/-- Only unions lose equal members. -/
theorem mergedKind_of_not_union {kind : Kind}
    (h : ∀ members, kind ≠ .union members) : mergedKind kind = kind := by
  cases kind with
  | union members => exact absurd rfl (h members)
  | leaf | array | tuple | map | record | error | stream | table
  | function | object | typedesc | xml => rfl

/-- What was placed for a type is a copy of it. -/
theorem Copies.copy {x y : TypeId} {node copy : Node}
    (h : Copies g Sim x node copy) (hnode : g.node? x = some node)
    (hcopy : g'.node? y = some copy) (hleaf : node.kind.isLeaf = false) :
    Copy g g' Sim x y := by
  obtain ⟨whole, halike, hwhole⟩ := h.kind
  cases hkind : node.kind with
  | union members =>
      rw [hkind] at halike
      cases halike with
      | union hmembers =>
          refine .union hnode hcopy hkind hwhole ?_ ?_
          · intro m hm
            obtain ⟨p, hp, hmp⟩ := exists_mem_of_forall₂ hmembers hm
            exact ⟨p, List.mem_eraseDups.mpr hp, hmp⟩
          · intro p hp
            exact exists_mem_of_forall₂ hmembers.flip
              (List.mem_eraseDups.mp hp)
  | leaf | array | tuple | map | record | error | stream | table
  | function | object | typedesc | xml =>
      have hunion : ∀ members, node.kind ≠ .union members := by
        simp [hkind]
      refine .shape hnode hcopy hleaf hunion ?_
      rw [hwhole, mergedKind_of_not_union]
      · exact halike
      · rintro parts rfl
        obtain ⟨members, heq, -⟩ := halike.of_union
        exact hunion members heq

/-- What there is at a copy. -/
theorem Copy.present {x y : TypeId} (hx : g.Plain x)
    (hext : g.Extends g') (h : Copy g g' Sim x y) :
    ∃ node, g'.node? y = some node ∧ node.kind ≠ .leaf .noType := by
  cases h with
  | same =>
      obtain ⟨node, hnode⟩ := Graph.exists_node_of_lt hx.lt
      exact ⟨node, hext _ _ hnode, hx.present x node .refl hnode⟩
  | union hnode hcopy hkind hparts =>
      exact ⟨_, hcopy, by simp [hparts]⟩
  | shape hnode hcopy hleaf hunion halike =>
      refine ⟨_, hcopy, fun hmissing => ?_⟩
      have hleaf' := halike.isLeaf_eq
      rw [hmissing, hleaf] at hleaf'
      cases hleaf'

/-- A relation between types and results such as instantiation leaves
one: every result is made out of others. -/
structure Simulates (env : Bindings) (g g' : Graph)
    (Sim : TypeId → TypeId → Prop) : Prop where
  closed : g.Closed
  grows : g.Extends g'
  made : ∀ x y, Sim x y → Substituted env g g' Sim x y

/-- Nothing is replaced in a plain type: what is made for it is a
copy. -/
theorem Made.copy {x y : TypeId} (hx : g.Plain x)
    (h : Made env g g' Sim x y) : Copy g g' Sim x y := by
  cases h with
  | bound hnode hkey =>
      rw [hx.markerKey?_eq hnode] at hkey
      cases hkey
  | itself => exact .same
  | copied hnode hkey hself hnew hcopy hcopies _ =>
      exact hcopies.copy hnode hcopy
        (Bool.eq_false_iff.mpr fun hleaf => hself (.inl hleaf))

/-- What is made for a plain type is a copy of it, or the type is a
union that has collapsed. -/
theorem Simulates.copy_or_collapsed (h : Simulates env g g' Sim)
    {x y : TypeId} (hx : g.Plain x) (hxy : Sim x y) :
    Copy g g' Sim x y ∨ ∃ node members, g.node? x = some node ∧
      node.kind = .union members ∧ ∀ m ∈ members, Sim m y := by
  cases h.made x y hxy with
  | made hmade => exact .inl (hmade.copy hx)
  | union hnode _ hkind _ hsim _ =>
      exact .inr ⟨_, _, hnode, hkind, hsim⟩

/-- Members lead from a type to one that its result is a copy of. -/
theorem Simulates.exists_origin (h : Simulates env g g' Sim)
    {x y : TypeId} (hx : g.Plain x) (hxy : Sim x y) :
    ∃ q, Relation.ReflTransGen g.Member x q ∧ g.Plain q ∧
      Copy g g' Sim q y := by
  obtain ⟨q, hxq, -, hmade⟩ := (h.made x y hxy).exists_made hxy
  have hq : g.Plain q := hx.reaches h.closed (Graph.Member.reaches hxq)
  exact ⟨q, hxq, hq, hmade.copy hq⟩

-- ========================================================= consistency

/-- A type and its result, or a copy and the type it was made for. -/
inductive Linked (g g' : Graph) (Sim : TypeId → TypeId → Prop) :
    TypeId → TypeId → Prop where
  | result {a q : TypeId} (ha : g.Plain a) (h : Sim a q) :
      Linked g g' Sim a q
  | origin {a q : TypeId} (hq : g.Plain q) (h : Copy g g' Sim q a) :
      Linked g g' Sim a q

/-- Members lead from one type to a type that the other is linked to. -/
def Below (g g' : Graph) (Sim : TypeId → TypeId → Prop)
    (a b : TypeId) : Prop :=
  a = b ∨ ∃ q, Relation.ReflTransGen g'.Member b q ∧ Linked g g' Sim a q

variable {a b q : TypeId} {s : Node}

/-- A source other than a union follows the path. -/
theorem step_of_single (hs : g'.node? a = some s)
    (hsingle : s.kind.isSingle = true)
    (hpath : Relation.ReflTransGen g'.Member b q)
    (hlinked : Linked g g' Sim a q)
    (h : a = q ∨ g'.Step (Below g g' Sim) a q) :
    a = b ∨ g'.Step (Below g g' Sim) a b := by
  rcases hpath.cases_head with rfl | ⟨c, ⟨t, members, ht, hkind, hc⟩, hcq⟩
  · exact h
  · exact .inr ⟨s, t, hs, ht, Rule.holds_iff.mpr
      (.member hsingle hkind hc (.inr ⟨q, hcq, hlinked⟩))⟩

/-- What leads to a type that is there is there too. -/
theorem present_of_path
    (hpath : Relation.ReflTransGen g'.Member b q)
    (h : ∃ t, g'.node? q = some t ∧ t.kind ≠ .leaf .noType) :
    ∃ t, g'.node? b = some t ∧ t.kind ≠ .leaf .noType := by
  rcases hpath.cases_head with rfl | ⟨c, ⟨t, members, ht, hkind, -⟩, -⟩
  · exact h
  · exact ⟨t, ht, by simp [hkind]⟩

/-- A source that is a union goes on with its members, which are linked
to what is on or behind the path. -/
theorem step_of_union {members : List TypeId} (hs : g'.node? a = some s)
    (hkind : s.kind = .union members)
    (hpath : Relation.ReflTransGen g'.Member b q)
    (hpresent : ∃ t, g'.node? q = some t ∧ t.kind ≠ .leaf .noType)
    (h : ∀ m ∈ members, ∃ p, Relation.ReflTransGen g'.Member q p ∧
      Linked g g' Sim m p) :
    g'.Step (Below g g' Sim) a b := by
  obtain ⟨t, ht, hpresent⟩ := present_of_path hpath hpresent
  refine ⟨s, t, hs, ht, Rule.holds_iff.mpr (.members hkind hpresent ?_)⟩
  intro m hm
  obtain ⟨p, hqp, hlinked⟩ := h m hm
  exact .inr ⟨p, hpath.trans hqp, hlinked⟩

/-- A type that stayed what it was. -/
theorem step_of_same (hext : g.Extends g') (hg : g.Closed)
    (ha : g.Plain a) (hpath : Relation.ReflTransGen g'.Member b a) :
    a = b ∨ g'.Step (Below g g' Sim) a b := by
  obtain ⟨s, hs⟩ := Graph.exists_node_of_lt ha.lt
  have hs' := hext _ _ hs
  have hpresent := ha.present a s .refl hs
  rcases Kind.eq_or_isSingle hpresent with hkind | ⟨members, hkind⟩ | hkind
  · obtain ⟨t, ht, hpresent⟩ := present_of_path hpath ⟨s, hs', hpresent⟩
    exact .inr ⟨s, t, hs', ht, Rule.holds_iff.mpr (.never hkind hpresent)⟩
  · refine .inr (step_of_union hs' hkind hpath ⟨s, hs', hpresent⟩ ?_)
    intro m hm
    have hm' : g.Plain m := ha.child hg hs (by rwa [hkind])
    exact ⟨m, .single ⟨s, members, hs', hkind, hm⟩, .origin hm' .same⟩
  · exact step_of_single hs' hkind hpath (.origin ha .same) (.inl rfl)

variable (h : Simulates env g g' Sim)
include h

/-- A result is linked to what members lead to from the type. -/
theorem Simulates.linked_origin {x y : TypeId} (hx : g.Plain x)
    (hxy : Sim x y) :
    ∃ q, Relation.ReflTransGen g'.Member x q ∧ Linked g g' Sim y q := by
  obtain ⟨q, hxq, hq, hcopy⟩ := h.exists_origin hx hxy
  exact ⟨q, hxq.lift id fun _ _ hm => hm.extends h.grows, .origin hq hcopy⟩

/-- A type and a copy of its form fit each other. -/
theorem Simulates.fits {x : TypeId} {node copy : Node} (hx : g.Plain x)
    (hnode : g.node? x = some node) (hleaf : node.kind.isLeaf = false)
    (hunion : ∀ members, node.kind ≠ .union members)
    (halike : node.kind.Alike Sim copy.kind) (a b : TypeId) :
    node.kind.Fits (Below g g' Sim) a b copy.kind ∧
      copy.kind.Fits (Below g g' Sim) b a node.kind := by
  have hdistinct := hx.distinct x node .refl hnode
  have halike := halike.imp_of_mem fun c hc c' hcc' =>
    (⟨hx.child h.closed hnode hc, hcc'⟩ : g.Plain c ∧ Sim c c')
  have hto : ∀ c c', g.Plain c ∧ Sim c c' → Below g g' Sim c c' :=
    fun c c' hcc' => .inr ⟨c', .refl, .result hcc'.1 hcc'.2⟩
  have hfrom : ∀ c c', g.Plain c ∧ Sim c c' → Below g g' Sim c' c :=
    fun c c' hcc' => .inr (h.linked_origin hcc'.1 hcc'.2)
  constructor
  · exact halike.fits hto hfrom (fun _ => .inl rfl) hleaf hunion
      hdistinct a b
  · refine halike.swap.fits (fun c' c => hfrom c c')
      (fun c' c => hto c c') (fun _ => .inl rfl) ?_ ?_
      (halike.distinct hdistinct) b a
    · rw [halike.isLeaf_eq, hleaf]
    · intro parts hparts
      rw [hparts] at halike
      obtain ⟨members, hmembers, -⟩ := halike.of_union
      exact hunion members hmembers

/-- A type is below what its result is a member of. -/
theorem Simulates.step_of_result (ha : g.Plain a) (haq : Sim a q)
    (hpath : Relation.ReflTransGen g'.Member b q) :
    a = b ∨ g'.Step (Below g g' Sim) a b := by
  have hpresent : ∃ t, g'.node? q = some t ∧ t.kind ≠ .leaf .noType := by
    obtain ⟨x, -, hx, hcopy⟩ := h.exists_origin ha haq
    exact hcopy.present hx h.grows
  rcases h.copy_or_collapsed ha haq with hcopy | ⟨s, members, hs, hk, hall⟩
  · cases hcopy with
    | same => exact step_of_same h.grows h.closed ha hpath
    | union hs ht hkind hparts hto _ =>
        refine .inr (step_of_union (h.grows _ _ hs) hkind hpath hpresent ?_)
        intro m hm
        obtain ⟨p, hp, hmp⟩ := hto m hm
        have hm' : g.Plain m := ha.child h.closed hs (by rwa [hkind])
        exact ⟨p, .single ⟨_, _, ht, hparts, hp⟩, .result hm' hmp⟩
    | shape hs ht hleaf hunion halike =>
        refine step_of_single (h.grows _ _ hs)
          (Kind.isSingle_of_isLeaf_eq_false hleaf hunion) hpath
          (.result ha haq) (.inr ⟨_, _, h.grows _ _ hs, ht, ?_⟩)
        exact Rule.holds_iff.mpr
          (.shape (h.fits ha hs hleaf hunion halike a q).1)
  · refine .inr (step_of_union (h.grows _ _ hs) hk hpath hpresent ?_)
    intro m hm
    have hm' : g.Plain m := ha.child h.closed hs (by rwa [hk])
    exact ⟨q, .refl, .result hm' (hall m hm)⟩

/-- A copy is below what the type it was made for is a member of. -/
theorem Simulates.step_of_origin (hq : g.Plain q)
    (hcopy : Copy g g' Sim q a)
    (hpath : Relation.ReflTransGen g'.Member b q) :
    a = b ∨ g'.Step (Below g g' Sim) a b := by
  have hlinked : Linked g g' Sim a q := .origin hq hcopy
  cases hcopy with
  | same => exact step_of_same h.grows h.closed hq hpath
  | union hs ht hkind hparts _ hfrom =>
      refine .inr (step_of_union ht hparts hpath
        ⟨_, h.grows _ _ hs, by simp [hkind]⟩ fun p hp => ?_)
      obtain ⟨m, hm, hmp⟩ := hfrom p hp
      have hm' : g.Plain m := hq.child h.closed hs (by rwa [hkind])
      obtain ⟨x, hmx, hx⟩ := h.linked_origin hm' hmp
      exact ⟨x, .head ⟨_, _, h.grows _ _ hs, hkind, hm⟩ hmx, hx⟩
  | shape hs ht hleaf hunion halike =>
      have hfits := (h.fits hq hs hleaf hunion halike q a).2
      exact step_of_single ht hfits.isSingle hpath hlinked (.inr
        ⟨_, _, ht, h.grows _ _ hs, Rule.holds_iff.mpr (.shape hfits)⟩)

/-- What is below each other goes by its rule. -/
theorem Simulates.consistent : g'.Consistent (Below g g' Sim) := by
  rintro a b (heq | ⟨q, hpath, hlinked⟩)
  · exact .inl heq
  · cases hlinked with
    | result ha haq => exact h.step_of_result ha haq hpath
    | origin hq hcopy => exact h.step_of_origin hq hcopy hpath

/-- The results of plain types are made of such results. -/
theorem Simulates.closedOn :
    g'.ClosedOn fun y => y.index < g.size ∨ ∃ x, g.Plain x ∧ Sim x y := by
  rintro y (hy | ⟨x, hx, hxy⟩)
  · obtain ⟨node, hn, hc⟩ := h.closed.closedOn y hy
    exact ⟨node, h.grows _ _ hn, fun c hc' => .inl (hc c hc')⟩
  · obtain ⟨q, -, hq, hcopy⟩ := h.exists_origin hx hxy
    cases hcopy with
    | same =>
        obtain ⟨node, hn, hc⟩ := h.closed.closedOn _ hq.lt
        exact ⟨node, h.grows _ _ hn, fun c hc' => .inl (hc c hc')⟩
    | union hs ht hkind hparts _ hfrom =>
        refine ⟨_, ht, fun p hp => ?_⟩
        rw [hparts] at hp
        obtain ⟨m, hm, hmp⟩ := hfrom p hp
        exact .inr ⟨m, hq.child h.closed hs (by rwa [hkind]), hmp⟩
    | shape hs ht hleaf hunion halike =>
        refine ⟨_, ht, fun c' hc' => ?_⟩
        obtain ⟨c, hc, hcc'⟩ :=
          exists_mem_of_forall₂ halike.children.flip hc'
        exact .inr ⟨c, hq.child h.closed hs hc, hcc'⟩

end Instantiation

namespace Resolution

open Instantiation

/-- A type without markers can be instantiated whatever the bindings
are, and unless the last level was met the checker takes the result for
the same type, in the graph that holds both. -/
theorem instantiate_sameType (r : Resolution)
    (hg : r.types.graph.WellFormed) {d : TypeId}
    (hd : r.types.graph.Plain d) (span : Span) :
    ∃ y r', instantiate d span r = .ok y r' ∧
      r.types.graph.Extends r'.types.graph ∧
      (r.WithinLimit r' →
        Checker.structural.sameType r'.types.graph d y = .ok true) := by
  obtain ⟨y, r', hrun⟩ :=
    instantiate_succeeds hg.closed.closedOn hd.lt span
  have hext := (instantiate_grows hrun).2
  refine ⟨y, r', hrun, hext, fun hlimit => ?_⟩
  obtain ⟨Sim, hdy, hsim⟩ :=
    instantiate_simulates hg.closed hd.lt hrun hlimit
  have hsimulates : Simulates r.env r.types.graph r'.types.graph Sim :=
    ⟨hg.closed, hext, fun x y hxy => (hsim x y hxy).2⟩
  have hclosed := hsimulates.closedOn
  rw [Checker.structural_sameType_iff hclosed
    (.inl (hg.builtin_lt rfl)) (.inl (hg.builtin_lt rfl)) (.inl hd.lt)
    (.inr ⟨d, hd, hdy⟩)]
  exact ⟨⟨_, hsimulates.consistent, .inr ⟨y, .refl, .result hd hdy⟩⟩,
    ⟨_, hsimulates.consistent, .inr (hsimulates.linked_origin hd hdy)⟩⟩

/-- A list whose elements compare with it (21 to 23), a union that comes
down to one member (24), and a pair of the two (25). The binding is of
no marker, to no type. -/
def listed : Resolution where
  checker := .always
  config := .default
  types := .on { graph := ⟨Graph.builtin.nodes ++ #[
    .named "List" ⟨1⟩ (.record {
      fields := [{ name := "rest", type := ⟨22⟩ },
        { name := "compare", type := ⟨23⟩ }] }),
    .anonymous (.union [⟨21⟩, .nil, ⟨21⟩]),
    .anonymous (.function { params := [⟨21⟩, ⟨22⟩], result := .int }),
    .anonymous (.union [⟨21⟩, ⟨21⟩]),
    .anonymous (.tuple [⟨22⟩, ⟨24⟩] none)]⟩ }
  env := ⟨[⟨⟨⟨1⟩, "T"⟩, ⟨21⟩, ⟨99⟩⟩]⟩

/-- The copy is a new type. -/
theorem listed_sameType :
    listed.types.graph.WellFormed ∧ listed.types.graph.Plain ⟨25⟩ ∧
      ∃ y r', instantiate ⟨25⟩ .null listed = .ok y r' ∧ y ≠ ⟨25⟩ ∧
        listed.WithinLimit r' ∧
        Checker.structural.sameType r'.types.graph ⟨25⟩ y = .ok true := by
  have hg : listed.types.graph.WellFormed := by decide
  have hd : listed.types.graph.Plain ⟨25⟩ :=
    .of_list [.nil, .int, ⟨21⟩, ⟨22⟩, ⟨23⟩, ⟨24⟩, ⟨25⟩] (by decide)
      (by decide)
  obtain ⟨y, r', hrun, -, hsame⟩ :=
    instantiate_sameType listed hg hd .null
  have hdecided : (match instantiate ⟨25⟩ .null listed with
      | .ok y r' => decide (y ≠ ⟨25⟩ ∧ listed.WithinLimit r')
      | .error _ _ => false) = true := by decide +kernel
  rw [hrun] at hdecided
  obtain ⟨hne, hlimit⟩ := of_decide_eq_true hdecided
  exact ⟨hg, hd, y, r', hrun, hne, hlimit, hsame hlimit⟩

end Resolution

end TypeParams
