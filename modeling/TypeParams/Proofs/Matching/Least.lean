/-
The actual types that are made for a container.

Where a container meets a type that it may take (`Kind.Fills`), each of
its parts is paired with a type that is made for it, and that is the
least one that is enough: all that the part has to take is assignable to
it, and it is assignable to whatever takes all that (`Graph.Least`).

# Records as maps

For unions this is `Layer.unionOf_joins`. The values of a record are not
all put into one: the type of a field is left out if the type of the
unnamed fields takes it, or if it is the same as one that is there. What
is left out is assignable to a member of the union, and therefore to the
union, though assignability need not be transitive (`Covers`). The type
of the unnamed fields itself is never left out: it would have to be the
same as the type of a field, and that one would have been left out
before.

# From plans to bindings

`plan_of_fills` says what a plan comes to: each part of the container
with a source that sums up what the part has to take. A part that is a
free parameter is bound to what is made for it, and as the parameters
are different, binding one does not get in the way of the next
(`pairSources_binds`). So after the match each parameter is bound to the
least type that is enough for it.
-/
import TypeParams.Proofs.Checker
import TypeParams.Proofs.Matching.Lockstep
import TypeParams.Proofs.Matching.Totality
import TypeParams.Proofs.Subtype.Containers
import TypeParams.Proofs.Subtype.Growth
import TypeParams.Proofs.Subtype.Joins

namespace TypeParams

namespace Graph

/-- The least type that takes all of these. -/
structure Least (g : Graph) (slot : List TypeId) (u : TypeId) : Prop where
  whole : g.Whole u
  upper : ∀ d ∈ slot, g.Assignable d u
  least : ∀ c, g.Whole c → (∀ d ∈ slot, g.Assignable d c) →
    g.Assignable u c

/-- Parts that take what they have to take the least types that do. -/
theorem Least.forall₂ {g : Graph} {slots : List (List TypeId)}
    {us xs : List TypeId} (hleast : List.Forall₂ g.Least slots us)
    (htakes : g.Takes slots xs) (hwhole : ∀ x ∈ xs, g.Whole x) :
    List.Forall₂ (fun u x => g.Whole u ∧ g.Whole x ∧ g.Assignable u x) us
      xs := by
  induction hleast generalizing xs with
  | nil =>
      cases htakes
      exact .nil
  | cons hslot _ ih =>
      obtain _ | ⟨htake, htakes⟩ := htakes
      obtain ⟨hx, hwhole⟩ := List.forall_mem_cons.mp hwhole
      exact .cons ⟨hslot.whole, hx, hslot.least _ hx htake⟩
        (ih htakes hwhole)

end Graph

namespace Matching

variable {g g' : Graph} {source : Source} {slot : List TypeId}

-- ============================================================== sources

/-- A source that makes a type of some of these, where each of the others
is never or assignable to one that is taken. -/
structure Source.Sums (g : Graph) (source : Source) (slot : List TypeId) :
    Prop where
  plain : ∀ table, source ≠ .keyOf table
  sub : ∀ id ∈ source.ids, id ∈ slot
  covers : ∀ d ∈ slot, (∃ node, g.node? d = some node ∧
      node.kind = .leaf .never) ∨
    ∃ id ∈ source.ids, g.Assignable d id

/-- A type that is given sums itself up. -/
theorem Source.sums_given (id : TypeId) :
    (Source.given id).Sums g [id] where
  plain _ := Source.noConfusion
  sub _ hid := hid
  covers d hd := .inr ⟨d, hd, .refl _ _⟩

/-- A union sums up the types that it is made of. -/
theorem Source.sums_unionOf (ids : List TypeId) :
    (Source.unionOf ids).Sums g ids where
  plain _ := Source.noConfusion
  sub _ hid := hid
  covers d hd := .inr ⟨d, hd, .refl _ _⟩

/-- What is made from whole types joins them. -/
theorem Source.resolve_joins (hplain : ∀ table, source ≠ .keyOf table)
    {w w' : Workspace} (hw : w.types.graph.Closed)
    (hids : ∀ id ∈ source.ids, w.types.graph.Whole id)
    {made : Option TypeId} (h : source.resolve w = .ok made w') :
    ∃ u, made = some u ∧ ∀ g', g'.WellFormed →
      w'.types.graph.Extends g' → g'.Joins source.ids u := by
  cases source with
  | given id =>
      cases h
      refine ⟨id, rfl, fun g' _ hext => ?_⟩
      exact ((hids id List.mem_cons_self).extends hw hext).joins_self
  | unionOf ids =>
      obtain ⟨u, w₁, hunion, h⟩ := bind_run.mp h
      cases h
      obtain ⟨types, hmade, rfl⟩ := WorkM.unionOf_run.mp hunion
      exact ⟨u, rfl, fun g' hg' hext =>
        Layer.unionOf_joins hw hg' hids hmade hext⟩
  | keyOf table => exact absurd rfl (hplain table)

/-- And it is the least type that takes all that the source is made
for. -/
theorem Source.Sums.resolve_least (hsums : source.Sums g slot)
    (hg : g.WellFormed) (hslot : ∀ d ∈ slot, g.Whole d)
    {w w' : Workspace} (hw : w.types.graph.Closed)
    (hgw : g.Extends w.types.graph) {made : Option TypeId}
    (h : source.resolve w = .ok made w') :
    ∃ u, made = some u ∧ ∀ g', g'.WellFormed →
      w'.types.graph.Extends g' → g'.Least slot u := by
  have hids : ∀ id ∈ source.ids, w.types.graph.Whole id :=
    fun id hid => (hslot id (hsums.sub id hid)).extends hg.closed hgw
  obtain ⟨u, hmade, hjoins⟩ :=
    Source.resolve_joins hsums.plain hw hids h
  refine ⟨u, hmade, fun g' hg' hext => ?_⟩
  have hjoin := hjoins g' hg' hext
  have hgg' := (hgw.trans (Source.resolve_extends h)).trans hext
  refine ⟨hjoin.whole, ?_, ?_⟩
  · intro d hd
    have hdwhole := (hslot d hd).extends hg.closed hgg'
    rcases hsums.covers d hd with ⟨node, hn, hnever⟩ | ⟨id, hid, hdid⟩
    · obtain ⟨t, ht, ht'⟩ := hjoin.whole.node
      exact .of_relates (hgg' _ _ hn) ht (.never hnever ht')
    · apply (hjoin.covers id hid).assignable hg'.closed hjoin.whole hdwhole
      exact .agrees hg.closed.closedOn (hg.builtin_lt rfl)
        (hg.builtin_lt rfl) (fun _ _ _ hn => hgg' _ _ hn) (hslot d hd).lt
        (hslot id (hsums.sub id hid)).lt hdid
  · intro c hc htakes
    exact hjoin.least c hc fun id hid => htakes id (hsums.sub id hid)

-- ================================================================ forms

variable {kind actual : Kind} {slots : List (List TypeId)}

/-- The elements of an array or a tuple are what stands in its row. -/
theorem elementTypes_of_row? {row : Row} (h : kind.row? = some row) :
    elementTypes kind = row.parts := by
  cases kind with
  | array | tuple =>
      cases h
      rfl
  | leaf | map | record | union | error | stream | table | function
  | object | typedesc | xml => cases h

/-- The forms of the members of a union. -/
theorem exists_kinds {β : Type} {f : Kind → Option β}
    {members : List TypeId} {bs : List β}
    (h : List.Forall₂ (fun m b => ∃ node, g.node? m = some node ∧
      f node.kind = some b) members bs) :
    ∃ kinds, members.mapM g.kind = .ok kinds ∧
      List.Forall₂ (fun kind b => f kind = some b) kinds bs := by
  simp only [mapM_eq_ok]
  induction h with
  | nil => exact ⟨[], .nil, .nil⟩
  | cons hm _ ih =>
      obtain ⟨node, hn, hf⟩ := hm
      obtain ⟨kinds, hkinds, hall⟩ := ih
      exact ⟨node.kind :: kinds, .cons (Graph.kind_of_node hn) hkinds,
        .cons hf hall⟩

theorem flatMap_elementTypes {kinds : List Kind} {rows : List Row}
    (h : List.Forall₂ (fun kind row => kind.row? = some row) kinds
      rows) : kinds.flatMap elementTypes = rows.flatMap Row.parts := by
  induction h with
  | nil => rfl
  | cons hrow _ ih =>
      rw [List.flatMap_cons, List.flatMap_cons, elementTypes_of_row? hrow,
        ih]

theorem filterMap_streamParts {kinds : List Kind}
    {parts : List (TypeId × TypeId)}
    (h : List.Forall₂ (fun kind part => streamParts? kind = some part)
      kinds parts) : kinds.filterMap streamParts? = parts := by
  induction h with
  | nil => rfl
  | cons hpart _ ih => rw [List.filterMap_cons_some hpart, ih]

/-- Parts, each with what is made for it. -/
def pairSources (variance : Variance) (parts : List TypeId)
    (sources : List Source) : List Pairing :=
  parts.zipWith (fun part source => ⟨part, source, variance⟩) sources

-- ====================================================== records as maps

/-- What a record holds whose unnamed fields add nothing to a map's. -/
theorem mapRest?_cases {shape : RecordType} {rest : Option TypeId}
    (hvalues : ∀ d ∈ shape.valueTypes, g.Whole d)
    (h : mapRest? g shape = .ok rest) :
    rest = shape.restType ∨ rest = none ∧ ∃ r node,
      shape.restType = some r ∧ g.node? r = some node ∧
        node.kind = .leaf .never := by
  unfold mapRest? at h
  cases hrest : shape.restType with
  | none =>
      rw [hrest] at h
      exact .inl (pure_eq_ok.mp h).symm
  | some own =>
      rw [hrest] at h
      obtain ⟨kind, hkind, h⟩ := bind_eq_ok.mp h
      obtain ⟨node, hn, rfl⟩ := Graph.kind_eq_ok.mp hkind
      split at h
      next hnever =>
        exact .inr ⟨(pure_eq_ok.mp h).symm, own, node, rfl, hn, hnever⟩
      next hmissing =>
        have hown : own ∈ shape.valueTypes := by
          unfold RecordType.valueTypes
          rw [hrest]
          exact List.mem_append_right _ List.mem_cons_self
        exact absurd hmissing ((hvalues own hown).present own node .refl hn)
      next => exact .inl (pure_eq_ok.mp h).symm

section InOrder

variable (hg : g.WellFormed)
include hg

/-- A type is added, unless one that is there is the same. -/
theorem addDistinct_cases {types types' : List TypeId} {id : TypeId}
    (htypes : ∀ t ∈ types, t.index < g.size) (hid : id.index < g.size)
    (h : addDistinct g .structural types id = .ok types') :
    types' = types ++ [id] ∨ types' = types ∧
      ∃ t ∈ types, g.Assignable t id ∧ g.Assignable id t := by
  obtain ⟨known, hknown, h⟩ := bind_eq_ok.mp h
  cases known with
  | true =>
      cases pure_eq_ok.mp h
      obtain ⟨t, ht, hsame⟩ := exists_of_anyM hknown
      rw [Checker.structural_sameType_iff hg.closed.closedOn
        (hg.builtin_lt rfl) (hg.builtin_lt rfl) (htypes t ht) hid] at hsame
      exact .inr ⟨rfl, t, ht, hsame⟩
  | false =>
      cases pure_eq_ok.mp h
      exact .inl rfl

/-- The type of a field is left out if it is covered. -/
theorem addField_cases {rest : Option TypeId} {types types' : List TypeId}
    {field : Field} (hrest : ∀ r ∈ rest, r.index < g.size)
    (hfield : field.type.index < g.size)
    (h : addField g .structural rest types field = .ok types') :
    (types' = types ∧ ∃ r ∈ rest, g.Assignable field.type r) ∨
      ((∀ r ∈ rest, ¬ g.Assignable field.type r) ∧
        addDistinct g .structural types field.type = .ok types') := by
  cases rest with
  | none =>
      refine .inr ⟨?_, h⟩
      intro r hr
      cases hr
  | some rest =>
      obtain ⟨answer, hanswer, hiff⟩ :=
        Checker.structural_answers hg hfield (hrest rest rfl)
      obtain ⟨covered, hcovered, h⟩ := bind_eq_ok.mp h
      rw [hanswer] at hcovered
      cases hcovered
      cases answer with
      | true =>
          exact .inl ⟨(pure_eq_ok.mp h).symm, rest, rfl, hiff.mp rfl⟩
      | false =>
          refine .inr ⟨?_, h⟩
          intro r hr hassignable
          cases hr
          exact Bool.false_ne_true (hiff.mpr hassignable)

/-- What the types of the fields come to: none of those that the unnamed
fields cover, and among them one for each of the others. -/
theorem foldFields_covers {rest : Option TypeId} {fields : List Field}
    {types types' : List TypeId} (hrest : ∀ r ∈ rest, r.index < g.size)
    (hfields : ∀ f ∈ fields, f.type.index < g.size)
    (htypes : ∀ t ∈ types, t.index < g.size ∧
      ∀ r ∈ rest, ¬ g.Assignable t r)
    (h : fields.foldlM (addField g .structural rest) types = .ok types') :
    (∀ t ∈ types', t.index < g.size ∧ ∀ r ∈ rest, ¬ g.Assignable t r) ∧
      (∀ t ∈ types, t ∈ types') ∧
      ∀ f ∈ fields, (∃ r ∈ rest, g.Assignable f.type r) ∨
        ∃ t ∈ types', g.Assignable f.type t := by
  induction fields generalizing types with
  | nil =>
      cases h
      exact ⟨htypes, fun t ht => ht, List.forall_mem_nil _⟩
  | cons field fields ih =>
      obtain ⟨hfield, hfields⟩ := List.forall_mem_cons.mp hfields
      rw [List.foldlM_cons] at h
      obtain ⟨types₁, hturn, hfold⟩ := bind_eq_ok.mp h
      rcases addField_cases hg hrest hfield hturn with
        ⟨rfl, hcovered⟩ | ⟨hopen, hadd⟩
      · obtain ⟨hkept, hsub, hall⟩ := ih hfields htypes hfold
        exact ⟨hkept, hsub, List.forall_mem_cons.mpr ⟨.inl hcovered, hall⟩⟩
      rcases addDistinct_cases hg (fun t ht => (htypes t ht).1) hfield hadd
        with rfl | ⟨rfl, t, ht, -, hsame⟩
      · have hnew : ∀ t ∈ types ++ [field.type], t.index < g.size ∧
            ∀ r ∈ rest, ¬ g.Assignable t r := by
          rw [List.forall_mem_append, List.forall_mem_singleton]
          exact ⟨htypes, hfield, hopen⟩
        obtain ⟨hkept, hsub, hall⟩ := ih hfields hnew hfold
        refine ⟨hkept, fun t ht => hsub t (List.mem_append_left _ ht), ?_⟩
        refine List.forall_mem_cons.mpr ⟨.inr ⟨field.type, ?_, .refl _ _⟩,
          hall⟩
        exact hsub _ (List.mem_append_right _ List.mem_cons_self)
      · obtain ⟨hkept, hsub, hall⟩ := ih hfields htypes hfold
        exact ⟨hkept, hsub,
          List.forall_mem_cons.mpr ⟨.inr ⟨t, hsub t ht, hsame⟩, hall⟩⟩

/-- What is made of a record seen as a map takes all of its values. -/
theorem mapConstraint_sums {shape : RecordType}
    (hvalues : ∀ d ∈ shape.valueTypes, g.Whole d)
    (h : mapConstraint g .structural shape = .ok source) :
    source.Sums g shape.valueTypes := by
  have hsub := ids_mapConstraint h
  rw [mapConstraint_eq] at h
  obtain ⟨rest, hrest, h⟩ := bind_eq_ok.mp h
  obtain ⟨types, htypes, h⟩ := bind_eq_ok.mp h
  obtain ⟨types', htypes', h⟩ := bind_eq_ok.mp h
  have hids : source.ids = types' ∧ ∀ table, source ≠ .keyOf table := by
    split at h
    all_goals cases pure_eq_ok.mp h
    all_goals exact ⟨rfl, fun _ => Source.noConfusion⟩
  have hfield : ∀ f ∈ shape.fields, f.type.index < g.size :=
    fun f hf => (hvalues _ (List.mem_append_left _
      (List.mem_map_of_mem hf))).lt
  have hown : ∀ r ∈ rest, r.index < g.size := fun r hr =>
    (hvalues r (List.mem_append_right _
      (Option.mem_toList.mpr (mem_mapRest hrest r hr)))).lt
  obtain ⟨hopen, -, hall⟩ := foldFields_covers hg hown hfield
    (List.forall_mem_nil _) htypes
  -- the type of the unnamed fields is not the same as one that it does
  -- not take
  have hadded : types' = types ++ rest.toList := by
    cases rest with
    | none =>
        cases htypes'
        exact (List.append_nil _).symm
    | some own =>
        obtain ⟨types₁, hadd, hdone⟩ := bind_eq_ok.mp htypes'
        cases hdone
        rcases addDistinct_cases hg (fun t ht => (hopen t ht).1)
          (hown own rfl) hadd with heq | ⟨-, t, ht, hsame, -⟩
        · exact heq
        · exact absurd hsame ((hopen t ht).2 own rfl)
  refine ⟨hids.2, hsub, ?_⟩
  rw [hids.1, hadded]
  intro d hd
  rcases List.mem_append.mp hd with hd | hd
  · obtain ⟨f, hf, rfl⟩ := List.mem_map.mp hd
    rcases hall f hf with ⟨r, hr, hcovered⟩ | ⟨t, ht, hsame⟩
    · exact .inr ⟨r, List.mem_append_right _ (Option.mem_toList.mpr hr),
        hcovered⟩
    · exact .inr ⟨t, List.mem_append_left _ ht, hsame⟩
  · rcases mapRest?_cases hvalues hrest with rfl | ⟨-, r, node, hr, hnever⟩
    · exact .inr ⟨d, List.mem_append_right _ hd, .refl _ _⟩
    · rw [hr, Option.toList_some, List.mem_singleton] at hd
      subst hd
      exact .inl ⟨node, hnever⟩

-- ================================================================ plans

/-- Below a whole type, what the parts of a container have to take is
whole. -/
theorem whole_of_fills (h : kind.Fills g actual slots) {a : TypeId}
    {node : Node} (ha : g.Whole a) (hn : g.node? a = some node)
    (hactual : node.kind = actual) :
    ∀ slot ∈ slots, ∀ d ∈ slot, g.Whole d := by
  have hnil : g.Whole .nil := hg.whole_builtin rfl (by decide)
  have hdata : g.Whole .anydata := hg.whole_builtin rfl (by decide)
  have hparts := ha.child hg.closed hn
  rw [hactual] at hparts
  cases h with
  | row hrow =>
      rw [List.forall_mem_singleton, ← elementTypes_of_row? hrow]
      exact on_elementTypes hparts hdata
  | rows hrows hsome =>
      rw [List.forall_mem_singleton]
      intro d hd
      obtain ⟨row, hrow, hd⟩ := List.mem_flatMap.mp hd
      obtain ⟨m, hm, node', hn', hrow'⟩ :=
        exists_mem_of_forall₂ hrows.flip hrow
      rw [← elementTypes_of_row? hrow'] at hd
      exact on_elementTypes ((hparts m hm).child hg.closed hn') hdata d hd
  | map =>
      rw [List.forall_mem_singleton]
      exact hparts
  | record =>
      rw [List.forall_mem_singleton]
      exact on_recordValues hparts hdata
  | stream hstream =>
      rw [List.forall_mem_cons, List.forall_mem_singleton,
        List.forall_mem_singleton, List.forall_mem_singleton]
      exact on_streamParts hparts hnil hstream
  | @streams _ _ _ parts hstreams hsome =>
      have hboth : ∀ p ∈ parts, g.Whole p.1 ∧ g.Whole p.2 := by
        intro p hp
        obtain ⟨m, hm, node', hn', hstream⟩ :=
          exists_mem_of_forall₂ hstreams.flip hp
        exact on_streamParts ((hparts m hm).child hg.closed hn') hnil
          hstream
      rw [List.forall_mem_cons, List.forall_mem_singleton,
        List.forall_mem_map, List.forall_mem_map]
      exact ⟨fun p hp => (hboth p hp).1, fun p hp => (hboth p hp).2⟩

/-- A container that meets a type that it may take has its parts paired
with what is made for them. -/
theorem plan_of_fills (h : kind.Fills g actual slots)
    (hslots : ∀ slot ∈ slots, ∀ d ∈ slot, g.Whole d) (depth : Nat)
    (variance : Variance) (declared a : TypeId) :
    ∃ sources, List.Forall₂ (Source.Sums g) sources slots ∧
      plan g .structural depth variance declared kind a actual
        = .ok (.pairs (pairSources variance kind.children
            sources)) := by
  cases h with
  | row hrow =>
      cases actual with
      | array element =>
          cases hrow
          exact ⟨[.given element], .cons (Source.sums_given _) .nil, rfl⟩
      | tuple members rest =>
          cases hrow
          exact ⟨[.unionOf (members ++ rest.toList)],
            .cons (Source.sums_unionOf _) .nil, rfl⟩
      | leaf | map | record | union | error | stream | table | function
      | object | typedesc | xml => cases hrow
  | @rows element members rows hrows hsome =>
      obtain ⟨kinds, hkinds, hall⟩ := exists_kinds hrows
      refine ⟨[.unionOf (rows.flatMap Row.parts)],
        .cons (Source.sums_unionOf _) .nil, ?_⟩
      refine bind_eq_ok.mpr ⟨kinds, hkinds, ?_⟩
      rw [flatMap_elementTypes hall, pairUnion,
        if_neg (mt List.isEmpty_iff.mp hsome)]
      rfl
  | map => exact ⟨[.given _], .cons (Source.sums_given _) .nil, rfl⟩
  | record =>
      obtain ⟨source, hsource⟩ := mapConstraint_returns
        Checker.structural_total hg fun d hd =>
          (hslots _ List.mem_cons_self d hd).lt
      refine ⟨[source], .cons (mapConstraint_sums hg
        (hslots _ List.mem_cons_self) hsource) .nil, ?_⟩
      exact bind_eq_ok.mpr ⟨source, hsource, rfl⟩
  | stream hparts =>
      cases actual with
      | stream constraint completion =>
          cases hparts
          exact ⟨[.given _, .given _], .cons (Source.sums_given _)
            (.cons (Source.sums_given _) .nil), rfl⟩
      | leaf | array | tuple | map | record | union | error | table
      | function | object | typedesc | xml => cases hparts
  | @streams _ _ _ parts hparts hsome =>
      obtain ⟨kinds, hkinds, hall⟩ := exists_kinds hparts
      refine ⟨[.unionOf (parts.map (·.1)), .unionOf (parts.map (·.2))],
        .cons (Source.sums_unionOf _)
          (.cons (Source.sums_unionOf _) .nil), ?_⟩
      refine bind_eq_ok.mpr ⟨kinds, hkinds, ?_⟩
      rw [filterMap_streamParts hall,
        if_neg (mt List.isEmpty_iff.mp hsome)]
      rfl

end InOrder

-- ================================================================= runs

/-- These are markers, and known by these keys. -/
def KnownBy (g : Graph) : List TypeId → List MarkerKey → Prop :=
  List.Forall₂ fun part key => ∃ node, g.node? part = some node ∧
    node.markerKey? = some key

/-- What becomes of a marker, at whatever level. -/
theorem matchTypes_marker {ctx : Context} {depth : Nat} {s s' : State}
    {part a : TypeId} {node : Node} {key : MarkerKey} {variance : Variance}
    (hn : s.graph.node? part = some node)
    (hkey : node.markerKey? = some key) (hvisited : part ∉ s.visited)
    (h : matchTypes ctx depth part a variance s = .ok () s') :
    MarkerEnding ctx part key a variance s s' := by
  obtain ⟨descend, hform⟩ : ∃ descend, matchTypes ctx depth part a variance
      = matchStep ctx descend part a variance := by
    cases depth <;> exact ⟨_, rfl⟩
  rw [hform, matchStep_of_unvisited hvisited hn] at h
  unfold meet at h
  rw [hkey] at h
  exact bindMarker_ending h

/-- A free parameter that meets a type is bound to it, without a word. -/
theorem MarkerEnding.binds_free {ctx : Context} {part a : TypeId}
    {key : MarkerKey} {variance : Variance} {s s' : State}
    (h : MarkerEnding ctx part key a variance s s')
    (hfree : s.env.lookup? key = none) (ha : a ≠ .noType) :
    s'.env = s.env.add ⟨key, part, a⟩ ∧ s'.visited = s.visited ∧
      s'.work.journal.log = s.work.journal.log := by
  cases h with
  | binds _ _ htell => exact ⟨rfl, rfl, htell.log⟩
  | agrees hbound | clashes hbound | skipped hbound =>
      rw [hbound] at hfree
      cases hfree
  | uninferred _ hmissing => exact absurd hmissing ha

/-- A free parameter is bound to what is made for it. -/
theorem PairMeets.binds_free (hg : g.WellFormed) {ctx : Context}
    {depth : Nat} {variance : Variance} {part : TypeId} {node : Node}
    {key : MarkerKey} {s s' : State} (hn : g.node? part = some node)
    (hkey : node.markerKey? = some key) (hsums : source.Sums g slot)
    (hslot : ∀ d ∈ slot, g.Whole d) (hs : s.Ready)
    (hext : g.Extends s.graph) (hvisited : part ∉ s.visited)
    (hfree : s.env.lookup? key = none)
    (h : PairMeets (fun e a v s s' =>
      matchTypes ctx depth e a v s = .ok () s') ⟨part, source, variance⟩
      s s') :
    ∃ u, s'.env = s.env.add ⟨key, part, u⟩ ∧ s'.visited = s.visited ∧
      s'.work.journal.log = s.work.journal.log ∧
      s.graph.Extends s'.graph ∧ s'.Ready ∧
      ∀ g', g'.WellFormed → s'.graph.Extends g' → g'.Least slot u := by
  obtain ⟨made, work, hresolve, hmeets⟩ := h
  obtain ⟨u, rfl, hleast⟩ := hsums.resolve_least hg hslot hs.graph.closed
    hext hresolve
  obtain ⟨hmade, hgrown, -⟩ := hs.source (fun id hid =>
    hext.lt (hslot id (hsums.sub id hid)).lt) hresolve
  replace hgrown := hgrown.nodes
  have hu := (hleast _ hmade.graph (.refl _)).whole
  have hn' : ({ s with work } : State).graph.node? part = some node :=
    hgrown _ _ (hext _ _ hn)
  obtain ⟨henv, hkept, hlog⟩ :=
    (matchTypes_marker hn' hkey hvisited hmeets).binds_free hfree
      (hu.ne_noType hmade.graph)
  have hmatch : Matches ctx part u variance { s with work } s' :=
    ⟨depth, hmeets⟩
  obtain ⟨hs', hext'⟩ := hmatch.ready hmade hu.lt
  refine ⟨u, henv, hkept, ?_, hgrown.trans hext', hs', ?_⟩
  · exact hlog.trans
      (congrArg Journal.log (Source.resolve_journal hresolve).1)
  · intro g' hg' hg''
    exact hleast g' hg' (hext'.trans hg'')

/-- Parameters that are free and no two of which are the same are bound
to what is made for them. -/
theorem pairSources_binds (hg : g.WellFormed) {ctx : Context} {depth : Nat}
    {variance : Variance} {parts : List TypeId} {keys : List MarkerKey}
    {sources : List Source} {slots : List (List TypeId)} {s s' : State}
    (hkeys : KnownBy g parts keys) (hnodup : keys.Nodup)
    (hsources : List.Forall₂ (Source.Sums g) sources slots)
    (hlength : parts.length = slots.length)
    (hslots : ∀ slot ∈ slots, ∀ d ∈ slot, g.Whole d)
    (hs : s.Ready) (hext : g.Extends s.graph)
    (hvisited : ∀ part ∈ parts, part ∉ s.visited)
    (hfree : ∀ key ∈ keys, s.env.lookup? key = none)
    (h : Sweeps (PairMeets fun e a v s s' =>
      matchTypes ctx depth e a v s = .ok () s')
      (pairSources variance parts sources) s s') :
    ∃ us, List.Forall₂ (fun key u => s'.env.lookup? key = some u) keys
        us ∧
      (∀ key, key ∉ keys → s'.env.lookup? key = s.env.lookup? key) ∧
      s'.work.journal.log = s.work.journal.log ∧
      s.graph.Extends s'.graph ∧
      ∀ g', g'.WellFormed → s'.graph.Extends g' →
        List.Forall₂ g'.Least slots us := by
  induction hkeys generalizing sources slots s with
  | nil =>
      obtain rfl := List.length_eq_zero_iff.mp hlength.symm
      cases h
      exact ⟨[], .nil, fun _ _ => rfl, rfl, .refl _, fun _ _ _ => .nil⟩
  | @cons part key parts keys hpart _ ih =>
      obtain _ | ⟨hsums, hsources⟩ := hsources
      · cases hlength
      obtain _ | ⟨hmeets, h⟩ := h
      obtain ⟨node, hn, hkey⟩ := hpart
      obtain ⟨hslot, hslots⟩ := List.forall_mem_cons.mp hslots
      obtain ⟨hvisit, hvisited⟩ := List.forall_mem_cons.mp hvisited
      obtain ⟨hfirst, hfree⟩ := List.forall_mem_cons.mp hfree
      obtain ⟨hnew, hnodup⟩ := List.nodup_cons.mp hnodup
      obtain ⟨u, henv, hkept, hlog, hext₁, hs₁, hleast⟩ :=
        PairMeets.binds_free hg hn hkey hsums hslot hs hext hvisit hfirst
          hmeets
      -- the first parameter is bound, and none of the others is it
      have hlook := s.env.lookup?_add ⟨key, part, u⟩
      rw [← henv] at hlook
      obtain ⟨us, hbound, hothers, hsaid, hext₂, hall⟩ := ih hnodup
        hsources (Nat.succ.inj hlength) hslots hs₁ (hext.trans hext₁)
        (hkept ▸ hvisited) (by
          intro k hk
          have hne : key ≠ k := fun heq => hnew (heq ▸ hk)
          rw [hlook, hfree k hk, if_neg hne, Option.or_none]) h
      refine ⟨u :: us, .cons ?_ hbound, ?_, hsaid.trans hlog,
        hext₁.trans hext₂, ?_⟩
      · rw [hothers key hnew, hlook, hfirst, if_pos rfl, Option.none_or]
      · intro k hk
        rw [List.mem_cons, not_or] at hk
        rw [hothers k hk.2, hlook, if_neg (Ne.symm hk.1), Option.or_none]
      · intro g' hg' hext'
        exact .cons (hleast g' hg' (hext₂.trans hext'))
          (hall g' hg' hext')

/-- Where a container of free parameters meets a type that it may take,
the parameters are bound to the least types that are enough. -/
theorem matchTypes_least {ctx : Context}
    (hchecker : ctx.checker = .structural) {depth : Nat} {s s' : State}
    (hs : s.Ready) (hunvisited : s.visited = []) {declared a : TypeId}
    {node actualNode : Node} {keys : List MarkerKey}
    (hn : s.graph.node? declared = some node)
    (hmarker : node.markerKey? = none)
    (hkeys : KnownBy s.graph node.kind.children keys)
    (hnodup : keys.Nodup)
    (hfree : ∀ key ∈ keys, s.env.lookup? key = none)
    (ha : s.graph.Whole a) (hactual : s.graph.node? a = some actualNode)
    (hfills : node.kind.Fills s.graph actualNode.kind slots)
    (h : matchTypes ctx (depth + 1) declared a .covariant s = .ok () s') :
    ∃ us, List.Forall₂ (fun key u => s'.env.lookup? key = some u) keys
        us ∧
      s'.work.journal.log = s.work.journal.log ∧
      s.graph.Extends s'.graph ∧
      ∀ g', g'.WellFormed → s'.graph.Extends g' →
        List.Forall₂ g'.Least slots us := by
  have hvisited : declared ∉ s.visited := by
    rw [hunvisited]
    exact List.not_mem_nil
  rw [show matchTypes ctx (depth + 1) declared a .covariant
    = matchStep ctx (some fun e a v => matchTypes ctx depth e a v) declared
        a .covariant from rfl, matchStep_of_unvisited hvisited hn] at h
  unfold meet at h
  simp only [hmarker, if_neg (ha.ne_noType hs.graph),
    if_neg (Bool.eq_false_iff.mp hfills.isLeaf)] at h
  obtain ⟨kind, plan, hkind, hplan, hfollow⟩ := goDown_run h
  rw [Graph.kind_of_node hactual] at hkind
  cases hkind
  have hslots := whole_of_fills hs.graph hfills ha hactual rfl
  obtain ⟨sources, hsources, hplan'⟩ := plan_of_fills hs.graph hfills
    hslots ctx.config.maxDepth .covariant declared a
  rw [hchecker, hplan'] at hplan
  cases hplan
  -- the parts are markers, and the container is none
  have hapart : ∀ part ∈ node.kind.children,
      part ∉ declared :: s.visited := by
    intro part hpart
    rw [hunvisited, List.mem_singleton]
    intro heq
    obtain ⟨key, -, node', hn', hkey⟩ := exists_mem_of_forall₂ hkeys hpart
    rw [heq, hn, Option.some.injEq] at hn'
    rw [← hn', hmarker] at hkey
    cases hkey
  have hentered :
      ({ s with visited := declared :: s.visited } : State).Ready :=
    ⟨hs.graph, hs.bound⟩
  cases followPlan_follows hfollow with
  | pairs hsweep =>
      obtain ⟨us, hbound, -, hrest⟩ := pairSources_binds hs.graph hkeys
        hnodup hsources hfills.length hslots hentered (.refl _) hapart hfree
        hsweep
      exact ⟨us, hbound, hrest⟩

end Matching

end TypeParams
