/-
What is assignable to data is data.

# Data, by what it holds

To be data is a property of everything a type is made of, so it is shown
by giving a set of types that is closed under what has to be looked at
(`Data.of_closed`). Here the set is that of all types below one of data.
It is closed because forms that fit each other have parts that do: each
part of the source that has to be data is below such a part of the
target, or below anydata (`Kind.Fits.dataParts`).

# Where it needs more

Records are compared by the names of their fields, and of two fields of
one name only the first is looked at; the second could be anything. So
records must name their fields differently (`RecordType.Distinct`). And
unions must not be among their own members: to such a union everything
is assignable, data or not.

# Anydata

To be data is to be assignable to anydata (`Data.assignable_anydata`),
so with the types that are, anydata takes in all below them
(`assignable_anydata_of_below`). This is transitivity at anydata, which
assignability does not have at all types.
-/
import TypeParams.Proofs.Kind
import TypeParams.Proofs.Subtype.Unions

namespace TypeParams

-- ================================================ data, by what it holds

namespace Graph

variable {g : Graph}

/-- What is in a set of types that is closed under what has to be data
is data. -/
theorem Data.of_closed {S : TypeId → Prop}
    (hS : ∀ x, S x → ∃ node parts, g.node? x = some node ∧
      node.kind.dataParts? = some parts ∧ ∀ p ∈ parts, S p)
    {a : TypeId} (ha : S a) : g.Data a := by
  have hreaches : ∀ b, g.DataReaches a b → S b := by
    intro b hb
    induction hb with
    | refl => exact ha
    | @step b c node parts _ hn hparts hc ih =>
        obtain ⟨node', parts', hn', hparts', hall⟩ := hS b ih
        rw [hn, Option.some.injEq] at hn'
        subst hn'
        rw [hparts, Option.some.injEq] at hparts'
        exact hall c (hparts' ▸ hc)
  intro b hb
  obtain ⟨node, parts, hn, hparts, -⟩ := hS b (hreaches b hb)
  exact ⟨node, hn, by rw [hparts, Option.isSome_some]⟩

/-- What has to be data of a type of data is data. -/
theorem Data.parts {a : TypeId} {node : Node} (h : g.Data a)
    (hn : g.node? a = some node) :
    ∃ parts, node.kind.dataParts? = some parts ∧
      ∀ p ∈ parts, g.Data p := by
  obtain ⟨node', hn', hsome⟩ := h a .refl
  rw [hn, Option.some.injEq] at hn'
  subst hn'
  obtain ⟨parts, hparts⟩ := Option.isSome_iff_exists.mp hsome
  exact ⟨parts, hparts, fun p hp b hb => h b (hb.head hn hparts hp)⟩

/-- Any data is data. -/
theorem WellFormed.data_anydata (hg : g.WellFormed) :
    g.Data .anydata := by
  refine Data.of_closed (S := (· = .anydata)) ?_ rfl
  rintro x rfl
  exact ⟨_, [], hg.node?_anydata, rfl, by simp⟩

end Graph

-- ==================================================== forms that fit

variable {R : TypeId → TypeId → Prop} {a b : TypeId}

/-- No two fields of a record have the same name. -/
def RecordType.Distinct (record : RecordType) : Prop :=
  (record.fields.map (·.name)).Nodup

theorem RecordType.Distinct.field?_of_mem {record : RecordType}
    (h : record.Distinct) {f : Field} (hf : f ∈ record.fields) :
    record.field? f.name = some f :=
  find?_of_nodup h hf

/-- All parts of an array or a tuple have to be data. -/
theorem Kind.dataParts?_of_row? {kind : Kind} {row : Row}
    (h : kind.row? = some row) :
    kind.dataParts? = some (row.members ++ row.rest.toList) := by
  cases kind with
  | array | tuple =>
      cases h
      rfl
  | leaf | map | record | union | error | stream | table | function
  | object | typedesc | xml => cases h

/-- What the rest type of a record has to be data for. -/
theorem RecordType.restType_mem {record : RecordType} {r : TypeId}
    (h : record.restType = some r) :
    r ∈ record.fields.map (·.type) ++ record.rest.toList ∨
      r = .anydata := by
  rcases rest_of_restType h with h | h
  · exact .inl (List.mem_append_right _ (Option.mem_toList.mpr h))
  · exact .inr h

/-- The parts of the source that have to be data are below those of the
target, or below anydata. -/
theorem Kind.Fits.dataParts {source target : Kind} {parts' : List TypeId}
    (h : Fits R a b source target)
    (hparts : target.dataParts? = some parts')
    (hdistinct : ∀ shape, source = .record shape → shape.Distinct) :
    ∃ parts, source.dataParts? = some parts ∧
      ∀ p ∈ parts, ∃ q, (q ∈ parts' ∨ q = .anydata) ∧ R p q := by
  cases h with
  | row hs ht h =>
      rw [dataParts?_of_row? ht, Option.some.injEq] at hparts
      subst hparts
      refine ⟨_, dataParts?_of_row? hs, fun p hp => ?_⟩
      obtain ⟨i, hi⟩ := Row.exists_at?_of_mem hp
      obtain ⟨q, hq, hpq⟩ := h.pointwise i p hi
      exact ⟨q, .inl (Row.mem_of_at? hq), hpq⟩
  | @map constraint constraint' h =>
      cases hparts
      refine ⟨_, rfl, List.forall_mem_singleton.mpr ?_⟩
      exact ⟨constraint', .inl List.mem_cons_self, h⟩
  | @values shape constraint h =>
      cases hparts
      refine ⟨_, rfl, fun p hp => ?_⟩
      refine ⟨constraint, .inl List.mem_cons_self, h p ?_⟩
      rcases List.mem_append.mp hp with hp | hp
      · exact List.mem_append_left _ hp
      · refine List.mem_append_right _ (Option.mem_toList.mpr ?_)
        exact RecordType.restType_of_rest (Option.mem_toList.mp hp)
  | @record shape shape' h =>
      cases hparts
      refine ⟨_, rfl, fun p hp => ?_⟩
      rcases List.mem_append.mp hp with hp | hp
      · obtain ⟨f, hf, rfl⟩ := List.mem_map.mp hp
        cases hfield : shape'.field? f.name with
        | none =>
            obtain ⟨r, hr, hfr⟩ := h.unnamed f hf hfield
            exact ⟨r, RecordType.restType_mem hr, hfr⟩
        | some own =>
            obtain ⟨hown, hname⟩ := RecordType.field?_mem hfield
            refine ⟨own.type,
              .inl (List.mem_append_left _ (List.mem_map_of_mem hown)), ?_⟩
            refine (h.named own hown f ?_).2
            -- the field that is found under the name is this one, since
            -- names differ
            rw [hname]
            exact (hdistinct shape rfl).field?_of_mem hf
      · obtain ⟨r, hr, hpr⟩ := h.rest p
          (RecordType.restType_of_rest (Option.mem_toList.mp hp))
        exact ⟨r, RecordType.restType_mem hr, hpr⟩
  | entries hfields hrest =>
      cases hparts
      obtain ⟨r, hr, hcr⟩ := hrest
      refine ⟨_, rfl, List.forall_mem_singleton.mpr ?_⟩
      exact ⟨r, RecordType.restType_mem hr, hcr⟩
  | @table shape shape' hrow hkey =>
      cases hparts
      refine ⟨_, rfl, List.forall_mem_singleton.mpr ?_⟩
      exact ⟨shape'.row, .inl List.mem_cons_self, hrow⟩
  | xml | item => exact ⟨[], rfl, by simp⟩
  | error | stream | function | object | typedesc => cases hparts

/-- A single type that a leaf of data takes is of the leaf's form or
another that holds data only, unless the leaf is anydata. -/
theorem Leaf.Takes.dataParts {g : Graph} {s : Node} {form : Leaf}
    (h : form.Takes g R a s b) (hform : form.isData = true) :
    g.Data a ∨ s.kind.dataParts? = some [] := by
  cases h with
  | any | readonly => cases hform
  | anydata h => exact .inl h
  | same hplain h =>
      refine .inr ?_
      rw [h, Kind.dataParts?, if_pos hform]
  | byte h | xml h =>
      refine .inr ?_
      rw [h]
      rfl

-- ========================================================= the property

/-- A type that is assignable to one of data is one of data. -/
theorem Graph.Grounded.data_below {g : Graph} {P : TypeId → Prop}
    (h : g.Grounded P) (hany : g.Data .anydata)
    (hdistinct : ∀ id node shape, P id → g.node? id = some node →
      node.kind = .record shape → shape.Distinct)
    {a b : TypeId} (hab : Below g P a b) (hb : g.Data b) : g.Data a := by
  refine Data.of_closed (S := fun x => ∃ y, Below g P x y ∧ g.Data y) ?_
    ⟨b, hab, hb⟩
  rintro x ⟨y, hxy, hy⟩
  have hx := hxy.1
  obtain ⟨s, hs, -⟩ := h.closed x hx
  -- the parts of a type of data are below themselves
  have hself : g.Data x → ∃ node parts, g.node? x = some node ∧
      node.kind.dataParts? = some parts ∧
      ∀ p ∈ parts, ∃ y, Below g P p y ∧ g.Data y := by
    intro hdata
    obtain ⟨parts, hparts, hall⟩ := hdata.parts hs
    refine ⟨s, parts, hs, hparts, fun p hp => ⟨p, ?_, hall p hp⟩⟩
    have hp := h.closed.child hx hs p
      (Kind.mem_children_of_mem_dataParts hparts hp)
    exact ⟨hp, hp, .refl g p⟩
  rcases h.relates hxy with rfl | ⟨s', t, hs', -, hr⟩
  · exact hself hy
  rw [hs, Option.some.injEq] at hs'
  subst hs'
  rcases hr.source with hnever | ⟨members, hunion, hmembers⟩ | hsingle
  · exact ⟨s, [], hs, by rw [hnever]; rfl, by simp⟩
  · exact ⟨s, members, hs, by rw [hunion]; rfl,
      fun m hm => ⟨y, hmembers m hm, hy⟩⟩
  -- a member of a type of data is one too, so the target may be no union
  obtain ⟨y', t', hy', ht', hnot, hxy', hdata⟩ :=
    h.exists_target hs hsingle (Q := g.Data)
      (by
        rintro u m - hu ⟨node, members, hn, hkind, hm⟩ -
        obtain ⟨parts, hparts, hall⟩ := hu.parts hn
        rw [hkind] at hparts
        cases hparts
        exact hall m hm)
      hxy.2.1 hxy.2.2 hy
  rcases h.relates ⟨hx, hy', hxy'⟩ with rfl | ⟨s', t, hs', ht, hr⟩
  · exact hself hdata
  rw [hs, Option.some.injEq] at hs'
  rw [ht', Option.some.injEq] at ht
  subst hs' ht
  obtain ⟨parts', hparts', hall⟩ := hdata.parts ht'
  rcases hr.of_single hsingle hnot with ⟨form, hform, htakes⟩ | hfits
  · have hisData : form.isData = true := by
      rw [hform, Kind.dataParts?] at hparts'
      split at hparts'
      · assumption
      · cases hparts'
    rcases htakes.dataParts hisData with hdata | hnone
    · exact hself hdata
    · exact ⟨s, [], hs, hnone, by simp⟩
  · obtain ⟨parts, hparts, hbelow⟩ := hfits.dataParts hparts'
      fun shape => hdistinct x s shape hx hs
    refine ⟨s, parts, hs, hparts, fun p hp => ?_⟩
    obtain ⟨q, hq, hpq⟩ := hbelow p hp
    rcases hq with hq | rfl
    · exact ⟨q, hpq, hall q hq⟩
    · exact ⟨.anydata, hpq, hany⟩

-- ============================================================== anydata

/-- The names that a record gives its fields. -/
def Kind.fieldNames : Kind → List String
  | .record shape => shape.fields.map (·.name)
  | _ => []

namespace Graph

variable {g : Graph}

/-- To be data is to be assignable to anydata. -/
theorem Data.assignable_anydata (hg : g.WellFormed) {a : TypeId}
    (h : g.Data a) : g.Assignable a .anydata := by
  refine ⟨fun x y => g.Data x ∧ y = .anydata, ?_, h, rfl⟩
  rintro x y ⟨hx, rfl⟩
  obtain ⟨s, hs, hsome⟩ := hx x .refl
  have hpresent : s.kind ≠ .leaf .noType := by
    intro hmissing
    rw [hmissing] at hsome
    cases hsome
  have ht := hg.node?_anydata
  refine .inr ⟨s, _, hs, ht, Rule.holds_iff.mpr ?_⟩
  rcases Kind.eq_or_isSingle hpresent with
    hnever | ⟨members, hunion⟩ | hsingle
  · exact .never hnever (by simp [Node.anonymous])
  · refine .members hunion (by simp [Node.anonymous]) fun m hm => ?_
    obtain ⟨parts, hparts, hall⟩ := hx.parts hs
    rw [hunion] at hparts
    cases hparts
    exact ⟨hall m hm, rfl⟩
  · exact .leaf hsingle rfl (.anydata hx)

/-- Nothing but data can be passed off as data: where records name their
fields apart and no union is among its own members, a type that is
assignable to one that is assignable to anydata is assignable to anydata
itself. -/
theorem assignable_anydata_of_below (hg : g.WellFormed)
    (hnames : ∀ node ∈ g.nodes.toList, node.kind.fieldNames.Nodup)
    (hunions : ∀ u, ¬ Relation.TransGen g.Member u u) {s t : TypeId}
    (hs : s.index < g.size) (ht : t.index < g.size)
    (hst : g.assignable s t = .ok true)
    (htdata : g.assignable t .anydata = .ok true) :
    g.assignable s .anydata = .ok true := by
  have hany : TypeId.anydata.index < g.size := hg.builtin_lt rfl
  have hground : g.Grounded (·.index < g.size) :=
    ⟨hg.closed.closedOn, hany, hg.builtin_lt rfl, fun u _ => hunions u⟩
  have hdistinct : ∀ id node shape, id.index < g.size →
      g.node? id = some node → node.kind = .record shape →
      shape.Distinct := by
    intro id node shape _ hn hkind
    have hfields := hnames node (mem_nodes_of_node? hn)
    rw [hkind] at hfields
    exact hfields
  rw [hground.assignable_iff hs ht] at hst
  rw [hground.assignable_iff ht hany] at htdata
  rw [hground.assignable_iff hs hany]
  have hdata : g.Data t := hground.data_below hg.data_anydata hdistinct
    ⟨ht, hany, htdata⟩ hg.data_anydata
  have hdata' : g.Data s :=
    hground.data_below hg.data_anydata hdistinct ⟨hs, ht, hst⟩ hdata
  exact hdata'.assignable_anydata hg

/-- A tree of bytes with tagged nodes (21, 22), one of ints or nil with
nodes that may hold more (23, 24, 25), and that or a string (26). -/
def trees : Graph :=
  ⟨Graph.builtin.nodes ++ #[
    .named "Tree" ⟨1⟩ (.record {
      fields := [{ name := "value", type := .byte },
        { name := "below", type := ⟨22⟩ }, { name := "tag", type := .xml }]
      isSealed := true }),
    .anonymous (.tuple [] (some ⟨21⟩)),
    .anonymous (.record {
      fields := [{ name := "below", type := ⟨24⟩ },
        { name := "value", type := ⟨25⟩, optional := true }] }),
    .anonymous (.array ⟨23⟩),
    .anonymous (.union [.nil, .int]),
    .anonymous (.union [.string, ⟨23⟩])]⟩

/-- The tags fall under what the other nodes may hold besides. -/
theorem trees_below_anydata :
    trees.WellFormed ∧ trees.assignable ⟨21⟩ ⟨26⟩ = .ok true ∧
      trees.assignable ⟨26⟩ .anydata = .ok true ∧
      trees.assignable ⟨21⟩ .anydata = .ok true := by
  have hg : trees.WellFormed := by decide
  have hunions : ∀ u, ¬ Relation.TransGen trees.Member u u :=
    not_transGen_member_of_order (by decide)
  have hst : trees.assignable ⟨21⟩ ⟨26⟩ = .ok true := by decide +kernel
  have ht : trees.assignable ⟨26⟩ .anydata = .ok true := by decide +kernel
  exact ⟨hg, hst, ht, assignable_anydata_of_below hg (by decide) hunions
    (by decide) (by decide) hst ht⟩

end Graph

end TypeParams
