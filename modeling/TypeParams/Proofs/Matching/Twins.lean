/-
The same types made twice.

A match puts actual types together, and what they are called depends on
what was added before. To compare two matches of the same types, over
graphs that have both grown from one graph, their actual types are
paired as twins (`Graph.Twins`): types that were there go by the same
id, and new ones have the same node.

# Why twins suffice

Twins suffice because what a match makes is flat: a union or a tuple of
types that were there (`Graph.Flat`). Two facts show it. A source reads
the graph first, and then adds at most one node (`Source.draft`). And a
plan draws on the parts of a type, never on a type with parts itself. So
twins are planned for alike (`plan_twins`), the plan draws on nothing
new (`plan_draws_twins`), and what is made for it are twins again
(`Source.resolve_twins`).

# Drafts

A draft is what an actual type comes to before it has an id. Reading the
graph and adding a node are one action in the program; taken apart, the
first is a function of the graph, which can be compared between two
graphs that agree, and the second is the same in any workspace.

# Error types

A declared error type asks of a union whether there are only errors in
it, and the answer may be a fault. The walk looks at the members of the
union and below, all of which were there, so it ends in the same way for
both twins, with the same answer or the same fault
(`Twins.onlyErrors_eq`).
-/
import TypeParams.Proofs.Matching.Agreement
import TypeParams.Proofs.Matching.Bindings

namespace TypeParams

-- =============================================================== drafts

namespace Matching

/-- What the actual type of a pairing comes to: none, a type that is
there, or a new one. -/
inductive Draft where
  | unknown
  | there (id : TypeId)
  | new (node : Node)

namespace Draft

/-- A union of these members. -/
def ofMembers : List TypeId → Draft
  | [] => .there .never
  | [id] => .there id
  | members => .new (.anonymous (.union members))

/-- A key of these fields. -/
def ofFields : List Field → Draft
  | [field] => .there field.type
  | fields => .new (.anonymous (.tuple (fields.map (·.type)) none))

/-- A key of some fields of a row. -/
def ofRow (names : List String) : Kind → Draft
  | .record shape => (names.mapM shape.field?).elim .unknown ofFields
  | _ => .unknown

/-- Makes what was drafted. -/
def make : Draft → WorkM (Option TypeId)
  | .unknown => return none
  | .there id => return some id
  | .new node => return some (← WorkM.alloc node)

end Draft

/-- What the key of a table is that is known by its fields. -/
def rowDraft (g : Graph) (table : TableType) : Except Fault Draft :=
  if table.keyFields.isEmpty then return .unknown
  else return .ofRow table.keyFields (← g.kind table.row)

/-- What is made of a source, as the graph is. -/
def Source.draft (g : Graph) : Source → Except Fault Draft
  | .given id => return .there id
  | .unionOf ids => return .ofMembers (← g.unionMembers ids)
  | .keyOf table => table.key.elim (rowDraft g table) (pure <| .there ·)

/-- The key of a table that is known by its fields is made by drafting
it first. -/
theorem keyOfRow_draft {table : TableType} {made : Option TypeId}
    {w w' : Workspace} (h : keyOfRow table w = .ok made w') :
    ∃ draft, rowDraft w.types.graph table = .ok draft ∧
      draft.make w = .ok made w' := by
  unfold keyOfRow at h
  unfold rowDraft
  by_cases hempty : table.keyFields.isEmpty = true
  · rw [if_pos hempty] at h
    rw [if_pos hempty]
    exact ⟨.unknown, rfl, h⟩
  · rw [if_neg hempty] at h
    rw [if_neg hempty]
    obtain ⟨row, w₁, hread, h⟩ := bind_run.mp h
    obtain ⟨hrow, rfl⟩ := WorkM.node_run.mp hread
    rw [Graph.kind_of_node hrow]
    refine ⟨.ofRow table.keyFields row.kind, rfl, ?_⟩
    cases hkind : row.kind with
    | record shape =>
        rw [hkind] at h
        simp only [Draft.ofRow]
        cases hmap : table.keyFields.mapM shape.field? with
        | none =>
            simp only [hmap] at h
            exact h
        | some fields =>
            simp only [hmap] at h
            match fields with
            | [] => exact h
            | [field] => exact h
            | _ :: _ :: _ => exact h
    | leaf | array | tuple | map | union | error | stream | table
    | function | object | typedesc | xml =>
        rw [hkind] at h
        exact h

/-- A source is made by reading the graph and then adding what is
new. -/
theorem Source.resolve_draft {source : Source} {made : Option TypeId}
    {w w' : Workspace} (h : source.resolve w = .ok made w') :
    ∃ draft, source.draft w.types.graph = .ok draft ∧
      draft.make w = .ok made w' := by
  cases source with
  | given id => exact ⟨.there id, rfl, h⟩
  | unionOf ids =>
      obtain ⟨id, w₁, hunion, h⟩ := bind_run.mp h
      obtain ⟨types, hmade, rfl⟩ := WorkM.unionOf_run.mp hunion
      obtain ⟨members, hmembers, hmade⟩ := bind_eq_ok.mp hmade
      refine ⟨.ofMembers members,
        bind_eq_ok.mpr ⟨members, hmembers, rfl⟩, ?_⟩
      match members with
      | [] | [_] | _ :: _ :: _ =>
          cases hmade
          exact h
  | keyOf table =>
      rw [resolve_keyOf_eq] at h
      simp only [Source.draft]
      cases hkey : table.key with
      | some key =>
          rw [hkey] at h
          exact ⟨.there key, rfl, h⟩
      | none =>
          rw [hkey] at h
          exact keyOfRow_draft h

/-- An actual type is made without a word. -/
theorem Source.resolve_journal {source : Source} {made : Option TypeId}
    {w w' : Workspace} (h : source.resolve w = .ok made w') :
    w'.journal = w.journal ∧ w'.limitReported = w.limitReported := by
  obtain ⟨draft, -, hmake⟩ := Source.resolve_draft h
  cases draft with
  | unknown | there =>
      cases hmake
      exact ⟨rfl, rfl⟩
  | new node =>
      obtain ⟨id, w₁, halloc, hmake⟩ := bind_run.mp hmake
      obtain ⟨-, rfl⟩ := WorkM.alloc_run.mp halloc
      cases hmake
      exact ⟨rfl, rfl⟩

/-- The draft is of a type of the set, or made of such. -/
def Draft.On (P : TypeId → Prop) : Draft → Prop
  | .unknown => True
  | .there id => P id
  | .new node => node.kind.isLeaf = false ∧ ∀ c ∈ node.kind.children, P c

variable {g g' : Graph} {P : TypeId → Prop}

/-- A union of types of the set. -/
theorem Draft.on_ofMembers {members : List TypeId} (hnever : P .never)
    (h : ∀ m ∈ members, P m) : (Draft.ofMembers members).On P := by
  match members with
  | [] => exact hnever
  | [id] => exact h id List.mem_cons_self
  | _ :: _ :: _ => exact ⟨rfl, h⟩

/-- A key of fields of the set. -/
theorem Draft.on_ofFields {fields : List Field}
    (h : ∀ f ∈ fields, P f.type) : (Draft.ofFields fields).On P := by
  have hparts : ∀ c ∈ (Kind.tuple (fields.map (·.type)) none).children,
      P c := by
    simpa [Kind.children] using h
  rcases fields with _ | ⟨field, _ | ⟨second, rest⟩⟩
  · exact ⟨rfl, hparts⟩
  · exact h field List.mem_cons_self
  · exact ⟨rfl, hparts⟩

/-- A key of fields of a row with parts in the set. -/
theorem Draft.on_ofRow {names : List String} {kind : Kind}
    (h : ∀ c ∈ kind.children, P c) : (Draft.ofRow names kind).On P := by
  cases kind with
  | record shape =>
      simp only [Draft.ofRow]
      cases hmap : names.mapM shape.field? with
      | none => trivial
      | some fields =>
          refine on_ofFields fun f hf => ?_
          exact (record_children h).1 f (mem_of_mapM_field? hmap f hf)
  | leaf | array | tuple | map | union | error | stream | table
  | function | object | typedesc | xml => trivial

/-- The key of a table with a row in the set. -/
theorem rowDraft_on (hP : g.ClosedOn P) {table : TableType}
    (hrow : P table.row) {draft : Draft}
    (h : rowDraft g table = .ok draft) : draft.On P := by
  unfold rowDraft at h
  by_cases hempty : table.keyFields.isEmpty = true
  · rw [if_pos hempty] at h
    cases h
    trivial
  · rw [if_neg hempty] at h
    obtain ⟨kind, hkind, h⟩ := bind_eq_ok.mp h
    cases h
    exact Draft.on_ofRow (hP.of_kind hrow hkind)

/-- What is made from types of a closed set is made of types of the
set. -/
theorem Source.draft_on (hP : g.ClosedOn P) (hnever : P .never)
    {source : Source} (hids : ∀ id ∈ source.ids, P id) {draft : Draft}
    (h : source.draft g = .ok draft) : draft.On P := by
  cases source with
  | given id =>
      cases h
      exact hids id List.mem_cons_self
  | unionOf ids =>
      obtain ⟨members, hmembers, h⟩ := bind_eq_ok.mp h
      cases pure_eq_ok.mp h
      refine Draft.on_ofMembers hnever fun m hm => ?_
      obtain ⟨i, hi, node, hn, rfl | hc⟩ :=
        Layer.mem_unionMembers hmembers m hm
      · exact hids m hi
      · exact hP.child (hids i hi) hn m hc
  | keyOf table =>
      obtain ⟨hrow, hkey⟩ := List.forall_mem_cons.mp hids
      simp only [Source.draft] at h
      cases hgiven : table.key with
      | some key =>
          rw [hgiven] at h hkey
          cases h
          exact hkey key List.mem_cons_self
      | none =>
          rw [hgiven] at h
          exact rowDraft_on hP hrow h

/-- Graphs that agree on what a source is made from come to the same. -/
theorem Source.draft_agrees (h : g.Agreement P g') {source : Source}
    (hids : ∀ id ∈ source.ids, P id) :
    source.draft g' = source.draft g := by
  cases source with
  | given id => rfl
  | unionOf ids =>
      have hparts : ids.mapM g'.unionParts = ids.mapM g.unionParts :=
        mapM_congr fun id hid => h.unionParts_eq (hids id hid)
      simp only [Source.draft, Graph.unionMembers, hparts]
  | keyOf table =>
      have hrow := h.kind_eq (hids table.row List.mem_cons_self)
      simp only [Source.draft, rowDraft, hrow]

end Matching

-- ================================================================ twins

namespace Graph

variable {g₀ g g' h h' : Graph} {a b c : TypeId}

/-- Whatever was added has parts, and all of them were there. -/
structure Flat (g₀ g : Graph) : Prop where
  nodes : g₀.Extends g
  added : ∀ id node, g₀.size ≤ id.index → g.node? id = some node →
    node.kind.isLeaf = false ∧
      ∀ c ∈ node.kind.children, c.index < g₀.size

/-- The same type in two graphs that have grown from one: the same id if
it was there, and otherwise a new id of the same node, made of types that
were there. -/
def Twins (g₀ g g' : Graph) (a b : TypeId) : Prop :=
  (a.index < g₀.size ∧ b = a) ∨
    (g₀.size ≤ a.index ∧ g₀.size ≤ b.index ∧
      ∃ node, g.node? a = some node ∧ g'.node? b = some node ∧
        ∀ c ∈ node.kind.children, c.index < g₀.size)

theorem Flat.refl (g : Graph) : g.Flat g where
  nodes := .refl g
  added _ _ hle hn :=
    absurd (index_lt_of_node? hn) (Nat.not_lt.mpr hle)

/-- A new type with parts that were there. -/
theorem Flat.push (hg : g₀.Flat g) {node : Node}
    (hleaf : node.kind.isLeaf = false)
    (hparts : ∀ c ∈ node.kind.children, c.index < g₀.size) :
    g₀.Flat (g.push node) where
  nodes := hg.nodes.trans (extends_push g node)
  added id node' hle hn := by
    obtain ⟨i⟩ := id
    rw [node?_push] at hn
    split at hn
    · cases hn
      exact ⟨hleaf, hparts⟩
    · exact hg.added ⟨i⟩ node' hle hn

/-- Two graphs that have grown from one agree on what was there. -/
theorem Flat.agreement (hg₀ : g₀.WellFormed) (hg : g₀.Flat g)
    (hg' : g₀.Flat g') : g.Agreement (·.index < g₀.size) g' where
  closed := hg₀.closed.closedOn.extends hg.nodes
  agrees id node hid hn := by
    rw [hg.nodes.node?_eq hid] at hn
    exact hg'.nodes _ _ hn
  nil := hg₀.builtin_lt rfl
  anydata := hg₀.builtin_lt rfl

/-- Twins stay twins as both graphs grow. -/
theorem Twins.mono (hab : Twins g₀ g g' a b) (hgh : g.Extends h)
    (hgh' : g'.Extends h') : Twins g₀ h h' a b := by
  rcases hab with hold | ⟨ha, hb, node, hn, hn', hparts⟩
  · exact .inl hold
  · exact .inr ⟨ha, hb, node, hgh _ _ hn, hgh' _ _ hn', hparts⟩

/-- Twins of one type are twins. -/
theorem Twins.join (hac : Twins g₀ g h a c) (hbc : Twins g₀ g' h b c) :
    Twins g₀ g g' a b := by
  rcases hac with ⟨ha, rfl⟩ | ⟨ha, hc, node, hn, hnc, hparts⟩
  · rcases hbc with ⟨-, rfl⟩ | ⟨-, hc, -⟩
    · exact .inl ⟨ha, rfl⟩
    · exact absurd ha (Nat.not_lt.mpr hc)
  · rcases hbc with ⟨hb, rfl⟩ | ⟨hb, -, node', hn', hnc', -⟩
    · exact absurd hb (Nat.not_lt.mpr hc)
    · rw [hnc] at hnc'
      cases hnc'
      exact .inr ⟨ha, hb, node, hn, hn', hparts⟩

/-- Twins have the same node, and parts that were there. A twin without
parts was there itself. -/
theorem Twins.node (hg₀ : g₀.Closed) (hg : g₀.Flat g) (hg' : g₀.Flat g')
    (hab : Twins g₀ g g' a b) :
    ∃ node, g.node? a = some node ∧ g'.node? b = some node ∧
      (∀ c ∈ node.kind.children, c.index < g₀.size) ∧
      (node.kind.isLeaf = true → a.index < g₀.size ∧ b = a) := by
  rcases hab with ⟨ha, rfl⟩ | ⟨ha, -, node, hn, hn', hparts⟩
  · obtain ⟨node, hn, hparts⟩ := hg₀.closedOn b ha
    exact ⟨node, hg.nodes _ _ hn, hg'.nodes _ _ hn, hparts,
      fun _ => ⟨ha, rfl⟩⟩
  · refine ⟨node, hn, hn', hparts, fun hleaf => ?_⟩
    rw [(hg.added a node ha hn).1] at hleaf
    cases hleaf

/-- A twin of the missing type is the missing type. -/
theorem Twins.eq_noType (hg₀ : g₀.WellFormed) (hab : Twins g₀ g g' a b) :
    a = .noType ↔ b = .noType := by
  have hlt : TypeId.noType.index < g₀.size := hg₀.builtin_lt rfl
  rcases hab with ⟨-, rfl⟩ | ⟨ha, hb, -⟩
  · exact .rfl
  · constructor
    · rintro rfl
      exact absurd hlt (Nat.not_lt.mpr ha)
    · rintro rfl
      exact absurd hlt (Nat.not_lt.mpr hb)

/-- Whether there are only errors among the members of a union is the
same for twins. -/
theorem Twins.onlyErrors_eq (hg₀ : g₀.WellFormed) (hg : g₀.Flat g)
    (hg' : g₀.Flat g') (hab : Twins g₀ g g' a b) :
    g'.onlyErrors b = g.onlyErrors a := by
  have hagree := Flat.agreement hg₀ hg hg'
  rcases hab with ⟨ha, rfl⟩ | ⟨ha, hb, node, hn, hn', hparts⟩
  · exact onlyErrorsWithin_agrees hagree.closed hagree.agrees
      (fun _ _ => .rfl) ha
  · -- the path has one new type in each graph, which no member is
    have hpath : ∀ x : TypeId, x.index < g₀.size →
        (x ∈ [b] ↔ x ∈ [a]) := by
      intro x hx
      rw [List.mem_singleton, List.mem_singleton]
      constructor
      · rintro rfl
        exact absurd hx (Nat.not_lt.mpr hb)
      · rintro rfl
        exact absurd hx (Nat.not_lt.mpr ha)
    unfold onlyErrors
    rw [onlyErrorsWithin_of_node hn, onlyErrorsWithin_of_node hn',
      if_neg List.not_mem_nil, if_neg List.not_mem_nil]
    cases hkind : node.kind with
    | union members =>
        rw [hkind] at hparts
        have hall : members.allM (g'.onlyErrorsWithin [b])
            = members.allM (g.onlyErrorsWithin [a]) :=
          allM_congr fun m hm => onlyErrorsWithin_agrees hagree.closed
            hagree.agrees hpath (hparts m hm)
        simp only [hall]
    | leaf | array | tuple | map | record | error | stream | table
    | function | object | typedesc | xml => rfl

end Graph

namespace Matching

open TypeParams.Graph (Flat Twins)

variable {g₀ g g' : Graph} {w w' v v' : Workspace}

/-- A declared type that was there is matched with twins alike. -/
theorem plan_twins (hg₀ : g₀.WellFormed) (hg : g₀.Flat g)
    (hg' : g₀.Flat g') {expected a b : TypeId} {node : Node}
    (hexpected : expected.index < g₀.size)
    (hnode : g₀.node? expected = some node) (hab : Twins g₀ g g' a b)
    {kind : Kind} (hkind : g.kind a = .ok kind) (maxDepth : Nat)
    (variance : Variance) :
    g'.kind b = .ok kind ∧
      plan g' .structural maxDepth variance expected node.kind b kind
        = plan g .structural maxDepth variance expected node.kind a
            kind := by
  have hagree := Flat.agreement hg₀ hg hg'
  obtain ⟨own, hn, hn', hparts, hleaf⟩ := hab.node hg₀.closed hg hg'
  rw [Graph.kind_of_node hn] at hkind
  cases hkind
  refine ⟨Graph.kind_of_node hn', ?_⟩
  refine plan_agrees hagree hparts ?_ ?_ ?_ fun hl => (hleaf hl).2
  · refine hagree.withoutNil?_eq (hg.nodes _ _ hnode)
      (hg'.nodes _ _ hnode) ?_
    exact hg₀.closed.closedOn.child hexpected hnode
  · exact hagree.withoutNil?_eq hn hn' hparts
  · exact fun _ _ => hab.onlyErrors_eq hg₀ hg hg'

/-- The plan for a twin pairs parts of the declared type with what is
made from types that were there. -/
theorem plan_draws_twins (hg₀ : g₀.WellFormed) (hg : g₀.Flat g)
    (hg' : g₀.Flat g') {expected a b : TypeId} {node : Node}
    (hexpected : expected.index < g₀.size)
    (hnode : g₀.node? expected = some node) (hab : Twins g₀ g g' a b)
    {kind : Kind} (hkind : g.kind a = .ok kind) {maxDepth : Nat}
    {variance : Variance} {pairings : List Pairing}
    (hplan : plan g .structural maxDepth variance expected node.kind a
      kind = .ok (.pairs pairings)) :
    (∀ p ∈ pairings, p.expected.index < g₀.size) ∧
      Draws (·.index < g₀.size) pairings := by
  have hclosed := hg₀.closed.closedOn.extends hg.nodes
  obtain ⟨own, hn, -, hparts, hleaf⟩ := hab.node hg₀.closed hg hg'
  rw [Graph.kind_of_node hn] at hkind
  cases hkind
  constructor
  · intro p hp
    exact hg₀.closed.closedOn.child hexpected hnode _
      (plan_expected (hg.nodes _ _ hnode) hplan p hp)
  · exact plan_draws_on_parts hclosed (hg₀.builtin_lt rfl)
      (hg₀.builtin_lt rfl) (hg₀.builtin_lt rfl) hn hparts
      (fun hl => (hleaf hl).1) hplan

/-- What is drafted alike is made alike. -/
theorem Draft.make_twins {draft : Draft}
    (hw : g₀.Flat w.types.graph) (hv : g₀.Flat v.types.graph)
    (hon : draft.On (·.index < g₀.size)) {a b : Option TypeId}
    (ha : draft.make w = .ok a w') (hb : draft.make v = .ok b v') :
    g₀.Flat w'.types.graph ∧ g₀.Flat v'.types.graph ∧
      Option.Rel (Twins g₀ w'.types.graph v'.types.graph) a b := by
  cases draft with
  | unknown =>
      cases ha
      cases hb
      exact ⟨hw, hv, .none⟩
  | there id =>
      cases ha
      cases hb
      exact ⟨hw, hv, .some (.inl ⟨hon, rfl⟩)⟩
  | new node =>
      obtain ⟨hleaf, hparts⟩ := hon
      obtain ⟨_, _, halloc, ha⟩ := bind_run.mp ha
      obtain ⟨_, _, halloc', hb⟩ := bind_run.mp hb
      obtain ⟨rfl, rfl⟩ := WorkM.alloc_run.mp halloc
      obtain ⟨rfl, rfl⟩ := WorkM.alloc_run.mp halloc'
      cases ha
      cases hb
      rw [Layer.nextId_eq, Layer.nextId_eq, Layer.graph_alloc_eq,
        Layer.graph_alloc_eq]
      refine ⟨hw.push hleaf hparts, hv.push hleaf hparts,
        .some (.inr ⟨hw.nodes.size_le, hv.nodes.size_le, node, ?_, ?_,
          hparts⟩)⟩
      · exact Graph.node?_push_self _ node
      · exact Graph.node?_push_self _ node

/-- So the actual types of a pairing are twins. -/
theorem Source.resolve_twins (hg₀ : g₀.WellFormed)
    (hw : g₀.Flat w.types.graph) (hv : g₀.Flat v.types.graph)
    {source : Source} (hids : ∀ id ∈ source.ids, id.index < g₀.size)
    {a b : Option TypeId} (ha : source.resolve w = .ok a w')
    (hb : source.resolve v = .ok b v') :
    g₀.Flat w'.types.graph ∧ g₀.Flat v'.types.graph ∧
      Option.Rel (Twins g₀ w'.types.graph v'.types.graph) a b := by
  have hagree := Flat.agreement hg₀ hw hv
  obtain ⟨draft, hdraft, hmake⟩ := Source.resolve_draft ha
  obtain ⟨draft', hdraft', hmake'⟩ := Source.resolve_draft hb
  rw [Source.draft_agrees hagree hids, hdraft] at hdraft'
  cases hdraft'
  have hon := Source.draft_on hagree.closed (hg₀.builtin_lt rfl) hids
    hdraft
  exact Draft.make_twins hw hv hon hmake hmake'

end Matching

end TypeParams
