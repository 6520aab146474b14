/-
Unions as joins.

Types are assignable to the union that is made of them, and the union to
whatever they all are assignable to (`unionOf_joins`).

# Why it is not the rule for unions

The second half is the rule for unions. The first is not, because a
union among the types gives way to its members, and because
assignability need not be transitive. So more is shown: what is
assignable to one of the types is assignable to the union
(`Covers.assignable`). A source goes on with its own members until it is
no union, and then with those of the target.

# Missing types

A missing type is assignable to nothing but itself, so all of this is
about types below which none is missing (`Whole`). Where only unions are
taken apart it is enough that none is among the members, at any depth
(`Solid`). Both are kept as the graph grows: a whole type brings its
parts along, and the members of a solid type have nodes already.

# From members to unions

Building a union has two steps, and each has its relation. `Composes`
says what the members are: what each of the types contributes, each
once. `Sums` says what is made of the members: a union, or the one
member, or never. A type that sums up members has those above it that
all of them have (`Sums.assignable_iff`), and the members have those
above them that the given types have (`Composes.assignable_iff`); the
two together make the join.
-/
import TypeParams.Proofs.FirstOccurrences
import TypeParams.Proofs.Kind
import TypeParams.Proofs.Layer
import TypeParams.Proofs.Subtype.Unions

namespace TypeParams

namespace Graph

variable {g g' : Graph} {a q u : TypeId}

-- ========================================================== whole types

/-- A type of the graph below which no type is missing. -/
structure Whole (g : Graph) (id : TypeId) : Prop where
  lt : id.index < g.size
  present : ∀ x node, g.Reaches id x → g.node? x = some node →
    node.kind ≠ .leaf .noType

/-- A whole type has a node, and is not missing. -/
theorem Whole.node (h : g.Whole a) :
    ∃ node, g.node? a = some node ∧ node.kind ≠ .leaf .noType := by
  obtain ⟨node, hn⟩ := exists_node_of_lt h.lt
  exact ⟨node, hn, h.present a node .refl hn⟩

/-- What is below a whole type is whole. -/
theorem Whole.reaches (hg : g.Closed) (h : g.Whole a)
    (hq : g.Reaches a q) : g.Whole q where
  lt := hg.closedOn.reaches h.lt hq
  present x node hx := h.present x node (hq.trans hx)

/-- The parts of a whole type are whole. -/
theorem Whole.child (hg : g.Closed) (h : g.Whole a) {node : Node}
    (hn : g.node? a = some node) :
    ∀ c ∈ node.kind.children, g.Whole c :=
  fun _ hc => h.reaches hg (Reaches.refl.step ⟨node, hn, hc⟩)

/-- A whole type stays whole as the graph grows. -/
theorem Whole.extends (hg : g.Closed) (h : g.Whole a)
    (hgg' : g.Extends g') : g'.Whole a where
  lt := hgg'.lt h.lt
  present x node hx hn := by
    have hx' := Reaches.of_extends hg.closedOn hgg' h.lt hx
    rw [hgg'.node?_eq (hg.closedOn.reaches h.lt hx')] at hn
    exact h.present x node hx' hn

/-- The types below which none is missing form a closed set. -/
theorem Closed.whole_closedOn (hg : g.Closed) : g.ClosedOn g.Whole := by
  intro a ha
  obtain ⟨node, hn, -⟩ := ha.node
  exact ⟨node, hn, ha.child hg hn⟩

/-- A type that is not missing is whole if its children are. -/
theorem Whole.of_children (hg : g.Closed) {node : Node}
    (hn : g.node? a = some node) (hpresent : node.kind ≠ .leaf .noType)
    (hchildren : ∀ c ∈ node.kind.children, g.Whole c) : g.Whole a := by
  have hclosed : g.ClosedOn fun x => x = a ∨ g.Whole x := by
    intro x hx
    rcases hx with rfl | hx
    · exact ⟨node, hn, fun c hc => .inr (hchildren c hc)⟩
    · obtain ⟨node', hn', hchild⟩ := hg.whole_closedOn x hx
      exact ⟨node', hn', fun c hc => .inr (hchild c hc)⟩
  refine ⟨index_lt_of_node? hn, ?_⟩
  intro x node' hx hn'
  rcases hclosed.reaches (.inl rfl) hx with rfl | hwhole
  · rw [hn, Option.some.injEq] at hn'
    exact hn' ▸ hpresent
  · exact hwhole.present x node' .refl hn'

/-- The missing type is the only builtin type with it below. -/
theorem WellFormed.whole_builtin (hg : g.WellFormed) {id : TypeId}
    (hid : id.isBuiltin = true) (hne : id ≠ .noType) : g.Whole id := by
  have hparts : ∀ node ∈ Graph.builtin.nodes.toList,
      ∀ c ∈ node.kind.children, c ≠ .noType := by decide
  have hforms : ∀ i < Graph.builtin.size, TypeId.mk i ≠ .noType →
      (Graph.builtin.node? ⟨i⟩).all (·.kind ≠ .leaf .noType) = true := by
    decide
  have hclosed : Graph.builtin.ClosedOn
      fun x => x.index < Graph.builtin.size ∧ x ≠ .noType := by
    intro x hx
    obtain ⟨node, hn, hc⟩ :=
      Closed.closedOn (g := .builtin) (by decide) x hx.1
    exact ⟨node, hn,
      fun c hmem => ⟨hc c hmem, hparts node (mem_nodes_of_node? hn) c hmem⟩⟩
  refine ⟨hg.builtin_lt hid, ?_⟩
  intro x node hx hn
  have hid' : id.index < Graph.builtin.size ∧ id ≠ .noType :=
    ⟨by simpa [TypeId.isBuiltin, size_builtin] using hid, hne⟩
  obtain ⟨hlt, hx'⟩ := (hclosed.extends hg.extends_builtin).reaches hid' hx
  have hall := hforms x.index hlt hx'
  rw [hg.extends_builtin.node?_eq hlt] at hn
  rw [hn, Option.all_some] at hall
  simpa using hall

theorem Whole.ne_noType (hg : g.WellFormed) (h : g.Whole a) :
    a ≠ .noType := by
  intro heq
  subst heq
  exact h.present _ _ .refl (hg.extends_builtin _ _ rfl) rfl

-- ========================================================= solid types

/-- A type of the graph with no missing type among its members, at any
depth. Elsewhere below it types may be missing. -/
def Solid (g : Graph) (id : TypeId) : Prop :=
  ∀ x, Relation.ReflTransGen g.Member id x →
    ∃ node, g.node? x = some node ∧ node.kind ≠ .leaf .noType

/-- A solid type has a node, and is not missing. -/
theorem Solid.node (h : g.Solid a) :
    ∃ node, g.node? a = some node ∧ node.kind ≠ .leaf .noType :=
  h a .refl

/-- A solid type is a type of the graph. -/
theorem Solid.lt (h : g.Solid a) : a.index < g.size := by
  obtain ⟨node, hn, -⟩ := h.node
  exact index_lt_of_node? hn

/-- The members of a solid type are solid. -/
theorem Solid.member (h : g.Solid a) (hq : g.Member a q) : g.Solid q :=
  fun x hx => h x (hx.head hq)

/-- A whole type is solid: its members are below it. -/
theorem Whole.solid (hg : g.Closed) (h : g.Whole a) : g.Solid a := by
  intro x hx
  have hreaches : g.Reaches a x := by
    induction hx with
    | refl => exact .refl
    | tail _ hm ih => exact ih.step hm.child
  exact (h.reaches hg hreaches).node

/-- A solid type stays solid as the graph grows. Its members at every
depth have nodes, which do not change, so it gets no new ones. -/
theorem Solid.extends (h : g.Solid a) (hgg' : g.Extends g') :
    g'.Solid a := by
  -- members are looked up along the way, so the graph that has grown
  -- shows no others
  have hback : ∀ x, Relation.ReflTransGen g'.Member a x →
      Relation.ReflTransGen g.Member a x := by
    intro x hx
    induction hx with
    | refl => exact .refl
    | tail _ hm ih =>
        obtain ⟨node, hn, -⟩ := h _ ih
        obtain ⟨node', members, hn', hkind, hm⟩ := hm
        cases (hgg' _ _ hn).symm.trans hn'
        exact ih.tail ⟨node, members, hn, hkind, hm⟩
  intro x hx
  obtain ⟨node, hn, hpresent⟩ := h x (hback x hx)
  exact ⟨node, hgg' _ _ hn, hpresent⟩

/-- A union is solid if its members are. -/
theorem Solid.of_members {node : Node} {members : List TypeId}
    (hn : g.node? a = some node) (hkind : node.kind = .union members)
    (hmembers : ∀ m ∈ members, g.Solid m) : g.Solid a := by
  intro x hx
  rcases hx.cases_head with rfl | ⟨m, hmember, hmx⟩
  · refine ⟨node, hn, ?_⟩
    rw [hkind]
    exact Kind.noConfusion
  · obtain ⟨node', members', hn', hkind', hm⟩ := hmember
    cases hn.symm.trans hn'
    rw [hkind, Kind.union.injEq] at hkind'
    subst hkind'
    exact hmembers m hm x hmx

-- ============================================================= covering

/-- The union has the type among its members, at some depth, or has
among them all that the type has as members. -/
def Covers (g : Graph) (u q : TypeId) : Prop :=
  Relation.ReflTransGen g.Member u q ∨
    ∃ node members, g.node? q = some node ∧ node.kind = .union members ∧
      ∀ m ∈ members, Relation.ReflTransGen g.Member u m

/-- A pair of the relation, as one of a larger relation. -/
theorem Assignable.step_or {R : TypeId → TypeId → Prop}
    (h : g.Assignable a q) :
    a = q ∨ g.Step (fun x y => g.Assignable x y ∨ R x y) a q := by
  rcases g.consistent_assignable a q h with heq | hstep
  · exact .inl heq
  · exact .inr (hstep.mono fun _ _ => .inl)

/-- What is assignable to a member, at some depth, is assignable to the
union. -/
theorem Solid.assignable_of_member (ha : g.Solid a)
    (haq : g.Assignable a q) (hq : Relation.ReflTransGen g.Member u q) :
    g.Assignable a u := by
  refine ⟨fun x y => g.Assignable x y ∨ g.Solid x ∧
    ∃ q, Relation.ReflTransGen g.Member y q ∧ g.Assignable x q, ?_,
    .inr ⟨ha, q, hq, haq⟩⟩
  clear ha haq hq
  intro x y hxy
  rcases hxy with hxy | ⟨hx, q, hq, hxq⟩
  · exact hxy.step_or
  rcases hq.cases_head with rfl | ⟨m, hm, hmq⟩
  · exact hxq.step_or
  obtain ⟨s, hs, hpresent⟩ := hx.node
  obtain ⟨t, members, ht, hunion, hm⟩ := hm
  have ht' : t.kind ≠ .leaf .noType := by
    rw [hunion]
    exact Kind.noConfusion
  refine .inr ⟨s, t, hs, ht, Rule.holds_iff.mpr ?_⟩
  rcases Kind.eq_or_isSingle hpresent with
    hnever | ⟨members', hunion'⟩ | hsingle
  · exact .never hnever ht'
  · -- a member of the source is below what the source is below, or the
    -- source is that, and then its members are members of the target
    apply Rule.Relates.members hunion' ht'
    intro m' hm'
    have hmember : g.Member x m' := ⟨s, members', hs, hunion', hm'⟩
    rcases hxq.of_member hmember with rfl | h
    · exact .inr ⟨hx.member hmember, m', hq.tail hmember, .refl _ _⟩
    · exact .inr ⟨hx.member hmember, q, hq, h⟩
  · exact .member hsingle hunion hm (.inr ⟨hx, q, hmq, hxq⟩)

/-- A union is assignable to what its members are assignable to, and to
nothing else: if to itself, then so are they. -/
theorem Solid.assignable_iff (hu : g.Solid u) {node : Node}
    {members : List TypeId} (hn : g.node? u = some node)
    (hkind : node.kind = .union members) {c : TypeId} {t : Node}
    (ht : g.node? c = some t) (ht' : t.kind ≠ .leaf .noType) :
    g.Assignable u c ↔ ∀ m ∈ members, g.Assignable m c := by
  constructor
  · intro huc m hm
    have hmember : g.Member u m := ⟨node, members, hn, hkind, hm⟩
    rcases huc.of_member hmember with rfl | hmc
    · exact (hu.member hmember).assignable_of_member (.refl _ _)
        (.single hmember)
    · exact hmc
  · exact fun hall => .of_relates hn ht (.members hkind ht' hall)

/-- What is assignable to a type is assignable to a union that covers
it. -/
theorem Covers.assignable (hg : g.Closed) (hu : g.Whole u)
    (hcovers : g.Covers u q) (ha : g.Whole a) (haq : g.Assignable a q) :
    g.Assignable a u := by
  rcases hcovers with hpath | ⟨node, members, hn, hunion, hmembers⟩
  · exact (ha.solid hg).assignable_of_member haq hpath
  obtain ⟨t, ht, ht'⟩ := hu.node
  refine ⟨fun x y => g.Assignable x y ∨ y = u ∧ g.Whole x ∧
    g.Assignable x q, ?_, .inr ⟨rfl, ha, haq⟩⟩
  clear ha haq
  intro x y hxy
  rcases hxy with hxy | ⟨rfl, hx, hxq⟩
  · exact hxy.step_or
  obtain ⟨s, hs, hpresent⟩ := hx.node
  rcases Kind.eq_or_isSingle hpresent with
    hnever | ⟨members', hunion'⟩ | hsingle
  · exact .inr ⟨s, t, hs, ht, Rule.holds_iff.mpr (.never hnever ht')⟩
  · refine .inr ⟨s, t, hs, ht,
      Rule.holds_iff.mpr (.members hunion' ht' ?_)⟩
    intro m' hm'
    have hmember : g.Member x m' := ⟨s, members', hs, hunion', hm'⟩
    have hm'whole := hx.reaches hg (Reaches.refl.step hmember.child)
    rcases hxq.of_member hmember with rfl | h
    · rw [hs, Option.some.injEq] at hn
      subst hn
      rw [hunion', Kind.union.injEq] at hunion
      subst hunion
      exact .inl ((hm'whole.solid hg).assignable_of_member (.refl _ _)
        (hmembers m' hm'))
    · exact .inr ⟨rfl, hm'whole, h⟩
  · obtain ⟨m, hm, hxm⟩ := hxq.exists_member hs hsingle hn hunion
    exact ((hx.solid hg).assignable_of_member hxm
      (hmembers m hm)).step_or

-- ================================================================ joins

/-- The type is the union of some types: each of them is covered, and it
is assignable to what they all are assignable to. -/
structure Joins (g : Graph) (ids : List TypeId) (u : TypeId) : Prop where
  whole : g.Whole u
  covers : ∀ id ∈ ids, g.Covers u id
  least : ∀ c, g.Whole c → (∀ id ∈ ids, g.Assignable id c) →
    g.Assignable u c

/-- A type is the join of itself. -/
theorem Whole.joins_self (h : g.Whole a) : g.Joins [a] a where
  whole := h
  covers := by
    rw [List.forall_mem_singleton]
    exact .inl .refl
  least c hc hids := hids a List.mem_cons_self

/-- The type stands for a union with these members. -/
def Sums (g : Graph) : List TypeId → TypeId → Prop
  | [], u => u = .never
  | [m], u => u = m
  | members, u => ∃ node, g.node? u = some node ∧
      node.kind = .union members

/-- What a type stands for does not change as the graph grows. -/
theorem Sums.extends {members : List TypeId} (h : g.Sums members u)
    (hgg' : g.Extends g') : g'.Sums members u := by
  match members, h with
  | [], h => exact h
  | [m], h => exact h
  | m :: m' :: ms, ⟨node, hn, hkind⟩ =>
      exact ⟨node, hgg' _ _ hn, hkind⟩

/-- The members are among those of the type, or are the type. -/
theorem Sums.path {members : List TypeId} (h : g.Sums members u) :
    ∀ m ∈ members, Relation.ReflTransGen g.Member u m := by
  match members, h with
  | [], _ => simp
  | [m], h =>
      cases h
      simp [Relation.ReflTransGen.refl]
  | m :: m' :: ms, ⟨node, hn, hkind⟩ =>
      intro x hx
      exact .single ⟨node, _, hn, hkind, hx⟩

/-- What solid members are summed up in is solid. -/
theorem Sums.solid (hg : g.WellFormed) {members : List TypeId}
    (h : g.Sums members u) (hmembers : ∀ m ∈ members, g.Solid m) :
    g.Solid u := by
  match members, h with
  | [], h =>
      cases h
      exact (hg.whole_builtin rfl (by decide)).solid hg.closed
  | [m], h =>
      cases h
      exact hmembers u List.mem_cons_self
  | m :: m' :: ms, ⟨node, hn, hkind⟩ => exact .of_members hn hkind hmembers

/-- Such a type is below what the members are below. -/
theorem Sums.assignable_iff (hg : g.WellFormed) {members : List TypeId}
    (h : g.Sums members u) (hmembers : ∀ m ∈ members, g.Solid m)
    {c : TypeId} {t : Node} (ht : g.node? c = some t)
    (ht' : t.kind ≠ .leaf .noType) :
    g.Assignable u c ↔ ∀ m ∈ members, g.Assignable m c := by
  have hsolid := h.solid hg hmembers
  match members, h with
  | [], h =>
      cases h
      have hnever : g.Assignable .never c :=
        .of_relates (hg.extends_builtin _ _ rfl) ht (.never rfl ht')
      exact ⟨fun _ m hm => absurd hm List.not_mem_nil, fun _ => hnever⟩
  | [m], h =>
      cases h
      rw [List.forall_mem_singleton]
  | m :: m' :: ms, ⟨node, hn, hkind⟩ =>
      exact hsolid.assignable_iff hn hkind ht ht'

/-- What whole members are summed up in is whole. -/
theorem Sums.whole (hg : g.WellFormed) {members : List TypeId}
    (h : g.Sums members u) (hmembers : ∀ m ∈ members, g.Whole m) :
    g.Whole u := by
  match members, h with
  | [], h =>
      cases h
      exact hg.whole_builtin rfl (by decide)
  | [m], h =>
      cases h
      exact hmembers u List.mem_cons_self
  | m :: m' :: ms, ⟨node, hn, hkind⟩ =>
      apply Whole.of_children hg.closed hn
      · rw [hkind]
        exact Kind.noConfusion
      · rw [hkind]
        exact hmembers

-- =========================================================== the parts

/-- What a type contributes to a union. An unnamed union that is no
marker contributes its members, any other type itself. -/
inductive Contributes (g : Graph) : TypeId → List TypeId → Prop
  | members {id : TypeId} {node : Node} {members : List TypeId}
      (node? : g.node? id = some node) (kind : node.kind = .union members)
      (unnamed : node.name = none) (unmarked : node.isMarker = false) :
      Contributes g id members
  | itself {id : TypeId} {node : Node} (node? : g.node? id = some node)
      (stays : node.kind.unionMembers? = none ∨ node.name ≠ none ∨
        node.isMarker = true) : Contributes g id [id]

/-- The members of the union of some types: what they contribute, each
where it comes first. -/
def Composes (g : Graph) (ids members : List TypeId) : Prop :=
  ∃ parts, List.Forall₂ g.Contributes ids parts ∧
    FirstOccurrences parts.flatten members

/-- What is found to be a type's part of a union is what it contributes. -/
theorem contributes_of_unionParts {parts : List TypeId}
    (h : g.unionParts q = .ok parts) : g.Contributes q parts := by
  obtain ⟨node, hn, h⟩ := bind_eq_ok.mp h
  replace hn := node_eq_ok.mp hn
  split at h
  next members hkind =>
    cases pure_eq_ok.mp h
    cases hname : node.name <;> cases hmarker : node.isMarker
    · exact .members hn hkind hname hmarker
    · exact .itself hn (.inr (.inr hmarker))
    · exact .itself hn (.inr (.inl (by simp [hname])))
    · exact .itself hn (.inr (.inr hmarker))
  next hkind =>
    cases pure_eq_ok.mp h
    refine .itself hn (.inl ?_)
    cases hn : node.kind with
    | union members => exact absurd hn (hkind members)
    | _ => rfl

/-- The members that are found are those of the union. -/
theorem composes_of_unionMembers {ids members : List TypeId}
    (h : g.unionMembers ids = .ok members) : g.Composes ids members := by
  obtain ⟨parts, hparts, h⟩ := bind_eq_ok.mp h
  cases pure_eq_ok.mp h
  exact ⟨parts,
    (mapM_eq_ok.mp hparts).imp fun _ _ => contributes_of_unionParts,
    firstOccurrences_eraseDups _⟩

section Composes

variable {ids members parts : List TypeId}

theorem Contributes.extends (h : g.Contributes q parts)
    (hgg' : g.Extends g') : g'.Contributes q parts := by
  cases h with
  | members hn hkind hname hmarker =>
      exact .members (hgg' _ _ hn) hkind hname hmarker
  | itself hn hstays => exact .itself (hgg' _ _ hn) hstays

/-- The members stay those of the union as the graph grows. -/
theorem Composes.extends (h : g.Composes ids members)
    (hgg' : g.Extends g') : g'.Composes ids members := by
  obtain ⟨parts, hparts, hfirst⟩ := h
  exact ⟨parts, hparts.imp fun _ _ hq => hq.extends hgg', hfirst⟩

/-- A type contributes itself or its members. -/
theorem Contributes.eq_or_member (h : g.Contributes q parts) :
    ∀ p ∈ parts, p = q ∨ g.Member q p := by
  intro p hp
  cases h with
  | members hn hkind => exact .inr ⟨_, parts, hn, hkind, hp⟩
  | itself => exact .inl (List.mem_singleton.mp hp)

/-- A type is below what its parts are below. -/
theorem Contributes.assignable_iff (h : g.Contributes q parts)
    (hq : g.Solid q) {c : TypeId} {t : Node} (ht : g.node? c = some t)
    (ht' : t.kind ≠ .leaf .noType) :
    g.Assignable q c ↔ ∀ p ∈ parts, g.Assignable p c := by
  cases h with
  | members hn hkind => exact hq.assignable_iff hn hkind ht ht'
  | itself => rw [List.forall_mem_singleton]

/-- What each type contributes is among the members. -/
theorem Composes.contributes (h : g.Composes ids members) {id : TypeId}
    (hid : id ∈ ids) :
    ∃ parts, g.Contributes id parts ∧ ∀ p ∈ parts, p ∈ members := by
  obtain ⟨parts, hparts, hfirst⟩ := h
  obtain ⟨own, hown, hcontributes⟩ := exists_mem_of_forall₂ hparts hid
  refine ⟨own, hcontributes, ?_⟩
  intro p hp
  rw [hfirst.mem_iff, List.mem_flatten]
  exact ⟨own, hown, hp⟩

/-- And every member is contributed by one of the types. -/
theorem Composes.exists_of_mem (h : g.Composes ids members) {m : TypeId}
    (hm : m ∈ members) :
    ∃ id ∈ ids, ∃ parts, g.Contributes id parts ∧ m ∈ parts := by
  obtain ⟨parts, hparts, hfirst⟩ := h
  rw [hfirst.mem_iff, List.mem_flatten] at hm
  obtain ⟨own, hown, hm⟩ := hm
  obtain ⟨id, hid, hcontributes⟩ := exists_mem_of_forall₂ hparts.flip hown
  exact ⟨id, hid, own, hcontributes, hm⟩

/-- Each member is there once. -/
theorem Composes.nodup (h : g.Composes ids members) : members.Nodup := by
  obtain ⟨parts, -, hfirst⟩ := h
  exact hfirst.nodup

/-- The members of a union of solid types are solid. -/
theorem Composes.solid (h : g.Composes ids members)
    (hids : ∀ id ∈ ids, g.Solid id) : ∀ m ∈ members, g.Solid m := by
  intro m hm
  obtain ⟨id, hid, parts, hparts, hm⟩ := h.exists_of_mem hm
  rcases hparts.eq_or_member m hm with rfl | hmember
  · exact hids m hid
  · exact (hids id hid).member hmember

/-- The members are below the same types as those they come from. -/
theorem Composes.assignable_iff (h : g.Composes ids members)
    (hids : ∀ id ∈ ids, g.Solid id) {c : TypeId} {t : Node}
    (ht : g.node? c = some t) (ht' : t.kind ≠ .leaf .noType) :
    (∀ m ∈ members, g.Assignable m c) ↔
      ∀ id ∈ ids, g.Assignable id c := by
  constructor
  · intro hall id hid
    obtain ⟨parts, hparts, hsub⟩ := h.contributes hid
    exact (hparts.assignable_iff (hids id hid) ht ht').mpr
      fun p hp => hall p (hsub p hp)
  · intro hall m hm
    obtain ⟨id, hid, parts, hparts, hm⟩ := h.exists_of_mem hm
    exact (hparts.assignable_iff (hids id hid) ht ht').mp (hall id hid) m hm

end Composes

end Graph

open TypeParams.Graph (Joins Sums Whole)

variable {layer layer' : Layer} {g : Graph} {ids : List TypeId}
  {u : TypeId}

/-- What is made of some types stands for the union of their parts. -/
theorem Layer.unionOf_sums (h : layer.unionOf ids = .ok (u, layer')) :
    ∃ members, layer.graph.Composes ids members ∧
      layer.graph.Extends layer'.graph ∧
      layer'.graph.Sums members u := by
  obtain ⟨members, hmembers, h⟩ := bind_eq_ok.mp h
  refine ⟨members, Graph.composes_of_unionMembers hmembers, ?_⟩
  match members, h with
  | [], h | [_], h =>
      cases pure_eq_ok.mp h
      exact ⟨.refl _, rfl⟩
  | m :: m' :: ms, h =>
      cases pure_eq_ok.mp h
      have hgraph := layer.graph_alloc_eq
        (.anonymous (.union (m :: m' :: ms)))
      refine ⟨hgraph ▸ Graph.extends_push _ _,
        .anonymous (.union (m :: m' :: ms)), ?_, rfl⟩
      exact hgraph ▸ Layer.nextId_eq layer ▸ Graph.node?_push_self _ _

/-- The union that is made of some types is their join, and stays so as
the graph grows. -/
theorem Layer.unionOf_joins (hlayer : layer.graph.Closed)
    (hg : g.WellFormed) (hids : ∀ id ∈ ids, layer.graph.Whole id)
    (h : layer.unionOf ids = .ok (u, layer'))
    (hgrown : layer'.graph.Extends g) : g.Joins ids u := by
  obtain ⟨members, hmembers, hext, hsums⟩ := unionOf_sums h
  replace hsums := hsums.extends hgrown
  replace hmembers := hmembers.extends (hext.trans hgrown)
  have hwhole : ∀ id ∈ ids, g.Whole id :=
    fun id hid => (hids id hid).extends hlayer (hext.trans hgrown)
  have hsolid := fun id hid => (hwhole id hid).solid hg.closed
  refine ⟨hsums.whole hg ?_, ?_, ?_⟩
  · intro m hm
    obtain ⟨id, hid, parts, hparts, hm⟩ := hmembers.exists_of_mem hm
    rcases hparts.eq_or_member m hm with rfl | hmember
    · exact hwhole m hid
    · exact (hwhole id hid).reaches hg.closed (.step .refl hmember.child)
  · intro id hid
    obtain ⟨parts, hparts, hsub⟩ := hmembers.contributes hid
    have hpath := fun p hp => hsums.path p (hsub p hp)
    cases hparts with
    | members hn hkind => exact .inr ⟨_, parts, hn, hkind, hpath⟩
    | itself => exact .inl (hpath id List.mem_cons_self)
  · intro c hc hall
    obtain ⟨t, ht, ht'⟩ := hc.node
    rw [hsums.assignable_iff hg (hmembers.solid hsolid) ht ht',
      hmembers.assignable_iff hsolid ht ht']
    exact hall

end TypeParams
