/-
Unions that bottom out.

A type is assignable to a union because it is assignable to a member,
and that one may be a union again. The largest relation allows for this
to go on for ever: to a union that has itself as a member, everything is
assignable. Where no union is reached from itself through members only,
it ends, and a type other than a union is assignable to a union because
of some type below that is no union (`Grounded.exists_target`). What was
known of the union has to be carried down to there; the lemma takes it
as a property that goes from a union to the members that are met.

# Sets of types

`Graph.Grounded` collects what this needs of a set of types: rules do
not lead out of it, and its unions bottom out. On such a set there is an
induction on members (`Grounded.member_induction`), which stands in for
the induction on types that a graph with cycles does not have: arrays
and records may well be reached from themselves.

# Types made of some forms

`MadeOf` says that a type is made of some forms only and that its unions
bottom out. The types near it (`Near`) are then a grounded set. For
given types it is shown by running a check over a list of ids, which
comes with a rank that goes down from a union to its members
(`MadeOf.of_check`).
-/
import Mathlib.Order.WellFounded
import Mathlib.Data.Fintype.Order
import Mathlib.Logic.Relation
import TypeParams.Proofs.Subtype.Order
import TypeParams.Proofs.Subtype.Shapes

namespace TypeParams.Graph

variable {g : Graph} {P : TypeId → Prop}

-- ===================================================== two related types

/-- Types that the rule relates are assignable. -/
theorem Assignable.of_relates {a b : TypeId} {s t : Node}
    (hs : g.node? a = some s) (ht : g.node? b = some t)
    (h : Rule.Relates g g.Assignable a s b t) : g.Assignable a b := by
  -- the relation with this pair added is consistent
  refine ⟨fun x y => g.Assignable x y ∨ (x = a ∧ y = b), ?_,
    .inr ⟨rfl, rfl⟩⟩
  rintro x y (hxy | ⟨rfl, rfl⟩)
  · rcases g.consistent_assignable x y hxy with heq | hstep
    · exact .inl heq
    · exact .inr (hstep.mono fun _ _ => .inl)
  · exact .inr ⟨s, t, hs, ht,
      (Rule.holds_iff.mpr h).mono fun _ _ => .inl⟩

/-- Assignable types are the same type, or related by their rule. -/
theorem Assignable.relates {a b : TypeId} (h : g.Assignable a b) :
    a = b ∨ ∃ s t, g.node? a = some s ∧ g.node? b = some t ∧
      Rule.Relates g g.Assignable a s b t := by
  rcases g.consistent_assignable a b h with heq | ⟨s, t, hs, ht, hr⟩
  · exact .inl heq
  · exact .inr ⟨s, t, hs, ht, Rule.holds_iff.mp hr⟩

-- ============================================================== members

/-- One type is a member of a union. -/
def Member (g : Graph) (u m : TypeId) : Prop :=
  ∃ node members, g.node? u = some node ∧ node.kind = .union members ∧
    m ∈ members

/-- Members are parts. -/
theorem Member.child {u m : TypeId} (h : g.Member u m) : g.Child u m := by
  obtain ⟨node, members, hn, hkind, hm⟩ := h
  exact ⟨node, hn, by rwa [hkind]⟩

/-- A type other than a union that is assignable to a union is
assignable to a member. -/
theorem Assignable.exists_member {a b : TypeId} {s t : Node}
    {members : List TypeId} (hab : g.Assignable a b)
    (hs : g.node? a = some s) (hsingle : s.kind.isSingle = true)
    (ht : g.node? b = some t) (hunion : t.kind = .union members) :
    ∃ m ∈ members, g.Assignable a m := by
  obtain ⟨-, hnever, hsource⟩ := Kind.isSingle_iff.mp hsingle
  rcases hab.relates with rfl | ⟨s', t', hs', ht', hr⟩
  · rw [hs, Option.some.injEq] at ht
    exact absurd hunion (ht ▸ hsource members)
  · rw [hs, Option.some.injEq] at hs'
    rw [ht, Option.some.injEq] at ht'
    subst hs' ht'
    cases hr with
    | never hs => exact absurd hs hnever
    | members hs => exact absurd hs (hsource _)
    | member _ ht hm h =>
        rw [hunion, Kind.union.injEq] at ht
        exact ⟨_, ht ▸ hm, h⟩
    | leaf _ ht =>
        rw [hunion] at ht
        cases ht
    | shape h => exact absurd hunion (h.target.2 members)

/-- What a union is assignable to, its members are assignable to, unless
it is the union itself. -/
theorem Assignable.of_member {u m c : TypeId} (h : g.Assignable u c)
    (hm : g.Member u m) : u = c ∨ g.Assignable m c := by
  obtain ⟨node, members, hn, hunion, hm⟩ := hm
  rcases h.relates with heq | ⟨node', t, hn', -, hr⟩
  · exact .inl heq
  · rw [hn, Option.some.injEq] at hn'
    subst hn'
    rcases hr.source with hnever | ⟨members', hunion', h⟩ | hsingle
    · rw [hunion] at hnever
      cases hnever
    · rw [hunion, Kind.union.injEq] at hunion'
      exact .inr (h m (hunion' ▸ hm))
    · rw [hunion] at hsingle
      cases hsingle

/-- Steps that lead from an id to smaller ones never lead back. -/
theorem not_transGen_of_index_lt {E : TypeId → TypeId → Prop}
    (hE : ∀ a b, E a b → b.index < a.index) (u : TypeId) :
    ¬ Relation.TransGen E u u := by
  intro hu
  have hlift := hu.lift TypeId.index (p := (· > ·)) fun a b => hE a b
  rw [Relation.transGen_eq_self] at hlift
  exact Nat.lt_irrefl _ hlift

/-- A union that comes after its members is not among them. -/
theorem not_transGen_member_of_order
    (h : ∀ id ∈ g.ids, ∀ node ∈ g.node? id,
      ∀ m ∈ node.kind.unionMembers?.getD [], m.index < id.index)
    (u : TypeId) : ¬ Relation.TransGen g.Member u u := by
  refine not_transGen_of_index_lt (fun a b hab => ?_) u
  obtain ⟨node, members, hn, hkind, hb⟩ := hab
  refine h a (mem_ids.mpr (index_lt_of_node? hn)) node hn b ?_
  rw [hkind]
  exact hb

/-- A set of types that rules do not lead out of, and in which no union
is reached from itself through members. -/
structure Grounded (g : Graph) (P : TypeId → Prop) : Prop where
  closed : g.ClosedOn P
  anydata : P .anydata
  nil : P .nil
  acyclic : ∀ u, P u → ¬ Relation.TransGen g.Member u u

namespace Grounded

/-- The relation between types of a set. -/
def Below (g : Graph) (P : TypeId → Prop) (a b : TypeId) : Prop :=
  P a ∧ P b ∧ g.Assignable a b

/-- All that two related types of the set rest on is in the set. -/
theorem relates (h : g.Grounded P) {a b : TypeId} (hab : Below g P a b) :
    a = b ∨ ∃ s t, g.node? a = some s ∧ g.node? b = some t ∧
      Rule.Relates g (Below g P) a s b t := by
  obtain ⟨ha, hb, hab⟩ := hab
  rcases g.consistent_assignable a b hab with heq | ⟨s, t, hs, ht, hr⟩
  · exact .inl heq
  · have hon := Rule.on_of (t := t) hs ha hb
      (h.closed.child ha hs) (h.closed.child hb ht) h.anydata h.nil
    exact .inr ⟨s, t, hs, ht, Rule.holds_iff.mp (hr.restrict hon)⟩

/-- The procedure decides the relation on the set. -/
theorem assignable_iff (h : g.Grounded P) {a b : TypeId} (ha : P a)
    (hb : P b) : g.assignable a b = .ok true ↔ g.Assignable a b := by
  obtain ⟨answer, hanswer, hiff⟩ :=
    assignable_answers h.closed h.anydata h.nil ha hb
  rw [hanswer, Except.ok.injEq, hiff]

/-- The members of a union of the set are in the set. -/
theorem member (h : g.Grounded P) {u m : TypeId} (hu : P u)
    (hm : g.Member u m) : P m :=
  h.closed.reaches hu (.step .refl hm.child)

/-- A property of the members of a union that passes to the union holds
of all types. -/
theorem member_induction (h : g.Grounded P) {motive : TypeId → Prop}
    (step : ∀ u, P u → (∀ m, P m → g.Member u m → motive m) → motive u)
    {u : TypeId} (hu : P u) : motive u := by
  -- members of members, on the ids of the set: there are finitely many
  let Below (m u : {id // P id}) : Prop :=
    Relation.TransGen g.Member u.1 m.1
  have : IsTrans {id // P id} Below := ⟨fun _ _ _ hxy hyz => hyz.trans hxy⟩
  have : Std.Irrefl Below := ⟨fun u => h.acyclic u.1 u.2⟩
  have : Finite {id // P id} :=
    Finite.of_injective
      (fun id => (⟨id.1.index, h.closed.lt id.2⟩ : Fin g.size))
      fun x y hxy => Subtype.ext (by
        obtain ⟨⟨x⟩, hx⟩ := x
        obtain ⟨⟨y⟩, hy⟩ := y
        simpa using hxy)
  have hwf : WellFounded Below := Finite.wellFounded_of_trans_of_irrefl _
  exact hwf.induction (C := fun u => motive u.1) ⟨u, hu⟩
    fun u ih => step u.1 u.2 fun m hm hum => ih ⟨m, hm⟩ (.single hum)

/-- A type other than a union that is assignable to a union is
assignable to a type that is no union. It is reached through members
that the type is assignable to as well. -/
theorem exists_target (h : g.Grounded P) {a b : TypeId} {s : Node}
    (hs : g.node? a = some s) (hsingle : s.kind.isSingle = true)
    {Q : TypeId → Prop}
    (hQ : ∀ u m, g.Assignable a u → Q u → g.Member u m →
      g.Assignable a m → Q m)
    (hb : P b) (hab : g.Assignable a b) (hq : Q b) :
    ∃ b' t, P b' ∧ g.node? b' = some t ∧
      (∀ members, t.kind ≠ .union members) ∧ g.Assignable a b' ∧
      Q b' := by
  refine h.member_induction (motive := fun b => g.Assignable a b → Q b →
    ∃ b' t, P b' ∧ g.node? b' = some t ∧
      (∀ members, t.kind ≠ .union members) ∧ g.Assignable a b' ∧
      Q b') (fun b hb ih hab hq => ?_) hb hab hq
  obtain ⟨t, ht, -⟩ := h.closed b hb
  by_cases hunion : ∃ members, t.kind = .union members
  · obtain ⟨members, hunion⟩ := hunion
    obtain ⟨m, hm, ham⟩ := hab.exists_member hs hsingle ht hunion
    have hum : g.Member b m := ⟨t, members, ht, hunion, hm⟩
    exact ih m (h.member hb hum) hum ham (hQ b m hab hq hum ham)
  · exact ⟨b, t, hb, ht, fun members h => hunion ⟨members, h⟩, hab, hq⟩

/-- Between a type other than a union and one it is assignable to through
another there is a type that is no union, unless it is assignable to it
directly. -/
theorem exists_between (h : g.Grounded P) {a b c : TypeId} {s : Node}
    (hs : g.node? a = some s) (hsingle : s.kind.isSingle = true)
    (hab : Below g P a b) (hbc : Below g P b c) :
    g.Assignable a c ∨ ∃ b' t, g.node? b' = some t ∧
      (∀ members, t.kind ≠ .union members) ∧ Below g P a b' ∧
      Below g P b' c := by
  have hdown : ∀ u m, g.Assignable a u →
      (g.Assignable a c ∨ g.Assignable u c) → g.Member u m →
      g.Assignable a m → g.Assignable a c ∨ g.Assignable m c := by
    rintro u m hau (hac | huc) hm -
    · exact .inl hac
    · rcases huc.of_member hm with rfl | hmc
      · exact .inl hau
      · exact .inr hmc
  obtain ⟨b', t, hb', ht, hnot, hab', hac | hbc'⟩ :=
    h.exists_target hs hsingle hdown hab.2.1 hab.2.2 (.inr hbc.2.2)
  · exact .inl hac
  · exact .inr ⟨b', t, ht, hnot, ⟨hab.1, hb', hab'⟩, hb', hbc.2.1, hbc'⟩

end Grounded

-- ====================================================== admitted forms

/-- A type is made of some forms only, and no union in it is reached
from itself through members. It may well be cyclic otherwise. -/
structure MadeOf (g : Graph) (forms : Kind → Bool) (id : TypeId) :
    Prop where
  forms : ∀ d, g.Reaches id d →
    ∃ node, g.node? d = some node ∧ forms node.kind = true
  acyclic : ∀ u, g.Reaches id u → ¬ Relation.TransGen g.Member u u

namespace MadeOf

variable {forms : Kind → Bool} {id : TypeId}

/-- A type made of some forms has a node, of one of them. -/
theorem node (h : g.MadeOf forms id) :
    ∃ node, g.node? id = some node ∧ forms node.kind = true :=
  h.forms id .refl

/-- Its form is one of them. -/
theorem admits (h : g.MadeOf forms id) {node : Node}
    (hn : g.node? id = some node) : forms node.kind = true := by
  obtain ⟨node', hn', hforms⟩ := h.node
  rw [hn, Option.some.injEq] at hn'
  rwa [hn']

/-- What it reaches is made of these forms too. -/
theorem reaches (h : g.MadeOf forms id) {d : TypeId}
    (hd : g.Reaches id d) : g.MadeOf forms d :=
  ⟨fun e he => h.forms e (hd.trans he),
    fun u hu => h.acyclic u (hd.trans hu)⟩

/-- A leaf is made of its own form. -/
theorem of_leaf {node : Node} (hn : g.node? id = some node)
    (hleaf : node.kind.isLeaf = true) (hforms : forms node.kind = true) :
    g.MadeOf forms id := by
  obtain ⟨form, hform⟩ : ∃ form, node.kind = .leaf form := by
    revert hleaf
    cases node.kind with
    | leaf form => exact fun _ => ⟨form, rfl⟩
    | array | tuple | map | record | union | error | stream | table
    | function | object | typedesc | xml =>
        intro hleaf
        cases hleaf
  have hself : ∀ d, g.Reaches id d → d = id := by
    intro d hd
    induction hd with
    | refl => rfl
    | step _ hchild ih =>
        obtain ⟨node', hn', hc⟩ := hchild
        rw [ih, hn, Option.some.injEq] at hn'
        rw [← hn', hform] at hc
        cases hc
  refine ⟨fun d hd => ⟨node, hself d hd ▸ hn, hforms⟩, fun u hu hcycle => ?_⟩
  obtain ⟨m, ⟨node', members, hn', hunion, -⟩, -⟩ :=
    Relation.TransGen.head'_iff.mp hcycle
  rw [hself u hu, hn, Option.some.injEq] at hn'
  rw [← hn', hform] at hunion
  cases hunion

/-- All types made of forms that include anydata and nil are a set that
rules do not lead out of. -/
theorem grounded (hg : g.WellFormed)
    (hanydata : forms (.leaf .anydata) = true)
    (hnil : forms (.leaf .nil) = true) : g.Grounded (g.MadeOf forms) where
  closed id h := by
    obtain ⟨node, hn, -⟩ := h.node
    exact ⟨node, hn, fun c hc => h.reaches (.step .refl ⟨node, hn, hc⟩)⟩
  anydata := .of_leaf hg.node?_anydata rfl hanydata
  nil := .of_leaf hg.node?_nil rfl hnil
  acyclic u h := h.acyclic u .refl

/-- A type, what it reaches, and the two types that stand in for what is
not written. -/
def Near (g : Graph) (id x : TypeId) : Prop :=
  g.Reaches id x ∨ x = .anydata ∨ x = .nil

/-- A composed type near another is reached from it. -/
theorem Near.reaches {x : TypeId} {kind : Kind} (hx : Near g id x)
    (hg : g.WellFormed) (hkind : g.kind x = .ok kind)
    (hleaf : kind.isLeaf = false) : g.Reaches id x := by
  obtain ⟨node, hn, rfl⟩ := kind_eq_ok.mp hkind
  rcases hx with hx | rfl | rfl
  · exact hx
  · rw [hg.node?_anydata, Option.some.injEq] at hn
    subst hn
    cases hleaf
  · rw [hg.node?_nil, Option.some.injEq] at hn
    subst hn
    cases hleaf

/-- So is what is near it, if the forms include those of the stand-ins. -/
theorem of_near (h : g.MadeOf forms id) (hg : g.WellFormed)
    (hanydata : forms (.leaf .anydata) = true)
    (hnil : forms (.leaf .nil) = true) {x : TypeId} (hx : Near g id x) :
    g.MadeOf forms x := by
  rcases hx with hx | rfl | rfl
  · exact h.reaches hx
  · exact (grounded hg hanydata hnil).anydata
  · exact (grounded hg hanydata hnil).nil

/-- What is near it is a set that rules do not lead out of, and its
unions bottom out. -/
theorem grounded_near (h : g.MadeOf forms id) (hg : g.WellFormed)
    (hanydata : forms (.leaf .anydata) = true)
    (hnil : forms (.leaf .nil) = true) : g.Grounded (Near g id) where
  closed x hx := by
    rcases hx with hx | rfl | rfl
    · obtain ⟨node, hn, -⟩ := h.forms x hx
      exact ⟨node, hn, fun c hc => .inl (hx.step ⟨node, hn, hc⟩)⟩
    · exact ⟨_, hg.node?_anydata, fun c hc => by cases hc⟩
    · exact ⟨_, hg.node?_nil, fun c hc => by cases hc⟩
  anydata := .inr (.inl rfl)
  nil := .inr (.inr rfl)
  acyclic x hx := (h.of_near hg hanydata hnil hx).acyclic x .refl

/-- What a list of ids has to pass for all of them to be made of some
forms, given a rank that falls from a union to its members. -/
def check (g : Graph) (forms : Kind → Bool) (rank : TypeId → Nat)
    (ids : List TypeId) : Bool :=
  ids.all fun id => (g.node? id).any fun node =>
    forms node.kind && node.kind.children.all (· ∈ ids) &&
      (node.kind.unionMembers?.getD []).all (rank · < rank id)

/-- What the check says of an id. -/
theorem check_node {rank : TypeId → Nat} {ids : List TypeId}
    (h : check g forms rank ids = true) :
    ∀ x ∈ ids, ∃ node, g.node? x = some node ∧
      forms node.kind = true ∧ (∀ c ∈ node.kind.children, c ∈ ids) ∧
      ∀ m ∈ node.kind.unionMembers?.getD [], rank m < rank x := by
  intro x hx
  have hcheck := List.all_eq_true.mp h x hx
  cases hn : g.node? x with
  | none => simp [hn] at hcheck
  | some node =>
      simp only [hn, Option.any_some, Bool.and_eq_true,
        List.all_eq_true, decide_eq_true_eq] at hcheck
      exact ⟨node, rfl, hcheck.1.1, hcheck.1.2, hcheck.2⟩

theorem check_closed {rank : TypeId → Nat} {ids : List TypeId}
    (h : check g forms rank ids = true) : g.ClosedOn (· ∈ ids) := by
  intro x hx
  obtain ⟨node, hn, -, hchildren, -⟩ := check_node h x hx
  exact ⟨node, hn, hchildren⟩

/-- Ids that pass the check are made of the forms. -/
theorem of_check {rank : TypeId → Nat} {ids : List TypeId}
    (h : check g forms rank ids = true) (hid : id ∈ ids) :
    g.MadeOf forms id := by
  have hreaches : ∀ d, g.Reaches id d → d ∈ ids :=
    fun d hd => (check_closed h).reaches hid hd
  have hmember : ∀ u ∈ ids, ∀ m, g.Member u m →
      m ∈ ids ∧ rank m < rank u := by
    rintro u hu m ⟨node', members, hn', hunion, hm⟩
    obtain ⟨node, hn, -, hchildren, hrank⟩ := check_node h u hu
    rw [hn, Option.some.injEq] at hn'
    subst hn'
    rw [hunion] at hchildren hrank
    exact ⟨hchildren m hm, hrank m hm⟩
  refine ⟨fun d hd => ?_, fun u hu hcycle => ?_⟩
  · obtain ⟨node, hn, hforms, -⟩ := check_node h d (hreaches d hd)
    exact ⟨node, hn, hforms⟩
  · -- the rank falls along members, so none comes back
    have hfall : ∀ v, Relation.TransGen g.Member u v →
        v ∈ ids ∧ rank v < rank u := by
      intro v hv
      induction hv with
      | single huv => exact hmember u (hreaches u hu) _ huv
      | tail _ hvw ih =>
          obtain ⟨hw, hlt⟩ := hmember _ ih.1 _ hvw
          exact ⟨hw, Nat.lt_trans hlt ih.2⟩
    exact Nat.lt_irrefl _ (hfall u hcycle).2

end MadeOf

end TypeParams.Graph
