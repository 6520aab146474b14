/-
Assignability in graphs that agree.

What relates two types is what can be reached from them. In a graph that
agrees with another one on a closed set of ids (`Graph.AgreesOn`)
nothing else can be reached from these, so there the types are related
alike (`Assignable.agrees`): a rule is read off the same nodes, and what
it asks of a whole type has the same answer. A graph that extends
another one agrees with it on every set, so answers about types stay as
more types are added.

# Whole types

Two premises are about a type and everything below it, that it is data
and that it is not one of errors only. The first is a property of what
is reached, and nothing new is reached. The second is asked of types
other than unions only, and settled by their form.

The relation is the largest one that goes by the rules, so it is enough
to show that the pairs related in one graph go by the rules of the
other. Rules may mention anydata and nil, which must therefore be in the
set.
-/
import TypeParams.Proofs.Subtype.Order

namespace TypeParams.Graph

variable {g g' : Graph} {P : TypeId → Prop}

-- ============================================================== premises

/-- From an id of a closed set, the other graph finds no more data. -/
theorem DataReaches.of_agrees (hP : g.ClosedOn P)
    (hgg' : g.AgreesOn P g') {a b : TypeId} (ha : P a)
    (h : g'.DataReaches a b) : g.DataReaches a b ∧ P b := by
  induction h with
  | refl => exact ⟨.refl, ha⟩
  | @step b c node parts _ hn hparts hc ih =>
      obtain ⟨hab, hb⟩ := ih
      obtain ⟨node', hn', hchild⟩ := hP b hb
      rw [hgg' _ _ hb hn'] at hn
      cases hn
      exact ⟨.step hab hn' hparts hc,
        hchild c (Kind.mem_children_of_mem_dataParts hparts hc)⟩

/-- What is data is data in the other graph. -/
theorem Data.agrees (hP : g.ClosedOn P) (hgg' : g.AgreesOn P g')
    {id : TypeId} (hid : P id) (h : g.Data id) : g'.Data id := by
  intro b hb
  obtain ⟨hreaches, hb⟩ := hb.of_agrees hP hgg' hid
  obtain ⟨node, hn, hparts⟩ := h b hreaches
  exact ⟨node, hgg' _ _ hb hn, hparts⟩

/-- The walk that looks for types other than errors stays in the set. Of
the types that it has come through only those of the set matter. -/
theorem onlyErrorsWithin_agrees (hP : g.ClosedOn P)
    (hgg' : g.AgreesOn P g') {path path' : List TypeId} {id : TypeId}
    (hpath : ∀ x, P x → (x ∈ path' ↔ x ∈ path)) (hid : P id) :
    g'.onlyErrorsWithin path' id = g.onlyErrorsWithin path id := by
  induction path, id using Graph.onlyErrorsWithin.induct g
    generalizing path' with
  | case1 path id hn =>
      obtain ⟨node, hn', -⟩ := hP id hid
      rw [hn] at hn'
      cases hn'
  | case2 path id node hn hmem =>
      have hmem' := (hpath id hid).mpr hmem
      rw [onlyErrorsWithin_of_node hn,
        onlyErrorsWithin_of_node (hgg' _ _ hid hn), if_pos hmem,
        if_pos hmem']
  | case3 path id node hn hmem detail hkind =>
      have hmem' := mt (hpath id hid).mp hmem
      rw [onlyErrorsWithin_of_node hn,
        onlyErrorsWithin_of_node (hgg' _ _ hid hn), if_neg hmem,
        if_neg hmem', hkind]
  | case4 path id node hn hmem members hkind hempty =>
      have hmem' := mt (hpath id hid).mp hmem
      rw [onlyErrorsWithin_of_node hn,
        onlyErrorsWithin_of_node (hgg' _ _ hid hn), if_neg hmem,
        if_neg hmem', hkind]
      simp only [hempty, if_true]
  | case5 path id node hn hmem members hkind hempty ih =>
      have hmem' := mt (hpath id hid).mp hmem
      have hmembers : ∀ m ∈ members, P m := by
        have hchild := hP.child hid hn
        rw [hkind] at hchild
        exact hchild
      -- the paths need not be the same, only to have the same types of the
      -- set
      have hfurther : ∀ x, P x → (x ∈ id :: path' ↔ x ∈ id :: path) := by
        intro x hx
        rw [List.mem_cons, List.mem_cons, hpath x hx]
      rw [onlyErrorsWithin_of_node hn,
        onlyErrorsWithin_of_node (hgg' _ _ hid hn), if_neg hmem,
        if_neg hmem', hkind]
      have hall : members.allM (g'.onlyErrorsWithin (id :: path'))
          = members.allM (g.onlyErrorsWithin (id :: path)) :=
        allM_congr fun m hm => ih m hfurther (hmembers m hm)
      simp only [hall]
  | case6 path id node hn hmem herror hunion =>
      have hmem' := mt (hpath id hid).mp hmem
      rw [onlyErrorsWithin_of_node hn,
        onlyErrorsWithin_of_node (hgg' _ _ hid hn), if_neg hmem,
        if_neg hmem']
      generalize node.kind = kind at herror hunion
      cases kind with
      | union members => exact absurd rfl (hunion members)
      | leaf | array | tuple | map | record | error | stream | table
      | function | object | typedesc | xml => rfl

/-- A premise about types of the set holds in the other graph, whatever
relation it is taken with. -/
theorem AgreesOn.premise (hgg' : g.AgreesOn P g') (hP : g.ClosedOn P)
    {R : TypeId → TypeId → Prop} {premise : Premise}
    (hon : premise.On g P) (h : premise.Holds g R) :
    premise.Holds g' R := by
  cases premise with
  | fact | sub => exact h
  | data id => exact Data.agrees hP hgg' (Premise.on_data.mp hon) h
  | notOnlyErrors id =>
      exact (onlyErrorsWithin_agrees hP hgg' (fun _ _ => .rfl)
        (Premise.on_notOnlyErrors.mp hon).1).trans h

-- ============================================================ the relation

/-- The types of a closed set that are related are so in the other graph
too. -/
theorem Assignable.agrees (hP : g.ClosedOn P) (hdata : P .anydata)
    (hnil : P .nil) (hgg' : g.AgreesOn P g') {a b : TypeId} (ha : P a)
    (hb : P b) (hab : g.Assignable a b) : g'.Assignable a b := by
  refine ⟨fun x y => P x ∧ P y ∧ g.Assignable x y, ?_, ha, hb, hab⟩
  rintro x y ⟨hx, hy, hxy⟩
  rcases g.consistent_assignable x y hxy with heq | ⟨s, t, hs, ht, hr⟩
  · exact .inl heq
  · have hon := Rule.on_of (t := t) hs hx hy (hP.child hx hs)
      (hP.child hy ht) hdata hnil
    refine .inr ⟨s, t, hgg' _ _ hx hs, hgg' _ _ hy ht, ?_⟩
    have hr := hr.restrict hon
    generalize Rule.of x s y t = rule at hr hon
    cases rule with
    | all premises =>
        exact fun p hp => hgg'.premise hP (hon p hp) (hr p hp)
    | any premises =>
        obtain ⟨p, hp, hh⟩ := hr
        exact ⟨p, hp, hgg'.premise hP (hon p hp) hh⟩

/-- Types of the set are related in both graphs, or in neither. -/
theorem assignable_agrees_iff (hP : g.ClosedOn P) (hdata : P .anydata)
    (hnil : P .nil) (hgg' : g.AgreesOn P g') {a b : TypeId} (ha : P a)
    (hb : P b) : g'.Assignable a b ↔ g.Assignable a b :=
  ⟨.agrees (hP.agrees hgg') hdata hnil (hgg'.symm hP) ha hb,
    .agrees hP hdata hnil hgg' ha hb⟩

end TypeParams.Graph
