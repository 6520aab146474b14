/-
The order of a union's members makes no difference to assignability.

Two graphs are `Reordered` when they differ only in the order in which
unions list their members. The relation is the same in both
(`Reordered.assignable`): a rule for a union speaks of all its members,
or of one of them, and what else a rule asks of a whole type does not
see the order either.

# From the relation to the procedure

The procedure tries premises in order, and takes pairs for granted that
it has found before, so its path depends on the order and its answer
might. With the decision this is covered: its answer is whether the
types are related (`assignable_decides`), whatever was found on the way.
The same argument covers a search that starts from pairs that are in
fact related.

# Cycles

Nothing is asked about cycles. A relation that is consistent in one
graph is consistent in the other, by the rules, and the largest relation
is the union of all consistent ones; neither looks at how types are
nested. The premise that a type is not one of errors only is asked of
types other than unions, so the one walk that might not end is not
started.
-/
import TypeParams.Proofs.Subtype.Decision

namespace TypeParams

-- ================================================ graphs up to order

/-- The same form, up to the order of a union's members. -/
inductive Kind.Reordered : Kind → Kind → Prop where
  | same (kind : Kind) : Reordered kind kind
  | union {members members' : List TypeId} (h : members.Perm members') :
      Reordered (.union members) (.union members')

/-- The same node, up to the order of a union's members. -/
def Node.Reordered (node node' : Node) : Prop :=
  ∃ kind, node.kind.Reordered kind ∧ node' = { node with kind }

/-- The same graph, up to the order of the members of unions. -/
def Graph.Reordered (g g' : Graph) : Prop :=
  ∀ id, Option.Rel Node.Reordered (g.node? id) (g'.node? id)

/-- Reordering can be undone. -/
theorem Kind.Reordered.symm {kind kind' : Kind}
    (h : kind.Reordered kind') : kind'.Reordered kind := by
  cases h with
  | same => exact .same _
  | union h => exact .union h.symm

/-- A reordered form has the same parts, in another order. -/
theorem Kind.Reordered.children_perm {kind kind' : Kind}
    (h : kind.Reordered kind') : kind.children.Perm kind'.children := by
  cases h with
  | same => exact .refl _
  | union h => exact h

/-- A form that is no union has only itself as a reordering. -/
theorem Kind.Reordered.eq_of_not_union {kind kind' : Kind}
    (h : kind.Reordered kind')
    (hkind : ∀ members, kind ≠ .union members) : kind' = kind := by
  cases h with
  | same => rfl
  | union => exact absurd rfl (hkind _)

-- =================================================== rules up to order

/-- The same rule, up to the order of its premises. -/
inductive Rule.Reordered : Rule → Rule → Prop where
  | all {premises premises' : List Premise}
      (h : premises.Perm premises') :
      Reordered (.all premises) (.all premises')
  | any {premises premises' : List Premise}
      (h : premises.Perm premises') :
      Reordered (.any premises) (.any premises')

theorem Rule.Reordered.refl (rule : Rule) : rule.Reordered rule := by
  cases rule with
  | all premises => exact .all (.refl _)
  | any premises => exact .any (.refl _)

section Rules

variable {a b : TypeId} {s t : Node}

/-- The rule for a union as the source does not look at the target,
unless that is missing. -/
theorem Rule.of_union_source {members : List TypeId}
    (hs : s.kind = .union members) :
    Rule.of a s b t =
      if t.kind = .leaf .noType then .decided false
      else .all (members.map (.sub · b)) := by
  unfold Rule.of
  rw [hs]
  split <;> simp_all

/-- The rule for a union as the target. -/
theorem Rule.of_union_target {members : List TypeId}
    (hs : ∀ members, s.kind ≠ .union members)
    (ht : t.kind = .union members) :
    Rule.of a s b t =
      if s.kind = .leaf .noType then .decided false
      else if s.kind = .leaf .never then .decided true
      else .any (members.map (.sub a)) := by
  unfold Rule.of
  rw [ht]
  split <;> simp_all

/-- Reordering the members of unions reorders the premises of rules:
they are listed in a rule only as members of one union. -/
theorem Rule.of_reordered {skind tkind : Kind}
    (hs : s.kind.Reordered skind) (ht : t.kind.Reordered tkind) :
    (Rule.of a s b t).Reordered
      (Rule.of a { s with kind := skind } b { t with kind := tkind }) := by
  generalize hsk : s.kind = kind at hs
  generalize htk : t.kind = kind' at ht
  cases hs with
  | union hperm =>
      rw [Rule.of_union_source hsk, Rule.of_union_source rfl]
      have hmissing : t.kind = .leaf .noType ↔ tkind = .leaf .noType := by
        rw [htk]
        cases ht with
        | same => exact Iff.rfl
        | union => simp
      simp only [hmissing]
      split
      · exact .refl _
      · exact .all (hperm.map _)
  | same =>
      cases ht with
      | same =>
          subst hsk
          subst htk
          exact .refl _
      | union hperm =>
          -- a union as the source is taken apart first, whatever the target
          -- is
          by_cases hunion : ∃ members, s.kind = .union members
          · obtain ⟨members, hmembers⟩ := hunion
            rw [Rule.of_union_source hmembers,
              Rule.of_union_source (hsk.symm.trans hmembers)]
            simp only [htk]
            exact .refl _
          · have hs' : ∀ members, s.kind ≠ .union members :=
              fun members h => hunion ⟨members, h⟩
            subst hsk
            rw [Rule.of_union_target hs' htk,
              Rule.of_union_target (by exact hs') rfl]
            split
            · exact .refl _
            · split
              · exact .refl _
              · exact .any (hperm.map _)

end Rules

/-- A rule holds of a relation cut down to a set, if all it mentions is
in the set. -/
theorem Rule.Holds.restrict {g : Graph} {R : TypeId → TypeId → Prop}
    {P : TypeId → Prop} {rule : Rule}
    (hon : ∀ p ∈ rule.premises, p.On g P) (hr : rule.Holds g R) :
    rule.Holds g (fun x y => P x ∧ P y ∧ R x y) := by
  have hpremise : ∀ p ∈ rule.premises, p.Holds g R →
      p.Holds g (fun x y => P x ∧ P y ∧ R x y) := by
    intro p hp hh
    cases p with
    | sub x y =>
        have hxy := Premise.on_sub.mp (hon _ hp)
        exact ⟨hxy.1, hxy.2, hh⟩
    | fact | data | notOnlyErrors => exact hh
  cases rule with
  | all premises => exact fun p hp => hpremise p hp (hr p hp)
  | any premises =>
      obtain ⟨p, hp, hh⟩ := hr
      exact ⟨p, hp, hpremise p hp hh⟩

namespace Graph

variable {g g' : Graph}

/-- So can the reordering of a graph. -/
theorem Reordered.symm (h : g.Reordered g') : g'.Reordered g := by
  intro id
  have hid := h id
  generalize g.node? id = o at hid
  generalize g'.node? id = o' at hid
  cases hid with
  | none => exact .none
  | some hnode =>
      obtain ⟨kind, hkind, rfl⟩ := hnode
      exact .some ⟨_, hkind.symm, rfl⟩

/-- A node of one graph is reordered in the other. -/
theorem Reordered.node (h : g.Reordered g') {id : TypeId} {node : Node}
    (hn : g.node? id = some node) :
    ∃ kind, g'.node? id = some { node with kind } ∧
      node.kind.Reordered kind := by
  have hid := h id
  rw [hn] at hid
  generalize hn' : g'.node? id = o' at hid
  cases hid with
  | some hnode =>
      obtain ⟨kind, hkind, rfl⟩ := hnode
      exact ⟨kind, rfl, hkind⟩

/-- A closed set is closed in the other graph. -/
theorem Reordered.closedOn (h : g.Reordered g') {P : TypeId → Prop}
    (hP : g.ClosedOn P) : g'.ClosedOn P := by
  intro a ha
  obtain ⟨node, hn, hc⟩ := hP a ha
  obtain ⟨kind, hn', hkind⟩ := h.node hn
  exact ⟨_, hn', fun c hmem =>
    hc c (hkind.children_perm.mem_iff.mpr hmem)⟩

-- ================================================= premises up to order

/-- What is data is data in the other graph. -/
theorem Reordered.data (h : g.Reordered g') {id : TypeId}
    (hd : g.Data id) : g'.Data id := by
  -- what is reached in the one is reached in the other
  have hreaches : ∀ b, g'.DataReaches id b → g.DataReaches id b := by
    intro b hb
    induction hb with
    | refl => exact .refl
    | @step b c node parts _ hn hparts hc ih =>
        obtain ⟨kind, hn', hkind⟩ := h.symm.node hn
        have hparts' : ∃ parts', kind.dataParts? = some parts' ∧
            c ∈ parts' := by
          revert hparts
          generalize node.kind = nodeKind at hkind
          intro hparts
          cases hkind with
          | same => exact ⟨parts, hparts, hc⟩
          | union hperm =>
              cases hparts
              exact ⟨_, rfl, hperm.mem_iff.mp hc⟩
        obtain ⟨parts', hparts', hc'⟩ := hparts'
        exact .step ih hn' hparts' hc'
  intro b hb
  obtain ⟨node, hn, hsome⟩ := hd b (hreaches b hb)
  obtain ⟨kind, hn', hkind⟩ := h.node hn
  refine ⟨_, hn', ?_⟩
  generalize node.kind = nodeKind at hkind hsome
  cases hkind with
  | same => exact hsome
  | union => rfl

/-- Whether a type other than a union is an error type does not change:
its node is the same. -/
theorem Reordered.onlyErrors (h : g.Reordered g') {id : TypeId}
    (hid : g.Single id) : g'.onlyErrors id = g.onlyErrors id := by
  obtain ⟨node, hn, hunion⟩ := hid
  obtain ⟨kind, hn', hre⟩ := h.node hn
  obtain rfl := hre.eq_of_not_union hunion
  unfold Graph.onlyErrors
  rw [onlyErrorsWithin_of_node hn, onlyErrorsWithin_of_node hn']
  generalize node.kind = nodeKind at hunion
  cases nodeKind with
  | union members => exact absurd rfl (hunion members)
  | leaf | array | tuple | map | record | error | stream | table
  | function | object | typedesc | xml => rfl

-- ======================================================= the relation

/-- A premise about types of a set holds in the other graph, whatever
relation it is taken with. -/
theorem Reordered.premise (h : g.Reordered g') {P : TypeId → Prop}
    {R : TypeId → TypeId → Prop} {premise : Premise}
    (hon : premise.On g P) (hp : premise.Holds g R) :
    premise.Holds g' R := by
  cases premise with
  | fact | sub => exact hp
  | data id => exact h.data hp
  | notOnlyErrors id =>
      exact (h.onlyErrors (Premise.on_notOnlyErrors.mp hon).2).trans hp

/-- The rule for two types is the same in both graphs, up to the order
of its premises. -/
theorem Reordered.step (h : g.Reordered g') {P : TypeId → Prop}
    (hP : g.ClosedOn P) (hdata : P .anydata) (hnil : P .nil)
    {R : TypeId → TypeId → Prop} {a b : TypeId} (ha : P a) (hb : P b)
    (hstep : g.Step R a b) : g'.Step R a b := by
  obtain ⟨s, t, hs, ht, hr⟩ := hstep
  obtain ⟨skind, hs', hskind⟩ := h.node hs
  obtain ⟨tkind, ht', htkind⟩ := h.node ht
  refine ⟨_, _, hs', ht', ?_⟩
  have hon := Rule.on_of (t := t) hs ha hb (hP.child ha hs)
    (hP.child hb ht) hdata hnil
  have hsame := Rule.of_reordered (a := a) (b := b) hskind htkind
  generalize Rule.of a s b t = rule at hr hon hsame
  generalize Rule.of a _ b _ = rule' at hsame ⊢
  cases hsame with
  | all hperm =>
      intro p hp
      have hmem := hperm.mem_iff.mpr hp
      exact h.premise (hon p hmem) (hr p hmem)
  | any hperm =>
      obtain ⟨p, hmem, hholds⟩ := hr
      exact ⟨p, hperm.mem_iff.mp hmem,
        h.premise (hon p hmem) hholds⟩

/-- A relation consistent in one graph is so in the other, on the ids
of a closed set. -/
theorem Reordered.assignable (h : g.Reordered g') {P : TypeId → Prop}
    (hP : g.ClosedOn P) (hdata : P .anydata) (hnil : P .nil)
    {a b : TypeId} (ha : P a) (hb : P b) (hab : g.Assignable a b) :
    g'.Assignable a b := by
  refine ⟨fun x y => P x ∧ P y ∧ g.Assignable x y, ?_, ha, hb, hab⟩
  rintro x y ⟨hx, hy, hxy⟩
  rcases g.consistent_assignable x y hxy with heq | ⟨s, t, hs, ht, hr⟩
  · exact .inl heq
  · have hon := Rule.on_of (t := t) hs hx hy (hP.child hx hs)
      (hP.child hy ht) hdata hnil
    exact .inr (h.step hP hdata hnil hx hy
      ⟨s, t, hs, ht, hr.restrict hon⟩)

-- ========================================================= the decision

/-- In a graph of types, whatever cycles it has, the procedure gives an
answer for all types, and the answer is whether they are related by the
largest relation that goes by the rules. It is the answer whichever
related pairs the search may start from, and in whichever order unions
list their members. -/
theorem assignable_decides (hg : g.WellFormed) {source target : TypeId}
    (hs : source.index < g.size) (ht : target.index < g.size) :
    ∃ answer, g.assignable source target = .ok answer ∧
      (answer = true ↔ g.Assignable source target) ∧
      (∀ path found : Pairs,
        (∀ p ∈ path ++ found, g.Assignable p.1 p.2) →
        ∃ found', g.relate path found source target = .ok found' ∧
          found'.isSome = answer) ∧
      ∀ g', g.Reordered g' → g'.assignable source target = .ok answer := by
  have hP := hg.closed.closedOn
  have hdata : TypeId.anydata.index < g.size := hg.builtin_lt rfl
  have hnil : TypeId.nil.index < g.size := hg.builtin_lt rfl
  obtain ⟨answer, hanswer, hiff⟩ :=
    assignable_answers hP hdata hnil hs ht
  refine ⟨answer, hanswer, hiff, ?_, ?_⟩
  · intro path found hassumed
    obtain ⟨found', hfound, hiff'⟩ :=
      relate_answers hP hdata hnil hs ht hassumed
    exact ⟨found', hfound, Bool.eq_iff_iff.mpr (hiff'.trans hiff.symm)⟩
  · intro g' hgg'
    have hP' := hgg'.closedOn hP
    obtain ⟨answer', hanswer', hiff'⟩ :=
      assignable_answers hP' hdata hnil hs ht
    have hsame : g.Assignable source target
        ↔ g'.Assignable source target :=
      ⟨hgg'.assignable hP hdata hnil hs ht,
        hgg'.symm.assignable hP' hdata hnil hs ht⟩
    rw [hanswer',
      Bool.eq_iff_iff.mpr (hiff'.trans (hsame.symm.trans hiff.symm))]

/-- A sealed record of a value and another record. -/
private def linked (next value : TypeId) : Node :=
  .anonymous (.record
    { fields := [{ name := "next", type := next },
        { name := "value", type := value }]
      isSealed := true })

/-- Chains of records: one with ints all the way (21), and two that
alternate between strings and ints (22, 23), with their union (24). -/
def alternating : Graph :=
  ⟨Graph.builtin.nodes ++ #[linked ⟨21⟩ .int, linked ⟨23⟩ .string,
    linked ⟨22⟩ .int, .anonymous (.union [⟨22⟩, ⟨23⟩])]⟩

/-- A chain of ints is related to no member of the union, though each
member is looked into while the other one is assumed. -/
theorem alternating_decided :
    alternating.WellFormed ∧
      alternating.assignable ⟨21⟩ ⟨24⟩ = .ok false ∧
      ¬ alternating.Assignable ⟨21⟩ ⟨24⟩ := by
  have hg : alternating.WellFormed := by decide
  have hfalse : alternating.assignable ⟨21⟩ ⟨24⟩ = .ok false := by
    decide +kernel
  obtain ⟨answer, hanswer, hiff, -⟩ :=
    assignable_decides hg
      (show (TypeId.mk 21).index < alternating.size by decide)
      (show (TypeId.mk 24).index < alternating.size by decide)
  rw [hfalse, Except.ok.injEq] at hanswer
  subst hanswer
  exact ⟨hg, hfalse, fun h => Bool.false_ne_true (hiff.mpr h)⟩

end Graph

end TypeParams
