/-
A resolution that is allowed more levels.

The settings limit how deep instantiation and matching go, and each says
so once in a walk if it has to stop.

# Instantiation

For instantiation this is all that the limit does: where nothing is
said, more levels change nothing (`instantiate_with_more_levels`), and
levels for all the types with parts that the declared type is made of
are enough for nothing to be said.

# Matching

For matching it is not. What xml of xml holds is looked for no deeper
than that either, and where the search is cut off a parameter is bound
to xml that more levels would have looked into, without a word
(`wrapped_cut_off`). Where it is not cut off, more levels change nothing
(`bindArgument_with_more_levels`).

A match may also fail to come to an end, where an error type meets a
union that is among its own members. That has nothing to do with levels,
so the statement is about matches that end, and says apart from that
that they do where there is no such union.
-/
import TypeParams.Proofs.Commit
import TypeParams.Proofs.Instantiation.Limit
import TypeParams.Proofs.Matching.Limit
import TypeParams.Proofs.Termination

namespace TypeParams.Resolution

variable {r r' : Resolution} {declared actual : TypeId} {levels : Nat}

/-- The same resolution, with so many levels from now on. -/
def allowing (r : Resolution) (levels : Nat) : Resolution :=
  { r with config := { r.config with maxDepth := levels } }

/-- A resolution is in order whatever its settings. -/
theorem InOrder.allowing {store : Store} (h : r.InOrder store)
    (levels : Nat) : (r.allowing levels).InOrder store :=
  ⟨h.checker, h.base, h.pending, h.graph, h.bound, h.calm⟩

-- ======================================================== instantiation

/-- An instantiation keeps account of the levels it meets, and does the
same with more levels unless it met the last one. -/
theorem instantiate_retraces {id : TypeId} {span : Span}
    (hg : r.types.graph.Closed)
    (hdeclared : declared.index < r.types.graph.size)
    (h : instantiate declared span (r.allowing levels) = .ok id r') :
    ∃ work, r' = (r.allowing levels).withWork work ∧
      r.workspace.Tallies (· = .tooDeep)
        ((r.types.graph.composites declared).ncard ≤ levels) work ∧
      (work.limitReported = false → ∀ more, levels ≤ more →
        instantiate declared span (r.allowing more)
          = .ok id (r'.allowing more)) := by
  obtain ⟨s, hrun, rfl⟩ := instantiate_eq_ok.mp h
  have hroom : (r.types.graph.composites declared).ncard ≤ levels →
      r.instantiation.Room r.types.graph declared (levels + 1) := by
    intro hle
    refine ⟨.refl _, r.instantiation_tidy, ?_, ?_⟩
    · intro f hf
      cases hf
    · show _ ≤ 0 + (levels + 1)
      omega
  have hretraces : ∀ more, levels ≤ more → Instantiation.Retraced
      ((r.types.graph.composites declared).ncard ≤ levels)
      (Instantiation.resolve ⟨r.env, (r.allowing levels).config, span⟩
        levels declared)
      (Instantiation.resolve ⟨r.env, (r.allowing more).config, span⟩
        more declared) r.instantiation := by
    intro more hmore
    apply Instantiation.resolve_retraces hg hdeclared
    · rfl
    · exact hmore
    · exact fun hle => ⟨hroom hle, .refl⟩
  refine ⟨s.work, rfl, (hretraces levels (Nat.le_refl _) id s hrun).1, ?_⟩
  intro hunmet more hmore
  exact instantiate_eq_ok.mpr
    ⟨s, (hretraces more hmore id s hrun).2 hunmet, rfl⟩

/-- The limit on the depth of an instantiation is not noticed unless it
is reported. Over a closed graph, and whatever is bound, an instantiation
adds at most one diagnostic, which says that a type is too deep. There is
none if there are as many levels as the declared type is made of types
with parts. And if there is none, more levels give the same type and
leave the same behind. -/
theorem instantiate_with_more_levels (hg : r.types.graph.Closed)
    (hdeclared : declared.index < r.types.graph.size) (span : Span)
    (levels : Nat) :
    ∃ id r', instantiate declared span (r.allowing levels) = .ok id r' ∧
      (∃ added, r'.diagnostics = r.diagnostics ++ added ∧
        added.length ≤ 1 ∧
        ∀ d ∈ added, ProblemKind.of? d = some .tooDeep) ∧
      ((r.types.graph.composites declared).ncard ≤ levels →
        r'.diagnostics = r.diagnostics) ∧
      (r'.diagnostics = r.diagnostics → ∀ more, levels ≤ more →
        instantiate declared span (r.allowing more)
          = .ok id (r'.allowing more)) := by
  obtain ⟨id, r', hrun⟩ := instantiate_succeeds (r := r.allowing levels)
    hg.closedOn hdeclared span
  obtain ⟨work, rfl, htally, hmore⟩ :=
    instantiate_retraces hg hdeclared hrun
  obtain ⟨added, hlog, hsorts, hcount, hunmet, hroomy⟩ := htally.of_down rfl
  have hall : ∀ d ∈ added, ProblemKind.of? d = some .tooDeep := by
    intro d hd
    obtain ⟨kind, rfl, hkind⟩ := hsorts d hd
    exact hkind
  have hnone : added = [] ↔ work.limitReported = false := by
    rw [hunmet]
    constructor
    · intro hnil
      simp [hnil]
    · intro hnot
      apply List.eq_nil_iff_forall_not_mem.mpr
      intro d hd
      exact hnot d hd (hall d hd)
  refine ⟨id, _, hrun, ⟨added, hlog, ?_, hall⟩, ?_, ?_⟩
  · have hlength : added.countP (ProblemKind.of? · == some .tooDeep)
        = added.length :=
      List.countP_eq_length.mpr fun d hd => beq_iff_eq.mpr (hall d hd)
    omega
  · intro hle
    show work.journal.log.entries = r.diagnostics
    rw [hlog, hnone.mpr (hroomy hle), List.append_nil]
    rfl
  · intro hsame
    apply hmore
    apply hnone.mp
    have happend : r.diagnostics ++ added = r.diagnostics :=
      hlog.symm.trans hsame
    exact List.append_right_eq_self.mp happend

/-- Two levels are enough for the two types that the chains alternate
between, and a million give the same. With one level there is a
warning. -/
theorem alternatingCall_with_more_levels :
    alternatingCall.types.graph.Closed ∧
      22 < alternatingCall.types.graph.size ∧
      (∃ id r', instantiate ⟨22⟩ .null (alternatingCall.allowing 2)
          = .ok id r' ∧
        r'.diagnostics = [] ∧
        instantiate ⟨22⟩ .null alternatingCall
          = .ok id (r'.allowing 1000000)) ∧
      ∃ id r', instantiate ⟨22⟩ .null (alternatingCall.allowing 1)
          = .ok id r' ∧
        r'.diagnostics.map ProblemKind.of? = [some .tooDeep] := by
  have hg : alternatingCall.types.graph.Closed := by decide
  have hdeclared : 22 < alternatingCall.types.graph.size := by decide
  have hcard :
      (alternatingCall.types.graph.composites ⟨22⟩).ncard ≤ 2 := by
    rw [alternatingCall_composites]
    exact (Set.ncard_pair (by decide)).le
  obtain ⟨id, r', hrun, -, hnone, hmore⟩ :=
    instantiate_with_more_levels (r := alternatingCall) hg hdeclared .null 2
  have hsilent := hnone hcard
  refine ⟨hg, hdeclared, ⟨id, r', hrun, hsilent, ?_⟩, ?_⟩
  · exact hmore hsilent 1000000 (by decide)
  · have hdecided : (match instantiate ⟨22⟩ .null
        (alternatingCall.allowing 1) with
      | .ok _ r => decide
          (r.diagnostics.map ProblemKind.of? = [some .tooDeep])
      | .error _ _ => false) = true := by decide +kernel
    cases hone : instantiate ⟨22⟩ .null (alternatingCall.allowing 1) with
    | ok id r =>
        rw [hone] at hdecided
        exact ⟨id, r, rfl, of_decide_eq_true hdecided⟩
    | error fault r =>
        rw [hone] at hdecided
        cases hdecided

-- ============================================================= matching

/-- A match keeps account of the levels it meets, and does the same with
more levels unless it met the last one, if the plans are alike. -/
theorem matchArgument_retraces {span : Span} (hg : r.types.graph.WellFormed)
    (hdeclared : declared.index < r.types.graph.size)
    (hactual : actual.index < r.types.graph.size)
    (h : matchArgument declared actual span (r.allowing levels)
      = .ok () r') :
    ∃ s : Matching.State,
      r' = { (r.allowing levels).withWork s.work with env := s.env } ∧
      r.workspace.Tallies (fun _ => True)
        ((r.types.graph.composites declared).ncard ≤ levels) s.work ∧
      (s.work.limitReported = false →
        ((∃ x inner, r.types.graph.Reaches declared x ∧
          r.types.graph.Holds x inner) →
          r.types.graph.Shallow levels actual) →
        ∀ more, levels ≤ more →
          matchArgument declared actual span (r.allowing more)
            = .ok () (r'.allowing more)) := by
  obtain ⟨s, hrun, rfl⟩ := matchArgument_eq_ok.mp h
  have hfollows : r.matching.Follows r.types.graph declared := by
    refine ⟨.refl _, .nil, ?_⟩
    intro id hid
    cases hid
  have hroom : (r.types.graph.composites declared).ncard ≤ levels →
      r.matching.Room r.types.graph declared (levels + 1) := by
    intro hle
    refine ⟨hfollows, ?_⟩
    show _ ≤ 0 + (levels + 1)
    omega
  let ctx : Matching.Context :=
    ⟨r.checker, (r.allowing levels).config, span⟩
  have hretraces : ∀ (T : TypeId → Prop) more, levels ≤ more → T actual →
      Matching.PlansAlike r.types.graph declared T ctx more →
      Matching.Retraced ((r.types.graph.composites declared).ncard ≤ levels)
        (Matching.matchTypes ctx levels declared actual .covariant)
        (Matching.matchTypes (ctx.allowing more) more declared actual
          .covariant) r.matching := by
    intro T more hmore hT halike
    exact Matching.matchTypes_retraces hg.closed hdeclared halike hmore
      hfollows hroom .refl (.inl hT)
  refine ⟨s, rfl, ?_, ?_⟩
  · exact (hretraces _ levels (Nat.le_refl _) hactual
      (.refl hg declared _) () s hrun).1
  · intro hunmet hshallow more hmore
    refine matchArgument_eq_ok.mpr ⟨s, ?_, rfl⟩
    by_cases hxml : ∃ x inner, r.types.graph.Reaches declared x ∧
        r.types.graph.Holds x inner
    · exact (hretraces _ more hmore ⟨hactual, hshallow hxml⟩
        (.of_shallow hg hmore) () s hrun).2 hunmet
    · refine (hretraces _ more hmore hactual
        (.of_not_holds hg ?_ hmore) () s hrun).2 hunmet
      intro x inner hreach hholds
      exact hxml ⟨x, inner, hreach, hholds⟩

/-- The limit on the depth of a match is not noticed unless it is
reported, but for what xml of xml holds. After any calls over a closed
graph, whatever the checker, a match has a result if no union is among
its own members, and otherwise a result or the fault of such a union. If
it has one then it adds at most one diagnostic that says that a type is
too deep. There is none if there are as many levels as the declared type
is made of types with parts. And if there is none, a match with more
levels has a result too, gives the same bindings and leaves the same
behind, provided that the declared type has no xml in it, or that what
xml below the actual type holds is found within the levels. -/
theorem bindArgument_with_more_levels (checker : Checker)
    (hchecker : checker.Total) (config : Config) (store : Store)
    (listening : Bool) (hg : store.graph.WellFormed)
    (hrun : ValidRun (begin checker config store listening) r)
    (hdeclared : declared.index < r.types.graph.size)
    (hactual : actual.index < r.types.graph.size) (span : Span)
    (levels : Nat) :
    (r.types.graph.Unlooped → Succeeds
      (bindArgument declared actual span) (r.allowing levels)) ∧
    SucceedsOr r.types.graph.Endless (bindArgument declared actual span)
      (r.allowing levels) ∧
    ∀ r', bindArgument declared actual span (r.allowing levels)
        = .ok () r' →
      (∃ added, r'.diagnostics = r.diagnostics ++ added ∧
        added.countP (ProblemKind.of? · == some .tooDeep) ≤ 1) ∧
      ((r.types.graph.composites declared).ncard ≤ levels →
        r.WithinLimit r') ∧
      (r.WithinLimit r' →
        ((∃ x inner, r.types.graph.Reaches declared x ∧
          r.types.graph.Holds x inner) →
          r.types.graph.Shallow levels actual) →
        ∀ more, levels ≤ more →
          bindArgument declared actual span (r.allowing more)
            = .ok () (r'.allowing more)) := by
  have hr : r.InOrder store :=
    (begin_inOrder hchecker config listening hg).run hrun
  have hends := ((hr.allowing levels).bindArgument hdeclared hactual
    span).ends
  refine ⟨fun hunlooped => hends.succeeds hunlooped.not_endless, hends,
    fun r' hbind => ?_⟩
  rcases bindArgument_eq_ok.mp hbind with ⟨hscan, rfl⟩ | ⟨hscan, hmatch⟩
  · -- nothing to infer
    refine ⟨⟨[], (List.append_nil _).symm, Nat.zero_le _⟩, ?_, ?_⟩
    · intro _ d hd
      rw [show (r.allowing levels).diagnostics = r.diagnostics from rfl,
        List.drop_length] at hd
      cases hd
    · intro _ _ more _
      exact bindArgument_eq_ok.mpr (.inl ⟨hscan, rfl⟩)
  · obtain ⟨s, rfl, htally, hmore⟩ :=
      matchArgument_retraces hr.graph hdeclared hactual hmatch
    obtain ⟨added, hlog, -, hcount, hunmet, hroomy⟩ := htally.of_down rfl
    have hwithin : r.WithinLimit
          { (r.allowing levels).withWork s.work with env := s.env } ↔
        s.work.limitReported = false := by
      unfold WithinLimit
      rw [hunmet, show ({ (r.allowing levels).withWork s.work with
        env := s.env } : Resolution).diagnostics = r.diagnostics ++ added
        from hlog, List.drop_left]
    refine ⟨⟨added, hlog, hcount⟩, ?_, ?_⟩
    · intro hle
      exact hwithin.mpr (hroomy hle)
    · intro hlimit hshallow more hle
      refine bindArgument_eq_ok.mpr (.inr ⟨hscan, ?_⟩)
      exact hmore (hwithin.mp hlimit) hshallow more hle

/-- A parameter (21) in xml (22), and elements in xml in xml in xml
(25). -/
def wrapped : Store where
  graph := ⟨Graph.builtin.nodes ++ #[
    .marker "T" ⟨1⟩ (.leaf .anydata),
    .anonymous (.xml ⟨21⟩),
    .anonymous (.xml .xmlElement),
    .anonymous (.xml ⟨23⟩),
    .anonymous (.xml ⟨24⟩)]⟩

/-- The declared type is made of one type with parts. -/
theorem wrapped_composites :
    wrapped.graph.composites ⟨22⟩ = {⟨22⟩} := by
  have hclosed : wrapped.graph.ClosedOn (· ∈ [⟨21⟩, ⟨22⟩]) := by
    intro id hid
    simp only [List.mem_cons, List.not_mem_nil, or_false] at hid
    rcases hid with rfl | rfl
    all_goals exact ⟨_, rfl, by decide⟩
  ext id
  constructor
  · intro hid
    obtain ⟨hreach, node, hn, hleaf⟩ := hid
    have hmem := hclosed.reaches (by simp) hreach
    simp only [List.mem_cons, List.not_mem_nil, or_false] at hmem
    rcases hmem with rfl | rfl
    · cases hn
      cases hleaf
    · rfl
  · intro hid
    cases hid
    exact ⟨.refl, _, rfl, rfl⟩

/-- Two levels are enough to find the elements. -/
theorem wrapped_shallow : wrapped.graph.Shallow 2 ⟨25⟩ := by
  have hclosed : wrapped.graph.ClosedOn
      (· ∈ [.xmlElement, ⟨23⟩, ⟨24⟩, ⟨25⟩]) := by
    intro id hid
    simp only [List.mem_cons, List.not_mem_nil, or_false] at hid
    rcases hid with rfl | rfl | rfl | rfl
    all_goals exact ⟨_, rfl, by decide⟩
  have helement : ∀ inner, ¬ wrapped.graph.Holds .xmlElement inner := by
    intro inner hholds
    obtain ⟨node, hn, hkind⟩ := hholds
    cases hn
    cases hkind
  intro x inner hreach hholds
  have hmem := hclosed.reaches (by simp) hreach
  simp only [List.mem_cons, List.not_mem_nil, or_false] at hmem
  obtain ⟨node, hn, hkind⟩ := hholds
  rcases hmem with rfl | rfl | rfl | rfl
  all_goals cases hn; cases hkind
  all_goals exact ⟨.xmlElement, rfl, helement⟩

/-- A resolution over these types, with so many levels. -/
def wrappedCall (levels : Nat) : Resolution :=
  begin .structural ⟨levels, false⟩ wrapped false

/-- The elements are found with two levels, and so with more. -/
theorem wrapped_with_more_levels :
    wrapped.graph.WellFormed ∧ wrapped.graph.Unlooped ∧
      wrapped.graph.Shallow 2 ⟨25⟩ ∧
      ∃ r', bindArgument ⟨22⟩ ⟨25⟩ .null (wrappedCall 2) = .ok () r' ∧
        ∀ levels, 2 ≤ levels →
          bindArgument ⟨22⟩ ⟨25⟩ .null (wrappedCall levels)
            = .ok () (r'.allowing levels) := by
  have hg : wrapped.graph.WellFormed := by decide
  have hunlooped : wrapped.graph.Unlooped := .of_order (by decide)
  have hgraph : (wrappedCall 2).types.graph = wrapped.graph :=
    Layer.graph_on wrapped
  have hcard : (wrapped.graph.composites ⟨22⟩).ncard ≤ 2 := by
    rw [wrapped_composites, Set.ncard_singleton]
    decide
  have hrun : ValidRun (wrappedCall 2) (wrappedCall 2) := .refl
  have hdeclared : (TypeId.mk 22).index
      < (wrappedCall 2).types.graph.size := by decide
  have hactual : (TypeId.mk 25).index
      < (wrappedCall 2).types.graph.size := by decide
  obtain ⟨hreturns, -, hlevels⟩ := bindArgument_with_more_levels
    .structural Checker.structural_total ⟨2, false⟩ wrapped false hg hrun
    hdeclared hactual .null 2
  rw [hgraph] at hreturns hlevels
  obtain ⟨⟨⟩, r', hbind⟩ := hreturns hunlooped
  obtain ⟨-, hwithin, hmore⟩ := hlevels r' hbind
  exact ⟨hg, hunlooped, wrapped_shallow, r', hbind,
    hmore (hwithin hcard) fun _ => wrapped_shallow⟩

/-- What the parameter is bound to and what is reported, with so many
levels. -/
def wrappedBindings (levels : Nat) : List Binding × List Diagnostic :=
  match bindArgument ⟨22⟩ ⟨25⟩ .null (wrappedCall levels) with
  | .ok () r => (r.env.entries, r.diagnostics)
  | .error _ _ => ([], [])

/-- One level is enough for the declared type, and nothing is reported.
Yet with one level the parameter is bound to xml, and with two to what is
in it. -/
theorem wrapped_cut_off :
    wrapped.graph.WellFormed ∧
      (wrapped.graph.composites ⟨22⟩).ncard ≤ 1 ∧
      wrappedBindings 1 = ([⟨⟨⟨1⟩, "T"⟩, ⟨21⟩, ⟨23⟩⟩], []) ∧
      wrappedBindings 2 = ([⟨⟨⟨1⟩, "T"⟩, ⟨21⟩, .xmlElement⟩], []) := by
  refine ⟨by decide, ?_, ?_, ?_⟩
  · rw [wrapped_composites, Set.ncard_singleton]
  · decide +kernel
  · decide +kernel

end TypeParams.Resolution
