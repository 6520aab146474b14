/-
Every walk over a graph of types ends, however many levels it is allowed.

# Walks that keep themselves from going round

A store may have types that contain themselves, on both sides of a call.
What keeps a walk from going round in them differs. A match never follows
a declared type twice. An instantiation does not go into a type that it
is inside of, nor does a search for assignability go into such a pair, or
rendering into such a type. So the limit on levels is not what ends any
of them: each nests no deeper than there are types, or pairs of types, to
go through.

# Walks that do not

Two walks are not kept from going round, those for the errors of a union
and for the content of xml. They end in a graph that is `Unwound`. A
match asks both of them about the types that it meets, and some of these
it has made itself, so it is not enough that they end in the graph that
it started with. But each type that a match adds is made of types below
it, so the graph stays unwound while it grows (`Unwound.of_stacks`), and
the walks end in every graph on the way.
-/
import TypeParams.Proofs.Commit
import TypeParams.Proofs.Instantiation.Nesting
import TypeParams.Proofs.Matching.Nesting
import TypeParams.Proofs.Matching.Record
import TypeParams.Proofs.Subtype.Nesting

namespace TypeParams

-- ======================================================= unwound graphs

/-- The members of a union, and what xml holds. -/
def Kind.content : Kind → List TypeId
  | .union members => members
  | .xml constraint => [constraint]
  | _ => []

namespace Graph

variable {g g' : Graph}

/-- No union is among its own members, and no xml in what it holds,
however far down. -/
structure Unwound (g : Graph) : Prop where
  unions : g.Unlooped
  xml : ∀ u, ¬ Relation.TransGen g.Holds u u

/-- Unions and xml that come after what they contain. -/
theorem Unwound.of_order
    (h : ∀ id ∈ g.ids, ∀ node ∈ g.node? id, ∀ c ∈ node.kind.content,
      c.index < id.index) : g.Unwound := by
  refine ⟨not_transGen_of_index_lt ?_, not_transGen_of_index_lt ?_⟩
  · intro a b hab
    obtain ⟨node, members, hn, hkind, hb⟩ := hab
    refine h a (mem_ids.mpr (index_lt_of_node? hn)) node hn b ?_
    rw [hkind]
    exact hb
  · intro a b hab
    obtain ⟨node, hn, hkind⟩ := hab
    refine h a (mem_ids.mpr (index_lt_of_node? hn)) node hn b ?_
    rw [hkind]
    exact List.mem_singleton_self b

/-- What xml holds is a part of it. -/
theorem Holds.child {a b : TypeId} (h : g.Holds a b) : g.Child a b := by
  obtain ⟨node, hn, hkind⟩ := h
  exact ⟨node, hn, by rw [hkind]; exact List.mem_singleton_self b⟩

/-- Types that are made of types below them leave a graph unwound. -/
theorem Unwound.of_stacks (h : g.Unwound) (hg : g.Closed)
    (hstacks : g.Stacks g') : g'.Unwound := by
  refine ⟨hstacks.unlooped hg h.unions, fun u hu => h.xml u ?_⟩
  refine hstacks.of_transGen hg (fun _ _ => Holds.child) ?_ hu
  rintro a b ha ⟨node, hn, hkind⟩
  rw [hstacks.nodes.node?_eq ha] at hn
  exact ⟨node, hn, hkind⟩

/-- Part of an unwound graph is unwound. -/
theorem Unwound.of_extends (h : g'.Unwound) (hext : g.Extends g') :
    g.Unwound := by
  refine ⟨h.unions.of_extends hext, fun u hu => h.xml u ?_⟩
  refine Relation.TransGen.mono ?_ u u hu
  rintro a b ⟨node, hn, hkind⟩
  exact ⟨node, hext _ _ hn, hkind⟩

/-- In an unwound graph telling error types needs no regard to where one
has been, and what xml holds is found within as many steps as there are
types. -/
theorem Unwound.walks_agree (h : g.Unwound) (id : TypeId) :
    (∀ deeper, g.onlyErrorsCapped deeper (g.size + 1) id
        = g.onlyErrors id) ∧
      ∀ depth, g.size < depth → Matching.xmlContent g depth id
        = Matching.xmlContent g (g.size + 1) id :=
  ⟨fun deeper => onlyErrorsCapped_eq deeper (Nat.lt_succ_self _)
    h.unions.ends, fun _ hdepth => xmlContent_eq h.xml hdepth id⟩

-- ================================================ searches and texts

/-- A search for assignability has an answer, and nests no deeper than
there are pairs of parts. -/
theorem relate_ends (hg : g.WellFormed) {source target : TypeId}
    (hsource : source.index < g.size) (htarget : target.index < g.size) :
    ∃ found, g.relate [] [] source target = .ok found ∧
      ∀ deeper, g.relateCapped deeper ((g.parts source target).ncard
        * (g.parts source target).ncard + 1) [] [] source target
        = .ok found := by
  have hnone : ∀ p ∈ ([] ++ [] : Pairs), g.Assignable p.1 p.2 := by simp
  obtain ⟨found, hfound, -⟩ := relate_answers hg.closed.closedOn
    (index_lt_of_node? hg.node?_anydata) (index_lt_of_node? hg.node?_nil)
    hsource htarget hnone
  refine ⟨found, hfound, fun deeper => ?_⟩
  rw [relateCapped_eq hg deeper (hg.closed.parts_finite hsource htarget)
    (.start source target), hfound]

/-- Any id has a text, also one that has no node. -/
theorem render_ends (hg : g.WellFormed) (id : TypeId) :
    ∃ text, g.render id = .ok text ∧
      ∀ deeper, g.renderCapped deeper (g.size + 1) [] true id
        = .ok text := by
  have hreturns : Returns (g.render id) := by
    cases hn : g.node? id with
    | none => exact ⟨_, renderWithin_of_none hn⟩
    | some node =>
        exact render_returns hg.closed.closedOn (index_lt_of_node? hn)
  obtain ⟨text, htext⟩ := hreturns
  refine ⟨text, htext, fun deeper => ?_⟩
  have hinside : ∀ p ∈ ([] : List TypeId), p.index < g.size := by simp
  rw [renderCapped_eq deeper .nil hinside (by simp)]
  exact htext

end Graph

namespace Resolution

variable {store : Store} {r : Resolution} {declared actual : TypeId}

-- ====================================================== one resolution

/-- A match follows no type twice and nests no deeper than there are
types with parts, and every graph on the way is unwound. -/
theorem match_ends (hr : r.InOrder store)
    (hunwound : r.types.graph.Unwound)
    (hdeclared : declared.index < r.types.graph.size)
    (hactual : actual.index < r.types.graph.size) (span : Span)
    (depth : Nat) :
    ∃ s record, Matching.matchTypes ⟨r.checker, r.config, span⟩ depth
        declared actual .covariant r.matching = .ok () s ∧
      Matching.matchRecorded ⟨r.checker, r.config, span⟩ depth declared
        actual .covariant (r.matching, []) = .ok () (s, record) ∧
      record.Nodup ∧
      (∀ id ∈ record, id ∈ r.types.graph.composites declared) ∧
      (∀ deeper, Matching.matchCapped ⟨r.checker, r.config, span⟩ deeper
        ((r.types.graph.composites declared).ncard + 1) depth declared
        actual .covariant r.matching = .ok () s) ∧
      ∀ g, r.types.graph.Extends g → g.Extends s.graph → g.Unwound := by
  have hready : r.matching.Ready := ⟨hr.graph, hr.bound⟩
  have hstart : r.matching.Follows r.types.graph declared := by
    refine ⟨.refl _, .nil, ?_⟩
    intro id hid
    cases hid
  obtain ⟨⟨⟩, s, hrun⟩ : Succeeds (Matching.matchTypes
      ⟨r.checker, r.config, span⟩ depth declared actual .covariant)
      r.matching :=
    Matching.matchTypes_succeeds hr.checker depth hready hunwound.unions
      hdeclared hactual _
  obtain ⟨hfollows, -⟩ := Matching.Matches.follows hr.graph.closed
    hdeclared ⟨depth, hrun⟩ hstart .refl
  refine ⟨s, s.visited, hrun, Matching.matchRecorded_eq rfl hrun,
    hfollows.nodup, hfollows.composite, fun deeper => ?_,
    fun g _ hext => ?_⟩
  · rw [Matching.matchCapped_eq hr.graph.closed hdeclared deeper depth
      ⟨hstart, Nat.le_add_left _ _⟩ .refl, hrun]
  · have hmatches : Matching.Matches _ _ _ _ _ s := ⟨depth, hrun⟩
    have hstacks : r.types.graph.Stacks s.graph :=
      hmatches.stacks hready hactual
    exact (hunwound.of_stacks hr.graph.closed hstacks).of_extends hext

/-- An instantiation nests no deeper than there are types with parts. -/
theorem resolve_ends (hr : r.InOrder store)
    (hdeclared : declared.index < r.types.graph.size) (span : Span)
    (depth : Nat) :
    ∃ id s, Instantiation.resolve ⟨r.env, r.config, span⟩ depth declared
        r.instantiation = .ok id s ∧
      ∀ deeper, Instantiation.resolveCapped ⟨r.env, r.config, span⟩ deeper
        ((r.types.graph.composites declared).ncard + 1) depth declared
        r.instantiation = .ok id s := by
  obtain ⟨id, s, hrun⟩ := Instantiation.resolve_succeeds
    ⟨r.env, r.config, span⟩ depth r.instantiation_tidy
    hr.graph.closed.closedOn hdeclared
  have hroom : r.instantiation.Room r.types.graph declared
      ((r.types.graph.composites declared).ncard + 1) := by
    refine ⟨.refl _, r.instantiation_tidy, ?_, Nat.le_add_left _ _⟩
    intro f hf
    cases hf
  refine ⟨id, s, hrun, fun deeper => ?_⟩
  rw [Instantiation.resolveCapped_eq hr.graph.closed hdeclared deeper depth
    hroom .refl, hrun]

/-- How deep the walks of a resolution go, whatever its limit on levels.
A match follows each type with parts that the declared type is made of
at most once, as its record shows, and nests no deeper than there are
such types, and one call more; so does an instantiation. A search for
assignability nests no deeper than there are pairs of what its two types
are made of, and one call more, and rendering no deeper than there are
types. So each of them has a result. Looking for errors in unions needs
no regard to where one has been, and looking for what xml holds no limit
beyond the size of the graph, both in the graph that a match starts with
and in every graph that it grows into on the way. -/
theorem walks_end (hr : r.InOrder store) (hunwound : r.types.graph.Unwound)
    (hdeclared : declared.index < r.types.graph.size)
    (hactual : actual.index < r.types.graph.size) (span : Span) :
    (∃ s record, Matching.matchTypes ⟨r.checker, r.config, span⟩
          r.config.maxDepth declared actual .covariant r.matching
          = .ok () s ∧
        Matching.matchRecorded ⟨r.checker, r.config, span⟩
          r.config.maxDepth declared actual .covariant (r.matching, [])
          = .ok () (s, record) ∧
        record.Nodup ∧
        (∀ id ∈ record, id ∈ r.types.graph.composites declared) ∧
        (∀ deeper, Matching.matchCapped ⟨r.checker, r.config, span⟩ deeper
          ((r.types.graph.composites declared).ncard + 1)
          r.config.maxDepth declared actual .covariant r.matching
          = .ok () s) ∧
        ∀ g, r.types.graph.Extends g → g.Extends s.graph → ∀ id,
          (∀ deeper, g.onlyErrorsCapped deeper (g.size + 1) id
            = g.onlyErrors id) ∧
          ∀ depth, g.size < depth → Matching.xmlContent g depth id
            = Matching.xmlContent g (g.size + 1) id) ∧
      (∃ id s, Instantiation.resolve ⟨r.env, r.config, span⟩
          r.config.maxDepth declared r.instantiation = .ok id s ∧
        ∀ deeper, Instantiation.resolveCapped ⟨r.env, r.config, span⟩
          deeper ((r.types.graph.composites declared).ncard + 1)
          r.config.maxDepth declared r.instantiation = .ok id s) ∧
      (∃ found, r.types.graph.relate [] [] actual declared = .ok found ∧
        ∀ deeper, r.types.graph.relateCapped deeper
          ((r.types.graph.parts actual declared).ncard
            * (r.types.graph.parts actual declared).ncard + 1) [] [] actual
          declared = .ok found) ∧
      (∀ id, ∃ text, r.types.graph.render id = .ok text ∧
        ∀ deeper, r.types.graph.renderCapped deeper
          (r.types.graph.size + 1) [] true id = .ok text) ∧
      (∀ id deeper, r.types.graph.onlyErrorsCapped deeper
          (r.types.graph.size + 1) id = r.types.graph.onlyErrors id) ∧
      (∀ id depth, r.types.graph.size < depth →
        Matching.xmlContent r.types.graph depth id
          = Matching.xmlContent r.types.graph (r.types.graph.size + 1)
            id) ∧
      Succeeds (bindArgument declared actual span) r ∧
      Succeeds (instantiate declared span) r ∧
      Returns (r.types.graph.assignable actual declared) := by
  obtain ⟨found, hfound, hsearch⟩ :=
    Graph.relate_ends hr.graph hactual hdeclared
  obtain ⟨s, record, hmatch, hrecorded, hnodup, hfollowed, hcapped, hgrown⟩ :=
    match_ends hr hunwound hdeclared hactual span r.config.maxDepth
  refine ⟨⟨s, record, hmatch, hrecorded, hnodup, hfollowed, hcapped,
      fun g hext hext' => (hgrown g hext hext').walks_agree⟩,
    resolve_ends hr hdeclared span r.config.maxDepth,
    ⟨found, hfound, hsearch⟩, Graph.render_ends hr.graph,
    fun id => (hunwound.walks_agree id).1,
    fun id => (hunwound.walks_agree id).2, ?_,
    instantiate_succeeds hr.graph.closed.closedOn hdeclared span,
    ⟨found.isSome, bind_eq_ok.mpr ⟨found, hfound, rfl⟩⟩⟩
  exact (hr.bindArgument hdeclared hactual span).ends.succeeds
    hunwound.unions.not_endless

/-- A chain of values of a parameter (22) and two kinds of chains of
integers whose links alternate (24, 25). -/
def alternating : Store where
  graph := ⟨Graph.builtin.nodes ++ #[
    .marker "T" ⟨1⟩ (.leaf .anydata),
    .anonymous (.record {
      fields := [{ name := "value", type := ⟨21⟩ },
        { name := "next", type := ⟨23⟩ }]
      isSealed := true }),
    .anonymous (.union [⟨22⟩, .nil]),
    .anonymous (.record {
      fields := [{ name := "value", type := .int },
        { name := "next", type := ⟨27⟩ }]
      isSealed := true }),
    .anonymous (.record {
      fields := [{ name := "value", type := .int },
        { name := "next", type := ⟨26⟩ }]
      isSealed := true }),
    .anonymous (.union [⟨24⟩, .nil]),
    .anonymous (.union [⟨25⟩, .nil])]⟩

/-- A call about the chains, with a million levels allowed. -/
def alternatingCall : Resolution :=
  begin .structural ⟨1000000, false⟩ alternating false

/-- The declared chain is made of two types with parts. -/
theorem alternatingCall_composites :
    alternatingCall.types.graph.composites ⟨22⟩ = {⟨22⟩, ⟨23⟩} := by
  have hclosed : alternatingCall.types.graph.ClosedOn
      (· ∈ [.nil, ⟨21⟩, ⟨22⟩, ⟨23⟩]) := by
    intro id hid
    simp only [List.mem_cons, List.not_mem_nil, or_false] at hid
    rcases hid with rfl | rfl | rfl | rfl
    all_goals exact ⟨_, rfl, by decide⟩
  ext id
  constructor
  · intro hid
    obtain ⟨hreach, node, hn, hleaf⟩ := hid
    have hmem := hclosed.reaches (by simp) hreach
    simp only [List.mem_cons, List.not_mem_nil, or_false] at hmem
    rcases hmem with rfl | rfl | rfl | rfl
    · cases hn
      cases hleaf
    · cases hn
      cases hleaf
    · exact .inl rfl
    · exact .inr rfl
  · intro hid
    rcases hid with rfl | rfl
    · exact ⟨.refl, _, rfl, rfl⟩
    · exact ⟨Graph.Reaches.refl.step ⟨_, rfl, by decide⟩, _, rfl, rfl⟩

/-- Neither matching the chains nor instantiating the declared one nests
more than three calls. -/
theorem alternatingCall_walks_end :
    alternatingCall.InOrder alternating ∧
      alternatingCall.types.graph.Unwound ∧
      (∃ s record, Matching.matchTypes
          ⟨.structural, ⟨1000000, false⟩, .null⟩ 1000000 ⟨22⟩ ⟨24⟩
          .covariant alternatingCall.matching = .ok () s ∧
        Matching.matchRecorded ⟨.structural, ⟨1000000, false⟩, .null⟩
          1000000 ⟨22⟩ ⟨24⟩ .covariant (alternatingCall.matching, [])
          = .ok () (s, record) ∧
        record.Nodup ∧ (∀ id ∈ record, id = ⟨22⟩ ∨ id = ⟨23⟩) ∧
        ∀ deeper, Matching.matchCapped
          ⟨.structural, ⟨1000000, false⟩, .null⟩ deeper 3 1000000 ⟨22⟩
          ⟨24⟩ .covariant alternatingCall.matching = .ok () s) ∧
      (∃ id s, ∀ deeper, Instantiation.resolveCapped
          ⟨{}, ⟨1000000, false⟩, .null⟩ deeper 3 1000000 ⟨22⟩
          alternatingCall.instantiation = .ok id s) ∧
      Succeeds (bindArgument ⟨22⟩ ⟨24⟩ .null) alternatingCall ∧
      Succeeds (instantiate ⟨22⟩ .null) alternatingCall ∧
      Returns (alternatingCall.types.graph.assignable ⟨24⟩ ⟨22⟩) := by
  have hr : alternatingCall.InOrder alternating :=
    begin_inOrder Checker.structural_total _ _ (by decide)
  have hunwound : alternatingCall.types.graph.Unwound :=
    .of_order (by decide)
  have hcard :
      (alternatingCall.types.graph.composites ⟨22⟩).ncard = 2 := by
    rw [alternatingCall_composites]
    exact Set.ncard_pair (by decide)
  have hdeclared : 22 < alternatingCall.types.graph.size := by decide
  have hactual : 24 < alternatingCall.types.graph.size := by decide
  obtain ⟨⟨s, record, hmatch, hrecorded, hnodup, hfollowed, hcapped, -⟩,
    ⟨id, t, -, hresolve⟩, -, -, -, -, hbind, hinstantiate, hassignable⟩ :=
    walks_end hr hunwound hdeclared hactual .null
  rw [hcard] at hcapped hresolve
  rw [alternatingCall_composites] at hfollowed
  exact ⟨hr, hunwound,
    ⟨s, record, hmatch, hrecorded, hnodup, hfollowed, hcapped⟩,
    ⟨id, t, hresolve⟩, hbind, hinstantiate, hassignable⟩

end Resolution

end TypeParams
