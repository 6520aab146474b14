/-
Matching a type with one of its shape.

Such a match meets every marker of the declared type, so each of them is
bound in the end. If nothing is reported on the way, the types opposite
markers agree with what these are bound to (`Agrees`): one is assignable
to the other, in the direction that the place asks for.

# Comparisons

The first type opposite a marker is what the marker is bound to. A later
one was compared: the other way round as well where it is a parameter's,
and only by what it is to the innermost function elsewhere. That
suffices at the places that are `Checked`, and what is left are the
places where a marker must not have been met before (`Guarded`).

# Levels

`Met` says what became of a stretch of a match: which markers it has met
and which types it has followed, at most. Stretches add up
(`Met.trans`), as the occurrences of markers in a type are those of its
parts one after the other. `Infers` is what is shown of a level for all
declared types of some height, and goes from the parts to the type.

A declared type is followed once in a match. What is said here is said
of types in which no type with parts stands at two places.
-/
import TypeParams.Proofs.Matching.Levels
import TypeParams.Proofs.Places
import TypeParams.Proofs.Walks

namespace TypeParams

-- ========================================================== two directions

/-- One type is assignable to another, or the other way round. -/
def Graph.Toward (g : Graph) (positive : Bool) (a b : TypeId) : Prop :=
  match positive with
  | true => g.Assignable a b
  | false => g.Assignable b a

theorem Graph.Toward.refl (g : Graph) (positive : Bool) (a : TypeId) :
    g.Toward positive a a := by
  cases positive with
  | true => exact Assignable.refl g a
  | false => exact Assignable.refl g a

/-- Types that are assignable both ways are so in either direction. -/
theorem Graph.Toward.of_both {g : Graph} {a b : TypeId}
    (hab : g.Assignable a b) (hba : g.Assignable b a) (positive : Bool) :
    g.Toward positive a b := by
  cases positive with
  | true => exact hab
  | false => exact hba

namespace Matching

variable {g : Graph} {s s' s'' : State}

-- ============================================================ agreement

/-- A type opposite a marker agrees with what the marker is bound to. -/
def Agrees (g : Graph) (env : Bindings) (place : Place) (key : MarkerKey)
    (id : TypeId) : Prop :=
  id.index < g.size ∧ ∃ b, env.lookup? key = some b ∧
    b.index < g.size ∧ g.Toward place.positive id b

/-- The occurrences of markers at places that are not checked come
first, and their markers are not bound. -/
structure Guarded (env : Bindings) (marks : List (MarkerKey × Place)) :
    Prop where
  first : ∀ m ∈ marks, env.lookup? m.1 = none ∨ m.2.Checked
  order : marks.Pairwise fun m m' => m.1 = m'.1 → m'.2.Checked

/-- A match stands over these types; markers are bound to some of them,
and what was followed are types with parts. -/
structure Steady (g : Graph) (s : State) : Prop where
  graph : s.graph = g
  bound : ∀ key b, s.env.lookup? key = some b → b.index < g.size
  visited : ∀ v ∈ s.visited, ∃ node, g.node? v = some node ∧
    node.isMarker = false ∧ node.kind.isLeaf = false

/-- What became of a match that has met these markers, following at most
these types. -/
structure Met (g : Graph) (branches : List TypeId)
    (marks : List (MarkerKey × Place)) (s s' : State) : Prop where
  steady : Steady g s'
  visited : ∀ v ∈ s'.visited, v ∈ s.visited ∨ v ∈ branches
  kept : ∀ key b, s.env.lookup? key = some b →
    s'.env.lookup? key = some b
  bound : ∀ key b, s'.env.lookup? key = some b →
    s.env.lookup? key = some b ∨ ∃ m ∈ marks, m.1 = key
  records : s.work.Records s'.work

theorem Met.refl (hs : Steady g s) : Met g [] [] s s where
  steady := hs
  visited _ hv := .inl hv
  kept _ _ hb := hb
  bound _ _ hb := .inl hb
  records := .refl _

/-- Two stretches of a match, one after the other. -/
theorem Met.trans {branches branches' : List TypeId}
    {marks marks' : List (MarkerKey × Place)}
    (h : Met g branches marks s s') (h' : Met g branches' marks' s' s'') :
    Met g (branches ++ branches') (marks ++ marks') s s'' where
  steady := h'.steady
  visited := by
    intro v hv
    rcases h'.visited v hv with hv | hv
    · exact (h.visited v hv).imp_right (List.mem_append_left _)
    · exact .inr (List.mem_append_right _ hv)
  kept key b hb := h'.kept key b (h.kept key b hb)
  bound := by
    intro key b hb
    rcases h'.bound key b hb with hb | ⟨m, hm, hkey⟩
    · refine (h.bound key b hb).imp_right ?_
      rintro ⟨m, hm, hkey⟩
      exact ⟨m, List.mem_append_left _ hm, hkey⟩
    · exact .inr ⟨m, List.mem_append_right _ hm, hkey⟩
  records := h.records.trans h'.records

/-- A stretch may be counted to have met more. -/
theorem Met.mono {branches branches' : List TypeId}
    {marks marks' : List (MarkerKey × Place)}
    (h : Met g branches marks s s') (hbranches : branches ⊆ branches')
    (hmarks : marks ⊆ marks') : Met g branches' marks' s s' where
  steady := h.steady
  visited v hv := (h.visited v hv).imp_right (@hbranches v)
  kept := h.kept
  bound key b hb := (h.bound key b hb).imp_right
    fun ⟨m, hm, hkey⟩ => ⟨m, hmarks hm, hkey⟩
  records := h.records

/-- Markers that were met do not come first any more, but those are
followed by places that are checked. -/
theorem Guarded.split {branches : List TypeId}
    {marks marks' : List (MarkerKey × Place)}
    (h : Guarded s.env (marks ++ marks'))
    (hmet : Met g branches marks s s') :
    Guarded s.env marks ∧ Guarded s'.env marks' := by
  obtain ⟨horder, horder', hacross⟩ := List.pairwise_append.mp h.order
  refine ⟨⟨fun m hm => h.first m (List.mem_append_left _ hm), horder⟩,
    ⟨fun m hm => ?_, horder'⟩⟩
  rcases h.first m (List.mem_append_right _ hm) with hfree | hchecked
  · cases hlookup : s'.env.lookup? m.1 with
    | none => exact .inl rfl
    | some b =>
        rcases hmet.bound _ _ hlookup with hb | ⟨m', hm', hkey⟩
        · rw [hfree] at hb
          cases hb
        · exact .inr (hacross m' hm' m hm hkey)
  · exact .inr hchecked

-- ============================================================== markers

section Structural

variable {ctx : Context} (hg : g.WellFormed)
  (hchecker : ctx.checker = .structural)

include hg

include hchecker

/-- A type that was compared at a place that is checked lies in the
direction that the place asks for. -/
theorem toward_of_compatible {place : Place} (hchecked : place.Checked)
    {a b : TypeId} (ha : a.index < g.size) (hb : b.index < g.size)
    (h : ctx.compatible place.variance b a g = .ok true) :
    g.Toward place.positive a b := by
  unfold Context.compatible at h
  rw [hchecker] at h
  cases hvariance : place.variance with
  | covariant =>
      rw [hvariance] at h
      have hpositive : place.positive = true := by
        rcases hchecked with hpositive | hcontra
        · exact hpositive
        · rw [hvariance] at hcontra
          cases hcontra
      rw [hpositive]
      exact (Checker.structural_assignable_iff hg ha hb).mp h
  | contravariant =>
      rw [hvariance] at h
      obtain ⟨hba, hab⟩ := (Checker.structural_sameType_iff
        hg.closed.closedOn (hg.builtin_lt rfl) (hg.builtin_lt rfl) hb
        ha).mp h
      exact .of_both hab hba _

/-- A marker that meets a type is bound to it, or the two are
compared. -/
theorem bindMarker_meets (key : MarkerKey) {place : Place} {node : Node}
    {id : TypeId} (hnode : g.node? place.id = some node)
    (hid : id.index < g.size) (hne : id ≠ .noType) (hs : Steady g s) :
    ∃ s', bindMarker ctx place.id key id place.variance s = .ok () s' ∧
      Met g [] [(key, place)] s s' ∧
      (s.work.Quiet s'.work → Guarded s.env [(key, place)] →
        Agrees g s'.env place key id) := by
  have hclosed := hg.closed.closedOn
  have hrun : Succeeds (bindMarker ctx place.id key id place.variance) s := by
    refine bindMarker_succeeds ?_ ?_ fun b hb => ⟨?_, ?_⟩
    · rw [hs.graph]
      exact Graph.render_returns hclosed (Graph.index_lt_of_node? hnode)
    · rw [hs.graph]
      exact Graph.render_returns hclosed hid
    · rw [hs.graph]
      exact Graph.render_returns hclosed (hs.bound key b hb)
    · rw [hs.graph]
      exact compatible_returns (hchecker ▸ Checker.structural_total) hg _
        (hs.bound key b hb) hid
  obtain ⟨⟨⟩, s', hrun⟩ := hrun
  refine ⟨s', hrun, ?_⟩
  cases bindMarker_ending hrun with
  | @binds work hfree _ htell =>
      have hadd := s.env.lookup?_add ⟨key, place.id, id⟩
      have hkey : (s.env.add ⟨key, place.id, id⟩).lookup? key
          = some id := by
        rw [hadd, hfree, Option.none_or, if_pos rfl]
      have hold : ∀ k b,
          (s.env.add ⟨key, place.id, id⟩).lookup? k = some b →
          s.env.lookup? k = some b ∨ key = k ∧ id = b := by
        intro k b hb
        rw [hadd] at hb
        rcases Option.or_eq_some_iff.mp hb with hb | ⟨-, hb⟩
        · exact .inl hb
        · split at hb
          next hk => exact .inr ⟨hk, Option.some.inj hb⟩
          next => cases hb
      refine ⟨⟨⟨?_, ?_, hs.visited⟩, fun _ hv => .inl hv, ?_, ?_,
        htell.records⟩, fun _ _ => ⟨hid, id, hkey, hid, .refl g _ id⟩⟩
      · exact (congrArg Layer.graph htell.types).trans hs.graph
      · intro k b hb
        rcases hold k b hb with hb | ⟨-, rfl⟩
        · exact hs.bound k b hb
        · exact hid
      · intro k b hb
        rw [hadd, hb]
        rfl
      · intro k b hb
        refine (hold k b hb).imp_right fun hk => ?_
        exact ⟨(key, place), List.mem_singleton.mpr rfl, hk.1⟩
  | @agrees b hlookup _ hcompatible =>
      refine ⟨⟨hs, fun _ hv => .inl hv, fun _ _ hb => hb,
        fun _ _ hb => .inl hb, .refl _⟩, fun _ hguarded => ?_⟩
      have hb := hs.bound key b hlookup
      -- the parameter was bound before, so the place is not one of those
      -- where markers come first
      have hchecked : place.Checked := by
        rcases hguarded.first _ (List.mem_singleton.mpr rfl) with
          hfree | hchecked
        · rw [hlookup] at hfree
          cases hfree
        · exact hchecked
      rw [hs.graph] at hcompatible
      exact ⟨hid, b, hlookup, hb,
        toward_of_compatible hg hchecker hchecked hid hb hcompatible⟩
  | clashes hlookup _ _ hreport =>
      refine ⟨⟨⟨?_, hs.bound, hs.visited⟩, fun _ hv => .inl hv,
        fun _ _ hb => hb, fun _ _ hb => .inl hb, hreport.records⟩,
        fun hquiet => absurd hquiet hreport.not_quiet⟩
      exact (congrArg Layer.graph hreport.types).trans hs.graph
  | skipped _ hactual => exact absurd hactual hne
  | uninferred _ hactual _ => exact absurd hactual hne

end Structural

-- ================================================================ levels

/-- Matching a type with one of its shape succeeds. If it is quiet and
markers come first where they have to, the other type agrees with what
they are bound to, down to so many levels. -/
def Infers (g : Graph) (levels : Nat)
    (f : TypeId → TypeId → Variance → MatchM Unit) : Prop :=
  ∀ height place id s, g.Shaped (fun _ _ _ => True) height place id →
    g.Present id → (g.branches height place.id).Nodup →
    (∀ v ∈ g.branches height place.id, v ∉ s.visited) → Steady g s →
    ∃ s', f place.id id place.variance s = .ok () s' ∧
      Met g (g.branches height place.id) (g.occurrences height place)
        s s' ∧
      (s.work.Quiet s'.work →
        Guarded s.env (g.occurrences height place) →
        g.Shaped (Agrees g s'.env) levels place id)

/-- What a match does with the parts at a list of places. -/
theorem Infers.pairs {levels : Nat}
    {f : TypeId → TypeId → Variance → MatchM Unit}
    (hf : Infers g levels f) (x y : TypeId) {height : Nat}
    {places : List Place} {ids : List TypeId}
    (hshaped : List.Forall₂ (g.Shaped (fun _ _ _ => True) height) places
      ids)
    (hpresent : ∀ id ∈ ids, g.Present id)
    (hnodup : (places.flatMap (g.branches height ·.id)).Nodup)
    (hfresh : ∀ v ∈ places.flatMap (g.branches height ·.id),
      v ∉ s.visited)
    (hs : Steady g s) :
    ∃ s', followPlan f x y (.pairs (places.zipWith
        (fun part id => pair part.variance part.id id) ids)) s
        = .ok () s' ∧
      Met g (places.flatMap (g.branches height ·.id))
        (places.flatMap (g.occurrences height)) s s' ∧
      (s.work.Quiet s'.work →
        Guarded s.env (places.flatMap (g.occurrences height)) →
        List.Forall₂ (g.Shaped (Agrees g s'.env) levels) places ids) := by
  induction hshaped generalizing s with
  | nil => exact ⟨s, rfl, .refl hs, fun _ _ => .nil⟩
  | @cons place id places ids hfirst _ ih =>
      rw [List.forall_mem_cons] at hpresent
      rw [List.flatMap_cons] at hnodup hfresh ⊢
      rw [List.forall_mem_append] at hfresh
      obtain ⟨hnodup₁, hnodup₂, hapart⟩ := List.nodup_append.mp hnodup
      obtain ⟨s₁, hrun₁, hmet₁, hagree₁⟩ :=
        hf height place id s hfirst hpresent.1 hnodup₁ hfresh.1 hs
      have hfresh₂ : ∀ v ∈ places.flatMap (g.branches height ·.id),
          v ∉ s₁.visited := by
        intro v hv hvisited
        rcases hmet₁.visited v hvisited with hold | hnew
        · exact hfresh.2 v hv hold
        · exact hapart v hnew v hv rfl
      obtain ⟨s₂, hrun₂, hmet₂, hagree₂⟩ :=
        ih hpresent.2 hnodup₂ hfresh₂ hmet₁.steady
      refine ⟨s₂, ?_, ?_, fun hquiet hguarded => ?_⟩
      · exact bind_run.mpr ⟨⟨⟩, s₁, hrun₁, hrun₂⟩
      · rw [List.flatMap_cons]
        exact hmet₁.trans hmet₂
      · rw [List.flatMap_cons] at hguarded
        obtain ⟨hquiet₁, hquiet₂⟩ :=
          hquiet.split hmet₁.records hmet₂.records
        obtain ⟨hguarded₁, hguarded₂⟩ := hguarded.split hmet₁
        refine .cons ((hagree₁ hquiet₁ hguarded₁).mono (.refl g) ?_)
          (hagree₂ hquiet₂ hguarded₂)
        rintro _ key _ ⟨hid, b, hlookup, hrest⟩
        exact ⟨hid, b, hmet₂.kept key b hlookup, hrest⟩

variable {ctx : Context}

/-- Types with parts are followed, unless the last level was met. -/
theorem goDown_infers (hg : g.WellFormed) {levels : Nat}
    {descend : Option (TypeId → TypeId → Variance → MatchM Unit)}
    (hdescend : ∀ f ∈ descend, Infers g levels f) {height : Nat}
    {place : Place} {id : TypeId} {node other : Node}
    (hnode : g.node? place.id = some node)
    (hmarker : node.isMarker = false) (hother : g.node? id = some other)
    (hcongruent : node.kind.Congruent other.kind)
    (hparts : List.Forall₂ (g.Shaped (fun _ _ _ => True) height)
      (place.parts node.kind) other.kind.children)
    (hpresent : g.Present id)
    (hnodup : (g.branches (height + 1) place.id).Nodup)
    (hfresh : ∀ v ∈ g.branches (height + 1) place.id, v ∉ s.visited)
    (hs : Steady g s) :
    ∃ s', goDown ctx descend place.id id place.variance node s
        = .ok () s' ∧
      Met g (g.branches (height + 1) place.id)
        (g.occurrences (height + 1) place) s s' ∧
      (s.work.Quiet s'.work →
        Guarded s.env (g.occurrences (height + 1) place) →
        g.Shaped (Agrees g s'.env) (levels + 1) place id) := by
  cases descend with
  | none =>
      -- the last level: it is reported, so the match is not quiet
      have hwords : Returns (s.graph.render place.id) := by
        rw [hs.graph]
        exact Graph.render_returns hg.closed.closedOn
          (Graph.index_lt_of_node? hnode)
      have hreport : Succeeds (WorkM.reportLimit ctx.config ctx.span
          .matchingStopped place.id) s.work :=
        WorkM.reportLimit_succeeds hwords
      obtain ⟨⟨⟩, work, hrun⟩ := hreport
      obtain ⟨hrecords, hlimit, htypes⟩ :=
        WorkM.reportLimit_run (by simp [Event.level]) hrun
      refine ⟨{ s with work }, onWork_run.mpr ⟨work, hrun, rfl⟩,
        ⟨⟨?_, hs.bound, hs.visited⟩, fun _ hv => .inl hv,
          fun _ _ hb => hb, fun _ _ hb => .inl hb, hrecords⟩,
        fun hquiet => ?_⟩
      · exact (congrArg Layer.graph htypes).trans hs.graph
      · rw [hquiet.limitReported] at hlimit
        cases hlimit
  | some f =>
      -- the type itself is followed first, and then what its parts go
      -- through
      rw [Graph.branches_of_congruent hnode hmarker hcongruent]
        at hnodup hfresh ⊢
      rw [Graph.occurrences_of_unmarked hnode hmarker]
      rw [List.nodup_cons] at hnodup
      rw [List.forall_mem_cons] at hfresh
      have hs₁ : Steady g
          { s with visited := place.id :: s.visited } :=
        ⟨hs.graph, hs.bound, List.forall_mem_cons.mpr
          ⟨⟨node, hnode, hmarker, hcongruent.isLeaf⟩, hs.visited⟩⟩
      have hfresh₁ : ∀ v ∈ (place.parts node.kind).flatMap
          (g.branches height ·.id), v ∉ place.id :: s.visited := by
        intro v hv hmem
        rcases List.mem_cons.mp hmem with rfl | hmem
        · exact hnodup.1 hv
        · exact hfresh.2 v hv hmem
      have hpresent₁ : ∀ c ∈ other.kind.children, g.Present c :=
        fun c hc => hpresent.child hg.closed hother hc
      obtain ⟨s', hrun, hmet, hagree⟩ := (hdescend f rfl).pairs place.id
        id hparts hpresent₁ hnodup.2 hfresh₁ hs₁
      refine ⟨s', ?_, ⟨hmet.steady, ?_, hmet.kept, hmet.bound,
        hmet.records⟩, fun hquiet hguarded => ?_⟩
      · have hplan := hcongruent.plan s.graph ctx.checker
          ctx.config.maxDepth place place.id id
        rw [← hs.graph] at hother
        rw [goDown_of_plan hother hplan]
        exact hrun
      · intro v hv
        rcases hmet.visited v hv with hv | hv
        · rcases List.mem_cons.mp hv with rfl | hv
          · exact .inr List.mem_cons_self
          · exact .inl hv
        · exact .inr (List.mem_cons_of_mem _ hv)
      · exact .branch hnode hmarker hother hcongruent
          (hagree hquiet hguarded)

/-- One level of matching infers, if the levels below do. -/
theorem matchStep_infers (hg : g.WellFormed)
    (hchecker : ctx.checker = .structural) {levels : Nat}
    {descend : Option (TypeId → TypeId → Variance → MatchM Unit)}
    (hdescend : ∀ f ∈ descend, Infers g levels f) :
    Infers g (levels + 1) (matchStep ctx descend) := by
  intro height place id s hshape hpresent hnodup hfresh hs
  have hgraph : ∀ {node}, g.node? place.id = some node →
      s.graph.node? place.id = some node := fun hn => by rw [hs.graph, hn]
  cases height with
  | zero => cases hshape
  | succ height =>
      cases hshape with
      | @marker node key _ hnode hkey _ =>
          have hvisited : place.id ∉ s.visited := by
            intro hv
            obtain ⟨node', hn', hmarker, -⟩ := hs.visited _ hv
            rw [hnode] at hn'
            cases hn'
            rw [Node.isMarker_of_markerKey? hkey] at hmarker
            cases hmarker
          rw [matchStep_of_unvisited hvisited (hgraph hnode)]
          unfold meet
          rw [hkey, Graph.occurrences_of_marker hnode hkey]
          obtain ⟨s', hrun, hmet, hagree⟩ := bindMarker_meets hg hchecker
            key hnode hpresent.1 hpresent.ne_noType hs
          exact ⟨s', hrun, hmet.mono (List.nil_subset _) (.refl _),
            fun hquiet hguarded =>
              .marker hnode hkey (hagree hquiet hguarded)⟩
      | @leaf node hnode hmarker hleaf =>
          have hvisited : place.id ∉ s.visited := by
            intro hv
            obtain ⟨node', hn', -, hparts⟩ := hs.visited _ hv
            rw [hnode] at hn'
            cases hn'
            rw [hleaf] at hparts
            cases hparts
          rw [matchStep_of_unvisited hvisited (hgraph hnode)]
          unfold meet
          rw [Node.markerKey?_of_unmarked hmarker]
          simp only [if_neg hpresent.ne_noType, if_pos hleaf]
          exact ⟨s, rfl, (Met.refl hs).mono (List.nil_subset _)
            (List.nil_subset _), fun _ _ => .leaf hnode hmarker hleaf⟩
      | branch hnode hmarker hother hcongruent hparts =>
          have hvisited : place.id ∉ s.visited := by
            refine hfresh _ ?_
            rw [Graph.branches_of_congruent hnode hmarker hcongruent]
            exact List.mem_cons_self
          rw [matchStep_of_unvisited hvisited (hgraph hnode)]
          unfold meet
          rw [Node.markerKey?_of_unmarked hmarker]
          have hleaf := Bool.eq_false_iff.mp hcongruent.isLeaf
          simp only [if_neg hpresent.ne_noType, if_neg hleaf]
          exact goDown_infers hg hdescend hnode hmarker hother hcongruent
            hparts hpresent hnodup hfresh hs

/-- Matching infers, through as many levels as it has. -/
theorem matchTypes_infers (ctx : Context) (hg : g.WellFormed)
    (hchecker : ctx.checker = .structural) (depth : Nat) :
    Infers g (depth + 1) (matchTypes ctx depth) := by
  induction depth with
  | zero =>
      refine matchStep_infers hg hchecker fun f hf => ?_
      cases hf
  | succ depth ih =>
      refine matchStep_infers hg hchecker fun f hf => ?_
      cases hf
      exact ih

end Matching

end TypeParams
