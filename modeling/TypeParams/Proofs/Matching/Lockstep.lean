/-
Two matches of the same types, side by side.

What a match binds depends on what was bound before it, but the way it
takes does not: a bound parameter is compared and left alone, and
nothing below a marker is looked at. So a match that starts with some
bindings and one that starts with none meet the same markers with twins
of the same types (`matchTypes_abreast`). At any time the first has what
was bound before, and beyond that what the second has (`Abreast`).

# Coming to the end

It also means that both come to the end or neither does (`Together`).
There is one thing that may keep them from it, a union among its own
members that an error type meets, and twins are such a union both or
neither. Everything else succeeds on either side, since the types are
there (`State.Ready`).

`Together` is an equivalence of success and a relation between the
states that are left, and both are needed at each step: the next step is
compared only from states that are abreast, and those are there only if
both steps before it have succeeded.

# Levels

`KeepsAbreast` says of a level that it goes together from any two states
that are abreast, given twins. The plans are the same on both sides
(`plan_twins`), what they draw on was there before either match began,
and a level keeps the matches abreast if the levels below do.
-/
import TypeParams.Proofs.Matching.Totality

namespace TypeParams.Matching

open TypeParams.Graph (Flat Twins)

variable {ctx : Context} {g₀ : Graph} {env₀ : Bindings}
variable {s s' t t' : State}

-- ============================================================== markers

/-- What a parameter is bound to after it has met a type. -/
def met (key : MarkerKey) (actual : TypeId) (k : MarkerKey) :
    Option TypeId :=
  if key = k ∧ actual ≠ .noType then some actual else none

/-- A parameter that is free is bound to the type that it meets, unless
it is missing. Others stay as they are. -/
theorem MarkerEnding.lookup? {marker actual : TypeId} {key : MarkerKey}
    {variance : Variance}
    (h : MarkerEnding ctx marker key actual variance s s')
    (k : MarkerKey) :
    s'.env.lookup? k = (s.env.lookup? k).or (met key actual k) := by
  have hbound : ∀ {bound}, s.env.lookup? key = some bound →
      s.env.lookup? k = (s.env.lookup? k).or (met key actual k) := by
    intro bound hbound
    unfold met
    by_cases hk : key = k
    · cases hk
      rw [hbound]
      rfl
    · rw [if_neg fun h => hk h.1, Option.or_none]
  cases h with
  | binds _ hactual _ =>
      show (s.env.add _).lookup? k = _
      rw [Bindings.lookup?_add]
      simp only [met, ne_eq, hactual, not_false_eq_true, and_true]
  | agrees hfound _ _ => exact hbound hfound
  | clashes hfound _ _ _ => exact hbound hfound
  | skipped hfound _ => exact hbound hfound
  | uninferred _ hactual _ =>
      unfold met
      rw [if_neg fun h => h.2 hactual, Option.or_none]

-- =============================================================== abreast

section Related

variable {α β : Type} {R R' : α → β → Prop}

theorem rel_mono (hR : ∀ a b, R a b → R' a b) {a : Option α}
    {b : Option β} (h : Option.Rel R a b) : Option.Rel R' a b := by
  cases h with
  | some h => exact .some (hR _ _ h)
  | none => exact .none

theorem rel_or {a a' : Option α} {b b' : Option β}
    (h : Option.Rel R a b) (h' : Option.Rel R a' b') :
    Option.Rel R (a.or a') (b.or b') := by
  cases h with
  | some h => exact .some h
  | none => exact h'

theorem rel_none_iff {a : Option α} {b : Option β}
    (h : Option.Rel R a b) : a = none ↔ b = none := by
  cases h with
  | some _ => simp
  | none => exact ⟨fun _ => rfl, fun _ => rfl⟩

end Related

/-- The states of two matches of the same types. The first one started
with some bindings, the second one with none. -/
structure Abreast (g₀ : Graph) (env₀ : Bindings) (s t : State) :
    Prop where
  readyLeft : s.Ready
  readyRight : t.Ready
  left : g₀.Flat s.graph
  right : g₀.Flat t.graph
  visited : t.visited = s.visited
  kept : ∀ key b, env₀.lookup? key = some b → s.env.lookup? key = some b
  bound : ∀ key, env₀.lookup? key = none →
    Option.Rel (Twins g₀ s.graph t.graph) (s.env.lookup? key)
      (t.env.lookup? key)

/-- Telling and reporting changes nothing. -/
theorem Abreast.said (h : Abreast g₀ env₀ s t) {work work' : Workspace}
    (hwork : work.types = s.work.types)
    (hwork' : work'.types = t.work.types) :
    Abreast g₀ env₀ { s with work } { t with work := work' } := by
  have hs : ({ s with work } : State).graph = s.graph :=
    congrArg Layer.graph hwork
  have ht : ({ t with work := work' } : State).graph = t.graph :=
    congrArg Layer.graph hwork'
  refine ⟨⟨?_, ?_⟩, ⟨?_, ?_⟩, ?_, ?_, h.visited, h.kept, ?_⟩
  all_goals simp only [hs, ht]
  · exact h.readyLeft.graph
  · exact h.readyLeft.bound
  · exact h.readyRight.graph
  · exact h.readyRight.bound
  · exact h.left
  · exact h.right
  · exact h.bound

/-- Entering a type is noted on both sides. -/
theorem Abreast.enter (h : Abreast g₀ env₀ s t) (expected : TypeId) :
    Abreast g₀ env₀ { s with visited := expected :: s.visited }
      { t with visited := expected :: t.visited } where
  readyLeft := ⟨h.readyLeft.graph, h.readyLeft.bound⟩
  readyRight := ⟨h.readyRight.graph, h.readyRight.bound⟩
  left := h.left
  right := h.right
  visited := congrArg (expected :: ·) h.visited
  kept := h.kept
  bound := h.bound

/-- A source that draws on what was there makes twins, and the types
that it adds on either side change nothing else. -/
theorem Abreast.resolve (hg₀ : g₀.WellFormed) (h : Abreast g₀ env₀ s t)
    {source : Source} (hids : ∀ id ∈ source.ids, id.index < g₀.size)
    {made made' : Option TypeId} {work work' : Workspace}
    (hs : source.resolve s.work = .ok made work)
    (ht : source.resolve t.work = .ok made' work') :
    Abreast g₀ env₀ { s with work } { t with work := work' } ∧
      Option.Rel (Twins g₀ work.types.graph work'.types.graph) made
        made' := by
  obtain ⟨hflat, hflat', htwins⟩ :=
    Source.resolve_twins hg₀ h.left h.right hids hs ht
  obtain ⟨hready, hstacks, -⟩ := h.readyLeft.source
    (fun id hid => h.left.nodes.lt (hids id hid)) hs
  obtain ⟨hready', hstacks', -⟩ := h.readyRight.source
    (fun id hid => h.right.nodes.lt (hids id hid)) ht
  refine ⟨⟨hready, hready', hflat, hflat', h.visited, h.kept, ?_⟩, htwins⟩
  intro key hkey
  exact rel_mono (fun _ _ htwins => htwins.mono hstacks.nodes
    hstacks'.nodes) (h.bound key hkey)

/-- Twins are there, each on its side. -/
theorem Abreast.lt (hg₀ : g₀.WellFormed) (h : Abreast g₀ env₀ s t)
    {a b : TypeId} (hab : Twins g₀ s.graph t.graph a b) :
    a.index < s.graph.size ∧ b.index < t.graph.size := by
  obtain ⟨node, hn, hn', -⟩ := hab.node hg₀.closed h.left h.right
  exact ⟨Graph.index_lt_of_node? hn, Graph.index_lt_of_node? hn'⟩

/-- Markers that meet twins stay abreast. -/
theorem Abreast.meets (hg₀ : g₀.WellFormed) (h : Abreast g₀ env₀ s t)
    {marker a b : TypeId} {key : MarkerKey} {variance : Variance}
    (hab : Twins g₀ s.graph t.graph a b)
    (hs : MarkerEnding ctx marker key a variance s s')
    (ht : MarkerEnding ctx marker key b variance t t') :
    Abreast g₀ env₀ s' t' := by
  have hgraph : s'.graph = s.graph := congrArg Layer.graph hs.kept.1
  have hgraph' : t'.graph = t.graph := congrArg Layer.graph ht.kept.1
  obtain ⟨ha, hb⟩ := h.lt hg₀ hab
  have hmet : ∀ k, Option.Rel (Twins g₀ s.graph t.graph)
      (met key a k) (met key b k) := by
    intro k
    unfold met
    by_cases hk : key = k ∧ a ≠ .noType
    · rw [if_pos hk, if_pos ⟨hk.1, mt (hab.eq_noType hg₀).mpr hk.2⟩]
      exact .some hab
    · rw [if_neg hk, if_neg fun h =>
        hk ⟨h.1, mt (hab.eq_noType hg₀).mp h.2⟩]
      exact .none
  refine ⟨hs.ready h.readyLeft ha, ht.ready h.readyRight hb, ?_, ?_, ?_,
    ?_, ?_⟩
  · rw [hgraph]
    exact h.left
  · rw [hgraph']
    exact h.right
  · rw [hs.kept.2, ht.kept.2]
    exact h.visited
  · intro k bound hk
    rw [hs.lookup? k, h.kept k bound hk]
    rfl
  · intro k hk
    rw [hs.lookup? k, ht.lookup? k, hgraph, hgraph']
    exact rel_or (h.bound k hk) (hmet k)

-- ============================================================== together

/-- Two actions come to the end together, if at all, and are abreast
then. -/
structure Together (g₀ : Graph) (env₀ : Bindings) (x y : MatchM Unit)
    (s t : State) : Prop where
  ends : Succeeds x s ↔ Succeeds y t
  abreast : ∀ s' t', x s = .ok () s' → y t = .ok () t' →
    Abreast g₀ env₀ s' t'

namespace Together

variable {x y x' y' : MatchM Unit} {s₁ t₁ : State}

/-- Both succeed. -/
theorem of_succeeds (hx : Succeeds x s) (hy : Succeeds y t)
    (h : ∀ s' t', x s = .ok () s' → y t = .ok () t' →
      Abreast g₀ env₀ s' t') : Together g₀ env₀ x y s t :=
  ⟨iff_of_true hx hy, h⟩

/-- Neither does. -/
theorem of_faults {fault fault' : Fault} (hx : x s = .error fault s₁)
    (hy : y t = .error fault' t₁) : Together g₀ env₀ x y s t := by
  refine ⟨iff_of_false ?_ ?_, ?_⟩
  · rintro ⟨u, s', h⟩
    cases hx.symm.trans h
  · rintro ⟨u, t', h⟩
    cases hy.symm.trans h
  · intro s' t' h
    cases hx.symm.trans h

/-- They come to the same as two actions from other states. -/
theorem of_eq (hx : x s = x' s₁) (hy : y t = y' t₁)
    (h : Together g₀ env₀ x' y' s₁ t₁) : Together g₀ env₀ x y s t := by
  refine ⟨?_, ?_⟩
  · unfold Succeeds
    rw [hx, hy]
    exact h.ends
  · rw [hx, hy]
    exact h.abreast

/-- What goes on together after first steps that end together. -/
theorem bind {α β : Type} {x : MatchM α} {y : MatchM β}
    {f : α → MatchM Unit} {f' : β → MatchM Unit}
    (hends : Succeeds x s ↔ Succeeds y t)
    (h : ∀ a s₁ b t₁, x s = .ok a s₁ → y t = .ok b t₁ →
      Together g₀ env₀ (f a) (f' b) s₁ t₁) :
    Together g₀ env₀ (x >>= f) (y >>= f') s t := by
  by_cases hx : Succeeds x s
  · obtain ⟨b, t₁, hb⟩ := hends.mp hx
    obtain ⟨a, s₁, ha⟩ := hx
    exact of_eq (bind_of_run ha) (bind_of_run hb) (h a s₁ b t₁ ha hb)
  · have hbind : ¬ Succeeds (x >>= f) s := by
      rintro ⟨u, s', hrun⟩
      obtain ⟨a, s₁, ha, -⟩ := bind_run.mp hrun
      exact hx ⟨a, s₁, ha⟩
    have hbind' : ¬ Succeeds (y >>= f') t := by
      rintro ⟨u, t', hrun⟩
      obtain ⟨b, t₁, hb, -⟩ := bind_run.mp hrun
      exact hx (hends.mpr ⟨b, t₁, hb⟩)
    refine ⟨iff_of_false hbind hbind', fun s' t' hrun => ?_⟩
    exact absurd ⟨(), s', hrun⟩ hbind

/-- Turns that go together from wherever the matches are abreast. -/
theorem forM {α : Type} {f : α → MatchM Unit} {as : List α}
    (hturn : ∀ a ∈ as, ∀ s t, Abreast g₀ env₀ s t →
      Together g₀ env₀ (f a) (f a) s t) (h : Abreast g₀ env₀ s t) :
    Together g₀ env₀ (as.forM f) (as.forM f) s t := by
  induction as generalizing s t with
  | nil =>
      refine of_succeeds (.pure _ _) (.pure _ _) fun s' t' hs ht => ?_
      cases hs
      cases ht
      exact h
  | cons a as ih =>
      rw [List.forall_mem_cons] at hturn
      have hfirst := hturn.1 s t h
      refine bind hfirst.ends fun _ s₁ _ t₁ hs ht => ?_
      exact ih hturn.2 (hfirst.abreast s₁ t₁ hs ht)

end Together

-- ================================================================ levels

/-- What a level does with twins, it does together. -/
def KeepsAbreast (g₀ : Graph) (env₀ : Bindings)
    (descend : TypeId → TypeId → Variance → MatchM Unit) : Prop :=
  ∀ e a b v s t, e.index < g₀.size → Abreast g₀ env₀ s t →
    Twins g₀ s.graph t.graph a b →
    Together g₀ env₀ (descend e a v) (descend e b v) s t

/-- Going further down is following a plan. -/
theorem goDown_run {f : TypeId → TypeId → Variance → MatchM Unit}
    {expected actual : TypeId} {variance : Variance} {node : Node}
    (h : goDown ctx (some f) expected actual variance node s = .ok () s') :
    ∃ kind plan, s.graph.kind actual = .ok kind ∧
      Matching.plan s.graph ctx.checker ctx.config.maxDepth variance
        expected node.kind actual kind = .ok plan ∧
      followPlan f expected actual plan
        { s with visited := expected :: s.visited } = .ok () s' := by
  obtain ⟨_, s₁, hmodify, h⟩ := bind_run.mp h
  cases modify_run.mp hmodify
  obtain ⟨plan, s₁, hinspect, h⟩ := bind_run.mp h
  obtain ⟨work, hinspect', rfl⟩ := onWork_run.mp hinspect
  obtain ⟨hplan, rfl⟩ := WorkM.inspect_run.mp hinspect'
  obtain ⟨kind, hkind, hplan⟩ := bind_eq_ok.mp hplan
  exact ⟨kind, plan, hkind, hplan, h⟩

/-- Both sides say something and change no types. -/
theorem Abreast.says (h : Abreast g₀ env₀ s t) {x y : WorkM Unit}
    (hx : Succeeds x s.work) (hy : Succeeds y t.work)
    (htypes : ∀ work, x s.work = .ok () work →
      work.types = s.work.types)
    (htypes' : ∀ work, y t.work = .ok () work →
      work.types = t.work.types) :
    Together g₀ env₀ (onWork x) (onWork y) s t := by
  refine .of_succeeds (onWork_succeeds hx) (onWork_succeeds hy) ?_
  intro s' t' hs ht
  obtain ⟨work, hwork, rfl⟩ := onWork_run.mp hs
  obtain ⟨work', hwork', rfl⟩ := onWork_run.mp ht
  exact h.said (htypes work hwork) (htypes' work' hwork')

variable (hg₀ : g₀.WellFormed)
include hg₀

/-- Both sides follow the same plan. -/
theorem Abreast.followPlan
    {f : TypeId → TypeId → Variance → MatchM Unit}
    (hf : KeepsAbreast g₀ env₀ f) {plan : Plan}
    (hpairs : ∀ pairings, plan = .pairs pairings →
      (∀ p ∈ pairings, p.expected.index < g₀.size) ∧
        Draws (·.index < g₀.size) pairings)
    (h : Abreast g₀ env₀ s t) {expected a b : TypeId}
    (hexpected : expected.index < g₀.size)
    (hab : Twins g₀ s.graph t.graph a b) :
    Together g₀ env₀ (followPlan f expected a plan)
      (followPlan f expected b plan) s t := by
  cases plan with
  | generalUnions =>
      exact h.says (WorkM.tell_succeeds (.ok _))
        (WorkM.tell_succeeds (.ok _)) (fun _ => WorkM.tell_types)
        (fun _ => WorkM.tell_types)
  | unpaired =>
      obtain ⟨ha, hb⟩ := h.lt hg₀ hab
      exact h.says
        (WorkM.tell_succeeds (h.readyLeft.unpaired_returns
          (h.left.nodes.lt hexpected) ha))
        (WorkM.tell_succeeds (h.readyRight.unpaired_returns
          (h.right.nodes.lt hexpected) hb))
        (fun _ => WorkM.tell_types) (fun _ => WorkM.tell_types)
  | pairs pairings =>
      obtain ⟨hparts, hdraws⟩ := hpairs pairings rfl
      -- each turn starts from states that are abreast, not from the first
      -- ones
      refine Together.forM (fun p hp s t h => ?_) h
      have hids := hdraws p hp
      have hmade := Source.resolve_succeeds
        h.readyLeft.graph.closed.closedOn
        fun id hid => h.left.nodes.lt (hids id hid)
      have hmade' := Source.resolve_succeeds
        h.readyRight.graph.closed.closedOn
        fun id hid => h.right.nodes.lt (hids id hid)
      refine .bind (iff_of_true (onWork_succeeds hmade)
        (onWork_succeeds hmade')) fun made s₁ made' t₁ hs ht => ?_
      obtain ⟨work, hresolve, rfl⟩ := onWork_run.mp hs
      obtain ⟨work', hresolve', rfl⟩ := onWork_run.mp ht
      obtain ⟨hgrown, htwins⟩ := h.resolve hg₀ hids hresolve hresolve'
      cases htwins with
      | none =>
          refine .of_succeeds (.pure _ _) (.pure _ _) fun s' t' hs ht => ?_
          cases hs
          cases ht
          exact hgrown
      | some htwins => exact hf _ _ _ _ _ _ (hparts p hp) hgrown htwins

/-- Both sides come to the same plan, or to none. -/
theorem Abreast.goDown (hchecker : ctx.checker = .structural)
    {descend : Option (TypeId → TypeId → Variance → MatchM Unit)}
    (hdescend : ∀ f ∈ descend, KeepsAbreast g₀ env₀ f)
    {expected a b : TypeId} {node : Node} (variance : Variance)
    (hexpected : expected.index < g₀.size)
    (hnode : g₀.node? expected = some node)
    (h : Abreast g₀ env₀ s t) (hab : Twins g₀ s.graph t.graph a b) :
    Together g₀ env₀ (goDown ctx descend expected a variance node)
      (goDown ctx descend expected b variance node) s t := by
  cases descend with
  | none =>
      refine h.says ?_ ?_
        (fun _ hlimit =>
          (WorkM.reportLimit_run (by simp [Event.level]) hlimit).2.2)
        (fun _ hlimit =>
          (WorkM.reportLimit_run (by simp [Event.level]) hlimit).2.2)
      · exact WorkM.reportLimit_succeeds (Graph.render_returns
          h.readyLeft.graph.closed.closedOn (h.left.nodes.lt hexpected))
      · exact WorkM.reportLimit_succeeds (Graph.render_returns
          h.readyRight.graph.closed.closedOn (h.right.nodes.lt hexpected))
  | some f =>
      obtain ⟨own, hn, hn', -⟩ := hab.node hg₀.closed h.left h.right
      have hkind : s.graph.kind a = .ok own.kind :=
        Graph.kind_eq_ok.mpr ⟨own, hn, rfl⟩
      obtain ⟨-, hplans⟩ := plan_twins hg₀ h.left h.right hexpected
        hnode hab hkind ctx.config.maxDepth variance
      rw [← hchecker] at hplans
      cases hplan : plan s.graph ctx.checker ctx.config.maxDepth variance
          expected node.kind a own.kind with
      | error fault =>
          -- no plan on one side is none on the other, for the same reason
          exact .of_faults (goDown_of_fault hn hplan)
            (goDown_of_fault hn' (hplans.trans hplan))
      | ok plan =>
          refine .of_eq (goDown_of_plan hn hplan)
            (goDown_of_plan hn' (hplans.trans hplan)) ?_
          refine (h.enter expected).followPlan hg₀ (hdescend f rfl) ?_
            hexpected hab
          rintro pairings rfl
          rw [hchecker] at hplan
          exact plan_draws_twins hg₀ h.left h.right hexpected hnode hab
            hkind hplan

/-- A marker meets twins. -/
theorem Abreast.bindMarker (hchecker : ctx.checker = .structural)
    {marker a b : TypeId} (hmarker : marker.index < g₀.size)
    (key : MarkerKey) (variance : Variance) (h : Abreast g₀ env₀ s t)
    (hab : Twins g₀ s.graph t.graph a b) :
    Together g₀ env₀ (bindMarker ctx marker key a variance)
      (bindMarker ctx marker key b variance) s t := by
  obtain ⟨ha, hb⟩ := h.lt hg₀ hab
  have htotal : ctx.checker.Total := hchecker ▸ Checker.structural_total
  refine .of_succeeds
    (h.readyLeft.bindMarker_succeeds htotal (h.left.nodes.lt hmarker) ha
      key variance)
    (h.readyRight.bindMarker_succeeds htotal (h.right.nodes.lt hmarker) hb
      key variance) fun s' t' hs ht => ?_
  exact h.meets hg₀ hab (bindMarker_ending hs) (bindMarker_ending ht)

/-- One level keeps the matches abreast if the levels below do. -/
theorem Abreast.matchStep (hchecker : ctx.checker = .structural)
    {descend : Option (TypeId → TypeId → Variance → MatchM Unit)}
    (hdescend : ∀ f ∈ descend, KeepsAbreast g₀ env₀ f) :
    KeepsAbreast g₀ env₀ (matchStep ctx descend) := by
  intro expected a b variance s t hexpected h hab
  obtain ⟨node, hnode⟩ := Graph.exists_node_of_lt hexpected
  by_cases hvisited : expected ∈ s.visited
  · have hvisited' : expected ∈ t.visited := by
      rw [h.visited]
      exact hvisited
    refine .of_eq (matchStep_of_visited hvisited a variance)
      (matchStep_of_visited hvisited' b variance) ?_
    exact h.says (WorkM.tell_succeeds (.ok _))
      (WorkM.tell_succeeds (.ok _)) (fun _ => WorkM.tell_types)
      (fun _ => WorkM.tell_types)
  · have hvisited' : expected ∉ t.visited := by
      rw [h.visited]
      exact hvisited
    refine .of_eq
      (matchStep_of_unvisited hvisited (h.left.nodes _ _ hnode) a variance)
      (matchStep_of_unvisited hvisited' (h.right.nodes _ _ hnode) b
        variance) ?_
    unfold meet
    cases hkey : node.markerKey? with
    | some key => exact h.bindMarker hg₀ hchecker hexpected key variance hab
    | none =>
        by_cases hne : a = .noType
        · simp only [if_pos hne, if_pos ((hab.eq_noType hg₀).mp hne)]
          refine .of_succeeds
            (reportUnbound_succeeds h.readyLeft
              (h.left.nodes.lt hexpected))
            (reportUnbound_succeeds h.readyRight
              (h.right.nodes.lt hexpected)) fun s' t' hs ht => ?_
          obtain ⟨_, work, _, hreports, rfl⟩ := reportUnbound_run hs
          obtain ⟨_, work', _, hreports', rfl⟩ := reportUnbound_run ht
          exact h.said (types_of_reports hreports)
            (types_of_reports hreports')
        · simp only [if_neg hne, if_neg (mt (hab.eq_noType hg₀).mpr hne)]
          by_cases hleaf : node.kind.isLeaf = true
          · simp only [if_pos hleaf]
            refine .of_succeeds (.pure _ _) (.pure _ _)
              fun s' t' hs ht => ?_
            cases hs
            cases ht
            exact h
          · simp only [if_neg hleaf]
            exact h.goDown hg₀ hchecker hdescend variance hexpected hnode
              hab

/-- Matches of twins stay abreast. -/
theorem matchTypes_abreast (hchecker : ctx.checker = .structural)
    (depth : Nat) : KeepsAbreast g₀ env₀ (matchTypes ctx depth) := by
  induction depth with
  | zero =>
      refine Abreast.matchStep hg₀ hchecker fun f hf => ?_
      cases hf
  | succ depth ih =>
      refine Abreast.matchStep hg₀ hchecker fun f hf => ?_
      cases hf
      exact ih

end TypeParams.Matching
