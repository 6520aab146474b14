/-
How deep a match nests.

A match follows a declared type once, so inside each other it follows
different types with parts. All of them are among what the type that it
started from is made of, whatever they meet. So a match never nests
deeper than there are such types, and one call more for what is not
followed, however many levels it is allowed (`matchCapped_eq`).

# Caps

The number of levels is a parameter of the match and not the bound: it
may be a million. So the bound is stated for a match under a cap, which
counts calls inside each other apart from levels, and does anything at
all below. The two have the same result, whatever is done below the cap,
hence nothing is.

# Room

`State.Room` is the invariant: what has been followed and what the cap
still gives add up to the types with parts, and one more. Following a
type takes one from the cap and adds one to what has been followed.
Coming back up leaves the types on the list, so the parts that come next
have more room than they need.
-/
import TypeParams.Proofs.Commuting
import TypeParams.Proofs.Matching.Bindings
import TypeParams.Proofs.Nesting

namespace TypeParams.Matching

variable {ctx : Context} {g : Graph} {declared expected actual : TypeId}
variable {variance : Variance} {s s' : State}

/-- Matching under a cap. -/
def matchCapped (ctx : Context)
    (deeper : TypeId → TypeId → Variance → MatchM Unit) :
    Nat → Nat → TypeId → TypeId → Variance → MatchM Unit
  | 0, _ => deeper
  | _ + 1, 0 => matchStep ctx none
  | cap + 1, depth + 1 =>
      matchStep ctx (some (matchCapped ctx deeper cap depth))

/-- The types followed so far are different ones with parts that the
declared type is made of. -/
structure State.Follows (g : Graph) (declared : TypeId) (s : State) :
    Prop where
  graph : g.Extends s.graph
  nodup : s.visited.Nodup
  composite : ∀ id ∈ s.visited, id ∈ g.composites declared

/-- No more types are followed than there are. -/
theorem State.Follows.length_le (h : s.Follows g declared) :
    s.visited.length ≤ (g.composites declared).ncard :=
  length_le_ncard (g.composites_finite declared) h.nodup h.composite

/-- Nothing is followed meanwhile. -/
theorem State.Follows.grow (h : s.Follows g declared)
    (hgraph : s.graph.Extends s'.graph) (hvisited : s'.visited = s.visited) :
    s'.Follows g declared := by
  refine ⟨h.graph.trans hgraph, ?_, ?_⟩
  · rw [hvisited]
    exact h.nodup
  · rw [hvisited]
    exact h.composite

theorem State.Follows.of_types (h : s.Follows g declared)
    {work : Workspace} (htypes : work.types = s.work.types) :
    ({ s with work } : State).Follows g declared := by
  refine h.grow ?_ rfl
  show s.work.types.graph.Extends work.types.graph
  rw [htypes]
  exact .refl _

/-- A marker that meets a type follows none. -/
theorem MarkerEnding.visited_eq {marker : TypeId} {key : MarkerKey}
    (h : MarkerEnding ctx marker key actual variance s s') :
    s'.visited = s.visited := by
  cases h with
  | binds | agrees | clashes | skipped | uninferred => rfl

section Followed

variable (hg : g.Closed) (hdeclared : declared.index < g.size)
include hg hdeclared

/-- What the declared type is made of has its nodes from the start. -/
theorem node?_of_reaches (hext : g.Extends s.graph)
    (hreach : g.Reaches declared expected) :
    s.graph.node? expected = g.node? expected :=
  hext.node?_eq (hg.reaches hdeclared hreach)

/-- A type with parts that was not followed before can be followed. -/
theorem State.Follows.visit (h : s.Follows g declared)
    (hreach : g.Reaches declared expected) {node : Node}
    (hvisited : expected ∉ s.visited)
    (hn : s.graph.node? expected = some node)
    (hleaf : node.kind.isLeaf = false) :
    ({ s with visited := expected :: s.visited } : State).Follows g
      declared := by
  refine ⟨h.graph, List.nodup_cons.mpr ⟨hvisited, h.nodup⟩, ?_⟩
  rw [List.forall_mem_cons]
  refine ⟨⟨hreach, node, ?_, hleaf⟩, h.composite⟩
  rw [← node?_of_reaches hg hdeclared h.graph hreach]
  exact hn

/-- A match follows further types, and forgets none. -/
theorem Matches.follows (h : Matches ctx expected actual variance s s')
    (hs : s.Follows g declared) (hreach : g.Reaches declared expected) :
    s'.Follows g declared ∧ s.visited <:+ s'.visited := by
  revert hs hreach
  refine match_induction (motive := fun expected _ _ s s' =>
    s.Follows g declared → g.Reaches declared expected →
    s'.Follows g declared ∧ s.visited <:+ s'.visited) ?_ h
  intro expected actual variance s s' hend hs hreach
  cases hend with
  | again _ htell => exact ⟨hs.of_types htell.types, List.suffix_rfl⟩
  | marker _ hnode hkey hmarker =>
      have hvisited := hmarker.visited_eq
      refine ⟨hs.grow (hmarker.grows hnode hkey).graph hvisited, ?_⟩
      rw [hvisited]
  | missing _ _ _ _ _ hreports =>
      exact ⟨hs.of_types (types_of_reports hreports), List.suffix_rfl⟩
  | leaf => exact ⟨hs, List.suffix_rfl⟩
  | stopped _ _ _ _ _ _ _ htypes =>
      exact ⟨hs.of_types htypes, List.suffix_rfl⟩
  | @followed node actualNode plan s' hvisited hnode _ _ hleaf _ hplan
      hfollows =>
      have hvisit := hs.visit hg hdeclared hreach hvisited hnode hleaf
      have hsuffix : s.visited <:+ expected :: s.visited :=
        List.suffix_cons ..
      cases hfollows with
      | generalUnions htell =>
          exact ⟨hvisit.of_types htell.types, hsuffix⟩
      | unpaired htell => exact ⟨hvisit.of_types htell.types, hsuffix⟩
      | @pairs pairings s₁ s₂ hpairs =>
          have hparts := plan_expected hnode hplan
          rw [node?_of_reaches hg hdeclared hs.graph hreach] at hnode
          refine hpairs.keeps (I := fun s₁ => s₁.Follows g declared ∧
            s.visited <:+ s₁.visited) ?_ ⟨hvisit, hsuffix⟩
          intro pairing hmem s₁ s₂ hs₁ hmeets
          obtain ⟨source, work, hresolve, hmeets⟩ := hmeets
          have hmade : ({ s₁ with work } : State).Follows g declared :=
            hs₁.1.grow (Source.resolve_extends hresolve) rfl
          cases source with
          | none =>
              cases hmeets
              exact ⟨hmade, hs₁.2⟩
          | some actual =>
              obtain ⟨hfollows, hkeeps⟩ := hmeets.2 hmade
                (hreach.step ⟨node, hnode, hparts pairing hmem⟩)
              exact ⟨hfollows, hs₁.2.trans hkeeps⟩

-- ============================================================= the cap

/-- The cap leaves room for all that has not been followed, and one call
more. -/
structure State.Room (g : Graph) (declared : TypeId) (cap : Nat)
    (s : State) : Prop extends s.Follows g declared where
  room : (g.composites declared).ncard + 1 ≤ s.visited.length + cap

omit hg hdeclared in
/-- Following types leaves room for what has not been followed. -/
theorem State.Room.grow {cap : Nat} (h : s.Room g declared cap)
    (hfollows : s'.Follows g declared)
    (hkeeps : s.visited <:+ s'.visited) : s'.Room g declared cap := by
  have hroom := h.room
  have hle := hkeeps.length_le
  exact ⟨hfollows, by omega⟩

/-- Following one type more takes up what the cap gives for it. -/
theorem State.Room.visit {cap : Nat} (h : s.Room g declared (cap + 1))
    (hreach : g.Reaches declared expected) {node : Node}
    (hvisited : expected ∉ s.visited)
    (hn : s.graph.node? expected = some node)
    (hleaf : node.kind.isLeaf = false) :
    ({ s with visited := expected :: s.visited } : State).Room g declared
      cap := by
  refine ⟨h.toFollows.visit hg hdeclared hreach hvisited hn hleaf, ?_⟩
  have hroom := h.room
  rw [List.length_cons]
  omega

omit hg hdeclared in
/-- Going further down depends on the levels below as far as the plan
does. -/
theorem goDown_congr {node : Node}
    {f f' : TypeId → TypeId → Variance → MatchM Unit}
    (h : ∀ kind plan, s.graph.kind actual = .ok kind →
      Matching.plan s.graph ctx.checker ctx.config.maxDepth variance
        expected node.kind actual kind = .ok plan →
      followPlan f expected actual plan
          { s with visited := expected :: s.visited }
        = followPlan f' expected actual plan
          { s with visited := expected :: s.visited }) :
    goDown ctx (some f) expected actual variance node s
      = goDown ctx (some f') expected actual variance node s := by
  show (onWork (.inspect fun g => _) >>= _)
      { s with visited := expected :: s.visited }
    = (onWork (.inspect fun g => _) >>= _)
      { s with visited := expected :: s.visited }
  cases hinspect : onWork (.inspect fun g => do
      Matching.plan g ctx.checker ctx.config.maxDepth variance expected
        node.kind actual (← g.kind actual))
      { s with visited := expected :: s.visited } with
  | error fault s₁ => rw [bind_of_fault hinspect, bind_of_fault hinspect]
  | ok plan s₁ =>
      rw [bind_of_run hinspect, bind_of_run hinspect]
      obtain ⟨work, hinspect', rfl⟩ := onWork_run.mp hinspect
      obtain ⟨hplan, rfl⟩ := WorkM.inspect_run.mp hinspect'
      obtain ⟨kind, hkind, hplan⟩ := bind_eq_ok.mp hplan
      exact h kind plan hkind hplan

/-- A plan is followed alike under a cap that leaves room for its
pairings. -/
theorem followPlan_capped {node : Node} {plan : Plan}
    (hnode : g.node? expected = some node)
    (hreach : g.Reaches declared expected)
    (hparts : ∀ pairings, plan = .pairs pairings →
      Pairs node.kind.children pairings) {depth cap : Nat}
    {descend : TypeId → TypeId → Variance → MatchM Unit}
    (hdescend : ∀ e a v s, g.Reaches declared e →
      s.Room g declared cap → descend e a v s = matchTypes ctx depth e a v s)
    (hs : s.Room g declared cap) :
    followPlan descend expected actual plan s
      = followPlan (matchTypes ctx depth) expected actual plan s := by
  cases plan with
  | generalUnions => rfl
  | unpaired => rfl
  | pairs pairings =>
      refine Shadows.eq (P := State.Room g declared cap)
        (.forM fun pairing hmem => ?_) hs
      have hpart : g.Reaches declared pairing.expected :=
        hreach.step ⟨node, hnode, hparts pairings rfl pairing hmem⟩
      refine .bind (Q := fun _ => State.Room g declared cap)
        (.of_eq (fun _ _ => rfl) ?_) fun made => ?_
      · intro s made s₁ hs hmake
        obtain ⟨work, hresolve, rfl⟩ := onWork_run.mp hmake
        exact hs.grow
          (hs.toFollows.grow (Source.resolve_extends hresolve) rfl)
          List.suffix_rfl
      · cases made with
        | none => exact .pure fun _ hs => hs
        | some actual =>
            refine .of_eq (fun s hs => hdescend _ _ _ s hpart hs) ?_
            intro s u s₁ hs hrun
            obtain ⟨hfollows, hkeeps⟩ := Matches.follows hg hdeclared
              ⟨depth, hrun⟩ hs.toFollows hpart
            exact hs.grow hfollows hkeeps

/-- A match under a cap that leaves room for all that it can follow is
the match: it never gets to the cap. -/
theorem matchCapped_eq
    (deeper : TypeId → TypeId → Variance → MatchM Unit) {cap : Nat}
    (depth : Nat) (hs : s.Room g declared cap)
    (hreach : g.Reaches declared expected) (actual : TypeId)
    (variance : Variance) :
    matchCapped ctx deeper cap depth expected actual variance s
      = matchTypes ctx depth expected actual variance s := by
  induction cap generalizing depth expected actual variance s with
  | zero =>
      -- more types would have been followed than there are
      have hle := hs.length_le
      have hroom := hs.room
      omega
  | succ cap ih =>
      cases depth with
      | zero => rfl
      | succ depth =>
          show matchStep ctx (some (matchCapped ctx deeper cap depth))
              expected actual variance s
            = matchStep ctx (some (matchTypes ctx depth)) expected actual
                variance s
          by_cases hvisited : expected ∈ s.visited
          · rw [matchStep_of_visited hvisited,
              matchStep_of_visited hvisited]
          · obtain ⟨node, hn⟩ :=
              Graph.exists_node_of_lt (hg.reaches hdeclared hreach)
            have hn' := hn
            rw [← node?_of_reaches hg hdeclared hs.graph hreach] at hn'
            rw [matchStep_of_unvisited hvisited hn',
              matchStep_of_unvisited hvisited hn']
            unfold meet
            cases node.markerKey? with
            | some key => rfl
            | none =>
                by_cases hactual : actual = .noType
                · simp only [if_pos hactual]
                · simp only [if_neg hactual]
                  by_cases hleaf : node.kind.isLeaf = true
                  · simp only [if_pos hleaf]
                  · simp only [if_neg hleaf]
                    have hvisit := hs.visit hg hdeclared hreach hvisited
                      hn' (Bool.eq_false_iff.mpr hleaf)
                    refine goDown_congr fun kind plan _ hplan => ?_
                    refine followPlan_capped hg hdeclared hn hreach ?_ ?_
                      hvisit
                    · intro pairings hpairs
                      rw [hpairs] at hplan
                      exact plan_expected hn' hplan
                    · exact fun e a v s he hs => ih depth hs he a v

end Followed

end TypeParams.Matching
