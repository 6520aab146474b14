/-
Instantiation keeps the shape of a type.

What a type of finite shape is instantiated to has that shape, with each
marker replaced by what it is bound to (`resolve_shaped`).

# Why every rebuilt type is new

No type of such a shape is met inside itself, because going round would
make the shape go down for ever (`Graph.Shaped.not_below_self`). So no
frame is ever given an id, every rebuilt type is a new one, and frames
are the same after a type was resolved as before. That is a good deal
simpler than what holds of instantiation in general, and is why shapes
are treated apart.

# The last level

A type that is met below the last level is left as it is; if the levels
suffice for the shape, or there are no markers, this makes no
difference. The two go together in one hypothesis, because the parts of
a type may fall under either.
-/
import TypeParams.Proofs.Instantiation.Levels
import TypeParams.Proofs.Places

namespace TypeParams.Instantiation

variable {ctx : Context} {s s' : State} {declared y : TypeId} {node : Node}
variable {descend : Option (TypeId → InstantiateM TypeId)}

-- ============================================================ one level

/-- A type that is no marker and not being rebuilt stands for itself, or
is rebuilt unless there are no levels left. -/
theorem resolveStep_of_unmarked {itself : Bool}
    (hnode : s.graph.node? declared = some node)
    (hmarker : node.isMarker = false)
    (hopen : ∀ f ∈ s.frames, f.declared ≠ declared)
    (hself : standsForItself declared node.kind s.work
      = .ok itself s.work) :
    resolveStep ctx descend declared s =
      (if itself then return declared
      else
        match descend with
        | some descend => rebuild descend declared node
        | none => do
            onWork (.reportLimit ctx.config ctx.span
              .instantiationStopped declared)
            return declared : InstantiateM TypeId) s := by
  have hread : onWork (.node declared) s = .ok node s :=
    onWork_run.mpr ⟨s.work, WorkM.node_run.mpr ⟨hnode, rfl⟩, rfl⟩
  have hany : s.frames.any (·.declared == declared) = false := by
    simpa using hopen
  have htest : onWork (standsForItself declared node.kind) s
      = .ok itself s := onWork_run.mpr ⟨s.work, hself, rfl⟩
  unfold resolveStep
  rw [bind_of_run hread, Node.markerKey?_of_unmarked hmarker]
  simp only
  rw [bind_of_run (show (get : InstantiateM State) s = .ok s s from rfl),
    hany]
  simp only [Bool.false_eq_true, if_false]
  refine (bind_of_run htest).trans ?_
  cases descend <;> rfl

/-- A leaf stands for itself. -/
theorem standsForItself_of_isLeaf {kind : Kind} {w : Workspace}
    (h : kind.isLeaf = true) :
    standsForItself declared kind w = .ok true w := by
  cases kind with
  | leaf => rfl
  | array | tuple | map | record | union | error | stream | table
  | function | object | typedesc | xml => cases h

/-- An array, a tuple or a function does not. -/
theorem standsForItself_of_congruent {kind other : Kind} {w : Workspace}
    (h : kind.Congruent other) :
    standsForItself declared kind w = .ok false w := by
  cases h <;> rfl

/-- The form of a rebuilt type that is no union is the declared one over
the new parts. -/
theorem rebuiltKind_of_congruent {kind other : Kind}
    (h : kind.Congruent other) {parts : List TypeId}
    (hlen : parts.length = kind.children.length) :
    rebuiltKind kind parts = kind.withChildren parts := by
  have hform := h.withChildren hlen
  unfold rebuiltKind
  generalize kind.withChildren parts = kind' at hform
  cases hform <;> rfl

/-- A frame that was not given an id ends with a new type. -/
theorem settle_of_congruent {s₁ s₂ : State} {slot : Option TypeId}
    {frames : List Frame} {kind other : Kind} {rebuilt : Node}
    (hframes : s₁.frames = { declared } :: frames)
    (hleave : leave s₁ = .ok slot s₂) (hkind : kind.Congruent other)
    (hrebuilt : rebuilt.kind = other)
    (h : settle slot rebuilt s₂ = .ok y s') :
    s'.frames = frames ∧ s₁.graph.Extends s'.graph ∧
      s'.graph.node? y = some rebuilt := by
  unfold leave at hleave
  rw [hframes] at hleave
  cases hleave
  have hplace : settle none rebuilt = onWork (place none rebuilt) := by
    unfold settle
    rw [hrebuilt]
    cases hkind <;> rfl
  rw [hplace] at h
  obtain ⟨work, hrun, rfl⟩ := onWork_run.mp h
  obtain ⟨rfl, rfl⟩ := WorkM.alloc_run.mp hrun
  have hgraph : (s₁.work.types.alloc rebuilt).2.graph
      = s₁.graph.push rebuilt := Layer.graph_alloc_eq _ _
  refine ⟨rfl, ?_, ?_⟩
  · change s₁.graph.Extends (s₁.work.types.alloc rebuilt).2.graph
    rw [hgraph]
    exact s₁.graph.extends_push rebuilt
  · change (s₁.work.types.alloc rebuilt).2.graph.node? _ = _
    rw [hgraph, Layer.nextId_eq]
    exact s₁.graph.node?_push_self rebuilt

-- =========================================================== all levels

variable {g₀ : Graph} {M : Place → MarkerKey → TypeId → Prop}

/-- A marker was replaced by what it is bound to. -/
def Replaced (env : Bindings) (_ : Place) (key : MarkerKey)
    (id : TypeId) : Prop :=
  env.lookup? key = some id

/-- A type is below all that are being rebuilt. -/
def State.Above (g₀ : Graph) (s : State) (declared : TypeId) : Prop :=
  ∀ f ∈ s.frames, Relation.TransGen g₀.Below f.declared declared

/-- What the types at a place are resolved to has their shape. -/
def KeepsShape (ctx : Context) (g₀ : Graph)
    (M : Place → MarkerKey → TypeId → Prop) (height depth : Nat) : Prop :=
  ∀ place id s y s', g₀.Shaped M height place id →
    (height ≤ depth + 1 ∨ g₀.MarkerFree place.id) →
    g₀.Extends s.graph → s.Above g₀ place.id →
    resolve ctx depth place.id s = .ok y s' →
    s.graph.Extends s'.graph ∧ s'.frames = s.frames ∧
      s'.graph.Shaped (Replaced ctx.env) height place y

/-- The parts of a type keep their shapes, one after the other. -/
theorem KeepsShape.threads {height depth : Nat}
    (hkeeps : KeepsShape ctx g₀ M height depth) {places : List Place}
    {ids ys : List TypeId}
    (hshaped : List.Forall₂ (g₀.Shaped M height) places ids)
    (hlevels : ∀ p ∈ places, height ≤ depth + 1 ∨ g₀.MarkerFree p.id)
    (hext : g₀.Extends s.graph) (habove : ∀ p ∈ places, s.Above g₀ p.id)
    (h : Threads (fun d s y s' => resolve ctx depth d s = .ok y s')
      (places.map (·.id)) s ys s') :
    s.graph.Extends s'.graph ∧ s'.frames = s.frames ∧
      List.Forall₂ (s'.graph.Shaped (Replaced ctx.env) height) places
        ys := by
  induction hshaped generalizing s ys with
  | nil =>
      cases h
      exact ⟨.refl _, rfl, .nil⟩
  | @cons place id places ids hfirst _ ih =>
      rw [List.forall_mem_cons] at hlevels habove
      rw [List.map_cons] at h
      cases h with
      | @cons _ _ y ys _ s₁ _ hrun hrest =>
          obtain ⟨hext₁, hframes₁, hy⟩ :=
            hkeeps _ _ _ _ _ hfirst hlevels.1 hext habove.1 hrun
          have habove₁ : ∀ p ∈ places, s₁.Above g₀ p.id := by
            unfold State.Above
            rw [hframes₁]
            exact habove.2
          obtain ⟨hext₂, hframes₂, hys⟩ :=
            ih hlevels.2 (hext.trans hext₁) habove₁ hrest
          exact ⟨hext₁.trans hext₂, hframes₂.trans hframes₁,
            .cons (hy.extends hext₂) hys⟩

/-- A shape without parts below the level has no markers at all. -/
theorem markerFree_of_height_one {place : Place} {id : TypeId}
    (h : g₀.Shaped M 1 place id) {node : Node}
    (hnode : g₀.node? place.id = some node)
    (hmarker : node.isMarker = false) : g₀.MarkerFree place.id := by
  refine .of_children hnode hmarker fun c hc => ?_
  obtain ⟨height, hlt, place', id', rfl, h'⟩ :=
    h.below ⟨node, hnode, hmarker, hc⟩
  cases Nat.lt_one_iff.mp hlt
  cases h'

/-- A type that is being followed is none of those being rebuilt. -/
theorem State.Above.not_open {place : Place} {id : TypeId} {height : Nat}
    (habove : s.Above g₀ place.id) (h : g₀.Shaped M height place id) :
    ∀ f ∈ s.frames, f.declared ≠ place.id := by
  intro f hf hd
  have hself := habove f hf
  rw [hd] at hself
  exact h.not_below_self hself

/-- One more level of a shape. -/
theorem KeepsShape.rebuild {height depth : Nat}
    (hkeeps : KeepsShape ctx g₀ M height depth) {place : Place}
    {node other : Node} (hnode : g₀.node? place.id = some node)
    (hmarker : node.isMarker = false)
    (hcongruent : node.kind.Congruent other.kind)
    (hparts : List.Forall₂ (g₀.Shaped M height) (place.parts node.kind)
      other.kind.children)
    (hlevels : height ≤ depth + 1 ∨ g₀.MarkerFree place.id)
    (hext : g₀.Extends s.graph) (habove : s.Above g₀ place.id)
    (h : Instantiation.rebuild (resolve ctx depth) place.id node s
      = .ok y s') :
    s.graph.Extends s'.graph ∧ s'.frames = s.frames ∧
      s'.graph.Shaped (Replaced ctx.env) (height + 1) place y := by
  obtain ⟨keeps, parts, s₁, slot, s₂, -, hthreads, hleave, hsettle⟩ :=
    rebuild_run h
  have hlen := hthreads.length_eq
  rw [← hcongruent.map_parts place] at hthreads
  have hlevels' : ∀ p ∈ place.parts node.kind,
      height ≤ depth + 1 ∨ g₀.MarkerFree p.id :=
    fun p hp => hlevels.imp_right fun hfree =>
      hfree.child hnode (hcongruent.mem_parts hp)
  have habove' : ∀ p ∈ place.parts node.kind, State.Above g₀
      { s with frames := { declared := place.id } :: s.frames } p.id := by
    intro p hp
    have hbelow : g₀.Below place.id p.id :=
      ⟨node, hnode, hmarker, hcongruent.mem_parts hp⟩
    exact List.forall_mem_cons.mpr
      ⟨.single hbelow, fun f hf => (habove f hf).tail hbelow⟩
  obtain ⟨hext₁, hframes₁, hshaped⟩ :=
    hkeeps.threads
      (s := { s with frames := { declared := place.id } :: s.frames })
      hparts hlevels' hext habove' hthreads
  have hform := hcongruent.withChildren hlen
  have hkind := rebuiltKind_of_congruent hcongruent hlen
  -- the frame was not given an id, so the result is a new type
  obtain ⟨hframes₂, hext₂, hy⟩ := settle_of_congruent hframes₁ hleave
    hform (show (rebuiltNode node keeps parts).kind = _ from hkind) hsettle
  refine ⟨hext₁.trans hext₂, hframes₂, ?_⟩
  refine .branch (hext₂ _ _ (hext₁ _ _ (hext _ _ hnode))) hmarker hy ?_ ?_
  · change node.kind.Congruent (rebuiltKind node.kind parts)
    rw [hkind]
    exact hform
  · change List.Forall₂ _ _ (rebuiltKind node.kind parts).children
    rw [hkind, Kind.children_withChildren _ hlen]
    exact hshaped.imp fun _ _ h => h.extends hext₂

/-- A type that is left as it is. -/
theorem KeepsShape.stop {height : Nat} {place : Place} {id : TypeId}
    (hshape : g₀.Shaped M height place id)
    (hfree : g₀.MarkerFree place.id) (hext : g₀.Extends s.graph)
    (h : (do
      onWork (.reportLimit ctx.config ctx.span .instantiationStopped
        place.id)
      return place.id : InstantiateM TypeId) s = .ok y s') :
    s.graph.Extends s'.graph ∧ s'.frames = s.frames ∧
      s'.graph.Shaped (Replaced ctx.env) height place y := by
  obtain ⟨_, s₁, hreport, h⟩ := bind_run.mp h
  obtain ⟨rfl, rfl⟩ := pure_run.mp h
  obtain ⟨work, hrun, rfl⟩ := onWork_run.mp hreport
  obtain ⟨-, -, htypes⟩ :=
    WorkM.reportLimit_run (by simp [Event.level]) hrun
  have hgraph : s.graph.Extends work.types.graph := by
    rw [htypes]
    exact .refl _
  exact ⟨hgraph, rfl, (hshape.self hfree).extends (hext.trans hgraph)⟩

/-- What a type of finite shape is resolved to has its shape. -/
theorem resolve_shaped (ctx : Context)
    (hbound : ∀ place key id, M place key id →
      ∃ b, ctx.env.lookup? key = some b) (height depth : Nat) :
    KeepsShape ctx g₀ M height depth := by
  induction height generalizing depth with
  | zero =>
      intro place id s y s' h
      cases h
  | succ height ih =>
      intro place id s y s' hshape hlevels hext habove h
      have hopen := habove.not_open hshape
      obtain ⟨descend, hdescend⟩ : ∃ descend,
          resolve ctx depth place.id = resolveStep ctx descend place.id := by
        cases depth <;> exact ⟨_, rfl⟩
      have hcases := hshape
      cases hcases with
      | marker hnode hkey hM =>
          obtain ⟨b, hb⟩ := hbound _ _ _ hM
          rw [hdescend, resolveStep_of_marker (hext _ _ hnode) hkey, hb] at h
          cases h
          exact ⟨.refl _, rfl, .marker (hext _ _ hnode) hkey hb⟩
      | @leaf node hnode hmarker hleaf =>
          rw [hdescend, resolveStep_of_unmarked (hext _ _ hnode) hmarker
            hopen (standsForItself_of_isLeaf hleaf)] at h
          cases h
          exact ⟨.refl _, rfl, .leaf (hext _ _ hnode) hmarker hleaf⟩
      | @branch node _ _ hnode hmarker hother hcongruent hparts =>
          have hself : standsForItself place.id node.kind s.work
              = .ok false s.work :=
            standsForItself_of_congruent hcongruent
          cases depth with
          | zero =>
              unfold resolve at h
              rw [resolveStep_of_unmarked (hext _ _ hnode) hmarker hopen
                hself] at h
              refine KeepsShape.stop hshape ?_ hext h
              rcases hlevels with hle | hfree
              · cases Nat.le_zero.mp (Nat.le_of_succ_le_succ hle)
                exact markerFree_of_height_one hshape hnode hmarker
              · exact hfree
          | succ depth =>
              unfold resolve at h
              rw [resolveStep_of_unmarked (hext _ _ hnode) hmarker hopen
                hself] at h
              exact (ih depth).rebuild hnode hmarker hcongruent hparts
                (hlevels.imp_left Nat.le_of_succ_le_succ) hext habove h

end TypeParams.Instantiation
