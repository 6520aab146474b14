/-
How deep an instantiation nests.

The frames of an instantiation are the types that it is inside of. They
are for different types with parts, all of them among what the type that
it started from is made of. So an instantiation never nests deeper than
there are such types, and one call more for what is not rebuilt, however
many levels it is allowed (`resolveCapped_eq`).

# Caps

As for matching, the bound is stated for an instantiation under a cap,
which counts calls inside each other apart from levels, and does
anything at all below. Here what has been gone into is given back when
it is left: a type that stands in several places is rebuilt for each of
them, and only the frames that are open at one time are different. So
the total number of calls is not bounded by the number of types, and the
depth is.

`State.Room` is the invariant, that the open frames and what the cap
still gives add up to the types with parts, and one more. While the
parts of a type are resolved, frames may be given ids, but none is
opened that is not ended.
-/
import TypeParams.Proofs.Commuting
import TypeParams.Proofs.Instantiation.Growth
import TypeParams.Proofs.Kind
import TypeParams.Proofs.Nesting

namespace TypeParams.Instantiation

variable {ctx : Context} {g : Graph} {declared id : TypeId} {cap : Nat}
variable {s s' : State}

/-- Instantiating under a cap. -/
def resolveCapped (ctx : Context) (deeper : TypeId → InstantiateM TypeId) :
    Nat → Nat → TypeId → InstantiateM TypeId
  | 0, _ => deeper
  | _ + 1, 0 => resolveStep ctx none
  | cap + 1, depth + 1 =>
      resolveStep ctx (some (resolveCapped ctx deeper cap depth))

/-- The frames are for types with parts that the declared type is made
of, and the cap leaves room for all others, and one call more. -/
structure State.Room (g : Graph) (declared : TypeId) (cap : Nat)
    (s : State) : Prop where
  graph : g.Extends s.graph
  tidy : s.Tidy
  composite : ∀ f ∈ s.frames, f.declared ∈ g.composites declared
  room : (g.composites declared).ncard + 1 ≤ s.frames.length + cap

/-- No more frames are open than there are types with parts. -/
theorem State.Room.length_le (h : s.Room g declared cap) :
    s.frames.length ≤ (g.composites declared).ncard := by
  have hnodup : (s.frames.map (·.declared)).Nodup := by
    refine List.pairwise_map.mpr (h.tidy.apart.imp ?_)
    intro f f' hapart
    exact hapart.1
  rw [← List.length_map]
  refine length_le_ncard (g.composites_finite declared) hnodup ?_
  rw [List.forall_mem_map]
  exact h.composite

/-- While a type is resolved the frames stay for the same types. -/
theorem State.Room.grow (h : s.Room g declared cap) (hgrows : Grows s s') :
    s'.Room g declared cap := by
  refine ⟨h.graph.trans hgrows.nodes, hgrows.tidy, ?_, ?_⟩
  · intro f' hf'
    obtain ⟨f, hf, hfills⟩ := exists_mem_of_forall₂ hgrows.frames.flip hf'
    rw [hfills.1]
    exact h.composite f hf
  · rw [← hgrows.frames.length_eq]
    exact h.room

section Room

variable (hg : g.Closed) (hdeclared : declared.index < g.size)
include hg hdeclared

/-- Opening a frame takes up what the cap gives for it. -/
theorem State.Room.enter (h : s.Room g declared (cap + 1))
    (hreach : g.Reaches declared id) {node : Node}
    (hopen : ∀ f ∈ s.frames, f.declared ≠ id)
    (hn : s.graph.node? id = some node)
    (hself : ¬ StandsForItself s.graph id node) :
    ({ s with frames := { declared := id } :: s.frames } : State).Room g
      declared cap := by
  have hn' := hn
  rw [h.graph.node?_eq (hg.reaches hdeclared hreach)] at hn'
  have hleaf : node.kind.isLeaf = false :=
    Bool.eq_false_iff.mpr fun hleaf => hself (.inl hleaf)
  have hroom := h.room
  refine ⟨h.graph, h.tidy.enter hopen hn hself, ?_, ?_⟩
  · rw [List.forall_mem_cons]
    exact ⟨⟨hreach, node, hn', hleaf⟩, h.composite⟩
  · rw [List.length_cons]
    omega

/-- A type is rebuilt alike under a cap that leaves room for its
parts. -/
theorem rebuild_capped (h : s.Room g declared (cap + 1))
    (hreach : g.Reaches declared id) {node : Node}
    (hopen : ∀ f ∈ s.frames, f.declared ≠ id)
    (hn : s.graph.node? id = some node)
    (hself : ¬ StandsForItself s.graph id node) {depth : Nat}
    {descend : TypeId → InstantiateM TypeId}
    (hdescend : ∀ part s, g.Reaches declared part →
      s.Room g declared cap → descend part s = resolve ctx depth part s) :
    rebuild descend id node s = rebuild (resolve ctx depth) id node s := by
  have hn' := hn
  rw [h.graph.node?_eq (hg.reaches hdeclared hreach)] at hn'
  have henter := h.enter hg hdeclared hreach hopen hn hself
  rw [rebuild_eq, rebuild_eq]
  refine Shadows.eq (P := (· = s)) (Q := fun _ _ => True) ?_ rfl
  refine .bind (Q := fun _ => (· = s)) (.of_eq (fun _ _ => rfl) ?_)
    fun keeps => ?_
  · intro s₁ keeps s₂ hs₁ hname
    obtain ⟨work, hscan, rfl⟩ := onWork_run.mp hname
    obtain ⟨rfl, -⟩ := keepsName_run hscan
    exact hs₁
  refine .bind (Q := fun _ => State.Room g declared cap)
    (.of_eq (fun _ _ => rfl) ?_) fun _ => ?_
  · intro s₁ u s₂ hs₁ hmodify
    cases modify_run.mp hmodify
    cases hs₁
    exact henter
  refine .bind (.mapM fun part hmem => ?_) fun parts =>
    .of_eq (fun _ _ => rfl) fun _ _ _ _ _ => trivial
  have hpart : g.Reaches declared part := hreach.step ⟨node, hn', hmem⟩
  refine .of_eq (fun s hs => hdescend part s hpart hs) ?_
  intro s₁ y s₂ hs₁ hrun
  exact hs₁.grow (Resolves.grows ⟨depth, hrun⟩ hs₁.tidy)

omit hg hdeclared in
/-- One level depends on the levels below where a type is rebuilt. -/
theorem resolveStep_congr {f f' : TypeId → InstantiateM TypeId}
    (h : ∀ node, s.graph.node? id = some node →
      (∀ f ∈ s.frames, f.declared ≠ id) →
      ¬ StandsForItself s.graph id node →
      rebuild f id node s = rebuild f' id node s) :
    resolveStep ctx (some f) id s = resolveStep ctx (some f') id s := by
  refine Shadows.eq (P := (· = s)) (Q := fun _ _ => True) ?_ rfl
  refine .bind (Q := fun node s₁ => s₁ = s ∧
      s.graph.node? id = some node) (.of_eq (fun _ _ => rfl) ?_)
    fun node => ?_
  · intro s₁ node s₂ hs₁ hread
    cases hs₁
    obtain ⟨work, hread', rfl⟩ := onWork_run.mp hread
    obtain ⟨hn, rfl⟩ := WorkM.node_run.mp hread'
    exact ⟨rfl, hn⟩
  cases node.markerKey? with
  | some key => exact .pure fun _ _ => trivial
  | none =>
      refine .read fun s₁ hs₁ => ?_
      obtain ⟨rfl, hn⟩ := hs₁
      by_cases hopen : s₁.frames.any (·.declared == id) = true
      · simp only [id_eq, if_pos hopen]
        exact .of_eq (fun _ _ => rfl) fun _ _ _ _ _ => trivial
      · simp only [id_eq, if_neg hopen]
        refine .bind (Q := fun stands s₂ => s₂ = s₁ ∧
            (stands = true ↔ StandsForItself s₁.graph id node))
          (.of_eq (fun _ _ => rfl) ?_) fun stands => ?_
        · intro s₂ stands s₃ hs₂ htest
          obtain ⟨rfl, -⟩ := hs₂
          obtain ⟨work, htest', rfl⟩ := onWork_run.mp htest
          obtain ⟨rfl, hself⟩ := standsForItself_run htest'
          exact ⟨rfl, hself⟩
        cases stands with
        | true => exact .pure fun _ _ => trivial
        | false =>
            refine .of_eq ?_ fun _ _ _ _ _ => trivial
            intro s₂ hs₂
            obtain ⟨rfl, hself⟩ := hs₂
            refine h node hn (by simpa using hopen) ?_
            exact fun hstands => Bool.false_ne_true (hself.mpr hstands)

/-- An instantiation under a cap that leaves room for all that it can
rebuild is the instantiation: it never gets to the cap. -/
theorem resolveCapped_eq (deeper : TypeId → InstantiateM TypeId)
    (depth : Nat) (h : s.Room g declared cap)
    (hreach : g.Reaches declared id) :
    resolveCapped ctx deeper cap depth id s = resolve ctx depth id s := by
  induction cap generalizing depth id s with
  | zero =>
      have hle := h.length_le
      have hroom := h.room
      omega
  | succ cap ih =>
      cases depth with
      | zero => rfl
      | succ depth =>
          refine resolveStep_congr fun node hn hopen hself => ?_
          refine rebuild_capped hg hdeclared h hreach hopen hn hself ?_
          exact fun part s hpart hs => ih depth hs hpart

end Room

end TypeParams.Instantiation
