/-
How an instantiation builds up its graph.

# Reserved ids

A type that is met inside itself gets an id before it has a node; until
it is defined a placeholder stands there. `State.Tidy` is what the
frames keep to: no two are for the same declared type, no two were given
the same id, and a given id has a placeholder.

# Growth

`Grows` compares the states before and after a type was resolved. No
node changes in between: an id that was handed out before is defined
only when its own frame ends, and that frame is still open. A frame may
have been given an id meanwhile, and then it is a new one. So the id
that a frame has when it ends is no older than the frame itself, which
makes defining it harmless to everything outside.

`Grows` is transitive along the parts of a type (`Grows.threads`), and
each of the three things that an instantiation does to the types is a
step of it: giving an id to a frame (`Grows.reserve`), ending a frame
(`Grows.leave`) and placing what was rebuilt (`Grows.place`).
`Resolves.grows` puts them together, by induction on how the type was
resolved.

# No faults

An instantiation looks up declared types, and types that are below them.
Inside a closed set it meets no id without a node, and nothing else that
it does can fail. So it ends in no fault, whatever the bindings and
however many levels it has (`resolve_succeeds`).
-/
import Mathlib.Data.List.Pairwise
import TypeParams.Proofs.Instantiation.Levels

namespace TypeParams.Instantiation

-- =============================================================== frames

/-- Frames for different types that were given different ids. -/
def Frame.Apart (f f' : Frame) : Prop :=
  f.declared ≠ f'.declared ∧ ∀ id, f.slot = some id → f'.slot ≠ some id

instance : Std.Symm Frame.Apart where
  symm _ _ h := ⟨h.1.symm, fun id hid hid' => h.2 id hid' hid⟩

/-- The frame, given an id if it is for this declared type. -/
def Frame.fill (declared id : TypeId) (f : Frame) : Frame :=
  if f.declared = declared then { f with slot := some id } else f

/-- Giving an id to a frame does not change what it is for. -/
theorem Frame.declared_fill (declared id : TypeId) (f : Frame) :
    (f.fill declared id).declared = f.declared := by
  unfold fill
  split <;> rfl

/-- What becomes of a frame while its parts are resolved: it may be given
an id, not below a bound. -/
def Frame.Fills (bound : Nat) (f f' : Frame) : Prop :=
  f'.declared = f.declared ∧
    (f'.slot = f.slot ∨
      f.slot = none ∧ ∃ id, f'.slot = some id ∧ bound ≤ id.index)

theorem Frame.Fills.refl (bound : Nat) (f : Frame) : f.Fills bound f :=
  ⟨rfl, .inl rfl⟩

/-- A frame may be given an id in one stretch or the next, and not in
both. -/
theorem Frame.Fills.trans {bound bound' : Nat} (hle : bound ≤ bound')
    {f f' f'' : Frame} (h : f.Fills bound f')
    (h' : f'.Fills bound' f'') : f.Fills bound f'' := by
  obtain ⟨hd, hslot⟩ := h
  obtain ⟨hd', hslot'⟩ := h'
  refine ⟨hd'.trans hd, ?_⟩
  rcases hslot' with hsame' | ⟨hnone', id, hid, hbound⟩
  · rcases hslot with hsame | ⟨hnone, id, hid, hbound⟩
    · exact .inl (hsame'.trans hsame)
    · exact .inr ⟨hnone, id, hsame'.trans hid, hbound⟩
  · rcases hslot with hsame | ⟨-, id', hid', -⟩
    · exact .inr ⟨hsame.symm.trans hnone', id, hid,
        Nat.le_trans hle hbound⟩
    · rw [hid'] at hnone'
      cases hnone'

/-- So may each of the open frames. -/
theorem Frame.forall₂_fills_trans {bound bound' : Nat}
    (hle : bound ≤ bound') {fs fs' fs'' : List Frame}
    (h : List.Forall₂ (Frame.Fills bound) fs fs')
    (h' : List.Forall₂ (Frame.Fills bound') fs' fs'') :
    List.Forall₂ (Frame.Fills bound) fs fs'' := by
  induction h generalizing fs'' with
  | nil => cases h' with
      | nil => exact .nil
  | cons hf _ ih => cases h' with
      | cons hf' hrest => exact .cons (hf.trans hle hf') (ih hrest)

/-- A frame that was given an id keeps it. -/
theorem Frame.mem_of_fills {bound : Nat} {fs fs' : List Frame}
    (h : List.Forall₂ (Frame.Fills bound) fs fs') {x y : TypeId}
    (hmem : ⟨x, some y⟩ ∈ fs) : ⟨x, some y⟩ ∈ fs' := by
  induction h with
  | nil => cases hmem
  | @cons f f' fs fs' hfills _ ih =>
      rcases List.mem_cons.mp hmem with heq | hmem
      · cases heq
        obtain ⟨hd, hslot | ⟨hnone, -⟩⟩ := hfills
        · obtain ⟨declared, slot⟩ := f'
          cases hd
          cases hslot
          exact List.mem_cons_self
        · cases hnone
      · exact List.mem_cons_of_mem _ (ih hmem)

/-- The frames are apart and for types with parts, and the ids they were
given are reserved. -/
structure State.Tidy (s : State) : Prop where
  apart : s.frames.Pairwise Frame.Apart
  composite : ∀ f ∈ s.frames, ∃ node,
    s.graph.node? f.declared = some node ∧ node.kind.isLeaf = false
  reserved : ∀ f ∈ s.frames, ∀ id, f.slot = some id →
    id ∈ s.work.types.pending ∧ s.work.types.baseSize ≤ id.index ∧
      s.graph.node? id = some (.anonymous (.leaf .noType))

/-- There is one frame for a declared type. -/
theorem State.Tidy.frame_eq {s : State} (hs : s.Tidy) {f f' : Frame}
    (hf : f ∈ s.frames) (hf' : f' ∈ s.frames)
    (hd : f.declared = f'.declared) : f = f' := by
  by_contra hne
  exact (hs.apart.forall hf hf' hne).1 hd

/-- A new frame has no id yet. -/
theorem State.Tidy.enter {s : State} (hs : s.Tidy) {declared : TypeId}
    {node : Node} (hopen : ∀ f ∈ s.frames, f.declared ≠ declared)
    (hn : s.graph.node? declared = some node)
    (hself : ¬ StandsForItself s.graph declared node) :
    ({ s with frames := { declared } :: s.frames } : State).Tidy := by
  refine ⟨List.pairwise_cons.mpr ⟨?_, hs.apart⟩,
    List.forall_mem_cons.mpr ⟨⟨node, hn, ?_⟩, hs.composite⟩, ?_⟩
  · intro f hf
    refine ⟨(hopen f hf).symm, ?_⟩
    intro id hid
    cases hid
  · exact Bool.eq_false_iff.mpr fun hleaf => hself (.inl hleaf)
  · intro f hf id hid
    rcases List.mem_cons.mp hf with rfl | hf
    · cases hid
    · exact hs.reserved f hf id hid

-- =============================================================== growth

/-- What has changed once a type was resolved. -/
structure Grows (s s' : State) : Prop where
  tidy : s'.Tidy
  nodes : s.graph.Extends s'.graph
  base : s'.work.types.baseSize = s.work.types.baseSize
  frames : List.Forall₂ (Frame.Fills s.graph.size) s.frames s'.frames
  records : s.work.Records s'.work

/-- Growth adds up. -/
theorem Grows.trans {s s' s'' : State} (h : Grows s s')
    (h' : Grows s' s'') : Grows s s'' where
  tidy := h'.tidy
  nodes := h.nodes.trans h'.nodes
  base := h'.base.trans h.base
  frames :=
    Frame.forall₂_fills_trans h.nodes.size_le h.frames h'.frames
  records := h.records.trans h'.records

/-- Nothing grows where types and frames stay the same. -/
theorem Grows.of_eq {s s' : State} (hs : s.Tidy)
    (htypes : s'.work.types = s.work.types) (hframes : s'.frames = s.frames)
    (hrecords : s.work.Records s'.work) : Grows s s' where
  tidy := by
    have hgraph : s'.graph = s.graph := congrArg Layer.graph htypes
    refine ⟨hframes ▸ hs.apart, ?_, ?_⟩
    · rw [hframes, hgraph]
      exact hs.composite
    · rw [hframes, hgraph, htypes]
      exact hs.reserved
  nodes := by
    unfold State.graph
    rw [htypes]
    exact .refl _
  base := by rw [htypes]
  frames := by
    rw [hframes]
    exact List.forall₂_same.mpr fun f _ => .refl _ f
  records := hrecords

theorem Grows.refl {s : State} (hs : s.Tidy) : Grows s s :=
  .of_eq hs rfl rfl (.refl _)

/-- Types that are resolved one after the other make the graph grow if
each does. -/
theorem Grows.threads {part : TypeId → State → TypeId → State → Prop}
    (hpart : ∀ d s y s', part d s y s' → s.Tidy → Grows s s')
    {ds ys : List TypeId} {s s' : State}
    (h : Threads part ds s ys s') (hs : s.Tidy) : Grows s s' := by
  induction h with
  | nil => exact .refl hs
  | cons hstep _ ih =>
      have hgrows := hpart _ _ _ _ hstep hs
      exact hgrows.trans (ih hgrows.tidy)

-- ============================================================ cycle slots

/-- A type met again has the id of its frame; one that had none is given
the next id. -/
theorem cycleSlot_cases {declared id : TypeId} {s s' : State}
    (hs : s.Tidy) (hopen : ∃ f ∈ s.frames, f.declared = declared)
    (h : cycleSlot declared s = .ok id s') :
    (s' = s ∧ ⟨declared, some id⟩ ∈ s.frames) ∨
      (⟨declared, none⟩ ∈ s.frames ∧ id = s.work.types.nextId ∧
        s' = { work := { s.work with types := s.work.types.reserve.2 }
               frames := s.frames.map (Frame.fill declared id) }) := by
  obtain ⟨f, hf, hd⟩ := hopen
  have hfind : s.frames.find? (·.declared == declared) = some f := by
    cases hfound : s.frames.find? (·.declared == declared) with
    | none =>
        have hnot := List.find?_eq_none.mp hfound f hf
        simp [hd] at hnot
    | some f' =>
        have hd' : f'.declared = declared := by
          simpa using List.find?_some hfound
        rw [hs.frame_eq (List.mem_of_find?_eq_some hfound) hf
          (hd'.trans hd.symm)]
  obtain ⟨d, slot⟩ := f
  cases hd
  unfold cycleSlot at h
  rw [hfind] at h
  cases slot with
  | some id' =>
      cases h
      exact .inl ⟨rfl, hf⟩
  | none =>
      cases h
      exact .inr ⟨hf, rfl, rfl⟩

/-- The frame of a type that was met again has the id afterwards. -/
theorem mem_of_cycleSlot {declared id : TypeId} {s s' : State}
    (hs : s.Tidy) (hopen : ∃ f ∈ s.frames, f.declared = declared)
    (h : cycleSlot declared s = .ok id s') :
    ⟨declared, some id⟩ ∈ s'.frames := by
  rcases cycleSlot_cases hs hopen h with ⟨rfl, hmem⟩ | ⟨hmem, rfl, rfl⟩
  · exact hmem
  · exact List.mem_map.mpr ⟨_, hmem, if_pos rfl⟩

/-- The next id is nobody's yet. -/
theorem State.Tidy.slot_lt {s : State} (hs : s.Tidy) {f : Frame}
    (hf : f ∈ s.frames) {id : TypeId} (hid : f.slot = some id) :
    id.index < s.graph.size :=
  Graph.index_lt_of_node? (hs.reserved f hf id hid).2.2

/-- The id that the innermost frame was given is reserved. -/
theorem State.Tidy.top_reserved {s : State} (hs : s.Tidy)
    {declared id : TypeId} {slot : Option TypeId} {frames : List Frame}
    (hcons : s.frames = ⟨declared, slot⟩ :: frames)
    (hid : slot = some id) :
    id ∈ s.work.types.pending ∧ s.work.types.baseSize ≤ id.index ∧
      s.graph.node? id = some (.anonymous (.leaf .noType)) := by
  refine hs.reserved ⟨declared, slot⟩ ?_ id hid
  rw [hcons]
  exact List.mem_cons_self

/-- No frame was given the next id. -/
theorem State.Tidy.slot_ne_nextId {s : State} (hs : s.Tidy) {f : Frame}
    (hf : f ∈ s.frames) : f.slot ≠ some s.work.types.nextId := by
  intro hid
  have hlt := hs.slot_lt hf hid
  rw [Layer.nextId_eq] at hlt
  exact Nat.lt_irrefl _ hlt

/-- Giving the next id to one frame keeps frames apart. -/
theorem Frame.Apart.fill {f f' : Frame} {declared id : TypeId}
    (h : f.Apart f') (hf : f.slot ≠ some id) (hf' : f'.slot ≠ some id) :
    (f.fill declared id).Apart (f'.fill declared id) := by
  refine ⟨by rw [declared_fill, declared_fill]; exact h.1, ?_⟩
  intro id' hid hid'
  unfold Frame.fill at hid hid'
  by_cases hd : f.declared = declared
  · have hd' : f'.declared ≠ declared := fun hd' =>
      h.1 (hd.trans hd'.symm)
    rw [if_pos hd] at hid
    rw [if_neg hd'] at hid'
    exact hf' (hid'.trans hid.symm)
  · rw [if_neg hd] at hid
    by_cases hd' : f'.declared = declared
    · rw [if_pos hd'] at hid'
      exact hf (hid.trans hid'.symm)
    · rw [if_neg hd'] at hid'
      exact h.2 id' hid hid'

/-- Giving the next id to a frame that has none is growth. -/
theorem Grows.reserve {s : State} (hs : s.Tidy) {declared : TypeId}
    (hnone : ⟨declared, none⟩ ∈ s.frames) :
    Grows s
      { work := { s.work with types := s.work.types.reserve.2 }
        frames := s.frames.map
          (Frame.fill declared s.work.types.nextId) } where
  tidy := by
    have hgraph : s.graph.Extends s.work.types.reserve.2.graph := by
      rw [Layer.graph_reserve_eq]
      exact s.graph.extends_push _
    refine ⟨List.pairwise_map.mpr (hs.apart.imp_of_mem ?_), ?_, ?_⟩
    · intro f f' hf hf' hapart
      exact hapart.fill (hs.slot_ne_nextId hf) (hs.slot_ne_nextId hf')
    · intro f' hf'
      obtain ⟨f, hf, rfl⟩ := List.mem_map.mp hf'
      obtain ⟨node, hn, hleaf⟩ := hs.composite f hf
      rw [Frame.declared_fill]
      exact ⟨node, hgraph _ _ hn, hleaf⟩
    · intro f' hf' id hid
      obtain ⟨f, hf, rfl⟩ := List.mem_map.mp hf'
      unfold Frame.fill at hid
      split at hid
      · cases hid
        refine ⟨List.mem_append_right _ (List.mem_singleton.mpr rfl),
          ?_, ?_⟩
        · exact Nat.le_add_right _ _
        · change s.work.types.reserve.2.graph.node? _ = _
          rw [Layer.graph_reserve_eq, Layer.nextId_eq]
          exact Graph.node?_push_self _ _
      · obtain ⟨hpending, hbase, hn⟩ := hs.reserved f hf id hid
        exact ⟨List.mem_append_left _ hpending, hbase,
          hgraph _ _ hn⟩
  nodes := by
    change s.graph.Extends s.work.types.reserve.2.graph
    rw [Layer.graph_reserve_eq]
    exact s.graph.extends_push _
  base := rfl
  frames := by
    refine List.forall₂_map_right_iff.mpr
      (List.forall₂_same.mpr fun f hf => ?_)
    refine ⟨Frame.declared_fill _ _ f, ?_⟩
    unfold Frame.fill
    split
    next hd =>
      -- the frames are apart, so this is the one without an id
      cases hs.frame_eq hf hnone hd
      refine .inr ⟨rfl, _, rfl, ?_⟩
      rw [Layer.nextId_eq]
      exact Nat.le_refl _
    next => exact .inl rfl
  records := .of_journal rfl rfl

-- ============================================================ rebuilding

/-- A rebuilt type was given a node: everything else is as before. -/
structure Placed (slot : Option TypeId) (node : Node) (w : Workspace)
    (id : TypeId) (w' : Workspace) : Prop where
  slot_eq : slot = some id ∨ slot = none ∧ id = w.types.nextId
  node? : ∀ j, w'.types.graph.node? j
    = if j = id then some node else w.types.graph.node? j
  base : w'.types.baseSize = w.types.baseSize
  pending : ∀ j ∈ w.types.pending, j ≠ id → j ∈ w'.types.pending
  records : w.Records w'

/-- A rebuilt type becomes a new node, or the definition of the id that
was handed out for it. That id is still reserved, so it can be
defined. -/
theorem place_run {slot : Option TypeId} {node : Node} {w w' : Workspace}
    {id : TypeId} (hslot : ∀ j, slot = some j → j ∈ w.types.pending)
    (h : place slot node w = .ok id w') :
    (slot = none ∧ id = w.types.nextId ∧
      w' = { w with types := (w.types.alloc node).2 }) ∨
    (slot = some id ∧ ∃ types, w.types.define id node = .ok types ∧
      w' = { w with types }) := by
  cases slot with
  | none =>
      obtain ⟨rfl, rfl⟩ := WorkM.alloc_run.mp h
      exact .inl ⟨rfl, rfl, rfl⟩
  | some j =>
      obtain ⟨w₁, w₂, hget, h⟩ := bind_run.mp h
      obtain ⟨rfl, rfl⟩ := get_run.mp hget
      cases hdef : w.types.define j node with
      | error error =>
          unfold Layer.define at hdef
          rw [if_pos (hslot j rfl)] at hdef
          cases hdef
      | ok types =>
          rw [hdef] at h
          obtain ⟨_, w₁, hmodify, h⟩ := bind_run.mp h
          cases modify_run.mp hmodify
          obtain ⟨rfl, rfl⟩ := pure_run.mp h
          exact .inr ⟨rfl, types, hdef, rfl⟩

/-- A rebuilt type is placed where its frame has the id reserved, or at
the end. -/
theorem place_placed {slot : Option TypeId} {node : Node}
    {w w' : Workspace} {id : TypeId}
    (hslot : ∀ j, slot = some j → j ∈ w.types.pending ∧
      w.types.baseSize ≤ j.index ∧ j.index < w.types.graph.size)
    (h : place slot node w = .ok id w') :
    Placed slot node w id w' := by
  rcases place_run (fun j hj => (hslot j hj).1) h with
    ⟨rfl, rfl, rfl⟩ | ⟨rfl, types, hdef, rfl⟩
  · refine ⟨.inr ⟨rfl, rfl⟩, ?_, rfl, fun j hj _ => hj,
      .of_journal rfl rfl⟩
    intro j
    rw [Layer.graph_alloc_eq, Graph.node?_push, Layer.nextId_eq]
    obtain ⟨i⟩ := j
    simp only [TypeId.mk.injEq]
  · obtain ⟨-, hbase, hlt⟩ := hslot id rfl
    refine ⟨.inl rfl, Layer.node?_define hdef hbase hlt, ?_, ?_,
      .of_journal rfl rfl⟩
    · obtain ⟨-, rfl⟩ := Layer.define_eq_ok.mp hdef
      rfl
    · intro i hi hne
      obtain ⟨-, rfl⟩ := Layer.define_eq_ok.mp hdef
      exact (List.mem_erase_of_ne hne).mpr hi

/-- Placing a type replaces nothing but a placeholder. -/
theorem Placed.kept {slot : Option TypeId} {node : Node}
    {w w' : Workspace} {id : TypeId} (h : Placed slot node w id w')
    (hslot : slot = some id →
      w.types.graph.node? id = some (.anonymous (.leaf .noType)))
    (j : TypeId) (node' : Node) (hn : w.types.graph.node? j = some node')
    (hleaf : node'.kind.isLeaf = false) :
    w'.types.graph.node? j = some node' := by
  have hne : j ≠ id := by
    rintro rfl
    rcases h.slot_eq with hid | ⟨-, rfl⟩
    · rw [hslot hid] at hn
      cases hn
      cases hleaf
    · have hlt := Graph.index_lt_of_node? hn
      rw [Layer.nextId_eq] at hlt
      exact Nat.lt_irrefl _ hlt
  rw [h.node? j, if_neg hne, hn]

/-- When a frame ends, the frames outside of it are as they should be,
and the id it was given is new. -/
theorem Grows.leave {declared : TypeId} {slot : Option TypeId}
    {s s₁ s₂ : State}
    (h : Grows { s with frames := { declared } :: s.frames } s₁)
    (hleave : leave s₁ = .ok slot s₂) :
    ∃ frames, s₁.frames = ⟨declared, slot⟩ :: frames ∧
      s₂ = { s₁ with frames } ∧ Grows s s₂ ∧
      ∀ id, slot = some id → s.graph.size ≤ id.index := by
  obtain ⟨f, frames, hfills, hframes, hcons⟩ :=
    List.forall₂_cons_left_iff.mp h.frames
  unfold Instantiation.leave at hleave
  rw [hcons] at hleave
  cases hleave
  have htidy := h.tidy
  have hdeclared : f.declared = declared := hfills.1
  refine ⟨frames, ?_, rfl, ?_, ?_⟩
  · rw [hcons, ← hdeclared]
  · refine ⟨⟨?_, ?_, ?_⟩, h.nodes, h.base, hframes, h.records⟩
    · exact (List.pairwise_cons.mp (hcons ▸ htidy.apart)).2
    · intro f' hf'
      exact htidy.composite f' (hcons ▸ List.mem_cons_of_mem _ hf')
    · intro f' hf'
      exact htidy.reserved f' (hcons ▸ List.mem_cons_of_mem _ hf')
  · intro id hid
    rcases hfills.2 with hsame | ⟨-, id', hid', hle⟩
    · rw [hid] at hsame
      cases hsame
    · rw [hid] at hid'
      cases hid'
      exact hle

/-- Placing a rebuilt type once its frame has ended. -/
theorem Grows.place {declared id : TypeId} {slot : Option TypeId}
    {node : Node} {s s₁ s₂ : State} {work : Workspace}
    (h : Grows { s with frames := { declared } :: s.frames } s₁)
    (hleave : Instantiation.leave s₁ = .ok slot s₂)
    (hplace : Instantiation.place slot node s₂.work = .ok id work) :
    Placed slot node s₂.work id work ∧ s.graph.size ≤ id.index ∧
      Grows s { s₂ with work } := by
  obtain ⟨frames, hcons, rfl, hgrows, hnew⟩ := h.leave hleave
  have hplaced : Placed slot node s₁.work id work := by
    refine place_placed (fun j hj => ?_) hplace
    obtain ⟨hpending, hbase, hn⟩ := h.tidy.top_reserved hcons hj
    exact ⟨hpending, hbase, Graph.index_lt_of_node? hn⟩
  have hslot : slot = some id →
      s₁.graph.node? id = some (.anonymous (.leaf .noType)) :=
    fun hid => (h.tidy.top_reserved hcons hid).2.2
  have hle : s.graph.size ≤ id.index := by
    rcases hplaced.slot_eq with hid | ⟨-, rfl⟩
    · exact hnew id hid
    · rw [Layer.nextId_eq]
      exact h.nodes.size_le
  refine ⟨hplaced, hle, ⟨hgrows.tidy.apart, ?_, ?_⟩, ?_,
    hplaced.base.trans h.base, hgrows.frames,
    h.records.trans hplaced.records⟩
  · -- a placed id had no node with parts
    intro f hf
    obtain ⟨node', hn, hleaf⟩ := hgrows.tidy.composite f hf
    exact ⟨node', hplaced.kept hslot _ _ hn hleaf, hleaf⟩
  · -- the ids of the frames outside are not the one that was placed
    intro f hf j hj
    have hne : j ≠ id := by
      rintro rfl
      rcases hplaced.slot_eq with rfl | ⟨-, rfl⟩
      · have hpairs := List.pairwise_cons.mp (hcons ▸ h.tidy.apart)
        exact (hpairs.1 f hf).2 j rfl hj
      · exact hgrows.tidy.slot_ne_nextId hf hj
    obtain ⟨hpending, hbase, hn⟩ := hgrows.tidy.reserved f hf j hj
    refine ⟨hplaced.pending j hpending hne, ?_, ?_⟩
    · exact hplaced.base.symm ▸ hbase
    · exact (hplaced.node? j).trans ((if_neg hne).trans hn)
  · intro j node' hn
    -- what was there before the frame is older than what was placed
    have hlt : j.index < s.graph.size := Graph.index_lt_of_node? hn
    have hne : j ≠ id := by
      rintro rfl
      exact Nat.not_lt.mpr hle hlt
    exact (hplaced.node? j).trans
      ((if_neg hne).trans (hgrows.nodes j node' hn))

-- =========================================================== all levels

/-- Every resolved type only makes the graph grow. -/
theorem Resolves.grows {ctx : Context} {declared y : TypeId}
    {s s' : State} (h : Resolves ctx declared s y s') :
    s.Tidy → Grows s s' := by
  refine resolve_induction (motive := fun _ s _ s' => s.Tidy → Grows s s')
    ?_ h
  intro declared node s y s' hn _ hend hs
  have hparts : ∀ {ds ys s₁ s₂}, Threads (fun d s y s' =>
      Resolves ctx d s y s' ∧ (s.Tidy → Grows s s')) ds s₁ ys s₂ →
      s₁.Tidy → Grows s₁ s₂ :=
    fun hthreads => Grows.threads (fun _ _ _ _ hd => hd.2) hthreads
  cases hend with
  | bound _ => exact .refl hs
  | itself _ _ _ => exact .refl hs
  | stopped _ _ hrecords _ htypes =>
      exact .of_eq hs htypes rfl hrecords
  | again _ hopen htell hslot =>
      have htold : Grows s { s with work := _ } :=
        .of_eq hs htell.types rfl htell.records
      rcases cycleSlot_cases htold.tidy hopen hslot with
        ⟨rfl, -⟩ | ⟨hnone, rfl, rfl⟩
      · exact htold
      · exact htold.trans (.reserve htold.tidy hnone)
  | collapsed _ hopen hself hthreads hleave _ =>
      obtain ⟨_, _, _, hgrows, -⟩ :=
        (hparts hthreads (hs.enter hopen hn hself)).leave hleave
      exact hgrows
  | placed _ hopen hself _ hthreads hleave _ hplace =>
      have hgrows := hparts hthreads (hs.enter hopen hn hself)
      exact (hgrows.place hleave hplace).2.2

/-- The parts of a type make the graph grow, whatever else is known of
each. -/
theorem Resolves.grows_threads {ctx : Context}
    {motive : TypeId → State → TypeId → State → Prop}
    {ds ys : List TypeId} {s s' : State}
    (h : Threads (fun d s y s' => Resolves ctx d s y s' ∧ motive d s y s')
      ds s ys s') (hs : s.Tidy) : Grows s s' :=
  Grows.threads (fun _ _ _ _ hd => hd.1.grows) h hs

/-- The parts of a type one by one, each resolved over a larger
graph. -/
theorem Resolves.forall₂ {ctx : Context}
    {motive : TypeId → State → TypeId → State → Prop} {g₀ : Graph}
    {ds ys : List TypeId} {s s' : State}
    (h : Threads (fun d s y s' => Resolves ctx d s y s' ∧ motive d s y s')
      ds s ys s') (hs : s.Tidy) (hext : g₀.Extends s.graph) :
    List.Forall₂ (fun d y => ∃ s s', s.Tidy ∧ g₀.Extends s.graph ∧
      Resolves ctx d s y s' ∧ motive d s y s') ds ys := by
  induction h with
  | nil => exact .nil
  | cons hd _ ih =>
      have hgrows := hd.1.grows hs
      exact .cons ⟨_, _, hs, hext, hd⟩
        (ih hgrows.tidy (hext.trans hgrows.nodes))

-- ============================================================== no faults

/-- Giving an id to a frame does not fault. -/
theorem cycleSlot_succeeds (declared : TypeId) (s : State) :
    Succeeds (cycleSlot declared) s := by
  unfold Succeeds cycleSlot
  split
  · exact ⟨_, _, rfl⟩
  · exact ⟨_, _, rfl⟩

theorem leave_succeeds (s : State) : Succeeds leave s := by
  unfold Succeeds leave
  split
  · exact ⟨_, _, rfl⟩
  · exact ⟨_, _, rfl⟩

/-- Nor does placing a rebuilt type: an id that could not be defined
would be told as an event. -/
theorem place_succeeds (slot : Option TypeId) (node : Node)
    (w : Workspace) : Succeeds (place slot node) w := by
  cases slot with
  | none => exact ⟨_, _, WorkM.alloc_run.mpr ⟨rfl, rfl⟩⟩
  | some id =>
      refine Succeeds.bind ⟨w, w, rfl⟩ fun w₁ w₂ _ => ?_
      cases w₁.types.define id node with
      | ok types => exact Succeeds.bind ⟨_, _, rfl⟩ fun _ _ _ => .pure _ _
      | error error =>
          exact (WorkM.tell_succeeds (.ok _)).bind fun _ _ _ => .pure _ _

section NoFaults

variable {P : TypeId → Prop} {w : Workspace} {id : TypeId}

theorem containsMarker_succeeds (hP : w.types.graph.ClosedOn P)
    (hid : P id) : Succeeds (containsMarker id) w := by
  obtain ⟨answer, h, -⟩ := Graph.containsMarker_answers hP hid
  exact WorkM.inspect_succeeds ⟨answer, h⟩

/-- Nor does asking whether a type of a closed set stands for itself. -/
theorem standsForItself_succeeds (hP : w.types.graph.ClosedOn P)
    (hid : P id) (kind : Kind) : Succeeds (standsForItself id kind) w := by
  cases kind with
  | xml constraint =>
      exact (containsMarker_succeeds hP hid).bind fun _ _ _ => .pure _ _
  | leaf | array | tuple | map | record | union | error | stream | table
  | function | object | typedesc => exact .pure _ _

/-- Nor does asking whether it keeps its name. -/
theorem keepsName_succeeds (hP : w.types.graph.ClosedOn P)
    (hid : P id) (node : Node) : Succeeds (keepsName id node) w := by
  unfold keepsName
  by_cases hname : node.name.isSome = true
  · rw [if_pos hname]
    exact (containsMarker_succeeds hP hid).bind fun _ _ _ => .pure _ _
  · rw [if_neg hname]
    exact .pure _ _

end NoFaults

/-- Rebuilding does not fault if resolving the parts neither faults nor
changes a node. -/
theorem rebuild_succeeds {descend : TypeId → InstantiateM TypeId}
    {P : TypeId → Prop} {declared : TypeId} {node : Node} {s : State}
    (hs : s.Tidy) (hopen : ∀ f ∈ s.frames, f.declared ≠ declared)
    (hP : s.graph.ClosedOn P) (hdeclared : P declared)
    (hn : s.graph.node? declared = some node)
    (hself : ¬ StandsForItself s.graph declared node)
    (hpart : ∀ part, P part → ∀ s : State, s.Tidy → s.graph.ClosedOn P →
      Succeeds (descend part) s ∧
        ∀ y s', descend part s = .ok y s' → Grows s s') :
    Succeeds (rebuild descend declared node) s := by
  rw [rebuild_eq]
  refine (onWork_succeeds (keepsName_succeeds hP hdeclared node)).bind
    fun keeps s₀ hname => ?_
  obtain ⟨work, hscan, rfl⟩ := onWork_run.mp hname
  obtain ⟨rfl, -⟩ := keepsName_run hscan
  refine Succeeds.bind ⟨_, _, rfl⟩ fun _ s₁ henter => ?_
  cases modify_run.mp henter
  have hloop : Succeeds (node.kind.children.mapM descend)
      { s with frames := { declared } :: s.frames } := by
    refine Succeeds.mapM (I := fun s => s.Tidy ∧ s.graph.ClosedOn P)
      ?_ ?_ ⟨hs.enter hopen hn hself, hP⟩
    · intro part hmem s' hI
      exact (hpart part (hP.child hdeclared hn part hmem) s' hI.1 hI.2).1
    · intro part hmem s' y s'' hI hrun
      have hgrows :=
        (hpart part (hP.child hdeclared hn part hmem) s' hI.1 hI.2).2
          y s'' hrun
      exact ⟨hgrows.tidy, hI.2.extends hgrows.nodes⟩
  refine hloop.bind fun parts s₂ _ => ?_
  refine (leave_succeeds s₂).bind fun slot s₃ _ => ?_
  rcases settle_cases slot (rebuiltNode node keeps parts) with
    ⟨_, -, -, hsettle⟩ | ⟨-, hsettle⟩
  · rw [hsettle]
    exact .pure _ _
  · rw [hsettle]
    exact onWork_succeeds (place_succeeds _ _ _)

/-- One level does not fault if rebuilding does not, where it comes to
that. -/
theorem resolveStep_succeeds {ctx : Context}
    {descend : Option (TypeId → InstantiateM TypeId)}
    {P : TypeId → Prop} {declared : TypeId} {s : State}
    (hP : s.graph.ClosedOn P) (hdeclared : P declared)
    (hrebuild : ∀ f ∈ descend, ∀ node,
      s.graph.node? declared = some node →
      (∀ f ∈ s.frames, f.declared ≠ declared) →
      ¬ StandsForItself s.graph declared node →
      Succeeds (rebuild f declared node) s) :
    Succeeds (resolveStep ctx descend declared) s := by
  obtain ⟨node, hn, -⟩ := hP declared hdeclared
  have hread : onWork (.node declared) s = .ok node s :=
    onWork_run.mpr ⟨s.work, WorkM.node_run.mpr ⟨hn, rfl⟩, rfl⟩
  refine Succeeds.bind ⟨_, _, hread⟩ fun node' s' hread' => ?_
  rw [hread] at hread'
  cases hread'
  cases node.markerKey? with
  | some key => exact .pure _ _
  | none =>
      refine Succeeds.bind ⟨s, s, rfl⟩ fun s₁ s₂ hget => ?_
      obtain ⟨rfl, rfl⟩ := get_run.mp hget
      by_cases hopen : s.frames.any (·.declared == declared) = true
      · rw [if_pos hopen]
        refine (onWork_succeeds (WorkM.tell_succeeds (.ok _))).bind ?_
        exact fun _ s' _ => cycleSlot_succeeds declared s'
      · rw [if_neg hopen]
        refine (onWork_succeeds (standsForItself_succeeds hP hdeclared
          node.kind)).bind fun b s' htest => ?_
        obtain ⟨work, htest', rfl⟩ := onWork_run.mp htest
        obtain ⟨rfl, hself⟩ := standsForItself_run htest'
        cases b with
        | true => exact .pure _ _
        | false =>
            cases descend with
            | some f =>
                refine hrebuild f rfl node hn (by simpa using hopen) ?_
                exact fun hs => Bool.false_ne_true (hself.mpr hs)
            | none =>
                refine (onWork_succeeds (WorkM.reportLimit_succeeds
                  (Graph.render_returns hP hdeclared))).bind ?_
                exact fun _ _ _ => .pure _ _

/-- Resolving a type of a closed set does not fault, whatever the
bindings are: bound types are not looked at. -/
theorem resolve_succeeds (ctx : Context) {P : TypeId → Prop}
    (depth : Nat) {declared : TypeId} {s : State} (hs : s.Tidy)
    (hP : s.graph.ClosedOn P) (hdeclared : P declared) :
    Succeeds (resolve ctx depth declared) s := by
  induction depth generalizing declared s with
  | zero =>
      refine resolveStep_succeeds hP hdeclared fun f hf => ?_
      cases hf
  | succ depth ih =>
      refine resolveStep_succeeds hP hdeclared
        fun f hf node hn hopen hself => ?_
      cases hf
      refine rebuild_succeeds hs hopen hP hdeclared hn hself ?_
      intro part hpart s' hs' hP'
      refine ⟨ih hs' hP' hpart, fun y s'' hrun => ?_⟩
      exact Resolves.grows ⟨depth, hrun⟩ hs'

end TypeParams.Instantiation
