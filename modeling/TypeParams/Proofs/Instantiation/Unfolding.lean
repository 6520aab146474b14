/-
What the copy of a type without markers looks like.

# Unfolding

Where no parameter is replaced, an instantiation copies. A type that
stands in several places is copied for each of them, and a type that is
met inside itself leads back to the copy that is being made. So copies
go along with the types they were made for, down every path, and meet
themselves just where these do (`Unfolds`). What a type was met inside
of is kept as a list of pairs, each a type and its copy.

While a copy is being made its id may not be known yet, and the pairs
have to name it. `State.Foresees` says that they name the id that the
frame is going to have: a frame keeps an id that it was given, so what
is foreseen at the end was right all along.

# Unions

Union members are the exception: they would be merged if two of them had
the same copy. They have not, because each copy is made for one type and
one place (`Landed`). So a union of different members is rebuilt with as
many (`Lands.parts_nodup`), and is not left with one
(`Lands.not_collapsed`).

# Which types

`Graph.Verbatim` leaves out objects, whose methods are written by their
signatures and not by the texts of their types, and xml, which stands
for itself. Unions must have two members at least, all of them
different.
-/
import TypeParams.Proofs.FirstOccurrences
import TypeParams.Proofs.Instantiation.Additions

namespace TypeParams

/-- A form that is copied member by member and written without a look at
anything but its parts. -/
def Kind.Verbatim : Kind → Prop
  | .object _ | .xml _ => False
  | .union members => 2 ≤ members.length ∧ members.Nodup
  | _ => True

instance : (kind : Kind) → Decidable kind.Verbatim
  | .object _ | .xml _ => inferInstanceAs (Decidable False)
  | .union _ => inferInstanceAs (Decidable (_ ∧ List.Nodup _))
  | .leaf _ | .array _ | .tuple _ _ | .map _ | .record _ | .error _
  | .stream _ _ | .table _ | .function _ | .typedesc _ =>
      inferInstanceAs (Decidable True)

/-- A type below which there are no markers, and no forms but those. -/
structure Graph.Verbatim (g : Graph) (d : TypeId) : Prop where
  lt : d.index < g.size
  markerFree : g.MarkerFree d
  forms : ∀ x node, g.Reaches d x → g.node? x = some node →
    node.kind.Verbatim

/-- The parts of a verbatim type are verbatim. -/
theorem Graph.Verbatim.child {g : Graph} {d c : TypeId} {node : Node}
    (hg : g.Closed) (h : g.Verbatim d) (hn : g.node? d = some node)
    (hc : c ∈ node.kind.children) : g.Verbatim c where
  lt := hg.closedOn.child h.lt hn c hc
  markerFree := h.markerFree.child hn hc
  forms x node' hx :=
    h.forms x node' (.trans (.step .refl ⟨node, hn, hc⟩) hx)

/-- A type from a list that is not left is verbatim if all of it is. -/
theorem Graph.Verbatim.of_list {g : Graph} {d : TypeId}
    (ids : List TypeId)
    (h : ∀ id ∈ ids, ∃ node ∈ g.node? id,
      (∀ c ∈ node.kind.children, c ∈ ids) ∧ node.isMarker = false ∧
        node.kind.Verbatim)
    (hd : d ∈ ids) : g.Verbatim d := by
  obtain ⟨hlt, hall⟩ := forall_reaches_of_list h hd
  exact ⟨hlt, fun x hx node hn => (hall x node hx hn).1,
    fun x node hx hn => (hall x node hx hn).2⟩

namespace Instantiation

variable {ctx : Context} {g₀ g g' : Graph} {d d' x y y' : TypeId}
  {s s' s'' : State}

-- ============================================================ the states

/-- The state has grown out of a graph: no node has changed, and the ids
that frames were given are added ones. -/
structure State.Upon (g₀ : Graph) (s : State) : Prop where
  tidy : s.Tidy
  slots : s.SlotsAdded g₀
  nodes : g₀.Extends s.graph

/-- A state that has grown further has grown out of the graph. -/
theorem State.Upon.grows (h : s.Upon g₀) (hgrows : Grows s s') :
    s'.Upon g₀ where
  tidy := hgrows.tidy
  slots := h.slots.grows h.nodes hgrows
  nodes := h.nodes.trans hgrows.nodes

theorem State.Upon.enter {node : Node} (h : s.Upon g₀)
    (hopen : ∀ f ∈ s.frames, f.declared ≠ d)
    (hn : s.graph.node? d = some node)
    (hself : ¬ StandsForItself s.graph d node) :
    ({ s with frames := { declared := d } :: s.frames } : State).Upon
      g₀ where
  tidy := h.tidy.enter hopen hn hself
  slots := h.slots.enter d
  nodes := h.nodes

-- ======================================================== where it lands

/-- What a type was resolved to: itself, or the id of its frame, or an
id that was added meanwhile and has its node. -/
inductive Landed (g₀ : Graph) (d : TypeId) (s : State) (s' : State) :
    TypeId → Prop where
  | itself (old : d.index < g₀.size) : Landed g₀ d s s' d
  | again {y : TypeId} (frame : ⟨d, some y⟩ ∈ s'.frames) :
      Landed g₀ d s s' y
  | new {y : TypeId} {node : Node} (added : s.graph.size ≤ y.index)
      (node? : s'.graph.node? y = some node)
      (composite : node.kind.isLeaf = false) : Landed g₀ d s s' y

/-- What has landed stays where it is. -/
theorem Landed.grows (h : Landed g₀ d s s' y) (hgrows : Grows s' s'') :
    Landed g₀ d s s'' y := by
  cases h with
  | itself hold => exact .itself hold
  | again hframe => exact .again (Frame.mem_of_fills hgrows.frames hframe)
  | new hadded hn hleaf =>
      exact .new hadded (hgrows.nodes _ _ hn) hleaf

/-- The id of an open frame has a placeholder. -/
theorem State.Tidy.slot_ne (hs : s.Tidy)
    (hframe : ⟨d, some y⟩ ∈ s.frames) {node : Node}
    (hn : s.graph.node? x = some node)
    (hleaf : node.kind.isLeaf = false) : x ≠ y := by
  rintro rfl
  rw [(hs.reserved _ hframe x rfl).2.2] at hn
  cases hn
  cases hleaf

/-- Types that were resolved one after the other landed apart. -/
theorem Landed.ne (hs : s.Upon g₀) (hgrows : Grows s s')
    (hgrows' : Grows s' s'') (h : Landed g₀ d s s' y)
    (h' : Landed g₀ d' s' s'' y') (hne : d ≠ d') : y ≠ y' := by
  have hlater := h.grows hgrows'
  have hslots := ((hs.grows hgrows).grows hgrows').slots
  have hle := hs.nodes.size_le
  have hle' := hgrows.nodes.size_le
  cases h' with
  | itself hold =>
      cases hlater with
      | itself => exact hne
      | again hframe =>
          have := hslots _ hframe y rfl
          rintro rfl
          omega
      | new hadded =>
          rintro rfl
          omega
  | again hframe' =>
      have hadded' := hslots _ hframe' y' rfl
      cases hlater with
      | itself hold =>
          rintro rfl
          omega
      | again hframe =>
          rintro rfl
          -- both are ids of open frames, which are apart
          have hframes : (⟨d, some y⟩ : Frame) ≠ ⟨d', some y⟩ :=
            fun heq => hne (congrArg Frame.declared heq)
          exact (hgrows'.tidy.apart.forall hframe hframe' hframes).2 y rfl
            rfl
      | new _ hn hleaf => exact hgrows'.tidy.slot_ne hframe' hn hleaf
  | new hadded' =>
      rintro rfl
      cases h with
      | itself hold => omega
      | again hframe =>
          have := hgrows.tidy.slot_lt hframe rfl
          omega
      | new _ hn =>
          have := Graph.index_lt_of_node? hn
          omega

/-- A verbatim type lands in one of these ways, within the limit. -/
def Lands (g₀ : Graph) (d : TypeId) (s : State) (y : TypeId)
    (s' : State) : Prop :=
  s.Upon g₀ → g₀.Verbatim d → s'.work.limitReported = false →
    Landed g₀ d s s' y

/-- Each part has landed while the parts were resolved. -/
theorem Lands.exists_landed {ds ys : List TypeId}
    (h : Threads (fun d s y s' =>
      Resolves ctx d s y s' ∧ Lands g₀ d s y s') ds s ys s')
    (hs : s.Upon g₀) (hds : ∀ d ∈ ds, g₀.Verbatim d)
    (hlimit : s'.work.limitReported = false) :
    ∀ y ∈ ys, ∃ d ∈ ds, ∃ s₁ s₂, Grows s s₁ ∧ Grows s₁ s₂ ∧
      Landed g₀ d s₁ s₂ y := by
  induction h with
  | nil => exact fun y hy => nomatch hy
  | cons hd hrest ih =>
      rw [List.forall_mem_cons] at hds
      obtain ⟨hrun, hlands⟩ := hd
      have hgrows := hrun.grows hs.tidy
      have hgrows' := Resolves.grows_threads hrest hgrows.tidy
      rw [List.forall_mem_cons]
      constructor
      · exact ⟨_, List.mem_cons_self, _, _, .refl hs.tidy, hgrows,
          hlands hs hds.1
            (hgrows'.records.limitReported_eq_false hlimit)⟩
      · intro y' hy'
        obtain ⟨d', hd', s₂, s₃, h₂, h₃, hlanded⟩ :=
          ih (hs.grows hgrows) hds.2 hlimit y' hy'
        exact ⟨d', List.mem_cons_of_mem _ hd', s₂, s₃, hgrows.trans h₂,
          h₃, hlanded⟩

/-- Different parts are resolved to different types. -/
theorem Lands.nodup {ds ys : List TypeId}
    (h : Threads (fun d s y s' =>
      Resolves ctx d s y s' ∧ Lands g₀ d s y s') ds s ys s')
    (hs : s.Upon g₀) (hds : ∀ d ∈ ds, g₀.Verbatim d)
    (hlimit : s'.work.limitReported = false) (hnodup : ds.Nodup) :
    ys.Nodup := by
  induction h with
  | nil => exact .nil
  | cons hd hrest ih =>
      rw [List.forall_mem_cons] at hds
      rw [List.nodup_cons] at hnodup ⊢
      obtain ⟨hrun, hlands⟩ := hd
      have hgrows := hrun.grows hs.tidy
      have hgrows' := Resolves.grows_threads hrest hgrows.tidy
      have hlanded := hlands hs hds.1
        (hgrows'.records.limitReported_eq_false hlimit)
      refine ⟨fun hy => ?_, ih (hs.grows hgrows) hds.2 hlimit hnodup.2⟩
      obtain ⟨d', hd', s₂, s₃, h₂, h₃, hlanded'⟩ :=
        Lands.exists_landed hrest (hs.grows hgrows) hds.2 hlimit _ hy
      refine Landed.ne hs (hgrows.trans h₂) h₃ (hlanded.grows h₂) hlanded'
        ?_ rfl
      rintro rfl
      exact hnodup.1 hd'

-- ============================================================= rebuilding

theorem isLeaf_rebuiltNode {node : Node} {keeps : Bool}
    {parts : List TypeId} (h : node.kind.isLeaf = false) :
    (rebuiltNode node keeps parts).kind.isLeaf = false := by
  show (rebuiltKind node.kind parts).isLeaf = false
  rw [rebuiltKind_eq, isLeaf_mergedKind]
  cases hkind : node.kind with
  | leaf form =>
      rw [hkind] at h
      cases h
  | array | tuple | map | record | union | error | stream | table
  | function | object | typedesc | xml => rfl

/-- A union of different parts is rebuilt as it is. -/
theorem rebuiltKind_of_nodup {kind : Kind} {parts : List TypeId}
    (h : ∀ members, kind = .union members → parts.Nodup) :
    rebuiltKind kind parts = kind.withChildren parts := by
  cases kind with
  | union members =>
      exact congrArg Kind.union (eraseDups_of_nodup (h members rfl))
  | leaf | array | tuple | map | record | error | stream | table
  | function | object | typedesc | xml => rfl

/-- The members of a verbatim union differ. -/
theorem Lands.parts_nodup {node : Node} {parts : List TypeId}
    (hform : node.kind.Verbatim)
    (h : Threads (fun d s y s' =>
      Resolves ctx d s y s' ∧ Lands g₀ d s y s') node.kind.children s
      parts s')
    (hs : s.Upon g₀) (hds : ∀ d ∈ node.kind.children, g₀.Verbatim d)
    (hlimit : s'.work.limitReported = false) {members : List TypeId}
    (hkind : node.kind = .union members) :
    parts.Nodup ∧ 2 ≤ parts.length := by
  have hlength := h.length_eq
  rw [hkind] at hform
  refine ⟨Lands.nodup h hs hds hlimit ?_, ?_⟩
  · rw [hkind]
    exact hform.2
  · rw [hlength, hkind]
    exact hform.1

/-- So it is not left with one member. -/
theorem Lands.not_collapsed {node : Node} {keeps : Bool}
    {parts : List TypeId} (hform : node.kind.Verbatim)
    (h : Threads (fun d s y s' =>
      Resolves ctx d s y s' ∧ Lands g₀ d s y s') node.kind.children s
      parts s')
    (hs : s.Upon g₀) (hds : ∀ d ∈ node.kind.children, g₀.Verbatim d)
    (hlimit : s'.work.limitReported = false) (member : TypeId) :
    (rebuiltNode node keeps parts).kind ≠ .union [member] := by
  intro hone
  obtain ⟨⟨members, hkind⟩, hmerged⟩ := union_of_rebuiltNode hone
  obtain ⟨hnodup, htwo⟩ :=
    Lands.parts_nodup hform h hs hds hlimit hkind
  rw [eraseDups_of_nodup hnodup] at hmerged
  rw [← hmerged] at htwo
  exact absurd htwo (by simp)

/-- Every resolved type lands in one of these ways. -/
theorem Resolves.lands (hg₀ : g₀.Closed)
    (h : Resolves ctx d s y s') : Lands g₀ d s y s' := by
  refine resolve_induction (motive := Lands g₀) ?_ h
  intro d node s y s' hn hrun hend hs hd hlimit
  have hnode : g₀.node? d = some node :=
    (hs.nodes.node?_eq hd.lt).symm.trans hn
  have hchild := fun c hc => hd.child hg₀ hnode (c := c) hc
  cases hend with
  | bound hkey =>
      have hmarker := node.isMarker_of_markerKey? hkey
      rw [hd.markerFree d .refl node hnode] at hmarker
      cases hmarker
  | itself => exact .itself hd.lt
  | stopped _ _ _ hmet _ =>
      rw [hmet] at hlimit
      cases hlimit
  | @again work id s' _ hopen htell hslot =>
      have htold : Grows s { s with work } :=
        .of_eq hs.tidy htell.types rfl htell.records
      exact .again (mem_of_cycleSlot htold.tidy hopen hslot)
  | @collapsed keeps parts s₁ s₂ _ _ hopen hself hthreads hleave hone =>
      have hinside := hs.enter hopen hn hself
      obtain ⟨frames, -, rfl, -, -⟩ :=
        (Resolves.grows_threads hthreads hinside.tidy).leave hleave
      exact absurd hone (Lands.not_collapsed
        (hd.forms d node .refl hnode) hthreads hinside hchild hlimit y)
  | @placed keeps parts s₁ s₂ slot _ work _ hopen hself _ hthreads
      hleave _ hplace =>
      have hgrows :=
        Resolves.grows_threads hthreads (hs.enter hopen hn hself).tidy
      obtain ⟨hplaced, hle, -⟩ := hgrows.place hleave hplace
      refine .new hle ((hplaced.node? y).trans (if_pos rfl)) ?_
      exact isLeaf_rebuiltNode
        (Bool.eq_false_iff.mpr fun hleaf => hself (.inl hleaf))

-- ============================================================ unfolding

/-- A type is copied, inside types that are being copied: these are
given with their copies. It stands for itself, or leads back to the copy
that is being made of it, or has a copy of its own over copies of its
parts. -/
inductive Unfolds (g g' : Graph) :
    List (TypeId × TypeId) → TypeId → TypeId → Prop where
  | itself {above : List (TypeId × TypeId)} {x : TypeId} {node : Node}
      (node? : g.node? x = some node) (node?' : g'.node? x = some node)
      (whole : node.kind.isLeaf = true ∨ x = .error)
      (outside : ∀ p ∈ above, p.1 ≠ x ∧ p.2 ≠ x) :
      Unfolds g g' above x x
  | again {above : List (TypeId × TypeId)} {x y : TypeId}
      (inside : (x, y) ∈ above) : Unfolds g g' above x y
  | copied {above : List (TypeId × TypeId)} {x y : TypeId}
      {node copy : Node} {parts : List TypeId}
      (node? : g.node? x = some node) (copy? : g'.node? y = some copy)
      (composite : node.kind.isLeaf = false) (custom : x ≠ .error)
      (new : g.size ≤ y.index) (name : copy.name = node.name)
      (unmarked : copy.isMarker = false)
      (kind : copy.kind = node.kind.withChildren parts)
      (length : parts.length = node.kind.children.length)
      (outside : ∀ p ∈ above, p.1 ≠ x ∧ p.2 ≠ y)
      (unfolds : ∀ p ∈ node.kind.children.zip parts,
        Unfolds g g' ((x, y) :: above) p.1 p.2) :
      Unfolds g g' above x y

/-- The pairs are the open frames with the ids of their results. A frame
that was not given an id so far gets one that is not there yet. -/
def State.Foresees (g₀ : Graph) (s : State)
    (above : List (TypeId × TypeId)) : Prop :=
  List.Forall₂ (fun f p => f.declared = p.1 ∧ g₀.size ≤ p.2.index ∧
    (f.slot = some p.2 ∨ f.slot = none ∧ s.graph.size ≤ p.2.index))
    s.frames above

/-- What is foreseen was so before. -/
theorem State.Foresees.before {above : List (TypeId × TypeId)}
    (h : s'.Foresees g₀ above) (hgrows : Grows s s') :
    s.Foresees g₀ above := by
  have hsize := hgrows.nodes.size_le
  have hframes := hgrows.frames
  unfold State.Foresees at h ⊢
  generalize s.frames = fs at hframes ⊢
  generalize s'.frames = fs' at hframes h
  induction hframes generalizing above with
  | nil =>
      cases h
      exact .nil
  | cons hfills _ ih =>
      cases h with
      | cons hpair hrest =>
          obtain ⟨hdeclared, hnew, hslot⟩ := hpair
          refine .cons ⟨hfills.1.symm.trans hdeclared, hnew, ?_⟩ (ih hrest)
          rcases hfills.2 with hsame | ⟨hnone, id, hid, hle⟩
          · rw [← hsame]
            exact hslot.imp_right fun hlater =>
              ⟨hlater.1, Nat.le_trans hsize hlater.2⟩
          · -- the frame was given its id in between
            refine .inr ⟨hnone, ?_⟩
            rcases hslot with hsome | ⟨hlater, -⟩
            · cases hsome.symm.trans hid
              exact hle
            · rw [hlater] at hid
              cases hid

/-- The id of an open frame is the one foreseen. -/
theorem State.Foresees.mem {above : List (TypeId × TypeId)}
    (h : s.Foresees g₀ above) (hframe : ⟨d, some y⟩ ∈ s.frames) :
    (d, y) ∈ above := by
  obtain ⟨⟨x, z⟩, hp, hdeclared, -, hslot⟩ :=
    exists_mem_of_forall₂ h hframe
  cases hdeclared
  rcases hslot with hsome | ⟨hnone, -⟩
  · cases hsome
    exact hp
  · cases hnone

/-- What is foreseen is not there yet, or a placeholder. -/
theorem State.Foresees.ne {above : List (TypeId × TypeId)}
    (h : s.Foresees g₀ above) (hs : s.Tidy) {node : Node}
    (hn : s.graph.node? y = some node)
    (hleaf : node.kind.isLeaf = false) : ∀ p ∈ above, p.2 ≠ y := by
  intro p hp
  obtain ⟨f, hf, -, -, hslot⟩ := exists_mem_of_forall₂ h.flip hp
  rcases hslot with hsome | ⟨-, hle⟩
  · have hframe : ⟨f.declared, some p.2⟩ ∈ s.frames := hsome ▸ hf
    exact (hs.slot_ne hframe hn hleaf).symm
  · have hlt := Graph.index_lt_of_node? hn
    rintro rfl
    omega

/-- A verbatim type that was resolved within the limit is copied, as far
as every larger graph shows that keeps the nodes with parts. -/
def Copying (g₀ : Graph) (d : TypeId) (s : State) (y : TypeId)
    (s' : State) : Prop :=
  s.Upon g₀ → g₀.Verbatim d → s'.work.limitReported = false →
    ∀ g above, g₀.Extends g →
      (∀ id node, s'.graph.node? id = some node →
        node.kind.isLeaf = false → g.node? id = some node) →
      s'.Foresees g₀ above → Unfolds g₀ g above d y

/-- The parts of a type are copied one after the other. -/
theorem Copying.threads {ds ys : List TypeId}
    (h : Threads (fun d s y s' =>
      Resolves ctx d s y s' ∧ Copying g₀ d s y s') ds s ys s')
    (hs : s.Upon g₀) (hds : ∀ d ∈ ds, g₀.Verbatim d)
    (hlimit : s'.work.limitReported = false)
    {above : List (TypeId × TypeId)} (hg : g₀.Extends g)
    (hkept : ∀ id node, s'.graph.node? id = some node →
      node.kind.isLeaf = false → g.node? id = some node)
    (habove : s'.Foresees g₀ above) :
    List.Forall₂ (Unfolds g₀ g above) ds ys := by
  induction h with
  | nil => exact .nil
  | cons hd hrest ih =>
      rw [List.forall_mem_cons] at hds
      obtain ⟨hrun, hcopying⟩ := hd
      have hgrows := hrun.grows hs.tidy
      have hgrows' := Resolves.grows_threads hrest hgrows.tidy
      refine .cons ?_ (ih (hs.grows hgrows) hds.2 hlimit hkept habove)
      exact hcopying hs hds.1
        (hgrows'.records.limitReported_eq_false hlimit) g above hg
        (fun id node hn => hkept id node (hgrows'.nodes id node hn))
        (habove.before hgrows')

/-- The frame that ends had the id of the result, or none. -/
theorem State.Foresees.reopen {above : List (TypeId × TypeId)}
    {slot : Option TypeId} {frames : List Frame} {node : Node}
    {work : Workspace}
    (h : ({ work, frames } : State).Foresees g₀ above)
    (hcons : s.frames = ⟨d, slot⟩ :: frames)
    (hplaced : Placed slot node s.work y work)
    (hnew : g₀.size ≤ y.index) : s.Foresees g₀ ((d, y) :: above) := by
  have hsize : s.graph.size ≤ work.types.graph.size :=
    Graph.size_le_of_put hplaced.node?
  unfold State.Foresees
  rw [hcons]
  refine .cons ⟨rfl, hnew, ?_⟩ (h.imp fun f p hpair => ?_)
  · refine hplaced.slot_eq.imp id fun hnone => ⟨hnone.1, ?_⟩
    rw [hnone.2, Layer.nextId_eq]
    exact Nat.le_refl _
  · obtain ⟨hdeclared, hp, hslot⟩ := hpair
    exact ⟨hdeclared, hp, hslot.imp_right fun hlater =>
      ⟨hlater.1, Nat.le_trans hsize hlater.2⟩⟩

/-- The pairs are of types that are being copied. -/
theorem State.Foresees.outside {above : List (TypeId × TypeId)}
    (h : s.Foresees g₀ above) (hopen : ∀ f ∈ s.frames, f.declared ≠ d) :
    ∀ p ∈ above, p.1 ≠ d ∧ g₀.size ≤ p.2.index := by
  intro p hp
  obtain ⟨f, hf, hdeclared, hnew, -⟩ := exists_mem_of_forall₂ h.flip hp
  exact ⟨hdeclared ▸ hopen f hf, hnew⟩

/-- A copy has the name of the type it is a copy of. -/
theorem name_rebuiltNode {node : Node} {keeps : Bool}
    {parts : List TypeId} (hfree : g.MarkerFree d)
    (hkeeps : keeps = true ↔ node.name.isSome = true ∧ g.MarkerFree d) :
    (rebuiltNode node keeps parts).name = node.name := by
  show (if keeps then node.name else none) = node.name
  cases hname : node.name with
  | none => exact ite_self _
  | some name => rw [if_pos (hkeeps.mpr ⟨by rw [hname]; rfl, hfree⟩)]

/-- Every resolved type is copied. -/
theorem Resolves.copying (hg₀ : g₀.WellFormed)
    (h : Resolves ctx d s y s') : Copying g₀ d s y s' := by
  refine resolve_induction (motive := Copying g₀) ?_ h
  intro d node s y s' hn hrun hend hs hd hlimit g above hg hkept habove
  have hnode : g₀.node? d = some node :=
    (hs.nodes.node?_eq hd.lt).symm.trans hn
  have hchild := fun c hc => hd.child hg₀.closed hnode (c := c) hc
  have hform := hd.forms d node .refl hnode
  have hlands : ∀ {ds ys s s'}, Threads (fun d s y s' =>
      Resolves ctx d s y s' ∧ Copying g₀ d s y s') ds s ys s' →
      Threads (fun d s y s' =>
        Resolves ctx d s y s' ∧ Lands g₀ d s y s') ds s ys s' :=
    fun hthreads => hthreads.mono fun _ _ _ _ hpart =>
      ⟨hpart.1, hpart.1.lands hg₀.closed⟩
  cases hend with
  | bound hkey =>
      have hmarker := node.isMarker_of_markerKey? hkey
      rw [hd.markerFree d .refl node hnode] at hmarker
      cases hmarker
  | itself _ hopen hself =>
      have houtside : ∀ p ∈ above, p.1 ≠ d ∧ p.2 ≠ d := by
        intro p hp
        obtain ⟨hne, hnew⟩ := habove.outside hopen p hp
        refine ⟨hne, ?_⟩
        rintro rfl
        exact Nat.not_lt.mpr hnew hd.lt
      refine .itself hnode (hg _ _ hnode) ?_ houtside
      rcases hself with hleaf | ⟨herror, -⟩ | ⟨⟨constraint, hxml⟩, -⟩
      · exact .inl hleaf
      · exact .inr herror
      · rw [hxml] at hform
        exact hform.elim
  | stopped _ _ _ hmet _ =>
      rw [hmet] at hlimit
      cases hlimit
  | @again work id s' _ hopen htell hslot =>
      have htold : Grows s { s with work } :=
        .of_eq hs.tidy htell.types rfl htell.records
      exact .again (habove.mem (mem_of_cycleSlot htold.tidy hopen hslot))
  | @collapsed keeps parts s₁ s₂ _ _ hopen hself hthreads hleave hone =>
      have hinside := hs.enter hopen hn hself
      obtain ⟨frames, -, rfl, -, -⟩ :=
        (Resolves.grows_threads hthreads hinside.tidy).leave hleave
      exact absurd hone (Lands.not_collapsed hform (hlands hthreads)
        hinside hchild hlimit y)
  | @placed keeps parts s₁ s₂ slot _ work _ hopen hself hkeeps hthreads
      hleave _ hplace =>
      have hinside := hs.enter hopen hn hself
      have hgrows := Resolves.grows_threads hthreads hinside.tidy
      obtain ⟨hplaced, hle, hgrows'⟩ := hgrows.place hleave hplace
      obtain ⟨frames, hcons, rfl, -, -⟩ := hgrows.leave hleave
      have hlimit₁ := hplaced.records.limitReported_eq_false hlimit
      have hnew : g₀.size ≤ y.index := Nat.le_trans hs.nodes.size_le hle
      have hleaf : node.kind.isLeaf = false :=
        Bool.eq_false_iff.mpr fun hleaf => hself (.inl hleaf)
      have hcopy : work.types.graph.node? y
          = some (rebuiltNode node keeps parts) :=
        (hplaced.node? y).trans (if_pos rfl)
      have hslot : slot = some y →
          s₁.graph.node? y = some (.anonymous (.leaf .noType)) :=
        fun hid => (hgrows.tidy.top_reserved hcons hid).2.2
      -- the parts are inside of the type, and its copy has their copies
      have hparts : List.Forall₂ (Unfolds g₀ g ((d, y) :: above))
          node.kind.children parts :=
        Copying.threads hthreads hinside hchild hlimit₁ hg
          (fun id node hn hleaf =>
            hkept id node (hplaced.kept hslot id node hn hleaf) hleaf)
          (habove.reopen hcons hplaced hnew)
      have houtside : ∀ p ∈ above, p.1 ≠ d ∧ p.2 ≠ y := fun p hp =>
        ⟨((habove.before hgrows').outside hopen p hp).1,
          habove.ne hgrows'.tidy hcopy (isLeaf_rebuiltNode hleaf) p hp⟩
      have hkind : rebuiltKind node.kind parts
          = node.kind.withChildren parts :=
        rebuiltKind_of_nodup fun members hunion =>
          (Lands.parts_nodup hform (hlands hthreads) hinside hchild hlimit₁
            hunion).1
      have hcustom : d ≠ .error := by
        rintro rfl
        cases (hg₀.extends_builtin _ _ rfl).symm.trans hnode
        exact hself (.inr (.inl ⟨rfl, _, rfl⟩))
      have hfree : s.graph.MarkerFree d :=
        hd.markerFree.extends hg₀.closed.closedOn hs.nodes hd.lt
      exact .copied hnode (hkept y _ hcopy (isLeaf_rebuiltNode hleaf))
        hleaf hcustom hnew (name_rebuiltNode hfree hkeeps) rfl hkind
        hparts.length_eq.symm houtside
        fun p hp => (List.forall₂_iff_zip.mp hparts).2 hp

end Instantiation

end TypeParams
