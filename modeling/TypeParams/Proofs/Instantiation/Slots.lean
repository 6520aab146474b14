/-
Every id that an instantiation reserves is defined.

An id is handed out while a type is being rebuilt and defined when the
frame of that type ends; in between the frame holds it. So the reserved
ids are at any time those that were reserved to begin with and those
that open frames hold, each of them once (`State.Owes`).

# One step

A frame that ends without an id owes nothing, and one that ends with an
id defines it, whichever way the rebuilding went: a union that was left
with one member does not collapse if it has been given an id, since
something refers to it by then. Giving an id to a frame reserves it, and
it is given to one frame only, because frames are for different types
(`slots_fill`).

# A whole instantiation

An instantiation starts without frames and ends without, so it leaves
just the ids reserved that were (`Resolves.pending_perm`). Together with
what matching does, which reserves nothing, a resolution that is
committed owes no node.
-/
import TypeParams.Proofs.Instantiation.Growth

namespace TypeParams.Instantiation

-- ======================================================== ids in frames

/-- The ids that open frames hold. -/
def slots (frames : List Frame) : List TypeId := frames.filterMap (·.slot)

theorem slots_cons (declared : TypeId) (slot : Option TypeId)
    (frames : List Frame) :
    slots (⟨declared, slot⟩ :: frames) = slot.toList ++ slots frames := by
  cases slot with
  | none => rfl
  | some id => rfl

/-- Where no frame is for the declared type, none is given an id. -/
theorem map_fill_of_ne {declared id : TypeId} {frames : List Frame}
    (h : ∀ f ∈ frames, f.declared ≠ declared) :
    frames.map (Frame.fill declared id) = frames := by
  conv => rhs; rw [← List.map_id frames]
  refine List.map_congr_left fun f hf => ?_
  unfold Frame.fill
  rw [if_neg (h f hf)]
  rfl

/-- Of frames that are apart, one is given the id. -/
theorem slots_fill {declared id : TypeId} {frames : List Frame}
    (hapart : frames.Pairwise Frame.Apart)
    (hnone : ⟨declared, none⟩ ∈ frames) :
    (slots (frames.map (Frame.fill declared id))).Perm
      (id :: slots frames) := by
  induction frames with
  | nil => cases hnone
  | cons f frames ih =>
      obtain ⟨hfirst, hrest⟩ := List.pairwise_cons.mp hapart
      rw [List.map_cons]
      rcases List.mem_cons.mp hnone with rfl | hmem
      · -- the frames behind are for other types
        rw [map_fill_of_ne fun f hf => (hfirst f hf).1.symm]
        unfold Frame.fill
        rw [if_pos rfl]
        exact .refl _
      · have hne : f.declared ≠ declared := (hfirst _ hmem).1
        obtain ⟨own, slot⟩ := f
        have hkept : Frame.fill declared id ⟨own, slot⟩ = ⟨own, slot⟩ :=
          if_neg hne
        rw [hkept, slots_cons, slots_cons]
        exact ((ih hrest hmem).append_left _).trans List.perm_middle

-- ============================================================== reserved

/-- Over a layer, the reserved ids are those of the layer and those that
open frames hold. -/
structure State.Owes (start : Layer) (s : State) : Prop where
  base : s.work.types.base = start.base
  pending : s.work.types.pending.Perm (slots s.frames ++ start.pending)

variable {ctx : Context} {start : Layer} {s s' : State}

/-- Where types and frames stay the same, so do the ids that are owed. -/
theorem State.Owes.of_eq (h : s.Owes start)
    (htypes : s'.work.types = s.work.types)
    (hframes : s'.frames = s.frames) : s'.Owes start := by
  refine ⟨htypes ▸ h.base, ?_⟩
  rw [htypes, hframes]
  exact h.pending

/-- A new frame holds no id. -/
theorem State.Owes.enter (h : s.Owes start) (declared : TypeId) :
    ({ s with frames := { declared } :: s.frames } : State).Owes start :=
  ⟨h.base, h.pending⟩

/-- An id that is reserved is given to one frame. -/
theorem State.Owes.reserve (h : s.Owes start) (hs : s.Tidy)
    {declared : TypeId} (hnone : ⟨declared, none⟩ ∈ s.frames) :
    State.Owes start
      { work := { s.work with types := s.work.types.reserve.2 }
        frames := s.frames.map
          (Frame.fill declared s.work.types.nextId) } := by
  refine ⟨h.base, ?_⟩
  show (s.work.types.pending ++ [s.work.types.nextId]).Perm _
  refine (List.perm_append_singleton _ _).trans ?_
  refine (h.pending.cons _).trans ?_
  exact (slots_fill hs.apart hnone).symm.append_right _

/-- A frame that ends without an id owes none. -/
theorem State.Owes.leave {declared : TypeId} {frames : List Frame}
    (h : s.Owes start) (hframes : s.frames = ⟨declared, none⟩ :: frames) :
    ({ s with frames } : State).Owes start := by
  refine ⟨h.base, ?_⟩
  have hpending := h.pending
  rw [hframes, slots_cons] at hpending
  exact hpending

/-- A frame that ends with an id defines it. -/
theorem State.Owes.place {declared id : TypeId} {slot : Option TypeId}
    {frames : List Frame} {node : Node} {work : Workspace}
    (h : s.Owes start) (hframes : s.frames = ⟨declared, slot⟩ :: frames)
    (hslot : ∀ j, slot = some j → j ∈ s.work.types.pending)
    (hplace : place slot node s.work = .ok id work) :
    (⟨work, frames⟩ : State).Owes start := by
  have hpending := h.pending
  rw [hframes, slots_cons] at hpending
  rcases place_run hslot hplace with
    ⟨rfl, rfl, rfl⟩ | ⟨rfl, types, hdef, rfl⟩
  · exact ⟨h.base, hpending⟩
  · obtain ⟨-, rfl⟩ := Layer.define_eq_ok.mp hdef
    refine ⟨h.base, ?_⟩
    have herase := hpending.erase id
    rwa [Option.toList_some, List.singleton_append, List.cons_append,
      List.erase_cons_head] at herase

-- =========================================================== all levels

/-- What a type is owed before it is resolved and after. -/
def Settles (start : Layer) (_declared : TypeId) (s : State) (_y : TypeId)
    (s' : State) : Prop :=
  s.Tidy → s.Owes start → s'.Owes start

/-- Nothing is owed that was not, after the parts of a type were
resolved one after the other. -/
theorem Settles.threads {ds ys : List TypeId}
    (h : Threads (fun d s y s' =>
      Resolves ctx d s y s' ∧ Settles start d s y s') ds s ys s')
    (hs : s.Tidy) (howes : s.Owes start) : s'.Owes start := by
  induction h with
  | nil => exact howes
  | cons hd _ ih =>
      exact ih (hd.1.grows hs).tidy (hd.2 hs howes)

/-- Every id that was handed out meanwhile is defined or held by a frame
that is still open. -/
theorem Resolves.settles {declared y : TypeId}
    (h : Resolves ctx declared s y s') :
    Settles start declared s y s' := by
  refine resolve_induction (motive := Settles start) ?_ h
  intro d node s y s' hn _ hend hs howes
  cases hend with
  | bound _ => exact howes
  | itself _ _ _ => exact howes
  | stopped _ _ _ _ htypes => exact howes.of_eq htypes rfl
  | @again work id s' _ hopen htell hslot =>
      have htold : Grows s { s with work } :=
        .of_eq hs htell.types rfl htell.records
      have howes' : ({ s with work } : State).Owes start :=
        howes.of_eq htell.types rfl
      rcases cycleSlot_cases htold.tidy hopen hslot with
        ⟨rfl, -⟩ | ⟨hnone, rfl, rfl⟩
      · exact howes'
      · exact howes'.reserve htold.tidy hnone
  | collapsed _ hopen hself hthreads hleave _ =>
      have htidy := hs.enter hopen hn hself
      have howes' := Settles.threads hthreads htidy (howes.enter d)
      obtain ⟨frames, hframes, rfl, -⟩ :=
        (Resolves.grows_threads hthreads htidy).leave hleave
      exact howes'.leave hframes
  | placed _ hopen hself _ hthreads hleave _ hplace =>
      have htidy := hs.enter hopen hn hself
      have hgrows := Resolves.grows_threads hthreads htidy
      have howes' := Settles.threads hthreads htidy (howes.enter d)
      obtain ⟨frames, hframes, rfl, -⟩ := hgrows.leave hleave
      refine howes'.place hframes (fun j hj => ?_) hplace
      exact (hgrows.tidy.top_reserved hframes hj).1

/-- An instantiation that starts without frames leaves the store below
and the reserved ids as they were. -/
theorem Resolves.pending_perm {declared y : TypeId}
    (h : Resolves ctx declared s y s') (hs : s.frames = []) :
    s'.work.types.base = s.work.types.base ∧
      s'.work.types.pending.Perm s.work.types.pending := by
  have htidy : s.Tidy := by
    refine ⟨hs ▸ .nil, ?_, ?_⟩
    · rw [hs]
      exact fun f hf => nomatch hf
    · rw [hs]
      exact fun f hf => nomatch hf
  have howes : s.Owes s.work.types := ⟨rfl, hs ▸ .refl _⟩
  obtain ⟨hbase, hpending⟩ := h.settles htidy howes
  have hframes := (h.grows htidy).frames
  rw [hs, List.forall₂_nil_left_iff] at hframes
  rw [hframes] at hpending
  exact ⟨hbase, hpending⟩

end TypeParams.Instantiation
