/-
Which markers are found, and in which order.

A type can be read from left to right, part by part, with every part
written out as often as it stands there; only inside itself a type is
not written out again, and a marker never is. The markers met on the way
are its trail (`Graph.markerTrail`). The walk that lists markers is more
economical: it looks into a type once. It finds the markers of the trail
all the same, each where the trail has it first (`markers_eq`).

The walk leaves a type out if it has looked into it before, in which
case it has found all that the trail of the type holds, or else it is
inside the type at this moment, in which case the trail leaves it out
too. `Settled` says so of what the walk has visited and found, given the
types it is inside of.

So the listing has the markers that the type meets. The walk that only
asks whether there are any stops at the first; it comes to the same,
since on the way to a marker that is reached the first marker is met
(`Reaches.exists_met`).
-/
import TypeParams.Proofs.FirstOccurrences
import TypeParams.Proofs.Marker

namespace TypeParams.Graph

variable {g : Graph} {P : TypeId → Prop} {id m : TypeId} {node : Node}
  {path path' found visited : List TypeId}

-- ============================================================ the trail

/-- The markers of a type that stands inside the given types, from left
to right. -/
def markerTrail (g : Graph) (path : List TypeId) (id : TypeId) :
    List TypeId :=
  match _ : g.node? id with
  | none => []
  | some node =>
      if node.isMarker then [id]
      else if _ : id ∈ path then []
      else
        node.kind.children.flatMap fun c => g.markerTrail (id :: path) c
termination_by remaining (fun _ => 1) g.ids path
decreasing_by exact remaining_ids_lt ‹_› ‹_›

/-- The trail at a node: a marker is on it, a type that it is inside of
is not written out again, and any other is read part by part. -/
theorem markerTrail_of_node (hn : g.node? id = some node) :
    g.markerTrail path id =
      if node.isMarker then [id]
      else if id ∈ path then []
      else node.kind.children.flatMap (g.markerTrail (id :: path)) := by
  rw [markerTrail]
  split
  next hn' =>
    rw [hn] at hn'
    cases hn'
  next node' hn' =>
    rw [hn] at hn'
    cases hn'
    rfl

theorem markerTrail_of_none (hn : g.node? id = none) :
    g.markerTrail path id = [] := by
  rw [markerTrail]
  split
  next => rfl
  next hn' =>
    rw [hn] at hn'
    cases hn'

/-- What is met from a part is met from the type. -/
theorem Meets.of_child {c : TypeId} (hn : g.node? id = some node)
    (hm : node.isMarker = false) (hc : c ∈ node.kind.children)
    (h : g.Meets c m) : g.Meets id m := by
  induction h with
  | refl => exact .step .refl hn hm hc
  | step _ hn' hm' hc' ih => exact ih.step hn' hm' hc'

/-- A trail holds markers that the type meets. -/
theorem meets_of_mem_markerTrail (h : m ∈ g.markerTrail path id) :
    g.Meets id m ∧
      ∃ node, g.node? m = some node ∧ node.isMarker = true := by
  induction path, id using markerTrail.induct g with
  | case1 path id hn =>
      rw [markerTrail_of_none hn] at h
      cases h
  | case2 path id node hn hmarker =>
      rw [markerTrail_of_node hn, if_pos hmarker] at h
      cases List.mem_singleton.mp h
      exact ⟨.refl, node, hn, hmarker⟩
  | case3 path id node hn hmarker hmem =>
      rw [markerTrail_of_node hn, if_neg hmarker, if_pos hmem] at h
      cases h
  | case4 path id node hn hmarker hmem ih =>
      rw [markerTrail_of_node hn, if_neg hmarker, if_neg hmem,
        List.mem_flatMap] at h
      obtain ⟨c, hc, h⟩ := h
      obtain ⟨hmeets, hm⟩ := ih c h
      exact ⟨hmeets.of_child hn (Bool.eq_false_iff.mpr hmarker) hc, hm⟩

-- ================================================= what a walk knows

/-- What a walk has found and visited, while it is inside the types of a
path: markers, each once, and types that are none. Of a visited type that
the walk has left again the parts are found or visited as well. -/
structure Settled (g : Graph) (path found visited : List TypeId) :
    Prop where
  nodup : found.Nodup
  marked : ∀ m ∈ found, ∃ node, g.node? m = some node ∧
    node.isMarker = true
  entered : ∀ v ∈ path, v ∈ visited
  left : ∀ v ∈ visited, ∃ node, g.node? v = some node ∧
    node.isMarker = false ∧
      (v ∈ path ∨ ∀ c ∈ node.kind.children, c ∈ found ∨ c ∈ visited)

theorem settled_nil (g : Graph) : g.Settled [] [] [] where
  nodup := .nil
  marked _ hm := nomatch hm
  entered _ hv := nomatch hv
  left _ hv := nomatch hv

/-- The walk goes into a type. -/
theorem Settled.enter (h : g.Settled path found visited)
    (hn : g.node? id = some node) (hmarker : node.isMarker = false) :
    g.Settled (id :: path) found (id :: visited) where
  nodup := h.nodup
  marked := h.marked
  entered := by
    rw [List.forall_mem_cons]
    exact ⟨List.mem_cons_self,
      fun v hv => List.mem_cons_of_mem _ (h.entered v hv)⟩
  left := by
    rw [List.forall_mem_cons]
    refine ⟨⟨node, hn, hmarker, .inl List.mem_cons_self⟩, fun v hv => ?_⟩
    obtain ⟨node', hn', hmarker', hor⟩ := h.left v hv
    refine ⟨node', hn', hmarker', ?_⟩
    rcases hor with hpath | hparts
    · exact .inl (List.mem_cons_of_mem _ hpath)
    · refine .inr fun c hc => ?_
      rcases hparts c hc with hfound | hvisited
      · exact .inl hfound
      · exact .inr (List.mem_cons_of_mem _ hvisited)

/-- The walk comes out of a type when it knows the parts. -/
theorem Settled.leave (h : g.Settled (id :: path) found visited)
    (hn : g.node? id = some node)
    (hparts : ∀ c ∈ node.kind.children, c ∈ found ∨ c ∈ visited) :
    g.Settled path found visited where
  nodup := h.nodup
  marked := h.marked
  entered v hv := h.entered v (List.mem_cons_of_mem _ hv)
  left v hv := by
    obtain ⟨node', hn', hmarker', hor⟩ := h.left v hv
    refine ⟨node', hn', hmarker', ?_⟩
    rcases hor with hpath | hparts'
    · rcases List.mem_cons.mp hpath with rfl | hpath
      · cases hn.symm.trans hn'
        exact .inr hparts
      · exact .inl hpath
    · exact .inr hparts'

/-- The walk finds a marker. -/
theorem Settled.find (h : g.Settled path found visited)
    (hn : g.node? id = some node) (hmarker : node.isMarker = true) :
    g.Settled path (found ++ [id]).eraseDups visited where
  nodup := (firstOccurrences_eraseDups _).nodup
  marked := by
    intro m hm
    rw [List.mem_eraseDups, List.mem_append, List.mem_singleton] at hm
    rcases hm with hm | rfl
    · exact h.marked m hm
    · exact ⟨node, hn, hmarker⟩
  entered := h.entered
  left v hv := by
    obtain ⟨node', hn', hmarker', hor⟩ := h.left v hv
    refine ⟨node', hn', hmarker', hor.imp_right fun hparts c hc => ?_⟩
    refine (hparts c hc).imp_left fun hfound => ?_
    rw [List.mem_eraseDups]
    exact List.mem_append_left _ hfound

/-- Of what the walk knows it has found the trail. -/
theorem Settled.trail_subset (h : g.Settled path found visited)
    (hpath : path ⊆ path') (hid : id ∈ found ∨ id ∈ visited) :
    g.markerTrail path' id ⊆ found := by
  induction path', id using markerTrail.induct g with
  | case1 path' id hn =>
      rw [markerTrail_of_none hn]
      exact List.nil_subset _
  | case2 path' id node hn hmarker =>
      rw [markerTrail_of_node hn, if_pos hmarker, List.cons_subset]
      refine ⟨?_, List.nil_subset _⟩
      -- a marker is not among the visited types
      rcases hid with hfound | hvisited
      · exact hfound
      · obtain ⟨node', hn', hunmarked, -⟩ := h.left id hvisited
        cases hn.symm.trans hn'
        rw [hunmarked] at hmarker
        cases hmarker
  | case3 path' id node hn hmarker hmem =>
      rw [markerTrail_of_node hn, if_neg hmarker, if_pos hmem]
      exact List.nil_subset _
  | case4 path' id node hn hmarker hmem ih =>
      rw [markerTrail_of_node hn, if_neg hmarker, if_neg hmem]
      intro m hm
      obtain ⟨c, hc, hm⟩ := List.mem_flatMap.mp hm
      refine ih c (List.subset_cons_of_subset _ hpath) ?_ hm
      rcases hid with hfound | hvisited
      · obtain ⟨node', hn', hmarked⟩ := h.marked id hfound
        cases hn.symm.trans hn'
        exact absurd hmarked hmarker
      · obtain ⟨node', hn', -, hor⟩ := h.left id hvisited
        cases hn.symm.trans hn'
        exact (hor.resolve_left fun hid => hmem (hpath hid)) c hc

-- ============================================================= the walk

/-- The walk over some types finds what is on a trail: it goes on with
the rest of its list, and knows the types. -/
def Reads (g : Graph) (path found visited ids trail : List TypeId) :
    Prop :=
  ∃ visited',
    (∀ todo, g.markersFrom found visited (ids ++ todo)
      = g.markersFrom (found ++ trail).eraseDups visited' todo) ∧
    g.Settled path (found ++ trail).eraseDups visited' ∧
    visited ⊆ visited' ∧
    ∀ id ∈ ids, id ∈ (found ++ trail).eraseDups ∨ id ∈ visited'

/-- Nothing is found where the walk has been. -/
theorem Settled.reads_visited (h : g.Settled path found visited)
    (hid : id ∈ visited) {trail : List TypeId} (htrail : trail ⊆ found) :
    g.Reads path found visited [id] trail := by
  have hsame : (found ++ trail).eraseDups = found := by
    rw [eraseDups_append_of_subset htrail, eraseDups_of_nodup h.nodup]
  obtain ⟨node, hn, hmarker, -⟩ := h.left id hid
  refine ⟨visited, fun todo => ?_, hsame.symm ▸ h, List.Subset.refl _, ?_⟩
  · rw [List.singleton_append, markersFrom_cons hn,
      if_neg (Bool.eq_false_iff.mp hmarker), if_pos hid, hsame]
  · rw [List.forall_mem_singleton]
    exact .inr hid

/-- Types are walked over one after the other. -/
theorem Settled.reads_list (h : g.Settled path found visited)
    {ids : List TypeId} {trail : TypeId → List TypeId}
    (hids : ∀ id ∈ ids, ∀ found visited, g.Settled path found visited →
      g.Reads path found visited [id] (trail id)) :
    g.Reads path found visited ids (ids.flatMap trail) := by
  induction ids generalizing found visited with
  | nil =>
      have hsame : (found ++ []).eraseDups = found := by
        rw [List.append_nil, eraseDups_of_nodup h.nodup]
      refine ⟨visited, ?_, ?_, List.Subset.refl _, fun _ hid => nomatch hid⟩
      · intro todo
        rw [List.flatMap_nil, hsame, List.nil_append]
      · rw [List.flatMap_nil, hsame]
        exact h
  | cons id ids ih =>
      rw [List.forall_mem_cons] at hids
      obtain ⟨visited₁, hrun₁, hsettled₁, hsub₁, hknown₁⟩ :=
        hids.1 found visited h
      obtain ⟨visited₂, hrun₂, hsettled₂, hsub₂, hknown₂⟩ :=
        ih hsettled₁ hids.2
      rw [eraseDups_eraseDups_append, List.append_assoc] at hsettled₂
      simp only [eraseDups_eraseDups_append, List.append_assoc]
        at hrun₂ hknown₂
      refine ⟨visited₂, fun todo => ?_, hsettled₂,
        List.Subset.trans hsub₁ hsub₂, ?_⟩
      · rw [List.flatMap_cons, ← hrun₂ todo, ← hrun₁ (ids ++ todo)]
        rfl
      · rw [List.flatMap_cons, List.forall_mem_cons]
        refine ⟨?_, hknown₂⟩
        refine (hknown₁ id List.mem_cons_self).imp ?_ fun h => hsub₂ h
        simp only [List.mem_eraseDups, List.mem_append]
        tauto

/-- The walk over a type finds its trail. -/
theorem Settled.reads (hP : g.ClosedOn P) (hid : P id)
    (h : g.Settled path found visited) :
    g.Reads path found visited [id] (g.markerTrail path id) := by
  induction path, id using markerTrail.induct g
    generalizing found visited with
  | case1 path id hn =>
      obtain ⟨node, hn', -⟩ := hP id hid
      cases hn.symm.trans hn'
  | case2 path id node hn hmarker =>
      rw [markerTrail_of_node hn, if_pos hmarker]
      refine ⟨visited, fun todo => ?_, h.find hn hmarker,
        List.Subset.refl _, ?_⟩
      · rw [List.singleton_append, markersFrom_cons hn, if_pos hmarker,
          eraseDups_concat, eraseDups_of_nodup h.nodup]
      · rw [List.forall_mem_singleton, List.mem_eraseDups]
        exact .inl (List.mem_append_right _ List.mem_cons_self)
  | case3 path id node hn hmarker hmem =>
      have hvisited := h.entered id hmem
      exact h.reads_visited hvisited
        (h.trail_subset (List.Subset.refl _) (.inr hvisited))
  | case4 path id node hn hmarker hmem ih =>
      by_cases hvisited : id ∈ visited
      · exact h.reads_visited hvisited
          (h.trail_subset (List.Subset.refl _) (.inr hvisited))
      have hunmarked := Bool.eq_false_iff.mpr hmarker
      obtain ⟨visited', hrun, hsettled, hsub, hknown⟩ :=
        (h.enter hn hunmarked).reads_list fun c hc found visited h =>
          ih c (hP.child hid hn c hc) h
      rw [markerTrail_of_node hn, if_neg hmarker, if_neg hmem]
      have hentered := hsub List.mem_cons_self
      refine ⟨visited', fun todo => ?_, hsettled.leave hn hknown,
        fun v hv => hsub (List.mem_cons_of_mem _ hv), ?_⟩
      · rw [List.singleton_append, markersFrom_cons hn, if_neg hmarker,
          if_neg hvisited, hrun todo]
      · rw [List.forall_mem_singleton]
        exact .inr hentered

/-- The markers that are listed are those of the trail, each where it
comes first. -/
theorem markers_eq (hP : g.ClosedOn P) (hid : P id) :
    g.markers id = .ok (g.markerTrail [] id).eraseDups := by
  obtain ⟨visited, hrun, -⟩ := (settled_nil g).reads hP hid
  exact (hrun []).trans (by rw [markersFrom, List.nil_append])

/-- A marker is on the trail if the type meets it. -/
theorem mem_markerTrail (hP : g.ClosedOn P) (hid : P id) :
    m ∈ g.markerTrail [] id ↔
      g.Meets id m ∧
        ∃ node, g.node? m = some node ∧ node.isMarker = true := by
  refine ⟨meets_of_mem_markerTrail, ?_⟩
  rintro ⟨hmeets, node, hn, hmarker⟩
  obtain ⟨visited, -, hsettled, -, hknown⟩ := (settled_nil g).reads hP hid
  simp only [List.nil_append] at hsettled hknown
  -- when the walk is done it is inside of nothing, and knows all it met
  have hall : m ∈ (g.markerTrail [] id).eraseDups ∨ m ∈ visited := by
    refine hmeets.mem_of_closed
      (S := fun x => x ∈ (g.markerTrail [] id).eraseDups ∨ x ∈ visited)
      (hknown id List.mem_cons_self) ?_
    intro x node' hx hn' hunmarked c hc
    rcases hx with hfound | hvisited
    · obtain ⟨node, hn, hmarked⟩ := hsettled.marked x hfound
      cases hn.symm.trans hn'
      rw [hunmarked] at hmarked
      cases hmarked
    · obtain ⟨node, hn, -, hor⟩ := hsettled.left x hvisited
      cases hn.symm.trans hn'
      exact (hor.resolve_left List.not_mem_nil) c hc
  rcases hall with hfound | hvisited
  · exact List.mem_eraseDups.mp hfound
  · obtain ⟨node', hn', hunmarked, -⟩ := hsettled.left m hvisited
    cases hn.symm.trans hn'
    rw [hunmarked] at hmarker
    cases hmarker

-- ========================================================== both walks

/-- Where a marker is reached, the first one on the way is met. -/
theorem Reaches.exists_met (h : g.Reaches id m)
    (hm : ∃ node, g.node? m = some node ∧ node.isMarker = true) :
    ∃ first, g.Meets id first ∧
      ∃ node, g.node? first = some node ∧ node.isMarker = true := by
  -- short of the first marker, what is reached is met
  have hpath : ∀ b, g.Reaches id b → g.Meets id b ∨
      ∃ first, g.Meets id first ∧
        ∃ node, g.node? first = some node ∧ node.isMarker = true := by
    intro b hb
    induction hb with
    | refl => exact .inl .refl
    | step _ hchild ih =>
        rcases ih with hmeets | hfirst
        · obtain ⟨node, hn, hc⟩ := hchild
          cases hmarker : node.isMarker with
          | true => exact .inr ⟨_, hmeets, node, hn, hmarker⟩
          | false => exact .inl (hmeets.step hn hmarker hc)
        · exact .inr hfirst
  rcases hpath m h with hmeets | hfirst
  · exact ⟨m, hmeets, hm⟩
  · exact hfirst

/-- The search for a marker answers whether one is reached. -/
theorem containsMarker_reaches (hP : g.ClosedOn P) (hid : P id) :
    ∃ answer, g.containsMarker id = .ok answer ∧
      (answer = true ↔ ∃ m, g.Reaches id m ∧
        ∃ node, g.node? m = some node ∧ node.isMarker = true) := by
  obtain ⟨answer, hanswer, hfree⟩ := containsMarker_answers hP hid
  refine ⟨answer, hanswer, ?_⟩
  rw [← Bool.not_eq_false, hfree, MarkerFree]
  push Not
  simp only [Bool.not_eq_false]

/-- The listing has the markers that are met, each once. -/
theorem markers_meets (hP : g.ClosedOn P) (hid : P id) :
    ∃ found, g.markers id = .ok found ∧ found.Nodup ∧
      ∀ m, m ∈ found ↔ g.Meets id m ∧
        ∃ node, g.node? m = some node ∧ node.isMarker = true := by
  have hfirsts := firstOccurrences_eraseDups (g.markerTrail [] id)
  refine ⟨_, markers_eq hP hid, hfirsts.nodup, fun m => ?_⟩
  rw [hfirsts.mem_iff, mem_markerTrail hP hid]

/-- Both searches for markers are exact, in a closed graph with whatever
cycles. The one answers whether a marker can be reached. The other lists,
each once, the markers that can be reached without going past another,
and lists some exactly if the first finds one. An id that has no node is
a fault to both. -/
theorem marker_searches_exact (hg : g.Closed) (id : TypeId) :
    (id.index < g.size → ∃ answer found,
      g.containsMarker id = .ok answer ∧ g.markers id = .ok found ∧
      (answer = true ↔ ∃ m, g.Reaches id m ∧
        ∃ node, g.node? m = some node ∧
          node.flags.parameterized = true) ∧
      found.Nodup ∧
      (∀ m, m ∈ found ↔ g.Meets id m ∧
        ∃ node, g.node? m = some node ∧
          node.flags.parameterized = true) ∧
      (answer = true ↔ found ≠ [])) ∧
    (g.size ≤ id.index →
      g.containsMarker id = .error (.missing id g.size) ∧
      g.markers id = .error (.missing id g.size)) := by
  refine ⟨fun hid => ?_, fun hid => ?_⟩
  · obtain ⟨answer, hanswer, hreaches⟩ :=
      containsMarker_reaches hg.closedOn hid
    obtain ⟨found, hfound, hnodup, hmeets⟩ :=
      markers_meets hg.closedOn hid
    refine ⟨answer, found, hanswer, hfound, hreaches, hnodup, hmeets, ?_⟩
    rw [hreaches]
    constructor
    · rintro ⟨m, hreach, hmarked⟩
      obtain ⟨first, hfirst⟩ := hreach.exists_met hmarked
      exact List.ne_nil_of_mem ((hmeets first).mpr hfirst)
    · intro hsome
      obtain ⟨m, hm⟩ := List.exists_mem_of_ne_nil found hsome
      obtain ⟨hmet, hmarked⟩ := (hmeets m).mp hm
      exact ⟨m, hmet.reaches, hmarked⟩
  · have hnone : g.node? id = none := by
      rw [← Option.not_isSome_iff_eq_none, node?_isSome_iff]
      exact Nat.not_lt.mpr hid
    exact ⟨containsMarkerFrom_fault hnone, markersFrom_fault hnone⟩

/-- A tree (21) of pairs (25), with a type for its ends (22). There is a
marker in every pair (23), and another one in its witness (24). The
second of a pair is a marker without a name (26). -/
def paired : Graph :=
  ⟨Graph.builtin.nodes ++ #[
    .named "Tree" ⟨1⟩ (.record {
      fields := [{ name := "left", type := ⟨22⟩ },
        { name := "value", type := ⟨25⟩ },
        { name := "right", type := ⟨22⟩ }] }),
    .anonymous (.union [⟨21⟩, .nil]),
    .marker "T" ⟨1⟩ (.array ⟨24⟩),
    .marker "U" ⟨1⟩ (.leaf .any),
    .anonymous (.tuple [⟨23⟩, ⟨26⟩] (some ⟨21⟩)),
    { kind := .leaf .string, flags := { parameterized := true } }]⟩

/-- Of three markers that are reached, two are met and listed. -/
theorem paired_searched :
    paired.Closed ∧ paired.containsMarker ⟨21⟩ = .ok true ∧
    paired.markers ⟨21⟩ = .ok [⟨23⟩, ⟨26⟩] ∧
    (∀ m, m ∈ ([⟨23⟩, ⟨26⟩] : List TypeId) ↔ paired.Meets ⟨21⟩ m ∧
      ∃ node, paired.node? m = some node ∧
        node.flags.parameterized = true) ∧
    paired.Reaches ⟨21⟩ ⟨24⟩ ∧ ¬ paired.Meets ⟨21⟩ ⟨24⟩ := by
  have hg : paired.Closed := by decide
  have hlist : paired.markers ⟨21⟩ = .ok [⟨23⟩, ⟨26⟩] := by decide +kernel
  obtain ⟨answer, found, hanswer, hfound, -, -, hmeets, hsome⟩ :=
    (marker_searches_exact hg ⟨21⟩).1 (by decide)
  cases hlist.symm.trans hfound
  have hpair : paired.Reaches ⟨21⟩ ⟨25⟩ := .step .refl ⟨_, rfl, by decide⟩
  have hmarker : paired.Reaches ⟨21⟩ ⟨23⟩ := hpair.step ⟨_, rfl, by decide⟩
  refine ⟨hg, ?_, hlist, hmeets, hmarker.step ⟨_, rfl, by decide⟩, ?_⟩
  · rw [hanswer, hsome.mpr (List.cons_ne_nil _ _)]
  · intro hmet
    exact absurd ((hmeets ⟨24⟩).mpr ⟨hmet, _, rfl, rfl⟩) (by decide)

end TypeParams.Graph
