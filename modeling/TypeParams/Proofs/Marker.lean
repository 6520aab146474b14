/-
What the search for markers finds.

# The search

`Graph.MarkerFree` says of a type that no marker can be reached from it;
`Graph.containsMarker` decides that (`containsMarker_answers`). The walk
of the procedure stops at ids it has visited. When it ends without a
marker, the ids it was to look at lie in a set without markers that only
the ids visited before lead out of (`unmarked_of_containsMarkerFrom`);
for a walk that starts with none visited the set is closed. That is the
invariant of the walk, stated for any visited ids, so that the induction
along the walk goes through.

Whether a type is free of markers does not change as the graph grows
around it (`markerFree_extends_iff`), so a search may be made again
later, or not be made again.

# The listing

`Graph.markers` lists the markers of a type, each once and in the order
in which they are met. It goes the same way as the search, except that
it does not end at the first.

# Meeting a type

`Graph.Meets` is the narrower notion of reaching a type without going
past a marker: it is what matching and instantiation get to see of a
declared type. The parts of a marker are its witness, and neither of
them looks there.
-/
import TypeParams.Marker
import TypeParams.Proofs.Walks

namespace TypeParams

/-- A node that is no marker is known by no parameter's name. -/
theorem Node.markerKey?_of_unmarked {node : Node}
    (h : node.isMarker = false) : node.markerKey? = none := by
  unfold markerKey?
  rw [h]
  rfl

/-- A node that is known by one is a marker. -/
theorem Node.isMarker_of_markerKey? {node : Node} {key : MarkerKey}
    (h : node.markerKey? = some key) : node.isMarker = true := by
  unfold markerKey? at h
  split at h
  next hmarker => exact hmarker
  next => cases h

/-- A node that is known by nothing is no marker, if a marker would have
a name. -/
theorem Node.unmarked_of_named {node : Node}
    (hkey : node.markerKey? = none)
    (hnamed : node.isMarker = true → node.name.isSome = true) :
    node.isMarker = false := by
  cases hmarker : node.isMarker with
  | false => rfl
  | true =>
      obtain ⟨name, hname⟩ :=
        Option.isSome_iff_exists.mp (hnamed hmarker)
      unfold markerKey? at hkey
      rw [if_pos hmarker, hname] at hkey
      cases hkey

namespace Graph

variable {g g' : Graph} {P : TypeId → Prop}

-- =========================================================== the notions

/-- No marker can be reached from a type. -/
def MarkerFree (g : Graph) (id : TypeId) : Prop :=
  ∀ b, g.Reaches id b → ∀ node, g.node? b = some node →
    node.isMarker = false

/-- One type is another, or a part of one that it meets and that is no
marker. -/
inductive Meets (g : Graph) (a : TypeId) : TypeId → Prop where
  | refl : Meets g a a
  | step {b c : TypeId} {node : Node} : Meets g a b →
      g.node? b = some node → node.isMarker = false →
      c ∈ node.kind.children → Meets g a c

/-- What is met is reached. -/
theorem Meets.reaches {a b : TypeId} (h : g.Meets a b) :
    g.Reaches a b := by
  induction h with
  | refl => exact .refl
  | step _ hn _ hc ih => exact ih.step ⟨_, hn, hc⟩

/-- What is met stays in every set that cannot be left but through a
marker. -/
theorem Meets.mem_of_closed {a b : TypeId} (h : g.Meets a b)
    {S : TypeId → Prop} (ha : S a)
    (hS : ∀ x node, S x → g.node? x = some node → node.isMarker = false →
      ∀ c ∈ node.kind.children, S c) : S b := by
  induction h with
  | refl => exact ha
  | step _ hn hm hc ih => exact hS _ _ ih hn hm _ hc

/-- What is reached from a type free of markers is free of them. -/
theorem MarkerFree.reaches {a b : TypeId} (ha : g.MarkerFree a)
    (hab : g.Reaches a b) : g.MarkerFree b :=
  fun c hc => ha c (hab.trans hc)

/-- So are the parts of such a type. -/
theorem MarkerFree.child {a c : TypeId} {node : Node}
    (ha : g.MarkerFree a) (hn : g.node? a = some node)
    (hc : c ∈ node.kind.children) : g.MarkerFree c :=
  ha.reaches (.step .refl ⟨node, hn, hc⟩)

/-- A type that is no marker and whose parts are free of markers is free
of markers. -/
theorem MarkerFree.of_children {a : TypeId} {node : Node}
    (hn : g.node? a = some node) (hm : node.isMarker = false)
    (hc : ∀ c ∈ node.kind.children, g.MarkerFree c) :
    g.MarkerFree a := by
  -- a path out of the type goes through one of its parts
  have hpath : ∀ b, g.Reaches a b →
      b = a ∨ ∃ c ∈ node.kind.children, g.Reaches c b := by
    intro b hb
    induction hb with
    | refl => exact .inl rfl
    | @step b c _ hchild ih =>
        rcases ih with rfl | ⟨d, hd, hdb⟩
        · obtain ⟨node', hn', hc'⟩ := hchild
          rw [hn] at hn'
          cases hn'
          exact .inr ⟨c, hc', .refl⟩
        · exact .inr ⟨d, hd, hdb.step hchild⟩
  intro b hb node' hn'
  rcases hpath b hb with rfl | ⟨c, hmem, hcb⟩
  · rw [hn] at hn'
    cases hn'
    exact hm
  · exact hc c hmem b hcb node' hn'

-- =============================================================== growth

/-- A type of a closed set stays free of markers when the graph grows. -/
theorem MarkerFree.extends (hP : g.ClosedOn P) (hgg' : g.Extends g')
    {a : TypeId} (ha : P a) (h : g.MarkerFree a) : g'.MarkerFree a := by
  intro b hb node hn
  have hb := hb.of_extends hP hgg' ha
  obtain ⟨node', hn', -⟩ := hP b (hP.reaches ha hb)
  rw [hgg' b node' hn'] at hn
  cases hn
  exact h b hb _ hn'

/-- A type that is free of markers in a larger graph was so before. -/
theorem MarkerFree.of_extends (hgg' : g.Extends g') {a : TypeId}
    (h : g'.MarkerFree a) : g.MarkerFree a :=
  fun b hb node hn => h b (hb.extends hgg') node (hgg' b node hn)

/-- What is met in a graph is met in a larger one. -/
theorem Meets.extends {a b : TypeId} (h : g.Meets a b)
    (hgg' : g.Extends g') : g'.Meets a b := by
  induction h with
  | refl => exact .refl
  | step _ hn hm hc ih => exact ih.step (hgg' _ _ hn) hm hc

/-- Whether a type of a closed set is free of markers does not change
when the graph grows. -/
theorem markerFree_extends_iff (hP : g.ClosedOn P) (hgg' : g.Extends g')
    {a : TypeId} (ha : P a) : g'.MarkerFree a ↔ g.MarkerFree a :=
  ⟨.of_extends hgg', .extends hP hgg' ha⟩

/-- No marker is among the builtin types. -/
theorem WellFormed.builtin_markerFree (hg : g.WellFormed) {id : TypeId}
    (h : id.isBuiltin = true) : g.MarkerFree id := by
  have hclosed : Graph.builtin.Closed := by decide
  have hunmarked : ∀ node ∈ Graph.builtin.nodes.toList,
      node.isMarker = false := by decide
  have hid : id.index < Graph.builtin.size := by
    rw [size_builtin]
    simpa [TypeId.isBuiltin] using h
  refine .extends hclosed.closedOn hg.extends_builtin hid ?_
  exact fun b _ node hn => hunmarked node (mem_nodes_of_node? hn)

-- ============================================================= the walk

/-- What the search does at a node: a marker ends it, an id that was
visited is passed over, and for any other its parts come next. -/
theorem containsMarkerFrom_cons {visited todo : List TypeId}
    {id : TypeId} {node : Node} (hn : g.node? id = some node) :
    g.containsMarkerFrom visited (id :: todo) =
      if node.isMarker then .ok true
      else if id ∈ visited then g.containsMarkerFrom visited todo
      else
        g.containsMarkerFrom (id :: visited)
          (node.kind.children ++ todo) := by
  rw [containsMarkerFrom]
  split
  next hn' =>
    rw [hn] at hn'
    cases hn'
  next node' hn' =>
    rw [hn] at hn'
    cases hn'
    rfl

/-- An id without a node ends the search in a fault. -/
theorem containsMarkerFrom_fault {visited todo : List TypeId}
    {id : TypeId} (hn : g.node? id = none) :
    g.containsMarkerFrom visited (id :: todo)
      = .error (.missing id g.size) := by
  rw [containsMarkerFrom]
  split
  next => rfl
  next hn' =>
    rw [hn] at hn'
    cases hn'

/-- A walk that meets no marker stays in a set without markers, which
only ids visited before lead out of. -/
theorem unmarked_of_containsMarkerFrom {visited todo : List TypeId}
    (h : g.containsMarkerFrom visited todo = .ok false) :
    ∃ V : TypeId → Prop, (∀ t ∈ todo, V t) ∧
      ∀ v, V v → v ∈ visited ∨
        ∃ node, g.node? v = some node ∧ node.isMarker = false ∧
          ∀ c ∈ node.kind.children, V c := by
  induction visited, todo using containsMarkerFrom.induct g with
  | case1 visited =>
      exact ⟨(· ∈ visited), by simp, fun v hv => .inl hv⟩
  | case2 visited id todo hn =>
      rw [containsMarkerFrom] at h
      split at h
      · cases h
      next hn' => simp [hn] at hn'
  | case3 visited id todo node hn hm =>
      rw [containsMarkerFrom_cons hn, if_pos hm] at h
      cases h
  | case4 visited id todo node hn hm hmem ih =>
      rw [containsMarkerFrom_cons hn, if_neg hm, if_pos hmem] at h
      obtain ⟨V, hV, hout⟩ := ih h
      refine ⟨fun v => V v ∨ v = id, ?_, ?_⟩
      · rw [List.forall_mem_cons]
        exact ⟨.inr rfl, fun t ht => .inl (hV t ht)⟩
      · rintro v (hv | rfl)
        · rcases hout v hv with hv | ⟨node', hn', hm', hc⟩
          · exact .inl hv
          · exact .inr ⟨node', hn', hm', fun c h => .inl (hc c h)⟩
        · exact .inl hmem
  | case5 visited id todo node hn hm hmem ih =>
      rw [containsMarkerFrom_cons hn, if_neg hm, if_neg hmem] at h
      obtain ⟨V, hV, hout⟩ := ih h
      rw [List.forall_mem_append] at hV
      have hid : ∃ node, g.node? id = some node ∧
          node.isMarker = false ∧
          ∀ c ∈ node.kind.children, V c ∨ c = id :=
        ⟨node, hn, by simpa using hm, fun c h => .inl (hV.1 c h)⟩
      refine ⟨fun v => V v ∨ v = id, ?_, ?_⟩
      · rw [List.forall_mem_cons]
        exact ⟨.inr rfl, fun t ht => .inl (hV.2 t ht)⟩
      · rintro v (hv | rfl)
        · rcases hout v hv with hv | ⟨node', hn', hm', hc⟩
          · rcases List.mem_cons.mp hv with rfl | hv
            · exact .inr hid
            · exact .inl hv
          · exact .inr ⟨node', hn', hm', fun c h => .inl (hc c h)⟩
        · exact .inr hid

/-- A walk that says it met a marker did. -/
theorem marked_of_containsMarkerFrom {visited todo : List TypeId}
    (h : g.containsMarkerFrom visited todo = .ok true) :
    ∃ t ∈ todo, ¬ g.MarkerFree t := by
  induction visited, todo using containsMarkerFrom.induct g with
  | case1 visited => simp [containsMarkerFrom] at h
  | case2 visited id todo hn =>
      rw [containsMarkerFrom] at h
      split at h
      · cases h
      next hn' => simp [hn] at hn'
  | case3 visited id todo node hn hm =>
      refine ⟨id, List.mem_cons_self, fun hfree => ?_⟩
      have := hfree id .refl node hn
      rw [hm] at this
      cases this
  | case4 visited id todo node hn hm hmem ih =>
      rw [containsMarkerFrom_cons hn, if_neg hm, if_pos hmem] at h
      obtain ⟨t, ht, hmarked⟩ := ih h
      exact ⟨t, List.mem_cons_of_mem _ ht, hmarked⟩
  | case5 visited id todo node hn hm hmem ih =>
      rw [containsMarkerFrom_cons hn, if_neg hm, if_neg hmem] at h
      obtain ⟨t, ht, hmarked⟩ := ih h
      rcases List.mem_append.mp ht with ht | ht
      · refine ⟨id, List.mem_cons_self, fun hfree => ?_⟩
        exact hmarked (hfree.child hn ht)
      · exact ⟨t, List.mem_cons_of_mem _ ht, hmarked⟩

/-- The search gives an answer on a closed set, whatever was visited
before. -/
theorem containsMarkerFrom_returns (hP : g.ClosedOn P)
    {visited todo : List TypeId} (htodo : ∀ t ∈ todo, P t) :
    Returns (g.containsMarkerFrom visited todo) := by
  induction visited, todo using containsMarkerFrom.induct g with
  | case1 visited =>
      rw [containsMarkerFrom]
      exact .ok false
  | case2 visited id todo hn =>
      obtain ⟨node, hn', -⟩ := hP id (htodo id List.mem_cons_self)
      rw [hn] at hn'
      cases hn'
  | case3 visited id todo node hn hm =>
      rw [containsMarkerFrom_cons hn, if_pos hm]
      exact .ok true
  | case4 visited id todo node hn hm hmem ih =>
      rw [containsMarkerFrom_cons hn, if_neg hm, if_pos hmem]
      rw [List.forall_mem_cons] at htodo
      exact ih htodo.2
  | case5 visited id todo node hn hm hmem ih =>
      rw [containsMarkerFrom_cons hn, if_neg hm, if_neg hmem]
      rw [List.forall_mem_cons] at htodo
      refine ih (List.forall_mem_append.mpr ⟨?_, htodo.2⟩)
      exact hP.child htodo.1 hn

-- ========================================================= the decision

/-- A search that finds nothing is right: the set it has stayed in is
closed, and has no marker. -/
theorem markerFree_of_containsMarker {id : TypeId}
    (h : g.containsMarker id = .ok false) : g.MarkerFree id := by
  obtain ⟨V, hV, hout⟩ := unmarked_of_containsMarkerFrom h
  have hid : V id := hV id List.mem_cons_self
  -- nothing was visited before, so the set cannot be left
  have hreach : ∀ b, g.Reaches id b → V b := by
    intro b hb
    induction hb with
    | refl => exact hid
    | step _ hchild ih =>
        obtain ⟨node, hn, hc⟩ := hchild
        obtain ⟨node', hn', -, hc'⟩ :=
          (hout _ ih).resolve_left List.not_mem_nil
        rw [hn] at hn'
        cases hn'
        exact hc' _ hc
  intro b hb node hn
  obtain ⟨node', hn', hm, -⟩ :=
    (hout b (hreach b hb)).resolve_left List.not_mem_nil
  rw [hn] at hn'
  cases hn'
  exact hm

/-- A search that finds a marker is right. -/
theorem not_markerFree_of_containsMarker {id : TypeId}
    (h : g.containsMarker id = .ok true) : ¬ g.MarkerFree id := by
  obtain ⟨t, ht, hmarked⟩ := marked_of_containsMarkerFrom h
  rw [List.mem_singleton] at ht
  exact ht ▸ hmarked

/-- The procedure gives an answer for the ids of a closed set: whether a
marker can be reached. -/
theorem containsMarker_answers (hP : g.ClosedOn P) {id : TypeId}
    (hid : P id) :
    ∃ answer, g.containsMarker id = .ok answer ∧
      (answer = false ↔ g.MarkerFree id) := by
  obtain ⟨answer, h⟩ : Returns (g.containsMarker id) :=
    containsMarkerFrom_returns hP (by simpa using hid)
  refine ⟨answer, h, ?_⟩
  cases answer with
  | false => exact ⟨fun _ => markerFree_of_containsMarker h, fun _ => rfl⟩
  | true =>
      constructor
      · intro hfalse
        cases hfalse
      · exact fun hfree =>
          absurd hfree (not_markerFree_of_containsMarker h)

/-- On a closed set the search finds nothing just for the types that are
free of markers. -/
theorem containsMarker_eq_false_iff (hP : g.ClosedOn P) {id : TypeId}
    (hid : P id) :
    g.containsMarker id = .ok false ↔ g.MarkerFree id := by
  refine ⟨markerFree_of_containsMarker, fun hfree => ?_⟩
  obtain ⟨answer, h, hiff⟩ := containsMarker_answers hP hid
  rw [h, hiff.mpr hfree]

/-- A larger graph gives the same answer. -/
theorem Extends.containsMarker_eq (hgg' : g.Extends g')
    (hP : g.ClosedOn P) {id : TypeId} (hid : P id) :
    g'.containsMarker id = g.containsMarker id := by
  obtain ⟨answer, h, hiff⟩ := containsMarker_answers hP hid
  obtain ⟨answer', h', hiff'⟩ :=
    containsMarker_answers (hP.extends hgg') hid
  have hfree : g'.MarkerFree id ↔ g.MarkerFree id :=
    ⟨.of_extends hgg', .extends hP hgg' hid⟩
  have heq : answer' = answer := by
    rw [Bool.eq_iff_iff, ← not_iff_not, Bool.not_eq_true,
      Bool.not_eq_true, hiff', hiff, hfree]
  rw [h, h', heq]

-- ========================================================== the listing

/-- What the listing does at a node: a marker is listed once and not
entered, and otherwise it goes on as the search does. -/
theorem markersFrom_cons {found visited todo : List TypeId}
    {id : TypeId} {node : Node} (hn : g.node? id = some node) :
    g.markersFrom found visited (id :: todo) =
      if node.isMarker then
        g.markersFrom (if id ∈ found then found else found ++ [id])
          visited todo
      else if id ∈ visited then g.markersFrom found visited todo
      else
        g.markersFrom found (id :: visited)
          (node.kind.children ++ todo) := by
  rw [markersFrom]
  split
  next hn' =>
    rw [hn] at hn'
    cases hn'
  next node' hn' =>
    rw [hn] at hn'
    cases hn'
    rfl

/-- An id without a node ends the listing in a fault. -/
theorem markersFrom_fault {found visited todo : List TypeId}
    {id : TypeId} (hn : g.node? id = none) :
    g.markersFrom found visited (id :: todo) = .error (.missing id g.size) := by
  rw [markersFrom]
  split
  next => rfl
  next hn' =>
    rw [hn] at hn'
    cases hn'

/-- Over a closed set the walk lists markers of the set. -/
theorem markersFrom_returns (hP : g.ClosedOn P)
    {found visited todo : List TypeId} (hfound : ∀ m ∈ found, P m)
    (htodo : ∀ t ∈ todo, P t) :
    ∃ markers, g.markersFrom found visited todo = .ok markers ∧
      ∀ m ∈ markers, P m := by
  induction found, visited, todo using markersFrom.induct g with
  | case1 found visited => exact ⟨found, by rw [markersFrom], hfound⟩
  | case2 found visited id todo hn =>
      obtain ⟨node, hn', -⟩ := hP id (htodo id List.mem_cons_self)
      rw [hn] at hn'
      cases hn'
  | case3 found visited id todo node hn hmarker ih =>
      rw [markersFrom_cons hn, if_pos hmarker]
      rw [List.forall_mem_cons] at htodo
      refine ih ?_ htodo.2
      split
      · exact hfound
      · rw [List.forall_mem_append, List.forall_mem_singleton]
        exact ⟨hfound, htodo.1⟩
  | case4 found visited id todo node hn hmarker hmem ih =>
      rw [markersFrom_cons hn, if_neg hmarker, if_pos hmem]
      exact ih hfound fun t ht => htodo t (List.mem_cons_of_mem _ ht)
  | case5 found visited id todo node hn hmarker hmem ih =>
      rw [markersFrom_cons hn, if_neg hmarker, if_neg hmem]
      rw [List.forall_mem_cons] at htodo
      refine ih hfound (List.forall_mem_append.mpr ⟨?_, htodo.2⟩)
      exact hP.child htodo.1 hn

/-- The markers of a type of a closed set can be listed, and are in the
set. -/
theorem markers_returns (hP : g.ClosedOn P) {id : TypeId} (hid : P id) :
    ∃ markers, g.markers id = .ok markers ∧ ∀ m ∈ markers, P m :=
  markersFrom_returns hP (fun m hm => nomatch hm) (by simpa using hid)

/-- Where there are no markers none are listed. -/
theorem markersFrom_of_markerFree (hP : g.ClosedOn P)
    {found visited todo : List TypeId}
    (htodo : ∀ t ∈ todo, P t ∧ g.MarkerFree t) :
    g.markersFrom found visited todo = .ok found := by
  induction found, visited, todo using markersFrom.induct g with
  | case1 found visited => rw [markersFrom]
  | case2 found visited id todo hn =>
      obtain ⟨node, hn', -⟩ := hP id (htodo id List.mem_cons_self).1
      rw [hn] at hn'
      cases hn'
  | case3 found visited id todo node hn hmarker _ =>
      have hfree := (htodo id List.mem_cons_self).2 id .refl node hn
      rw [hfree] at hmarker
      cases hmarker
  | case4 found visited id todo node hn hmarker hmem ih =>
      rw [markersFrom_cons hn, if_neg hmarker, if_pos hmem]
      exact ih fun t ht => htodo t (List.mem_cons_of_mem _ ht)
  | case5 found visited id todo node hn hmarker hmem ih =>
      rw [markersFrom_cons hn, if_neg hmarker, if_neg hmem]
      rw [List.forall_mem_cons] at htodo
      refine ih (List.forall_mem_append.mpr ⟨fun c hc => ?_, htodo.2⟩)
      exact ⟨hP.child htodo.1.1 hn c hc, htodo.1.2.child hn hc⟩

/-- A type that is free of markers has none to list. -/
theorem markers_of_markerFree (hP : g.ClosedOn P) {id : TypeId}
    (hid : P id) (hfree : g.MarkerFree id) : g.markers id = .ok [] :=
  markersFrom_of_markerFree hP (by simpa using ⟨hid, hfree⟩)

end Graph

end TypeParams
