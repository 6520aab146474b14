/-
Graphs that differ only in witnesses.

The form of a marker is a witness: it says what types the parameter may
stand for, and nothing should come of it otherwise. `Graph.Veils`
relates graphs that differ in the forms of named markers at most.

# Walks that stop at markers

Looking for markers, listing them and taking unions apart do the same in
both graphs, whatever the witnesses are. Each of these walks asks
whether a node is a marker before it looks at its form, so a step of the
walk in one graph is the same step in the other, and the proof is an
induction along the walk.

# Where forms are read

Two walks do look at the form of a type before they ask whether it is a
marker. One finds the type that a union with nil is about; if a marker
with the form nil is the second of two members, it is taken for nil. The
other writes out an object's methods, and takes a marker with the form
of a function for one. Both are used where types are written, and the
first where unions are matched. `Graph.Discreet` says that these two
find the same in both graphs, and then every type is written alike
(`Discreet.render_eq`).

`Discreet` compares two graphs. That no named marker of either has the
form nil or that of a function (`PlainWitnesses`) is a condition on each
graph by itself, and is enough (`Veils.discreet`). All three conditions
can be decided.
-/
import TypeParams.Proofs.Marker
import TypeParams.Proofs.Walks

namespace TypeParams

-- ====================================================== other witnesses

/-- The same node, up to the form of a named marker. -/
def Node.Veils (node node' : Node) : Prop :=
  node' = { node with kind := node'.kind } ∧
    (node.markerKey? = none → node' = node)

instance : DecidableRel Node.Veils := fun _ _ =>
  inferInstanceAs (Decidable (_ ∧ _))

namespace Node.Veils

variable {node node' : Node}

theorem refl (node : Node) : node.Veils node := ⟨rfl, fun _ => rfl⟩

/-- Nodes that differ in a witness have the same name. -/
theorem name_eq (h : node.Veils node') : node'.name = node.name := by
  rw [h.1]

/-- Both are markers, or neither is. -/
theorem isMarker_eq (h : node.Veils node') :
    node'.isMarker = node.isMarker := by
  rw [h.1]
  rfl

/-- Both are named markers of the same name, or neither is one. -/
theorem markerKey?_eq (h : node.Veils node') :
    node'.markerKey? = node.markerKey? := by
  rw [h.1]
  rfl

/-- A node that is no marker is the same in both. -/
theorem eq_of_unmarked (h : node.Veils node')
    (hmarker : node.isMarker = false) : node' = node :=
  h.2 (Node.markerKey?_of_unmarked hmarker)

/-- So is a marker without a name. -/
theorem eq_of_unnamed (h : node.Veils node') (hname : node.name = none) :
    node' = node := by
  refine h.2 ?_
  unfold Node.markerKey?
  rw [hname]
  split <;> rfl

/-- The name that a node is shown by is not a matter of its witness. -/
theorem shownName?_eq (h : node.Veils node') (top : Bool) :
    node'.shownName? top = node.shownName? top := by
  unfold Node.shownName?
  rw [h.name_eq, h.isMarker_eq]

/-- Nor is whether it is written in parentheses. -/
theorem isUnnamedUnion_eq (h : node.Veils node') :
    node'.isUnnamedUnion = node.isUnnamedUnion := by
  unfold Node.isUnnamedUnion
  cases hname : node.name with
  | none => rw [h.eq_of_unnamed hname, hname]
  | some name =>
      rw [h.name_eq, hname]
      rfl

end Node.Veils

/-- A named marker is written by its name wherever it stands. -/
theorem Node.markerKey?_of_shownName? {node : Node} {top : Bool}
    (h : node.shownName? top = none) : node.markerKey? = none := by
  cases hname : node.name with
  | none =>
      unfold markerKey?
      rw [hname]
      split <;> rfl
  | some name =>
      refine markerKey?_of_unmarked (Bool.eq_false_iff.mpr fun hm => ?_)
      unfold shownName? at h
      rw [hname, hm] at h
      simp at h

namespace Graph

/-- The signature of a type that has the form of a function. -/
def signature? (g : Graph) (id : TypeId) : Option Signature :=
  (g.node? id).bind (·.kind.signature?)

/-- The same graph, up to the forms of named markers. -/
def Veils (g g' : Graph) : Prop :=
  List.Forall₂ Node.Veils g.nodes.toList g'.nodes.toList

instance (g g' : Graph) : Decidable (g.Veils g') :=
  inferInstanceAs (Decidable (List.Forall₂ _ _ _))

variable {g g' : Graph}

/-- The graphs have the same ids. -/
theorem Veils.size_eq (h : g.Veils g') : g'.size = g.size := by
  unfold Veils at h
  simpa [size] using h.length_eq.symm

/-- A node of one graph has its counterpart in the other, under the same
id. -/
theorem Veils.node? (h : g.Veils g') {id : TypeId} {node : Node}
    (hn : g.node? id = some node) :
    ∃ node', g'.node? id = some node' ∧ node.Veils node' := by
  obtain ⟨hlength, hget⟩ := List.forall₂_iff_get.mp h
  obtain ⟨hlt, rfl⟩ := Array.getElem?_eq_some_iff.mp hn
  have hlt' : id.index < g'.nodes.size := by
    rw [Array.length_toList, Array.length_toList] at hlength
    exact hlength ▸ hlt
  exact ⟨g'.nodes[id.index], Array.getElem?_eq_getElem hlt', by
    simpa using hget id.index (by simpa using hlt) (by simpa using hlt')⟩

/-- An id without a node has none in the other graph. -/
theorem Veils.node?_eq_none (h : g.Veils g') {id : TypeId}
    (hn : g.node? id = none) : g'.node? id = none := by
  have hge : ¬ id.index < g.size := by
    rw [← node?_isSome_iff, hn]
    simp
  rw [← Option.not_isSome_iff_eq_none, node?_isSome_iff, h.size_eq]
  exact hge

/-- Looking it up fails in the same way in both. -/
theorem Veils.fault_eq (h : g.Veils g') {id : TypeId}
    (hn : g.node? id = none) : g'.node id = g.node id := by
  unfold Graph.node
  rw [hn, h.node?_eq_none hn, h.size_eq]

/-- Whatever is looked up of a node that its witness does not show. -/
theorem Veils.node_bind_eq (h : g.Veils g') {α : Type} {id : TypeId}
    {f : Node → Except Fault α}
    (hf : ∀ node node', g.node? id = some node → node.Veils node' →
      f node' = f node) :
    (g'.node id >>= f) = (g.node id >>= f) := by
  cases hn : g.node? id with
  | none =>
      rw [h.fault_eq hn, node_eq_error hn]
  | some node =>
      obtain ⟨node', hn', hnode⟩ := h.node? hn
      rw [node_eq_ok.mpr hn, node_eq_ok.mpr hn']
      exact hf node node' hn hnode

-- ============================================== walks that stop at markers

/-- The search for a marker goes the same way in both graphs. The
induction is along the search. -/
theorem Veils.containsMarkerFrom_eq (h : g.Veils g')
    {visited todo : List TypeId} :
    g'.containsMarkerFrom visited todo
      = g.containsMarkerFrom visited todo := by
  induction visited, todo using containsMarkerFrom.induct g with
  | case1 visited => rw [containsMarkerFrom, containsMarkerFrom]
  | case2 visited id todo hn =>
      rw [containsMarkerFrom_fault hn,
        containsMarkerFrom_fault (h.node?_eq_none hn), h.size_eq]
  | case3 visited id todo node hn hm =>
      obtain ⟨node', hn', hnode⟩ := h.node? hn
      rw [containsMarkerFrom_cons hn, containsMarkerFrom_cons hn',
        hnode.isMarker_eq, if_pos hm, if_pos hm]
  | case4 visited id todo node hn hm hmem ih =>
      obtain ⟨node', hn', hnode⟩ := h.node? hn
      rw [containsMarkerFrom_cons hn, containsMarkerFrom_cons hn',
        hnode.isMarker_eq, if_neg hm, if_neg hm, if_pos hmem,
        if_pos hmem, ih]
  | case5 visited id todo node hn hm hmem ih =>
      obtain ⟨node', hn', hnode⟩ := h.node? hn
      cases hnode.eq_of_unmarked (by simpa using hm)
      rw [containsMarkerFrom_cons hn, containsMarkerFrom_cons hn',
        if_neg hm, if_neg hm, if_neg hmem, if_neg hmem, ih]

/-- A type contains a marker in both graphs, or in neither. -/
theorem Veils.containsMarker_eq (h : g.Veils g') (id : TypeId) :
    g'.containsMarker id = g.containsMarker id :=
  h.containsMarkerFrom_eq

/-- Listing markers goes the same way too: a named marker is listed and
not entered. -/
theorem Veils.markersFrom_eq (h : g.Veils g')
    {found visited todo : List TypeId} :
    g'.markersFrom found visited todo
      = g.markersFrom found visited todo := by
  induction found, visited, todo using markersFrom.induct g with
  | case1 found visited => rw [markersFrom, markersFrom]
  | case2 found visited id todo hn =>
      rw [markersFrom_fault hn, markersFrom_fault (h.node?_eq_none hn),
        h.size_eq]
  | case3 found visited id todo node hn hm ih =>
      obtain ⟨node', hn', hnode⟩ := h.node? hn
      rw [markersFrom_cons hn, markersFrom_cons hn', hnode.isMarker_eq,
        if_pos hm, if_pos hm]
      exact ih
  | case4 found visited id todo node hn hm hmem ih =>
      obtain ⟨node', hn', hnode⟩ := h.node? hn
      rw [markersFrom_cons hn, markersFrom_cons hn', hnode.isMarker_eq,
        if_neg hm, if_neg hm, if_pos hmem, if_pos hmem, ih]
  | case5 found visited id todo node hn hm hmem ih =>
      obtain ⟨node', hn', hnode⟩ := h.node? hn
      cases hnode.eq_of_unmarked (by simpa using hm)
      rw [markersFrom_cons hn, markersFrom_cons hn', if_neg hm, if_neg hm,
        if_neg hmem, if_neg hmem, ih]

/-- A type has the same markers in both graphs. -/
theorem Veils.markers_eq (h : g.Veils g') (id : TypeId) :
    g'.markers id = g.markers id :=
  h.markersFrom_eq

/-- A named union is not taken apart, whether it is a marker or not. -/
theorem unionParts_of_named {id : TypeId} {node : Node} {name : String}
    (hn : g.node? id = some node) (hname : node.name = some name) :
    g.unionParts id = .ok [id] := by
  refine bind_eq_ok.mpr ⟨node, node_eq_ok.mpr hn, ?_⟩
  rw [hname]
  split <;> rfl

/-- Taking a union apart yields the same members: a named union is kept
whole, and an unnamed one is no named marker. -/
theorem Veils.unionParts_eq (h : g.Veils g') (id : TypeId) :
    g'.unionParts id = g.unionParts id := by
  cases hn : g.node? id with
  | none =>
      unfold unionParts
      rw [h.fault_eq hn, node_eq_error hn]
  | some node =>
      obtain ⟨node', hn', hnode⟩ := h.node? hn
      cases hname : node.name with
      | none =>
          unfold unionParts
          rw [node_eq_ok.mpr hn, node_eq_ok.mpr hn',
            hnode.eq_of_unnamed hname]
      | some name =>
          rw [unionParts_of_named hn hname,
            unionParts_of_named hn' (hnode.name_eq.trans hname)]

/-- So does taking several apart. -/
theorem Veils.unionMembers_eq (h : g.Veils g') (ids : List TypeId) :
    g'.unionMembers ids = g.unionMembers ids := by
  unfold unionMembers
  rw [mapM_congr fun id _ => h.unionParts_eq id]

-- ================================================= where forms are read

/-- Where the form of a type is looked at that may be a marker, it looks
alike in both graphs: which of two members of a union is nil, the first
being asked if the second is not, and what the methods of an object take
and return. -/
structure Discreet (g g' : Graph) : Prop where
  nil : ∀ node ∈ g.nodes.toList, node.markerKey? = none →
    ∀ a b, node.kind = .union [a, b] → g'.isNil b = g.isNil b ∧
      (g.isNil b = .ok false → g'.isNil a = g.isNil a)
  method : ∀ node ∈ g.nodes.toList, node.markerKey? = none →
    ∀ object, node.kind = .object object → ∀ m ∈ object.methods,
      g'.signature? m.type = g.signature? m.type

/-- What `Discreet` asks of a type of some form. -/
def looksAlike (g g' : Graph) : Kind → Bool
  | .union [a, b] =>
      g'.isNil b = g.isNil b &&
        (g.isNil b != .ok false || g'.isNil a = g.isNil a)
  | .object object => object.methods.all fun m =>
      g'.signature? m.type = g.signature? m.type
  | _ => true

/-- `Discreet` asks something of each node by itself, so it can be
decided. -/
theorem discreet_iff : g.Discreet g' ↔ ∀ node ∈ g.nodes.toList,
    node.markerKey? = none → g.looksAlike g' node.kind = true := by
  constructor
  · intro h node hmem hkey
    unfold looksAlike
    split
    next a b hkind =>
      obtain ⟨hb, ha⟩ := h.nil node hmem hkey a b hkind
      by_cases hne : g.isNil b = .ok false
      · simp [hb, ha hne]
      · simp [hb, hne]
    next object hkind => simpa using h.method node hmem hkey object hkind
    next => rfl
  · intro h
    constructor
    · intro node hmem hkey a b hkind
      have hb := h node hmem hkey
      rw [hkind] at hb
      simp only [looksAlike, Bool.and_eq_true, decide_eq_true_eq,
        Bool.or_eq_true, bne_iff_ne] at hb
      exact ⟨hb.1, fun hne => hb.2.resolve_left fun h => h hne⟩
    · intro node hmem hkey object hkind m hm
      have hall := h node hmem hkey
      rw [hkind] at hall
      simpa using List.all_eq_true.mp hall m hm

instance (g g' : Graph) : Decidable (g.Discreet g') :=
  decidable_of_iff _ discreet_iff.symm

/-- No named marker has the form nil or that of a function. -/
def PlainWitnesses (g : Graph) : Prop :=
  ∀ node ∈ g.nodes.toList, node.markerKey? ≠ none →
    node.kind ≠ .leaf .nil ∧ node.kind.signature? = none

instance (g : Graph) : Decidable g.PlainWitnesses :=
  inferInstanceAs (Decidable (∀ node ∈ _, _))

section Plain

variable (h : g.Veils g') (hg : g.PlainWitnesses)
variable (hg' : g'.PlainWitnesses)
include h hg hg'

/-- If no witness is nil, the same types are nil in both graphs. -/
theorem Veils.isNil_eq (id : TypeId) : g'.isNil id = g.isNil id := by
  cases hn : g.node? id with
  | none =>
      unfold isNil Graph.kind
      rw [h.fault_eq hn]
  | some node =>
      obtain ⟨node', hn', hnode⟩ := h.node? hn
      unfold isNil
      rw [kind_of_node hn, kind_of_node hn']
      by_cases hkey : node.markerKey? = none
      · rw [hnode.2 hkey]
      · have hkey' : node'.markerKey? ≠ none := by
          rw [hnode.markerKey?_eq]
          exact hkey
        have hnil := (hg node (mem_nodes_of_node? hn) hkey).1
        have hnil' := (hg' node' (mem_nodes_of_node? hn') hkey').1
        change Except.ok (node'.kind == .leaf .nil)
          = Except.ok (node.kind == .leaf .nil)
        rw [beq_false_of_ne hnil, beq_false_of_ne hnil']

/-- If no witness is a function, the same types are functions in both
graphs, with the same signatures. -/
theorem Veils.signature?_eq (id : TypeId) :
    g'.signature? id = g.signature? id := by
  unfold signature?
  cases hn : g.node? id with
  | none => rw [h.node?_eq_none hn]
  | some node =>
      obtain ⟨node', hn', hnode⟩ := h.node? hn
      rw [hn']
      by_cases hkey : node.markerKey? = none
      · rw [hnode.2 hkey]
      · have hkey' : node'.markerKey? ≠ none := by
          rw [hnode.markerKey?_eq]
          exact hkey
        exact (hg' node' (mem_nodes_of_node? hn') hkey').2.trans
          (hg node (mem_nodes_of_node? hn) hkey).2.symm

/-- Then whatever is read off a form is the same. -/
theorem Veils.discreet : g.Discreet g' where
  nil _ _ _ a b _ :=
    ⟨h.isNil_eq hg hg' b, fun _ => h.isNil_eq hg hg' a⟩
  method _ _ _ _ _ m _ := h.signature?_eq hg hg' m.type

end Plain

/-- The type that a union with nil is about is the same in both graphs. -/
theorem Discreet.withoutNil?_eq (h : g.Discreet g') {id : TypeId}
    {node : Node} (hn : g.node? id = some node)
    (hn' : g'.node? id = some node) (hkey : node.markerKey? = none) :
    g'.withoutNil? id = g.withoutNil? id := by
  rw [withoutNil?_of_node hn, withoutNil?_of_node hn']
  exact otherThanNil_congr (h.nil node (mem_nodes_of_node? hn) hkey)

-- ============================================================== writing

section Writing

variable {child : TypeId → Except Fault String}

/-- Whether a part gets parentheses is the same in both graphs. -/
theorem Veils.atomText_eq (h : g.Veils g') (id : TypeId) :
    g'.atomText child id = g.atomText child id := by
  unfold atomText
  refine bind_congr_ok fun text _ => ?_
  refine h.node_bind_eq fun node node' _ hnode => ?_
  rw [hnode.isUnnamedUnion_eq]

theorem Veils.restTexts_eq (h : g.Veils g') (rest : Option TypeId) :
    g'.restTexts child rest = g.restTexts child rest := by
  unfold restTexts
  refine mapM_congr fun id _ => ?_
  rw [h.atomText_eq]

/-- A signature is written alike if its parts are. -/
theorem Veils.signatureText_eq (h : g.Veils g') (signature : Signature) :
    g'.signatureText child signature = g.signatureText child signature := by
  unfold signatureText
  rw [h.restTexts_eq]

/-- What is written behind the heading of a method. -/
def typeText (g : Graph) (child : TypeId → Except Fault String)
    (id : TypeId) : Option Signature → Except Fault String
  | some signature => g.signatureText child signature
  | none => return "(" ++ (← child id) ++ ")"

/-- A method is written as its heading and its type, where a function is
written as its signature. -/
theorem methodText_of_node {method : Method} {node : Node}
    (hn : g.node? method.type = some node) :
    g.methodText child method = (do
      let text ← g.typeText child method.type node.kind.signature?
      return method.heading ++ text ++ ";") := by
  unfold methodText
  rw [kind_of_node hn]
  cases node.kind with
  | function signature => rfl
  | leaf | array | tuple | map | record | union | error | stream | table
  | object | typedesc | xml =>
      simp only [Kind.signature?, typeText]
      cases child method.type <;> rfl

/-- A method is written alike if its type is a function of the same
signature in both, or in neither. -/
theorem Veils.methodText_eq (h : g.Veils g') {method : Method}
    (hmethod : g'.signature? method.type = g.signature? method.type) :
    g'.methodText child method = g.methodText child method := by
  cases hn : g.node? method.type with
  | none =>
      unfold methodText Graph.kind
      rw [h.fault_eq hn, node_eq_error hn]
      rfl
  | some node =>
      obtain ⟨node', hn', -⟩ := h.node? hn
      unfold signature? at hmethod
      rw [hn, hn'] at hmethod
      rw [methodText_of_node hn, methodText_of_node hn',
        show node'.kind.signature? = node.kind.signature? from hmethod]
      cases node.kind.signature? with
      | none => rfl
      | some signature => simp only [typeText, h.signatureText_eq]

/-- A type is written alike if its parts are. -/
theorem Discreet.kindText_eq (hd : g.Discreet g') (h : g.Veils g')
    {id : TypeId} {node : Node} (hn : g.node? id = some node)
    (hn' : g'.node? id = some node) (hkey : node.markerKey? = none) :
    g'.kindText child id node.kind = g.kindText child id node.kind := by
  cases hkind : node.kind with
  | leaf form => rfl
  | array element => simp only [kindText, h.atomText_eq]
  | tuple members rest => simp only [kindText, tupleText, h.restTexts_eq]
  | record shape => simp only [kindText, recordText, h.restTexts_eq]
  | union members =>
      simp only [kindText, unionText, hd.withoutNil?_eq hn hn' hkey]
      refine bind_congr_ok fun inner _ => ?_
      cases inner with
      | none => rfl
      | some inner =>
          change (g'.atomText child inner >>= _)
            = (g.atomText child inner >>= _)
          rw [h.atomText_eq]
  | function signature => simp only [kindText, h.signatureText_eq]
  | object object =>
      have hmethods : object.methods.mapM (g'.methodText child)
          = object.methods.mapM (g.methodText child) :=
        mapM_congr fun m hm => h.methodText_eq
          (hd.method node (mem_nodes_of_node? hn) hkey object hkind m hm)
      simp only [kindText, objectText, hmethods]
  | stream constraint completion => cases completion <;> rfl
  | map | error | table | typedesc | xml => rfl

end Writing

/-- Wherever it has come from, writing does the same in both graphs. The
induction is along the path. -/
theorem Discreet.renderWithin_eq (hd : g.Discreet g') (h : g.Veils g')
    {path : List TypeId} {top : Bool} {id : TypeId} :
    g'.renderWithin path top id = g.renderWithin path top id := by
  induction path, top, id using renderWithin.induct g with
  | case1 path top id hn =>
      rw [renderWithin_of_none hn,
        renderWithin_of_none (h.node?_eq_none hn)]
  | case2 path top id node hn name hname =>
      obtain ⟨node', hn', hnode⟩ := h.node? hn
      rw [renderWithin_of_node hn, renderWithin_of_node hn',
        hnode.shownName?_eq, hname]
  | case3 path top id node hn hname hmem =>
      obtain ⟨node', hn', hnode⟩ := h.node? hn
      rw [renderWithin_of_node hn, renderWithin_of_node hn',
        hnode.shownName?_eq, hname]
      simp only [hmem, if_true]
  | case4 path top id node hn hname hmem ih =>
      -- a named marker would be written by its name
      have hkey := Node.markerKey?_of_shownName? hname
      obtain ⟨node', hn', hnode⟩ := h.node? hn
      cases hnode.2 hkey
      have hchild : (fun c => g'.renderWithin (id :: path) false c)
          = fun c => g.renderWithin (id :: path) false c := funext ih
      rw [renderWithin_of_node hn, renderWithin_of_node hn', hname]
      simp only [hmem, if_false, hchild]
      exact hd.kindText_eq h hn hn' hkey

/-- Every type is written alike. -/
theorem Discreet.render_eq (hd : g.Discreet g') (h : g.Veils g')
    (id : TypeId) : g'.render id = g.render id :=
  hd.renderWithin_eq h

end Graph

end TypeParams
