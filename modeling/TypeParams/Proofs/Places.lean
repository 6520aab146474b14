/-
The shape of a declared type, and where its parts stand.

# Shapes

A declared type gives a shape: arrays, tuples and functions down to
leaves and named markers. `Graph.Shaped` says of another type that it
has this shape. The two are of the same form at every level, a leaf
stands opposite itself, and what stands opposite a marker is left to a
parameter of the relation. It goes down a number of levels, so a shape
is finite.

# Places

A part of a declared type stands at a `Place`. On the way to it there
are parameters of functions, an even number of them (`positive`) or an
odd one; that decides which of two types has to be assignable to the
other there. A match goes by the innermost function instead
(`variance`). At a place that is not `Checked` the two disagree.

The occurrences of markers are listed with their places in the order in
which a match comes to them.
-/
import Mathlib.Data.List.Forall2
import Mathlib.Data.List.Nodup
import Mathlib.Logic.Relation
import TypeParams.Matching.Plan
import TypeParams.Proofs.Kind
import TypeParams.Proofs.Marker

namespace TypeParams

-- =============================================================== places

/-- A part of a declared type and where it stands: below how many
parameters, even or odd, and which way a match compares there. -/
structure Place where
  id : TypeId
  positive : Bool
  variance : Variance
  deriving DecidableEq

namespace Place

/-- A declared type as a whole. -/
def top (id : TypeId) : Place := ⟨id, true, .covariant⟩

/-- Where the parts of a type stand. Those of functions are compared by
what they are to the function, wherever that stands. -/
def parts (place : Place) : Kind → List Place
  | .array element => [{ place with id := element }]
  | .tuple members _ => members.map fun id => { place with id }
  | .function signature =>
      signature.params.map (⟨·, !place.positive, .contravariant⟩)
        ++ [⟨signature.result, place.positive, .covariant⟩]
  | _ => []

/-- A match asks here for no less than is needed. -/
def Checked (place : Place) : Prop :=
  place.positive = true ∨ place.variance = .contravariant

instance (place : Place) : Decidable place.Checked :=
  inferInstanceAs (Decidable (_ ∨ _))

end Place

-- ================================================================ forms

/-- Two arrays, two tuples of the same length, or two functions with as
many parameters that are both isolated or both not. -/
inductive Kind.Congruent : Kind → Kind → Prop where
  | array (element element' : TypeId) :
      Congruent (.array element) (.array element')
  | tuple {members members' : List TypeId}
      (hmembers : members.length = members'.length) :
      Congruent (.tuple members none) (.tuple members' none)
  | function {params params' : List TypeId} {result result' : TypeId}
      {isolated : Bool} (hparams : params.length = params'.length) :
      Congruent (.function ⟨params, none, result, isolated⟩)
        (.function ⟨params', none, result', isolated⟩)

namespace Kind.Congruent

variable {kind other : Kind}

/-- A form that is congruent to some form is so to itself. -/
theorem self (h : kind.Congruent other) : kind.Congruent kind := by
  cases h with
  | array => exact .array _ _
  | tuple => exact .tuple rfl
  | function => exact .function rfl

/-- A form that is congruent to some form is no leaf. -/
theorem isLeaf (h : kind.Congruent other) : kind.isLeaf = false := by
  cases h <;> rfl

/-- The parts that stand at places are all there are. -/
theorem map_parts (h : kind.Congruent other) (place : Place) :
    (place.parts kind).map (·.id) = kind.children := by
  cases h with
  | array => rfl
  | tuple => simp [Place.parts, Kind.children, Function.comp_def]
  | function => simp [Place.parts, Kind.children, Function.comp_def]

/-- What stands at the place of a part is a part. -/
theorem mem_parts (h : kind.Congruent other) {place part : Place}
    (hpart : part ∈ place.parts kind) : part.id ∈ kind.children := by
  rw [← h.map_parts place]
  exact List.mem_map_of_mem hpart

/-- A form over as many other parts. -/
theorem withChildren (h : kind.Congruent other) {ids : List TypeId}
    (hlen : ids.length = kind.children.length) :
    kind.Congruent (kind.withChildren ids) := by
  cases h with
  | array => exact .array _ _
  | @tuple members =>
      have hlen : ids.length = members.length := by
        simpa [Kind.children] using hlen
      have hrest : (ids.drop members.length).head? = none := by
        simp [List.drop_eq_nil_of_le (Nat.le_of_eq hlen)]
      rw [Kind.withChildren, hrest]
      exact .tuple (by simp [hlen])
  | @function params =>
      have hlen : ids.length = params.length + 1 := by
        simpa [Kind.children] using hlen
      have hrest : (ids.dropLast.drop params.length).head? = none := by
        rw [List.drop_eq_nil_of_le (by simp [hlen])]
        rfl
      rw [Kind.withChildren]
      simp only [hrest]
      exact .function (by simp [hlen])

/-- A match pairs the parts at their places with those of the other
form. -/
theorem plan (h : kind.Congruent other) (g : Graph) (checker : Checker)
    (maxDepth : Nat) (place : Place) (expected actual : TypeId) :
    Matching.plan g checker maxDepth place.variance expected kind actual
        other
      = .ok (.pairs ((place.parts kind).zipWith
          (fun part id => Matching.pair part.variance part.id id)
          other.children)) := by
  cases h with
  | array => rfl
  | tuple =>
      have hrests : Matching.pairRests place.variance none none = [] := rfl
      simp only [Matching.plan, hrests, List.append_nil, Place.parts,
        Kind.children, Option.toList_none, List.zipWith_map_left]
      rfl
  | function hparams =>
      have hrests : Matching.pairRests .contravariant none none = [] := rfl
      simp only [Matching.plan, Matching.pairSignatures, hrests,
        List.append_nil, Place.parts, Kind.children, Option.toList_none]
      rw [List.zipWith_append (by rw [List.length_map, hparams]),
        List.zipWith_map_left]
      rfl

end Kind.Congruent

-- =============================================================== shapes

/-- Each entry has one that it is related to. -/
private theorem exists_of_forall₂ {α β : Type} {R : α → β → Prop}
    {as : List α} {bs : List β} (h : List.Forall₂ R as bs) {a : α}
    (ha : a ∈ as) : ∃ b, R a b := by
  induction h with
  | nil => cases ha
  | cons hab _ ih =>
      rcases List.mem_cons.mp ha with rfl | ha
      · exact ⟨_, hab⟩
      · exact ih ha

namespace Graph

variable {g g' : Graph} {M M' : Place → MarkerKey → TypeId → Prop}

/-- One level of a shape: what stands opposite a part at a place. `part`
says it of the levels below, and `M` of markers. -/
inductive ShapedBy (g : Graph) (M : Place → MarkerKey → TypeId → Prop)
    (part : Place → TypeId → Prop) (place : Place) : TypeId → Prop where
  | marker {node : Node} {key : MarkerKey} {id : TypeId}
      (hnode : g.node? place.id = some node)
      (hkey : node.markerKey? = some key) (hM : M place key id) :
      ShapedBy g M part place id
  | leaf {node : Node} (hnode : g.node? place.id = some node)
      (hmarker : node.isMarker = false)
      (hleaf : node.kind.isLeaf = true) : ShapedBy g M part place place.id
  | branch {node other : Node} {id : TypeId}
      (hnode : g.node? place.id = some node)
      (hmarker : node.isMarker = false) (hother : g.node? id = some other)
      (hcongruent : node.kind.Congruent other.kind)
      (hparts : List.Forall₂ part (place.parts node.kind)
        other.kind.children) : ShapedBy g M part place id

/-- A type has the shape of the declared type at a place, which goes
down at most so many levels. -/
def Shaped (g : Graph) (M : Place → MarkerKey → TypeId → Prop) :
    Nat → Place → TypeId → Prop
  | 0 => fun _ _ => False
  | height + 1 => g.ShapedBy M (g.Shaped M height)

section Known

variable {part : Place → TypeId → Prop} {place : Place} {id : TypeId}
  {node : Node} (h : g.ShapedBy M part place id)
  (hnode : g.node? place.id = some node)

include h hnode

/-- What is said of markers holds of what stands opposite one. -/
theorem ShapedBy.of_marker {key : MarkerKey}
    (hkey : node.markerKey? = some key) : M place key id := by
  have hmarked := Node.isMarker_of_markerKey? hkey
  cases h with
  | marker hnode' hkey' hM =>
      cases hnode.symm.trans hnode'
      cases hkey.symm.trans hkey'
      exact hM
  | leaf hnode' hmarker | branch hnode' hmarker =>
      cases hnode.symm.trans hnode'
      cases hmarked.symm.trans hmarker

/-- A leaf stands opposite itself. -/
theorem ShapedBy.of_leaf (hmarker : node.isMarker = false)
    (hleaf : node.kind.isLeaf = true) : id = place.id := by
  cases h with
  | marker hnode' hkey =>
      cases hnode.symm.trans hnode'
      cases hmarker.symm.trans (Node.isMarker_of_markerKey? hkey)
  | leaf => rfl
  | branch hnode' _ _ hcongruent =>
      cases hnode.symm.trans hnode'
      cases hleaf.symm.trans hcongruent.isLeaf

/-- A type with parts stands opposite one of a congruent form, whose
parts stand opposite its own. -/
theorem ShapedBy.of_parts (hmarker : node.isMarker = false)
    (hleaf : node.kind.isLeaf = false) :
    ∃ other, g.node? id = some other ∧
      node.kind.Congruent other.kind ∧
      List.Forall₂ part (place.parts node.kind) other.kind.children := by
  cases h with
  | marker hnode' hkey =>
      cases hnode.symm.trans hnode'
      cases hmarker.symm.trans (Node.isMarker_of_markerKey? hkey)
  | leaf hnode' _ hleaf' =>
      cases hnode.symm.trans hnode'
      cases hleaf.symm.trans hleaf'
  | branch hnode' _ hother hcongruent hparts =>
      cases hnode.symm.trans hnode'
      exact ⟨_, hother, hcongruent, hparts⟩

end Known

/-- A shape is kept as the graph grows, and with it what is said of
markers. -/
theorem Shaped.mono (hgg' : g.Extends g')
    (hM : ∀ place key id, M place key id → M' place key id)
    {height : Nat} {place : Place} {id : TypeId}
    (h : g.Shaped M height place id) : g'.Shaped M' height place id := by
  induction height generalizing place id with
  | zero => exact h
  | succ height ih =>
      cases h with
      | marker hnode hkey h =>
          exact .marker (hgg' _ _ hnode) hkey (hM _ _ _ h)
      | leaf hnode hmarker hleaf =>
          exact .leaf (hgg' _ _ hnode) hmarker hleaf
      | branch hnode hmarker hother hcongruent hparts =>
          exact .branch (hgg' _ _ hnode) hmarker (hgg' _ _ hother)
            hcongruent (hparts.imp fun _ _ => ih)

/-- A shape is kept as the graph grows. -/
theorem Shaped.extends (hgg' : g.Extends g') {height : Nat}
    {place : Place} {id : TypeId} (h : g.Shaped M height place id) :
    g'.Shaped M height place id :=
  h.mono hgg' fun _ _ _ hM => hM

/-- A type without markers has its own shape, whatever is said of
markers. -/
theorem Shaped.self {height : Nat} {place : Place} {id : TypeId}
    (hfree : g.MarkerFree place.id) (h : g.Shaped M height place id) :
    g.Shaped M' height place place.id := by
  induction height generalizing place id with
  | zero => cases h
  | succ height ih =>
      cases h with
      | marker hnode hkey =>
          have hunmarked := hfree _ .refl _ hnode
          rw [Node.isMarker_of_markerKey? hkey] at hunmarked
          cases hunmarked
      | leaf hnode hmarker hleaf => exact .leaf hnode hmarker hleaf
      | @branch node other _ hnode hmarker hother hcongruent hparts =>
          refine .branch hnode hmarker hnode hcongruent.self ?_
          rw [← hcongruent.map_parts place, List.forall₂_map_right_iff,
            List.forall₂_same]
          intro part hpart
          obtain ⟨id, hid⟩ := exists_of_forall₂ hparts hpart
          exact ih (hfree.child hnode (hcongruent.mem_parts hpart)) hid

/-- Where there are no markers, nothing needs to be said of them. -/
theorem Shaped.of_markerFree {height : Nat} {place : Place} {id : TypeId}
    (hfree : g.MarkerFree place.id) (h : g.Shaped M height place id) :
    g.Shaped M' height place id := by
  induction height generalizing place id with
  | zero => cases h
  | succ height ih =>
      cases h with
      | marker hnode hkey =>
          have hunmarked := hfree _ .refl _ hnode
          rw [Node.isMarker_of_markerKey? hkey] at hunmarked
          cases hunmarked
      | leaf hnode hmarker hleaf => exact .leaf hnode hmarker hleaf
      | branch hnode hmarker hother hcongruent hparts =>
          have hfree' : ∀ part ∈ place.parts _, g.MarkerFree part.id :=
            fun part hpart =>
              hfree.child hnode (hcongruent.mem_parts hpart)
          refine .branch hnode hmarker hother hcongruent ?_
          exact ((List.forall₂_and_left _ _).mpr ⟨hfree', hparts⟩).imp
            fun _ _ h => ih h.1 h.2

/-- A declared type that gives a shape is there. -/
theorem Shaped.place_lt {height : Nat} {place : Place} {id : TypeId}
    (h : g.Shaped M height place id) : place.id.index < g.size := by
  cases height with
  | zero => cases h
  | succ height =>
      cases h with
      | marker hnode | leaf hnode | branch hnode =>
          exact index_lt_of_node? hnode

/-- A type of the graph from which the missing type is not reached. -/
def Present (g : Graph) (id : TypeId) : Prop :=
  id.index < g.size ∧ ¬ g.Reaches id .noType

/-- The types of a closed set without the missing type are present. -/
theorem Present.of_closedOn {P : TypeId → Prop} (hP : g.ClosedOn P)
    (hmissing : ¬ P .noType) {id : TypeId} (hid : P id) :
    g.Present id :=
  ⟨hP.lt hid, fun h => hmissing (hP.reaches hid h)⟩

theorem Present.ne_noType {id : TypeId} (h : g.Present id) :
    id ≠ .noType := by
  rintro rfl
  exact h.2 .refl

/-- The parts of a present type are present. -/
theorem Present.child {id c : TypeId} {node : Node} (hg : g.Closed)
    (h : g.Present id) (hn : g.node? id = some node)
    (hc : c ∈ node.kind.children) : g.Present c :=
  ⟨hg.closedOn.child h.1 hn c hc,
    fun hmissing => h.2 ((Reaches.step .refl ⟨node, hn, hc⟩).trans hmissing)⟩

-- ============================================================ going down

/-- One type is a part of another that is no marker. -/
def Below (g : Graph) (id part : TypeId) : Prop :=
  ∃ node, g.node? id = some node ∧ node.isMarker = false ∧
    part ∈ node.kind.children

/-- The shape of a part goes down fewer levels. -/
theorem Shaped.below {height : Nat} {place : Place} {id x : TypeId}
    (h : g.Shaped M height place id) (hx : g.Below place.id x) :
    ∃ height' < height, ∃ place' id', place'.id = x ∧
      g.Shaped M height' place' id' := by
  obtain ⟨node, hn, hmarker, hx⟩ := hx
  have hleaf : node.kind.isLeaf = false := by
    refine Bool.eq_false_iff.mpr fun hleaf => ?_
    rw [Kind.children_of_isLeaf hleaf] at hx
    cases hx
  cases height with
  | zero => cases h
  | succ height =>
      obtain ⟨_, -, hcongruent, hparts⟩ := h.of_parts hn hmarker hleaf
      rw [← hcongruent.map_parts place] at hx
      obtain ⟨part, hpart, rfl⟩ := List.mem_map.mp hx
      obtain ⟨id', hid'⟩ := exists_of_forall₂ hparts hpart
      exact ⟨height, Nat.lt_succ_self _, part, id', rfl, hid'⟩

/-- So does the shape of what is further below. -/
theorem Shaped.transGen_below {height : Nat} {place : Place}
    {id x : TypeId} (h : g.Shaped M height place id)
    (hx : Relation.TransGen g.Below place.id x) :
    ∃ height' < height, ∃ place' id', place'.id = x ∧
      g.Shaped M height' place' id' := by
  induction hx with
  | single hx => exact h.below hx
  | tail _ hx ih =>
      obtain ⟨height', hlt, place', id', rfl, h'⟩ := ih
      obtain ⟨height'', hlt', hfound⟩ := h'.below hx
      exact ⟨height'', Nat.lt_trans hlt' hlt, hfound⟩

/-- A type that has a shape is not a part of itself: going round would
take levels away without end. -/
theorem Shaped.not_below_self {height : Nat} {place : Place}
    {id : TypeId} (h : g.Shaped M height place id) :
    ¬ Relation.TransGen g.Below place.id place.id := by
  intro hself
  induction height using Nat.strongRecOn generalizing place id with
  | ind height ih =>
      obtain ⟨height', hlt, place', id', hid, h'⟩ :=
        h.transGen_below hself
      exact ih height' hlt h' (hid ▸ hself)

/-- The types with parts that are gone through, outermost first. -/
def branches (g : Graph) : Nat → TypeId → List TypeId
  | 0, _ => []
  | height + 1, id =>
      match g.node? id with
      | none => []
      | some node =>
          if node.isMarker || node.kind.isLeaf then []
          else id :: node.kind.children.flatMap (g.branches height)

/-- The markers that are met, in order, each with its place. -/
def occurrences (g : Graph) : Nat → Place → List (MarkerKey × Place)
  | 0, _ => []
  | height + 1, place =>
      match g.node? place.id with
      | none => []
      | some node =>
          match node.markerKey? with
          | some key => [(key, place)]
          | none =>
              (place.parts node.kind).flatMap (g.occurrences height)

/-- A type with parts is gone through before those of its parts. -/
theorem branches_of_congruent {height : Nat} {place : Place} {node : Node}
    {other : Kind} (hnode : g.node? place.id = some node)
    (hmarker : node.isMarker = false)
    (hcongruent : node.kind.Congruent other) :
    g.branches (height + 1) place.id
      = place.id :: (place.parts node.kind).flatMap
          (g.branches height ·.id) := by
  rw [branches, hnode]
  simp only [hmarker, hcongruent.isLeaf, Bool.or_self,
    Bool.false_eq_true, if_false]
  rw [← hcongruent.map_parts place, List.flatMap_map]

theorem occurrences_of_marker {height : Nat} {place : Place} {node : Node}
    {key : MarkerKey} (hnode : g.node? place.id = some node)
    (hkey : node.markerKey? = some key) :
    g.occurrences (height + 1) place = [(key, place)] := by
  rw [occurrences, hnode]
  simp only [hkey]

/-- The occurrences in a type are those in its parts, part by part. -/
theorem occurrences_of_unmarked {height : Nat} {place : Place}
    {node : Node} (hnode : g.node? place.id = some node)
    (hmarker : node.isMarker = false) :
    g.occurrences (height + 1) place
      = (place.parts node.kind).flatMap (g.occurrences height) := by
  rw [occurrences, hnode]
  simp only [Node.markerKey?_of_unmarked hmarker]

end Graph

end TypeParams
