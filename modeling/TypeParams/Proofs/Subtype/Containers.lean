/-
What a container takes.

An array takes a row if its element takes whatever stands in the row, a
map takes a map or a record if it takes the values, and a stream takes a
stream if it takes what that holds and what it ends with. Each of them
takes a union if it takes the members.

`Kind.Fills` lists these forms of a container and of what it may take;
with each goes what the parts of the container have to take, and
`Kind.Fills.assignable_iff` says that this is all there is to it. So a
container with a part replaced takes a type exactly if the new part
takes what the part has to. That is how the type that a match binds a
parameter to is seen to be the least one that will do.

# Targets that fit themselves

A type is assignable to itself without a look at its parts. For the
statements about one shape not to have that as an exception, the target
must fit itself, part by part, with each part taken to be related to
itself only (`Graph.assignable_iff_fits`). Arrays, maps and streams do.
-/
import TypeParams.Matching.Plan
import TypeParams.Proofs.Kind
import TypeParams.Proofs.Subtype.Unions

namespace TypeParams

open Matching (streamParts?)

namespace Graph

variable {g : Graph} {a c x y : TypeId} {s t : Node}

-- ============================================================ one shape

/-- A single type is assignable to a type that fits itself if the forms
fit. -/
theorem assignable_iff_fits (hs : g.node? a = some s)
    (ht : g.node? c = some t) (hsingle : s.kind.isSingle = true)
    (hself : t.kind.Fits Eq c c t.kind) :
    g.Assignable a c ↔ s.kind.Fits g.Assignable a c t.kind := by
  constructor
  · intro h
    have hr : Rule.Relates g g.Assignable a s c t := by
      rcases h.relates with rfl | ⟨s', t', hs', ht', hr⟩
      · rw [hs, Option.some.injEq] at ht
        subst ht
        have hholds : (Rule.of a s a s).Holds g Eq :=
          Rule.holds_iff.mpr (.shape hself)
        exact Rule.holds_iff.mp (hholds.mono fun _ _ heq => heq ▸ .refl _ _)
      · rw [hs, Option.some.injEq] at hs'
        rw [ht, Option.some.injEq] at ht'
        subst hs' ht'
        exact hr
    rcases hr.of_single hsingle hself.target.2 with ⟨form, hform, -⟩ | h
    · have hleaf := hself.target.1
      rw [hform] at hleaf
      cases hleaf
    · exact h
  · intro h
    exact .of_relates hs ht (.shape h)

/-- A row is assignable to an array if all that stands in it is
assignable to the element. -/
theorem assignable_array_iff {row : Row} (hs : g.node? a = some s)
    (ht : g.node? c = some t) (hrow : s.kind.row? = some row)
    (harray : t.kind = .array x) :
    g.Assignable a c ↔
      ∀ d ∈ row.members ++ row.rest.toList, g.Assignable d x := by
  have hrow' : t.kind.row? = some ⟨[], some x⟩ := by
    rw [harray]
    rfl
  rw [assignable_iff_fits hs ht (Kind.isSingle_of_row? hrow),
    Kind.fits_iff_of_row? hrow hrow', Row.fits_array_iff]
  exact .row hrow' hrow'
    ⟨Nat.le_refl _, fun i x hx => ⟨x, hx, rfl⟩⟩

/-- A map is assignable to a map if its values are. -/
theorem assignable_map_iff (hs : g.node? a = some s)
    (ht : g.node? c = some t) (hmap : s.kind = .map y)
    (hmap' : t.kind = .map x) : g.Assignable a c ↔ g.Assignable y x := by
  rw [assignable_iff_fits hs ht (hmap ▸ rfl) (hmap' ▸ .map rfl), hmap,
    hmap']
  refine ⟨fun h => ?_, .map⟩
  cases h with
  | map h => exact h
  | row hs => cases hs

/-- A record is assignable to a map if its values are. -/
theorem assignable_map_iff_values {shape : RecordType}
    (hs : g.node? a = some s) (ht : g.node? c = some t)
    (hrecord : s.kind = .record shape) (hmap : t.kind = .map x) :
    g.Assignable a c ↔ ∀ d ∈ shape.valueTypes, g.Assignable d x := by
  rw [assignable_iff_fits hs ht (hrecord ▸ rfl) (hmap ▸ .map rfl), hrecord,
    hmap]
  refine ⟨fun h => ?_, .values⟩
  cases h with
  | values h => exact h
  | row hs => cases hs

/-- A stream that says nothing of its end ends with nil. -/
theorem assignable_stream_iff {parts : TypeId × TypeId}
    (hs : g.node? a = some s) (ht : g.node? c = some t)
    (hparts : streamParts? s.kind = some parts)
    (hstream : t.kind = .stream x (some y)) :
    g.Assignable a c ↔
      g.Assignable parts.1 x ∧ g.Assignable parts.2 y := by
  cases hkind : s.kind with
  | stream constraint completion =>
      rw [hkind] at hparts
      cases hparts
      rw [assignable_iff_fits hs ht (hkind ▸ rfl)
        (hstream ▸ .stream rfl rfl), hkind, hstream]
      refine ⟨fun h => ?_, fun h => .stream h.1 h.2⟩
      cases h with
      | stream h hcompletion => exact ⟨h, hcompletion⟩
      | row hs => cases hs
  | leaf | array | tuple | map | record | union | error | table | function
  | object | typedesc | xml =>
      rw [hkind] at hparts
      cases hparts

/-- A union is assignable to what is no union if its members are. -/
theorem assignable_iff_members {members : List TypeId}
    (hs : g.node? a = some s) (ht : g.node? c = some t)
    (hunion : s.kind = .union members) (hleaf : t.kind.isLeaf = false)
    (hother : ∀ members, t.kind ≠ .union members) :
    g.Assignable a c ↔ ∀ m ∈ members, g.Assignable m c := by
  constructor
  · intro h m hm
    rcases h.of_member ⟨s, members, hs, hunion, hm⟩ with rfl | hmc
    · rw [hs, Option.some.injEq] at ht
      exact absurd hunion (ht ▸ hother members)
    · exact hmc
  · intro h
    refine .of_relates hs ht (.members hunion ?_ h)
    intro hmissing
    rw [hmissing] at hleaf
    cases hleaf

end Graph

-- =========================================================== containers

/-- What stands in a row. -/
def Row.parts (row : Row) : List TypeId := row.members ++ row.rest.toList

/-- The form of a container and the form of a type that it may take,
with the types that each part of the container has to take then. -/
inductive Kind.Fills (g : Graph) : Kind → Kind → List (List TypeId) →
    Prop where
  /-- An array or a tuple. -/
  | row {element : TypeId} {kind : Kind} {row : Row}
      (hrow : kind.row? = some row) :
      Fills g (.array element) kind [row.parts]
  /-- A union of arrays and tuples that are not all empty. -/
  | rows {element : TypeId} {members : List TypeId} {rows : List Row}
      (hrows : List.Forall₂ (fun m row => ∃ node,
        g.node? m = some node ∧ node.kind.row? = some row) members rows)
      (hsome : rows.flatMap Row.parts ≠ []) :
      Fills g (.array element) (.union members) [rows.flatMap Row.parts]
  | map {constraint actual : TypeId} :
      Fills g (.map constraint) (.map actual) [[actual]]
  | record {constraint : TypeId} {shape : RecordType} :
      Fills g (.map constraint) (.record shape) [shape.valueTypes]
  | stream {constraint completion : TypeId} {kind : Kind}
      {parts : TypeId × TypeId} (hparts : streamParts? kind = some parts) :
      Fills g (.stream constraint (some completion)) kind
        [[parts.1], [parts.2]]
  /-- A union of streams, of one at least. -/
  | streams {constraint completion : TypeId} {members : List TypeId}
      {parts : List (TypeId × TypeId)}
      (hparts : List.Forall₂ (fun m parts => ∃ node,
        g.node? m = some node ∧ streamParts? node.kind = some parts)
        members parts)
      (hsome : parts ≠ []) :
      Fills g (.stream constraint (some completion)) (.union members)
        [parts.map (·.1), parts.map (·.2)]

/-- Each of the parts takes what it has to. -/
def Graph.Takes (g : Graph) : List (List TypeId) → List TypeId → Prop :=
  List.Forall₂ fun slot x => ∀ d ∈ slot, g.Assignable d x

/-- A container of one part. -/
theorem Graph.takes_one {g : Graph} {slot : List TypeId} {x : TypeId} :
    g.Takes [slot] [x] ↔ ∀ d ∈ slot, g.Assignable d x := by
  unfold Graph.Takes
  rw [List.forall₂_cons, and_iff_left .nil]

/-- A container of two parts. -/
theorem Graph.takes_two {g : Graph} {slot slot' : List TypeId}
    {x y : TypeId} :
    g.Takes [slot, slot'] [x, y] ↔
      (∀ d ∈ slot, g.Assignable d x) ∧ ∀ d ∈ slot', g.Assignable d y := by
  exact List.forall₂_cons.trans (and_congr .rfl takes_one)

namespace Kind.Fills

variable {g g' : Graph} {kind actual : Kind} {slots : List (List TypeId)}

/-- What is asked of a container is asked of its parts. -/
theorem length (h : Fills g kind actual slots) :
    kind.children.length = slots.length := by
  cases h <;> rfl

/-- A container has parts. -/
theorem children_ne_nil (h : Fills g kind actual slots) :
    kind.children ≠ [] := by
  cases h <;> exact List.cons_ne_nil _ _

theorem isLeaf (h : Fills g kind actual slots) : kind.isLeaf = false := by
  cases h <;> rfl

theorem withChildren_ne_union (h : Fills g kind actual slots)
    (parts members : List TypeId) :
    kind.withChildren parts ≠ .union members := by
  cases h <;> exact Kind.noConfusion

/-- What holds of the entries of one list holds of those of the other,
if related entries agree. -/
theorem forall_mem_iff_of_forall₂ {α β : Type} {R : α → β → Prop}
    {P : α → Prop} {Q : β → Prop} {as : List α} {bs : List β}
    (h : List.Forall₂ R as bs) (hPQ : ∀ a b, R a b → (P a ↔ Q b)) :
    (∀ a ∈ as, P a) ↔ ∀ b ∈ bs, Q b := by
  induction h with
  | nil => simp
  | cons hab _ ih =>
      rw [List.forall_mem_cons, List.forall_mem_cons, hPQ _ _ hab, ih]

/-- A type is assignable to a container of such a form if its parts take
what they have to. -/
theorem assignable_iff (h : Fills g kind actual slots)
    (hgg' : g.Extends g') {a c : TypeId} {s t : Node}
    (hs : g'.node? a = some s) (hactual : s.kind = actual)
    (ht : g'.node? c = some t) {xs : List TypeId}
    (hlength : xs.length = slots.length)
    (hkind : t.kind = kind.withChildren xs) :
    g'.Assignable a c ↔ g'.Takes slots xs := by
  cases h with
  | row hrow =>
      obtain ⟨x, rfl⟩ := List.length_eq_one_iff.mp hlength
      rw [Graph.takes_one]
      exact Graph.assignable_array_iff hs ht (hactual ▸ hrow) hkind
  | rows hrows hsome =>
      obtain ⟨x, rfl⟩ := List.length_eq_one_iff.mp hlength
      -- on both sides, member by member
      rw [Graph.takes_one, List.forall_mem_flatMap,
        Graph.assignable_iff_members hs ht hactual (hkind ▸ rfl)
          (hkind ▸ fun _ => Kind.noConfusion)]
      apply forall_mem_iff_of_forall₂ hrows
      intro m row hm
      obtain ⟨node, hn, hrow⟩ := hm
      exact Graph.assignable_array_iff (hgg' _ _ hn) ht hrow hkind
  | map =>
      obtain ⟨x, rfl⟩ := List.length_eq_one_iff.mp hlength
      rw [Graph.takes_one, List.forall_mem_singleton]
      exact Graph.assignable_map_iff hs ht hactual hkind
  | record =>
      obtain ⟨x, rfl⟩ := List.length_eq_one_iff.mp hlength
      rw [Graph.takes_one]
      exact Graph.assignable_map_iff_values hs ht hactual hkind
  | stream hparts =>
      obtain ⟨x, y, rfl⟩ := List.length_eq_two.mp hlength
      rw [Graph.takes_two, List.forall_mem_singleton,
        List.forall_mem_singleton]
      exact Graph.assignable_stream_iff hs ht (hactual ▸ hparts) hkind
  | streams hparts hsome =>
      obtain ⟨x, y, rfl⟩ := List.length_eq_two.mp hlength
      rw [Graph.takes_two, List.forall_mem_map, List.forall_mem_map,
        ← forall₂_and,
        Graph.assignable_iff_members hs ht hactual (hkind ▸ rfl)
          (hkind ▸ fun _ => Kind.noConfusion)]
      apply forall_mem_iff_of_forall₂ hparts
      intro m part hm
      obtain ⟨node, hn, hpart⟩ := hm
      exact Graph.assignable_stream_iff (hgg' _ _ hn) ht hpart hkind

end Kind.Fills

end TypeParams
