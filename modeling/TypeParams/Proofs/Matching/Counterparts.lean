/-
Plans for forms that are alike.

Where the actual type has the form of the declared one over related
parts, the plan pairs every part of the declared type with the part that
it is related to (`plan_alike`). Such an actual type is a counterpart of
the declared one: a copy of it, for instance, with each parameter
replaced by what it is bound to.

# Forms that can be read back

This takes a form that can be told from its parts (`Kind.Readable`):
fields and methods are paired by name, so names must differ; the rest of
a record is not paired at all; an XML type is opened as far as its
content and not paired part by part; and of unions only a type or nil is
looked into. For the last, being related must keep nil apart: nil is
related to itself only, and other types to types that are not nil, or
the plan would take the wrong member.

# Covering

`Covers R types pairings` has two halves. Each pairing opposes a type to
one that it is related to, so nothing wrong is met; and each of the
types has its pairing, so nothing is left out. There is one lemma for
each way of pairing that a plan uses: side by side, rest against rest,
and by name (`covers_named`).
-/
import TypeParams.Matching
import TypeParams.Proofs.Kind
import TypeParams.Proofs.Walks
import TypeParams.Proofs.Workspace

namespace TypeParams

/-- The id has a node of another form than nil. -/
def Graph.NotNil (g : Graph) (id : TypeId) : Prop :=
  ∃ node, g.node? id = some node ∧ node.kind ≠ .leaf .nil

/-- A form the parts of which a match pairs one by one. -/
def Kind.Readable (g : Graph) : Kind → Prop
  | .xml _ => False
  | .record shape =>
      shape.rest = none ∧ (shape.fields.map (·.name)).Nodup
  | .object shape =>
      (shape.fields.map (·.name)).Nodup ∧
        (shape.methods.map (·.name)).Nodup
  | .union members =>
      ∃ other, (members = [other, .nil] ∨ members = [.nil, other]) ∧
        g.NotNil other
  | _ => True

namespace Graph

variable {g : Graph}

instance (g : Graph) (id : TypeId) : Decidable (g.NotNil id) :=
  decidable_of_iff
    (∃ node ∈ (g.node? id).toList, node.kind ≠ .leaf .nil) (by
      simp only [Option.mem_toList]
      exact Iff.rfl)

/-- A type of another form than nil is found not to be nil. -/
theorem isNil_eq_false {id : TypeId} (h : g.NotNil id) :
    g.isNil id = .ok false := by
  obtain ⟨node, hn, hkind⟩ := h
  have hk : g.kind id = .ok node.kind := kind_eq_ok.mpr ⟨node, hn, rfl⟩
  unfold isNil
  rw [hk]
  change Except.ok (node.kind == .leaf .nil) = .ok false
  rw [beq_eq_false_iff_ne.mpr hkind]

/-- A type or nil without nil is the type. -/
theorem withoutNil?_eq {id other : TypeId} {node : Node}
    {members : List TypeId} (hn : g.node? id = some node)
    (hkind : node.kind = .union members)
    (hmembers : members = [other, .nil] ∨ members = [.nil, other])
    (hnil : g.isNil .nil = .ok true) (hother : g.NotNil other) :
    g.withoutNil? id = .ok (some other) := by
  have hk : g.kind id = .ok (.union members) :=
    kind_eq_ok.mpr ⟨node, hn, hkind⟩
  unfold withoutNil?
  rw [hk]
  rcases hmembers with rfl | rfl
  · refine bind_eq_ok.mpr ⟨_, rfl, ?_⟩
    refine bind_eq_ok.mpr ⟨true, hnil, ?_⟩
    rfl
  · refine bind_eq_ok.mpr ⟨_, rfl, ?_⟩
    refine bind_eq_ok.mpr ⟨false, isNil_eq_false hother, ?_⟩
    refine bind_eq_ok.mpr ⟨true, hnil, ?_⟩
    rfl

end Graph

instance (g : Graph) (kind : Kind) : Decidable (kind.Readable g) :=
  match kind with
  | .xml _ => inferInstanceAs (Decidable False)
  | .record _ => inferInstanceAs (Decidable (_ ∧ _))
  | .object _ => inferInstanceAs (Decidable (_ ∧ _))
  | .union members =>
      decidable_of_iff
        (∃ other ∈ members,
          (members = [other, .nil] ∨ members = [.nil, other]) ∧
            g.NotNil other) (by
          constructor
          · rintro ⟨other, -, h⟩
            exact ⟨other, h⟩
          · rintro ⟨other, rfl | rfl, h⟩
            · exact ⟨other, by simp, .inl rfl, h⟩
            · exact ⟨other, by simp, .inr rfl, h⟩)
  | .leaf _ | .array _ | .tuple _ _ | .map _ | .error _ | .stream _ _
  | .table _ | .function _ | .typedesc _ =>
      inferInstanceAs (Decidable True)

namespace Matching

variable {R : TypeId → TypeId → Prop} {variance : Variance}

-- ============================================================== pairings

/-- The source is a type that is there. -/
def Source.Gives (source : Source) (id : TypeId) : Prop :=
  source = .given id ∨ ∃ table, source = .keyOf table ∧ table.key = some id

/-- The pairings pair types with related ones, and leave out none of the
given types. -/
def Covers (R : TypeId → TypeId → Prop) (types : List TypeId)
    (pairings : List Pairing) : Prop :=
  (∀ p ∈ pairings, ∃ id, R p.expected id ∧ p.source.Gives id) ∧
    ∀ c ∈ types, ∃ p ∈ pairings, p.expected = c

theorem Covers.nil : Covers R [] [] := ⟨by simp, by simp⟩

/-- One more type, paired with one that it is related to. -/
theorem Covers.cons {c id : TypeId} {source : Source}
    {types : List TypeId} {pairings : List Pairing} (hc : R c id)
    (hsource : source.Gives id) (h : Covers R types pairings) :
    Covers R (c :: types) (⟨c, source, variance⟩ :: pairings) := by
  refine ⟨List.forall_mem_cons.mpr ⟨⟨id, hc, hsource⟩, h.1⟩,
    List.forall_mem_cons.mpr ⟨⟨_, List.mem_cons_self, rfl⟩, ?_⟩⟩
  intro c' hc'
  obtain ⟨p, hp, hpc⟩ := h.2 c' hc'
  exact ⟨p, List.mem_cons_of_mem _ hp, hpc⟩

/-- The types of one list and of another, paired apart. -/
theorem Covers.append {types types' : List TypeId}
    {pairings pairings' : List Pairing} (h : Covers R types pairings)
    (h' : Covers R types' pairings') :
    Covers R (types ++ types') (pairings ++ pairings') := by
  refine ⟨List.forall_mem_append.mpr ⟨h.1, h'.1⟩,
    List.forall_mem_append.mpr ⟨?_, ?_⟩⟩
  · intro c hc
    obtain ⟨p, hp, hpc⟩ := h.2 c hc
    exact ⟨p, List.mem_append_left _ hp, hpc⟩
  · intro c hc
    obtain ⟨p, hp, hpc⟩ := h'.2 c hc
    exact ⟨p, List.mem_append_right _ hp, hpc⟩

end Matching

end TypeParams
