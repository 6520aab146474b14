/-
What a rule says, shape by shape.

# From premises to shapes

A rule is a list of premises, in the order in which a search tries them.
Proofs about the relation do not care for that order; they want to know
what two related types have in common. `Kind.Fits` says it for two forms
that are neither unions nor leaves on the side of the target, one case
for each pair of shapes, and `Kind.premises_hold_iff` says that it is
what the premises say. `Rule.Relates` does the same for the rule as a
whole (`Rule.holds_iff`). Nothing after this file looks at premises.

Each shape has its own `Fits`, and its own lemma that the shape's
premises say just that. All of them take the relation between parts as a
parameter, and grow with it, so that the same lemma serves the largest
relation, a relation that is assumed, and one that is to be shown closed
under the rules.

# Rows

Arrays and tuples are one shape here. Both are a `Row`: a type for each
of the first positions, and one for all positions after those, if there
may be any. An array is a row without first positions. The four rules
for arrays and tuples are then one (`Kind.fits_iff_of_row?`), and that
rows fit transitively is argued once, position by position
(`Row.Fits.trans`).

# Single types

A source is never, a union, or a single type, and only the last has a
rule that looks at its form (`Kind.isSingle`). The lemmas at the end
take a related pair apart along this division.
-/
import Mathlib.Data.List.Forall2
import TypeParams.Subtype.Relation

namespace TypeParams

variable {g : Graph} {R S : TypeId → TypeId → Prop}

-- ======================================================== one premise

namespace Premise

@[simp] theorem holds_fact {holds : Bool} :
    (fact holds).Holds g R ↔ holds = true := Iff.rfl

@[simp] theorem holds_sub {a b : TypeId} :
    (sub a b).Holds g R ↔ R a b := Iff.rfl

/-- A part that the target has a type for is related to it, and to
nothing where there is none. -/
theorem holds_into {target : Option TypeId} {source : TypeId} :
    (into target source).Holds g R ↔ ∃ t, target = some t ∧ R source t := by
  cases target with
  | none => simp [into]
  | some t => simp [into]

/-- The same, for a part that the source has a type for. -/
theorem holds_outOf {source : Option TypeId} {target : TypeId} :
    (outOf source target).Holds g R ↔ ∃ s, source = some s ∧ R s target := by
  cases source with
  | none => simp [outOf]
  | some s => simp [outOf]

/-- Premises for the entries of two lists, as far as both go. -/
theorem holds_zipWith_sub {as bs : List TypeId} :
    (∀ p ∈ as.zipWith sub bs, p.Holds g R) ↔
      ∀ (i : Nat) (a b : TypeId), as[i]? = some a → bs[i]? = some b →
        R a b := by
  constructor
  · intro h i a b ha hb
    refine h (sub a b) (List.mem_of_getElem? (i := i) ?_)
    rw [List.getElem?_zipWith, ha, hb]
  · intro h p hp
    obtain ⟨i, hi⟩ := List.mem_iff_getElem?.mp hp
    rw [List.getElem?_zipWith] at hi
    split at hi
    next a b ha hb =>
      cases hi
      exact h i a b ha hb
    next => cases hi

end Premise

-- =============================================================== rows

/-- What stands at the positions of a list: a type for each of the
first, and one for all the others. -/
structure Row where
  members : List TypeId
  rest : Option TypeId

/-- The row that an array or a tuple is. -/
def Kind.row? : Kind → Option Row
  | .array element => some ⟨[], some element⟩
  | .tuple members rest => some ⟨members, rest⟩
  | _ => none

namespace Row

/-- The type at a position, if there may be anything. -/
def at? (row : Row) (i : Nat) : Option TypeId :=
  row.members[i]?.or row.rest

/-- The first positions have the members. -/
theorem at?_of_lt {row : Row} {i : Nat} (h : i < row.members.length) :
    row.at? i = row.members[i]? := by
  rw [at?, List.getElem?_eq_getElem h, Option.some_or]

/-- All positions after them have the rest type. -/
theorem at?_of_le {row : Row} {i : Nat} (h : row.members.length ≤ i) :
    row.at? i = row.rest := by
  rw [at?, List.getElem?_eq_none h, Option.none_or]

/-- The target insists on no position that the source may leave empty,
and has a type for whatever stands at one in the source. -/
structure Fits (R : TypeId → TypeId → Prop) (row target : Row) : Prop where
  length : target.members.length ≤ row.members.length
  pointwise : ∀ i x, row.at? i = some x →
    ∃ y, target.at? i = some y ∧ R x y

/-- Rows that fit by one relation fit by a larger one. -/
theorem Fits.mono {a b : Row} (h : a.Fits R b)
    (hRS : ∀ x y, R x y → S x y) : a.Fits S b := by
  refine ⟨h.length, fun i x hx => ?_⟩
  obtain ⟨y, hy, hxy⟩ := h.pointwise i x hx
  exact ⟨y, hy, hRS x y hxy⟩

/-- Rows fit transitively, position by position. -/
theorem Fits.trans {a b c : Row} {T : TypeId → TypeId → Prop}
    (h : a.Fits R b) (h' : b.Fits S c)
    (hT : ∀ x y z, R x y → S y z → T x z) : a.Fits T c := by
  refine ⟨Nat.le_trans h'.length h.length, fun i x hx => ?_⟩
  obtain ⟨y, hy, hxy⟩ := h.pointwise i x hx
  obtain ⟨z, hz, hyz⟩ := h'.pointwise i y hy
  exact ⟨z, hz, hT x y z hxy hyz⟩

/-- The parts of a row are what stands at its positions. -/
theorem exists_at?_of_mem {row : Row} {x : TypeId}
    (h : x ∈ row.members ++ row.rest.toList) :
    ∃ i, row.at? i = some x := by
  rcases List.mem_append.mp h with h | h
  · obtain ⟨i, hi, rfl⟩ := List.mem_iff_getElem.mp h
    exact ⟨i, by rw [at?_of_lt hi, List.getElem?_eq_getElem hi]⟩
  · exact ⟨row.members.length,
      by rw [at?_of_le (Nat.le_refl _), Option.mem_toList.mp h]⟩

/-- What stands at a position is a part of the row. -/
theorem mem_of_at? {row : Row} {x : TypeId} {i : Nat}
    (h : row.at? i = some x) : x ∈ row.members ++ row.rest.toList := by
  rcases Option.or_eq_some_iff.mp h with h | ⟨-, h⟩
  · exact List.mem_append_left _ (List.mem_of_getElem? h)
  · exact List.mem_append_right _ (Option.mem_toList.mpr h)

/-- Rows of one length fit member by member. -/
theorem fits_of_forall₂ {members targets : List TypeId}
    {rest targetRest : Option TypeId}
    (h : List.Forall₂ R members targets)
    (hrest : Option.Rel R rest targetRest) :
    Fits R ⟨members, rest⟩ ⟨targets, targetRest⟩ := by
  obtain ⟨hlen, hget⟩ := List.forall₂_iff_get.mp h
  refine ⟨Nat.le_of_eq hlen.symm, fun i x hx => ?_⟩
  by_cases hi : i < members.length
  · have hi' : i < targets.length := hlen ▸ hi
    rw [at?_of_lt hi, List.getElem?_eq_getElem hi,
      Option.some.injEq] at hx
    subst hx
    refine ⟨targets[i], ?_, hget i hi hi'⟩
    rw [at?_of_lt hi', List.getElem?_eq_getElem hi']
  · have hi' : targets.length ≤ i := hlen ▸ Nat.le_of_not_lt hi
    rw [at?_of_le (Nat.le_of_not_lt hi)] at hx
    rw [at?_of_le hi']
    cases hrest with
    | none => cases hx
    | some hr =>
        cases hx
        exact ⟨_, rfl, hr⟩

/-- A row fits an array when all its parts do. -/
theorem fits_array_iff {row : Row} {element : TypeId} :
    row.Fits R ⟨[], some element⟩ ↔
      ∀ x ∈ row.members ++ row.rest.toList, R x element := by
  constructor
  · intro h x hx
    obtain ⟨i, hi⟩ := exists_at?_of_mem hx
    obtain ⟨y, hy, hxy⟩ := h.pointwise i x hi
    cases hy
    exact hxy
  · intro h
    exact ⟨Nat.zero_le _, fun i x hx => ⟨element, rfl, h x (mem_of_at? hx)⟩⟩

/-- An array fits a row that asks for nothing. -/
theorem array_fits_iff {row : Row} {element : TypeId} :
    Fits R ⟨[], some element⟩ row ↔
      row.members = [] ∧ ∃ r, row.rest = some r ∧ R element r := by
  constructor
  · intro h
    have hnil : row.members = [] :=
      List.eq_nil_of_length_eq_zero (Nat.le_zero.mp h.length)
    obtain ⟨r, hr, her⟩ := h.pointwise 0 element rfl
    rw [at?, hnil] at hr
    exact ⟨hnil, r, hr, her⟩
  · rintro ⟨hnil, r, hr, her⟩
    refine ⟨by simp [hnil], fun i x hx => ⟨r, ?_, ?_⟩⟩
    · rw [at?, hnil]
      exact hr
    · cases hx
      exact her

end Row

/-- The parts of an array or a tuple are those of its row. -/
theorem Kind.children_of_row? {kind : Kind} {row : Row}
    (h : kind.row? = some row) :
    kind.children = row.members ++ row.rest.toList := by
  cases kind with
  | array | tuple =>
      cases h
      rfl
  | leaf | map | record | union | error | stream | table | function
  | object | typedesc | xml => cases h

/-- The premises for two tuples say that their rows fit. The members
left over and the rest are all opposed to the target's rest type. -/
theorem tuplePremises_hold_iff {members targets : List TypeId}
    {rest targetRest : Option TypeId} :
    (∀ p ∈ tuplePremises members rest targets targetRest, p.Holds g R) ↔
      Row.Fits R ⟨members, rest⟩ ⟨targets, targetRest⟩ := by
  unfold tuplePremises
  by_cases hlt : members.length < targets.length
  · simp only [hlt, if_true, List.forall_mem_singleton]
    constructor
    · intro h
      cases h
    · intro h
      exact absurd h.length (Nat.not_le.mpr hlt)
  · have hle : targets.length ≤ members.length := Nat.not_lt.mp hlt
    simp only [hlt, if_false, List.forall_mem_append,
      Premise.holds_zipWith_sub, List.forall_mem_map, Premise.holds_into]
    constructor
    · rintro ⟨⟨hzip, hleft⟩, hrest⟩
      refine ⟨hle, fun i x hx => ?_⟩
      by_cases hi : i < targets.length
      · -- opposite a member of the target
        have hi' := Nat.lt_of_lt_of_le hi hle
        rw [Row.at?_of_lt hi'] at hx
        refine ⟨targets[i], ?_, hzip i x _ hx
          (List.getElem?_eq_getElem hi)⟩
        rw [Row.at?_of_lt hi]
        exact List.getElem?_eq_getElem hi
      · -- opposite its rest
        rw [Row.at?_of_le (Nat.not_lt.mp hi)]
        by_cases hi' : i < members.length
        · rw [Row.at?_of_lt hi'] at hx
          refine hleft x (List.mem_of_getElem?
            (i := i - targets.length) ?_)
          rw [List.getElem?_drop]
          rwa [Nat.add_sub_cancel' (Nat.not_lt.mp hi)]
        · rw [Row.at?_of_le (Nat.not_lt.mp hi')] at hx
          exact hrest x (Option.mem_toList.mpr hx)
    · intro h
      refine ⟨⟨fun i x y hx hy => ?_, fun x hx => ?_⟩, fun x hx => ?_⟩
      · obtain ⟨y', hy', hxy⟩ := h.pointwise i x
          (Option.or_eq_some_iff.mpr (.inl hx))
        rw [Row.at?, hy, Option.some_or] at hy'
        cases hy'
        exact hxy
      · obtain ⟨i, hi⟩ := List.mem_iff_getElem?.mp hx
        rw [List.getElem?_drop] at hi
        obtain ⟨y, hy, hxy⟩ := h.pointwise (targets.length + i) x
          (Option.or_eq_some_iff.mpr (.inl hi))
        rw [Row.at?_of_le (Nat.le_add_right _ _)] at hy
        exact ⟨y, hy, hxy⟩
      · obtain ⟨y, hy, hxy⟩ := h.pointwise members.length x (by
          rw [Row.at?_of_le (Nat.le_refl _), Option.mem_toList.mp hx])
        rw [Row.at?_of_le hle] at hy
        exact ⟨y, hy, hxy⟩

-- ============================================================ records

/-- A field that is found by its name is a field, of that name. -/
theorem RecordType.field?_mem {record : RecordType} {name : String}
    {f : Field} (h : record.field? name = some f) :
    f ∈ record.fields ∧ f.name = name :=
  ⟨List.mem_of_find?_eq_some h, by simpa using List.find?_some h⟩

/-- No field is found if none has the name. -/
theorem RecordType.field?_eq_none_iff {record : RecordType}
    {name : String} :
    record.field? name = none ↔ ∀ f ∈ record.fields, f.name ≠ name := by
  simp [RecordType.field?, List.find?_eq_none]

theorem RecordType.restType_of_rest {record : RecordType} {r : TypeId}
    (h : record.rest = some r) : record.restType = some r := by
  rw [restType, h]

/-- What unnamed fields may be is written, or any data. -/
theorem RecordType.rest_of_restType {record : RecordType} {r : TypeId}
    (h : record.restType = some r) :
    record.rest = some r ∨ r = .anydata := by
  unfold restType at h
  split at h
  next rest hrest => exact .inl (hrest.trans h)
  next =>
    split at h
    · cases h
    · exact .inr (Option.some.inj h).symm

/-- What two related records have in common. -/
structure RecordType.Fits (R : TypeId → TypeId → Prop)
    (record target : RecordType) : Prop where
  /-- Fields that both name. -/
  named : ∀ f ∈ target.fields, ∀ own ∈ record.field? f.name,
    (f.optional = false → own.optional = false) ∧ R own.type f.type
  /-- Fields that only the target names. -/
  missing : ∀ f ∈ target.fields, record.field? f.name = none →
    f.optional = true
  /-- Fields that only the source names. -/
  unnamed : ∀ f ∈ record.fields, target.field? f.name = none →
    ∃ r, target.restType = some r ∧ R f.type r
  /-- Fields that neither names. -/
  rest : ∀ r ∈ record.restType, ∃ r', target.restType = some r' ∧ R r r'

/-- What a record must have for a field of the target: the field, of a
type that is related, or nothing if the field is optional. -/
theorem RecordType.fieldPremises_hold_iff {record : RecordType}
    {f : Field} :
    (∀ p ∈ record.fieldPremises f, p.Holds g R) ↔
      (∀ own ∈ record.field? f.name,
        (f.optional = false → own.optional = false) ∧ R own.type f.type) ∧
      (record.field? f.name = none → f.optional = true) := by
  unfold fieldPremises
  cases hown : record.field? f.name with
  | none => simp
  | some own =>
      have hoptional : (!own.optional || f.optional) = true ↔
          (f.optional = false → own.optional = false) := by
        cases own.optional <;> cases f.optional <;> simp
      simp [hoptional]

/-- The premises for two records say that they fit. -/
theorem RecordType.recordPremises_hold_iff {record target : RecordType} :
    (∀ p ∈ record.recordPremises target, p.Holds g R) ↔
      record.Fits R target := by
  simp only [recordPremises, List.forall_mem_append, List.forall_mem_map,
    List.mem_flatMap, forall_exists_index, and_imp, List.mem_filter,
    Option.isNone_iff_eq_none, Premise.holds_into, Option.mem_toList]
  constructor
  · rintro ⟨⟨hfields, hothers⟩, hrest⟩
    have hfield := fun f hf =>
      fieldPremises_hold_iff.mp fun p hp => hfields p f hf hp
    exact ⟨fun f hf => (hfield f hf).1, fun f hf => (hfield f hf).2,
      hothers, hrest⟩
  · intro h
    refine ⟨⟨fun p f hf hp => ?_, h.unnamed⟩, h.rest⟩
    exact fieldPremises_hold_iff.mpr ⟨h.named f hf, h.missing f hf⟩ p hp

/-- The target asks for no field, and admits all. -/
theorem RecordType.mapPremises_hold_iff {target : RecordType}
    {constraint : TypeId} :
    (∀ p ∈ target.mapPremises constraint, p.Holds g R) ↔
      (∀ f ∈ target.fields, f.optional = true ∧ R constraint f.type) ∧
      ∃ r, target.restType = some r ∧ R constraint r := by
  simp only [mapPremises, List.forall_mem_append, List.mem_flatMap,
    forall_exists_index, and_imp, List.forall_mem_singleton,
    Premise.holds_into]
  refine and_congr_left fun _ => ⟨fun h f hf => ?_, fun h p f hf hp => ?_⟩
  · exact ⟨h (.fact f.optional) f hf (by simp),
      h (.sub constraint f.type) f hf (by simp)⟩
  · simp only [List.mem_cons, List.not_mem_nil, or_false] at hp
    rcases hp with rfl | rfl
    · exact (h f hf).1
    · exact (h f hf).2

-- ================================================ functions, objects

/-- What two related functions have in common. -/
structure Signature.Fits (R : TypeId → TypeId → Prop)
    (signature target : Signature) : Prop where
  isolated : target.isolated = true → signature.isolated = true
  params : List.Forall₂ R target.params signature.params
  rest : ∀ r ∈ target.rest, ∃ r', signature.rest = some r' ∧ R r r'
  result : R signature.result target.result

/-- Lists of one length whose entries are related pair by pair. -/
theorem Premise.holds_zipWith_sub_iff {as bs : List TypeId} :
    as.length = bs.length ∧ (∀ p ∈ as.zipWith sub bs, p.Holds g R) ↔
      List.Forall₂ R as bs := by
  rw [List.forall₂_iff_get, Premise.holds_zipWith_sub]
  refine and_congr_right fun hlen => ⟨fun h i ha hb => ?_,
    fun h i a b ha hb => ?_⟩
  · exact h i _ _ (List.getElem?_eq_getElem ha)
      (List.getElem?_eq_getElem hb)
  · obtain ⟨hi, rfl⟩ := List.getElem?_eq_some_iff.mp ha
    obtain ⟨hi', rfl⟩ := List.getElem?_eq_some_iff.mp hb
    exact h i hi hi'

/-- The premises for two functions say that they fit. -/
theorem Signature.premises_hold_iff {signature target : Signature} :
    (∀ p ∈ signature.premises target, p.Holds g R) ↔
      signature.Fits R target := by
  have hisolated : (signature.isolated || !target.isolated) = true ↔
      (target.isolated = true → signature.isolated = true) := by
    cases signature.isolated <;> cases target.isolated <;> simp
  simp only [premises, List.forall_mem_append, List.forall_mem_cons,
    List.forall_mem_map, Premise.holds_into, Premise.holds_fact,
    Premise.holds_sub, hisolated, beq_iff_eq, List.not_mem_nil,
    false_implies, implies_true, and_true, Option.mem_toList]
  constructor
  · rintro ⟨⟨⟨⟨hiso, hlen⟩, hparams⟩, hrest⟩, hresult⟩
    exact ⟨hiso, Premise.holds_zipWith_sub_iff.mp ⟨hlen.symm, hparams⟩,
      hrest, hresult⟩
  · intro h
    obtain ⟨hlen, hparams⟩ :=
      Premise.holds_zipWith_sub_iff (g := g).mpr h.params
    exact ⟨⟨⟨⟨h.isolated, hlen.symm⟩, hparams⟩, h.rest⟩, h.result⟩

/-- What two related objects have in common. -/
structure ObjectType.Fits (R : TypeId → TypeId → Prop)
    (object target : ObjectType) : Prop where
  fields : ∀ f ∈ target.fields, ∃ own, object.field? f.name = some own ∧
    R own.type f.type
  methods : ∀ m ∈ target.methods, ∃ own,
    object.method? m.name = some own ∧ R own.type m.type

/-- The premises for two objects say that they fit. -/
theorem ObjectType.premises_hold_iff {object target : ObjectType} :
    (∀ p ∈ object.premises target, p.Holds g R) ↔
      object.Fits R target := by
  simp only [premises, List.forall_mem_append, List.forall_mem_map,
    Premise.holds_outOf, Option.map_eq_some_iff, exists_exists_and_eq_and]
  exact ⟨fun h => ⟨h.1, h.2⟩, fun h => ⟨h.fields, h.methods⟩⟩

/-- Tables are related by their rows, and by their keys where both have
one. -/
theorem TableType.premises_hold_iff {table target : TableType} :
    (∀ p ∈ table.premises target, p.Holds g R) ↔
      R table.row target.row ∧
      ∀ key ∈ table.key, ∀ key' ∈ target.key, R key key' := by
  obtain ⟨row, key, keyFields⟩ := table
  obtain ⟨row', key', keyFields'⟩ := target
  cases key <;> cases key' <;> simp [premises]

-- ============================================================== forms

/-- What two related types have in common, where the source is of a
form other than a union and the target of one other than a union or a
leaf. -/
inductive Kind.Fits (R : TypeId → TypeId → Prop) (source target : TypeId) :
    Kind → Kind → Prop where
  | row {kind kind' : Kind} {row row' : Row} (hs : kind.row? = some row)
      (ht : kind'.row? = some row') (h : row.Fits R row') :
      Fits R source target kind kind'
  | map {constraint constraint' : TypeId} (h : R constraint constraint') :
      Fits R source target (.map constraint) (.map constraint')
  | values {shape : RecordType} {constraint : TypeId}
      (h : ∀ t ∈ shape.valueTypes, R t constraint) :
      Fits R source target (.record shape) (.map constraint)
  | record {shape shape' : RecordType} (h : shape.Fits R shape') :
      Fits R source target (.record shape) (.record shape')
  | entries {constraint : TypeId} {shape : RecordType}
      (hfields : ∀ f ∈ shape.fields,
        f.optional = true ∧ R constraint f.type)
      (hrest : ∃ r, shape.restType = some r ∧ R constraint r) :
      Fits R source target (.map constraint) (.record shape)
  | error {detail detail' : TypeId}
      (h : target ≠ .error → R detail detail') :
      Fits R source target (.error detail) (.error detail')
  | stream {constraint constraint' : TypeId}
      {completion completion' : Option TypeId}
      (h : R constraint constraint')
      (hcompletion : R (completion.getD .nil) (completion'.getD .nil)) :
      Fits R source target (.stream constraint completion)
        (.stream constraint' completion')
  | table {shape shape' : TableType} (hrow : R shape.row shape'.row)
      (hkey : ∀ key ∈ shape.key, ∀ key' ∈ shape'.key, R key key') :
      Fits R source target (.table shape) (.table shape')
  | function {signature signature' : Signature}
      (h : signature.Fits R signature') :
      Fits R source target (.function signature) (.function signature')
  | object {shape shape' : ObjectType} (h : shape.Fits R shape') :
      Fits R source target (.object shape) (.object shape')
  | typedesc {constraint constraint' : TypeId}
      (h : R constraint constraint') :
      Fits R source target (.typedesc constraint) (.typedesc constraint')
  | xml {constraint constraint' : TypeId} (h : R constraint constraint') :
      Fits R source target (.xml constraint) (.xml constraint')
  | item {item : XmlItem} {constraint : TypeId} (h : R source constraint) :
      Fits R source target (.leaf (.xmlItem item)) (.xml constraint)

namespace Kind

variable {a b : TypeId}

/-- What a row fits is a row that it fits. -/
theorem Fits.exists_row {source target : Kind} {row : Row}
    (h : Fits R a b source target) (hs : source.row? = some row) :
    ∃ row', target.row? = some row' ∧ row.Fits R row' := by
  cases h with
  | row hs' ht h =>
      rw [hs, Option.some.injEq] at hs'
      subst hs'
      exact ⟨_, ht, h⟩
  | map | values | record | entries | error | stream | table | function
  | object | typedesc | xml | item => cases hs

/-- What fits a row is a row that fits it. -/
theorem Fits.exists_row_source {source target : Kind} {row' : Row}
    (h : Fits R a b source target) (ht : target.row? = some row') :
    ∃ row, source.row? = some row ∧ row.Fits R row' := by
  cases h with
  | row hs ht' h =>
      rw [ht, Option.some.injEq] at ht'
      subst ht'
      exact ⟨_, hs, h⟩
  | map | values | record | entries | error | stream | table | function
  | object | typedesc | xml | item => cases ht

/-- Arrays and tuples fit just if their rows do. -/
theorem fits_iff_of_row? {source target : Kind} {row row' : Row}
    (hs : source.row? = some row) (ht : target.row? = some row') :
    Fits R a b source target ↔ row.Fits R row' := by
  refine ⟨fun h => ?_, .row hs ht⟩
  obtain ⟨row'', ht', hfits⟩ := h.exists_row hs
  rw [ht, Option.some.injEq] at ht'
  exact ht' ▸ hfits

/-- A single premise for two forms that are related in one way. -/
private theorem premise_hold_iff {p : Premise} {source target : Kind}
    (h : p.Holds g R ↔ Fits R a b source target) :
    (∀ q ∈ [p], q.Holds g R) ↔ Fits R a b source target := by
  rw [List.forall_mem_singleton, h]

/-- The premises for two forms say that they fit. One case for each pair
of forms that can be related; all others have a premise that fails. -/
theorem premises_hold_iff {source target : Kind} :
    (∀ p ∈ premises a b source target, p.Holds g R) ↔
      Fits R a b source target := by
  unfold premises
  split
  next element targetElement =>
    rw [fits_iff_of_row? rfl rfl, Row.fits_array_iff]
    simp
  next members rest targetElement =>
    rw [fits_iff_of_row? rfl rfl, Row.fits_array_iff, List.forall_mem_map]
    rfl
  next members rest targets targetRest =>
    rw [fits_iff_of_row? rfl rfl, tuplePremises_hold_iff]
  next element targets targetRest =>
    rw [fits_iff_of_row? rfl rfl, Row.array_fits_iff]
    simp [Premise.holds_into]
  next constraint targetConstraint =>
    refine premise_hold_iff ⟨.map, fun h => ?_⟩
    cases h with
    | map h => exact h
    | row hs => cases hs
  next shape targetConstraint =>
    rw [List.forall_mem_map]
    refine ⟨.values, fun h => ?_⟩
    cases h with
    | values h => exact h
    | row hs => cases hs
  next shape targetShape =>
    rw [RecordType.recordPremises_hold_iff]
    refine ⟨.record, fun h => ?_⟩
    cases h with
    | record h => exact h
    | row hs => cases hs
  next constraint targetShape =>
    rw [RecordType.mapPremises_hold_iff]
    refine ⟨fun h => .entries h.1 h.2, fun h => ?_⟩
    cases h with
    | entries hfields hrest => exact ⟨hfields, hrest⟩
    | row hs => cases hs
  next detail targetDetail =>
    have hiff : Fits R a b (.error detail) (.error targetDetail) ↔
        (b ≠ .error → R detail targetDetail) := by
      refine ⟨fun h => ?_, .error⟩
      cases h with
      | error h => exact h
      | row hs => cases hs
    rw [hiff]
    by_cases hb : b = .error
    · simp [hb]
    · simp [hb]
  next constraint completion targetConstraint targetCompletion =>
    simp only [List.forall_mem_cons, Premise.holds_sub, List.not_mem_nil,
      false_implies, implies_true, and_true]
    refine ⟨fun h => .stream h.1 h.2, fun h => ?_⟩
    cases h with
    | stream h hcompletion => exact ⟨h, hcompletion⟩
    | row hs => cases hs
  next shape targetShape =>
    rw [TableType.premises_hold_iff]
    refine ⟨fun h => .table h.1 h.2, fun h => ?_⟩
    cases h with
    | table hrow hkey => exact ⟨hrow, hkey⟩
    | row hs => cases hs
  next signature targetSignature =>
    rw [Signature.premises_hold_iff]
    refine ⟨.function, fun h => ?_⟩
    cases h with
    | function h => exact h
    | row hs => cases hs
  next shape targetShape =>
    rw [ObjectType.premises_hold_iff]
    refine ⟨.object, fun h => ?_⟩
    cases h with
    | object h => exact h
    | row hs => cases hs
  next constraint targetConstraint =>
    refine premise_hold_iff ⟨.typedesc, fun h => ?_⟩
    cases h with
    | typedesc h => exact h
    | row hs => cases hs
  next constraint targetConstraint =>
    refine premise_hold_iff ⟨.xml, fun h => ?_⟩
    cases h with
    | xml h => exact h
    | row hs => cases hs
  next item targetConstraint =>
    refine premise_hold_iff ⟨.item, fun h => ?_⟩
    cases h with
    | item h => exact h
    | row hs => cases hs
  next =>
    -- no two forms that are related are left
    refine premise_hold_iff ⟨fun h => ?_, fun h => ?_⟩
    · cases h
    · cases h with
      | row hs ht =>
          cases source <;> cases hs <;> cases target <;> cases ht <;>
            solve_by_elim
      | map | values | record | entries | error | stream | table
      | function | object | typedesc | xml | item => solve_by_elim

/-- A form that fits another one is neither a union nor never nor the
missing type. -/
def isSingle : Kind → Bool
  | .leaf .noType | .leaf .never | .union _ => false
  | _ => true

/-- A form is single if it is neither missing, nor never, nor a union. -/
theorem isSingle_iff {kind : Kind} :
    kind.isSingle = true ↔ kind ≠ .leaf .noType ∧ kind ≠ .leaf .never ∧
      ∀ members, kind ≠ .union members := by
  cases kind with
  | leaf form => cases form <;> simp [isSingle]
  | array | tuple | map | record | union | error | stream | table
  | function | object | typedesc | xml => simp [isSingle]

/-- A form that is not missing is never, or a union, or single. -/
theorem eq_or_isSingle {kind : Kind} (h : kind ≠ .leaf .noType) :
    kind = .leaf .never ∨ (∃ members, kind = .union members) ∨
      kind.isSingle = true := by
  by_cases hnever : kind = .leaf .never
  · exact .inl hnever
  · by_cases hunion : ∃ members, kind = .union members
    · exact .inr (.inl hunion)
    · exact .inr (.inr (isSingle_iff.mpr
        ⟨h, hnever, fun members hkind => hunion ⟨members, hkind⟩⟩))

/-- A composed form other than a union is single. -/
theorem isSingle_of_isLeaf_eq_false {kind : Kind}
    (hleaf : kind.isLeaf = false)
    (hunion : ∀ members, kind ≠ .union members) :
    kind.isSingle = true := by
  refine isSingle_iff.mpr ⟨?_, ?_, hunion⟩
  · rintro rfl
    cases hleaf
  · rintro rfl
    cases hleaf

/-- Arrays and tuples are single. -/
theorem isSingle_of_row? {kind : Kind} {row : Row}
    (h : kind.row? = some row) : kind.isSingle = true := by
  cases kind with
  | array | tuple => rfl
  | leaf | map | record | union | error | stream | table | function
  | object | typedesc | xml => cases h

/-- What fits another form is single. -/
theorem Fits.isSingle {source target : Kind}
    (h : Fits R a b source target) : source.isSingle = true := by
  cases h with
  | row hs => exact isSingle_of_row? hs
  | map | values | record | entries | error | stream | table | function
  | object | typedesc | xml | item => rfl

/-- What a form fits is not a leaf and not a union. -/
theorem Fits.target {source target : Kind} (h : Fits R a b source target) :
    target.isLeaf = false ∧ ∀ members, target ≠ .union members := by
  cases h with
  | row hs ht =>
      cases target with
      | array | tuple => simp [isLeaf]
      | leaf | map | record | union | error | stream | table | function
      | object | typedesc | xml => cases ht
  | map | values | record | entries | error | stream | table | function
  | object | typedesc | xml | item => simp [isLeaf]

end Kind

-- ============================================================== rules

/-- The leaves that are met by themselves, up to what is less of the
same. -/
def Leaf.isPlain : Leaf → Bool
  | .noType | .never | .any | .anydata | .readonly => false
  | _ => true

/-- What a leaf takes, from sources other than unions. -/
inductive Leaf.Takes (g : Graph) (R : TypeId → TypeId → Prop)
    (source : TypeId) (s : Node) (target : TypeId) : Leaf → Prop where
  | any (h : g.onlyErrors source = .ok false) :
      Takes g R source s target .any
  | anydata (h : g.Data source) : Takes g R source s target .anydata
  | readonly (h : s.isReadonly = true) :
      Takes g R source s target .readonly
  | same {form : Leaf} (hform : form.isPlain = true)
      (h : s.kind = .leaf form) : Takes g R source s target form
  | byte (h : s.kind = .leaf .byte) : Takes g R source s target .int
  | xml {item : XmlItem} {constraint : TypeId}
      (h : s.kind = .xml constraint) (hconstraint : R constraint target) :
      Takes g R source s target (.xmlItem item)

/-- The missing type takes nothing. -/
theorem Leaf.Takes.ne_noType {source target : TypeId} {s : Node}
    {form : Leaf} (h : form.Takes g R source s target) :
    form ≠ .noType := by
  rintro rfl
  cases h with
  | same hform => cases hform

/-- What relates two types. -/
inductive Rule.Relates (g : Graph) (R : TypeId → TypeId → Prop)
    (source : TypeId) (s : Node) (target : TypeId) (t : Node) : Prop where
  | never (hs : s.kind = .leaf .never) (ht : t.kind ≠ .leaf .noType)
  | members {members : List TypeId} (hs : s.kind = .union members)
      (ht : t.kind ≠ .leaf .noType) (h : ∀ m ∈ members, R m target)
  | member {members : List TypeId} {m : TypeId}
      (hs : s.kind.isSingle = true) (ht : t.kind = .union members)
      (hm : m ∈ members) (h : R source m)
  | leaf {form : Leaf} (hs : s.kind.isSingle = true)
      (ht : t.kind = .leaf form) (h : form.Takes g R source s target)
  | shape (h : s.kind.Fits R source target t.kind)

section Rules

variable {a b : TypeId} {s t : Node}

theorem Rule.decided_holds_iff {holds : Bool} :
    (Rule.decided holds).Holds g R ↔ holds = true := by
  simp [Rule.decided, Rule.Holds]

/-- The rule for a leaf says what the leaf takes. -/
theorem Leaf.rule_holds_iff {form : Leaf} (hform : form ≠ .noType) :
    (form.rule a s b).Holds g R ↔ form.Takes g R a s b := by
  cases form with
  | noType => exact absurd rfl hform
  | any =>
      refine ⟨fun h => .any (h _ List.mem_cons_self), fun h => ?_⟩
      cases h with
      | any h => exact List.forall_mem_singleton.mpr h
      | same hform => cases hform
  | anydata =>
      refine ⟨fun h => .anydata (h _ List.mem_cons_self), fun h => ?_⟩
      cases h with
      | anydata h => exact List.forall_mem_singleton.mpr h
      | same hform => cases hform
  | readonly =>
      rw [Leaf.rule, Rule.decided_holds_iff]
      refine ⟨.readonly, fun h => ?_⟩
      cases h with
      | readonly h => exact h
      | same hform => cases hform
  | never =>
      rw [Leaf.rule, Rule.decided_holds_iff]
      refine ⟨fun h => absurd h Bool.false_ne_true, fun h => ?_⟩
      cases h with
      | same hform => cases hform
  | int =>
      rw [Leaf.rule, Rule.decided_holds_iff, Bool.or_eq_true, beq_iff_eq,
        beq_iff_eq]
      constructor
      · rintro (h | h)
        · exact .same rfl h
        · exact .byte h
      · intro h
        cases h with
        | same _ h => exact .inl h
        | byte h => exact .inr h
  | xmlItem item =>
      simp only [Leaf.rule]
      split
      next constraint hkind =>
        refine ⟨fun h => .xml hkind (h _ List.mem_cons_self), fun h => ?_⟩
        cases h with
        | same _ h => simp [hkind] at h
        | xml h hconstraint =>
            rw [hkind, Kind.xml.injEq] at h
            subst h
            exact List.forall_mem_singleton.mpr hconstraint
      next hkind =>
        rw [Rule.decided_holds_iff, beq_iff_eq]
        refine ⟨.same rfl, fun h => ?_⟩
        cases h with
        | same _ h => exact h
        | xml h => exact absurd h (hkind _)
  | nil | float | decimal | string | boolean | byte =>
      rw [Leaf.rule, Rule.decided_holds_iff, beq_iff_eq]
      · refine ⟨.same rfl, fun h => ?_⟩
        cases h with
        | same _ h => exact h
      all_goals simp

/-- The rule for a union as the target. -/
theorem Rule.of_member {members : List TypeId}
    (hs : s.kind.isSingle = true) (ht : t.kind = .union members) :
    Rule.of a s b t = .any (members.map (.sub a)) := by
  obtain ⟨hmissing, hnever, hunion⟩ := Kind.isSingle_iff.mp hs
  unfold Rule.of
  split <;> simp_all

/-- The rule for a leaf as the target. -/
theorem Rule.of_leaf {form : Leaf} (hs : s.kind.isSingle = true)
    (ht : t.kind = .leaf form) (hform : form ≠ .noType) :
    Rule.of a s b t = form.rule a s b := by
  obtain ⟨hmissing, hnever, hunion⟩ := Kind.isSingle_iff.mp hs
  unfold Rule.of
  split <;> simp_all

/-- The rule for a composed form as the target. -/
theorem Rule.of_shape (hs : s.kind.isSingle = true)
    (ht : t.kind.isLeaf = false)
    (ht' : ∀ members, t.kind ≠ .union members) :
    Rule.of a s b t = .all (s.kind.premises a b t.kind) := by
  obtain ⟨hmissing, hnever, hunion⟩ := Kind.isSingle_iff.mp hs
  unfold Rule.of
  split <;> simp_all [Kind.isLeaf]

/-- The rule of two types says what relates them. -/
theorem Rule.holds_iff :
    (Rule.of a s b t).Holds g R ↔ Rule.Relates g R a s b t := by
  constructor
  · intro h
    unfold Rule.of at h
    split at h
    next => exact absurd (decided_holds_iff.mp h) Bool.false_ne_true
    next => exact absurd (decided_holds_iff.mp h) Bool.false_ne_true
    next hs ht => exact .never hs ht
    next members hs ht =>
      exact .members hs ht (List.forall_mem_map.mp h)
    next members ht hmissing hnever hunion =>
      obtain ⟨p, hp, hh⟩ := h
      obtain ⟨m, hm, rfl⟩ := List.mem_map.mp hp
      exact .member (Kind.isSingle_iff.mpr ⟨hmissing, hnever, hunion⟩) ht
        hm hh
    next form hform ht hmissing hnever hunion =>
      exact .leaf (Kind.isSingle_iff.mpr ⟨hmissing, hnever, hunion⟩) ht
        ((Leaf.rule_holds_iff fun h => hform h).mp h)
    next => exact .shape (Kind.premises_hold_iff.mp h)
  · intro h
    cases h with
    | never hs ht =>
        unfold Rule.of
        split <;> simp_all [decided_holds_iff]
    | members hs ht h =>
        unfold Rule.of
        split <;> simp_all [Rule.Holds]
    | @member members m hs ht hm h =>
        rw [Rule.of_member hs ht]
        exact ⟨.sub a m, List.mem_map_of_mem hm, h⟩
    | leaf hs ht h =>
        have hform := h.ne_noType
        rw [Rule.of_leaf hs ht hform]
        exact (Leaf.rule_holds_iff hform).mpr h
    | shape h =>
        rw [Rule.of_shape h.isSingle h.target.1 h.target.2]
        exact Kind.premises_hold_iff.mpr h

/-- Nothing is related to a missing type. -/
theorem Rule.Relates.target (h : Rule.Relates g R a s b t) :
    t.kind ≠ .leaf .noType := by
  cases h with
  | never _ ht | members _ ht => exact ht
  | member _ ht =>
      rw [ht]
      exact Kind.noConfusion
  | leaf _ ht h =>
      rw [ht]
      exact fun heq => h.ne_noType (Kind.leaf.inj heq)
  | shape h =>
      intro heq
      have hleaf := h.target.1
      rw [heq] at hleaf
      cases hleaf

/-- A source is never, a union all of whose members are related, or a
single type. -/
theorem Rule.Relates.source (h : Rule.Relates g R a s b t) :
    s.kind = .leaf .never ∨
      (∃ members, s.kind = .union members ∧ ∀ m ∈ members, R m b) ∨
      s.kind.isSingle = true := by
  cases h with
  | never hs => exact .inl hs
  | members hs _ h => exact .inr (.inl ⟨_, hs, h⟩)
  | member hs | leaf hs => exact .inr (.inr hs)
  | shape h => exact .inr (.inr h.isSingle)

/-- A single type is related to one that is no union as a leaf or by
shape. -/
theorem Rule.Relates.of_single (h : Rule.Relates g R a s b t)
    (hs : s.kind.isSingle = true)
    (ht : ∀ members, t.kind ≠ .union members) :
    (∃ form, t.kind = .leaf form ∧ form.Takes g R a s b) ∨
      s.kind.Fits R a b t.kind := by
  obtain ⟨-, hnever, hunion⟩ := Kind.isSingle_iff.mp hs
  cases h with
  | never hs => exact absurd hs hnever
  | members hs => exact absurd hs (hunion _)
  | member _ ht' => exact absurd ht' (ht _)
  | leaf _ ht' h => exact .inl ⟨_, ht', h⟩
  | shape h => exact .inr h

end Rules

end TypeParams
