/-
Assignability composes, for types of most forms.

# The composed relation

The relation is the largest consistent one, so it is enough that the
relation composed with itself is consistent: pairs with a type between
them go by their rule, given other such pairs. For two forms that fit a
third between them this is `Kind.Fits.trans`; parameters of functions
turn the three round, which is why the same relation has to stand on
both sides.

# Unions between

A union between the two does not fit anything. But the source is
assignable to it because of one of its members, and all of its members
are assignable to the target, so the member may take its place, and so
on until a type is reached that is no union (`Grounded.exists_target`).
That it is reached takes unions that are not among their own members:
everything is assignable to a union of itself, and such a union to
nothing in particular.

# Forms that are left out

Some forms are left out, `Kind.composes`. Readonly and the error types
look at more than the shape of a type; a record that does not name an
optional field of the next may hold anything there; tables with no key
type forget those that have one; xml items stand for sequences of them.
`Composable` asks of a type that it is made of the other forms all the
way down.
-/
import TypeParams.Proofs.Subtype.Downward

namespace TypeParams

/-- The forms that assignability composes for. -/
def Kind.composes : Kind → Bool
  | .leaf .noType | .leaf .readonly | .leaf (.xmlItem _) => false
  | .record _ | .error _ | .table _ | .xml _ => false
  | .leaf _ | .array _ | .tuple .. | .map _ | .union _ | .stream ..
  | .function _ | .object _ | .typedesc _ => true

-- ================================================= three shapes in a row

section Shapes

variable {R T : TypeId → TypeId → Prop}
  (hT : ∀ x y z, R x y → R y z → T x z)
include hT

/-- Functions that fit one after the other fit. Parameters are taken the
other way round, so the three change places. -/
theorem Signature.Fits.trans {a b c : Signature} (h : a.Fits R b)
    (h' : b.Fits R c) : a.Fits T c where
  isolated hc := h.isolated (h'.isolated hc)
  params := by
    have hparams := h'.params
    have hparams' := h.params
    generalize c.params = cs at hparams
    generalize b.params = bs at hparams hparams'
    generalize a.params = as at hparams'
    induction hparams generalizing as with
    | nil =>
        cases hparams' with
        | nil => exact .nil
    | cons hcb _ ih =>
        cases hparams' with
        | cons hba htail => exact .cons (hT _ _ _ hcb hba) (ih _ htail)
  rest r hr := by
    obtain ⟨r', hr', hrr'⟩ := h'.rest r hr
    obtain ⟨r'', hr'', hrr''⟩ := h.rest r' hr'
    exact ⟨r'', hr'', hT _ _ _ hrr' hrr''⟩
  result := hT _ _ _ h.result h'.result

/-- Objects that fit one after the other fit: what is found by name in
the next is found by name in the last. -/
theorem ObjectType.Fits.trans {a b c : ObjectType} (h : a.Fits R b)
    (h' : b.Fits R c) : a.Fits T c where
  fields f hf := by
    obtain ⟨f', hf', hff'⟩ := h'.fields f hf
    have hname : f'.name = f.name := by simpa using List.find?_some hf'
    obtain ⟨f'', hf'', hff''⟩ :=
      h.fields f' (List.mem_of_find?_eq_some hf')
    exact ⟨f'', hname ▸ hf'', hT _ _ _ hff'' hff'⟩
  methods m hm := by
    obtain ⟨m', hm', hmm'⟩ := h'.methods m hm
    have hname : m'.name = m.name := by simpa using List.find?_some hm'
    obtain ⟨m'', hm'', hmm''⟩ :=
      h.methods m' (List.mem_of_find?_eq_some hm')
    exact ⟨m'', hname ▸ hm'', hT _ _ _ hmm'' hmm'⟩

/-- Forms that fit one after the other fit. -/
theorem Kind.Fits.trans {a b c : TypeId} {kind kind' kind'' : Kind}
    (h : Fits R a b kind kind') (h' : Fits R b c kind' kind'')
    (hkind : kind.composes = true) (hkind' : kind'.composes = true)
    (hkind'' : kind''.composes = true) : Fits T a c kind kind'' := by
  cases h with
  | row hs ht hrow =>
      cases h' with
      | row hs' ht' hrow' =>
          rw [ht, Option.some.injEq] at hs'
          subst hs'
          exact .row hs ht' (hrow.trans hrow' hT)
      | map | values | record | entries | error | stream | table
      | function | object | typedesc | xml | item => cases ht
  | map h =>
      cases h' with
      | row hs => cases hs
      | map h' => exact .map (hT _ _ _ h h')
      | entries => cases hkind''
  | stream h hcompletion =>
      cases h' with
      | row hs => cases hs
      | stream h' hcompletion' =>
          exact .stream (hT _ _ _ h h') (hT _ _ _ hcompletion hcompletion')
  | function h =>
      cases h' with
      | row hs => cases hs
      | function h' => exact .function (h.trans hT h')
  | object h =>
      cases h' with
      | row hs => cases hs
      | object h' => exact .object (h.trans hT h')
  | typedesc h =>
      cases h' with
      | row hs => cases hs
      | typedesc h' => exact .typedesc (hT _ _ _ h h')
  | values | record | error | table | xml | item => cases hkind
  | entries => cases hkind'

end Shapes

-- =============================================================== leaves

section Leaves

variable {g : Graph} {R : TypeId → TypeId → Prop} {a b : TypeId} {s : Node}

/-- Only xml items are leaves that fit a shape. -/
theorem Kind.Fits.composes_leaf {form : Leaf} {target : Kind}
    (h : Fits R a b (.leaf form) target) :
    (Kind.leaf form).composes = false := by
  cases h with
  | row hs => cases hs
  | item => rfl

theorem Leaf.Takes.ne_never {form : Leaf} (h : form.Takes g R a s b) :
    form ≠ .never := by
  rintro rfl
  cases h with
  | same hform => cases hform

/-- A plain leaf takes itself, and int takes byte. -/
theorem Leaf.Takes.of_plain {form : Leaf} (h : form.Takes g R a s b)
    (hform : form.isPlain = true) (hs : s.kind.composes = true) :
    s.kind = .leaf form ∨ (form = .int ∧ s.kind = .leaf .byte) := by
  cases h with
  | any | anydata | readonly => cases hform
  | same _ h => exact .inl h
  | byte h => exact .inr ⟨rfl, h⟩
  | xml h =>
      rw [h] at hs
      cases hs

/-- A single type of a form that composes is no error type. -/
theorem Graph.onlyErrors_of_single (hn : g.node? a = some s)
    (hs : s.kind.isSingle = true) (hcomposes : s.kind.composes = true) :
    g.onlyErrors a = .ok false := by
  obtain ⟨-, -, hunion⟩ := Kind.isSingle_iff.mp hs
  rw [Graph.onlyErrors, onlyErrorsWithin_of_node hn,
    if_neg List.not_mem_nil]
  split
  next detail hkind =>
    rw [hkind] at hcomposes
    cases hcomposes
  next members hkind => exact absurd hkind (hunion members)
  next => rfl

end Leaves

-- ===================================================== the composition

namespace Graph

variable {g : Graph} {P : TypeId → Prop}

namespace Grounded

/-- Two types of a set with a type of it between them. -/
def Composed (g : Graph) (P : TypeId → Prop) (a c : TypeId) : Prop :=
  ∃ b, Below g P a b ∧ Below g P b c

theorem Below.composed {a b : TypeId} (h : Below g P a b) :
    Composed g P a b :=
  ⟨b, h, h.2.1, h.2.1, .refl g b⟩

/-- A leaf takes what is below a type that it takes. -/
theorem takes_composed (h : g.Grounded P) (hany : g.Data .anydata)
    (hforms : ∀ id node, P id → g.node? id = some node →
      node.kind.composes = true)
    {a b c : TypeId} {s t u : Node} {form : Leaf}
    (hab : Below g P a b) (hbc : Below g P b c)
    (hs : g.node? a = some s) (ht : g.node? b = some t)
    (hu : g.node? c = some u) (hform : u.kind = .leaf form)
    (hsingle : s.kind.isSingle = true)
    (hr : (∃ form, t.kind = .leaf form ∧
        form.Takes g (Below g P) a s b) ∨
      s.kind.Fits (Below g P) a b t.kind)
    (htakes : form.Takes g (Below g P) b t c) :
    form.Takes g (Composed g P) a s c := by
  have hscomposes := hforms a s hab.1 hs
  have htcomposes := hforms b t hab.2.1 ht
  -- a leaf between the two took the source as a leaf
  have hleaf : ∀ form', t.kind = .leaf form' →
      form'.Takes g (Below g P) a s b := by
    intro form' hform'
    rcases hr with ⟨form, hform, htakes⟩ | hfits
    · rw [hform', Kind.leaf.injEq] at hform
      exact hform ▸ htakes
    · have hnot := hfits.target.1
      rw [hform'] at hnot
      cases hnot
  cases htakes with
  | any => exact .any (onlyErrors_of_single hs hsingle hscomposes)
  | anydata hdata =>
      refine .anydata (h.data_below hany ?_ hab hdata)
      intro id node shape hid hn hkind
      have hcomposes := hforms id node hid hn
      rw [hkind] at hcomposes
      cases hcomposes
  | readonly =>
      have hucomposes := hforms c u hbc.2.1 hu
      rw [hform] at hucomposes
      cases hucomposes
  | same hplain hkind =>
      rcases (hleaf _ hkind).of_plain hplain hscomposes with
        hsame | ⟨rfl, hbyte⟩
      · exact .same hplain hsame
      · exact .byte hbyte
  | byte hkind =>
      rcases (hleaf _ hkind).of_plain rfl hscomposes with
        hsame | ⟨hint, -⟩
      · exact .byte hsame
      · cases hint
  | xml hkind =>
      rw [hkind] at htcomposes
      cases htcomposes

/-- Two rules with a type between them that is no union. -/
theorem relates_composed (h : g.Grounded P) (hany : g.Data .anydata)
    (hforms : ∀ id node, P id → g.node? id = some node →
      node.kind.composes = true)
    {a b c : TypeId} {s t u : Node}
    (hab : Below g P a b) (hbc : Below g P b c)
    (hs : g.node? a = some s) (ht : g.node? b = some t)
    (hu : g.node? c = some u) (hsingle : s.kind.isSingle = true)
    (hnot : ∀ members, t.kind ≠ .union members)
    (hr : Rule.Relates g (Below g P) a s b t)
    (hr' : Rule.Relates g (Below g P) b t c u) :
    Rule.Relates g (Composed g P) a s c u := by
  have htcomposes := hforms b t hab.2.1 ht
  have hr := hr.of_single hsingle hnot
  cases hr' with
  | never hnever =>
      rcases hr with ⟨form, hform, htakes⟩ | hfits
      · rw [hnever, Kind.leaf.injEq] at hform
        exact absurd hform.symm htakes.ne_never
      · have hnot := hfits.target.1
        rw [hnever] at hnot
        cases hnot
  | members hunion => exact absurd hunion (hnot _)
  | member _ hunion hm h => exact .member hsingle hunion hm ⟨b, hab, h⟩
  | leaf _ hform htakes =>
      exact .leaf hsingle hform (h.takes_composed hany hforms hab hbc hs
        ht hu hform hsingle hr htakes)
  | shape hfits' =>
      rcases hr with ⟨form, hform, -⟩ | hfits
      · rw [hform] at hfits' htcomposes
        rw [hfits'.composes_leaf] at htcomposes
        cases htcomposes
      · refine .shape (hfits.trans (fun x y z hxy hyz => ⟨y, hxy, hyz⟩)
          hfits' (hforms a s hab.1 hs) htcomposes (hforms c u hbc.2.1 hu))

/-- Pairs with a type between them go by their rule. -/
theorem consistent_composed (h : g.Grounded P) (hany : g.Data .anydata)
    (hforms : ∀ id node, P id → g.node? id = some node →
      node.kind.composes = true) : g.Consistent (Composed g P) := by
  rintro a c ⟨b, hab, hbc⟩
  have ha := hab.1
  have hc := hbc.2.1
  -- where the two are assignable themselves there is nothing to compose
  have hdirect : g.Assignable a c → a = c ∨ g.Step (Composed g P) a c := by
    intro hac
    rcases h.relates ⟨ha, hc, hac⟩ with heq | ⟨s, u, hs, hu, hr⟩
    · exact .inl heq
    · exact .inr ⟨s, u, hs, hu, (Rule.holds_iff.mpr hr).mono
        fun _ _ hxy => hxy.composed⟩
  rcases h.relates hab with rfl | ⟨s, _, hs, -, hr⟩
  · exact hdirect hbc.2.2
  obtain ⟨u, hu, -⟩ := h.closed c hc
  have hpresent : u.kind ≠ .leaf .noType := by
    intro hmissing
    have hcomposes := hforms c u hc hu
    rw [hmissing] at hcomposes
    cases hcomposes
  rcases hr.source with hnever | ⟨members, hunion, hmembers⟩ | hsingle
  · exact .inr ⟨s, u, hs, hu,
      Rule.holds_iff.mpr (.never hnever hpresent)⟩
  · refine .inr ⟨s, u, hs, hu,
      Rule.holds_iff.mpr (.members hunion hpresent ?_)⟩
    exact fun m hm => ⟨b, hmembers m hm, hbc⟩
  · rcases h.exists_between hs hsingle hab hbc with
      hac | ⟨b', t, ht, hnot, hab', hbc'⟩
    · exact hdirect hac
    rcases h.relates hab' with rfl | ⟨s', t', hs', ht', hr⟩
    · exact hdirect hbc'.2.2
    rcases h.relates hbc' with rfl | ⟨t'', u', ht'', hu', hr'⟩
    · exact hdirect hab'.2.2
    rw [hs, Option.some.injEq] at hs'
    rw [ht, Option.some.injEq] at ht' ht''
    rw [hu, Option.some.injEq] at hu'
    subst hs' ht' ht'' hu'
    exact .inr ⟨s, u, hs, hu, Rule.holds_iff.mpr
      (h.relates_composed hany hforms hab' hbc' hs ht hu hsingle hnot hr
        hr')⟩

end Grounded

/-- The types for which assignability composes. -/
def Composable (g : Graph) (id : TypeId) : Prop :=
  g.MadeOf Kind.composes id

/-- What is assignable to a type is assignable to all that type is
assignable to. Cycles are allowed for, in all of the three. -/
theorem assignable_trans (hg : g.WellFormed) {a b c : TypeId}
    (ha : g.Composable a) (hb : g.Composable b) (hc : g.Composable c)
    (hab : g.assignable a b = .ok true)
    (hbc : g.assignable b c = .ok true) :
    g.assignable a c = .ok true := by
  have hground : g.Grounded g.Composable := MadeOf.grounded hg rfl rfl
  rw [hground.assignable_iff ha hb] at hab
  rw [hground.assignable_iff hb hc] at hbc
  rw [hground.assignable_iff ha hc]
  refine ⟨Grounded.Composed g g.Composable, ?_, b, ⟨ha, hb, hab⟩, hb, hc,
    hbc⟩
  exact hground.consistent_composed hg.data_anydata
    fun id node hid hn => hid.admits hn

/-- A list of ints and of lists like itself (21, 22), a list like that
which may hold nil as well (23, 24, 25), and a list of anything (26).
There are functions from the second list to the first (27), from the
first to the second (28), and from the first to a list of anything
(29). -/
def nested : Graph :=
  ⟨Graph.builtin.nodes ++ #[
    .anonymous (.array ⟨22⟩), .anonymous (.union [.int, ⟨21⟩]),
    .anonymous (.array ⟨24⟩), .anonymous (.union [⟨25⟩, ⟨23⟩]),
    .anonymous (.union [.nil, .int]),
    .anonymous (.tuple [] (some .any)),
    .anonymous (.function { params := [⟨23⟩], result := ⟨21⟩ }),
    .anonymous (.function { params := [⟨21⟩], result := ⟨23⟩ }),
    .anonymous (.function { params := [⟨21⟩], result := ⟨26⟩ })]⟩

/-- The functions are assignable in a row, parameters the other way
round, through lists that contain themselves. -/
theorem nested_composed :
    nested.WellFormed ∧ nested.assignable ⟨27⟩ ⟨28⟩ = .ok true ∧
      nested.assignable ⟨28⟩ ⟨29⟩ = .ok true ∧
      nested.assignable ⟨27⟩ ⟨29⟩ = .ok true := by
  have hg : nested.WellFormed := by decide
  have hids : MadeOf.check nested Kind.composes
      (fun id => if id = ⟨25⟩ then 1 else if id = ⟨24⟩ then 2
        else if id = ⟨22⟩ then 1 else 0)
      [.nil, .int, .any, ⟨21⟩, ⟨22⟩, ⟨23⟩, ⟨24⟩, ⟨25⟩, ⟨26⟩, ⟨27⟩, ⟨28⟩,
        ⟨29⟩] = true := by
    decide +kernel
  have hab : nested.assignable ⟨27⟩ ⟨28⟩ = .ok true := by decide +kernel
  have hbc : nested.assignable ⟨28⟩ ⟨29⟩ = .ok true := by decide +kernel
  exact ⟨hg, hab, hbc, assignable_trans hg (MadeOf.of_check hids (by simp))
    (MadeOf.of_check hids (by simp)) (MadeOf.of_check hids (by simp)) hab
    hbc⟩

end Graph

end TypeParams
