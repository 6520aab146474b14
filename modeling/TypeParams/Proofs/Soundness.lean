/-
A silent match is sound, for functions of any order.

Let the actual type of an argument have the shape of the declared type.
If binding the argument reports nothing, the actual type is assignable
to what the declared one is instantiated to (`bindArgument_sound`).

# The argument

Both are types of one shape. Where a marker stands, the one agrees with
the binding and the other is what is bound; from there assignability is
carried up level by level (`Shaped.toward`), and changes its direction
at every parameter. The bindings are made while the argument is matched
and the type is instantiated afterwards, over a larger graph; what
agreed before types were added still agrees (`Matching.Agrees.toward`).

# Where it fails

A match does not count parameters. It compares by what a marker is to
the innermost function, so the result of a function that is itself below
an odd number of parameters is compared the wrong way round. There a
match may be silent and the actual type not assignable
(`supplying_unsound`), unless it is the first time that the marker is
met: then there is nothing to compare with. The theorem asks that
markers at such places come first, and the example is of one that does
not.
-/
import TypeParams.Proofs.Concrete
import TypeParams.Proofs.Instantiation.Shape
import TypeParams.Proofs.Matching.Shape
import TypeParams.Proofs.Subtype.Growth
import TypeParams.Proofs.Subtype.Unions

namespace TypeParams

-- ================================================= types of one shape

section Lists

variable {α β γ : Type} {F : α → β → Prop} {G : α → γ → Prop}

/-- Lists that are related to one list are related to each other. -/
private theorem forall₂_join {T : β → γ → Prop} {as : List α}
    {bs : List β} {cs : List γ} (hF : List.Forall₂ F as bs)
    (hG : List.Forall₂ G as cs)
    (hT : ∀ a ∈ as, ∀ b c, F a b → G a c → T b c) :
    List.Forall₂ T bs cs := by
  induction hF generalizing cs with
  | nil =>
      cases hG
      exact .nil
  | cons hb _ ih =>
      rw [List.forall_mem_cons] at hT
      cases hG with
      | cons hc hG => exact .cons (hT.1 _ _ hb hc) (ih hG hT.2)

/-- The last entries of related lists are related. -/
private theorem forall₂_snoc {as : List α} {bs : List β} {a : α} {b : β}
    (h : List.Forall₂ F (as ++ [a]) (bs ++ [b])) :
    List.Forall₂ F as bs ∧ F a b := by
  have hrev := List.forall₂_reverse_iff.mpr h
  rw [List.reverse_concat, List.reverse_concat, List.forall₂_cons] at hrev
  exact ⟨List.forall₂_reverse_iff.mp hrev.2, hrev.1⟩

end Lists

/-- Types of one form fit if their parts are related, the other way
round where the side changes. -/
theorem Kind.Congruent.fits {place : Place} {kind kind₁ kind₂ : Kind}
    (h₁ : kind.Congruent kind₁) (h₂ : kind.Congruent kind₂)
    {F G : Place → TypeId → Prop} {R : TypeId → TypeId → Prop}
    (hF : List.Forall₂ F (place.parts kind) kind₁.children)
    (hG : List.Forall₂ G (place.parts kind) kind₂.children)
    (hsame : ∀ p x y, F p x → G p y → p.positive = place.positive →
      R x y)
    (hother : ∀ p x y, F p x → G p y → p.positive ≠ place.positive →
      R y x) (a b : TypeId) :
    kind₁.Fits R a b kind₂ := by
  cases h₁ with
  | array _ x =>
      cases h₂ with
      | array _ y =>
          have hxy : R x y := hsame _ _ _ (List.forall₂_cons.mp hF).1
            (List.forall₂_cons.mp hG).1 rfl
          refine .row rfl rfl (Row.fits_array_iff.mpr ?_)
          exact List.forall_mem_singleton.mpr hxy
  | tuple =>
      cases h₂ with
      | tuple =>
          rw [Place.parts, Kind.children, Option.toList_none,
            List.append_nil] at hF hG
          refine .row rfl rfl (Row.fits_of_forall₂
            (forall₂_join hF hG fun p hp x y hx hy =>
              hsame p x y hx hy ?_) .none)
          obtain ⟨id, -, rfl⟩ := List.mem_map.mp hp
          rfl
  | function =>
      cases h₂ with
      | function =>
          rw [Place.parts, Kind.children, Option.toList_none,
            List.append_nil] at hF hG
          obtain ⟨hparams₁, hresult₁⟩ := forall₂_snoc hF
          obtain ⟨hparams₂, hresult₂⟩ := forall₂_snoc hG
          refine .function ⟨fun h => h, ?_, ?_,
            hsame _ _ _ hresult₁ hresult₂ rfl⟩
          · refine forall₂_join hparams₂ hparams₁ fun p hp y x hy hx =>
              hother p x y hx hy ?_
            obtain ⟨id, -, rfl⟩ := List.mem_map.mp hp
            exact Bool.not_ne_self _
          · intro _ hr
            cases hr

namespace Graph

variable {g g' : Graph}

/-- Two types of the shape of a declared one are assignable, in the
direction that its place asks for, if they are so wherever a marker
stands. -/
theorem Shaped.toward {M M' : Place → MarkerKey → TypeId → Prop}
    (hM : ∀ place key x y, M place key x → M' place key y →
      g.Toward place.positive x y)
    {height : Nat} {place : Place} {a b : TypeId}
    (ha : g.Shaped M height place a) (hb : g.Shaped M' height place b) :
    g.Toward place.positive a b := by
  induction height generalizing place a b with
  | zero => cases ha
  | succ height ih =>
      cases ha with
      | marker hnode hkey hx =>
          exact hM _ _ _ _ hx (hb.of_marker hnode hkey)
      | leaf hnode hmarker hleaf =>
          rw [hb.of_leaf hnode hmarker hleaf]
          exact .refl g _ _
      | branch hnode hmarker hs h₁ hF =>
          obtain ⟨_, ht, h₂, hG⟩ := hb.of_parts hnode hmarker h₁.isLeaf
          cases hpositive : place.positive with
          | true =>
              refine Assignable.of_relates hs ht (.shape ?_)
              refine h₁.fits h₂ hF hG ?_ ?_ a b
              · intro p x y hx hy hside
                have hxy := ih hx hy
                rw [hside, hpositive] at hxy
                exact hxy
              · intro p x y hx hy hside
                have hxy := ih hx hy
                rw [hpositive, ne_eq, Bool.not_eq_true] at hside
                rw [hside] at hxy
                exact hxy
          | false =>
              refine Assignable.of_relates ht hs (.shape ?_)
              refine h₂.fits h₁ hG hF ?_ ?_ b a
              · intro p y x hy hx hside
                have hxy := ih hx hy
                rw [hside, hpositive] at hxy
                exact hxy
              · intro p y x hy hx hside
                have hxy := ih hx hy
                rw [hpositive, ne_eq, Bool.not_eq_false] at hside
                rw [hside] at hxy
                exact hxy

end Graph

open Matching (Agrees)

open Instantiation (Replaced)

/-- What agreed with a binding before types were added still does. -/
theorem Matching.Agrees.toward {g g' : Graph} {env : Bindings}
    {place : Place} {key : MarkerKey} {x y : TypeId} (hg : g.WellFormed)
    (hgg' : g.Extends g') (hx : Agrees g env place key x)
    (hy : Replaced env place key y) : g'.Toward place.positive x y := by
  obtain ⟨hx, b, hb, hlt, htoward⟩ := hx
  cases hb.symm.trans hy
  have hkept : ∀ {a c}, a.index < g.size → c.index < g.size →
      g.Assignable a c → g'.Assignable a c := fun ha hc =>
    .agrees hg.closed.closedOn (hg.builtin_lt rfl) (hg.builtin_lt rfl)
      (hgg'.agreesOn _) ha hc
  cases hpositive : place.positive with
  | true =>
      rw [hpositive] at htoward
      exact hkept hx hlt htoward
  | false =>
      rw [hpositive] at htoward
      exact hkept hlt hx htoward

namespace Resolution

variable {r r' : Resolution} {d a id : TypeId} {height : Nat}

-- =============================================================== the calls

/-- Matching an argument of the shape of the declared type, from no
bindings. -/
theorem matchArgument_infers (hg : r.types.graph.WellFormed)
    (hchecker : r.checker = .structural) (henv : r.env = .empty)
    (hshape : r.types.graph.Shaped (fun _ _ _ => True) height (.top d) a)
    (ha : r.types.graph.Present a)
    (htree : (r.types.graph.branches height d).Nodup)
    (hmarks : (r.types.graph.occurrences height (.top d)).Pairwise
      fun m m' => m.1 = m'.1 → m'.2.Checked) (span : Span) :
    ∃ r', matchArgument d a span r = .ok () r' ∧
      r'.config = r.config ∧ r'.types.graph = r.types.graph ∧
      (∀ key b, r'.env.lookup? key = some b →
        b.index < r.types.graph.size) ∧
      (r'.diagnostics = r.diagnostics →
        r.types.graph.Shaped (Agrees r.types.graph r'.env)
          (r.config.maxDepth + 1) (.top d) a) := by
  have hlookup : ∀ key, r.env.lookup? key = none := by
    rw [henv]
    exact Bindings.lookup?_empty
  have hsteady : Matching.Steady r.types.graph r.matching := by
    refine ⟨rfl, fun key b hb => ?_, fun v hv => nomatch hv⟩
    rw [show r.matching.env.lookup? key = none from hlookup key] at hb
    cases hb
  obtain ⟨s, hrun, hmet, hagree⟩ :=
    Matching.matchTypes_infers ⟨r.checker, r.config, span⟩ hg hchecker
      r.config.maxDepth height (.top d) a r.matching hshape ha htree
      (fun v _ hv => nomatch hv) hsteady
  refine ⟨_, matchArgument_eq_ok.mpr ⟨s, hrun, rfl⟩, rfl,
    hmet.steady.graph, hmet.steady.bound, fun hsilent => ?_⟩
  have hlimit : s.work.limitReported = false := by
    refine WithinLimit.limitReported (r := r) hmet.records fun e he => ?_
    have hsame : (r.withWork s.work).diagnostics = r.diagnostics := hsilent
    rw [hsame, List.drop_length] at he
    cases he
  exact hagree ⟨hsilent, hlimit⟩ ⟨fun m _ => .inl (hlookup m.1), hmarks⟩

/-- A type that agrees with the bindings is assignable to what the
declared type is instantiated to. -/
theorem assignable_of_agrees (hg : r.types.graph.WellFormed)
    (hbound : ∀ key b, r.env.lookup? key = some b →
      b.index < r.types.graph.size)
    (hshape : r.types.graph.Shaped (Agrees r.types.graph r.env) height
      (.top d) a)
    (hlevels : height ≤ r.config.maxDepth + 1 ∨
      r.types.graph.MarkerFree d)
    (ha : a.index < r.types.graph.size) {span : Span}
    (h : instantiate d span r = .ok id r') :
    r'.types.graph.assignable a id = .ok true := by
  obtain ⟨hadds, hid⟩ := instantiate_adds hg hbound h
  have hg' := hadds.wellFormed hg.closed.closedOn hg
  have hlt : id.index < r'.types.graph.size :=
    hid.elim hadds.nodes.lt fun hnew => hnew.2
  obtain ⟨s, hrun, rfl⟩ := instantiate_eq_ok.mp h
  obtain ⟨-, -, hcopy⟩ :=
    Instantiation.resolve_shaped ⟨r.env, r.config, span⟩
      (fun _ _ _ ⟨_, b, hb, _⟩ => ⟨b, hb⟩) height r.config.maxDepth
      (.top d) a r.instantiation id s hshape hlevels (.refl _)
      (fun f hf => nomatch hf) hrun
  have htoward : Graph.Toward _ true a id :=
    Graph.Shaped.toward
      (fun _ _ _ _ hx hy => hx.toward hg hadds.nodes hy)
      (hshape.extends hadds.nodes) hcopy
  obtain ⟨answer, hanswer, hiff⟩ :=
    Graph.assignable_answers hg'.closed.closedOn (hg'.builtin_lt rfl)
      (hg'.builtin_lt rfl) (hadds.nodes.lt ha) hlt
  rw [hanswer, hiff.mpr htoward]

-- ============================================================ soundness

/-- A match that reports nothing is sound for functions of any order.
The declared type is a finite shape with no type with parts at two
places, and the actual type has this shape. Wherever a marker stands
for the result of a function, and that below an odd number of
parameters, it is the first time that the marker is met. Then the
argument can be bound; and if that adds no diagnostic, the actual type
is assignable to what the declared one is instantiated to. -/
theorem bindArgument_sound (config : Config) (store : Store)
    (listening : Bool) (hg : store.graph.WellFormed)
    (hshape : store.graph.Shaped (fun _ _ _ => True) height (.top d) a)
    (ha : store.graph.Present a)
    (htree : (store.graph.branches height d).Nodup)
    (hmarks : (store.graph.occurrences height (.top d)).Pairwise
      fun m m' => m.1 = m'.1 → m'.2.Checked) (span span' : Span) :
    ∃ r, bindArgument d a span (begin .structural config store listening)
        = .ok () r ∧
      (r.diagnostics = [] →
        ∃ id r', instantiate d span' r = .ok id r' ∧
          r'.types.graph.assignable a id = .ok true) := by
  have hgraph : (begin .structural config store listening).types.graph
      = store.graph := Layer.graph_on store
  have hd := hshape.place_lt
  rw [← hgraph] at hg hshape ha htree hmarks hd
  generalize hstart : begin .structural config store listening = start
    at hg hshape ha htree hmarks hd
  have henv : start.env = .empty := hstart ▸ rfl
  have hlog : start.diagnostics = [] := hstart ▸ rfl
  have hchecker : start.checker = .structural := hstart ▸ rfl
  obtain ⟨marked, hmarked, hfree⟩ :=
    Graph.containsMarker_answers hg.closed.closedOn hd
  cases marked with
  | false =>
      -- the actual type is not even looked at
      have hfree := hfree.mp rfl
      refine ⟨start, bindArgument_eq_ok.mpr (.inl ⟨hmarked, rfl⟩),
        fun _ => ?_⟩
      obtain ⟨id, r', hinst⟩ :=
        instantiate_succeeds hg.closed.closedOn hd span'
      refine ⟨id, r', hinst, ?_⟩
      refine assignable_of_agrees hg (fun key b hb => ?_)
        (hshape.of_markerFree hfree) (.inr hfree) ha.1 hinst
      rw [henv, Bindings.lookup?_empty] at hb
      cases hb
  | true =>
      obtain ⟨r, hmatch, hconfig, htypes, hbound, hagree⟩ :=
        matchArgument_infers hg hchecker henv hshape ha htree hmarks span
      refine ⟨r, bindArgument_eq_ok.mpr (.inr ⟨hmarked, hmatch⟩),
        fun hsilent => ?_⟩
      have hagree := hagree (hsilent.trans hlog.symm)
      rw [← htypes] at hg hbound hagree hd ha
      obtain ⟨id, r', hinst⟩ :=
        instantiate_succeeds hg.closed.closedOn hd span'
      refine ⟨id, r', hinst, ?_⟩
      exact assignable_of_agrees hg hbound hagree
        (.inl (Nat.le_of_eq (by rw [hconfig]))) ha.1 hinst

/-- Parameters `T` and `U` (21, 22), a function from the one to the other
(23), a function that takes it and an argument for it (24), and one like
that which takes a function to data and gives an int (25, 26). -/
def applying : Store where
  graph := ⟨Graph.builtin.nodes ++ #[
    .marker "T" ⟨1⟩ (.leaf .anydata),
    .marker "U" ⟨1⟩ (.leaf .anydata),
    .anonymous (.function { params := [⟨21⟩], result := ⟨22⟩ }),
    .anonymous (.function { params := [⟨23⟩, ⟨21⟩], result := ⟨22⟩ }),
    .anonymous (.function { params := [.int], result := .anydata }),
    .anonymous (.function { params := [⟨25⟩, .int], result := .int })]⟩

/-- A function that takes another one and an argument for it. The result
of the one taken is the first time that `U` is met, so the match is
sound, and the actual type need not be the same as the instantiated
one. -/
theorem applying_sound :
    applying.graph.WellFormed ∧
      ∃ r id r', bindArgument ⟨24⟩ ⟨26⟩ .null
          (begin .structural .default applying false) = .ok () r ∧
        r.diagnostics = [] ∧ instantiate ⟨24⟩ .null r = .ok id r' ∧
        r'.types.graph.assignable ⟨26⟩ id = .ok true := by
  have hg : applying.graph.WellFormed := by decide
  have hshape : applying.graph.Shaped (fun _ _ _ => True) 3 (.top ⟨24⟩)
      ⟨26⟩ :=
    .branch rfl rfl rfl (.function rfl)
      (.cons (.branch rfl rfl rfl (.function rfl)
          (.cons (.marker rfl rfl trivial)
            (.cons (.marker rfl rfl trivial) .nil)))
        (.cons (.marker rfl rfl trivial)
          (.cons (.marker rfl rfl trivial) .nil)))
  have hclosed : applying.graph.ClosedOn
      (· ∈ [⟨26⟩, ⟨25⟩, .int, .anydata]) := by
    simp only [Graph.ClosedOn, List.forall_mem_cons]
    exact ⟨⟨_, rfl, by decide⟩, ⟨_, rfl, by decide⟩, ⟨_, rfl, by decide⟩,
      ⟨_, rfl, by decide⟩, by simp⟩
  have hsilent : endsWith (fun _ r => r.diagnostics.isEmpty)
      (bindArgument ⟨24⟩ ⟨26⟩ .null
        (begin .structural .default applying false)) = true := by
    decide +kernel
  obtain ⟨r, hbind, hsound⟩ :=
    bindArgument_sound .default applying false hg hshape
      (.of_closedOn hclosed (by decide) List.mem_cons_self) (by decide)
      (by decide) .null .null
  rw [hbind] at hsilent
  have hsilent : r.diagnostics = [] := List.isEmpty_iff.mp hsilent
  obtain ⟨id, r', hinst, hassignable⟩ := hsound hsilent
  exact ⟨hg, r, id, r', hbind, hsilent, hinst, hassignable⟩

/-- A parameter `T` (21), a function that supplies one (22), a function
that takes a `T` and such a supplier (23), and one like that which takes
data and a supplier of ints (24, 25). -/
def supplying : Store where
  graph := ⟨Graph.builtin.nodes ++ #[
    .marker "T" ⟨1⟩ (.leaf .anydata),
    .anonymous (.function { params := [], result := ⟨21⟩ }),
    .anonymous (.function { params := [⟨21⟩, ⟨22⟩], result := .nil }),
    .anonymous (.function { params := [], result := .int }),
    .anonymous (.function { params := [.anydata, ⟨24⟩], result := .nil })]⟩

/-- The supplier's result is the second time that `T` is met, below a
parameter. It is compared as the result that it is to the supplier: an
int will do where data was bound. But a function that asks for a
supplier of ints cannot be given any supplier of data. -/
theorem supplying_unsound :
    supplying.graph.WellFormed ∧
      supplying.graph.Shaped (fun _ _ _ => True) 3 (.top ⟨23⟩) ⟨25⟩ ∧
      supplying.graph.Present ⟨25⟩ ∧
      supplying.graph.containsMarker ⟨25⟩ = .ok false ∧
      (supplying.graph.branches 3 ⟨23⟩).Nodup ∧
      ∃ r id r', bindArgument ⟨23⟩ ⟨25⟩ .null
          (begin .structural .default supplying false) = .ok () r ∧
        r.diagnostics = [] ∧ instantiate ⟨23⟩ .null r = .ok id r' ∧
        r'.types.graph.assignable ⟨25⟩ id = .ok false := by
  have hclosed : supplying.graph.ClosedOn
      (· ∈ [⟨25⟩, ⟨24⟩, .int, .anydata, .nil]) := by
    simp only [Graph.ClosedOn, List.forall_mem_cons]
    exact ⟨⟨_, rfl, by decide⟩, ⟨_, rfl, by decide⟩, ⟨_, rfl, by decide⟩,
      ⟨_, rfl, by decide⟩, ⟨_, rfl, by decide⟩, by simp⟩
  have hdecided : endsWith (fun _ r => r.diagnostics.isEmpty &&
        endsWith (fun id r' =>
          decide (r'.types.graph.assignable ⟨25⟩ id = .ok false))
        (instantiate ⟨23⟩ .null r))
      (bindArgument ⟨23⟩ ⟨25⟩ .null
        (begin .structural .default supplying false)) = true := by
    decide +kernel
  refine ⟨by decide, ?_,
    .of_closedOn hclosed (by decide) List.mem_cons_self,
    by decide +kernel, by decide, ?_⟩
  · exact .branch rfl rfl rfl (.function rfl)
      (.cons (.marker rfl rfl trivial)
        (.cons (.branch rfl rfl rfl (.function rfl)
            (.cons (.marker rfl rfl trivial) .nil))
          (.cons (.leaf rfl rfl rfl) .nil)))
  · obtain ⟨_, r, hbind, hdecided⟩ := of_endsWith hdecided
    obtain ⟨hsilent, hdecided⟩ := Bool.and_eq_true_iff.mp hdecided
    obtain ⟨id, r', hinst, hassignable⟩ := of_endsWith hdecided
    exact ⟨r, id, r', hbind, List.isEmpty_iff.mp hsilent, hinst,
      of_decide_eq_true hassignable⟩

end Resolution

end TypeParams
