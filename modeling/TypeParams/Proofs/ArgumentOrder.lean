/-
The order of arguments does not matter to what is bound.

# One argument

Arguments are bound one after the other, and a later one finds more
types and more bindings than an earlier one. Still, each argument binds
what it would bind on its own (`alone`), except what is bound already:
its match takes the same way (`Matching.matchTypes_abreast`). It also
comes to an end if and only if it does on its own
(`Underway.succeeds_iff`). The reason why it might not, a union among its
own members, has nothing to do with the bindings.

# All of them

So all arguments can be bound in some order if each can be bound on its
own, and therefore in any order (`bindAll_succeeds_iff`). The parameters
that are bound in the end are those that were bound before and those
that some argument binds on its own (`Gathers.free`). And a parameter
that only one argument involves is bound to what that argument binds it
to on its own (`bindAll_twins`): to the same type if the type was there
before, or to a new one with the same node.
-/
import TypeParams.Proofs.Bindings
import TypeParams.Proofs.Commit
import TypeParams.Proofs.Matching.Lockstep

namespace TypeParams

open TypeParams.Graph (Flat Twins)
open TypeParams.Matching (rel_mono rel_none_iff)

/-- A marker of the parameter can be reached from the type. -/
def Graph.Involves (g : Graph) (id : TypeId) (key : MarkerKey) : Prop :=
  ∃ marker node, g.Reaches id marker ∧ g.node? marker = some node ∧
    node.markerKey? = some key

/-- A set of types that has all their parts and no marker of the
parameter shows that none of them involves it. -/
theorem Graph.ClosedOn.not_involves {g : Graph} {P : TypeId → Prop}
    (hP : g.ClosedOn P) {key : MarkerKey}
    (hkey : ∀ a node, P a → g.node? a = some node →
      node.markerKey? ≠ some key) {id : TypeId} (hid : P id) :
    ¬ g.Involves id key := by
  rintro ⟨marker, node, hreaches, hn, hmarker⟩
  exact hkey marker node (hP.reaches hid hreaches) hn hmarker

/-- An argument: the declared type, the type that it is of, and where it
stands. -/
structure Argument where
  declared : TypeId
  actual : TypeId
  span : Span
  deriving DecidableEq

/-- The types of the argument are there. -/
def Argument.Valid (g : Graph) (arg : Argument) : Prop :=
  arg.declared.index < g.size ∧ arg.actual.index < g.size

instance (g : Graph) (arg : Argument) : Decidable (arg.Valid g) :=
  inferInstanceAs (Decidable (_ ∧ _))

namespace Resolution

variable {store : Store} {start r r' : Resolution} {arg : Argument}

/-- Binding arguments, one after the other. -/
def bindAll (args : List Argument) : ResolveM Unit :=
  args.forM fun arg => bindArgument arg.declared arg.actual arg.span

/-- The same resolution with nothing bound. -/
def unbound (r : Resolution) : Resolution := { r with env := .empty }

/-- What an argument comes to on its own. -/
def alone (start : Resolution) (arg : Argument) : Resolution :=
  match bindArgument arg.declared arg.actual arg.span start.unbound with
  | .ok _ r => r
  | .error _ r => r

-- ========================================================= one argument

/-- A resolution without its bindings is in order. -/
theorem InOrder.unbound (h : start.InOrder store) :
    start.unbound.InOrder store where
  checker := h.checker
  base := h.base
  pending := h.pending
  graph := h.graph
  bound _ hb := nomatch hb
  calm := h.calm

/-- What an argument comes to on its own, where it comes to anything. -/
theorem alone_run
    (h : Succeeds (bindArgument arg.declared arg.actual arg.span)
      start.unbound) :
    bindArgument arg.declared arg.actual arg.span start.unbound
      = .ok () (start.alone arg) := by
  obtain ⟨⟨⟩, q, hrun⟩ := h
  unfold alone
  rw [hrun]

/-- A resolution on the way from `start`, with a checker that compares
forms. What was added is flat. -/
structure Underway (store : Store) (start r : Resolution) : Prop where
  inOrder : r.InOrder store
  checker : r.checker = .structural
  config : r.config = start.config
  flat : start.types.graph.Flat r.types.graph

/-- An argument was bound: what was bound before stays, and beyond that
it is what the argument binds on its own. -/
structure Adopts (start : Resolution) (arg : Argument)
    (r r' : Resolution) : Prop where
  nodes : r.types.graph.Extends r'.types.graph
  kept : ∀ key b, r.env.lookup? key = some b →
    r'.env.lookup? key = some b
  bound : ∀ key, r.env.lookup? key = none →
    Option.Rel
      (Twins start.types.graph r'.types.graph (start.alone arg).types.graph)
      (r'.env.lookup? key) ((start.alone arg).env.lookup? key)

/-- The matches of an argument, after others and on its own, start
abreast. -/
theorem Underway.abreast (hstart : start.InOrder store)
    (hr : Underway store start r) :
    Matching.Abreast start.types.graph r.env r.matching
      start.unbound.matching where
  readyLeft := ⟨hr.inOrder.graph, hr.inOrder.bound⟩
  readyRight := ⟨hstart.graph, hstart.unbound.bound⟩
  left := hr.flat
  right := .refl _
  visited := rfl
  kept _ _ hb := hb
  bound key hkey := by
    show Option.Rel _ (r.env.lookup? key) (Bindings.empty.lookup? key)
    rw [hkey, Bindings.lookup?_empty]
    exact .none

/-- They go on together. -/
theorem Underway.together (hstart : Underway store start start)
    (hr : Underway store start r) (harg : arg.Valid start.types.graph) :
    Matching.Together start.types.graph r.env
      (Matching.matchTypes ⟨r.checker, r.config, arg.span⟩
        r.config.maxDepth arg.declared arg.actual .covariant)
      (Matching.matchTypes ⟨start.checker, start.config, arg.span⟩
        start.config.maxDepth arg.declared arg.actual .covariant)
      r.matching start.unbound.matching := by
  rw [hstart.checker, ← hr.checker, ← hr.config]
  exact Matching.matchTypes_abreast hstart.inOrder.graph hr.checker _ _ _ _
    _ _ _ harg.1 (hr.abreast hstart.inOrder) (.inl ⟨harg.2, rfl⟩)

/-- An argument can be matched if the match can be made. -/
theorem matchArgument_succeeds_iff {declared actual : TypeId}
    {span : Span} :
    Succeeds (matchArgument declared actual span) r ↔
      Succeeds (Matching.matchTypes ⟨r.checker, r.config, span⟩
        r.config.maxDepth declared actual .covariant) r.matching := by
  constructor
  · rintro ⟨⟨⟩, r', h⟩
    obtain ⟨s, hrun, -⟩ := matchArgument_eq_ok.mp h
    exact ⟨(), s, hrun⟩
  · rintro ⟨⟨⟩, s, hrun⟩
    exact ⟨(), _, matchArgument_eq_ok.mpr ⟨s, hrun, rfl⟩⟩

/-- An argument can be bound if its declared type mentions no parameter,
or if it can be matched. -/
theorem bindArgument_succeeds_iff {declared actual : TypeId}
    {span : Span} :
    Succeeds (bindArgument declared actual span) r ↔
      r.types.graph.containsMarker declared = .ok false ∨
        r.types.graph.containsMarker declared = .ok true ∧
          Succeeds (matchArgument declared actual span) r := by
  constructor
  · rintro ⟨⟨⟩, r', h⟩
    rcases bindArgument_eq_ok.mp h with ⟨hscan, -⟩ | ⟨hscan, hrun⟩
    · exact .inl hscan
    · exact .inr ⟨hscan, (), r', hrun⟩
  · rintro (hscan | ⟨hscan, ⟨⟩, r', hrun⟩)
    · exact ⟨(), r, bindArgument_eq_ok.mpr (.inl ⟨hscan, rfl⟩)⟩
    · exact ⟨(), r', bindArgument_eq_ok.mpr (.inr ⟨hscan, hrun⟩)⟩

/-- An argument can be bound if and only if it can be on its own. -/
theorem Underway.succeeds_iff (hstart : Underway store start start)
    (hr : Underway store start r) (harg : arg.Valid start.types.graph) :
    Succeeds (bindArgument arg.declared arg.actual arg.span) r ↔
      Succeeds (bindArgument arg.declared arg.actual arg.span)
        start.unbound := by
  have hclosed := hstart.inOrder.graph.closed.closedOn
  have hmarked : start.unbound.types.graph.containsMarker arg.declared
      = r.types.graph.containsMarker arg.declared :=
    (hr.flat.nodes.containsMarker_eq hclosed harg.1).symm
  have hmatch : Succeeds (matchArgument arg.declared arg.actual arg.span) r
      ↔ Succeeds (matchArgument arg.declared arg.actual arg.span)
        start.unbound := by
    rw [matchArgument_succeeds_iff, matchArgument_succeeds_iff]
    exact (hstart.together hr harg).ends
  rw [bindArgument_succeeds_iff, bindArgument_succeeds_iff, hmarked, hmatch]

/-- A matched argument. -/
theorem Underway.matchArgument (hstart : Underway store start start)
    (hr : Underway store start r) (harg : arg.Valid start.types.graph)
    {q : Resolution}
    (h : matchArgument arg.declared arg.actual arg.span r = .ok () r')
    (hq : Resolution.matchArgument arg.declared arg.actual arg.span
      start.unbound = .ok () q) :
    start.types.graph.Flat r'.types.graph ∧
    (∀ key b, r.env.lookup? key = some b →
      r'.env.lookup? key = some b) ∧
    ∀ key, r.env.lookup? key = none →
      Option.Rel
        (Twins start.types.graph r'.types.graph q.types.graph)
        (r'.env.lookup? key) (q.env.lookup? key) := by
  obtain ⟨s, hrun, rfl⟩ := matchArgument_eq_ok.mp h
  obtain ⟨t, hrun', rfl⟩ := matchArgument_eq_ok.mp hq
  have hdone := (hstart.together hr harg).abreast s t hrun hrun'
  exact ⟨hdone.left, hdone.kept, hdone.bound⟩

/-- Binding an argument adopts what it binds on its own. -/
theorem Underway.bindArgument (hstart : Underway store start start)
    (hr : Underway store start r) (harg : arg.Valid start.types.graph)
    (h : bindArgument arg.declared arg.actual arg.span r = .ok () r') :
    Underway store start r' ∧ Adopts start arg r r' := by
  have hclosed := hstart.inOrder.graph.closed.closedOn
  have halone := alone_run ((hstart.succeeds_iff hr harg).mp ⟨(), r', h⟩)
  have hmarked := hr.flat.nodes.containsMarker_eq hclosed harg.1
  obtain ⟨hr', hstacks⟩ := (hr.inOrder.bindArgument
    (hr.flat.nodes.lt harg.1) (hr.flat.nodes.lt harg.2) arg.span).leaves ()
    r' h
  rcases bindArgument_eq_ok.mp h with ⟨hfree, rfl⟩ | ⟨hfree, hmatch⟩
  · refine ⟨hr, ⟨.refl _, fun _ _ hb => hb, fun key hkey => ?_⟩⟩
    rcases bindArgument_eq_ok.mp halone with ⟨-, hsame⟩ | ⟨hfree', -⟩
    · rw [hkey, hsame]
      exact .none
    · rw [hmarked] at hfree
      cases hfree.symm.trans hfree'
  · rcases bindArgument_eq_ok.mp halone with ⟨hfree', -⟩ | ⟨-, hmatch'⟩
    · rw [hmarked] at hfree
      cases hfree.symm.trans hfree'
    · obtain ⟨hflat, hkept, hbound⟩ :=
        hstart.matchArgument hr harg hmatch hmatch'
      obtain ⟨s, -, rfl⟩ := matchArgument_eq_ok.mp hmatch
      exact ⟨⟨hr', hr.checker, hr.config, hflat⟩,
        ⟨hstacks.nodes, hkept, hbound⟩⟩

-- ======================================================= many arguments

/-- What has come of some arguments. -/
structure Gathers (store : Store) (start : Resolution)
    (args : List Argument) (r r' : Resolution) : Prop where
  underway : Underway store start r'
  nodes : r.types.graph.Extends r'.types.graph
  kept : ∀ key b, r.env.lookup? key = some b →
    r'.env.lookup? key = some b
  /-- A parameter stays free if no argument binds it on its own. -/
  free : ∀ key, r'.env.lookup? key = none ↔ r.env.lookup? key = none ∧
    ∀ arg ∈ args, (start.alone arg).env.lookup? key = none

theorem Gathers.nil (hr : Underway store start r) :
    Gathers store start [] r r where
  underway := hr
  nodes := .refl _
  kept _ _ hb := hb
  free key := by simp

/-- One more argument in front. -/
theorem Gathers.cons {args : List Argument} {r₁ r₂ : Resolution}
    (hfirst : Adopts start arg r r₁)
    (hrest : Gathers store start args r₁ r₂) :
    Gathers store start (arg :: args) r r₂ where
  underway := hrest.underway
  nodes := hfirst.nodes.trans hrest.nodes
  kept key b hb := hrest.kept key b (hfirst.kept key b hb)
  free key := by
    rw [hrest.free, List.forall_mem_cons, ← and_assoc]
    refine and_congr_left fun _ => ?_
    cases hkey : r.env.lookup? key with
    | some b => simp [hfirst.kept key b hkey]
    | none => simp [rel_none_iff (hfirst.bound key hkey)]

/-- What has come of arguments that were bound one after the other. -/
theorem bindAll_gathers (hstart : Underway store start start)
    {args : List Argument}
    (hargs : ∀ arg ∈ args, arg.Valid start.types.graph)
    (hr : Underway store start r) (h : bindAll args r = .ok () r') :
    Gathers store start args r r' := by
  have hsweep := forM_run.mp h
  clear h
  induction hsweep with
  | nil => exact .nil hr
  | cons hturn _ ih =>
      rw [List.forall_mem_cons] at hargs
      obtain ⟨hr₁, hadopts⟩ := hstart.bindArgument hr hargs.1 hturn
      exact .cons hadopts (ih hargs.2 hr₁)

/-- Arguments can be bound if each of them can be on its own, whatever
comes of those before it. -/
theorem bindAll_succeeds_iff (hstart : Underway store start start)
    {args : List Argument}
    (hargs : ∀ arg ∈ args, arg.Valid start.types.graph)
    (hr : Underway store start r) :
    Succeeds (bindAll args) r ↔ ∀ arg ∈ args,
      Succeeds (bindArgument arg.declared arg.actual arg.span)
        start.unbound := by
  induction args generalizing r with
  | nil => exact iff_of_true ⟨(), r, rfl⟩ (by simp)
  | cons arg args ih =>
      obtain ⟨harg, hargs⟩ := List.forall_mem_cons.mp hargs
      rw [List.forall_mem_cons, ← hstart.succeeds_iff hr harg]
      constructor
      · rintro ⟨⟨⟩, r₂, h⟩
        obtain ⟨⟨⟩, r₁, hturn, hrest⟩ := bind_run.mp h
        have hr₁ := (hstart.bindArgument hr harg hturn).1
        exact ⟨⟨(), r₁, hturn⟩, (ih hargs hr₁).mp ⟨(), r₂, hrest⟩⟩
      · rintro ⟨⟨⟨⟩, r₁, hturn⟩, hrest⟩
        have hr₁ := (hstart.bindArgument hr harg hturn).1
        obtain ⟨⟨⟩, r₂, hrun⟩ := (ih hargs hr₁).mpr hrest
        exact ⟨(), r₂, bind_run.mpr ⟨(), r₁, hturn, hrun⟩⟩

theorem bindAll_append (args args' : List Argument) :
    bindAll (args ++ args') = (do bindAll args; bindAll args') :=
  List.forM_append

/-- A parameter that one argument may bind, and no other one, is bound to
what that argument binds it to on its own. -/
theorem bindAll_twins (hstart : Underway store start start)
    {before behind : List Argument}
    (hargs : ∀ a ∈ before ++ arg :: behind, a.Valid start.types.graph)
    (h : bindAll (before ++ arg :: behind) start = .ok () r')
    {key : MarkerKey} (hkey : start.env.lookup? key = none)
    (hothers : ∀ a ∈ before ++ behind,
      (start.alone a).env.lookup? key = none) :
    Option.Rel
      (Twins start.types.graph r'.types.graph
        (start.alone arg).types.graph)
      (r'.env.lookup? key) ((start.alone arg).env.lookup? key) := by
  obtain ⟨hbefore, hargs⟩ := List.forall_mem_append.mp hargs
  obtain ⟨harg, hbehind⟩ := List.forall_mem_cons.mp hargs
  obtain ⟨hfree, hfree'⟩ := List.forall_mem_append.mp hothers
  rw [bindAll_append] at h
  obtain ⟨_, r₁, hrun₁, h⟩ := bind_run.mp h
  obtain ⟨_, r₂, hturn, hrun₂⟩ := bind_run.mp h
  have hgathers₁ := bindAll_gathers hstart hbefore hstart hrun₁
  have hkey₁ : r₁.env.lookup? key = none :=
    (hgathers₁.free key).mpr ⟨hkey, hfree⟩
  obtain ⟨hr₂, hadopts⟩ :=
    hstart.bindArgument hgathers₁.underway harg hturn
  have hgathers₂ := bindAll_gathers hstart hbehind hr₂ hrun₂
  have hrel := hadopts.bound key hkey₁
  cases hlookup : r₂.env.lookup? key with
  | none =>
      rw [hlookup] at hrel
      rw [(hgathers₂.free key).mpr ⟨hlookup, hfree'⟩]
      rw [(rel_none_iff hrel).mp rfl]
      exact .none
  | some b =>
      rw [hlookup] at hrel
      rw [hgathers₂.kept key b hlookup]
      exact rel_mono
        (fun _ _ htwins => htwins.mono hgathers₂.nodes (.refl _)) hrel

/-- On its own, an argument binds only parameters that its declared type
involves. -/
theorem alone_lookup? (hstart : start.InOrder store)
    (harg : arg.Valid start.types.graph)
    (halone : Succeeds (bindArgument arg.declared arg.actual arg.span)
      start.unbound) {key : MarkerKey}
    (hkey : ¬ start.types.graph.Involves arg.declared key) :
    (start.alone arg).env.lookup? key = none := by
  have hclosed := hstart.graph.closed.closedOn
  have hbinds := bindArgument_binds (alone_run halone)
  have hext : start.types.graph.Extends (start.alone arg).types.graph :=
    hbinds.graph
  obtain ⟨added, hentries, hadded⟩ := hbinds.entries
  rw [Bindings.lookup?_eq_none_iff]
  rintro b hb rfl
  have hmade := hadded b (by simpa [hentries, unbound, Bindings.empty]
    using hb)
  obtain ⟨node, hn, hmarker⟩ := hmade.marked
  have hreached := hmade.reached.of_extends hclosed hext harg.1
  refine hkey ⟨b.marker, node, hreached, ?_, hmarker⟩
  rw [← hext.node?_eq (hclosed.reaches harg.1 hreached)]
  exact hn

/-- A parameter that no argument but one involves is bound to what that
argument binds it to on its own. -/
theorem bindAll_of_erase (hstart : Underway store start start)
    {args : List Argument}
    (hargs : ∀ a ∈ args, a.Valid start.types.graph)
    (h : bindAll args start = .ok () r') (harg : arg ∈ args)
    {key : MarkerKey} (hkey : start.env.lookup? key = none)
    (hothers : ∀ a ∈ args.erase arg,
      ¬ start.types.graph.Involves a.declared key) :
    Option.Rel
      (Twins start.types.graph r'.types.graph
        (start.alone arg).types.graph)
      (r'.env.lookup? key) ((start.alone arg).env.lookup? key) := by
  have halone := (bindAll_succeeds_iff hstart hargs hstart).mp ⟨(), r', h⟩
  obtain ⟨before, behind, -, rfl, herase⟩ := List.exists_erase_eq harg
  rw [herase] at hothers
  refine bindAll_twins hstart hargs h hkey fun a ha => ?_
  have hmem : a ∈ before ++ arg :: behind := by
    rcases List.mem_append.mp ha with ha | ha
    · exact List.mem_append_left _ ha
    · exact List.mem_append_right _ (List.mem_cons_of_mem _ ha)
  exact alone_lookup? hstart.inOrder (hargs a hmem) (halone a hmem)
    (hothers a ha)

/-- What has the same twin is twins. -/
theorem rel_twins_join {g₀ g g' q : Graph} {a b c : Option TypeId}
    (hac : Option.Rel (Twins g₀ g q) a c)
    (hbc : Option.Rel (Twins g₀ g' q) b c) :
    Option.Rel (Twins g₀ g g') a b := by
  cases hac with
  | none =>
      cases hbc
      exact .none
  | some hac =>
      obtain hbc | _ := hbc
      exact .some (hac.join hbc)

-- ================================================================= runs

/-- Binding an argument does not change the checker. -/
theorem bindArgument_checker {declared actual : TypeId} {span : Span}
    (h : bindArgument declared actual span r = .ok () r') :
    r'.checker = r.checker := by
  rcases bindArgument_eq_ok.mp h with ⟨-, rfl⟩ | ⟨-, hmatch⟩
  · rfl
  · obtain ⟨s, -, rfl⟩ := matchArgument_eq_ok.mp hmatch
    rfl

theorem instantiate_checker {declared id : TypeId} {span : Span}
    (h : instantiate declared span r = .ok id r') :
    r'.checker = r.checker := by
  obtain ⟨s, -, rfl⟩ := instantiate_run h
  rfl

/-- No call changes the checker. -/
theorem Call.checker_eq {call : Call} (h : call.perform r = .ok () r') :
    r'.checker = r.checker := by
  cases call with
  | bindArgument declared actual span => exact bindArgument_checker h
  | bindCall id args span =>
      obtain ⟨result, r₁, hrun, hdone⟩ := bind_run.mp h
      cases hdone
      rcases bindCall_run hrun with
        rfl | ⟨signature, r₁, work, -, hsweep, -, rfl⟩
      · rfl
      · exact hsweep.keeps (I := fun q => q.checker = r.checker)
          (fun _ _ _ _ hq hturn => (bindArgument_checker hturn).trans hq)
          rfl
  | instantiate declared span =>
      obtain ⟨id, r₁, hrun, hdone⟩ := bind_run.mp h
      cases hdone
      exact instantiate_checker hrun
  | instantiateSignature id =>
      obtain ⟨result, r₁, hrun, hdone⟩ := bind_run.mp h
      cases hdone
      obtain ⟨found, r₁, hfound, hrest⟩ := bind_run.mp hrun
      cases signature_run hfound
      cases found with
      | error error =>
          cases hrest
          rfl
      | ok signature =>
          obtain ⟨y, r₁, hinst, hrest⟩ := bind_run.mp hrest
          cases hrest
          exact instantiate_checker hinst

/-- No run changes the checker. -/
theorem ValidRun.checker_eq (h : ValidRun start r) :
    r.checker = start.checker := by
  induction h with
  | refl => rfl
  | call call _ _ hperform ih => exact (Call.checker_eq hperform).trans ih

/-- Arguments that are there can be bound where no union is among its own
members. -/
theorem bindAll_succeeds (hstart : Underway store start start)
    {args : List Argument}
    (hargs : ∀ arg ∈ args, arg.Valid start.types.graph)
    (hunlooped : start.types.graph.Unlooped) :
    Succeeds (bindAll args) start := by
  refine (bindAll_succeeds_iff hstart hargs hstart).mpr fun arg harg => ?_
  have hends := (hstart.inOrder.unbound.bindArgument (hargs arg harg).1
    (hargs arg harg).2 arg.span).ends
  exact hends.succeeds hunlooped.not_endless

/-- What is bound does not depend on the order of the arguments. After
any calls over a closed graph, take arguments of types that are there.
They can be bound in one order if and only if they can in another, and
they can in any if no union is among its own members. The same
parameters are bound then. A parameter that was free before, and that
one argument at most involves, is bound to the same type: the same id if
it was there before, and otherwise a new id of the same node. -/
theorem bindAll_perm (config : Config) (store : Store) (listening : Bool)
    (hg : store.graph.WellFormed) {r : Resolution}
    (hrun : ValidRun (begin .structural config store listening) r)
    {args args' : List Argument} (hperm : args.Perm args')
    (hargs : ∀ arg ∈ args, arg.Valid r.types.graph) :
    (r.types.graph.Unlooped → Succeeds (bindAll args) r) ∧
    (Succeeds (bindAll args) r ↔ Succeeds (bindAll args') r) ∧
    ∀ r₁ r₂, bindAll args r = .ok () r₁ → bindAll args' r = .ok () r₂ →
      (∀ key, r₁.env.contains key = r₂.env.contains key) ∧
      ∀ key, r.env.lookup? key = none →
        (∃ arg ∈ args, ∀ a ∈ args.erase arg,
          ¬ r.types.graph.Involves a.declared key) →
        Option.Rel
          (Twins r.types.graph r₁.types.graph r₂.types.graph)
          (r₁.env.lookup? key) (r₂.env.lookup? key) := by
  have hr : Underway store r r :=
    ⟨(begin_inOrder Checker.structural_total config listening hg).run hrun,
      hrun.checker_eq, rfl, .refl _⟩
  have hargs' : ∀ arg ∈ args', arg.Valid r.types.graph :=
    fun arg harg => hargs arg (hperm.mem_iff.mpr harg)
  refine ⟨bindAll_succeeds hr hargs, ?_, fun r₁ r₂ hrun₁ hrun₂ =>
    ⟨fun key => ?_, ?_⟩⟩
  · rw [bindAll_succeeds_iff hr hargs hr, bindAll_succeeds_iff hr hargs' hr]
    simp only [hperm.mem_iff]
  · -- a parameter stays free if no argument binds it on its own
    have hfree : r₁.env.lookup? key = none ↔ r₂.env.lookup? key = none := by
      rw [(bindAll_gathers hr hargs hr hrun₁).free,
        (bindAll_gathers hr hargs' hr hrun₂).free]
      simp only [hperm.mem_iff]
    unfold Bindings.contains
    rw [Bool.eq_iff_iff, ← not_iff_not, Option.not_isSome_iff_eq_none,
      Option.not_isSome_iff_eq_none]
    exact hfree
  · rintro key hkey ⟨arg, harg, hothers⟩
    have hothers' : ∀ a ∈ args'.erase arg,
        ¬ r.types.graph.Involves a.declared key :=
      fun a ha => hothers a ((hperm.erase arg).mem_iff.mpr ha)
    exact rel_twins_join
      (bindAll_of_erase hr hargs hrun₁ harg hkey hothers)
      (bindAll_of_erase hr hargs' hrun₂ (hperm.mem_iff.mp harg) hkey
        hothers')

/-- Two parameters (21, 22), arrays of them (23, 24), and pairs that are
no arrays (25, 26). -/
def twoLists : Store where
  graph := ⟨Graph.builtin.nodes ++ #[
    .marker "T" ⟨1⟩ (.leaf .anydata),
    .marker "U" ⟨1⟩ (.leaf .anydata),
    .anonymous (.array ⟨21⟩),
    .anonymous (.array ⟨22⟩),
    .anonymous (.tuple [.int, .string] none),
    .anonymous (.tuple [.boolean, .int] none)]⟩

/-- Pairs for both arrays, and an integer for the second parameter. -/
def twoListsArgs : List Argument :=
  [⟨⟨23⟩, ⟨25⟩, .null⟩, ⟨⟨24⟩, ⟨26⟩, .null⟩, ⟨⟨22⟩, .int, .null⟩]

/-- Only the first argument involves the first parameter. -/
theorem twoLists_not_involves :
    ∀ a ∈ twoListsArgs.erase ⟨⟨23⟩, ⟨25⟩, .null⟩,
      ¬ twoLists.graph.Involves a.declared ⟨⟨1⟩, "T"⟩ := by
  have hP : twoLists.graph.ClosedOn (· ∈ [⟨22⟩, ⟨24⟩]) := by
    intro a ha
    rcases List.mem_pair.mp ha with rfl | rfl
    · exact ⟨_, rfl, by decide⟩
    · exact ⟨_, rfl, by decide⟩
  have hkey : ∀ a node, a ∈ [⟨22⟩, ⟨24⟩] →
      twoLists.graph.node? a = some node →
      node.markerKey? ≠ some ⟨⟨1⟩, "T"⟩ := by
    intro a node ha hn
    rcases List.mem_pair.mp ha with rfl | rfl
    · cases hn
      decide
    · cases hn
      decide
  intro a ha
  have hdeclared : a.declared ∈ [⟨22⟩, ⟨24⟩] := by
    revert a
    decide
  exact hP.not_involves hkey hdeclared

/-- In one order the first parameter gets the first new union, in the
other one the second. It is the same union. The second parameter, which
two arguments involve, gets a union in one order and an integer in the
other. -/
theorem twoLists_bindAll_perm :
    twoLists.graph.WellFormed ∧ twoLists.graph.Unlooped ∧ ∃ r₁ r₂,
      bindAll twoListsArgs
        (begin .structural .default twoLists false) = .ok () r₁ ∧
      bindAll twoListsArgs.reverse
        (begin .structural .default twoLists false) = .ok () r₂ ∧
      (∀ key, r₁.env.contains key = r₂.env.contains key) ∧
      r₁.env.lookup? ⟨⟨1⟩, "T"⟩ = some ⟨27⟩ ∧
      r₂.env.lookup? ⟨⟨1⟩, "T"⟩ = some ⟨28⟩ ∧
      Twins twoLists.graph r₁.types.graph r₂.types.graph ⟨27⟩ ⟨28⟩ ∧
      r₁.env.lookup? ⟨⟨1⟩, "U"⟩ = some ⟨28⟩ ∧
      r₂.env.lookup? ⟨⟨1⟩, "U"⟩ = some .int := by
  have hg : twoLists.graph.WellFormed := by decide
  have hunlooped : twoLists.graph.Unlooped := .of_order (by decide)
  have hargs : ∀ arg ∈ twoListsArgs, arg.Valid
      (begin .structural .default twoLists false).types.graph := by
    decide
  have hbound : (match bindAll twoListsArgs
      (begin .structural .default twoLists false) with
    | .ok _ r => decide (r.env.lookup? ⟨⟨1⟩, "T"⟩ = some ⟨27⟩ ∧
        r.env.lookup? ⟨⟨1⟩, "U"⟩ = some ⟨28⟩)
    | .error _ _ => false) = true := by decide +kernel
  have hbound' : (match bindAll twoListsArgs.reverse
      (begin .structural .default twoLists false) with
    | .ok _ r => decide (r.env.lookup? ⟨⟨1⟩, "T"⟩ = some ⟨28⟩ ∧
        r.env.lookup? ⟨⟨1⟩, "U"⟩ = some .int)
    | .error _ _ => false) = true := by decide +kernel
  have hgraph : (begin .structural .default twoLists false).types.graph
      = twoLists.graph := Layer.graph_on twoLists
  obtain ⟨hreturns, hboth, hsame⟩ := bindAll_perm .default twoLists false
    hg .refl (List.reverse_perm twoListsArgs).symm hargs
  rw [hgraph] at hreturns
  have hfirst := hreturns hunlooped
  obtain ⟨⟨⟩, r₂, hrun₂⟩ := hboth.mp hfirst
  obtain ⟨⟨⟩, r₁, hrun₁⟩ := hfirst
  obtain ⟨hkeys, htwins⟩ := hsame r₁ r₂ hrun₁ hrun₂
  rw [hrun₁] at hbound
  rw [hrun₂] at hbound'
  obtain ⟨hT, hU⟩ := of_decide_eq_true hbound
  obtain ⟨hT', hU'⟩ := of_decide_eq_true hbound'
  have hrel := htwins ⟨⟨1⟩, "T"⟩ rfl
    ⟨⟨⟨23⟩, ⟨25⟩, .null⟩, by decide, twoLists_not_involves⟩
  rw [hT, hT'] at hrel
  obtain htwin | _ := hrel
  exact ⟨hg, hunlooped, r₁, r₂, hrun₁, hrun₂, hkeys, hT, hT', htwin, hU,
    hU'⟩

end Resolution

end TypeParams
