/-
Instantiation is substitution.

# What a result is

`Made` says how the result of one declared type is made, given a relation
between declared types and results for its parts: a parameter gives what
it is bound to, a type that stands for itself gives itself, and any other
type gives a new one of the same form over results of its parts. Equal
members of a union become one.

A relation every pair of which is made in this way out of the relation
itself is a simulation. It is how a result can be described at all where
types contain themselves: neither side can be unrolled.

# Unions with one member

A union that is left with one member has become that member, whose own
result may come from a union that was left with one member, and so on.
Here a simulation would allow too much: a union that is its own only
member could have any result, each time because of the last. So this part
of the description is not to be read off the relation but to be derived
step by step (`Collapses`), and every derivation ends with a type that the
result was made for.

A union that is met inside itself does not collapse. The id that it was
given there has to be defined, so it stays a union, if need be with one
member. This is the only way to come by such a union (`Made.copied`).

# Half-built results

While a type is being rebuilt, an id may already have been handed out
for its result that has a placeholder for a node. `Explained` is the
simulation up to such ids: a pair is made as it should be, or it is an
open frame with the id it was given. When the frame ends the id gets its
node; a placeholder is a leaf and a copy never is, so no pair that was
made before is lost by it.
-/
import TypeParams.Proofs.Kind
import TypeParams.Proofs.Resolution
import TypeParams.Proofs.Subtype.Unions

namespace TypeParams.Instantiation

open Relation (ReflTransGen TransGen)

-- ======================================================= specification

/-- The form in which equal members of a union are one. -/
def mergedKind : Kind → Kind
  | .union members => .union members.eraseDups
  | kind => kind

/-- A node is a copy of the node of a declared type: its form is the
declared one over related parts, it is no marker, and it has the
declared name if no marker was replaced. -/
structure Copies (g : Graph) (Sim : TypeId → TypeId → Prop) (x : TypeId)
    (node copy : Node) : Prop where
  kind : ∃ whole, node.kind.Alike Sim whole ∧ copy.kind = mergedKind whole
  flags : copy.flags = { node.flags with parameterized := false }
  named : node.name.isSome = true ∧ g.MarkerFree x →
    copy.name = node.name ∧ copy.scope = node.scope
  unnamed : ¬ (node.name.isSome = true ∧ g.MarkerFree x) →
    copy.name = none ∧ copy.scope = .root

/-- One result is needed for another: that of a part of a type that is
neither a parameter nor stands for itself. -/
def Needs (g : Graph) (x c : TypeId) : Prop :=
  ∃ node, g.node? x = some node ∧ node.markerKey? = none ∧
    ¬ StandsForItself g x node ∧ c ∈ node.kind.children

/-- What is made in `g'` for a declared type of `g`, if `Sim` holds the
results of its parts. -/
inductive Made (env : Bindings) (g g' : Graph)
    (Sim : TypeId → TypeId → Prop) (x : TypeId) : TypeId → Prop where
  /-- A parameter: what it is bound to, or no type. -/
  | bound {node : Node} {key : MarkerKey} (hnode : g.node? x = some node)
      (hkey : node.markerKey? = some key) :
      Made env g g' Sim x ((env.lookup? key).getD .noType)
  | itself {node : Node} (hnode : g.node? x = some node)
      (hkey : node.markerKey? = none)
      (hself : StandsForItself g x node) : Made env g g' Sim x x
  /-- Any other type: a new one with a copy of the node. A union has one
  member only if its result is needed for itself. -/
  | copied {node copy : Node} {y : TypeId}
      (hnode : g.node? x = some node) (hkey : node.markerKey? = none)
      (hself : ¬ StandsForItself g x node) (hnew : g.size ≤ y.index)
      (hcopy : g'.node? y = some copy) (hcopies : Copies g Sim x node copy)
      (hagain : ∀ m, copy.kind = .union [m] → TransGen (Needs g) x x) :
      Made env g g' Sim x y

/-- A result, made for the type itself or for all members of a union.
The members of the union have become one. -/
inductive Collapses (g : Graph) (Sim made : TypeId → TypeId → Prop) :
    TypeId → TypeId → Prop where
  | made {x y : TypeId} (h : made x y) : Collapses g Sim made x y
  | union {x y : TypeId} {node : Node} {members : List TypeId}
      (hnode : g.node? x = some node) (hkey : node.markerKey? = none)
      (hkind : node.kind = .union members) (hsome : members ≠ [])
      (hsim : ∀ m ∈ members, Sim m y)
      (hmembers : ∀ m ∈ members, Collapses g Sim made m y) :
      Collapses g Sim made x y

/-- What the result of a declared type of `g` may be in `g'`, if `Sim`
holds the results of its parts. -/
def Substituted (env : Bindings) (g g' : Graph)
    (Sim : TypeId → TypeId → Prop) : TypeId → TypeId → Prop :=
  Collapses g Sim (Made env g g' Sim)

-- ========================================================= monotonicity

variable {env : Bindings} {g₀ g g' : Graph}
variable {L L' : TypeId → TypeId → Prop}

theorem isLeaf_mergedKind (kind : Kind) :
    (mergedKind kind).isLeaf = kind.isLeaf := by
  cases kind <;> rfl

theorem rebuiltKind_eq (kind : Kind) (parts : List TypeId) :
    rebuiltKind kind parts = mergedKind (kind.withChildren parts) := by
  unfold rebuiltKind mergedKind
  rfl

theorem Copies.mono (hL : ∀ a b, L a b → L' a b) {x : TypeId}
    {node copy : Node} (h : Copies g L x node copy) :
    Copies g L' x node copy := by
  obtain ⟨⟨whole, halike, hkind⟩, hflags, hnamed, hunnamed⟩ := h
  exact ⟨⟨whole, halike.mono hL, hkind⟩, hflags, hnamed, hunnamed⟩

/-- A copy of a type that does not stand for itself is no leaf. -/
theorem Copies.isLeaf_eq_false {x : TypeId} {node copy : Node}
    (hself : ¬ StandsForItself g x node) (h : Copies g L x node copy) :
    copy.kind.isLeaf = false := by
  obtain ⟨whole, halike, hkind⟩ := h.kind
  rw [hkind, isLeaf_mergedKind, halike.isLeaf_eq]
  exact Bool.eq_false_iff.mpr fun hleaf => hself (.inl hleaf)

/-- What was made stays so as long as nodes other than leaves stay. -/
theorem Made.mono
    (hkept : ∀ id node, g.node? id = some node →
      node.kind.isLeaf = false → g'.node? id = some node)
    (hL : ∀ a b, L a b → L' a b) {x y : TypeId}
    (h : Made env g₀ g L x y) : Made env g₀ g' L' x y := by
  cases h with
  | bound hnode hkey => exact .bound hnode hkey
  | itself hnode hkey hself => exact .itself hnode hkey hself
  | copied hnode hkey hself hnew hcopy hcopies hagain =>
      exact .copied hnode hkey hself hnew
        (hkept _ _ hcopy (hcopies.isLeaf_eq_false hself))
        (hcopies.mono hL) hagain

/-- What is made can be replaced by what comes of it. -/
theorem Collapses.bind {M M' : TypeId → TypeId → Prop}
    (hL : ∀ a b, L a b → L' a b)
    (hM : ∀ a b, M a b → Collapses g L' M' a b) {x y : TypeId}
    (h : Collapses g L M x y) : Collapses g L' M' x y := by
  induction h with
  | made h => exact hM _ _ h
  | union hnode hkey hkind hsome hsim _ ih =>
      exact .union hnode hkey hkind hsome
        (fun m hm => hL _ _ (hsim m hm)) ih

/-- Members lead from a type to one that its result was made for. -/
theorem Collapses.exists_made {M : TypeId → TypeId → Prop} {x y : TypeId}
    (h : Collapses g L M x y) (hxy : L x y) :
    ∃ q, ReflTransGen g.Member x q ∧ L q y ∧ M q y := by
  induction h with
  | made h => exact ⟨_, .refl, hxy, h⟩
  | @union x y node members hnode _ hkind hsome hsim _ ih =>
      obtain ⟨m, hm⟩ := List.exists_mem_of_ne_nil members hsome
      obtain ⟨q, hmq, hqy, hmade⟩ := ih m hm (hsim m hm)
      exact ⟨q, .head ⟨node, members, hnode, hkind, hm⟩ hmq, hqy, hmade⟩

/-- A union that is a member of itself has not collapsed. -/
theorem Collapses.made_of_member {M : TypeId → TypeId → Prop}
    {x y : TypeId} (h : Collapses g L M x y) (hx : g.Member x x) :
    M x y := by
  induction h with
  | made h => exact h
  | @union x y node members hnode _ hkind _ _ _ ih =>
      obtain ⟨node', members', hnode', hkind', hmem⟩ := id hx
      rw [hnode, Option.some.injEq] at hnode'
      subst hnode'
      rw [hkind, Kind.union.injEq] at hkind'
      subst hkind'
      exact ih x hmem hx

-- ===================================================== half-built results

/-- A type was resolved to another, over a larger graph. -/
def Results (ctx : Context) (g₀ : Graph) (x y : TypeId) : Prop :=
  ∃ s s', s.Tidy ∧ g₀.Extends s.graph ∧ Resolves ctx x s y s'

/-- A result was made, or it is still an open frame with the id that it
was given. -/
def Begun (ctx : Context) (g₀ : Graph) (s : State)
    (L : TypeId → TypeId → Prop) (x y : TypeId) : Prop :=
  ⟨x, some y⟩ ∈ s.frames ∨ Made ctx.env g₀ s.graph L x y

/-- Every pair is a type and its result, made as it should be or still
an open frame with the id it was given. -/
structure Explains (ctx : Context) (g₀ : Graph) (s : State)
    (L : TypeId → TypeId → Prop) (x y : TypeId) : Prop where
  results : Results ctx g₀ x y
  made : Collapses g₀ L (Begun ctx g₀ s L) x y

def Explained (ctx : Context) (g₀ : Graph) (s : State)
    (L : TypeId → TypeId → Prop) : Prop :=
  ∀ x y, L x y → Explains ctx g₀ s L x y

variable {ctx : Context}

/-- What was explained stays so as long as nodes other than leaves and
open frames stay. -/
theorem Explains.mono {s s' : State}
    (hkept : ∀ id node, s.graph.node? id = some node →
      node.kind.isLeaf = false → s'.graph.node? id = some node)
    (hframes : ∀ x y, ⟨x, some y⟩ ∈ s.frames → ⟨x, some y⟩ ∈ s'.frames)
    (hL : ∀ a b, L a b → L' a b) {x y : TypeId}
    (h : Explains ctx g₀ s L x y) : Explains ctx g₀ s' L' x y where
  results := h.results
  made := h.made.bind hL fun a b hbegun =>
    .made (hbegun.imp (hframes a b) (.mono hkept hL))

/-- Two explanations of the same state are one. -/
theorem Explained.union {s : State} (h : Explained ctx g₀ s L)
    (h' : Explained ctx g₀ s L') :
    Explained ctx g₀ s fun x y => L x y ∨ L' x y := by
  rintro x y (hxy | hxy)
  · exact (h x y hxy).mono (fun _ _ hn _ => hn) (fun _ _ hf => hf)
      fun _ _ => .inl
  · exact (h' x y hxy).mono (fun _ _ hn _ => hn) (fun _ _ hf => hf)
      fun _ _ => .inr

theorem Explained.grows {s s' : State} (h : Explained ctx g₀ s L)
    (hgrows : Grows s s') : Explained ctx g₀ s' L := by
  intro x y hxy
  exact (h x y hxy).mono (fun id node hn _ => hgrows.nodes id node hn)
    (fun _ _ => Frame.mem_of_fills hgrows.frames) fun _ _ hab => hab

/-- A pair that needs no others. -/
theorem Explained.single {s : State} {d y : TypeId}
    (hresult : Results ctx g₀ d y) (h : ∀ L, Begun ctx g₀ s L d y) :
    ∃ L : TypeId → TypeId → Prop, L d y ∧ Explained ctx g₀ s L := by
  refine ⟨fun a b => a = d ∧ b = y, ⟨rfl, rfl⟩, ?_⟩
  rintro a b ⟨rfl, rfl⟩
  exact ⟨hresult, .made (h _)⟩

/-- A resolved type and the types that were resolved meanwhile are
explained. -/
def Justified (ctx : Context) (g₀ : Graph) (d : TypeId) (s : State)
    (y : TypeId) (s' : State) : Prop :=
  s.Tidy → g₀.Extends s.graph → d.index < g₀.size →
    s'.work.limitReported = false →
    ∃ L : TypeId → TypeId → Prop, L d y ∧ Explained ctx g₀ s' L

/-- The parts of a type are explained together. -/
theorem Justified.threads {ds ys : List TypeId} {s s' : State}
    (h : Threads (fun d s y s' =>
      Resolves ctx d s y s' ∧ Justified ctx g₀ d s y s') ds s ys s')
    (hs : s.Tidy) (hg₀ : g₀.Extends s.graph)
    (hds : ∀ d ∈ ds, d.index < g₀.size)
    (hlimit : s'.work.limitReported = false) :
    ∃ L, List.Forall₂ L ds ys ∧ Explained ctx g₀ s' L := by
  induction h with
  | nil => exact ⟨fun _ _ => False, .nil, fun _ _ hxy => hxy.elim⟩
  | cons hd hrest ih =>
      rw [List.forall_mem_cons] at hds
      obtain ⟨hrun, hjust⟩ := hd
      have hgrows := hrun.grows hs
      have hgrows' := Resolves.grows_threads hrest hgrows.tidy
      have hlimit₁ := hgrows'.records.limitReported_eq_false hlimit
      obtain ⟨L, hL, hexp⟩ := hjust hs hg₀ hds.1 hlimit₁
      obtain ⟨L', hL', hexp'⟩ := ih hgrows.tidy
        (hg₀.trans hgrows.nodes) hds.2 hlimit
      refine ⟨_, .cons (.inl hL) (hL'.imp fun _ _ => .inr),
        (hexp.grows hgrows').union hexp'⟩

-- =============================================================== a frame

/-- The pairs of a frame's parts, once the frame ends. If it was given
an id then this is the one of its result, which is made by now. -/
theorem Explained.leave {s : State} (h : Explained ctx g₀ s L)
    {declared id : TypeId} {slot : Option TypeId} {frames : List Frame}
    {work : Workspace} (hcons : s.frames = ⟨declared, slot⟩ :: frames)
    (hkept : ∀ j node, s.graph.node? j = some node →
      node.kind.isLeaf = false → work.types.graph.node? j = some node)
    (hslot : ∀ y, slot = some y → y = id ∧
      Made ctx.env g₀ work.types.graph L declared id)
    (hL : ∀ a b, L a b → L' a b) {x y : TypeId} (hxy : L x y) :
    Explains ctx g₀ { work, frames } L' x y := by
  refine ⟨(h x y hxy).results, (h x y hxy).made.bind hL ?_⟩
  rintro a b (hmem | hmade)
  · rw [hcons] at hmem
    rcases List.mem_cons.mp hmem with heq | hmem
    · -- the frame that ended
      cases heq
      obtain ⟨rfl, hmade⟩ := hslot b rfl
      exact .made (.inr (hmade.mono (fun _ _ hn _ => hn) hL))
    · exact .made (.inl hmem)
  · exact .made (.inr (hmade.mono hkept hL))

/-- The result of a frame that ends is explained with those of its
parts. -/
theorem Explained.close {s : State} (h : Explained ctx g₀ s L)
    {declared id : TypeId} {slot : Option TypeId} {frames : List Frame}
    {work : Workspace} (hcons : s.frames = ⟨declared, slot⟩ :: frames)
    (hkept : ∀ j node, s.graph.node? j = some node →
      node.kind.isLeaf = false → work.types.graph.node? j = some node)
    (hresult : Results ctx g₀ declared id)
    (hslot : ∀ y, slot = some y → y = id ∧
      Made ctx.env g₀ work.types.graph L declared id)
    (hmade : ∀ L', (∀ a b, L a b → L' a b) →
      (∀ a b, L a b →
        Collapses g₀ L' (Begun ctx g₀ { work, frames } L') a b) →
      Collapses g₀ L' (Begun ctx g₀ { work, frames } L') declared id) :
    ∃ L' : TypeId → TypeId → Prop, L' declared id ∧
      Explained ctx g₀ { work, frames } L' := by
  let L' x y := L x y ∨ x = declared ∧ y = id
  have hLL' : ∀ a b, L a b → L' a b := fun _ _ => .inl
  have hparts : ∀ a b, L a b → Explains ctx g₀ { work, frames } L' a b :=
    fun _ _ hab => h.leave hcons hkept hslot hLL' hab
  refine ⟨L', .inr ⟨rfl, rfl⟩, ?_⟩
  rintro x y (hxy | ⟨rfl, rfl⟩)
  · exact hparts x y hxy
  · exact ⟨hresult, hmade L' hLL' fun a b hab => (hparts a b hab).made⟩

theorem rebuiltNode_copies {x : TypeId} {node : Node}
    {parts : List TypeId} {keeps : Bool}
    (hparts : List.Forall₂ L node.kind.children parts)
    (hkeeps : keeps = true ↔ node.name.isSome = true ∧ g.MarkerFree x) :
    Copies g L x node (rebuiltNode node keeps parts) where
  kind := ⟨_, Kind.alike_withChildren hparts, rebuiltKind_eq _ _⟩
  flags := rfl
  named := by
    intro hnamed
    have hk : keeps = true := hkeeps.mpr hnamed
    subst hk
    exact ⟨rfl, rfl⟩
  unnamed := by
    intro hnamed
    have hk : keeps = false :=
      Bool.eq_false_iff.mpr fun hk => hnamed (hkeeps.mp hk)
    subst hk
    exact ⟨rfl, rfl⟩

/-- Only a union is rebuilt as one, of its parts without repetitions. -/
theorem union_of_rebuiltNode {node : Node} {keeps : Bool}
    {parts members : List TypeId}
    (h : (rebuiltNode node keeps parts).kind = .union members) :
    (∃ declared, node.kind = .union declared) ∧
      members = parts.eraseDups := by
  change rebuiltKind node.kind parts = _ at h
  cases hkind : node.kind with
  | union declared =>
      rw [hkind] at h
      exact ⟨⟨declared, rfl⟩, (Kind.union.inj h).symm⟩
  | leaf | array | tuple | map | record | error | stream | table
  | function | object | typedesc | xml =>
      rw [hkind] at h
      cases h

/-- A union that is left with one member has members, and the result of
each is that member. -/
theorem members_of_rebuilt_union {node : Node} {keeps : Bool}
    {parts : List TypeId} {member : TypeId}
    (hparts : List.Forall₂ L node.kind.children parts)
    (hone : (rebuiltNode node keeps parts).kind = .union [member]) :
    ∃ members, node.kind = .union members ∧ members ≠ [] ∧
      ∀ m ∈ members, L m member := by
  obtain ⟨⟨members, hkind⟩, hmember⟩ := union_of_rebuiltNode hone
  rw [hkind] at hparts
  have hall : ∀ p ∈ parts, p = member := by
    intro p hp
    rw [← List.mem_eraseDups, ← hmember] at hp
    exact List.mem_singleton.mp hp
  refine ⟨members, hkind, ?_, fun m hm => ?_⟩
  · rintro rfl
    cases hparts
    cases hmember
  · obtain ⟨p, hp, hmp⟩ := exists_mem_of_forall₂ hparts hm
    exact hall p hp ▸ hmp

-- ============================================================= all levels

/-- A type that stands for itself does so in a larger graph. -/
theorem standsForItself_iff (hg₀ : g₀.Closed) (hext : g₀.Extends g)
    {d : TypeId} (hd : d.index < g₀.size) (node : Node) :
    StandsForItself g d node ↔ StandsForItself g₀ d node := by
  unfold StandsForItself
  rw [Graph.markerFree_extends_iff hg₀.closedOn hext hd]

/-- A frame without an id has none afterwards either, unless its type is
needed for the one that was resolved meanwhile. -/
def Spares (g₀ : Graph) (d : TypeId) (s : State) (_ : TypeId)
    (s' : State) : Prop :=
  s.Tidy → g₀.Extends s.graph → d.index < g₀.size →
    ∀ x, ⟨x, none⟩ ∈ s.frames →
      ⟨x, none⟩ ∈ s'.frames ∨ ReflTransGen (Needs g₀) d x

theorem Spares.threads {ds ys : List TypeId} {s s' : State}
    (h : Threads (fun d s y s' =>
      Resolves ctx d s y s' ∧ Spares g₀ d s y s') ds s ys s')
    (hs : s.Tidy) (hg₀ : g₀.Extends s.graph)
    (hds : ∀ d ∈ ds, d.index < g₀.size) {x : TypeId}
    (hx : ⟨x, none⟩ ∈ s.frames) :
    ⟨x, none⟩ ∈ s'.frames ∨ ∃ d ∈ ds, ReflTransGen (Needs g₀) d x := by
  induction h with
  | nil => exact .inl hx
  | cons hd _ ih =>
      rw [List.forall_mem_cons] at hds
      obtain ⟨hrun, hspares⟩ := hd
      have hgrows := hrun.grows hs
      rcases hspares hs hg₀ hds.1 x hx with hx | hneeds
      · rcases ih hgrows.tidy (hg₀.trans hgrows.nodes) hds.2 hx with
          hx | ⟨d, hd, hneeds⟩
        · exact .inl hx
        · exact .inr ⟨d, List.mem_cons_of_mem _ hd, hneeds⟩
      · exact .inr ⟨_, List.mem_cons_self, hneeds⟩

/-- A type that is met again is given an id. Other types keep theirs, or
have none. -/
theorem spares_of_cycleSlot {d id x : TypeId} {s s' : State}
    (hs : s.Tidy) (hopen : ∃ f ∈ s.frames, f.declared = d)
    (h : cycleSlot d s = .ok id s') (hx : ⟨x, none⟩ ∈ s.frames) :
    ⟨x, none⟩ ∈ s'.frames ∨ d = x := by
  rcases cycleSlot_cases hs hopen h with ⟨rfl, -⟩ | ⟨-, -, rfl⟩
  · exact .inl hx
  · by_cases hd : x = d
    · exact .inr hd.symm
    · exact .inl (List.mem_map.mpr ⟨_, hx, if_neg hd⟩)

/-- Every resolved type spares the frames of types that it does not
need. -/
theorem Resolves.spares (hg₀ : g₀.Closed) {declared y : TypeId}
    {s s' : State} (h : Resolves ctx declared s y s') :
    Spares g₀ declared s y s' := by
  refine resolve_induction (motive := Spares g₀) ?_ h
  intro d node s y s' hn _ hend hs hext hd x hx
  have hnode : g₀.node? d = some node := (hext.node?_eq hd).symm.trans hn
  have hchild : ∀ c ∈ node.kind.children, c.index < g₀.size :=
    hg₀.closedOn.child hd hnode
  -- what the parts need, the type needs
  have hrebuilt : ∀ {parts s₁ slot s₂}, node.markerKey? = none →
      (∀ f ∈ s.frames, f.declared ≠ d) →
      ¬ StandsForItself s.graph d node →
      Threads (fun d s y s' => Resolves ctx d s y s' ∧ Spares g₀ d s y s')
        node.kind.children { s with frames := { declared := d } :: s.frames }
        parts s₁ →
      leave s₁ = .ok slot s₂ →
      ⟨x, none⟩ ∈ s₂.frames ∨ ReflTransGen (Needs g₀) d x := by
    intro parts s₁ slot s₂ hkey hopen hself hthreads hleave
    have htidy := hs.enter hopen hn hself
    have hgrows := Resolves.grows_threads hthreads htidy
    obtain ⟨frames, hcons, rfl, -, -⟩ := hgrows.leave hleave
    have hself₀ := mt (standsForItself_iff hg₀ hext hd node).mpr hself
    rcases Spares.threads hthreads htidy hext hchild
      (List.mem_cons_of_mem _ hx) with hx' | ⟨c, hc, hneeds⟩
    · rw [hcons] at hx'
      rcases List.mem_cons.mp hx' with heq | hx'
      · cases heq
        exact absurd rfl (hopen _ hx)
      · exact .inl hx'
    · exact .inr (.head ⟨node, hnode, hkey, hself₀, hc⟩ hneeds)
  cases hend with
  | bound | itself | stopped => exact .inl hx
  | @again work id s' _ hopen htell hslot =>
      have htold : Grows s { s with work } :=
        .of_eq hs htell.types rfl htell.records
      rcases spares_of_cycleSlot htold.tidy hopen hslot hx with hx | rfl
      · exact .inl hx
      · exact .inr .refl
  | collapsed hkey hopen hself hthreads hleave _ =>
      exact hrebuilt hkey hopen hself hthreads hleave
  | placed hkey hopen hself _ hthreads hleave _ _ =>
      have hdone := hrebuilt hkey hopen hself hthreads hleave
      exact hdone

/-- A frame that was given an id is one for a type that is needed for
itself. -/
theorem needs_of_slot (hg₀ : g₀.Closed) {d id : TypeId} {node : Node}
    {parts : List TypeId} {frames : List Frame} {s s₁ : State}
    (hext : g₀.Extends s.graph) (hd : d.index < g₀.size)
    (hnode : g₀.node? d = some node) (hkey : node.markerKey? = none)
    (hself : ¬ StandsForItself g₀ d node)
    (htidy : ({ s with frames := { declared := d } :: s.frames } :
      State).Tidy)
    (hthreads : Threads (Resolves ctx) node.kind.children
      { s with frames := { declared := d } :: s.frames } parts s₁)
    (hcons : s₁.frames = ⟨d, some id⟩ :: frames) :
    TransGen (Needs g₀) d d := by
  have hgrows := Grows.threads (fun _ _ _ _ hrun hs => hrun.grows hs)
    hthreads htidy
  rcases Spares.threads (hthreads.mono fun _ _ _ _ hrun =>
      ⟨hrun, hrun.spares hg₀⟩) htidy hext
      (hg₀.closedOn.child hd hnode) List.mem_cons_self with
    hmem | ⟨c, hc, hneeds⟩
  · -- two frames would be for the same type
    have htop : (⟨d, some id⟩ : Frame) ∈ s₁.frames := by
      rw [hcons]
      exact List.mem_cons_self
    have heq := hgrows.tidy.frame_eq hmem htop rfl
    cases heq
  · exact .head' ⟨node, hnode, hkey, hself, hc⟩ hneeds

/-- Every resolved type is justified. -/
theorem Resolves.justified (hg₀ : g₀.Closed) {declared y : TypeId}
    {s s' : State} (h : Resolves ctx declared s y s') :
    Justified ctx g₀ declared s y s' := by
  refine resolve_induction (motive := Justified ctx g₀) ?_ h
  intro d node s y s' hn hrun hend hs hext hd hlimit
  have hnode : g₀.node? d = some node := (hext.node?_eq hd).symm.trans hn
  have hresult : Results ctx g₀ d y := ⟨s, s', hs, hext, hrun⟩
  have hstands := standsForItself_iff hg₀ hext hd node
  have hchild : ∀ c ∈ node.kind.children, c.index < g₀.size :=
    hg₀.closedOn.child hd hnode
  cases hend with
  | bound hkey =>
      exact Explained.single hresult fun _ => .inr (.bound hnode hkey)
  | itself hkey _ hself =>
      exact Explained.single hresult fun _ =>
        .inr (.itself hnode hkey (hstands.mp hself))
  | stopped _ _ _ hmet _ =>
      rw [hmet] at hlimit
      cases hlimit
  -- the result is the id that the open frame has by now
  | @again work id s' _ hopen htell hslot =>
      have htold : Grows s { s with work } :=
        .of_eq hs htell.types rfl htell.records
      exact Explained.single hresult fun _ =>
        .inl (mem_of_cycleSlot htold.tidy hopen hslot)
  | @collapsed keeps parts s₁ s₂ _ hkey hopen hself hthreads hleave hone =>
      have htidy := hs.enter hopen hn hself
      have hgrows := Resolves.grows_threads hthreads htidy
      obtain ⟨frames, hcons, rfl, -, -⟩ := hgrows.leave hleave
      obtain ⟨L, hL, hexp⟩ :=
        Justified.threads hthreads htidy hext hchild hlimit
      obtain ⟨members, hkind, hsome, hmembers⟩ :=
        members_of_rebuilt_union hL hone
      refine hexp.close hcons (fun _ _ hn _ => hn) hresult ?_ ?_
      · intro j hj
        cases hj
      · intro L' hLL' hparts
        exact .union hnode hkey hkind hsome
          (fun m hm => hLL' _ _ (hmembers m hm))
          fun m hm => hparts _ _ (hmembers m hm)
  | @placed keeps parts s₁ s₂ slot _ work hkey hopen hself hkeeps hthreads
      hleave hmany hplace =>
      have htidy := hs.enter hopen hn hself
      have hgrows := Resolves.grows_threads hthreads htidy
      obtain ⟨hplaced, hle, hgrows'⟩ := hgrows.place hleave hplace
      obtain ⟨frames, hcons, rfl, -, -⟩ := hgrows.leave hleave
      have hlimit₁ := hplaced.records.limitReported_eq_false hlimit
      obtain ⟨L, hL, hexp⟩ :=
        Justified.threads hthreads htidy hext hchild hlimit₁
      have hself₀ := mt hstands.mpr hself
      have hkeeps₀ : keeps = true ↔
          node.name.isSome = true ∧ g₀.MarkerFree d := by
        rw [hkeeps, Graph.markerFree_extends_iff hg₀.closedOn hext hd]
      have hcopy : work.types.graph.node? y
          = some (rebuiltNode node keeps parts) :=
        (hplaced.node? y).trans (if_pos rfl)
      -- a union that was placed with one member had been given an id, so
      -- the declared one is needed by itself
      have hagain : ∀ m, (rebuiltNode node keeps parts).kind = .union [m] →
          TransGen (Needs g₀) d d := by
        intro m hm
        cases slot with
        | none => exact absurd hm (hmany rfl m)
        | some id =>
            exact needs_of_slot hg₀ hext hd hnode hkey hself₀ htidy
              (hthreads.mono fun _ _ _ _ hpart => hpart.1) hcons
      have hmade : Made ctx.env g₀ work.types.graph L d y :=
        .copied hnode hkey hself₀ (Nat.le_trans hext.size_le hle) hcopy
          (rebuiltNode_copies hL hkeeps₀) hagain
      refine hexp.close hcons (hplaced.kept ?_) hresult ?_ ?_
      · exact fun hid => (hgrows.tidy.top_reserved hcons hid).2.2
      · intro j hj
        rcases hplaced.slot_eq with hid | ⟨hnone, -⟩
        · exact ⟨Option.some.inj (hj.symm.trans hid), hmade⟩
        · rw [hnone] at hj
          cases hj
      · intro L' hLL' _
        exact .made (.inr (hmade.mono (fun _ _ hn _ => hn) hLL'))

end TypeParams.Instantiation

namespace TypeParams.Resolution

open Instantiation

-- ================================================================ results

/-- An instantiation within the limit gives a simulation between types
and their results. -/
theorem instantiate_simulates {r r' : Resolution}
    (hg : r.types.graph.Closed) {d y : TypeId}
    (hd : d.index < r.types.graph.size) {span : Span}
    (h : instantiate d span r = .ok y r') (hlimit : r.WithinLimit r') :
    ∃ Sim : TypeId → TypeId → Prop, Sim d y ∧
      ∀ x y, Sim x y →
        Results ⟨r.env, r.config, span⟩ r.types.graph x y ∧
        Substituted r.env r.types.graph r'.types.graph Sim x y := by
  obtain ⟨s, hrun, rfl⟩ := instantiate_run h
  have hgrows := hrun.grows r.instantiation_tidy
  obtain ⟨Sim, hdy, hexp⟩ := hrun.justified hg r.instantiation_tidy
    (.refl _) hd (hlimit.limitReported hgrows.records)
  -- no frame is left open
  have hframes : s.frames = [] :=
    List.forall₂_nil_left_iff.mp hgrows.frames
  refine ⟨Sim, hdy, fun x y hxy => ⟨(hexp x y hxy).results, ?_⟩⟩
  refine (hexp x y hxy).made.bind (fun _ _ hab => hab) ?_
  rintro a b (hmem | hmade)
  · rw [hframes] at hmem
    cases hmem
  · exact .made hmade

/-- Instantiation is substitution. A declared type of a closed graph can
be instantiated whatever the bindings are, and unless the last level was
met the result is made from the declared type by replacing parameters by
what they are bound to: there is a simulation that relates the two. -/
theorem instantiate_substitutes (r : Resolution)
    (hg : r.types.graph.Closed) {d : TypeId}
    (hd : d.index < r.types.graph.size) (span : Span) :
    ∃ y r', instantiate d span r = .ok y r' ∧
      r.types.graph.Extends r'.types.graph ∧
      (r.WithinLimit r' →
        ∃ Sim : TypeId → TypeId → Prop, Sim d y ∧
          ∀ x y, Sim x y →
            Substituted r.env r.types.graph r'.types.graph Sim x y) := by
  obtain ⟨y, r', hrun⟩ := instantiate_succeeds hg.closedOn hd span
  refine ⟨y, r', hrun, (instantiate_grows hrun).2, fun hlimit => ?_⟩
  obtain ⟨Sim, hdy, hsim⟩ := instantiate_simulates hg hd hrun hlimit
  exact ⟨Sim, hdy, fun x y hxy => (hsim x y hxy).2⟩

/-- A parameter (21), a chain of records of its type (22, 23), a union
that the binding makes collapse (24), one that is a member of itself
(25), and a tuple of the three (26). -/
def chained : Resolution where
  checker := .structural
  config := .default
  types := .on { graph := ⟨Graph.builtin.nodes ++ #[
    .marker "T" ⟨1⟩ (.leaf .anydata),
    .named "Node" ⟨1⟩ (.record {
      fields := [{ name := "value", type := ⟨21⟩ },
        { name := "next", type := ⟨23⟩ }]
      isSealed := true }),
    .anonymous (.union [⟨22⟩, .nil]),
    .anonymous (.union [⟨21⟩, .int]),
    .anonymous (.union [⟨25⟩, .int]),
    .anonymous (.tuple [⟨22⟩, ⟨24⟩, ⟨25⟩] none)]⟩ }
  env := ⟨[⟨⟨⟨1⟩, "T"⟩, ⟨21⟩, .int⟩]⟩

/-- The chain is closed by an id handed out before it is defined. So is
the union that is a member of itself: its result is new, and not the
integers that its other member stays. -/
theorem chained_substituted :
    chained.types.graph.Closed ∧ (26 : Nat) < chained.types.graph.size ∧
      ∃ y r', instantiate ⟨26⟩ .null chained = .ok y r' ∧
        chained.WithinLimit r' ∧
        ∃ Sim : TypeId → TypeId → Prop, Sim ⟨26⟩ y ∧
          (∀ x y, Sim x y → Substituted chained.env chained.types.graph
            r'.types.graph Sim x y) ∧
          ∀ y, Sim ⟨25⟩ y → chained.types.graph.size ≤ y.index := by
  have hg : chained.types.graph.Closed := by decide
  have hd : (TypeId.mk 26).index < chained.types.graph.size := by decide
  have hnode : chained.types.graph.node? ⟨25⟩
      = some (.anonymous (.union [⟨25⟩, .int])) := rfl
  obtain ⟨y, r', hrun, -, hsim⟩ :=
    instantiate_substitutes chained hg hd .null
  have hlimit : chained.WithinLimit r' := by
    have hdecided : endsWith (fun _ r' => decide (chained.WithinLimit r'))
        (instantiate ⟨26⟩ .null chained) = true := by decide +kernel
    rw [hrun] at hdecided
    exact of_decide_eq_true hdecided
  obtain ⟨Sim, hdy, hsim⟩ := hsim hlimit
  refine ⟨hg, hd, y, r', hrun, hlimit, Sim, hdy, hsim, fun z hz => ?_⟩
  have hmade := (hsim _ z hz).made_of_member
    ⟨_, _, hnode, rfl, List.mem_cons_self⟩
  cases hmade with
  | bound hnode' hkey =>
      rw [hnode] at hnode'
      cases hnode'
      cases hkey
  | itself hnode' _ hself =>
      rw [hnode] at hnode'
      cases hnode'
      simp [StandsForItself, Node.anonymous, Kind.isLeaf] at hself
  | copied _ _ _ hnew => exact hnew

end TypeParams.Resolution
