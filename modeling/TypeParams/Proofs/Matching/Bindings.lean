/-
Which parameters a match binds.

A match adds bindings at the end of those that are there, and only for
parameters that have none. Each is of a marker that the declared type
reaches, is known by what that marker is known by, and is of a type that
is not missing. `Bindings.Grows` says all this of the bindings before
and after; it composes, and passes from a part of a type to the type.

# What a match meets

That a match only meets what the declared type reaches is read off the
plans: a plan opposes parts of the declared type to other types
(`plan_expected`). `Pairs` says so of pairings, with one lemma for each
way in which a plan makes them. Nothing is asked of the graph here,
which may have ids without nodes in it, nor of the actual type.

# Bindings are found

Bindings are looked up from the front, and a parameter has one at most
(`Bindings.Distinct`), so every binding is found by its parameter and
stays found when more are added. A match keeps this, since it binds only
what it has not found.
-/
import TypeParams.Proofs.Kind
import TypeParams.Proofs.Matching.Additions

namespace TypeParams

namespace Bindings

variable {env env' env'' : Bindings} {key : MarkerKey} {b : Binding}

-- ============================================================= bindings

/-- No two bindings are of one parameter. -/
def Distinct (env : Bindings) : Prop := (env.entries.map (·.key)).Nodup

/-- A parameter is unbound if no binding is of it. -/
theorem lookup?_eq_none_iff :
    env.lookup? key = none ↔ ∀ b ∈ env.entries, b.key ≠ key := by
  simp [lookup?, List.find?_eq_none]

/-- Every binding is found. -/
theorem Distinct.lookup? (h : env.Distinct) (hb : b ∈ env.entries) :
    env.lookup? b.key = some b.bound := by
  rw [Bindings.lookup?, find?_of_nodup h hb]
  rfl

/-- Bindings stay distinct when an unbound parameter is bound. -/
theorem Distinct.add (h : env.Distinct)
    (hfree : env.lookup? b.key = none) : (env.add b).Distinct := by
  rw [lookup?_eq_none_iff] at hfree
  rw [Distinct, Bindings.add, List.map_append]
  refine List.nodup_append.mpr ⟨h, by simp, ?_⟩
  intro key hkey key' hkey'
  obtain ⟨own, hown, rfl⟩ := List.mem_map.mp hkey
  rw [List.map_singleton, List.mem_singleton] at hkey'
  rw [hkey']
  exact hfree own hown

/-- What is found is found after more has been added. -/
theorem lookup?_of_append {added : List Binding} {bound : TypeId}
    (hentries : env'.entries = env.entries ++ added)
    (h : env.lookup? key = some bound) :
    env'.lookup? key = some bound := by
  obtain ⟨own, hown, rfl⟩ := Option.map_eq_some_iff.mp h
  rw [Bindings.lookup?, hentries, List.find?_append, hown, Option.some_or]
  rfl

-- =============================================================== growth

/-- A binding that was made on behalf of a declared type. -/
structure MadeFor (g : Graph) (declared : TypeId) (b : Binding) :
    Prop where
  reached : g.Reaches declared b.marker
  marked : ∃ node, g.node? b.marker = some node ∧
    node.markerKey? = some b.key
  present : b.bound ≠ .noType

/-- Bindings before and after, on behalf of a declared type, in a graph
that grows as well. -/
structure Grows (declared : TypeId) (g : Graph) (env : Bindings)
    (g' : Graph) (env' : Bindings) : Prop where
  graph : g.Extends g'
  entries : ∃ added, env'.entries = env.entries ++ added ∧
    ∀ b ∈ added, MadeFor g' declared b
  distinct : env.Distinct → env'.Distinct

variable {g g' g'' : Graph} {declared part : TypeId}

/-- A binding was made for the declared type in any larger graph too. -/
theorem MadeFor.extends (h : MadeFor g declared b) (hgg' : g.Extends g') :
    MadeFor g' declared b := by
  obtain ⟨node, hn, hkey⟩ := h.marked
  exact ⟨h.reached.extends hgg', ⟨node, hgg' _ _ hn, hkey⟩, h.present⟩

/-- No binding is added. -/
theorem Grows.same (hgg' : g.Extends g') : Grows declared g env g' env :=
  ⟨hgg', ⟨[], (List.append_nil _).symm, fun b hb => by cases hb⟩, id⟩

/-- What two matches bind on behalf of a type, one after the other. -/
theorem Grows.trans (h : Grows declared g env g' env')
    (h' : Grows declared g' env' g'' env'') :
    Grows declared g env g'' env'' := by
  obtain ⟨added, hentries, hadded⟩ := h.entries
  obtain ⟨added', hentries', hadded'⟩ := h'.entries
  refine ⟨h.graph.trans h'.graph, ⟨added ++ added', ?_, ?_⟩,
    fun hd => h'.distinct (h.distinct hd)⟩
  · rw [hentries', hentries, List.append_assoc]
  · rw [List.forall_mem_append]
    exact ⟨fun b hb => (hadded b hb).extends h'.graph, hadded'⟩

/-- What is made for a part is made for the whole. -/
theorem Grows.of_reaches (hpart : g'.Reaches declared part)
    (h : Grows part g env g' env') : Grows declared g env g' env' := by
  obtain ⟨added, hentries, hadded⟩ := h.entries
  refine ⟨h.graph, ⟨added, hentries, fun b hb => ?_⟩, h.distinct⟩
  obtain ⟨hreached, hmarked, hpresent⟩ := hadded b hb
  exact ⟨hpart.trans hreached, hmarked, hpresent⟩

end Bindings

namespace Matching

open Bindings (Grows)

variable {g : Graph} {variance : Variance} {parts : List TypeId}

-- ============================================================== pairings

/-- The pairings are of parts of a declared type. -/
def Pairs (parts : List TypeId) (pairings : List Pairing) : Prop :=
  ∀ p ∈ pairings, p.expected ∈ parts

theorem Pairs.nil : Pairs parts [] := by
  intro p hp
  cases hp

/-- One more pairing, of a part. -/
theorem Pairs.cons {pairing : Pairing} {pairings : List Pairing}
    (hpart : pairing.expected ∈ parts) (h : Pairs parts pairings) :
    Pairs parts (pairing :: pairings) :=
  List.forall_mem_cons.mpr ⟨hpart, h⟩

/-- Pairings of one list and of another. -/
theorem Pairs.append {pairings pairings' : List Pairing}
    (h : Pairs parts pairings) (h' : Pairs parts pairings') :
    Pairs parts (pairings ++ pairings') :=
  List.forall_mem_append.mpr ⟨h, h'⟩

/-- The parts may be among more parts. -/
theorem Pairs.mono {parts' : List TypeId} {pairings : List Pairing}
    (h : Pairs parts pairings) (hsub : parts ⊆ parts') :
    Pairs parts' pairings :=
  fun p hp => hsub (h p hp)

/-- Parts taken side by side with other types. -/
theorem pairs_zipWith {types actual : List TypeId} :
    Pairs types (types.zipWith (pair variance) actual) := by
  induction types generalizing actual with
  | nil => exact .nil
  | cons c types ih =>
      cases actual with
      | nil => exact .nil
      | cons a actual =>
          exact .cons List.mem_cons_self
            (ih.mono (List.subset_cons_self c types))

/-- Rest against rest. -/
theorem pairs_rests {rest actual : Option TypeId} :
    Pairs rest.toList (pairRests variance rest actual) := by
  cases rest with
  | none => exact .nil
  | some rest =>
      cases actual with
      | none => exact .nil
      | some a => exact .cons List.mem_cons_self .nil

/-- Parts that are paired by name, where the name is found. -/
theorem pairs_named {α : Type} {type : α → TypeId} {as bs : List α}
    {matching : α → α → Bool} :
    Pairs (as.map type) (as.filterMap fun a =>
      (bs.find? (matching a)).map fun b =>
        pair variance (type a) (type b)) := by
  intro p hp
  obtain ⟨a, ha, hp⟩ := List.mem_filterMap.mp hp
  obtain ⟨b, -, rfl⟩ := Option.map_eq_some_iff.mp hp
  exact List.mem_map_of_mem ha

/-- A part against the union of several types. -/
theorem pairs_union {expected : TypeId} {found : List TypeId}
    (hpart : expected ∈ parts) {pairings : List Pairing}
    (hplan : pairUnion variance expected found = .pairs pairings) :
    Pairs parts pairings := by
  unfold pairUnion at hplan
  cases hplan
  by_cases hempty : found.isEmpty = true
  · rw [if_pos hempty]
    exact .nil
  · rw [if_neg hempty]
    exact .cons hpart .nil

/-- A plan pairs parts of the declared type. -/
theorem plan_expected {checker : Checker} {maxDepth : Nat}
    {expected actual : TypeId} {node : Node} {actualKind : Kind}
    (hnode : g.node? expected = some node) {pairings : List Pairing}
    (h : plan g checker maxDepth variance expected node.kind actual
      actualKind = .ok (.pairs pairings)) :
    Pairs node.kind.children pairings := by
  have hinner : ∀ inner, g.withoutNil? expected = .ok (some inner) →
      inner ∈ node.kind.children :=
    fun inner hinner => Graph.mem_of_withoutNil? hnode hinner
  generalize node.kind = kind at hinner h ⊢
  unfold plan at h
  split at h
  next element actualElement =>
    cases pure_eq_ok.mp h
    exact .cons List.mem_cons_self .nil
  next element members rest =>
    cases pure_eq_ok.mp h
    exact .cons List.mem_cons_self .nil
  next element members =>
    obtain ⟨kinds, -, h⟩ := bind_eq_ok.mp h
    exact pairs_union List.mem_cons_self (pure_eq_ok.mp h)
  next constraint actualConstraint =>
    cases pure_eq_ok.mp h
    exact .cons List.mem_cons_self .nil
  next constraint shape =>
    obtain ⟨source, -, h⟩ := bind_eq_ok.mp h
    cases pure_eq_ok.mp h
    exact .cons List.mem_cons_self .nil
  next constraint completion actualConstraint actualCompletion =>
    cases pure_eq_ok.mp h
    refine .cons List.mem_cons_self fun p hp => ?_
    obtain ⟨c, hc, rfl⟩ := List.mem_map.mp hp
    exact List.mem_cons_of_mem _ hc
  next constraint completion members =>
    obtain ⟨kinds, -, h⟩ := bind_eq_ok.mp h
    by_cases hempty : (kinds.filterMap streamParts?).isEmpty = true
    · rw [if_pos hempty] at h
      cases pure_eq_ok.mp h
      exact .nil
    · rw [if_neg hempty] at h
      cases pure_eq_ok.mp h
      refine .cons List.mem_cons_self fun p hp => ?_
      obtain ⟨c, hc, rfl⟩ := List.mem_map.mp hp
      exact List.mem_cons_of_mem _ hc
  next shape actualShape =>
    cases pure_eq_ok.mp h
    refine .cons List.mem_cons_self fun p hp => ?_
    obtain ⟨key, hkey, rfl⟩ := List.mem_map.mp hp
    exact List.mem_cons_of_mem _ hkey
  next members rest actualMembers actualRest =>
    cases pure_eq_ok.mp h
    exact (pairs_zipWith.mono (List.subset_append_left _ _)).append
      (pairs_rests.mono (List.subset_append_right _ _))
  next members actualMembers =>
    obtain ⟨inner, hlook, h⟩ := bind_eq_ok.mp h
    obtain ⟨actualInner, -, h⟩ := bind_eq_ok.mp h
    split at h
    · cases pure_eq_ok.mp h
      exact .cons (hinner _ hlook) .nil
    · cases pure_eq_ok.mp h
  next shape actualShape =>
    cases pure_eq_ok.mp h
    exact pairs_named.mono (List.subset_append_left _ _)
  next signature actualSignature =>
    cases pure_eq_ok.mp h
    refine Pairs.append (.append ?_ ?_) (.cons ?_ .nil)
    · exact pairs_zipWith.mono (List.subset_append_of_subset_left _
        (List.subset_append_left _ _))
    · exact pairs_rests.mono (List.subset_append_of_subset_left _
        (List.subset_append_right _ _))
    · exact List.mem_append_right _ List.mem_cons_self
  next shape actualShape =>
    cases pure_eq_ok.mp h
    exact (pairs_named.mono (List.subset_append_left _ _)).append
      (pairs_named.mono (List.subset_append_right _ _))
  next detail actualKind =>
    unfold planError at h
    by_cases htop : expected = .error
    · rw [if_pos htop] at h
      cases pure_eq_ok.mp h
      exact .nil
    · rw [if_neg htop] at h
      split at h
      next actualDetail =>
        cases pure_eq_ok.mp h
        exact .cons List.mem_cons_self .nil
      next members =>
        obtain ⟨errors, -, h⟩ := bind_eq_ok.mp h
        cases errors with
        | true =>
            cases pure_eq_ok.mp h
            exact .cons List.mem_cons_self .nil
        | false => cases pure_eq_ok.mp h
      next => cases pure_eq_ok.mp h
  next constraint actualConstraint =>
    obtain ⟨content, -, h⟩ := bind_eq_ok.mp h
    cases pure_eq_ok.mp h
    exact .cons List.mem_cons_self .nil
  next constraint item =>
    cases pure_eq_ok.mp h
    exact .cons List.mem_cons_self .nil
  next constraint members =>
    obtain ⟨found, -, h⟩ := bind_eq_ok.mp h
    exact pairs_union List.mem_cons_self (pure_eq_ok.mp h)
  next constraint actualConstraint =>
    cases pure_eq_ok.mp h
    exact .cons List.mem_cons_self .nil
  next => cases pure_eq_ok.mp h

-- =============================================================== matches

variable {ctx : Context}

/-- Making an actual type changes no node. -/
theorem Source.resolve_extends {source : Source} {w w' : Workspace}
    {actual : Option TypeId} (h : source.resolve w = .ok actual w') :
    w.types.graph.Extends w'.types.graph := by
  cases source with
  | given id =>
      cases h
      exact .refl _
  | unionOf ids =>
      obtain ⟨id, w₁, hunion, h⟩ := bind_run.mp h
      cases h
      obtain ⟨types, hmade, rfl⟩ := WorkM.unionOf_run.mp hunion
      obtain ⟨members, -, ⟨-, rfl⟩ | ⟨-, rfl⟩ | ⟨-, rfl⟩⟩ :=
        Layer.unionOf_cases hmade
      · exact .refl _
      · exact .refl _
      · rw [Layer.graph_alloc_eq]
        exact Graph.extends_push _ _
  | keyOf table =>
      cases resolve_keyOf h with
      | unknown | given | single => exact .refl _
      | several =>
          rw [Layer.graph_alloc_eq]
          exact Graph.extends_push _ _

/-- The bindings of two states, on behalf of a declared type. -/
def Binds (declared : TypeId) (s s' : State) : Prop :=
  Grows declared s.graph s.env s'.graph s'.env

/-- Where only the workspace changes, and not its types. -/
theorem Binds.of_types {declared : TypeId} {s : State} {work : Workspace}
    (htypes : work.types = s.work.types) :
    Binds declared s { s with work } := by
  refine Grows.same ?_
  show s.work.types.graph.Extends work.types.graph
  rw [htypes]
  exact .refl _

/-- A marker that meets a type is bound to it, if to anything. -/
theorem MarkerEnding.grows {marker actual : TypeId} {key : MarkerKey}
    {node : Node} {s s' : State}
    (h : MarkerEnding ctx marker key actual variance s s')
    (hnode : s.graph.node? marker = some node)
    (hkey : node.markerKey? = some key) : Binds marker s s' := by
  cases h with
  | @binds work hfree hactual htell =>
      have htypes : work.types = s.work.types := htell.types
      refine ⟨?_, ⟨[⟨key, marker, actual⟩], rfl, ?_⟩, ?_⟩
      · show s.work.types.graph.Extends work.types.graph
        rw [htypes]
        exact .refl _
      · rw [List.forall_mem_singleton]
        refine ⟨.refl, ⟨node, ?_, hkey⟩, hactual⟩
        show work.types.graph.node? marker = some node
        rw [htypes]
        exact hnode
      · exact fun hdistinct => hdistinct.add hfree
  | agrees | skipped => exact .same (.refl _)
  | clashes _ _ _ hreport => exact .of_types hreport.types
  | uninferred _ _ hreport => exact .of_types hreport.types

/-- Pairings of parts of a type, one after the other. -/
theorem Binds.pairs {declared : TypeId} {node : Node}
    {pairings : List Pairing} {s s' : State}
    (h : Sweeps (PairMeets fun e a v s s' =>
      Matches ctx e a v s s' ∧ Binds e s s') pairings s s')
    (hnode : s.graph.node? declared = some node)
    (hparts : Pairs node.kind.children pairings) :
    Binds declared s s' := by
  induction h with
  | nil => exact .same (.refl _)
  | @cons pairing pairings s s₁ s₂ hmeets _ ih =>
      obtain ⟨hpart, hparts⟩ := List.forall_mem_cons.mp hparts
      obtain ⟨source, work, hresolve, hmatch⟩ := hmeets
      have hext := Source.resolve_extends hresolve
      have hmade : Binds declared s { s with work } := .same hext
      have hmet : Binds declared s s₁ := by
        cases source with
        | none =>
            cases hmatch
            exact hmade
        | some actual =>
            have hbinds : Binds pairing.expected { s with work } s₁ :=
              hmatch.2
            refine hmade.trans (hbinds.of_reaches (.step .refl ?_))
            exact ⟨node, hbinds.graph _ _ (hext _ _ hnode), hpart⟩
      exact hmet.trans (ih (hmet.graph _ _ hnode) hparts)

/-- A match makes bindings on behalf of the declared type. -/
theorem Matches.binds {expected actual : TypeId} {s s' : State}
    (h : Matches ctx expected actual variance s s') :
    Binds expected s s' := by
  refine match_induction
    (motive := fun expected _ _ s s' => Binds expected s s') ?_ h
  intro expected actual variance s s' hend
  cases hend with
  | again _ htell => exact .of_types htell.types
  | marker _ hnode hkey hmarker => exact hmarker.grows hnode hkey
  | missing _ _ _ _ _ hreports =>
      exact .of_types (types_of_reports hreports)
  | leaf => exact .same (.refl _)
  | stopped _ _ _ _ _ _ _ htypes => exact .of_types htypes
  | followed _ hnode _ _ _ _ hplan hfollows =>
      have hvisited : Binds expected s
          { s with visited := expected :: s.visited } := .same (.refl _)
      cases hfollows with
      | generalUnions htell =>
          exact hvisited.trans (Binds.of_types htell.types)
      | unpaired htell => exact hvisited.trans (Binds.of_types htell.types)
      | pairs hpairs =>
          exact hvisited.trans
            (Binds.pairs hpairs hnode (plan_expected hnode hplan))

end Matching

end TypeParams
