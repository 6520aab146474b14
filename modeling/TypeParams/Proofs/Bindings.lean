/-
What becomes of bindings while a call is resolved.

`Resolution.Sound` is the invariant: no two bindings are of one
parameter, each is known by what its marker is known by, and none is of
a missing type. Every call keeps it, whatever the checker says and
whatever the call reports, because the bindings a call makes are added
at the end (`Bindings.Grows`). So what a parameter is bound to never
changes once it is bound (`run_bindings`).

# One call

`Binds` says what a call does to the bindings, on behalf of its declared
type: those that were there are still there, in front, and each new one
is of a marker that the declared type reaches. It is read off the walks
behind the calls. Calls that instantiate add none (`Call.infers`).

# Runs

The invariant holds at the beginning, where nothing is bound, and is
carried along a run call by call. Nothing is asked of the graph, which
may have ids without nodes in it, nor of the arguments: a run that ends
in a fault has no state to speak of, and one that does not has the
invariant.
-/
import TypeParams.Proofs.Matching.Bindings
import TypeParams.Proofs.Resolution

namespace TypeParams.Resolution

open Bindings (Grows)

variable {r r' : Resolution}

-- ================================================================ calls

/-- The declared type that a call is about. -/
def Call.declared : Call → TypeId
  | .bindArgument declared _ _ => declared
  | .bindCall id _ _ => id
  | .instantiate declared _ => declared
  | .instantiateSignature id => id

/-- Whether the call infers parameters. -/
def Call.infers : Call → Bool
  | .bindArgument .. | .bindCall .. => true
  | .instantiate .. | .instantiateSignature _ => false

/-- The bindings of two resolutions, on behalf of a declared type. -/
def Binds (declared : TypeId) (r r' : Resolution) : Prop :=
  Grows declared r.types.graph r.env r'.types.graph r'.env

/-- A bound argument makes bindings on behalf of its declared type. -/
theorem bindArgument_binds {declared actual : TypeId} {span : Span}
    (h : bindArgument declared actual span r = .ok () r') :
    Binds declared r r' := by
  rcases bindArgument_eq_ok.mp h with ⟨-, rfl⟩ | ⟨-, hmatch⟩
  · exact .same (.refl _)
  · obtain ⟨s, hrun, rfl⟩ := matchArgument_eq_ok.mp hmatch
    exact (Matching.Matches.binds ⟨_, hrun⟩ :)

/-- Arguments meet parameters of the signature. -/
theorem fst_argumentPairs (signature : Signature) (args : List TypeId) :
    ∀ pair ∈ signature.argumentPairs args,
      pair.1 ∈ (Kind.function signature).children := by
  intro pair hpair
  unfold Signature.argumentPairs at hpair
  simp only [Kind.children, List.mem_append]
  rcases List.mem_append.mp hpair with hpair | hpair
  · refine .inl (.inl ?_)
    rcases List.mem_append.mp hpair with hpair | hpair
    · exact (List.of_mem_zip hpair).1
    · obtain ⟨param, hparam, rfl⟩ := List.mem_map.mp hpair
      exact List.mem_of_mem_drop hparam
  · obtain ⟨rest, hrest, hpair⟩ := List.mem_flatMap.mp hpair
    obtain ⟨arg, -, rfl⟩ := List.mem_map.mp hpair
    exact .inl (.inr hrest)

/-- The arguments of a call, one after the other. -/
theorem bindArguments_binds {id : TypeId} {node : Node} {span : Span}
    {pairs : List (TypeId × TypeId)}
    (h : Sweeps (fun pair r r' =>
      bindArgument pair.1 pair.2 span r = .ok () r') pairs r r')
    (hnode : r.types.graph.node? id = some node)
    (hparts : ∀ pair ∈ pairs, pair.1 ∈ node.kind.children) :
    Binds id r r' := by
  induction h with
  | nil => exact .same (.refl _)
  | @cons pair pairs r r₁ r₂ hturn _ ih =>
      obtain ⟨hpart, hparts⟩ := List.forall_mem_cons.mp hparts
      have hbinds : Binds pair.1 r r₁ := bindArgument_binds hturn
      have hmet : Binds id r r₁ := by
        refine hbinds.of_reaches (.step .refl ?_)
        exact ⟨node, hbinds.graph _ _ hnode, hpart⟩
      exact hmet.trans (ih (hmet.graph _ _ hnode) hparts)

/-- A call makes bindings on behalf of the function's type, which
reaches its parameters. -/
theorem bindCall_binds {id : TypeId} {args : List TypeId} {span : Span}
    {result : Except Error Unit}
    (h : bindCall id args span r = .ok result r') : Binds id r r' := by
  rcases bindCall_run h with
    rfl | ⟨signature, r₁, work, ⟨node, hn, hkind⟩, hsweep, htell, rfl⟩
  · exact .same (.refl _)
  · have hbinds : Binds id r r₁ := by
      refine bindArguments_binds hsweep hn fun pair hpair => ?_
      rw [hkind]
      exact fst_argumentPairs signature args pair hpair
    obtain ⟨-, events, rfl⟩ := htell
    exact hbinds

/-- Instantiating adds no binding. -/
theorem instantiate_binds {declared id : TypeId} {span : Span}
    (h : instantiate declared span r = .ok id r') :
    Binds declared r r' ∧ r'.env = r.env := by
  obtain ⟨henv, hext⟩ := instantiate_grows h
  refine ⟨?_, henv⟩
  rw [Binds, henv]
  exact .same hext

/-- Instantiating a signature adds no binding. -/
theorem instantiateSignature_binds {id : TypeId}
    {result : Except Error TypeId}
    (h : instantiateSignature id r = .ok result r') :
    Binds id r r' ∧ r'.env = r.env := by
  obtain ⟨found, r₁, hfound, hrest⟩ := bind_run.mp h
  cases signature_run hfound
  cases found with
  | error error =>
      cases hrest
      exact ⟨.same (.refl _), rfl⟩
  | ok signature =>
      obtain ⟨y, r₁, hinst, hrest⟩ := bind_run.mp hrest
      cases hrest
      exact instantiate_binds hinst

/-- What any call does to the bindings. -/
theorem Call.binds {call : Call} (h : call.perform r = .ok () r') :
    Binds call.declared r r' ∧ (call.infers = false → r'.env = r.env) := by
  cases call with
  | bindArgument declared actual span =>
      refine ⟨bindArgument_binds h, fun hinfers => ?_⟩
      cases hinfers
  | bindCall id args span =>
      obtain ⟨result, r₁, hrun, hdone⟩ := bind_run.mp h
      cases hdone
      refine ⟨bindCall_binds hrun, fun hinfers => ?_⟩
      cases hinfers
  | instantiate declared span =>
      obtain ⟨id, r₁, hrun, hdone⟩ := bind_run.mp h
      cases hdone
      obtain ⟨hbinds, henv⟩ := instantiate_binds hrun
      exact ⟨hbinds, fun _ => henv⟩
  | instantiateSignature id =>
      obtain ⟨result, r₁, hrun, hdone⟩ := bind_run.mp h
      cases hdone
      obtain ⟨hbinds, henv⟩ := instantiateSignature_binds hrun
      exact ⟨hbinds, fun _ => henv⟩

-- ================================================================= runs

/-- Bindings are of different parameters, each known by what its marker
is known by, and none of a missing type. -/
structure Sound (r : Resolution) : Prop where
  distinct : r.env.Distinct
  marked : ∀ b ∈ r.env.entries, ∃ node,
    r.types.graph.node? b.marker = some node ∧
      node.markerKey? = some b.key
  present : ∀ b ∈ r.env.entries, b.bound ≠ .noType

/-- Whatever adds bindings on behalf of a declared type keeps the
invariant. -/
theorem Sound.binds {declared : TypeId} (hr : r.Sound)
    (h : Binds declared r r') : r'.Sound := by
  obtain ⟨added, hentries, hadded⟩ := h.entries
  refine ⟨h.distinct hr.distinct, ?_, ?_⟩
  · rw [hentries, List.forall_mem_append]
    refine ⟨fun b hb => ?_, fun b hb => (hadded b hb).marked⟩
    obtain ⟨node, hn, hkey⟩ := hr.marked b hb
    exact ⟨node, h.graph _ _ hn, hkey⟩
  · rw [hentries, List.forall_mem_append]
    exact ⟨hr.present, fun b hb => (hadded b hb).present⟩

/-- Every run keeps it. -/
theorem Sound.run {start : Resolution} (hstart : start.Sound)
    (h : Run start r) : r.Sound := by
  induction h with
  | refl => exact hstart
  | call call _ hperform ih => exact ih.binds (Call.binds hperform).1

/-- A resolution begins with nothing bound. -/
theorem begin_sound (checker : Checker) (config : Config) (store : Store)
    (listening : Bool) : (begin checker config store listening).Sound := by
  refine ⟨List.nodup_nil, ?_, ?_⟩
  · intro b hb
    cases hb
  · intro b hb
    cases hb

/-- What is bound stays bound to the same type. -/
theorem Run.lookup? {start : Resolution} (h : Run start r)
    {key : MarkerKey} {bound : TypeId}
    (hbound : start.env.lookup? key = some bound) :
    r.env.lookup? key = some bound := by
  induction h with
  | refl => exact hbound
  | call call _ hperform ih =>
      obtain ⟨added, hentries, -⟩ := (Call.binds hperform).1.entries
      exact Bindings.lookup?_of_append hentries ih

/-- Bindings are made once and stay. After any calls, whatever checker
and settings they are resolved with, a further call adds bindings at the
end, of markers that its declared type reaches, or none at all if it
instantiates. Then no two bindings are of one parameter, and each is
found by its key, which is that of its marker, and is of a type that is
not missing. And it is found by every later call. -/
theorem run_bindings (checker : Checker) (config : Config) (store : Store)
    (listening : Bool) {r r' : Resolution}
    (hrun : Run (begin checker config store listening) r) {call : Call}
    (h : call.perform r = .ok () r') :
    (∃ added, r'.env.entries = r.env.entries ++ added ∧
      (∀ b ∈ added, r'.types.graph.Reaches call.declared b.marker) ∧
      (call.infers = false → added = [])) ∧
    (r'.env.entries.map (·.key)).Nodup ∧
    (∀ b ∈ r'.env.entries, r'.env.lookup? b.key = some b.bound ∧
      (∃ node, r'.types.graph.node? b.marker = some node ∧
        node.markerKey? = some b.key) ∧
      b.bound ≠ .noType) ∧
    ∀ r'', Run r' r'' → ∀ key bound, r'.env.lookup? key = some bound →
      r''.env.lookup? key = some bound := by
  have hr : r.Sound := (begin_sound checker config store listening).run hrun
  obtain ⟨hbinds, hkeeps⟩ := Call.binds h
  have hr' : r'.Sound := hr.binds hbinds
  obtain ⟨added, hentries, hadded⟩ := hbinds.entries
  refine ⟨⟨added, hentries, fun b hb => (hadded b hb).reached, ?_⟩,
    hr'.distinct, fun b hb => ?_, fun r'' hrun' key bound hbound => ?_⟩
  · intro hinfers
    rw [hkeeps hinfers, List.self_eq_append_right] at hentries
    exact hentries
  · exact ⟨hr'.distinct.lookup? hb, hr'.marked b hb, hr'.present b hb⟩
  · exact hrun'.lookup? hbound

/-- Two markers of one parameter (21, 22), an array of the second (23), a
function from the first and the array (24), and an array of strings
(25). -/
def clashing : Store where
  graph := ⟨Graph.builtin.nodes ++ #[
    .marker "T" ⟨1⟩ (.leaf .anydata), .marker "T" ⟨1⟩ (.leaf .anydata),
    .anonymous (.array ⟨22⟩),
    .anonymous (.function { params := [⟨21⟩, ⟨23⟩], result := .nil }),
    .anonymous (.array .string)]⟩

/-- An int and strings for the array do not agree. This is reported, and
the parameter stays bound to int, at its first marker. -/
theorem clashing_bindings :
    ∃ r, (Call.bindCall ⟨24⟩ [.int, ⟨25⟩] .null).perform
        (begin .structural .default clashing false) = .ok () r ∧
      r.diagnostics ≠ [] ∧ r.env.entries = [⟨⟨⟨1⟩, "T"⟩, ⟨21⟩, .int⟩] ∧
      (r.env.entries.map (·.key)).Nodup ∧
      ∀ r', Run r r' → r'.env.lookup? ⟨⟨1⟩, "T"⟩ = some .int := by
  have hdecided :
      (match (Call.bindCall ⟨24⟩ [.int, ⟨25⟩] .null).perform
          (begin .structural .default clashing false) with
      | .ok _ r => decide (r.diagnostics ≠ [] ∧
          r.env.entries = [⟨⟨⟨1⟩, "T"⟩, ⟨21⟩, .int⟩])
      | .error _ _ => false) = true := by decide +kernel
  cases hperform : (Call.bindCall ⟨24⟩ [.int, ⟨25⟩] .null).perform
      (begin .structural .default clashing false) with
  | error fault r =>
      rw [hperform] at hdecided
      cases hdecided
  | ok u r =>
      rw [hperform] at hdecided
      obtain ⟨hreported, hentries⟩ := of_decide_eq_true hdecided
      obtain ⟨-, hdistinct, hfound, hstays⟩ :=
        run_bindings .structural .default clashing false .refl hperform
      refine ⟨r, rfl, hreported, hentries, hdistinct, fun r' hrun => ?_⟩
      refine hstays r' hrun _ _ ?_
      exact (hfound ⟨⟨⟨1⟩, "T"⟩, ⟨21⟩, .int⟩
        (hentries ▸ List.mem_cons_self)).1

end TypeParams.Resolution
