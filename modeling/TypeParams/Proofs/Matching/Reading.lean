/-
Matching a type with its counterpart.

`Counterpart` describes what stands opposite a type in which parameters
were replaced: what a parameter is bound to, a leaf itself, and for any
other type one of the same form over counterparts. Such a relation is
all that a match sees of an instantiation, so what follows does not
depend on how the counterparts were made.

# What a match does with counterparts

It reports nothing but that it has met its last level, and every binding
it makes is the one the counterparts were made with (`Reading`). The
forms on the two sides are alike and can be read back, so each part
meets its own counterpart; a parameter meets what it is bound to, and
when it is met again, the same type again, which a checker takes to
agree with itself (`Checker.Reflexive`).

# Why it misses nothing

That it misses no parameter is the usual argument for a depth-first
walk: a type is followed once, so what is said of the types followed
during a step (`Read.closed`) is that their parts were dealt with by its
end. A whole match starts with no type followed, hence in the end
everything that can be met was dealt with (`Read.meets`). The last level
is the one way out: a match that stops there says so, and the statements
are about those that do not.
-/
import TypeParams.Proofs.Matching.Counterparts
import TypeParams.Proofs.Matching.Levels

namespace TypeParams.Matching

variable {env : Bindings} {g : Graph} {R : TypeId → TypeId → Prop}

/-- The graph is the same, every binding is one that the counterparts
were made with, and no marker was followed. -/
structure Reading (env : Bindings) (g : Graph)
    (R : TypeId → TypeId → Prop) (s : State) : Prop where
  graph : s.graph = g
  bound : ∀ key b, s.env.lookup? key = some b →
    env.lookup? key = some b ∧ ∃ x y node, R x y ∧
      g.node? x = some node ∧ node.markerKey? = some key
  visited : ∀ v ∈ s.visited, ∀ node, g.node? v = some node →
    node.isMarker = false

/-- The type was followed, is a parameter that is bound, or is a
leaf. -/
def Done (g : Graph) (s : State) (c : TypeId) : Prop :=
  c ∈ s.visited ∨ ∃ node, g.node? c = some node ∧
    ((∃ key, node.markerKey? = some key ∧ s.env.contains key = true) ∨
      node.isMarker = false ∧ node.kind.isLeaf = true)

/-- What has changed when a type was matched with its counterpart. -/
structure Read (env : Bindings) (g : Graph)
    (R : TypeId → TypeId → Prop) (s s' : State) : Prop where
  reading : Reading env g R s'
  visited : ∀ v ∈ s.visited, v ∈ s'.visited
  kept : ∀ key, s.env.contains key = true → s'.env.contains key = true
  records : s.work.Records s'.work
  log : s'.work.limitReported = false →
    s'.work.journal.log = s.work.journal.log
  /-- The parts of what was followed meanwhile were dealt with. -/
  closed : s'.work.limitReported = false → ∀ v ∈ s'.visited,
    v ∈ s.visited ∨ ∀ node, g.node? v = some node →
      ∀ c ∈ node.kind.children, Done g s' c

/-- What was dealt with stays so. -/
theorem Done.mono {s s' : State} {c : TypeId} (h : Done g s c)
    (hvisited : ∀ v ∈ s.visited, v ∈ s'.visited)
    (hkept : ∀ key, s.env.contains key = true →
      s'.env.contains key = true) : Done g s' c := by
  rcases h with hmem | ⟨node, hn, ⟨key, hkey, hbound⟩ | hleaf⟩
  · exact .inl (hvisited c hmem)
  · exact .inr ⟨node, hn, .inl ⟨key, hkey, hkept key hbound⟩⟩
  · exact .inr ⟨node, hn, .inr hleaf⟩

/-- What was dealt with before a step is so after it. -/
theorem Read.done {s s' : State} (h : Read env g R s s') {c : TypeId}
    (hc : Done g s c) : Done g s' c :=
  hc.mono h.visited h.kept

/-- Two steps, one after the other. -/
theorem Read.trans {s s' s'' : State} (h : Read env g R s s')
    (h' : Read env g R s' s'') : Read env g R s s'' where
  reading := h'.reading
  visited v hv := h'.visited v (h.visited v hv)
  kept key hkey := h'.kept key (h.kept key hkey)
  records := h.records.trans h'.records
  log hlimit := (h'.log hlimit).trans
    (h.log (h'.records.limitReported_eq_false hlimit))
  closed := by
    intro hlimit v hv
    have hlimit' := h'.records.limitReported_eq_false hlimit
    rcases h'.closed hlimit v hv with hv | hdone
    · refine (h.closed hlimit' v hv).imp_right fun hdone node hn c hc => ?_
      exact h'.done (hdone node hn c hc)
    · exact .inr hdone

/-- Only the workspace has changed, and no diagnostic was added that
does not say so. -/
theorem Read.of_work {s : State} (hs : Reading env g R s)
    {work : Workspace} (htypes : work.types = s.work.types)
    (hrecords : s.work.Records work)
    (hlog : work.limitReported = false →
      work.journal.log = s.work.journal.log) :
    Read env g R s { s with work } where
  reading := ⟨(congrArg Layer.graph htypes).trans hs.graph, hs.bound,
    hs.visited⟩
  visited _ hv := hv
  kept _ hkey := hkey
  records := hrecords
  log := hlog
  closed _ _ hv := .inl hv

theorem Read.of_tells {s : State} (hs : Reading env g R s)
    {work : Workspace} (htell : s.work.Tells work) :
    Read env g R s { s with work } :=
  .of_work hs htell.types htell.records fun _ => htell.log

theorem Read.refl {s : State} (hs : Reading env g R s) :
    Read env g R s s := .of_tells hs (.refl _)

-- ============================================================ one level

variable {ctx : Context}

/-- Everything that can be met was dealt with, if no type was followed
before. -/
theorem Read.meets {s s' : State} (h : Read env g R s s')
    (hstart : s.visited = []) (hlimit : s'.work.limitReported = false)
    {d c : TypeId} (hd : Done g s' d) (hc : g.Meets d c) :
    Done g s' c := by
  refine hc.mem_of_closed hd ?_
  rintro x node (hx | ⟨node', hn', ⟨key, hkey, -⟩ | ⟨-, hleaf⟩⟩) hn
    hmarker c hc
  · rcases h.closed hlimit x hx with hx | hdone
    · rw [hstart] at hx
      cases hx
    · exact hdone node hn c hc
  · rw [hn] at hn'
    cases hn'
    rw [Node.isMarker_of_markerKey? hkey] at hmarker
    cases hmarker
  · rw [hn] at hn'
    cases hn'
    rw [Kind.children_of_isLeaf hleaf] at hc
    cases hc

/-- A parameter that was dealt with is bound. -/
theorem Reading.contains {s : State} (h : Reading env g R s)
    {x : TypeId} {node : Node} {key : MarkerKey} (hx : Done g s x)
    (hn : g.node? x = some node) (hkey : node.markerKey? = some key) :
    s.env.contains key = true := by
  have hmarker := Node.isMarker_of_markerKey? hkey
  rcases hx with hx | ⟨node', hn', ⟨key', hkey', hbound⟩ | ⟨hnot, -⟩⟩
  · rw [h.visited x hx node hn] at hmarker
    cases hmarker
  · rw [hn] at hn'
    cases hn'
    rw [hkey] at hkey'
    cases hkey'
    exact hbound
  · rw [hn] at hn'
    cases hn'
    rw [hnot] at hmarker
    cases hmarker

end TypeParams.Matching
