/-
Deciding assignability. Types may contain themselves, so two types are
related unless something forbids it: while a pair is being looked into
it counts as related, and a pair found related stays so for the rest of
the search, unless a pair it was found inside of turns out not to be.

`Graph.relate` keeps the two apart: the pairs it is inside of, and the
pairs found related, which it gives back enlarged when it succeeds and
not at all when it fails. It stops because a graph has finitely many
pairs of ids to be inside of.
-/
import TypeParams.Subtype.Anydata
import TypeParams.Subtype.Rule

namespace TypeParams

/-- Pairs of types, source first. -/
abbrev Pairs := List (TypeId × TypeId)

/-- Found once, so that membership is decided in the same way wherever
pairs are looked up. -/
instance : LawfulBEq (TypeId × TypeId) := inferInstance

-- ================================================= searching premises

section Premises

variable (g : Graph)
  (sub : Pairs → TypeId → TypeId → Except Fault (Option Pairs))

/-- Looks into one premise; `sub` looks into a pair. -/
def Premise.search (proved : Pairs) :
    Premise → Except Fault (Option Pairs)
  | .fact holds => return if holds then some proved else none
  | .sub source target => sub proved source target
  | .data id => return if ← g.isData id then some proved else none
  | .notOnlyErrors id =>
      return if ← g.onlyErrors id then none else some proved

/-- Looks into premises in turn until one fails. Each may use what
those before it have proved. -/
def searchAll : Pairs → List Premise → Except Fault (Option Pairs)
  | proved, [] => .ok (some proved)
  | proved, premise :: premises => do
      match ← premise.search g sub proved with
      | some proved => searchAll proved premises
      | none => return none

/-- Looks into premises in turn until one holds. What was proved inside
a premise that fails is forgotten. -/
def searchAny (proved : Pairs) :
    List Premise → Except Fault (Option Pairs)
  | [] => .ok none
  | premise :: premises => do
      match ← premise.search g sub proved with
      | some proved => return some proved
      | none => searchAny proved premises

def Rule.search (proved : Pairs) : Rule → Except Fault (Option Pairs)
  | .all premises => searchAll g sub proved premises
  | .any premises => searchAny g sub proved premises

end Premises

-- ====================================================== whole searches

namespace Graph

/-- All pairs of ids that have nodes. -/
def idPairs (g : Graph) : Pairs :=
  g.ids.flatMap fun source => g.ids.map (source, ·)

theorem remaining_idPairs_lt {g : Graph} {source target : TypeId}
    {s t : Node} {path : Pairs} (hs : g.node? source = some s)
    (ht : g.node? target = some t) (hp : (source, target) ∉ path) :
    remaining (fun _ => 1) g.idPairs ((source, target) :: path)
      < remaining (fun _ => 1) g.idPairs path := by
  refine remaining_cons_lt ?_ hp
  exact List.mem_flatMap.mpr ⟨source, mem_ids.mpr (index_lt_of_node? hs),
    List.mem_map.mpr ⟨target, mem_ids.mpr (index_lt_of_node? ht), rfl⟩⟩

/-- Looks into a pair, inside the pairs of `path` and after those of
`proved`. If they are related the answer is `proved` with this pair and
those found on the way. -/
def relate (g : Graph) (path proved : Pairs) (source target : TypeId) :
    Except Fault (Option Pairs) :=
  if source = target then .ok (some proved)
  else if _ : (source, target) ∈ path then .ok (some proved)
  else if (source, target) ∈ proved then .ok (some proved)
  else
    match _ : g.node? source with
    | none => .error (.missing source g.size)
    | some s =>
        match _ : g.node? target with
        | none => .error (.missing target g.size)
        | some t => do
            let rule := Rule.of source s target t
            let found ← rule.search g
              (fun proved a b =>
                g.relate ((source, target) :: path) proved a b)
              proved
            return found.map ((source, target) :: ·)
termination_by remaining (fun _ => 1) g.idPairs path
decreasing_by exact remaining_idPairs_lt ‹_› ‹_› ‹_›

/-- Whether a value of the source may stand where one of the target is
expected. -/
def assignable (g : Graph) (source target : TypeId) :
    Except Fault Bool :=
  return (← g.relate [] [] source target).isSome

end Graph

end TypeParams
