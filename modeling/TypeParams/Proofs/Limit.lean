/-
What a limit on the depth does to a walk.

# The account

A walk that meets its last level says so once: it has a flag for it, and
adds the warning only where the flag was down. `Workspace.Tallies` keeps
the account: between two workspaces there is one such warning if the
flag went up in between, and none otherwise. So the warning can be
counted from the flag, and the flag read off the log.

# Two walks

`Retraces` is about a walk and one with more levels. Whatever the first
does it keeps that account, and if it comes out with its flag down, the
second does the same from the same state. An action that raises the flag
is thus retraced by any other (`Retraces.of_limit`), and this is all
that has to be said about the last level. The relation is closed under
sequence; each step starts in the state that the steps before it left,
and what is known of these may be used, as with `Commutes`.

# Room

Both carry a condition `roomy` along under which the flag does not go up
at all: that there is room for all that the walk can be inside of. Where
it is false the statements say what they say without it.
-/
import TypeParams.Proofs.Workspace

namespace TypeParams

-- ========================================================= the account

namespace Workspace

/-- What was added to the log is of certain sorts. There is one warning
about the depth if the flag went up, and none otherwise; if the levels
leave room it did not. -/
def Tallies (sorts : ProblemKind → Prop) (roomy : Prop)
    (w w' : Workspace) : Prop :=
  ∃ added, w'.journal.log.entries = w.journal.log.entries ++ added ∧
    (∀ d ∈ added, ∃ kind, sorts kind ∧ ProblemKind.of? d = some kind) ∧
    added.countP (ProblemKind.of? · == some .tooDeep)
      + w.limitReported.toNat = w'.limitReported.toNat ∧
    (roomy → w'.limitReported = w.limitReported)

variable {sorts : ProblemKind → Prop} {roomy : Prop}
variable {w w' w'' : Workspace}

/-- Nothing was added and the flag is as it was. -/
theorem Tallies.of_eq (hlog : w'.journal.log = w.journal.log)
    (hflag : w'.limitReported = w.limitReported) :
    w.Tallies sorts roomy w' := by
  refine ⟨[], ?_, ?_, ?_, fun _ => hflag⟩
  · rw [hlog, List.append_nil]
  · simp
  · rw [hflag]
    simp

theorem Tallies.refl (w : Workspace) : w.Tallies sorts roomy w :=
  .of_eq rfl rfl

/-- The account of two walks, one after the other. -/
theorem Tallies.trans (h : w.Tallies sorts roomy w')
    (h' : w'.Tallies sorts roomy w'') : w.Tallies sorts roomy w'' := by
  obtain ⟨added, hlog, hsorts, hcount, hroomy⟩ := h
  obtain ⟨added', hlog', hsorts', hcount', hroomy'⟩ := h'
  refine ⟨added ++ added', ?_, ?_, ?_, ?_⟩
  · rw [hlog', hlog, List.append_assoc]
  · rw [List.forall_mem_append]
    exact ⟨hsorts, hsorts'⟩
  · rw [List.countP_append]
    omega
  · intro hroom
    exact (hroomy' hroom).trans (hroomy hroom)

/-- The flag never goes down. -/
theorem Tallies.limitReported_eq_false (h : w.Tallies sorts roomy w')
    (hw' : w'.limitReported = false) : w.limitReported = false := by
  obtain ⟨added, -, -, hcount, -⟩ := h
  rw [hw', Bool.toNat_false] at hcount
  apply Bool.eq_false_iff.mpr
  intro hw
  rw [hw, Bool.toNat_true] at hcount
  omega

/-- What a walk adds that starts with the flag down. -/
theorem Tallies.of_down (h : w.Tallies sorts roomy w')
    (hw : w.limitReported = false) :
    ∃ added, w'.journal.log.entries = w.journal.log.entries ++ added ∧
      (∀ d ∈ added, ∃ kind, sorts kind ∧ ProblemKind.of? d = some kind) ∧
      added.countP (ProblemKind.of? · == some .tooDeep) ≤ 1 ∧
      (w'.limitReported = false ↔
        ∀ d ∈ added, ProblemKind.of? d ≠ some .tooDeep) ∧
      (roomy → w'.limitReported = false) := by
  obtain ⟨added, hlog, hsorts, hcount, hroomy⟩ := h
  rw [hw, Bool.toNat_false, Nat.add_zero] at hcount
  refine ⟨added, hlog, hsorts, ?_, ?_, fun hroom => (hroomy hroom).trans hw⟩
  · rw [hcount]
    exact Bool.toNat_le _
  · have hnone : added.countP (ProblemKind.of? · == some .tooDeep) = 0 ↔
        ∀ d ∈ added, ProblemKind.of? d ≠ some .tooDeep := by
      rw [List.countP_eq_zero]
      simp
    rw [← hnone, hcount, Bool.toNat_eq_zero]

/-- Events are not on the account. -/
theorem Tells.tallies (h : w.Tells w') : w.Tallies sorts roomy w' :=
  .of_eq h.log h.limitReported

/-- A problem of another sort does not count. -/
theorem Reports.tallies {kind : ProblemKind} (h : w.Reports kind w')
    (hsort : sorts kind) (hkind : kind ≠ .tooDeep) :
    w.Tallies sorts roomy w' := by
  obtain ⟨d, hd, hlog⟩ := h.added
  refine ⟨[d], hlog, ?_, ?_, fun _ => h.limitReported⟩
  · rw [List.forall_mem_singleton]
    exact ⟨kind, hsort, hd⟩
  · rw [h.limitReported, List.countP_singleton, hd]
    simp [hkind]

end Workspace

namespace WorkM

variable {sorts : ProblemKind → Prop} {roomy : Prop}
variable {w w' : Workspace} {u : Unit}

/-- Telling an event, and be it an alarm, does not count. -/
theorem tell_tallies {event : Graph → Except Fault Event}
    (h : WorkM.tell event w = .ok u w') : w.Tallies sorts roomy w' := by
  unfold WorkM.tell at h
  split at h
  · split at h
    · cases h
      exact .of_eq rfl rfl
    · cases h
  · cases h
    exact .refl w

/-- Meeting the last level is counted once. -/
theorem reportLimit_tallies {config : Config} {span : Span}
    {event : Nat → Event} {id : TypeId}
    (hevent : (event config.maxDepth).level ≠ .error)
    (h : WorkM.reportLimit config span event id w = .ok u w')
    (hsort : sorts .tooDeep) (hroomy : ¬ roomy) :
    w.Tallies sorts roomy w' ∧ w'.limitReported = true := by
  obtain ⟨w₁, w₂, hget, h⟩ := bind_run.mp h
  obtain ⟨rfl, rfl⟩ := get_run.mp hget
  cases hflag : w.limitReported with
  | true =>
      simp only [hflag, Bool.not_true, Bool.false_eq_true, if_false] at h
      obtain ⟨-, rfl⟩ := pure_run.mp h
      exact ⟨.refl w, hflag⟩
  | false =>
      simp only [hflag, Bool.not_false, if_true] at h
      obtain ⟨_, w₁, hmodify, h⟩ := bind_run.mp h
      cases modify_run.mp hmodify
      obtain ⟨_, w₂, htell, h⟩ := bind_run.mp h
      obtain ⟨p, d, hp, hd, rfl⟩ := report_run h
      obtain ⟨text, -, hp⟩ := bind_eq_ok.mp hp
      cases pure_eq_ok.mp hp
      have htells := tell_run (fun _ _ he => Except.ok.inj he ▸ hevent)
        htell
      refine ⟨⟨[d], ?_, ?_, ?_, fun hroom => absurd hroom hroomy⟩,
        htells.limitReported⟩
      · exact congrArg (fun log => (Log.report log d).entries) htells.log
      · rw [List.forall_mem_singleton]
        exact ⟨.tooDeep, hsort, hd⟩
      · show List.countP _ [d] + w.limitReported.toNat
          = w₂.limitReported.toNat
        rw [htells.limitReported, hflag, List.countP_singleton, hd]
        rfl

end WorkM

-- ========================================================= two actions

variable {ε σ α β : Type}

/-- From this state, the first action keeps the account, and the second
does the same if the first comes out with the flag down. -/
def Retraces (work : σ → Workspace) (sorts : ProblemKind → Prop)
    (roomy : Prop) (x y : EStateM ε σ α) (s : σ) : Prop :=
  ∀ a s', x s = .ok a s' →
    (work s).Tallies sorts roomy (work s') ∧
      ((work s').limitReported = false → y s = .ok a s')

namespace Retraces

variable {work : σ → Workspace} {sorts : ProblemKind → Prop}
variable {roomy : Prop} {s : σ}

/-- Actions that do the same. -/
theorem of_eq {x y : EStateM ε σ α} (heq : y s = x s)
    (h : ∀ a s', x s = .ok a s' →
      (work s).Tallies sorts roomy (work s')) :
    Retraces work sorts roomy x y s := by
  intro a s' hrun
  exact ⟨h a s' hrun, fun _ => heq.trans hrun⟩

theorem pure (a : α) :
    Retraces work sorts roomy (Pure.pure a : EStateM ε σ α)
      (Pure.pure a) s := by
  apply of_eq rfl
  intro b s' hrun
  obtain ⟨-, rfl⟩ := pure_run.mp hrun
  exact .refl _

/-- Steps that are retraced, one after the other. -/
theorem bind {x y : EStateM ε σ α} {f g : α → EStateM ε σ β}
    (hx : Retraces work sorts roomy x y s)
    (hf : ∀ a s', x s = .ok a s' →
      Retraces work sorts roomy (f a) (g a) s') :
    Retraces work sorts roomy (x >>= f) (y >>= g) s := by
  intro b s' hrun
  obtain ⟨a, s₁, ha, hb⟩ := bind_run.mp hrun
  obtain ⟨htally, hsame⟩ := hx a s₁ ha
  obtain ⟨htally', hsame'⟩ := hf a s₁ ha b s' hb
  refine ⟨htally.trans htally', ?_⟩
  intro hdown
  have hdown₁ := htally'.limitReported_eq_false hdown
  exact bind_run.mpr ⟨a, s₁, hsame hdown₁, hsame' hdown⟩

/-- A step that leaves the state as it is. -/
theorem look {x : EStateM ε σ α} {f g : α → EStateM ε σ β} {P : α → Prop}
    (hx : ∀ a s', x s = .ok a s' → s' = s ∧ P a)
    (hf : ∀ a, P a → Retraces work sorts roomy (f a) (g a) s) :
    Retraces work sorts roomy (x >>= f) (x >>= g) s := by
  apply bind
  · apply of_eq rfl
    intro a s' hrun
    rw [(hx a s' hrun).1]
    exact .refl _
  · intro a s' hrun
    obtain ⟨rfl, ha⟩ := hx a s' hrun
    exact hf a ha

/-- What raises the flag is retraced by anything. -/
theorem of_limit {x y : EStateM ε σ α}
    (h : ∀ a s', x s = .ok a s' →
      (work s).Tallies sorts roomy (work s') ∧
        (work s').limitReported = true) :
    Retraces work sorts roomy x y s := by
  intro a s' hrun
  obtain ⟨htally, hup⟩ := h a s' hrun
  refine ⟨htally, ?_⟩
  intro hdown
  rw [hup] at hdown
  cases hdown

/-- Loops, turn by turn. -/
theorem forM {f g : α → EStateM ε σ PUnit} {as : List α} {I : σ → Prop}
    (hturn : ∀ a ∈ as, ∀ s, I s → Retraces work sorts roomy (f a) (g a) s)
    (hI : ∀ a ∈ as, ∀ s s', I s → f a s = .ok ⟨⟩ s' → I s')
    (hs : I s) : Retraces work sorts roomy (as.forM f) (as.forM g) s := by
  induction as generalizing s with
  | nil => exact .pure _
  | cons a as ih =>
      rw [List.forall_mem_cons] at hturn hI
      apply (hturn.1 s hs).bind
      intro u s' hrun
      exact ih hturn.2 hI.2 (hI.1 s s' hs hrun)

/-- Loops that collect results, turn by turn. -/
theorem mapM {f g : α → EStateM ε σ β} {as : List α} {I : σ → Prop}
    (hturn : ∀ a ∈ as, ∀ s, I s → Retraces work sorts roomy (f a) (g a) s)
    (hI : ∀ a ∈ as, ∀ s b s', I s → f a s = .ok b s' → I s')
    (hs : I s) : Retraces work sorts roomy (as.mapM f) (as.mapM g) s := by
  induction as generalizing s with
  | nil => exact .pure _
  | cons a as ih =>
      rw [List.forall_mem_cons] at hturn hI
      rw [List.mapM_cons, List.mapM_cons]
      apply (hturn.1 s hs).bind
      intro b s' hrun
      apply (ih hturn.2 hI.2 (hI.1 s b s' hs hrun)).bind
      intro bs s'' _
      exact .pure _

end Retraces

end TypeParams
