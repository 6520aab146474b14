/-
Actions that do not see a change of the state.

# One action

`Commutes` says of an action and a state that changing the state before
the action or after it comes to the same: the action gives the same
result, or ends in the same fault, and what it does to the state it does
to the changed one. What is said of the steps of an action carries over
to the action (`Commutes.bind`); a step may start from what the steps
before it made of the state, so what is known of that can be used. It is
stated at a state, and not for all of them, because the change may be
harmless only there: putting a layer over another store, say, is
harmless while the layer has no marker among its parts.

# Two actions

`Shadows` is about two actions, one of which is given the changed state,
and says along with it what holds before and after. It is closed under
sequence in the same way. Here the actions differ, as with strict and
lossy settings, and the invariant goes along in the statement, which
makes its `bind` take no hypothesis about the run.

Both are equations between outcomes, faults included. That is what makes
them stronger than a relation between successful runs: where one side
fails, the other fails with the same fault.
-/
import TypeParams.Proofs.Actions

namespace TypeParams

variable {ε σ α β : Type}

/-- The same outcome, in another state. -/
def mapState (φ : σ → σ) :
    EStateM.Result ε σ α → EStateM.Result ε σ α
  | .ok a s => .ok a (φ s)
  | .error e s => .error e (φ s)

/-- It makes no difference whether the state is changed before or after
the action. -/
def Commutes (φ : σ → σ) (x : EStateM ε σ α) (s : σ) : Prop :=
  x (φ s) = mapState φ (x s)

namespace Commutes

variable {φ : σ → σ} {s : σ}

/-- Nothing is done on either side. -/
theorem pure (a : α) : Commutes φ (Pure.pure a : EStateM ε σ α) s := rfl

/-- Changing the state commutes with another change if the two changes
do. -/
theorem update {f : σ → σ} (h : f (φ s) = φ (f s)) :
    Commutes φ (modify f : EStateM ε σ PUnit) s :=
  congrArg (EStateM.Result.ok PUnit.unit) h

/-- Steps that commute, one after the other, the second from wherever
the first has led. -/
theorem bind {x : EStateM ε σ α} {f : α → EStateM ε σ β}
    (hx : Commutes φ x s)
    (hf : ∀ a s', x s = .ok a s' → Commutes φ (f a) s') :
    Commutes φ (x >>= f) s := by
  change EStateM.bind x f (φ s) = mapState φ (EStateM.bind x f s)
  unfold EStateM.bind
  rw [hx]
  cases hrun : x s with
  | error e s' => rfl
  | ok a s' => exact hf a s' hrun

/-- A step that reads the state, if the next one does not see the
change. -/
theorem read {f : σ → EStateM ε σ β} (h : Commutes φ (f s) s)
    (heq : f (φ s) = f s) :
    Commutes φ (get >>= f : EStateM ε σ β) s := by
  change f (φ s) (φ s) = mapState φ (f s s)
  rw [heq]
  exact h

/-- A loop commutes if its turns do, which start from what the turns
before them leave. -/
theorem forM {f : α → EStateM ε σ PUnit} {as : List α} {I : σ → Prop}
    (hturn : ∀ a ∈ as, ∀ s, I s → Commutes φ (f a) s)
    (hI : ∀ a ∈ as, ∀ s s', I s → f a s = .ok ⟨⟩ s' → I s')
    (hs : I s) : Commutes φ (as.forM f) s := by
  induction as generalizing s with
  | nil => exact .pure _
  | cons a as ih =>
      rw [List.forall_mem_cons] at hturn hI
      refine (hturn.1 s hs).bind fun u s' hrun => ?_
      exact ih hturn.2 hI.2 (hI.1 s s' hs hrun)

/-- So does a loop that collects results. -/
theorem mapM {f : α → EStateM ε σ β} {as : List α} {I : σ → Prop}
    (hturn : ∀ a ∈ as, ∀ s, I s → Commutes φ (f a) s)
    (hI : ∀ a ∈ as, ∀ s b s', I s → f a s = .ok b s' → I s')
    (hs : I s) : Commutes φ (as.mapM f) s := by
  induction as generalizing s with
  | nil => exact .pure _
  | cons a as ih =>
      rw [List.forall_mem_cons] at hturn hI
      rw [List.mapM_cons]
      refine (hturn.1 s hs).bind fun b s' hrun => ?_
      refine (ih hturn.2 hI.2 (hI.1 s b s' hs hrun)).bind fun _ _ _ => ?_
      exact .pure _

end Commutes

-- =========================================================== two actions

/-- Started where `P` holds, the second action does to the changed state
what the first does to the state, and `Q` holds of what the first gives
back and leaves. -/
def Shadows (φ : σ → σ) (P : σ → Prop) (x y : EStateM ε σ α)
    (Q : α → σ → Prop) : Prop :=
  ∀ s, P s →
    y (φ s) = mapState φ (x s) ∧ ∀ a s', x s = .ok a s' → Q a s'

namespace Shadows

variable {φ : σ → σ} {P : σ → Prop}

theorem pure {Q : α → σ → Prop} {a : α} (h : ∀ s, P s → Q a s) :
    Shadows φ P (Pure.pure a : EStateM ε σ α) (Pure.pure a) Q := by
  intro s hs
  refine ⟨rfl, ?_⟩
  intro b s' hrun
  obtain ⟨rfl, rfl⟩ := pure_run.mp hrun
  exact h s hs

/-- Both sides change the state, and the changes match. -/
theorem update {f g : σ → σ} {Q : PUnit → σ → Prop}
    (h : ∀ s, P s → g (φ s) = φ (f s) ∧ Q ⟨⟩ (f s)) :
    Shadows φ P (modify f : EStateM ε σ PUnit) (modify g) Q := by
  intro s hs
  obtain ⟨heq, hpost⟩ := h s hs
  refine ⟨congrArg (EStateM.Result.ok PUnit.unit) heq, ?_⟩
  intro u s' hrun
  cases modify_run.mp hrun
  exact hpost

/-- Steps go together if what holds after the first is what the second
starts from. -/
theorem bind {x y : EStateM ε σ α} {f g : α → EStateM ε σ β}
    {Q : α → σ → Prop} {R : β → σ → Prop} (hx : Shadows φ P x y Q)
    (hf : ∀ a, Shadows φ (Q a) (f a) (g a) R) :
    Shadows φ P (x >>= f) (y >>= g) R := by
  intro s hs
  obtain ⟨heq, hpost⟩ := hx s hs
  constructor
  · change EStateM.bind y g (φ s) = mapState φ (EStateM.bind x f s)
    unfold EStateM.bind
    rw [heq]
    cases hrun : x s with
    | error e s₁ => rfl
    | ok a s₁ => exact (hf a s₁ (hpost a s₁ hrun)).1
  · intro b s' hrun
    obtain ⟨a, s₁, ha, hb⟩ := bind_run.mp hrun
    exact (hf a s₁ (hpost a s₁ ha)).2 b s' hb

/-- Both sides read their states, and go on with what they have read. -/
theorem read {f g : σ → EStateM ε σ β} {R : β → σ → Prop}
    (h : ∀ s, P s → Shadows φ P (f s) (g (φ s)) R) :
    Shadows φ P (get >>= f : EStateM ε σ β) (get >>= g) R :=
  fun s hs => h s hs s hs

/-- Actions that do the same, on a state that is not changed. -/
theorem of_eq {x y : EStateM ε σ α} {Q : α → σ → Prop}
    (heq : ∀ s, P s → y s = x s)
    (h : ∀ s a s', P s → x s = .ok a s' → Q a s') :
    Shadows id P x y Q := by
  intro s hs
  refine ⟨(heq s hs).trans ?_, fun a s' hrun => h s a s' hs hrun⟩
  cases x s with
  | ok a s' => rfl
  | error e s' => rfl

/-- Where the state is not changed, the two actions do the same. -/
theorem eq {x y : EStateM ε σ α} {Q : α → σ → Prop} {s : σ}
    (h : Shadows id P x y Q) (hs : P s) : y s = x s := by
  refine (h s hs).1.trans ?_
  cases x s with
  | ok a s' => rfl
  | error e s' => rfl

/-- Loops go together if their turns do, which keep what they start
from. -/
theorem forM {f g : α → EStateM ε σ PUnit} {as : List α}
    (h : ∀ a ∈ as, Shadows φ P (f a) (g a) fun _ => P) :
    Shadows φ P (as.forM f) (as.forM g) fun _ => P := by
  induction as with
  | nil => exact .pure fun _ hs => hs
  | cons a as ih =>
      rw [List.forall_mem_cons] at h
      exact h.1.bind fun _ => ih h.2

/-- So do loops that collect results. -/
theorem mapM {f g : α → EStateM ε σ β} {as : List α}
    (h : ∀ a ∈ as, Shadows φ P (f a) (g a) fun _ => P) :
    Shadows φ P (as.mapM f) (as.mapM g) fun _ => P := by
  induction as with
  | nil => exact .pure fun _ hs => hs
  | cons a as ih =>
      rw [List.forall_mem_cons] at h
      rw [List.mapM_cons, List.mapM_cons]
      refine h.1.bind fun b => (ih h.2).bind fun bs => ?_
      exact .pure fun _ hs => hs

end Shadows

end TypeParams
