/-
Actions on a state, opened up.

# Sequences and loops

An action of `EStateM` that succeeds is a sequence of actions that do,
each starting in the state that the one before it left behind
(`bind_run`). A loop over a list is such a sequence along the list:
`Threads` for one that collects results, `Sweeps` for one that does not.
What one turn of the loop guarantees is then carried along the list by
induction on these two, or, where it is a property of the state alone,
by `Threads.keeps` and `Sweeps.keeps`.

Proofs about an action use the lemma for each of its steps and put them
together with these. The step relation of a loop is a parameter, so a
lemma about one turn can be put in its place (`Threads.mono`,
`Sweeps.mono`) and the run of the action forgotten.

# Success

`Succeeds` says that an action does not end in a fault, and `SucceedsOr`
that it ends in none but those of a given kind. Both are proved along
the steps, where a later step may rely on what the earlier ones have
done to the state. For a given action in a given state, `endsWith` runs
it and tests how it ends, so that a fixed example is shown by
computation.
-/
namespace TypeParams

variable {ε σ α β : Type}

-- ============================================================ sequences

/-- A sequence succeeds if its first step does, and the second from
there. -/
theorem bind_run {x : EStateM ε σ α} {f : α → EStateM ε σ β} {s s' : σ}
    {b : β} :
    (x >>= f) s = .ok b s' ↔
      ∃ a s₁, x s = .ok a s₁ ∧ f a s₁ = .ok b s' := by
  change EStateM.bind x f s = .ok b s' ↔ _
  unfold EStateM.bind
  cases x s with
  | error e s₁ => simp
  | ok a s₁ =>
      constructor
      · exact fun h => ⟨a, s₁, rfl, h⟩
      · rintro ⟨a', s₁', h, hf⟩
        cases h
        exact hf

/-- An action that is known to succeed can be run. -/
theorem bind_of_run {x : EStateM ε σ α} {f : α → EStateM ε σ β}
    {s s₁ : σ} {a : α} (h : x s = .ok a s₁) : (x >>= f) s = f a s₁ := by
  change EStateM.bind x f s = f a s₁
  unfold EStateM.bind
  rw [h]

/-- What ends in a fault goes no further. -/
theorem bind_of_fault {x : EStateM ε σ α} {f : α → EStateM ε σ β}
    {s s₁ : σ} {e : ε} (h : x s = .error e s₁) :
    (x >>= f) s = .error e s₁ := by
  change EStateM.bind x f s = .error e s₁
  unfold EStateM.bind
  rw [h]

theorem pure_run {a b : α} {s s' : σ} :
    (pure a : EStateM ε σ α) s = .ok b s' ↔ a = b ∧ s = s' := by
  change EStateM.Result.ok a s = .ok b s' ↔ _
  simp

theorem get_run {s s₁ s₂ : σ} :
    (get : EStateM ε σ σ) s = .ok s₁ s₂ ↔ s = s₁ ∧ s = s₂ := by
  change EStateM.Result.ok s s = .ok s₁ s₂ ↔ _
  simp

theorem modify_run {f : σ → σ} {u : PUnit} {s s' : σ} :
    (modify f : EStateM ε σ PUnit) s = .ok u s' ↔ f s = s' := by
  change EStateM.Result.ok PUnit.unit (f s) = .ok u s' ↔ _
  simp

-- ================================================================ loops

/-- One step for each entry of a list, each from the state that the one
before it left, with the list of their results. -/
inductive Threads (step : α → σ → β → σ → Prop) :
    List α → σ → List β → σ → Prop where
  | nil {s : σ} : Threads step [] s [] s
  | cons {a : α} {as : List α} {b : β} {bs : List β} {s s₁ s₂ : σ} :
      step a s b s₁ → Threads step as s₁ bs s₂ →
      Threads step (a :: as) s (b :: bs) s₂

/-- One step for each entry of a list, each from the state that the one
before it left. -/
inductive Sweeps (step : α → σ → σ → Prop) :
    List α → σ → σ → Prop where
  | nil {s : σ} : Sweeps step [] s s
  | cons {a : α} {as : List α} {s s₁ s₂ : σ} :
      step a s s₁ → Sweeps step as s₁ s₂ → Sweeps step (a :: as) s s₂

/-- What every step keeps is kept along the list. -/
theorem Threads.keeps {step : α → σ → β → σ → Prop} {as : List α}
    {bs : List β} {s s' : σ} {I : σ → Prop}
    (h : Threads step as s bs s')
    (hI : ∀ a ∈ as, ∀ s b s', I s → step a s b s' → I s')
    (hs : I s) : I s' := by
  induction h with
  | nil => exact hs
  | cons hstep _ ih =>
      rw [List.forall_mem_cons] at hI
      exact ih hI.2 (hI.1 _ _ _ hs hstep)

/-- What every step keeps is kept along the list. -/
theorem Sweeps.keeps {step : α → σ → σ → Prop} {as : List α}
    {s s' : σ} {I : σ → Prop} (h : Sweeps step as s s')
    (hI : ∀ a ∈ as, ∀ s s', I s → step a s s' → I s')
    (hs : I s) : I s' := by
  induction h with
  | nil => exact hs
  | cons hstep _ ih =>
      rw [List.forall_mem_cons] at hI
      exact ih hI.2 (hI.1 _ _ hs hstep)

/-- A loop that collects results runs step by step along the list. -/
theorem mapM_run {f : α → EStateM ε σ β} {as : List α} {bs : List β}
    {s s' : σ} :
    as.mapM f s = .ok bs s' ↔
      Threads (fun a s b s' => f a s = .ok b s') as s bs s' := by
  induction as generalizing bs s with
  | nil =>
      rw [List.mapM_nil, pure_run]
      constructor
      · rintro ⟨rfl, rfl⟩
        exact .nil
      · intro h
        cases h
        exact ⟨rfl, rfl⟩
  | cons a as ih =>
      rw [List.mapM_cons, bind_run]
      constructor
      · rintro ⟨b, s₁, hb, h⟩
        obtain ⟨bs', s₂, hbs, h⟩ := bind_run.mp h
        obtain ⟨rfl, rfl⟩ := pure_run.mp h
        exact .cons hb (ih.mp hbs)
      · intro h
        cases h with
        | cons hb hbs =>
            exact ⟨_, _, hb, bind_run.mpr ⟨_, _, ih.mpr hbs, rfl⟩⟩

/-- So does a loop without results. -/
theorem forM_run {f : α → EStateM ε σ PUnit} {as : List α} {u : PUnit}
    {s s' : σ} :
    as.forM f s = .ok u s' ↔
      Sweeps (fun a s s' => f a s = .ok ⟨⟩ s') as s s' := by
  induction as generalizing s with
  | nil =>
      change (pure ⟨⟩ : EStateM ε σ PUnit) s = .ok u s' ↔ _
      rw [pure_run]
      constructor
      · rintro ⟨-, rfl⟩
        exact .nil
      · intro h
        cases h
        exact ⟨rfl, rfl⟩
  | cons a as ih =>
      change (f a >>= fun _ => as.forM f) s = .ok u s' ↔ _
      rw [bind_run]
      constructor
      · rintro ⟨v, s₁, hb, h⟩
        exact .cons hb (ih.mp h)
      · intro h
        cases h with
        | cons hb hbs => exact ⟨_, _, hb, ih.mpr hbs⟩

/-- A loop that has no result of its own is one without. -/
theorem forIn_eq_forM {m : Type → Type} [Monad m] [LawfulMonad m]
    (as : List α) (f : α → m PUnit) :
    (forIn as PUnit.unit fun a _ => do
      f a
      pure (ForInStep.yield PUnit.unit)) = as.forM f := by
  induction as with
  | nil => rfl
  | cons a as ih =>
      change _ = f a >>= fun _ => as.forM f
      rw [List.forIn_cons, bind_assoc]
      simp only [pure_bind, ih]

/-- What each step comes to. -/
theorem Threads.mono {step step' : α → σ → β → σ → Prop}
    (hstep : ∀ a s b s', step a s b s' → step' a s b s')
    {as : List α} {bs : List β} {s s' : σ}
    (h : Threads step as s bs s') : Threads step' as s bs s' := by
  induction h with
  | nil => exact .nil
  | cons hb _ ih => exact .cons (hstep _ _ _ _ hb) ih

/-- There is one result for each entry. -/
theorem Threads.length_eq {step : α → σ → β → σ → Prop} {as : List α}
    {bs : List β} {s s' : σ} (h : Threads step as s bs s') :
    bs.length = as.length := by
  induction h with
  | nil => rfl
  | cons _ _ ih => rw [List.length_cons, List.length_cons, ih]

/-- What each step comes to. -/
theorem Sweeps.mono {step step' : α → σ → σ → Prop}
    (hstep : ∀ a s s', step a s s' → step' a s s') {as : List α}
    {s s' : σ} (h : Sweeps step as s s') : Sweeps step' as s s' := by
  induction h with
  | nil => exact .nil
  | cons hb _ ih => exact .cons (hstep _ _ _ hb) ih

-- ============================================================== success

/-- Whether an action has not ended in a fault, and what it gives back
and leaves passes a test. -/
def endsWith (test : α → σ → Bool) : EStateM.Result ε σ α → Bool
  | .ok a s => test a s
  | .error _ _ => false

/-- An action that passes the test has succeeded. -/
theorem of_endsWith {test : α → σ → Bool}
    {outcome : EStateM.Result ε σ α} (h : endsWith test outcome = true) :
    ∃ a s, outcome = .ok a s ∧ test a s = true := by
  cases outcome with
  | ok a s => exact ⟨a, s, rfl, h⟩
  | error e s => cases h

/-- The action does not end in a fault. -/
def Succeeds (x : EStateM ε σ α) (s : σ) : Prop :=
  ∃ a s', x s = .ok a s'

namespace Succeeds

theorem pure (a : α) (s : σ) :
    Succeeds (Pure.pure a : EStateM ε σ α) s := ⟨a, s, rfl⟩

/-- A sequence does not fault if the second step does not, wherever the
first has led. -/
theorem bind {x : EStateM ε σ α} {f : α → EStateM ε σ β} {s : σ}
    (hx : Succeeds x s)
    (hf : ∀ a s₁, x s = .ok a s₁ → Succeeds (f a) s₁) :
    Succeeds (x >>= f) s := by
  obtain ⟨a, s₁, ha⟩ := hx
  obtain ⟨b, s₂, hb⟩ := hf a s₁ ha
  exact ⟨b, s₂, bind_run.mpr ⟨a, s₁, ha, hb⟩⟩

/-- A loop does not fault if no turn does that starts where the ones
before it may end. -/
theorem mapM {f : α → EStateM ε σ β} {I : σ → Prop} {as : List α}
    (hf : ∀ a ∈ as, ∀ s, I s → Succeeds (f a) s)
    (hI : ∀ a ∈ as, ∀ s b s', I s → f a s = .ok b s' → I s') {s : σ}
    (hs : I s) : Succeeds (as.mapM f) s := by
  induction as generalizing s with
  | nil => exact pure [] s
  | cons a as ih =>
      rw [List.forall_mem_cons] at hf hI
      rw [List.mapM_cons]
      refine (hf.1 s hs).bind fun b s₁ hb => ?_
      refine (ih hf.2 hI.2 (hI.1 s b s₁ hs hb)).bind fun bs s₂ _ => ?_
      exact pure (b :: bs) s₂

/-- So does a loop without results not fault. -/
theorem forM {f : α → EStateM ε σ PUnit} {I : σ → Prop} {as : List α}
    (hf : ∀ a ∈ as, ∀ s, I s → Succeeds (f a) s)
    (hI : ∀ a ∈ as, ∀ s s', I s → f a s = .ok ⟨⟩ s' → I s') {s : σ}
    (hs : I s) : Succeeds (as.forM f) s := by
  induction as generalizing s with
  | nil => exact pure PUnit.unit s
  | cons a as ih =>
      rw [List.forall_mem_cons] at hf hI
      change Succeeds (f a >>= fun _ => as.forM f) s
      refine (hf.1 s hs).bind fun _ s₁ hrun => ?_
      exact ih hf.2 hI.2 (hI.1 s s₁ hs hrun)

end Succeeds

/-- The action gives a result, or it ends in one of some faults. -/
def SucceedsOr (F : ε → Prop) (x : EStateM ε σ α) (s : σ) : Prop :=
  Succeeds x s ∨ ∃ e s', x s = .error e s' ∧ F e

namespace SucceedsOr

variable {F F' : ε → Prop}

/-- More faults may be allowed for. -/
theorem mono {x : EStateM ε σ α} {s : σ} (h : SucceedsOr F x s)
    (hF : ∀ e, F e → F' e) : SucceedsOr F' x s := by
  rcases h with hx | ⟨e, s', hfault, he⟩
  · exact .inl hx
  · exact .inr ⟨e, s', hfault, hF e he⟩

/-- Where there is no such fault there is a result. -/
theorem succeeds {x : EStateM ε σ α} {s : σ} (h : SucceedsOr F x s)
    (hF : ∀ e, ¬ F e) : Succeeds x s := by
  rcases h with hx | ⟨e, s', hfault, he⟩
  · exact hx
  · exact absurd he (hF e)

/-- The faults of a sequence are those of its steps. -/
theorem bind {x : EStateM ε σ α} {f : α → EStateM ε σ β} {s : σ}
    (hx : SucceedsOr F x s)
    (hf : ∀ a s₁, x s = .ok a s₁ → SucceedsOr F (f a) s₁) :
    SucceedsOr F (x >>= f) s := by
  rcases hx with ⟨a, s₁, ha⟩ | ⟨e, s₁, hfault, he⟩
  · have hrest := hf a s₁ ha
    unfold SucceedsOr Succeeds
    rw [bind_of_run ha]
    exact hrest
  · exact .inr ⟨e, s₁, bind_of_fault hfault, he⟩

/-- What the turns of a loop end in, the loop ends in. -/
theorem forM {f : α → EStateM ε σ PUnit} {I : σ → Prop} {as : List α}
    (hf : ∀ a ∈ as, ∀ s, I s → SucceedsOr F (f a) s)
    (hI : ∀ a ∈ as, ∀ s s', I s → f a s = .ok ⟨⟩ s' → I s') {s : σ}
    (hs : I s) : SucceedsOr F (as.forM f) s := by
  induction as generalizing s with
  | nil => exact .inl (.pure PUnit.unit s)
  | cons a as ih =>
      rw [List.forall_mem_cons] at hf hI
      change SucceedsOr F (f a >>= fun _ => as.forM f) s
      refine (hf.1 s hs).bind fun _ s₁ hrun => ?_
      exact ih hf.2 hI.2 (hI.1 s s₁ hs hrun)

end SucceedsOr

end TypeParams
