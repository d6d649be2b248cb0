import OaiGnb.Lib.Index

/-!
# Runs of a step function that may fail

A component is a function `step` that takes a state and an input and either returns a
new state with its outputs or fails.  `Reachable step guard s₀` are the states reached
from `s₀` by steps that return, each taken where `guard` allows it, and
`Reachable.invariant` is the one induction every safety theorem uses.  `run` executes a
list of inputs and keeps the outputs, for statements about whole traces.
-/

namespace OaiGnb.Run

variable {σ ι ο ε α β : Type}

/-- The states reached from `s₀` by returning steps that `guard` allows. -/
inductive Reachable (step : σ → ι → Except ε (σ × ο)) (guard : σ → ι → Prop) (s₀ : σ) : σ → Prop
  | start : Reachable step guard s₀ s₀
  | step {s s' : σ} {i : ι} {o : ο} : Reachable step guard s₀ s → guard s i →
      step s i = .ok (s', o) → Reachable step guard s₀ s'

variable {guard : σ → ι → Prop} {s₀ s s' : σ} {b : β} {x : Except ε α} {i : ι} {is : List ι}
  {os : List ο}

variable {step : σ → ι → Except ε (σ × ο)}

/-- **The invariant rule.** -/
theorem Reachable.invariant (Inv : σ → Prop) (hstart : Inv s₀)
    (hstep : ∀ s i s' o, Inv s → guard s i → step s i = .ok (s', o) → Inv s')
    (h : Reachable step guard s₀ s) : Inv s := by
  induction h with
  | start => exact hstart
  | step _ hg hs ih => exact hstep _ _ _ _ ih hg hs

/-- Execute a list of inputs, keeping the output of every step. -/
def run (step : σ → ι → Except ε (σ × ο)) : σ → List ι → Except ε (σ × List ο)
  | s, [] => .ok (s, [])
  | s, i :: is => do
      let (s₁, o) ← step s i
      let (s₂, os) ← run step s₁ is
      return (s₂, o :: os)

theorem ok_inj {a a' : α} {b' : β} (h : (.ok (a, b) : Except ε (α × β)) = .ok (a', b')) :
    a = a' ∧ b = b' :=
  Prod.mk.inj (Except.ok.inj h)

variable {f : α → Except ε β}

theorem bind_returns :
    x >>= f = .ok b ↔ ∃ a, x = .ok a ∧ f a = .ok b := by
  constructor
  · intro h
    match x, h with
    | .ok a, h => exact ⟨a, rfl, h⟩
  · rintro ⟨a, rfl, h⟩
    exact h

theorem bind_ok_inj {g : α → β} (h : (x >>= fun a => .ok (g a)) = .ok b) :
    ∃ a, x = .ok a ∧ g a = b := by
  obtain ⟨a, hx, h⟩ := bind_returns.mp h
  exact ⟨a, hx, Except.ok.inj h⟩

theorem bind_pair_inj {g : α → β} {k : α → ο} {o : ο}
    (h : (x >>= fun a => .ok (g a, k a)) = .ok (b, o)) : ∃ a, x = .ok a ∧ g a = b ∧ k a = o := by
  obtain ⟨a, hx, h⟩ := bind_returns.mp h
  exact ⟨a, hx, ok_inj h⟩

/-- A result meets `P`, or a fault `Q`. -/
def Meets (P : α → Prop) (Q : ε → Prop) : Except ε α → Prop
  | .ok a => P a
  | .error e => Q e

variable {P : α → Prop} {Q : ε → Prop}

theorem Meets.bind {P' : β → Prop} {f : α → Except ε β} (h : Meets P Q x)
    (hf : ∀ a, P a → Meets P' Q (f a)) : Meets P' Q (x >>= f) :=
  match x, h with
  | .ok a, h => hf a h
  | .error _, h => h

theorem map_returns {f : α → β} :
    x.map f = .ok b ↔ ∃ a, x = .ok a ∧ f a = b := by
  constructor
  · intro h
    match x, h with
    | .ok a, h => exact ⟨a, rfl, Except.ok.inj h⟩
  · rintro ⟨a, rfl, rfl⟩
    rfl

@[simp] theorem ok_bind (a : α) (f : α → Except ε β) : Except.ok a >>= f = f a := rfl

@[simp] theorem error_bind (e : ε) (f : α → Except ε β) :
    (Except.error e : Except ε α) >>= f = .error e := rfl

@[simp] theorem pure_eq_ok (a : α) : (pure a : Except ε α) = .ok a := rfl

theorem run_cons_returns :
    run step s (i :: is) = .ok (s', os) ↔
      ∃ s₁ o os₁, step s i = .ok (s₁, o) ∧ run step s₁ is = .ok (s', os₁) ∧ os = o :: os₁ := by
  constructor
  · grind [run, bind_returns, pure_eq_ok, Except.ok.injEq, Prod.mk.injEq]
  · rintro ⟨s₁, o, os₁, h1, h3, rfl⟩
    simp only [run, h1, ok_bind, h3, pure_eq_ok]

theorem Reachable.of_run (h : Reachable step guard s₀ s)
    (hg : ∀ s, ∀ i ∈ is, guard s i) (hr : run step s is = .ok (s', os)) :
    Reachable step guard s₀ s' := by
  induction is generalizing s os with
  | nil =>
    obtain ⟨rfl, _⟩ := ok_inj hr
    exact h
  | cons i is ih =>
    obtain ⟨s₁, o, os₁, h1, h2, _⟩ := run_cons_returns.mp hr
    exact ih (h.step (hg s i List.mem_cons_self) h1)
      (fun s j hj => hg s j (List.mem_cons_of_mem _ hj)) h2

/-- A run that stops when an input is not allowed: its last state. -/
def runWhile (step : σ → ι → Except ε (σ × ο)) (guard : σ → ι → Prop)
    [∀ s i, Decidable (guard s i)] : σ → List ι → Option σ
  | s, [] => some s
  | s, i :: is =>
      if guard s i then
        match step s i with
        | .ok (s', _) => runWhile step guard s' is
        | .error _ => none
      else none

theorem Reachable.of_runWhile [∀ s i, Decidable (guard s i)] (h : Reachable step guard s₀ s)
    (hr : runWhile step guard s is = some s') : Reachable step guard s₀ s' := by
  induction is generalizing s with
  | nil =>
    obtain rfl := Option.some.inj hr
    exact h
  | cons i is ih =>
    rw [runWhile] at hr
    split at hr
    next hg =>
      split at hr
      next hs =>
        exact ih (h.step hg hs) hr
      · cases hr
    · cases hr

theorem exists_reachable (step : σ → ι → Except ε (σ × ο)) (guard : σ → ι → Prop)
    [∀ s i, Decidable (guard s i)] (s₀ : σ) (is : List ι) (f : σ → β)
    (h : (runWhile step guard s₀ is).map f = some b) :
    ∃ s, Reachable step guard s₀ s ∧ f s = b := by
  obtain ⟨s, hs, hf⟩ := Option.map_eq_some_iff.mp h
  exact ⟨s, Reachable.start.of_runWhile hs, hf⟩

theorem exists_of_observed {f : α → β}
    (h : x.toOption.map f = some b) : ∃ a, x = .ok a ∧ f a = b := by
  match x, h with
  | .ok a, h => exact ⟨a, rfl, Option.some.inj h⟩

/-! ### Runs of two related components -/

/-- Every state before a step of the run, together with the input it takes, meets `guard`. -/
def RunMeets (step : σ → ι → Except ε (σ × ο)) (guard : σ → ι → Prop) (s : σ) (is : List ι) :
    Prop :=
  ∀ is₁ i is₂ s' os, is = is₁ ++ i :: is₂ → run step s is₁ = .ok (s', os) → guard s' i

theorem RunMeets.head (h : RunMeets step guard s (i :: is)) : guard s i :=
  h [] i is s [] rfl rfl

theorem RunMeets.tail {o : ο} (h : RunMeets step guard s (i :: is)) (hs : step s i = .ok (s', o)) :
    RunMeets step guard s' is := by
  intro is₁ j is₂ t os he hr
  refine h (i :: is₁) j is₂ t (o :: os) (by rw [he, List.cons_append]) ?_
  exact run_cons_returns.mpr ⟨s', o, os, hs, hr, rfl⟩

theorem RunMeets.take (h : RunMeets step guard s is) (n : ℕ) :
    RunMeets step guard s (is.take n) := by
  intro is₁ i is₂ s' os he hr
  refine h is₁ i (is₂ ++ is.drop n) s' os ?_ hr
  rw [← List.cons_append, ← List.append_assoc, ← he, List.take_append_drop]

theorem RunMeets.and_mem {q : ι → Prop} (h : RunMeets step guard s is) (hq : ∀ i ∈ is, q i) :
    RunMeets step (fun s i => q i ∧ guard s i) s is := by
  intro is₁ i is₂ s' os he hr
  exact ⟨hq i (by rw [he]; simp), h is₁ i is₂ s' os he hr⟩

theorem RunMeets.reachable (h : Reachable step guard s₀ s) (hg : RunMeets step guard s is)
    (hr : run step s is = .ok (s', os)) : Reachable step guard s₀ s' := by
  induction is generalizing s os with
  | nil =>
    obtain ⟨rfl, _⟩ := ok_inj hr
    exact h
  | cons i is ih =>
    obtain ⟨s₁, o, os₁, h1, h2, _⟩ := run_cons_returns.mp hr
    exact ih (h.step hg.head h1) (hg.tail h1) h2

theorem runMeets_of_runWhile [∀ s i, Decidable (guard s i)]
    (h : (runWhile step guard s is).isSome = true) : RunMeets step guard s is := by
  intro is₁ i is₂ s' os he hr
  induction is₁ generalizing s is os with
  | nil =>
    obtain ⟨rfl, _⟩ := ok_inj hr
    subst he
    by_contra hg
    simp [runWhile, hg] at h
  | cons j js ih =>
    obtain ⟨s₁, o, os₁, h1, h2, _⟩ := run_cons_returns.mp hr
    subst he
    refine @ih s₁ (js ++ i :: is₂) ?_ os₁ rfl h2
    rw [List.cons_append, runWhile] at h
    split at h
    · simpa [h1] using h
    · cases h

theorem map_bind_eq {α' β' : Type} {g : α → α'}
    {f' : α' → Except ε β'} {h : β → β'} (hf : ∀ a, x = .ok a → f' (g a) = (f a).map h) :
    x.map g >>= f' = (x >>= f).map h := by
  cases x with
  | error e => rfl
  | ok a => exact hf a rfl

/-- **The simulation rule.**  A renaming of states and inputs that every step commutes with
commutes with whole runs: the renamed run fails or returns as the other does, with the same
outputs. -/
theorem run_map (guard : σ → ι → Prop) (Inv : σ → Prop) (f : σ → σ) (g : ι → ι)
    (hinv : ∀ s i s' o, Inv s → guard s i → step s i = .ok (s', o) → Inv s')
    (hstep : ∀ s i, Inv s → guard s i → guard (f s) (g i) →
      step (f s) (g i) = (step s i).map (fun r => (f r.1, r.2)))
    (is : List ι) (s : σ) (hi : Inv s) (hg : RunMeets step guard s is)
    (hg' : RunMeets step guard (f s) (is.map g)) :
    run step (f s) (is.map g) = (run step s is).map (fun r => (f r.1, r.2)) := by
  induction is generalizing s with
  | nil => rfl
  | cons i is ih =>
    have hone := hstep s i hi hg.head hg'.head
    rw [List.map_cons, run, run, hone]
    refine map_bind_eq ?_
    intro r hr
    obtain ⟨s₁, o⟩ := r
    rw [hr] at hone
    have hrest := ih s₁ (hinv s i s₁ o hi hg.head hr) (hg.tail hr) (hg'.tail hone)
    show (run step (f s₁) (is.map g) >>= _) = _
    rw [hrest]
    exact map_bind_eq fun _ _ => rfl

end OaiGnb.Run
