import OaiGnb.Lib.Index

/-!
# Loops with an exit

A loop is a step function that goes on with a new state or stops with a result.  `iterate` runs it
for a bounded number of steps; a measure that decreases whenever the loop goes on bounds the steps
it needs.

* `Reached.invariant`: what every state of a loop satisfies.
* `iterate_some`: a loop with a measure stops.
* `Returns.iterate`: a computation of the loop is what `iterate` finds.
* `Follows.iterate_iff`: when a loop that fails where something is missing ends well.
-/

namespace OaiGnb.Loop

variable {σ ρ : Type}

/-- What one step comes to. -/
inductive Next (σ ρ : Type) where
  | go (s : σ)
  | stop (r : ρ)

/-- At most the given number of steps; none if the loop has not stopped by then. -/
def iterate (step : σ → Next σ ρ) : ℕ → σ → Option ρ
  | 0, _ => none
  | n + 1, s =>
      match step s with
      | .go s' => iterate step n s'
      | .stop r => some r

/-- The states of the loop that starts in `s₀`. -/
inductive Reached (step : σ → Next σ ρ) (s₀ : σ) : σ → Prop
  | start : Reached step s₀ s₀
  | go {s s' : σ} : Reached step s₀ s → step s = .go s' → Reached step s₀ s'

/-- The loop that starts in a state stops with a result. -/
inductive Returns (step : σ → Next σ ρ) : σ → ρ → Prop
  | stop {s : σ} {r : ρ} : step s = .stop r → Returns step s r
  | go {s s' : σ} {r : ρ} : step s = .go s' → Returns step s' r → Returns step s r

variable {step : σ → Next σ ρ} {s₀ s : σ}

theorem Reached.invariant (Inv : σ → Prop) (hstart : Inv s₀)
    (hstep : ∀ s s', Inv s → step s = .go s' → Inv s') (h : Reached step s₀ s) : Inv s := by
  induction h with
  | start => exact hstart
  | go _ hs ih => exact hstep _ _ ih hs

/-- **A loop with a measure stops**, in one of its states. -/
theorem iterate_some (μ : σ → ℕ) (hμ : ∀ s s', step s = .go s' → μ s' < μ s) (s₀ : σ) :
    ∀ {n : ℕ} {s : σ}, Reached step s₀ s → μ s < n →
      ∃ s' r, Reached step s₀ s' ∧ step s' = .stop r ∧ iterate step n s = some r := by
  intro n
  induction n with
  | zero => omega
  | succ n ih =>
    intro s hs hn
    cases hstep : step s with
    | go s' =>
      have hlt := hμ s s' hstep
      obtain ⟨s₁, r, hs₁, hstop, hr⟩ := ih (hs.go hstep) (Nat.lt_of_lt_of_le hlt
        (Nat.lt_succ_iff.mp hn))
      grind [iterate]
    | stop r =>
      refine ⟨s, r, hs, hstep, ?_⟩
      rw [iterate, hstep]

theorem Reached.trans {s₁ s₂ s₃ : σ} (h₁ : Reached step s₁ s₂)
    (h₂ : Reached step s₂ s₃) : Reached step s₁ s₃ := by
  induction h₂ with
  | start => exact h₁
  | go _ hs ih => exact ih.go hs

theorem Reached.returns {r : ρ} (h : Reached step s₀ s)
    (hr : Returns step s r) : Returns step s₀ r := by
  induction h with
  | start => exact hr
  | go _ hs ih => exact ih (.go hs hr)

theorem Returns.iterate (μ : σ → ℕ) (hμ : ∀ s s', step s = .go s' → μ s' < μ s) {r : ρ}
    (h : Returns step s r) {n : ℕ} (hn : μ s < n) : iterate step n s = some r := by
  induction h generalizing n with
  | stop hstep =>
    cases n with
    | zero => omega
    | succ n => rw [Loop.iterate, hstep]
  | go hstep _ ih =>
    cases n with
    | zero => omega
    | succ n =>
      grind [Loop.iterate, Nat.lt_of_lt_of_le]

/-! ### Loops that fail where something is missing -/

variable {ν : Type}

/-- Nothing is missing at `v` and wherever `next` leads from there. -/
inductive Throughout (whole : ν → Prop) (next : ν → Option ν) : ν → Prop
  | last {v : ν} : whole v → next v = none → Throughout whole next v
  | next {v v' : ν} : whole v → next v = some v' → Throughout whole next v' →
      Throughout whole next v

/-- `next` leads from one to the other. -/
inductive Leads (next : ν → Option ν) (v₀ : ν) : ν → Prop
  | start : Leads next v₀ v₀
  | next {v v' : ν} : Leads next v₀ v → next v = some v' → Leads next v₀ v'

theorem Leads.trans_or {next : ν → Option ν} {v₀ v w : ν} (hv : Leads next v₀ v)
    (hw : Leads next v₀ w) : Leads next v w ∨ Leads next w v := by
  induction hv with
  | start => exact Or.inl hw
  | @next v v' hv hnext ih =>
    rcases ih with h | h
    · -- from `v` on the way to `w` goes through `v'`, unless it has ended
      have hsplit : v = w ∨ Leads next v' w := by
        clear hv hw
        induction h with
        | start => exact Or.inl rfl
        | next _ hn ih =>
          rcases ih with rfl | ih
          · rw [hnext] at hn
            rw [Option.some.inj hn]
            exact Or.inr .start
          · exact Or.inr (ih.next hn)
      rcases hsplit with rfl | h
      · exact Or.inr (Leads.start.next hnext)
      · exact Or.inl h
    · exact Or.inr (h.next hnext)

theorem Leads.eq_of_none {next : ν → Option ν} {v w : ν} (h : Leads next v w)
    (hv : next v = none) : w = v := by
  induction h with
  | start => rfl
  | next _ hn ih =>
    rw [ih, hv] at hn
    cases hn

/-- The way ends in one place. -/
theorem Leads.unique {next : ν → Option ν} {v₀ v w : ν} (hv : Leads next v₀ v)
    (hvend : next v = none) (hw : Leads next v₀ w) (hwend : next w = none) : v = w := by
  rcases hv.trans_or hw with h | h
  · exact (h.eq_of_none hvend).symm
  · exact h.eq_of_none hwend

/-- A loop goes where `next` leads, as far as its states are seen through `view`, and fails where
something is missing. -/
structure Follows (step : σ → Next σ ρ) (view : σ → ν) (Inv : σ → Prop) (Good : ρ → Prop)
    (whole : ν → Prop) (next : ν → Option ν) : Prop where
  stop : ∀ s, Inv s → whole (view s) → next (view s) = none → ∃ r, step s = .stop r ∧ Good r
  go : ∀ s v, Inv s → whole (view s) → next (view s) = some v →
    ∃ s', step s = .go s' ∧ view s' = v ∧ Inv s'
  miss : ∀ s, Inv s → ¬ whole (view s) → ∃ r, step s = .stop r ∧ ¬ Good r

/-- **Such a loop ends well exactly if nothing is missing.** -/
theorem Follows.iterate_iff {view : σ → ν} {Inv : σ → Prop} {Good : ρ → Prop}
    {whole : ν → Prop} {next : ν → Option ν} (h : Follows step view Inv Good whole next)
    (μ : ν → ℕ) (hμ : ∀ v v', next v = some v' → μ v' < μ v) {n : ℕ} (hs : Inv s)
    (hn : μ (view s) < n) :
    (∃ r, iterate step n s = some r ∧ Good r) ↔ Throughout whole next (view s) := by
  induction n generalizing s with
  | zero => omega
  | succ n ih =>
    by_cases hwhole : whole (view s)
    · cases hnext : next (view s) with
      | none =>
        obtain ⟨r, hstep, hr⟩ := h.stop s hs hwhole hnext
        rw [iterate, hstep]
        exact ⟨fun _ => .last hwhole hnext, fun _ => ⟨r, rfl, hr⟩⟩
      | some v =>
        obtain ⟨s', hstep, rfl, hs'⟩ := h.go s v hs hwhole hnext
        have hlt := hμ _ _ hnext
        rw [iterate, hstep]
        refine (ih hs' (by omega)).trans ⟨.next hwhole hnext, fun hall => ?_⟩
        cases hall with
        | last _ hnone => rw [hnext] at hnone; cases hnone
        | next _ hsome hall => rwa [← Option.some.inj (hnext.symm.trans hsome)] at hall
    · obtain ⟨r, hstep, hr⟩ := h.miss s hs hwhole
      rw [iterate, hstep]
      refine ⟨fun ⟨r', hr', hgood⟩ => absurd (Option.some.inj hr' ▸ hgood) hr, fun hall => ?_⟩
      cases hall with
      | last hw => exact absurd hw hwhole
      | next hw => exact absurd hw hwhole

/-- Check that nothing is missing, on a way of at most the given length. -/
def checkThroughout (whole : ν → Prop) [DecidablePred whole] (next : ν → Option ν) : ℕ → ν → Bool
  | 0, _ => false
  | n + 1, v =>
      decide (whole v) && match next v with
        | none => true
        | some v' => checkThroughout whole next n v'

theorem throughout_of_check {whole : ν → Prop} [DecidablePred whole] {next : ν → Option ν} (n : ℕ)
    {v : ν} (h : checkThroughout whole next n v = true) : Throughout whole next v := by
  induction n generalizing v with
  | zero => cases h
  | succ n ih =>
    rw [checkThroughout, Bool.and_eq_true, decide_eq_true_eq] at h
    cases hnext : next v with
    | none => exact .last h.1 hnext
    | some v' =>
      rw [hnext] at h
      exact .next h.1 hnext (ih h.2)

end OaiGnb.Loop
