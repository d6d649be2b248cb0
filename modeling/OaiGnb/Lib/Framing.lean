import OaiGnb.Lib.Loop

/-!
# Loops over a sequence of items

A sequence of items is encoded by the concatenation of the items' encodings, and a loop takes them
off the rest of its input.

* `Reads`: the loop takes some input off the rest and adds to its output.
* `Reads.flatMap`: so it does with a sequence of items.
* `visits_offsets_iff`: the offsets at which the iterations of a loop begin are those of the items.
-/

namespace OaiGnb.Framing

open Loop

variable {σ ρ β γ ι : Type}

/-! ### Input and output of a loop -/

/-- From wherever the rest of the input begins with `input` the loop comes to the rest behind it,
and adds `parts` to its output. -/
def Reads (step : σ → Next σ ρ) (rest : σ → List β) (out : σ → List γ) (input : List β)
    (parts : List γ) : Prop :=
  ∀ s tail, rest s = input ++ tail →
    ∃ s', Reached step s s' ∧ rest s' = tail ∧ out s' = out s ++ parts

variable {step : σ → Next σ ρ} {rest : σ → List β} {out : σ → List γ}

theorem Reads.nil : Reads step rest out [] [] := by
  intro s tail hs
  exact ⟨s, .start, hs, (List.append_nil _).symm⟩

theorem Reads.append {input₁ input₂ : List β} {parts₁ parts₂ : List γ}
    (h₁ : Reads step rest out input₁ parts₁) (h₂ : Reads step rest out input₂ parts₂) :
    Reads step rest out (input₁ ++ input₂) (parts₁ ++ parts₂) := by
  intro s tail hs
  obtain ⟨s₁, hr₁, hs₁, ho₁⟩ := h₁ s (input₂ ++ tail) (by rw [hs, List.append_assoc])
  obtain ⟨s₂, hr₂, hs₂, ho₂⟩ := h₂ s₁ tail hs₁
  exact ⟨s₂, hr₁.trans hr₂, hs₂, by rw [ho₂, ho₁, List.append_assoc]⟩

theorem Reads.of_step {input : List β} {parts : List γ} (h : ∀ s tail, rest s = input ++ tail →
      ∃ s', step s = .go s' ∧ rest s' = tail ∧ out s' = out s ++ parts) :
    Reads step rest out input parts := by
  intro s tail hs
  obtain ⟨s', hstep, hs', ho⟩ := h s tail hs
  exact ⟨s', .go .start hstep, hs', ho⟩

/-- **A sequence of items.** -/
theorem Reads.flatMap {encode : ι → List β} {parts : ι → List γ} {items : List ι}
    (h : ∀ i ∈ items, Reads step rest out (encode i) (parts i)) :
    Reads step rest out (items.flatMap encode) (items.flatMap parts) := by
  induction items with
  | nil => exact .nil
  | cons i items ih =>
    grind [List.mem_cons_self, append, List.mem_cons_of_mem]

/-! ### Where the iterations begin -/

/-- The offsets at which the items of a sequence begin. -/
def starts (encode : ι → List β) : ℕ → List ι → List ℕ
  | _, [] => []
  | off, i :: items => off :: starts encode (off + (encode i).length) items

/-- The rests of the input at which the iterations begin, of at most the given number; a loop ends
where nothing is left. -/
def visits (step : σ → Next σ ρ) (rest : σ → List β) : ℕ → σ → List (List β)
  | 0, _ => []
  | n + 1, s =>
      if (rest s).isEmpty = true then []
      else
        rest s :: match step s with
          | .go s' => visits step rest n s'
          | .stop _ => []

theorem visits_nil {n : ℕ} {s : σ} (hs : rest s = []) : visits step rest n s = [] := by
  cases n with
  | zero => rfl
  | succ n => rw [visits, hs]; rfl

theorem visits_cons {n : ℕ} {s : σ} (hs : rest s ≠ []) :
    visits step rest (n + 1) s = rest s :: match step s with
      | .go s' => visits step rest n s'
      | .stop _ => [] := by
  have hnot : ¬ (rest s).isEmpty = true := fun hempty => hs (List.isEmpty_iff.mp hempty)
  rw [visits, if_neg hnot]

/-- What a loop does with an item, given whether it knows the item's size and whether it goes on
behind the item. -/
structure Takes (step : σ → Next σ ρ) (rest : σ → List β) (encode : ι → List β) (sized : ι → Prop)
    (passes : ι → List β → Prop) (i : ι) : Prop where
  pass : ∀ s tail, rest s = encode i ++ tail → sized i → passes i tail →
    ∃ s', step s = .go s' ∧ rest s' = tail
  stop : ∀ s tail, rest s = encode i ++ tail → sized i → ¬ passes i tail →
    ∃ r, step s = .stop r
  slip : ∀ s tail, rest s = encode i ++ tail → ¬ sized i →
    ∃ s', step s = .go s' ∧ tail.length < (rest s').length

/-- Every item has a size that the loop knows, and the loop goes on behind every one but the last.
-/
def Passable (encode : ι → List β) (sized : ι → Prop) (passes : ι → List β → Prop) :
    List ι → Prop
  | [] => True
  | i :: items => sized i ∧ (items ≠ [] → passes i (items.flatMap encode)) ∧
      Passable encode sized passes items

instance decidablePassable {encode : ι → List β} {sized : ι → Prop} {passes : ι → List β → Prop}
    [∀ i, Decidable (sized i)] [∀ i tail, Decidable (passes i tail)] :
    ∀ items : List ι, Decidable (Passable encode sized passes items)
  | [] => .isTrue trivial
  | i :: items =>
      have : Decidable (Passable encode sized passes items) := decidablePassable items
      inferInstanceAs (Decidable (sized i ∧ (items ≠ [] → passes i (items.flatMap encode)) ∧
        Passable encode sized passes items))

/-- **The iterations begin where the items do** when the loop knows the sizes and does not stop
early, and only then. -/
theorem visits_offsets_iff {encode : ι → List β} {sized : ι → Prop} {passes : ι → List β → Prop}
    {items : List ι} (hne : ∀ i ∈ items, encode i ≠ [])
    (h : ∀ i ∈ items, Takes step rest encode sized passes i) {n off : ℕ} {s : σ}
    (hs : rest s = items.flatMap encode) (hn : (rest s).length < n) :
    ((visits step rest n s).map (fun r => off + (rest s).length - r.length)
      = starts encode off items ↔ Passable encode sized passes items) := by
  induction items generalizing n off s with
  | nil =>
    rw [visits_nil hs]
    exact ⟨fun _ => trivial, fun _ => rfl⟩
  | cons i items ih =>
    have hi : 0 < (encode i).length := List.length_pos_iff.mpr (hne i List.mem_cons_self)
    have htakes := h i List.mem_cons_self
    rw [List.flatMap_cons] at hs
    have hlen : (rest s).length = (encode i).length + (items.flatMap encode).length := by
      rw [hs, List.length_append]
    rcases n with _ | n
    · omega
    have hnil : rest s ≠ [] := List.length_pos_iff.mp (by omega)
    have hfirst : off + (rest s).length - (rest s).length = off := by omega
    rw [visits_cons hnil, starts, List.map_cons, hfirst, List.cons.injEq]
    by_cases hsized : sized i
    · by_cases hpass : passes i (items.flatMap encode)
      · -- the rest of the sequence
        obtain ⟨s', hstep, hs'⟩ := htakes.pass s _ hs hsized hpass
        have hlen' : (rest s').length = (items.flatMap encode).length := by rw [hs']
        have hoff : off + (rest s).length = off + (encode i).length + (rest s').length := by omega
        rw [hstep, hoff]
        have htail := @ih (List.forall_mem_cons.mp hne).2
          (List.forall_mem_cons.mp h).2 n (off + (encode i).length) s' hs'
          (by omega)
        exact ⟨fun heq => ⟨hsized, fun _ => hpass, htail.mp heq.2⟩,
          fun hok => ⟨rfl, htail.mpr hok.2.2⟩⟩
      · -- the loop stops: this is the last item
        obtain ⟨r, hstep⟩ := htakes.stop s _ hs hsized hpass
        rw [hstep]
        cases items with
        | nil => exact ⟨fun _ => ⟨hsized, fun hne => absurd rfl hne, trivial⟩, fun _ => ⟨rfl, rfl⟩⟩
        | cons j items =>
          refine ⟨fun heq => (by cases heq.2), fun hok => ?_⟩
          exact absurd (hok.2.1 (List.cons_ne_nil _ _)) hpass
    · -- the next iteration begins inside the item
      obtain ⟨s', hstep, hslip⟩ := htakes.slip s _ hs hsized
      refine ⟨?_, fun hok => absurd hok.1 hsized⟩
      intro heq
      rcases n with _ | n
      · omega
      have heq := heq.2
      rw [hstep] at heq
      dsimp only at heq
      rw [visits_cons (List.length_pos_iff.mp (by omega)), List.map_cons] at heq
      cases items with
      | nil => cases heq
      | cons j items =>
        rw [starts, List.cons.injEq] at heq
        omega

end OaiGnb.Framing
