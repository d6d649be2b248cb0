import OaiGnb.Lib.Index

/-!
# Two maps that index the same things

A thing is stored under its key and has a tag; a second map goes from the tag to an entry that
describes the thing.

* `Paired` : things and entries are in bijection, and each entry describes its thing.
* `Paired.add`, `Paired.replace`, `Paired.remove`, `Paired.rename` : the changes of both maps that
  keep them paired.
-/

namespace OaiGnb.PairedMaps

variable {κ τ β γ : Type*}

structure Paired (tag : β → τ) (describes : γ → κ → β → Prop) (things : κ → Option β)
    (entries : τ → Option γ) : Prop where
  entry : ∀ k b, things k = some b → ∃ c, entries (tag b) = some c ∧ describes c k b
  thing : ∀ t c, entries t = some c → ∃ k b, things k = some b ∧ tag b = t ∧ describes c k b
  unique : ∀ k k' b b', things k = some b → things k' = some b' → tag b = tag b' → k = k'

variable {tag : β → τ} {describes : γ → κ → β → Prop} {things things' : κ → Option β}
  {entries entries' : τ → Option γ}

theorem Paired.empty (hthings : ∀ k, things k = none) (hentries : ∀ t, entries t = none) :
    Paired tag describes things entries := by
  refine ⟨fun k b h => ?_, fun t c h => ?_, fun k _ b _ h => ?_⟩
  · rw [hthings k] at h
    cases h
  · rw [hentries t] at h
    cases h
  · simp_all

variable (h : Paired tag describes things entries)

include h

theorem Paired.add [DecidableEq κ] [DecidableEq τ]
    {k : κ} {b : β} {c : γ} (hkey : things k = none) (htag : entries (tag b) = none)
    (hc : describes c k b) :
    Paired tag describes (Function.update things k (some b))
      (Function.update entries (tag b) (some c)) := by
  -- the tag of an older thing has an entry, so it is not the new one
  have hother : ∀ k' b', things k' = some b' → k' ≠ k ∧ tag b' ≠ tag b := by
    intro k' b' hk'
    constructor
    · grind
    · intro heq
      obtain ⟨c', hc', -⟩ := h.entry k' b' hk'
      simp_all
  have hcases : ∀ k' b', Function.update things k (some b) k' = some b' →
      (k' = k ∧ b' = b) ∨ things k' = some b' := by
    intro k' b' hk'
    by_cases heq : k' = k
    · simp_all
    · simp_all
  refine ⟨fun k' b' hk' => ?_, fun t c' ht => ?_, fun k₁ k₂ b₁ b₂ h₁ h₂ heq => ?_⟩
  · rcases hcases k' b' hk' with ⟨rfl, rfl⟩ | hold
    · exact ⟨c, Function.update_self .., hc⟩
    · rw [Function.update_of_ne (hother k' b' hold).2]
      exact h.entry k' b' hold
  · by_cases heq : t = tag b
    · grind
    · rw [Function.update_of_ne heq] at ht
      obtain ⟨k', b', hk', hb', hc'⟩ := h.thing t c' ht
      grind
  · rcases hcases k₁ b₁ h₁ with ⟨rfl, rfl⟩ | hold₁ <;>
      rcases hcases k₂ b₂ h₂ with ⟨rfl, rfl⟩ | hold₂
    · rfl
    · grind
    · exact absurd heq (hother k₁ b₁ hold₁).2
    · exact h.unique k₁ k₂ b₁ b₂ hold₁ hold₂ heq

theorem Paired.replace [DecidableEq κ] {k : κ} {b b' : β}
    (hkey : things k = some b) (htag : tag b' = tag b)
    (hdescribes : ∀ c, describes c k b ↔ describes c k b') :
    Paired tag describes (Function.update things k (some b')) entries := by
  have hcases : ∀ k₁ b₁, Function.update things k (some b') k₁ = some b₁ →
      ∃ b₀, things k₁ = some b₀ ∧ tag b₁ = tag b₀ ∧ ∀ c, describes c k₁ b₀ → describes c k₁ b₁ := by
    intro k₁ b₁ h₁
    by_cases heq : k₁ = k
    · simp_all
    · simp_all
  refine ⟨fun k₁ b₁ h₁ => ?_, fun t c ht => ?_, fun k₁ k₂ b₁ b₂ h₁ h₂ heq => ?_⟩
  · obtain ⟨b₀, h₀, htag₀, hd⟩ := hcases k₁ b₁ h₁
    obtain ⟨c, hc, hcd⟩ := h.entry k₁ b₀ h₀
    simp_all
  · obtain ⟨k₁, b₁, h₁, hb₁, hc⟩ := h.thing t c ht
    grind
  · obtain ⟨a₁, ha₁, htag₁, -⟩ := hcases k₁ b₁ h₁
    obtain ⟨a₂, ha₂, htag₂, -⟩ := hcases k₂ b₂ h₂
    exact h.unique k₁ k₂ a₁ a₂ ha₁ ha₂ (htag₁.symm.trans (heq.trans htag₂))

theorem Paired.remove (gone : κ → Prop)
    (hgone : ∀ k, gone k → things' k = none) (hkept : ∀ k, ¬ gone k → things' k = things k)
    (hfreed : ∀ k b, gone k → things k = some b → entries' (tag b) = none)
    (hleft : ∀ t, (∀ k b, gone k → things k = some b → tag b ≠ t) → entries' t = entries t) :
    Paired tag describes things' entries' := by
  have hold : ∀ k b, things' k = some b → ¬ gone k ∧ things k = some b := by
    intro k b hk
    have hnot : ¬ gone k := by
      intro hg
      rw [hgone k hg] at hk
      cases hk
    exact ⟨hnot, (hkept k hnot).symm.trans hk⟩
  refine ⟨fun k b hk => ?_, fun t c ht => ?_, fun k₁ k₂ b₁ b₂ h₁ h₂ heq => ?_⟩
  · obtain ⟨hnot, hk⟩ := hold k b hk
    rw [hleft (tag b)]
    · exact h.entry k b hk
    · intro k' b' hg hk' heq
      exact hnot (h.unique k' k b' b hk' hk heq ▸ hg)
  · have hstays : ∀ k b, gone k → things k = some b → tag b ≠ t := by
      intro k b hg hk heq
      rw [← heq, hfreed k b hg hk] at ht
      cases ht
    rw [hleft t hstays] at ht
    obtain ⟨k, b, hk, hb, hc⟩ := h.thing t c ht
    grind
  · exact h.unique k₁ k₂ b₁ b₂ (hold k₁ b₁ h₁).2 (hold k₂ b₂ h₂).2 heq

theorem Paired.rename (move : κ → κ) (hmoved : ∀ k b, things k = some b → things' (move k) = some b)
    (hfrom : ∀ k' b, things' k' = some b → ∃ k, move k = k' ∧ things k = some b)
    (hentry : ∀ k b c, things k = some b → entries (tag b) = some c →
      ∃ c', entries' (tag b) = some c' ∧ describes c' (move k) b)
    (hfree : ∀ t, entries t = none → entries' t = none) :
    Paired tag describes things' entries' := by
  refine ⟨fun k' b hk' => ?_, fun t c' ht => ?_, fun k₁ k₂ b₁ b₂ h₁ h₂ heq => ?_⟩
  · obtain ⟨k, rfl, hk⟩ := hfrom k' b hk'
    obtain ⟨c, hc, -⟩ := h.entry k b hk
    exact hentry k b c hk hc
  · obtain ⟨c, hc⟩ : ∃ c, entries t = some c := by
      cases hc : entries t with
      | none => rw [hfree t hc] at ht; cases ht
      | some c => exact ⟨c, rfl⟩
    obtain ⟨k, b, hk, rfl, -⟩ := h.thing t c hc
    grind
  · obtain ⟨a₁, rfl, ha₁⟩ := hfrom k₁ b₁ h₁
    obtain ⟨a₂, rfl, ha₂⟩ := hfrom k₂ b₂ h₂
    rw [h.unique a₁ a₂ b₁ b₂ ha₁ ha₂ heq]

end OaiGnb.PairedMaps
