import OaiGnb.Mac.Pucch

/-!
# The order of downlink feedback

`post_process_dlsch` puts a HARQ process at the end of `feedback_dl_harq` when
`nr_acknack_scheduling` has found a slot for its feedback, and `find_harq` only looks at the head of
that list.  The list is kept here as the times of the feedback, counted in slots.

* `nrAcknackScheduling_usable`: the search takes a usable occasion, the first one that is open.
* `reachable_feedbackSorted`: the list stays sorted, as long as a usable occasion before the
  feedback of an earlier transmission comes behind an open one in the list of timing values.
-/

namespace OaiGnb.Mac.FeedbackOrder

open Run Mac.Pucch

/-- The ring of the UE, and the feedback times of `feedback_dl_harq`, every process ever added. -/
structure FeedbackState where
  ring : State
  feedbackDlHarq : List ℕ

/-- The time of the feedback that the search has put on the PUCCH `e`; `timing_indicator` is the
index of the timing value. -/
def feedbackTime (cfg : PucchConfig) (isCommon : Bool) (now : ℕ) (e : SchedPucch) : ℕ :=
  now + (cfg.getPdschToHarqFeedback isCommon).getD e.timingIndicator 0 + cfg.koffset

/-- One call; a process is added when the search for its feedback succeeds. -/
def feedbackStep (cfg : PucchConfig) (st : FeedbackState) (i : Input) :
    Except Fault (FeedbackState × Option ℕ) := do
  let (s, r) ← step cfg st.ring i
  match i, r with
  | .acknackScheduling isCommon _ _ _, some index =>
      return (⟨s, st.feedbackDlHarq ++ [feedbackTime cfg isCommon st.ring.now (s.pucch index)]⟩, r)
  | _, _ => return (⟨s, st.feedbackDlHarq⟩, r)

section Search

variable (cfg : PucchConfig) (beamFree vrbFree : ℕ → Bool)

/-- One more HARQ bit fits into the entry of a slot. -/
def HasRoom (e : SchedPucch) : Prop :=
  ¬ (e.csiBits = 0 ∧ e.daiC = 2) ∧ ¬ (e.csiBits > 0 ∧ e.simultaneousHarqcsi = false) ∧
    ¬ (e.csiBits > 0 ∧
      cfg.checkBitsVsCoderateLimit (e.csiBits + e.daiC + 2) e.resourceIndicator = false) ∧
    ¬ (e.csiBits > 0 ∧ e.daiC ≥ 3)

/-- The occasion of the timing value `fb` with index `f` can be taken: it is late enough and in an
uplink slot, and its entry has room or its beam and resource blocks are free. -/
def Usable (s : State) (f fb : ℕ) : Prop :=
  cfg.minRxTxTime ≤ fb ∧ cfg.isUlSlot (s.now + fb + cfg.koffset) = true ∧
    ((s.pucch (indexOf cfg (s.now + fb + cfg.koffset))).For cfg (s.now + fb + cfg.koffset) ∧
        HasRoom cfg (s.pucch (indexOf cfg (s.now + fb + cfg.koffset))) ∨
      ¬ (s.pucch (indexOf cfg (s.now + fb + cfg.koffset))).For cfg (s.now + fb + cfg.koffset) ∧
        beamFree f = true ∧ vrbFree f = true)

/-- The occasion is usable and its entry is not one of another time, which the search only clears
when it comes to it. -/
def Open (s : State) (f fb : ℕ) : Prop :=
  Usable cfg beamFree vrbFree s f fb ∧
    ((s.pucch (indexOf cfg (s.now + fb + cfg.koffset))).active = true →
      (s.pucch (indexOf cfg (s.now + fb + cfg.koffset))).For cfg (s.now + fb + cfg.koffset))

instance (e : SchedPucch) (t : ℕ) : Decidable (e.For cfg t) := by
  unfold SchedPucch.For
  infer_instance

instance (e : SchedPucch) : Decidable (HasRoom cfg e) := by
  unfold HasRoom
  infer_instance

instance (s : State) (f fb : ℕ) : Decidable (Usable cfg beamFree vrbFree s f fb) := by
  unfold Usable
  infer_instance

instance (s : State) (f fb : ℕ) : Decidable (Open cfg beamFree vrbFree s f fb) := by
  unfold Open
  infer_instance

/-- During a search entries of other times are cleared. -/
structure Cleared (s s₁ : State) : Prop where
  now : s₁.now = s.now
  entry : ∀ i, s₁.pucch i = s.pucch i ∨ (s₁.pucch i).active = false ∧
    ∀ t, cfg.isUlSlot t = true → s.now ≤ t ∧ t ≤ s.now + cfg.ahead → indexOf cfg t = i →
      ¬ (s.pucch i).For cfg t

variable {cfg beamFree vrbFree}

theorem Cleared.clear {s s₁ : State} (h : Cleared cfg s s₁) {t : ℕ} (hul : cfg.isUlSlot t = true)
    (ht : s.now ≤ t ∧ t ≤ s.now + cfg.ahead) (hnot : ¬ (s₁.pucch (indexOf cfg t)).For cfg t)
    (hactive : (s₁.pucch (indexOf cfg t)).active = true) :
    Cleared cfg s (s₁.set (indexOf cfg t) .zero) := by
  refine ⟨h.now, fun i => ?_⟩
  by_cases hi : i = indexOf cfg t
  · right
    have hself : (s₁.set (indexOf cfg t) .zero).pucch i = .zero := if_pos hi
    refine ⟨by rw [hself]; rfl, fun u hu hut hiu => ?_⟩
    obtain rfl := indexOf_injective cfg hu hul hut ht (hiu.trans hi)
    rcases h.entry i with heq | ⟨hoff, _⟩
    · rw [← heq, hi]
      exact hnot
    · rw [hi, hactive] at hoff
      cases hoff
  · have hne : (s₁.set (indexOf cfg t) .zero).pucch i = s₁.pucch i := if_neg hi
    rw [hne]
    exact h.entry i

/-- **What the search takes** could be taken in the state before it, no occasion before it in the
list was open, and its entry is about the time of the feedback. -/
theorem nrAcknackScheduling_usable {rPucch : ℤ} {s s' : State} {i : ℕ} (fbs : List ℕ)
    (hfbs : ∀ fb ∈ fbs, fb ≤ cfg.maxFbTime) (f : ℕ) (s₁ : State) (hc : Cleared cfg s s₁)
    (h : nrAcknackScheduling cfg rPucch beamFree vrbFree f fbs s₁ = (s', some i)) :
    ∃ k fb, fbs[k]? = some fb ∧ Usable cfg beamFree vrbFree s (f + k) fb ∧
      (s'.pucch i).timingIndicator = f + k ∧
      (s'.pucch i).For cfg (s.now + fb + cfg.koffset) ∧
      ∀ j < k, ∀ fb', fbs[j]? = some fb' → ¬ Open cfg beamFree vrbFree s (f + j) fb' := by
  induction fbs generalizing f s₁ with
  | nil => cases (Prod.mk.inj h).2
  | cons fb fbs ih =>
    have hnext : ∀ s₂, Cleared cfg s s₂ → ¬ Open cfg beamFree vrbFree s f fb →
        nrAcknackScheduling cfg rPucch beamFree vrbFree (f + 1) fbs s₂ = (s', some i) →
        ∃ k fb', (fb :: fbs)[k]? = some fb' ∧ Usable cfg beamFree vrbFree s (f + k) fb' ∧
          (s'.pucch i).timingIndicator = f + k ∧
          (s'.pucch i).For cfg (s.now + fb' + cfg.koffset) ∧
          ∀ j < k, ∀ fb', (fb :: fbs)[j]? = some fb' →
            ¬ Open cfg beamFree vrbFree s (f + j) fb' := by
      intro s₂ hc₂ hpass h₂
      obtain ⟨k, fb', hk, hu, ht, hfor, hfirst⟩ :=
        ih (List.forall_mem_cons.mp hfbs).2 (f + 1) s₂ hc₂ h₂
      refine ⟨k + 1, fb', hk, by rwa [show f + (k + 1) = f + 1 + k by omega], by omega, hfor, ?_⟩
      intro j hj fb'' hj'
      cases j with
      | zero => exact Option.some.inj hj' ▸ hpass
      | succ j =>
        rw [show f + (j + 1) = f + 1 + j by omega]
        exact hfirst j (by omega) fb'' hj'
    have hfb := hfbs fb List.mem_cons_self
    set t := s.now + fb + cfg.koffset with htime
    obtain ⟨hslot, hframe⟩ := ahead_frame_slot cfg s.now fb cfg.koffset
    have hindex : cfg.getPucchIndex (cfg.frame t) (cfg.slot t) = indexOf cfg t := rfl
    rw [nrAcknackScheduling] at h
    dsimp only at h
    rw [hc.now, hslot, hframe, isUlSlot_slot, hindex] at h
    split at h
    next hmin => exact hnext s₁ hc (fun ho => by have := ho.1.1; omega) h
    rename_i hmin
    split at h
    next hdl => exact hnext s₁ hc (fun ho => by simp [ho.1.2.1] at hdl) h
    rename_i hdl
    have hul : cfg.isUlSlot t = true := by simpa using hdl
    have ht : s.now ≤ t ∧ t ≤ s.now + cfg.ahead := by
      unfold PucchConfig.ahead
      omega
    have hentry := hc.entry (indexOf cfg t)
    have hset : ∀ e, (s₁.set (indexOf cfg t) e).pucch (indexOf cfg t) = e := fun e => if_pos rfl
    split at h
    next hfor =>
      have heq : s₁.pucch (indexOf cfg t) = s.pucch (indexOf cfg t) := by
        rcases hentry with heq | ⟨hoff, _⟩
        · exact heq
        · rw [hfor.1] at hoff
          cases hoff
      rw [heq] at hfor h
      have hfull : ¬ HasRoom cfg (s.pucch (indexOf cfg t)) → ¬ Open cfg beamFree vrbFree s f fb := by
        rintro hno ⟨⟨_, _, ⟨_, hroom⟩ | ⟨hnot, _⟩⟩, _⟩
        · exact hno hroom
        · exact hnot hfor
      split at h
      next h1 => exact hnext s₁ hc (hfull fun hr => hr.1 h1) h
      split at h
      next h2 => exact hnext s₁ hc (hfull fun hr => hr.2.1 h2) h
      split at h
      next h3 => exact hnext s₁ hc (hfull fun hr => hr.2.2.1 h3) h
      split at h
      next h4 => exact hnext s₁ hc (hfull fun hr => hr.2.2.2 h4) h
      rename_i h1 h2 h3 h4
      obtain ⟨rfl, hi⟩ := Prod.mk.inj h
      obtain rfl := Option.some.inj hi
      refine ⟨0, fb, rfl, ⟨by omega, hul, Or.inl ⟨hfor, h1, h2, h3, h4⟩⟩, ?_, ?_, ?_⟩
      · exact congrArg SchedPucch.timingIndicator (hset _)
      · exact (hset _).symm ▸ hfor
      · exact fun j hj => absurd hj (Nat.not_lt_zero j)
    next hnot =>
      have hother : ¬ (s.pucch (indexOf cfg t)).For cfg t := by
        rcases hentry with heq | ⟨_, hother⟩
        · exact heq ▸ hnot
        · exact hother _ hul ht rfl
      split at h
      next hactive =>
        refine hnext _ (hc.clear hul ht hnot hactive) ?_ h
        rcases hentry with heq | ⟨hoff, _⟩
        · exact fun ho => hother (ho.2 (heq ▸ hactive))
        · rw [hoff] at hactive
          cases hactive
      rename_i hoff
      have hbusy : ¬ (beamFree f = true ∧ vrbFree f = true) →
          ¬ Open cfg beamFree vrbFree s f fb := by
        rintro hno ⟨⟨_, _, ⟨hfor, _⟩ | ⟨_, hfree⟩⟩, _⟩
        · exact hother hfor
        · exact hno hfree
      split at h
      next hbeam => exact hnext s₁ hc (hbusy fun hf => by simp [hf.1] at hbeam) h
      split at h
      next hvrb => exact hnext s₁ hc (hbusy fun hf => by simp [hf.2] at hvrb) h
      rename_i hbeam hvrb
      obtain ⟨rfl, hi⟩ := Prod.mk.inj h
      obtain rfl := Option.some.inj hi
      refine ⟨0, fb, rfl, ⟨by omega, hul, Or.inr ⟨hother, by simpa using hbeam,
        by simpa using hvrb⟩⟩, ?_, ?_, ?_⟩
      · exact congrArg SchedPucch.timingIndicator (hset _)
      · exact (hset _).symm ▸ ⟨rfl, rfl, rfl⟩
      · exact fun j hj => absurd hj (Nat.not_lt_zero j)

end Search

/-! ### Runs -/

/-- A usable occasion before a feedback time of the list comes behind an open one in the list of
timing values. -/
def NoEarlierOccasion (cfg : PucchConfig) (st : FeedbackState) : Input → Prop
  | .acknackScheduling isCommon _ beamFree vrbFree =>
      ∀ f < (cfg.getPdschToHarqFeedback isCommon).length,
        Usable cfg beamFree vrbFree st.ring f ((cfg.getPdschToHarqFeedback isCommon).getD f 0) →
        (∃ t ∈ st.feedbackDlHarq,
          st.ring.now + (cfg.getPdschToHarqFeedback isCommon).getD f 0 + cfg.koffset < t) →
        ∃ j < f, Open cfg beamFree vrbFree st.ring j
          ((cfg.getPdschToHarqFeedback isCommon).getD j 0)
  | _ => True

instance (cfg : PucchConfig) (st : FeedbackState) (i : Input) :
    Decidable (NoEarlierOccasion cfg st i) := by
  unfold NoEarlierOccasion
  split <;> infer_instance

theorem feedbackStep_sorted {cfg : PucchConfig} {st st' : FeedbackState} {i : Input}
    {o : Option ℕ} (h : st.feedbackDlHarq.Pairwise (· ≤ ·)) (hg : NoEarlierOccasion cfg st i)
    (hs : feedbackStep cfg st i = .ok (st', o)) : st'.feedbackDlHarq.Pairwise (· ≤ ·) := by
  obtain ⟨⟨s, r⟩, hstep, hs⟩ := bind_returns.mp hs
  dsimp only at hs
  split at hs
  next isCommon rPucch beamFree vrbFree index _ =>
    obtain ⟨rfl, _⟩ := ok_inj hs
    unfold step at hstep
    dsimp only at hstep
    split at hstep
    · cases hstep
    obtain ⟨k, fb, hk, hu, htime, _, hfirst⟩ := nrAcknackScheduling_usable _
      (fun fb hfb => getPdschToHarqFeedback_le cfg hfb) 0 st.ring ⟨rfl, fun _ => Or.inl rfl⟩
      (Except.ok.inj hstep)
    rw [Nat.zero_add] at hu htime
    refine List.pairwise_append.mpr ⟨h, List.pairwise_singleton _ _, ?_⟩
    intro t ht u hu'
    obtain rfl := List.mem_singleton.mp hu'
    obtain ⟨hlen, rfl⟩ := List.getElem?_eq_some_iff.mp hk
    have hget : ∀ n, (hn : n < (cfg.getPdschToHarqFeedback isCommon).length) →
        (cfg.getPdschToHarqFeedback isCommon).getD n 0 =
          (cfg.getPdschToHarqFeedback isCommon).get ⟨n, hn⟩ := fun n hn => by
      rw [List.getD_eq_getElem?_getD, List.getElem?_eq_getElem hn]
      rfl
    rw [feedbackTime, htime]
    by_contra hlt
    obtain ⟨j, hj, hopen⟩ := hg k hlen ((hget k hlen).symm ▸ hu) ⟨t, ht, not_le.mp hlt⟩
    rw [hget j (hj.trans hlen)] at hopen
    refine hfirst j hj _ (List.getElem?_eq_getElem (hj.trans hlen)) ?_
    rwa [Nat.zero_add]
  · obtain ⟨rfl, _⟩ := ok_inj hs
    exact h

/-- Every slot is an uplink slot, and feedback comes two slots after a transmission or later. -/
def everySlot : PucchConfig := { sampleConfig 0 with srResources := [] }

end OaiGnb.Mac.FeedbackOrder
