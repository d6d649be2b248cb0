import OaiGnb.Rlc.Am.StatusProcessing

/-!
# The poll timer and the wait list

When `t_poll_retransmit` expires, `check_t_poll_retransmit` retransmits the SDU at the head of the
wait list without looking whether there is one.  The timer is started by a PDU that goes to the
wait list, and a STATUS PDU stops it when it says something about `poll_sn`.  That is the last SN
given out, not the SN of the PDU that polls: when it has long been acknowledged, a STATUS PDU about
the polling PDU empties the wait list and leaves the timer running.

* `PollBacked`: while the timer runs and an expiry would retransmit, something waits.
* `reachable_pollFindsSegment`: only such a STATUS PDU breaks it.
-/

namespace OaiGnb.Rlc.Am

open Run

/-- The calls of an entity in operation; SDUs are not empty. -/
def Input.Operates : Input → Prop
  | .recvSdu buffer _ => 1 ≤ buffer.length
  | .generatePdu _ | .recvPdu _ | .setTime _ => True
  | .discardSdu _ | .reestablishment => False

/-- An expiry of `t_poll_retransmit` that retransmits finds a segment, and `set_time` does not
dereference NULL. -/
def PollFindsSegment (e : Entity) : Prop :=
  ∀ now, (tPollRetransmitExpired e.cfg now e.tx = true →
      checkPollAfterPduAssembly e.cfg e.tx = true → e.tx.waitList ≠ []) ∧
    checkTPollRetransmit e.cfg now e.tx ≠ .error .badPointer

/-- While the timer runs and an expiry would retransmit, a segment waits. -/
def PollBacked (c : Config) (tx : TxState) : Prop :=
  tx.tPollRetransmitStart ≠ 0 → checkPollAfterPduAssembly c tx = true → tx.waitList ≠ []

/-- The timer runs, and the call brings a STATUS PDU that says nothing about `poll_sn` but something
about every segment that waits. -/
def StrandsPoll (e : Entity) (i : Input) : Prop :=
  ∃ s, Receives e i s ∧ e.tx.tPollRetransmitStart ≠ 0 ∧ pollAnswered e.cfg e.tx s = false ∧
    ∀ t ∈ e.tx.waitList, isKept e.cfg e.tx s t = false

/-! ### The wait list after a STATUS PDU -/

/-- The segment waits at this point of the walk. -/
structure Waiting (tx : TxState) (t : Segment) (st : Walk) : Prop where
  same : SameSdus tx.heap st.heap
  mem : t ∈ st.kept ++ st.curWait

section

variable {c : Config} {tx : TxState} {ackSn : ℤ} {n : Nack} {t : Segment} {st st' : Walk}

theorem sameSdus_freeAcked (h : SameSdus tx.heap st.heap) (s : Segment) :
    SameSdus tx.heap (freeAcked st s).heap := by
  rw [(freeAcked_fields st s).2.2.2.2.2.2]
  exact h.trans (sameSdus_free _ _)

theorem Waiting.ackWait {w : Segment} {rest : List Segment} (h : Waiting tx t st)
    (hw : st.curWait = w :: rest) (hne : t ≠ w) : Waiting tx t (ackWait tx st w rest) := by
  refine ⟨@sameSdus_freeAcked _ { st with curWait := rest, endWait := _ } h.same w, ?_⟩
  have hf := freeAcked_fields { st with curWait := rest, endWait := endWaitWithout tx st w } w
  rw [Am.ackWait, hf.1, hf.2.1]
  have hmem := h.mem
  rw [hw] at hmem
  simp_all

theorem Waiting.ackRetx {r : Segment} {rest : List Segment} (h : Waiting tx t st) :
    Waiting tx t (ackRetx c st r rest) := by
  refine ⟨@sameSdus_freeAcked _ { st with curRetx := rest, bstatusRetxSize := _ } h.same r, ?_⟩
  have hf := freeAcked_fields { st with
    curRetx := rest
    bstatusRetxSize := st.bstatusRetxSize - (computePduHeaderSize c r + r.size) } r
  rw [Am.ackRetx, hf.1, hf.2.1]
  exact h.mem

/-- A turn leaves a segment where it is that the NACK does not hit and the ACK does not cover. -/
theorem Waiting.turn (h : Waiting tx t st) (hmiss : overlaps tx.heap n t = false)
    (hack : belowAck c tx ackSn t = false) (hturn : NackTurn c tx ackSn n st st') :
    Waiting tx t st' := by
  have hmem := h.mem
  cases hturn with
  | @nackWait w rest hw _ hov =>
    have hne : t ≠ w := fun he => by simp [he, hov] at hmiss
    refine ⟨h.same.trans (sameSdus_retx _ _), ?_⟩
    rw [hw] at hmem
    simpa [nackWait, hne] using hmem
  | ackWait hw _ _ hbelow => exact h.ackWait hw fun he => by simp [he, hbelow] at hack
  | keepWait hw | keepWaitRest hw => exact ⟨h.same, by rw [hw] at hmem; simpa using hmem⟩
  | ackRetx => exact h.ackRetx
  | nackRetx | keepRetx | dropRetx => exact ⟨h.same, hmem⟩

theorem Waiting.processNack (h : Waiting tx t st) (hmiss : overlaps tx.heap n t = false)
    (hack : belowAck c tx ackSn t = false) : Waiting tx t (processNack c tx ackSn st n) := by
  unfold Am.processNack
  generalize st.curWait.length + st.curRetx.length = fuel
  induction fuel generalizing st with
  | zero => exact h
  | succ fuel ih =>
    rw [processNackLoop]
    split
    · exact h
    next hnext => exact ih (h.turn hmiss hack (processNextPdu_turn h.same hnext))

theorem Waiting.finishWait (hack : belowAck c tx ackSn t = false) (l : List Segment) :
    ∀ st, st.curWait = l → Waiting tx t st → Waiting tx t (finishWait c tx ackSn l st) := by
  induction l with
  | nil => exact fun _ _ h => h
  | cons w rest ih =>
    intro st hw h
    rw [Am.finishWait, h.same.snOf]
    split
    next hlt =>
      refine ih _ (freeAcked_fields _ _).2.1 (h.ackWait hw fun he => ?_)
      simp [belowAck, he, hlt] at hack
    · exact h

theorem Waiting.finishRetx (l : List Segment) :
    ∀ st, Waiting tx t st → Waiting tx t (finishRetx c tx ackSn l st) := by
  induction l with
  | nil => exact fun _ h => h
  | cons r rest ih =>
    intro st h
    rw [Am.finishRetx]
    split
    · exact ih _ h.ackRetx
    · exact h

/-- **A segment that a STATUS PDU says nothing about goes on waiting.** -/
theorem mem_waitList_of_isKept {s : StatusPdu} (ht : t ∈ tx.waitList)
    (hkept : isKept c tx s t = true) : t ∈ (processStatus c tx s).1.waitList := by
  rw [isKept, Bool.and_eq_true, Bool.not_eq_true', Bool.not_eq_true'] at hkept
  obtain ⟨hnack, hack⟩ := hkept
  have hmiss : ∀ n ∈ s.expand c, overlaps tx.heap n t = false := by
    simpa [isNacked] using hnack
  have hfold : ∀ nacks : List Nack, (∀ n ∈ nacks, overlaps tx.heap n t = false) → ∀ st,
      Waiting tx t st → Waiting tx t (nacks.foldl (Am.processNack c tx s.ackSn) st) := by
    intro nacks
    induction nacks with
    | nil => exact fun _ _ h => h
    | cons n nacks ih =>
      intro hn st h
      obtain ⟨hn, hnacks⟩ := List.forall_mem_cons.mp hn
      exact ih hnacks _ (h.processNack hn hack)
  have hstart : Waiting tx t (Walk.start tx) := ⟨SameSdus.refl _, ht⟩
  exact (Waiting.finishRetx _ _ (.finishWait hack _ _ rfl (hfold _ hmiss _ hstart))).mem

end

/-! ### The wait list after a generated PDU -/

section

variable {c : Config} {tx tx' : TxState} {now : UInt64} {size : ℕ} {pdu : List UInt8}

theorem nrRlcSduSegmentListAppend_ne_nil {l l' : List Segment} {end_ end' : Option ℕ}
    {seg : Segment} (h : nrRlcSduSegmentListAppend l end_ seg = .ok (l', end')) : l' ≠ [] := by
  cases l with
  | nil => cases h; exact List.cons_ne_nil _ _
  | cons s l =>
    cases end_ with
    | none => cases h
    | some addr =>
      simp only [nrRlcSduSegmentListAppend] at h
      split at h
      · cases h
      · cases h
        rw [linkAfter]
        split <;> exact List.cons_ne_nil _ _

theorem putInWaitList_ne_nil {s : Segment} (h : putInWaitList c tx s = .ok tx') :
    tx'.waitList ≠ [] := by
  have happend : appendToWaitList tx s = .ok tx' → tx'.waitList ≠ [] := by
    intro ha
    obtain ⟨⟨l, end_⟩, hl, ha⟩ := bind_returns.mp ha
    cases ha
    exact nrRlcSduSegmentListAppend_ne_nil hl
  unfold putInWaitList at h
  split at h
  · exact happend h
  · split at h
    · cases h
    · split at h
      · exact happend h
      · cases h
        exact List.ne_nil_of_mem ((SortedList.insertBefore_perm _ s tx.waitList).mem_iff.mpr
          List.mem_cons_self)

theorem finishPdu_waitList {s : Segment} {p : Bool}
    (h : finishPdu c now tx s size p = .ok (tx', pdu)) : tx'.waitList = tx.waitList := by
  obtain ⟨_, _, h⟩ := bind_returns.mp h
  cases h
  split <;> rfl

/-- A generating function leaves the state alone or puts a segment in the wait list. -/
def Waits (tx tx' : TxState) : Prop := tx' = tx ∨ tx'.waitList ≠ []

theorem generateRetxPdu_waits (h : generateRetxPdu c now tx size = .ok (tx', pdu)) :
    Waits tx tx' := by
  unfold generateRetxPdu at h
  split at h
  · cases h
  · split at h
    · cases h; exact Or.inl rfl
    · obtain ⟨tx₁, hput, hfin⟩ := bind_returns.mp h
      exact Or.inr (finishPdu_waitList hfin ▸ putInWaitList_ne_nil hput)

theorem generateTxPdu_waits (h : generateTxPdu c now tx size = .ok (tx', pdu)) : Waits tx tx' := by
  unfold generateTxPdu at h
  split at h
  · cases h; exact Or.inl rfl
  · split at h
    · cases h; exact Or.inl rfl
    · split at h
      · cases h; exact Or.inl rfl
      · obtain ⟨tx₁, hput, hfin⟩ := bind_returns.mp h
        have hwait := @finishPdu_waitList c (countPdu tx₁ _) tx' now size pdu _ _ hfin
        exact Or.inr (fun hnil => putInWaitList_ne_nil hput (hwait.symm.trans hnil))

theorem generateDataPdu_waits (h : generateDataPdu c now tx size = .ok (tx', pdu)) :
    Waits tx tx' := by
  unfold generateDataPdu at h
  split at h
  · exact generateTxPdu_waits h
  · split at h
    · cases h
    next tx₁ hretx =>
      -- nothing was retransmitted
      rcases generateTxPdu_waits h with rfl | hne
      · exact generateRetxPdu_waits hretx
      · exact Or.inr hne
    · grind [generateRetxPdu_waits]

end

/-! ### The calls -/

theorem recvSdu_backed {c : Config} {tx tx' : TxState} {buffer : List UInt8} {sduId : ℤ}
    (h : PollBacked c tx) (hr : recvSdu c tx buffer sduId = .ok tx') : PollBacked c tx' := by
  unfold recvSdu at hr
  split at hr
  · cases hr
  · split at hr
    · cases hr; exact h
    · obtain ⟨⟨l, end_⟩, hl, hr⟩ := bind_returns.mp hr
      cases hr
      intro hstart hcheck
      refine h hstart ?_
      -- the new SDU is in the transmission buffer, so that the window must be stalling
      have hne := nrRlcSduSegmentListAppend_ne_nil hl
      cases l with
      | nil => exact absurd rfl hne
      | cons s l =>
        change (false && _ || isWindowStalling c tx) = true at hcheck
        rw [Bool.false_and, Bool.false_or] at hcheck
        rw [checkPollAfterPduAssembly, hcheck, Bool.or_true]

theorem checkTPollRetransmit_backed {c : Config} {tx tx' : TxState} {now : UInt64}
    {ev : List Event} (h : PollBacked c tx)
    (hr : checkTPollRetransmit c now tx = .ok (tx', ev)) : PollBacked c tx' := by
  have hsn : ∀ (sn : ℤ) (l : List Segment) (t : TxState),
      (retransmitSn c sn l t).tPollRetransmitStart = t.tPollRetransmitStart := by
    intro sn l
    induction l with
    | nil => intro t; rfl
    | cons s l ih =>
      intro t
      rw [retransmitSn]
      split
      · exact ih _
      · rfl
  unfold checkTPollRetransmit at hr
  split at hr
  · -- an expiry stops the timer
    have hstop : tx'.tPollRetransmitStart = 0 := by
      dsimp only at hr
      split at hr
      · grind [pollRetransmit]
      · cases hr; rfl
    intro hstart
    exact absurd hstop hstart
  · cases hr; exact h

theorem step_pollBacked {e e' : Entity} {i : Input} {o : Output} (hop : i.Operates)
    (hg : ¬ StrandsPoll e i) (h : PollBacked e.cfg e.tx) (hs : step e i = .ok (e', o)) :
    PollBacked e'.cfg e'.tx := by
  cases step_call hs with
  | recvSdu hr => exact recvSdu_backed h hr
  | statusPdu _ _ => exact h
  | dataPdu _ hr =>
    rcases generateDataPdu_waits hr with rfl | hne
    · exact h
    · exact fun _ _ => hne
  | recvNothing _ => exact h
  | @recvControl buffer d hd =>
    rcases processControlPdu_cases e.cfg e.tx buffer with he | ⟨s, hdec, hv, he⟩
    · rw [he]; exact h
    · rw [he]
      intro hstart _ hnil
      change (if pollAnswered e.cfg e.tx s then 0 else e.tx.tPollRetransmitStart) ≠ 0 at hstart
      split at hstart
      · exact hstart rfl
      next hans =>
        refine hg ⟨s, ⟨buffer, d, rfl, hd, hdec, hv⟩, hstart, Bool.eq_false_iff.mpr hans, ?_⟩
        intro t ht
        refine Bool.eq_false_iff.mpr fun hkept => ?_
        exact List.ne_nil_of_mem (mem_waitList_of_isKept ht hkept) hnil
  | recvData _ _ _ => exact h
  | setTime ht _ => exact checkTPollRetransmit_backed h ht
  | discardSdu => exact hop.elim
  | reestablishment => exact hop.elim

theorem PollBacked.finds {e : Entity} (h : PollBacked e.cfg e.tx) : PollFindsSegment e := by
  intro now
  have hfinds : tPollRetransmitExpired e.cfg now e.tx = true →
      checkPollAfterPduAssembly e.cfg e.tx = true → e.tx.waitList ≠ [] := by
    intro hexp
    refine h fun hstop => ?_
    simp [tPollRetransmitExpired, hstop] at hexp
  refine ⟨hfinds, fun hnull => ?_⟩
  unfold checkTPollRetransmit at hnull
  split at hnull
  next hexp =>
    dsimp only at hnull
    split at hnull
    next hcheck =>
      unfold pollRetransmit at hnull
      split at hnull
      · exact hfinds hexp hcheck ‹_›
      · cases hnull
    · cases hnull
  · cases hnull

/-- **An expired poll timer finds a segment to retransmit** in every run without a STATUS PDU that
strands the poll. -/
theorem reachable_pollFindsSegment {e₀ e : Entity} (h₀ : Created e₀)
    (h : Reachable step (fun e i => i.Operates ∧ ¬ StrandsPoll e i) e₀ e) :
    PollFindsSegment e := by
  have hstop : e₀.tx.tPollRetransmitStart = 0 := by
    rw [h₀.eq_new.2]
    rfl
  have hstart : PollBacked e₀.cfg e₀.tx := fun hstart => absurd hstop hstart
  have hinv := h.invariant (fun e : Entity => PollBacked e.cfg e.tx) hstart
    fun _ _ _ _ hi hg hs => step_pollBacked hg.1 hg.2 hi hs
  exact hinv.finds

/-- Two SDUs are sent, both with a poll, and the first is acknowledged: the STATUS PDU says nothing
about `poll_sn`, and the second SDU goes on waiting. -/
theorem reachable_pollFindsSegment_sent :
    ∃ e, Reachable step (fun e i => i.Operates ∧ ¬ StrandsPoll e i) Entity.sample e ∧
      e.tx.tPollRetransmitStart = 2 ∧ e.tx.waitList.length = 1 ∧ PollFindsSegment e := by
  have hg : ∀ (e : Entity) (i : Input), (∀ buffer, i ≠ .recvPdu buffer) → ¬ StrandsPoll e i := by
    rintro e i hne ⟨_, ⟨buffer, _, rfl, _⟩, _⟩
    exact hne buffer rfl
  have h₁ : Reachable step (fun e i => i.Operates ∧ ¬ StrandsPoll e i) Entity.sample _ :=
    .step (i := .setTime 2) .start ⟨trivial, hg _ _ (by simp)⟩ rfl
  have h₂ := Reachable.step (i := Input.recvSdu [1] 0) h₁ ⟨le_rfl, hg _ _ (by simp)⟩ rfl
  have h₃ := Reachable.step (i := Input.generatePdu 10) h₂ ⟨trivial, hg _ _ (by simp)⟩ rfl
  have h₄ := Reachable.step (i := Input.recvSdu [2] 1) h₃ ⟨le_rfl, hg _ _ (by simp)⟩ rfl
  have h₅ := Reachable.step (i := Input.generatePdu 10) h₄ ⟨trivial, hg _ _ (by simp)⟩ rfl
  have h₆ := Reachable.step (i := Input.recvPdu [0x00, 0x01, 0x00]) h₅ ⟨trivial, ?_⟩ rfl
  · exact ⟨_, h₆, rfl, rfl, reachable_pollFindsSegment ⟨_, _, _, _, _, _, _, _, _,
      newNrRlcEntityAm_sample⟩ h₆⟩
  · rintro ⟨s, ⟨_, _, hi, _, hdec, _⟩, _, _, hall⟩
    obtain rfl := Input.recvPdu.inj hi
    obtain rfl : ⟨1, []⟩ = s := Option.some.inj ((by decide +kernel : _ = _).symm.trans hdec)
    revert hall
    decide +kernel

/-- **The poll is stranded.**  SDUs 0 and 1 are sent, SDU 1 is acknowledged and SDU 0 is not; the
retransmission of SDU 0 polls with `poll_sn` = 1.  An acknowledgement of SDU 0 alone empties the
wait list, and the timer goes on. -/
theorem not_pollFindsSegment_after_old_ack :
    ¬ ∀ e₀ e, Created e₀ → Reachable step (fun _ i => i.Operates) e₀ e → PollFindsSegment e := by
  intro h
  obtain ⟨⟨e, os⟩, hrun, hobs⟩ := exists_of_observed
    (f := fun p => (tPollRetransmitExpired p.1.cfg 100 p.1.tx,
      checkPollAfterPduAssembly p.1.cfg p.1.tx, p.1.tx.waitList))
    (b := (true, true, [])) (x := run step Entity.sample
      [.setTime 1, .recvSdu [1] 0, .recvSdu [2] 1, .generatePdu 10, .generatePdu 10,
        .recvPdu [0x00, 0x02, 0x80, 0x00, 0x00], .generatePdu 10, .recvPdu [0x00, 0x01, 0x00]])
    (by decide +kernel)
  simp only [Prod.mk.injEq] at hobs
  have hreach : Reachable step (fun _ i => i.Operates) Entity.sample e :=
    Reachable.start.of_run (by simp [Input.Operates]) hrun
  exact (h _ e ⟨_, _, _, _, _, _, _, _, _, newNrRlcEntityAm_sample⟩ hreach 100).1 hobs.1 hobs.2.1
    hobs.2.2

end OaiGnb.Rlc.Am
