import OaiGnb.Rlc.Am.RxAccounting

/-!
# The copies of reassembly

`sdu_full` stops at the first segment with the last byte, but `reassemble_and_deliver` copies every
stored segment.  A segment that lies behind a gap is copied from before the start of its data.

* `reassembleLoop_covers`: without such a segment every copy stays inside its PDU, and every byte
  of the SDU comes from a segment that covers it.
* `SlotOk`: the PDUs of a slot have their data, or the first one is consumed; kept by every call.
* `reachable_staysInside`: the copies of every run of `nr_rlc_entity_am_recv_pdu`.
-/

namespace OaiGnb.Rlc.Am

open Run SortedList

/-- A call of `memcpy`: the PDU it reads, the offset in its data, and the number of bytes. -/
structure Copy where
  pdu : Pdu
  offset : ℤ
  len : ℤ

/-- The copy reads bytes of the PDU only. -/
def Copy.Inside (c : Copy) : Prop := 0 ≤ c.offset ∧ c.offset + c.len ≤ c.pdu.size

/-- The calls of `memcpy` in the loop of `reassemble_and_deliver`. -/
def copies : List Pdu → Bool → ℤ → List Copy
  | [], _, _ => []
  | pdu :: ls, badSdu, so =>
      let len : ℤ := pdu.size - (so - pdu.so)
      let badSdu := badSdu || decide (so + len > nrSduMax)
      if !badSdu && decide (len > 0) then ⟨pdu, so - pdu.so, len⟩ :: copies ls badSdu (so + len)
      else copies ls badSdu so

/-- No segment starts behind the bytes copied so far; from a segment on that is too big nothing is
copied any more. -/
def NoGap : List Pdu → ℕ → Prop
  | [], _ => True
  | p :: l, so => p.so + p.size ≤ nrSduMax → p.so ≤ so ∧ NoGap l (max so (p.so + p.size))

instance decidableNoGap : ∀ l so, Decidable (NoGap l so)
  | [], _ => inferInstanceAs (Decidable True)
  | p :: l, so =>
      have := decidableNoGap l (max so (p.so + p.size))
      inferInstanceAs (Decidable (p.so + p.size ≤ nrSduMax → p.so ≤ so ∧ NoGap l _))

/-- Every byte of the SDU is the byte of a PDU that covers its offset. -/
def Covered (pdus : List Pdu) (sdu : List UInt8) : Prop :=
  ∀ o, o < sdu.length → ∃ p ∈ pdus, ∃ d, p.data = some d ∧ p.so ≤ o ∧ o < p.so + p.size ∧
    sdu[o]? = d[o - p.so]?

theorem copyBytes_getElem {pdu : Pdu} {d : List UInt8} {off : ℤ} {len j : ℕ}
    (hd : pdu.data = some d) (hoff : 0 ≤ off) (hlen : off + len ≤ d.length) (hj : j < len) :
    (copyBytes pdu off len)[j]? = d[off.toNat + j]? := by
  have hlt : off.toNat + j < d.length := by omega
  simp only [copyBytes, List.getElem?_map, List.getElem?_range hj, Option.map_some, hd,
    Option.getD_some, byteAt, if_pos (show 0 ≤ off + (j : ℤ) by omega)]
  rw [show (off + (j : ℤ)).toNat = off.toNat + j by omega, List.getD, List.getElem?_eq_getElem hlt]
  rfl

theorem reassembleLoop_bad (l : List Pdu) (sdu : List UInt8) (so : ℤ) :
    (reassembleLoop l true sdu).2 = sdu ∧ copies l true so = [] := by
  induction l with
  | nil => exact ⟨rfl, rfl⟩
  | cons p l ih => simpa [reassembleLoop, copies] using ih

/-- **The copy loop** without a gap. -/
theorem reassembleLoop_covers {pdus : List Pdu}
    (hdata : ∀ p ∈ pdus, ∃ d, p.data = some d ∧ d.length = p.size) (l : List Pdu) :
    ∀ sdu : List UInt8, l ⊆ pdus → NoGap l sdu.length → Covered pdus sdu →
      (∀ c ∈ copies l false sdu.length, c.Inside) ∧
        Covered pdus (reassembleLoop l false sdu).2 := by
  induction l with
  | nil =>
    intro sdu _ _ hc
    exact ⟨List.forall_mem_nil _, hc⟩
  | cons p l ih =>
    intro sdu hsub hgap hcov
    have hp := hsub List.mem_cons_self
    have hl : l ⊆ pdus := fun q hq => hsub (List.mem_cons_of_mem p hq)
    obtain ⟨d, hd, hlen⟩ := hdata p hp
    rw [reassembleLoop, copies]
    simp only [Bool.false_or]
    by_cases hbad : (sdu.length : ℤ) + (p.size - (sdu.length - p.so)) > nrSduMax
    · obtain ⟨h1, h2⟩ := reassembleLoop_bad l sdu sdu.length
      simp only [hbad, decide_true, Bool.not_true, Bool.false_and, Bool.false_eq_true, if_false, h1,
        h2]
      exact ⟨List.forall_mem_nil _, hcov⟩
    · obtain ⟨hso, hrest⟩ := hgap (by omega)
      by_cases hpos : (p.size : ℤ) - (sdu.length - p.so) > 0
      · simp only [hbad, hpos, decide_true, decide_false, Bool.not_false, Bool.and_self, if_true]
        have hnew : (sdu ++ copyBytes p (sdu.length - p.so)
            (p.size - (sdu.length - p.so) : ℤ).toNat).length = max sdu.length (p.so + p.size) := by
          simp only [List.length_append, copyBytes, List.length_map, List.length_range]
          omega
        obtain ⟨h1, h2⟩ := ih _ hl (hnew ▸ hrest) (by
          intro o ho
          rw [hnew] at ho
          by_cases hold : o < sdu.length
          · rw [List.getElem?_append_left hold]
            exact hcov o hold
          · rw [List.getElem?_append_right (by omega),
              copyBytes_getElem hd (by omega) (by omega) (by omega)]
            refine ⟨p, hp, d, hd, by omega, by omega, ?_⟩
            congr 1
            omega)
        refine ⟨fun c hc => ?_, h2⟩
        rcases List.mem_cons.mp hc with rfl | hc
        · show 0 ≤ (sdu.length : ℤ) - p.so ∧
            (sdu.length - p.so : ℤ) + (p.size - (sdu.length - p.so)) ≤ p.size
          omega
        · refine h1 c ?_
          rwa [hnew, show ((max sdu.length (p.so + p.size) : ℕ) : ℤ) =
            sdu.length + (p.size - (sdu.length - p.so)) by omega]
      · simp only [hbad, hpos, decide_false, Bool.and_false, Bool.false_eq_true, if_false]
        exact ih sdu hl (by rwa [Nat.max_eq_left (by omega)] at hrest) hcov

/-! ### The slots of the ring -/

/-- The PDUs of a slot have their data, or the first one is consumed. -/
structure SlotOk (l : List Pdu) : Prop where
  head : HeadOk l
  together : ConsumedTogether l
  sized : ∀ p ∈ l, ∀ d, p.data = some d → d.length = p.size

/-- Every slot of the ring. -/
def SlotsOk (m : RxManager) : Prop := ∀ pos, SlotOk (m.rxList pos)

theorem slotOk_nil : SlotOk [] :=
  ⟨trivial, fun _ _ hp => absurd hp List.not_mem_nil, List.forall_mem_nil _⟩

theorem SlotsOk.setPdus {m : RxManager} (h : SlotsOk m) {l : List Pdu} (hl : SlotOk l) (sn : ℤ) :
    SlotsOk (setPdus m sn l) := by
  intro pos
  show SlotOk (Function.update m.rxList (getPos m sn) l pos)
  by_cases hp : pos = getPos m sn
  · rw [hp, Function.update_self]
    exact hl
  · rw [Function.update_of_ne hp]
    exact h pos

theorem SlotsOk.storePdu {rx : RxState} (h : SlotsOk rx.rx) (hd : Header) (buffer : List UInt8) :
    SlotsOk (storePdu rx (hd.pdu buffer)).rx := by
  refine h.setPdus ⟨headOk_insert rfl (h _).head,
    consumedTogether_insert rfl (h _).head (h _).together, fun p hp d hpd => ?_⟩ _
  rcases mem_insertBefore.mp hp with rfl | hp
  · rw [← Option.some.inj hpd]
    rfl
  · exact (h _).sized p hp d hpd

theorem freeDeliveredLoop_slots {c : Config} (fuel : ℕ) {m m' : RxManager} {sn sn' n n' : ℤ}
    (hm : SlotsOk m) (h : freeDeliveredLoop c fuel m sn n = .ok (m', sn', n')) : SlotsOk m' := by
  induction fuel generalizing m m' sn sn' n n' with
  | zero => cases h
  | succ fuel ih =>
    rw [freeDeliveredLoop] at h
    split at h
    · exact ih (hm.setPdus slotOk_nil sn) h
    · rw [← (ok_inj h).1]
      exact hm

theorem receptionDeliver_slots {c : Config} {rx rx' : RxState} {x : ℤ} {ev : List Event}
    (h : SlotsOk rx.rx) (hr : receptionDeliver c rx x = .ok (rx', ev)) : SlotsOk rx'.rx := by
  unfold receptionDeliver at hr
  split at hr
  next hf =>
    have hconsumed : SlotOk ((getPduFromSn rx.rx x).map consume) := by
      refine ⟨?_, consumedTogether_consume _, fun p hp d hpd => ?_⟩
      · obtain ⟨p, ps, hl, hso, _⟩ := pdusFull_head hf
        rw [hl]
        exact fun _ => hso
      · obtain ⟨q, _, rfl⟩ := List.mem_map.mp hp
        cases hpd
    have hre : SlotsOk (reassembleAndDeliver rx x).1.rx := h.setPdus hconsumed x
    obtain ⟨rx₁, h1, h2⟩ := bind_returns.mp hr
    obtain ⟨rx₂, h3, rfl, _⟩ := bind_pair_inj h2
    obtain ⟨sn, rfl⟩ := advanceHighestStatus_eq h1
    unfold advanceRxNext at h3
    split at h3
    · obtain ⟨⟨m, rxNext, count⟩, h5, h6⟩ := bind_returns.mp h3
      rw [← Except.ok.inj h6]
      have hm := freeDeliveredLoop_slots _ hre h5
      exact fun pos => hm pos
    · rw [← Except.ok.inj h3]
      exact hre
  · rw [← (ok_inj hr).1]
    exact h

theorem recvPdu_slots {e e' : Entity} {buffer : List UInt8} {o : Output} (h : SlotsOk e.rx.rx)
    (hs : recvPdu e buffer = .ok (e', o)) : SlotsOk e'.rx.rx := by
  have hpoll : ∀ (p : Bool) {rx : RxState}, SlotsOk rx.rx → SlotsOk (pollStatus p rx).rx := by
    intro p rx hrx
    cases p <;> exact hrx
  cases step_call (i := .recvPdu buffer) hs with
  | recvNothing _ => exact h
  | recvControl _ => exact h
  | @recvData _ _ d rx ev _ _ hr =>
    unfold recvDataPdu at hr
    split at hr
    · rw [← (ok_inj hr).1]
      exact h
    · split at hr
      · rw [← (ok_inj hr).1]
        exact hpoll _ h
      next hd _ =>
        obtain ⟨⟨rx₁, ev₁⟩, h1, h2⟩ := bind_returns.mp hr
        rw [← (ok_inj h2).1]
        refine hpoll _ ?_
        unfold recvData at h1
        split at h1
        · rw [← (ok_inj h1).1]
          exact h
        · obtain ⟨⟨rx₂, ev₂⟩, h3, h4⟩ := bind_returns.mp h1
          rw [← (ok_inj h4).1]
          have hrx₂ : SlotsOk rx₂.rx := by
            refine receptionDeliver_slots ?_ h3
            unfold receptionHighest
            split <;> exact h.storePdu hd buffer
          obtain ⟨start, trigger, ht⟩ := receptionTimer_eq e.cfg e.tCurrent rx₂
          rw [ht]
          exact hrx₂

/-! ### Runs -/

/-- The PDUs of the SN once the data PDU is stored. -/
def storedWith (rx : RxState) (hd : Header) (buffer : List UInt8) : List Pdu :=
  getPduFromSn (storePdu rx (hd.pdu buffer)).rx hd.sn

/-- The call stores the data PDU and then reassembles its SDU. -/
def Reassembles (e : Entity) (hd : Header) (buffer : List UInt8) : Prop :=
  dataHeader e.cfg buffer = some hd ∧ discardsPdu e.cfg e.rx buffer hd = false ∧
    sduFull (storePdu e.rx (hd.pdu buffer)) hd.sn = true

/-- The call reassembles an SDU that has a segment behind a gap. -/
def ReassemblesGap (e : Entity) (buffer : List UInt8) : Prop :=
  ∃ hd ∈ dataHeader e.cfg buffer, Reassembles e hd buffer ∧ ¬ NoGap (storedWith e.rx hd buffer) 0

instance (e : Entity) (hd : Header) (buffer : List UInt8) : Decidable (Reassembles e hd buffer) :=
  inferInstanceAs (Decidable (_ ∧ _ ∧ _))

instance (e : Entity) (buffer : List UInt8) : Decidable (ReassemblesGap e buffer) :=
  inferInstanceAs (Decidable (∃ hd ∈ dataHeader e.cfg buffer, _))

/-- The copies of the call stay inside the PDUs they read, and every byte of the SDU is the byte of
a stored segment that covers its offset. -/
def StaysInside (pdus : List Pdu) : Prop :=
  (∀ c ∈ copies pdus false 0, c.Inside) ∧ Covered pdus (reassembleLoop pdus false []).2

/-- **Reassembly stays inside the stored segments** in every run of PDUs that complete no SDU with a
segment behind a gap. -/
theorem reachable_staysInside {rxMaxsize txMaxsize : ℤ}
    {tPollRetransmit tReassembly tStatusProhibit : UInt64} {pollPdu pollByte maxRetxThreshold : ℤ}
    {snFieldLength : ℕ} {e₀ e : Entity} {buffer : List UInt8} {hd : Header}
    (h₀ : newNrRlcEntityAm rxMaxsize txMaxsize tPollRetransmit tReassembly tStatusProhibit pollPdu
      pollByte maxRetxThreshold snFieldLength = .ok e₀)
    (h : Reachable recvPdu (fun e buffer => ¬ ReassemblesGap e buffer) e₀ e)
    (hgap : ¬ ReassemblesGap e buffer) (hre : Reassembles e hd buffer) :
    StaysInside (storedWith e.rx hd buffer) := by
  have hslots : SlotsOk e.rx.rx := by
    refine h.invariant (fun e => SlotsOk e.rx.rx) ?_ fun _ _ _ _ hi _ hs => recvPdu_slots hi hs
    obtain ⟨_, he⟩ := newNrRlcEntityAm_eq h₀
    rw [he]
    exact fun _ => slotOk_nil
  have hslot : SlotOk (storedWith e.rx hd buffer) := hslots.storePdu hd buffer _
  have hhead : headConsumed (storedWith e.rx hd buffer) = false := by
    obtain ⟨p, ps, hl, _, hp⟩ := pdusFull_head hre.2.2
    rw [storedWith, hl]
    exact hp
  refine reassembleLoop_covers (fun p hp => ?_) _ [] (fun p hp => hp) ?_
    fun o ho => absurd ho (Nat.not_lt_zero o)
  · obtain ⟨d, hpd⟩ := Option.ne_none_iff_exists'.mp fun hnone : p.data = none => by
      have := hslot.together hhead p hp
      rw [hnone] at this
      cases this
    exact ⟨d, hpd, hslot.sized p hp d hpd⟩
  · by_contra hno
    exact hgap ⟨hd, hre.1, hre, hno⟩

/-- An SDU of two segments, the second one first. -/
theorem reachable_staysInside_two :
    ∃ e₀ e hd, newNrRlcEntityAm 1000 1000 45 35 0 (-1) (-1) 8 12 = .ok e₀ ∧
      Reachable recvPdu (fun e buffer => ¬ ReassemblesGap e buffer) e₀ e ∧
      Reassembles e hd [0x90, 0, 0xaa] ∧ StaysInside (storedWith e.rx hd [0x90, 0, 0xaa]) := by
  have h₀ := newNrRlcEntityAm_sample
  obtain ⟨e, hr, hobs⟩ := exists_reachable recvPdu (fun e buffer => ¬ ReassemblesGap e buffer)
    Entity.sample [[0xa0, 0, 0, 1, 0xbb]]
    (fun e => (decide (ReassemblesGap e [0x90, 0, 0xaa]),
      decide (Reassembles e ⟨true, false, 0, 0, 2⟩ [0x90, 0, 0xaa])))
    (b := (false, true)) (by decide +kernel)
  obtain ⟨hgap, hre⟩ := Prod.mk.inj hobs
  exact ⟨_, e, _, h₀, hr, of_decide_eq_true hre,
    reachable_staysInside h₀ hr (of_decide_eq_false hgap) (of_decide_eq_true hre)⟩

/-- **A segment behind the last byte.**  One byte at offset 10 of SDU 0 is stored, then the whole
SDU 0 of 4 bytes arrives: the second copy starts 6 bytes before the data of the segment. -/
theorem not_staysInside_after_last :
    ¬ ∀ (rxMaxsize txMaxsize : ℤ) (tPollRetransmit tReassembly tStatusProhibit : UInt64)
      (pollPdu pollByte maxRetxThreshold : ℤ) (snFieldLength : ℕ) (e₀ e : Entity)
      (buffer : List UInt8) (hd : Header),
      newNrRlcEntityAm rxMaxsize txMaxsize tPollRetransmit tReassembly tStatusProhibit pollPdu
        pollByte maxRetxThreshold snFieldLength = .ok e₀ →
      Reachable recvPdu (fun _ _ => True) e₀ e → Reassembles e hd buffer →
      StaysInside (storedWith e.rx hd buffer) := by
  intro h
  obtain ⟨e, hr, hobs⟩ := exists_reachable recvPdu (fun _ _ => True)
    Entity.sample [[0xb0, 0, 0, 10, 0xee]]
    (fun e => (decide (Reassembles e ⟨true, true, 0, 0, 2⟩ [0x80, 0, 1, 2, 3, 4]),
      (copies (storedWith e.rx ⟨true, true, 0, 0, 2⟩ [0x80, 0, 1, 2, 3, 4]) false 0).map
        Copy.offset)) (b := (true, [0, -6])) (by decide +kernel)
  obtain ⟨hre, hoff⟩ := Prod.mk.inj hobs
  have hin := (h 1000 1000 45 35 0 (-1) (-1) 8 12 _ e _ _ rfl hr (of_decide_eq_true hre)).1
  obtain ⟨c, hc, hneg⟩ := List.mem_map.mp
    (hoff ▸ List.mem_cons_of_mem 0 (List.mem_singleton_self (-6 : ℤ)))
  have := (hin c hc).1
  omega

end OaiGnb.Rlc.Am
