import OaiGnb.Rlc.Am.RxOrder
import Mathlib.Algebra.BigOperators.Group.Finset.Basic

/-!
# Accounting of the receive buffer

`rx_size` is meant to count the bytes of the PDUs in the receive ring whose data has not been
consumed.  A PDU is counted when it is stored and uncounted when its SDU is reassembled; a slot is
freed without looking at what it holds.  A segment stored for an SN that has been delivered is
therefore lost from the ring but not from `rx_size`.

* `recvDataPdu_counted`: reception of a data PDU that frees no such slot keeps the count right.
* `reachable_rxAccounted`: so does every run without such a call.
-/

namespace OaiGnb.Rlc.Am

open SerialNumber Run SortedList

/-! ### The bytes in the ring -/

/-- The bytes of the PDUs of a slot whose data has not been consumed. -/
def unconsumed (l : List Pdu) : ℤ := pdusSize (l.filter (fun p => !p.data.isNone))

/-- The positions of the ring. -/
def slots (m : RxManager) : Finset ℤ := (Finset.range m.size.toNat).image Int.ofNat

variable {m : RxManager} {pos : ℤ}

theorem mem_slots : pos ∈ slots m ↔ 0 ≤ pos ∧ pos < m.size := by
  rw [slots, Finset.mem_image]
  constructor
  · grind
  · intro ⟨h0, h1⟩
    exact ⟨pos.toNat, Finset.mem_range.mpr (by omega), Int.toNat_of_nonneg h0⟩

/-- The bytes of the PDUs of the ring whose data has not been consumed. -/
def ringSize (m : RxManager) : ℤ := ∑ pos ∈ slots m, unconsumed (m.rxList pos)

/-- The PDUs of a slot are consumed together, so that a consumed PDU is found behind a consumed
head only. -/
def ConsumedTogether (l : List Pdu) : Prop :=
  headConsumed l = false → ∀ p ∈ l, p.data.isNone = false

theorem unconsumed_cons (p : Pdu) (l : List Pdu) :
    unconsumed (p :: l) = (if p.data.isNone then 0 else (p.size : ℤ)) + unconsumed l := by
  unfold unconsumed
  cases hp : p.data.isNone with
  | false => simp_all
  | true => simp_all

variable {l : List Pdu}

theorem unconsumed_insert {pdu : Pdu} (hd : pdu.data.isNone = false)
    (stop : Pdu → Bool) : unconsumed (insertBefore stop pdu l) = pdu.size + unconsumed l := by
  have hcons : ∀ l, unconsumed (pdu :: l) = pdu.size + unconsumed l := by
    intro l
    rw [unconsumed_cons, hd, if_neg (by decide)]
  induction l with
  | nil => exact hcons []
  | cons q l ih =>
    rw [insertBefore]
    split
    · exact hcons _
    · grind [unconsumed_cons]

theorem unconsumed_consume (l : List Pdu) : unconsumed (l.map consume) = 0 := by
  unfold unconsumed
  rw [List.filter_eq_nil_iff.mpr]
  · rfl
  · intro p hp
    obtain ⟨q, _, rfl⟩ := List.mem_map.mp hp
    simp [consume]

theorem unconsumed_of_head (h : ConsumedTogether l) (hh : headConsumed l = false) :
    unconsumed l = pdusSize l := by
  unfold unconsumed
  rw [List.filter_eq_self.mpr]
  intro p hp
  rw [h hh p hp]
  rfl

theorem consumedTogether_insert {pdu : Pdu} (hd : pdu.data.isNone = false)
    (hh : HeadOk l) (h : ConsumedTogether l) :
    ConsumedTogether (insertBefore (fun cur => decide (cur.so > pdu.so)) pdu l) := by
  intro hhead p hp
  rw [headConsumed_insert hd hh] at hhead
  rcases mem_insertBefore.mp hp with rfl | hp
  · exact hd
  · exact h hhead p hp

theorem consumedTogether_consume (l : List Pdu) : ConsumedTogether (l.map consume) := by
  intro hhead p hp
  cases l with
  | nil => cases hp
  | cons q l => cases hhead

theorem ringSize_setPdus (hpos : 0 < m.size) (sn : ℤ) (l : List Pdu) :
    ringSize (setPdus m sn l) = ringSize m - unconsumed (getPduFromSn m sn) + unconsumed l := by
  have hmem : getPos m sn ∈ slots m := by
    rw [mem_slots, getPos_eq]
    exact ⟨Int.emod_nonneg _ (by omega), Int.emod_lt_of_pos _ hpos⟩
  show ∑ pos ∈ slots m, unconsumed (Function.update m.rxList (getPos m sn) l pos) = _
  rw [ringSize, ← Finset.add_sum_erase _ _ hmem, ← Finset.add_sum_erase _ _ hmem,
    Function.update_self]
  have hrest : ∑ pos ∈ (slots m).erase (getPos m sn),
      unconsumed (Function.update m.rxList (getPos m sn) l pos) =
      ∑ pos ∈ (slots m).erase (getPos m sn), unconsumed (m.rxList pos) := by
    apply Finset.sum_congr rfl
    intro pos hp
    rw [Function.update_of_ne (Finset.ne_of_mem_erase hp)]
  rw [hrest, getPduFromSn]
  ring

variable {rx : RxState}

theorem exists_sn_of_pos {c : Config} (hc : c.Ok) (hb : RxBase c rx) (h : pos ∈ slots rx.rx) :
    ∃ i : ℕ, (i : ℤ) < c.windowSize ∧ getPos rx.rx ((rx.rxNext + i) % c.snModulus) = pos := by
  have hW := hc.window_ge
  have hsize := hb.size
  have hM : c.snModulus = 2 * rx.rx.size := by rw [hsize]; exact hc.modulus_eq
  obtain ⟨h0, h1⟩ := mem_slots.mp h
  set a := rx.rx.start - rx.rx.snStart + rx.rxNext with ha
  have hnn : 0 ≤ (pos - a) % rx.rx.size := Int.emod_nonneg _ (by omega)
  have hlt : (pos - a) % rx.rx.size < rx.rx.size := Int.emod_lt_of_pos _ (by omega)
  refine ⟨((pos - a) % rx.rx.size).toNat, by omega, ?_⟩
  grind [getPos_offset, Int.toNat_of_nonneg, Int.add_emod_emod, Int.emod_eq_of_lt]

/-! ### The operations -/

/-- The part of the invariant that is about sizes. -/
structure RxCounted (rx : RxState) : Prop where
  size : rx.rxSize = ringSize rx.rx
  together : ∀ sn, ConsumedTogether (getPduFromSn rx.rx sn)

theorem consumedTogether_setPdus {sn : ℤ} (hl : ConsumedTogether l)
    (h : ∀ sn, ConsumedTogether (getPduFromSn m sn)) (sn' : ℤ) :
    ConsumedTogether (getPduFromSn (setPdus m sn l) sn') := by grind [getPduFromSn_setPdus]

theorem storePdu_counted {pdu : Pdu} (hd : pdu.data.isNone = false)
    (hpos : 0 < rx.rx.size) (hh : ∀ sn, HeadOk (getPduFromSn rx.rx sn)) (h : RxCounted rx) :
    RxCounted (storePdu rx pdu) := by
  refine ⟨?_, consumedTogether_setPdus (consumedTogether_insert hd (hh _) (h.together _))
    h.together⟩
  show rx.rxSize + pdu.size = ringSize (setPdus rx.rx pdu.sn _)
  rw [ringSize_setPdus hpos, unconsumed_insert hd, h.size]
  ring

theorem reassemble_counted {x : ℤ} (hf : sduFull rx x = true)
    (hpos : 0 < rx.rx.size) (h : RxCounted rx) : RxCounted (reassembleAndDeliver rx x).1 := by
  refine ⟨?_, consumedTogether_setPdus (consumedTogether_consume _) h.together⟩
  have hhead : headConsumed (getPduFromSn rx.rx x) = false := by
    obtain ⟨p, ps, hl, _, hp⟩ := pdusFull_head hf
    rw [hl]
    exact hp
  show rx.rxSize - pdusSize (getPduFromSn rx.rx x) = ringSize (setPdus rx.rx x _)
  rw [ringSize_setPdus hpos, unconsumed_consume, unconsumed_of_head (h.together x) hhead, h.size]
  ring

variable {n : ℕ}

/-- **Freeing slots** without unconsumed data changes nothing. -/
theorem freed_counted {c : Config} (hc : c.Ok)
    (hb : RxBase c rx) (hf : Freed c.snModulus rx.rx m rx.rxNext n) (hzero : ∀ i : ℕ, i < n →
      unconsumed (getPduFromSn rx.rx ((rx.rxNext + i) % c.snModulus)) = 0) :
    ringSize m = ringSize rx.rx := by
  rw [ringSize, ringSize, slots, hf.size]
  apply Finset.sum_congr rfl
  intro pos hpos
  obtain ⟨i, _, hi⟩ := exists_sn_of_pos hc hb hpos
  have hslot := hf.slots ((rx.rxNext + i) % c.snModulus)
  have hm : getPos m ((rx.rxNext + i) % c.snModulus) = pos := by
    rw [← hi, getPos_eq, getPos_eq, hf.size, hf.start, hf.snStart]
  rw [getPduFromSn, getPduFromSn, hm, hi] at hslot
  rw [hslot]
  split
  next hex =>
    obtain ⟨j, hj, hpj⟩ := hex
    have := hzero j hj
    rw [getPduFromSn, ← hpj] at this
    rw [this]
    rfl
  · rfl

theorem consumedTogether_freed {M : ℤ} {m' : RxManager} {r : ℤ} (hf : Freed M m m' r n)
    (h : ∀ sn, ConsumedTogether (getPduFromSn m sn)) (sn : ℤ) :
    ConsumedTogether (getPduFromSn m' sn) := by
  rw [hf.slots]
  split
  · intro _ p hp
    cases hp
  · exact h sn

/-- The delivered SDUs right above `rx_next` hold no data. -/
def NoDataAbove (c : Config) (rx : RxState) : Prop :=
  ∀ n : ℕ, 0 < n →
    (∀ j : ℕ, 0 < j → j ≤ n → sduDelivered rx ((rx.rxNext + j) % c.snModulus) = true) →
    unconsumed (getPduFromSn rx.rx ((rx.rxNext + n) % c.snModulus)) = 0

variable {ev : List Event}

section

variable {c : Config} {rx rx' : RxState} {x : ℤ}

theorem freedSlots_unconsumed (hc : c.Ok) (hb : RxBase c rx) (hkeep : NoDataAbove c rx)
    (hf : Freed c.snModulus (reassembleAndDeliver rx rx.rxNext).1.rx m rx.rxNext n) (i : ℕ)
    (hi : i < n) :
    unconsumed (getPduFromSn (reassembleAndDeliver rx rx.rxNext).1.rx
      ((rx.rxNext + i) % c.snModulus)) = 0 := by
  have hM : c.snModulus = 2 * rx.rx.size := by rw [hb.size]; exact hc.modulus_eq
  have hn := hf.count
  change (n : ℤ) ≤ rx.rx.size at hn
  have hr : (rx.rxNext + (0 : ℤ)) % c.snModulus = rx.rxNext := by
    rw [Int.add_zero]
    exact Int.emod_eq_of_lt hb.rxNext.1 hb.rxNext.2
  have hslot : ∀ j : ℕ, 0 < j → j < n →
      getPduFromSn (reassembleAndDeliver rx rx.rxNext).1.rx ((rx.rxNext + j) % c.snModulus)
        = getPduFromSn rx.rx ((rx.rxNext + j) % c.snModulus) := by
    intro j h0 hj
    show getPduFromSn (setPdus rx.rx rx.rxNext _) _ = _
    rw [getPduFromSn_setPdus, if_neg]
    intro he
    rw [← hr, hr] at he
    conv_rhs at he => rw [← hr]
    have := getPos_offset_inj hM ⟨by omega, by omega⟩ ⟨le_rfl, by omega⟩ he
    omega
  rcases Nat.eq_zero_or_pos i with rfl | hpos
  · rw [Nat.cast_zero, hr]
    show unconsumed (getPduFromSn (setPdus rx.rx rx.rxNext _) rx.rxNext) = 0
    rw [getPduFromSn_setPdus_self]
    exact unconsumed_consume _
  · rw [hslot i hpos hi]
    refine hkeep i hpos ?_
    intro j h0 hj
    have := hf.delivered j (by omega)
    rwa [hslot j h0 (by omega)] at this

theorem advanceHighestStatus_eq (h : advanceHighestStatus c rx x = .ok rx') :
    ∃ sn, rx' = { rx with rxHighestStatus := sn } := by
  unfold advanceHighestStatus at h
  split at h
  · obtain ⟨sn, _, h⟩ := bind_returns.mp h
    exact ⟨sn, (Except.ok.inj h).symm⟩
  · exact ⟨_, (Except.ok.inj h).symm⟩

theorem receptionDeliver_counted (hc : c.Ok) (hi : RxInv c rx) (h : RxCounted rx)
    (hkeep : x = rx.rxNext → sduFull rx x = true → NoDataAbove c rx)
    (hx : InRange c.snModulus x) (hw : modulusRx c rx x < c.windowSize)
    (hr : receptionDeliver c rx x = .ok (rx', ev)) : RxCounted rx' := by
  unfold receptionDeliver at hr
  split at hr
  next hf =>
    have hW := hc.window_ge
    have hpos : 0 < rx.rx.size := by rw [hi.size]; omega
    have hcnt := reassemble_counted hf hpos h
    have hd := reassemble_delivering hc hi hx hw hf
    obtain ⟨rx₁, h1, h2⟩ := bind_returns.mp hr
    obtain ⟨rx₂, h3, rfl, _⟩ := bind_pair_inj h2
    have hd1 := (advanceHighestStatus_inv hc hd h1).1
    obtain ⟨sn, rfl⟩ := advanceHighestStatus_eq h1
    unfold advanceRxNext at h3
    split at h3
    next hxn =>
      change x = rx.rxNext at hxn
      subst hxn
      obtain ⟨a, m, hfr, hget, rfl⟩ := freeDelivered_spec hc hd1.toRxBase h3
      refine ⟨?_, ?_⟩
      · show (reassembleAndDeliver rx rx.rxNext).1.rxSize = ringSize m
        rw [hcnt.size]
        exact (freed_counted hc hd1.toRxBase hfr
          (freedSlots_unconsumed hc hi.toRxBase (hkeep rfl hf) hfr)).symm
      · intro sn'
        rw [hget]
        exact consumedTogether_freed hfr hcnt.together sn'
    · obtain rfl := Except.ok.inj h3
      exact ⟨hcnt.size, hcnt.together⟩
  · simp_all

end

/-! ### The calls -/

/-- The header of a data PDU. -/
def dataHeader (c : Config) (buffer : List UInt8) : Option Header := do
  let (dc, d) ← getBits (Decoder.init buffer) 1
  if dc = 0 then none
  else do
    let (_, d) ← getBits d 1
    decodeHeader c d

/-- The PDU record of a data PDU. -/
def Header.pdu (h : Header) (buffer : List UInt8) : Pdu :=
  nrRlcNewPdu h.sn h.so h.isFirst h.isLast (buffer.drop h.byte)

/-- The call completes the SDU `rx_next` while one of the delivered SDUs right above it, up to the
first that is not delivered, holds a PDU that was stored after the delivery. -/
def FreesUnconsumed (e : Entity) (i : Input) : Prop :=
  ∃ buffer h, i = .recvPdu buffer ∧ dataHeader e.cfg buffer = some h ∧
    discardsPdu e.cfg e.rx buffer h = false ∧ h.sn = e.rx.rxNext ∧
    sduFull (storePdu e.rx (h.pdu buffer)) h.sn = true ∧ ¬ NoDataAbove e.cfg e.rx

section

variable {c : Config} {rx rx' : RxState} {now : UInt64}

theorem noDataAbove_storePdu (hb : RxBase c rx) {pdu : Pdu}
    (hd : pdu.data.isNone = false) (hpdu : pdu.sn = rx.rxNext) (h : NoDataAbove c rx)
    (hund : sduDelivered rx rx.rxNext = false) :
    NoDataAbove c (receptionHighest c (storePdu rx pdu) pdu.sn) := by
  rw [receptionHighest_storePdu]
  intro n hn hdel
  have hdel' : ∀ j : ℕ, 0 < j → j ≤ n →
      sduDelivered rx ((rx.rxNext + j) % c.snModulus) = true := by
    intro j h0 hj
    rw [← sduDelivered_storePdu hd hb.head]
    exact hdel j h0 hj
  have hz := h n hn hdel'
  show unconsumed (getPduFromSn (setPdus rx.rx pdu.sn _) ((rx.rxNext + n) % c.snModulus)) = 0
  rw [getPduFromSn_setPdus, if_neg]
  · exact hz
  · intro he
    -- the slot of `rx_next` is not delivered, the slot of the `n`-th SN is
    grind [le_refl, sduDelivered, getPduFromSn]

variable {buffer : List UInt8}

theorem recvData_counted (hc : c.Ok) (hi : RxInv c rx) (h : RxCounted rx)
    {hd : Header} (hsn : InRange c.snModulus hd.sn)
    (hkeep : discardsPdu c rx buffer hd = false → hd.sn = rx.rxNext →
      sduFull (storePdu rx (hd.pdu buffer)) hd.sn = true → NoDataAbove c rx)
    (hr : recvData c now rx buffer hd = .ok (rx', ev)) : RxCounted rx' := by
  unfold recvData at hr
  split at hr
  · simp_all
  next hdis =>
    have hw := modulusRx_lt_of_kept hdis
    have hkeep := hkeep (by simpa using hdis)
    change receptionActions c now (storePdu rx (hd.pdu buffer)) hd.sn = _ at hr
    generalize hpdu : hd.pdu buffer = pdu at hr hkeep
    have hdata : pdu.data.isNone = false := by rw [← hpdu]; rfl
    have hs : (hd.sn : ℤ) = pdu.sn := by rw [← hpdu]; rfl
    rw [hs] at hr hsn hw hkeep
    obtain ⟨⟨rx₁, ev₁⟩, h1, rfl, _⟩ := bind_pair_inj hr
    have hi1 := storePdu_inv hc hi hdata hsn hw
    have hW := hc.window_ge
    have hcnt := storePdu_counted hdata (by rw [hi.size]; omega) hi.head h
    have hcnt1 : RxCounted (receptionHighest c (storePdu rx pdu) pdu.sn) := by
      rw [receptionHighest_storePdu]
      exact ⟨hcnt.size, hcnt.together⟩
    have hcnt2 : RxCounted rx₁ := by
      refine receptionDeliver_counted hc hi1 hcnt1 ?_ hsn ?_ h1
      · intro hx hf
        have hfull : sduFull (storePdu rx pdu) pdu.sn = true := by
          rw [receptionHighest_storePdu] at hf
          exact hf
        have hx' : pdu.sn = rx.rxNext := by
          rw [receptionHighest_storePdu] at hx
          exact hx
        exact noDataAbove_storePdu hi.toRxBase hdata hx' (hkeep hx' hfull) hi.nextUndelivered
      · rw [receptionHighest_storePdu]
        exact hw
    obtain ⟨start, trigger, ht⟩ := receptionTimer_eq c now rx₁
    rw [ht]
    exact ⟨hcnt2.size, hcnt2.together⟩

/-- **Reception of a data PDU** that frees no unconsumed data keeps the count right. -/
theorem recvDataPdu_counted (hc : c.Ok) (hi : RxInv c rx) (h : RxCounted rx) {d : Decoder}
    (hb : d.bit < 8) (hkeep : ∀ p d' hd, getBits d 1 = some (p, d') → decodeHeader c d' = some hd →
      discardsPdu c rx buffer hd = false → hd.sn = rx.rxNext →
      sduFull (storePdu rx (hd.pdu buffer)) hd.sn = true → NoDataAbove c rx)
    (hr : recvDataPdu c now rx buffer d = .ok (rx', ev)) : RxCounted rx' := by
  have hpoll : ∀ (p : Bool) {r : RxState}, RxCounted r → RxCounted (pollStatus p r) := by
    intro p r hcr
    cases p with
    | false => exact hcr
    | true => exact ⟨hcr.size, hcr.together⟩
  unfold recvDataPdu at hr
  split at hr
  · simp_all
  next p d₁ hp =>
    have hb1 := (getBits_spec hb hp).1.bit
    split at hr
    · obtain ⟨rfl, _⟩ := ok_inj hr
      exact hpoll _ h
    next hd hdec =>
      obtain ⟨⟨rx₁, ev₁⟩, h1, rfl, _⟩ := bind_pair_inj hr
      grind [recvData_counted, decodeHeader_sn]

theorem checkTReassembly_counted (h : RxCounted rx) (hr : checkTReassembly c now rx = .ok rx') :
    RxCounted rx' := by
  unfold checkTReassembly at hr
  split at hr
  · obtain ⟨sn, _, rfl⟩ := bind_ok_inj hr
    unfold restartReassembly
    split
    · exact ⟨h.size, h.together⟩
    · exact ⟨h.size, h.together⟩
  · simp_all

end

theorem rxCounted_empty (hl : rx.rx.rxList = fun _ => []) (hs : rx.rxSize = 0) :
    RxCounted rx := by
  refine ⟨?_, ?_⟩
  · rw [hs, ringSize, hl]
    exact (Finset.sum_eq_zero (fun _ _ => rfl)).symm
  · intro sn _ p hp
    grind [getPduFromSn]

variable {e : Entity}

theorem step_counted {e' : Entity} {i : Input} {o : Output} (hc : e.cfg.Ok)
    (hi : RxInv e.cfg e.rx) (h : RxCounted e.rx) (hg : ¬ FreesUnconsumed e i)
    (hs : step e i = .ok (e', o)) : RxCounted e'.rx := by
  cases step_call hs with
  | recvSdu _ => exact h
  | statusPdu _ hr =>
    obtain ⟨triggered, prohibit, rfl⟩ := generateStatus_rx hr
    exact ⟨h.size, h.together⟩
  | dataPdu _ _ => exact h
  | recvNothing _ => exact h
  | recvControl _ => exact h
  | @recvData buffer dc d rx ev hdc hne hr =>
    refine recvDataPdu_counted hc hi h (getBits_spec (Nat.zero_lt_succ 7) hdc).1.bit ?_ hr
    intro p d' hd hp hdec hdis hsn hfull
    by_contra hno
    refine hg ⟨buffer, hd, rfl, ?_, hdis, hsn, hfull, hno⟩
    simp only [dataHeader, hdc, hp, Option.bind_eq_bind, Option.bind_some, if_neg hne, hdec]
  | setTime _ hr => exact checkTReassembly_counted h hr
  | discardSdu => exact h
  | reestablishment => exact rxCounted_empty rfl rfl

/-! ### Runs -/

/-- **The receive buffer is accounted for**: `rx_size` is the size of the unconsumed PDUs in the
ring, and once all SDUs below `rx_next_highest` are delivered it is 0. -/
structure RxAccounted (e : Entity) : Prop where
  size : e.rx.rxSize = ringSize e.rx.rx
  drained : (∀ sn, InRange e.cfg.snModulus sn →
    fromRxNext e sn < fromRxNext e e.rx.rxNextHighest → sduDelivered e.rx sn = true) →
    e.rx.rxSize = 0

theorem ringSize_of_drained (hi : EntityRxInv e)
    (hn : fromRxNext e e.rx.rxNextHighest = 0) : ringSize e.rx.rx = 0 := by
  have hc := hi.cfg
  have hW := hc.window_ge
  have hM := hc.modulus_eq
  apply Finset.sum_eq_zero
  intro pos hpos
  obtain ⟨i, hi1, hi2⟩ := exists_sn_of_pos hc hi.rx.toRxBase hpos
  have hd : modulusRx e.cfg e.rx ((e.rx.rxNext + i) % e.cfg.snModulus) = i :=
    dist_add_emod hi.rx.rxNext (by omega) (by omega)
  have hnil := hi.rx.empty _ (inRange_emod hc.modulus_pos)
    (by rw [modulusRx_eq_fromRxNext hi hi.rx.highest, hn, hd]; omega) (by rw [hd]; omega)
  rw [getPduFromSn, hi2] at hnil
  rw [hnil]
  rfl

theorem rxAccounted_of_counted (hi : EntityRxInv e) (h : RxCounted e.rx) :
    RxAccounted e := by
  refine ⟨h.size, ?_⟩
  intro hall
  rw [h.size]
  apply ringSize_of_drained hi
  -- `rx_next` is not delivered, so it is not below `rx_next_highest`
  have h0 : fromRxNext e e.rx.rxNext = 0 := by
    rw [fromRxNext, sub_self, Int.zero_emod]
  have hnn : 0 ≤ fromRxNext e e.rx.rxNextHighest :=
    Int.emod_nonneg _ (by have := hi.cfg.modulus_pos; omega)
  by_contra hne
  have := hall e.rx.rxNext hi.rx.rxNext (by omega)
  rw [hi.rx.nextUndelivered] at this
  cases this

/-- **The receive buffer stays accounted for** in every run without a call that frees unconsumed
data. -/
theorem reachable_rxAccounted {rxMaxsize txMaxsize : ℤ}
    {tPollRetransmit tReassembly tStatusProhibit : UInt64}
    {pollPdu pollByte maxRetxThreshold : ℤ} {snFieldLength : ℕ} {e₀ e : Entity}
    (h₀ : newNrRlcEntityAm rxMaxsize txMaxsize tPollRetransmit tReassembly tStatusProhibit pollPdu
      pollByte maxRetxThreshold snFieldLength = .ok e₀)
    (h : Reachable step (fun e i => ¬ FreesUnconsumed e i) e₀ e) : RxAccounted e := by
  have hnew := entityRxInv_new (newNrRlcEntityAm_eq h₀)
  have hcnt₀ : RxCounted e₀.rx := by
    obtain ⟨_, he⟩ := newNrRlcEntityAm_eq h₀
    rw [he]
    exact rxCounted_empty rfl rfl
  have hinv : EntityRxInv e ∧ RxCounted e.rx := by
    refine Reachable.invariant (fun e => EntityRxInv e ∧ RxCounted e.rx) ⟨hnew, hcnt₀⟩ ?_ h
    intro e i e' o ⟨hi, hcnt⟩ hg hs
    exact ⟨step_entityRxInv hi hs, step_counted hi.cfg hi.rx hcnt hg hs⟩
  exact rxAccounted_of_counted hinv.1 hinv.2

/-- SDU 1 is delivered, then SDU 0. -/
theorem reachable_rxAccounted_reordered :
    ∃ e₀ e, newNrRlcEntityAm 1000 1000 45 35 0 (-1) (-1) 8 12 = .ok e₀ ∧
      Reachable step (fun e i => ¬ FreesUnconsumed e i) e₀ e ∧ e.rx.rxNext = 2 ∧
      RxAccounted e := by
  have h₀ := newNrRlcEntityAm_sample
  have hg : ∀ e i, (∀ n, unconsumed (getPduFromSn e.rx.rx n) = 0) → ¬ FreesUnconsumed e i := by
    rintro e i hz ⟨_, _, _, _, _, _, _, hno⟩
    exact hno (fun n _ _ => hz _)
  have h₁ : Reachable step (fun e i => ¬ FreesUnconsumed e i)
      Entity.sample _ :=
    .step (i := .recvPdu [0x80, 0x01, 0xaa]) .start (hg _ _ fun _ => rfl) rfl
  have h₂ := Reachable.step (i := Input.recvPdu [0x80, 0x00, 0xbb]) h₁ (hg _ _ ?_) rfl
  · exact ⟨_, _, h₀, h₂, rfl, reachable_rxAccounted h₀ h₂⟩
  · intro n
    show unconsumed (getPduFromSn (setPdus (setPdus (nrRlcNewRxManager 2048) 1 _) 1 _) n) = 0
    rw [getPduFromSn_setPdus]
    split
    · exact unconsumed_consume _
    · rw [getPduFromSn_setPdus, if_neg (by assumption)]
      rfl

/-- **The count drifts.**  SDU 1 is received, then a segment of it at byte 5, then SDU 0: the ring
is empty and everything is delivered, and `rx_size` is 1. -/
theorem not_rxAccounted_after_late_segment :
    ¬ ∀ (rxMaxsize txMaxsize : ℤ) (tPollRetransmit tReassembly tStatusProhibit : UInt64)
      (pollPdu pollByte maxRetxThreshold : ℤ) (snFieldLength : ℕ) (e₀ e : Entity),
      newNrRlcEntityAm rxMaxsize txMaxsize tPollRetransmit tReassembly tStatusProhibit pollPdu
        pollByte maxRetxThreshold snFieldLength = .ok e₀ →
      Reachable step
        (fun _ i => (∃ buffer, i = .recvPdu buffer) ∨ ∃ now, i = .setTime now) e₀ e →
      RxAccounted e := by
  intro h
  obtain ⟨⟨e, os⟩, hrun, hobs⟩ := exists_of_observed
    (f := fun p => (p.1.cfg.snModulus, p.1.rx.rxNext, p.1.rx.rxNextHighest, p.1.rx.rxSize))
    (b := (4096, 2, 2, 1)) (x := run step Entity.sample
      [.recvPdu [0x80, 0x01, 0xaa], .recvPdu [0xa0, 0x01, 0x00, 0x05, 0xbb],
        .recvPdu [0x80, 0x00, 0xcc]]) (by decide +kernel)
  simp only [Prod.mk.injEq] at hobs
  obtain ⟨hM, hn, hh, hsize⟩ := hobs
  have hacc := h 1000 1000 45 35 0 (-1) (-1) 8 12 _ e rfl (Reachable.start.of_run (by simp) hrun)
  have hzero := hacc.drained (by grind [fromRxNext])
  omega

end OaiGnb.Rlc.Am
