import OaiGnb.Rlc.Um.Entity

/-!
# UM buffer accounting

`Accounted` states what the three counters of a UM entity count: `tx_size` the bytes of the
segments in `tx_list`, the buffer status these bytes with their headers, and `rx_size` the bytes
stored in `rx_list`.  Three calls break it, each where `Miscounts` says:

* `generate_pdu` unlinks a complete SDU before `resegment` refuses to split it;
* `discard_sdu` frees an SDU without subtracting it from `tx_size`;
* an expiry of `t_reassembly` discards stored segments without subtracting them from `rx_size`.

`reachable_accounted` shows that nothing else does.
-/

namespace OaiGnb.Rlc.Um

open Run SortedList

/-! ### What the transmitting calls do -/

/-- `generate_pdu` of this size takes the head of `tx_list` off the list and returns 0. -/
def LosesHead (c : Config) (tx : TxState) (size : ℕ) : Prop :=
  c.snFieldLength = 12 ∧ size = 2 ∧
    ∃ sdu rest, tx.txList = sdu :: rest ∧ sdu.isFirst = true ∧ sdu.isLast = true ∧ 2 ≤ sdu.size

/-- The representation of `tx_list`: distinct allocated nodes and a correct tail pointer. -/
structure TxState.WF (tx : TxState) : Prop where
  nodup : (tx.txList.map Segment.addr).Nodup
  tail : tx.txEnd = lastAddr tx.txList
  alloc : ∀ s ∈ tx.txList, s.addr < tx.heap.segTop

/-- `tx_list` after its head has been taken off. -/
def TxState.pop (c : Config) (tx : TxState) (sdu : Segment) (rest : List Segment) : TxState :=
  { tx with
    txList := rest
    txEnd := if rest = [] then none else tx.txEnd
    heap := tx.heap.modify sdu.sdu (fun s => { s with sn := tx.txNext })
    bstatusTxSize := tx.bstatusTxSize - (computePduHeaderSize c sdu + sdu.size : ℕ) }

/-- The header of the segment that `resegment` makes of a segment. -/
def splitHeaderSize (c : Config) (sdu : Segment) : ℕ :=
  computePduHeaderSize c { sdu with isLast := false }

/-- The first part of a split segment. -/
def splitHead (c : Config) (sdu : Segment) (size : ℕ) : Segment :=
  { sdu with size := sdu.size - (splitHeaderSize c sdu + sdu.size - size), isLast := false }

/-- The second part of a split segment. -/
def splitNext (c : Config) (heap : Heap) (sdu : Segment) (size : ℕ) : Segment :=
  { sdu with
    addr := heap.segTop
    size := splitHeaderSize c sdu + sdu.size - size
    so := sdu.so + (splitHead c sdu size).size
    isFirst := false }

/-- The heap after a split: one more reference to the SDU and one more segment. -/
def splitHeap (heap : Heap) (sdu : Segment) : Heap :=
  let heap := heap.modify sdu.sdu (fun s => { s with refCount := s.refCount + 1 })
  { heap with segTop := heap.segTop + 1 }

variable {c : Config} {sdu : Segment} {size : ℕ} {tx tx' : TxState} {buffer : List UInt8}
  {sduId : ℤ} {rest : List Segment} {rx rx' : RxState} {ev : List Event} {now : UInt64}

theorem resegment_none (heap : Heap) (h : splitHeaderSize c sdu + 1 > size) :
    resegment c heap sdu size =
      (none, heap.modify sdu.sdu (fun s => { s with refCount := s.refCount + 1 })) :=
  if_pos h

theorem resegment_some (heap : Heap) (h : ¬ splitHeaderSize c sdu + 1 > size) :
    resegment c heap sdu size =
      (some (splitHead c sdu size, splitNext c heap sdu size), splitHeap heap sdu) :=
  if_neg h

/-- The state handed to `transmitSegment` after a split. -/
def TxState.split (c : Config) (tx : TxState) (sdu : Segment) (rest : List Segment) (size : ℕ) :
    TxState :=
  let tx := tx.pop c sdu rest
  let next := splitNext c tx.heap sdu size
  { tx with
    heap := splitHeap tx.heap sdu
    txList := next :: rest
    txEnd := tx.txEnd.or (some next.addr)
    bstatusTxSize := tx.bstatusTxSize + (computePduHeaderSize c next + next.size : ℕ) }

/-- **What `generate_tx_pdu` can do**: nothing, lose the head of the list, send the head, or
split it and send the first part. -/
theorem generateTxPdu_cases (c : Config) (tx : TxState) (size : ℕ) :
    generateTxPdu c tx size = .ok (tx, []) ∨
    ∃ sdu rest, tx.txList = sdu :: rest ∧ computePduHeaderSize c sdu + 1 ≤ size ∧
      ((size < computePduHeaderSize c sdu + sdu.size ∧ size < splitHeaderSize c sdu + 1) ∨
        (computePduHeaderSize c sdu + sdu.size ≤ size ∧
          generateTxPdu c tx size = transmitSegment c (tx.pop c sdu rest) sdu size) ∨
        (size < computePduHeaderSize c sdu + sdu.size ∧ splitHeaderSize c sdu + 1 ≤ size ∧
          generateTxPdu c tx size =
            transmitSegment c (tx.split c sdu rest size) (splitHead c sdu size) size)) := by
  unfold generateTxPdu
  cases hl : tx.txList with
  | nil => exact Or.inl rfl
  | cons sdu rest =>
    dsimp only
    by_cases hroom : computePduHeaderSize c sdu + 1 > size
    · exact Or.inl (if_pos hroom)
    rw [if_neg hroom]
    refine Or.inr ⟨sdu, rest, rfl, by omega, ?_⟩
    by_cases hbig : computePduHeaderSize c sdu + sdu.size > size
    · rw [if_pos hbig]
      by_cases hs : splitHeaderSize c sdu + 1 > size
      · omega
      · refine Or.inr (Or.inr ⟨by omega, by omega, ?_⟩)
        simp only [resegment_some _ hs]
        rfl
    · rw [if_neg hbig]
      exact Or.inr (Or.inl ⟨by omega, rfl⟩)

/-- The state after a segment has been sent. -/
def TxState.sent (c : Config) (tx : TxState) (sdu : Segment) : TxState :=
  { tx with
    txNext := if !sdu.isFirst && sdu.isLast then (tx.txNext + 1) % c.snModulus else tx.txNext
    txSize := tx.txSize - sdu.size
    heap := (nrRlcFreeSduSegment tx.heap sdu).2 }

/-- **What sending a segment does**: the PDU is what `serialize_sdu` writes. -/
theorem transmitSegment_eq (c : Config) (tx : TxState) (sdu : Segment) (size : ℕ) :
    transmitSegment c tx sdu size =
      serializeSdu c tx.heap sdu size >>= fun pdu => .ok (tx.sent c sdu, pdu) := by
  unfold transmitSegment TxState.sent
  split <;> simp only <;> rfl

/-- `recv_sdu` accepts an SDU that `tx_maxsize` leaves room for. -/
def Accepts (c : Config) (tx : TxState) (buffer : List UInt8) : Prop :=
  tx.txSize + buffer.length ≤ c.txMaxsize

instance (c : Config) (tx : TxState) (buffer : List UInt8) : Decidable (Accepts c tx buffer) :=
  inferInstanceAs (Decidable (_ ≤ _))

/-- The state after an SDU has been accepted. -/
def TxState.push (c : Config) (tx : TxState) (buffer : List UInt8) (sduId : ℤ) : TxState :=
  let (sdu, heap) := nrRlcNewSdu tx.heap buffer sduId
  { tx with
    txSize := tx.txSize + buffer.length
    heap := heap
    txList := tx.txList ++ [sdu]
    txEnd := some sdu.addr
    bstatusTxSize := tx.bstatusTxSize + (computePduHeaderSize c sdu + sdu.size) }

/-- **What `recv_sdu` does**: it refuses the SDU or puts it at the end of `tx_list`. -/
theorem recvSdu_cases (hw : tx.WF) (h : recvSdu c tx buffer sduId = .ok tx') :
    (¬ Accepts c tx buffer ∧ tx' = tx) ∨
    (Accepts c tx buffer ∧ buffer.length ≤ nrSduMax ∧ tx' = tx.push c buffer sduId) := by
  unfold recvSdu at h
  unfold Accepts
  split at h
  · cases h
  split at h
  · exact Or.inl ⟨by omega, (Except.ok.inj h).symm⟩
  · rw [hw.tail] at h
    simp only [nrRlcSduSegmentListAppend_eq _ hw.nodup, ok_bind, pure_eq_ok, Except.ok.injEq] at h
    exact Or.inr ⟨by omega, by omega, h.symm⟩

theorem losesHead_of_split (hl : tx.txList = sdu :: rest)
    (h1 : computePduHeaderSize c sdu + 1 ≤ size) (h2 : size < computePduHeaderSize c sdu + sdu.size)
    (h3 : size < splitHeaderSize c sdu + 1) : LosesHead c tx size := by
  unfold splitHeaderSize computePduHeaderSize at *
  by_cases h12 : c.snFieldLength = 12
  · cases hf : sdu.isFirst <;> cases hlast : sdu.isLast <;>
      simp only [hf, hlast, h12, Bool.and_false, Bool.and_true, Bool.not_false, Bool.not_true,
        decide_true, if_true, Bool.false_eq_true, if_false, Nat.add_zero] at h1 h2 h3
    · omega
    · omega
    · omega
    · exact ⟨h12, by omega, sdu, rest, hl, hf, hlast, by omega⟩
  · grind

/-! ### The counters -/

/-- The bytes of a segment with its header. -/
def pduBytes (c : Config) (s : Segment) : ℤ := computePduHeaderSize c s + s.size

/-- The counters of the transmitting side. -/
structure TxState.Accounted (c : Config) (tx : TxState) : Prop where
  txSize : tx.txSize = sumOver (fun s => s.size) tx.txList
  bstatusTxSize : tx.bstatusTxSize = sumOver (pduBytes c) tx.txList

/-- The counter of the receiving side. -/
def RxState.Accounted (rx : RxState) : Prop := rx.rxSize = pdusSize rx.rxList

/-- **The accounting of a UM entity.** -/
structure Accounted (e : Entity) : Prop where
  tx : e.tx.Accounted e.cfg
  rx : e.rx.Accounted

/-- `discard_sdu` frees an SDU that has bytes. -/
def DiscardsBytes (tx : TxState) (sduId : ℤ) : Prop :=
  ∃ cur, findSdu tx.heap tx.txList sduId = some cur ∧ cur.isFirst = true ∧ cur.isLast = true ∧
    0 < cur.size

/-- `t_reassembly` expires while the list starts with a stored segment, not consumed, of an SDU
below the first SN from `rx_timer_trigger` on that is not delivered. -/
def ExpiryDropsBytes (c : Config) (now : UInt64) (rx : RxState) : Prop :=
  tReassemblyExpired c now rx = true ∧
  ∃ sn, skipDelivered c rx rx.rxTimerTrigger = .ok sn ∧
    ∃ p ∈ rx.rxList.takeWhile (fun p => snCompareRx c rx p.sn sn < 0), 0 < p.size

/-- The calls after which a counter is wrong. -/
def Miscounts (e : Entity) : Input → Prop
  | .generatePdu size => LosesHead e.cfg e.tx size
  | .discardSdu sduId => DiscardsBytes e.tx sduId
  | .setTime now => ExpiryDropsBytes e.cfg now e.rx
  | _ => False

/-! ### The transmitting side -/

theorem pop_wf (hw : tx.WF) (hl : tx.txList = sdu :: rest) : (tx.pop c sdu rest).WF := by
  have hnd := hw.nodup
  rw [hl, List.map_cons, List.nodup_cons] at hnd
  refine ⟨hnd.2, ?_, ?_⟩
  · simp only [TxState.pop, hw.tail, hl]
    cases rest with
    | nil => rfl
    | cons a rest => simp [lastAddr_cons_cons]
  · intro s hs
    exact hw.alloc s (by rw [hl]; exact List.mem_cons_of_mem _ hs)

theorem split_wf (size : ℕ)
    (hw : tx.WF) (hl : tx.txList = sdu :: rest) : (tx.split c sdu rest size).WF := by
  have hp := pop_wf (c := c) hw hl
  refine ⟨?_, ?_, ?_⟩
  · -- the new segment is freshly allocated
    simp only [TxState.split, List.map_cons, List.nodup_cons]
    refine ⟨?_, hp.nodup⟩
    intro hmem
    obtain ⟨s, hs, ha⟩ := List.mem_map.mp hmem
    have := hp.alloc s hs
    grind [splitNext]
  · simp only [TxState.split, hp.tail]
    grind [lastAddr, absurd, TxState.pop]
  · intro s hs
    simp only [TxState.split, splitHeap, Heap.modify_segTop] at hs ⊢
    rcases List.mem_cons.mp hs with rfl | hs
    · simp [splitNext]
    · have := hp.alloc s hs
      omega

theorem transmitSegment_keeps
    {pdu : List UInt8} (h : transmitSegment c tx sdu size = .ok (tx', pdu)) (hw : tx.WF)
    (hs : tx.txSize = sdu.size + sumOver (fun s => s.size) tx.txList)
    (hb : tx.bstatusTxSize = sumOver (pduBytes c) tx.txList) : tx'.WF ∧ tx'.Accounted c := by
  rw [transmitSegment_eq] at h
  obtain ⟨_, _, rfl, _⟩ := bind_returns.mp h
  refine ⟨⟨hw.nodup, hw.tail, ?_⟩, ⟨?_, hb⟩⟩
  · intro s hs
    exact hw.alloc s hs
  · grind [TxState.sent]

theorem computePduHeaderSize_le_split (c : Config) (sdu : Segment) :
    computePduHeaderSize c sdu ≤ splitHeaderSize c sdu := by
  grind [splitHeaderSize, computePduHeaderSize]

theorem split_sizes (heap : Heap) (h : splitHeaderSize c sdu + 1 ≤ size)
    (h' : size < computePduHeaderSize c sdu + sdu.size) :
    (splitHead c sdu size).size + (splitNext c heap sdu size).size = sdu.size := by
  grind [computePduHeaderSize_le_split, splitHead, splitNext]

theorem generateTxPdu_keeps {pdu : List UInt8}
    (h : generateTxPdu c tx size = .ok (tx', pdu)) (hw : tx.WF) (ha : tx.Accounted c)
    (hok : ¬ LosesHead c tx size) : tx'.WF ∧ tx'.Accounted c := by
  rcases generateTxPdu_cases c tx size with
    ht | ⟨sdu, rest, hl, h1, ⟨h2, h3⟩ | ⟨h2, ht⟩ | ⟨h2, h3, ht⟩⟩
  · simp_all
  · exact absurd (losesHead_of_split hl h1 h2 h3) hok
  · refine transmitSegment_keeps (ht.symm.trans h) (pop_wf hw hl) ?_ ?_
    · rw [show (tx.pop c sdu rest).txSize = tx.txSize from rfl, ha.txSize, hl, sumOver_cons]
      rfl
    · simp only [TxState.pop, ha.bstatusTxSize, hl, sumOver_cons, pduBytes]
      push_cast
      ring
  · refine transmitSegment_keeps (ht.symm.trans h) (split_wf size hw hl) ?_ ?_
    · have hsz := split_sizes (tx.pop c sdu rest).heap h3 h2
      rw [show (tx.split c sdu rest size).txSize = tx.txSize from rfl, ha.txSize, hl, sumOver_cons]
      simp only [TxState.split, sumOver_cons]
      omega
    · simp only [TxState.split, TxState.pop, ha.bstatusTxSize, hl, sumOver_cons, pduBytes]
      push_cast
      ring

theorem push_wf (c : Config) (buffer : List UInt8) (sduId : ℤ) (hw : tx.WF) :
    (tx.push c buffer sduId).WF := by
  refine ⟨?_, ?_, ?_⟩
  · simp only [TxState.push, nrRlcNewSdu, List.map_append, List.map_cons, List.map_nil]
    refine List.Nodup.append hw.nodup (by simp) ?_
    intro a ha' hmem
    obtain ⟨s, hs, rfl⟩ := List.mem_map.mp ha'
    have := hw.alloc s hs
    simp_all
  · simp [TxState.push, nrRlcNewSdu]
  · intro s hs
    simp only [TxState.push, nrRlcNewSdu] at hs ⊢
    rcases List.mem_append.mp hs with hs | hs
    · have := hw.alloc s hs
      omega
    · simp_all

theorem recvSdu_keeps (h : recvSdu c tx buffer sduId = .ok tx') (hw : tx.WF) (ha : tx.Accounted c) :
    tx'.WF ∧ tx'.Accounted c := by
  rcases recvSdu_cases hw h with ⟨_, rfl⟩ | ⟨_, _, rfl⟩
  · exact ⟨hw, ha⟩
  · refine ⟨push_wf c buffer sduId hw, ⟨?_, ?_⟩⟩
    · simp [TxState.push, nrRlcNewSdu, ha.txSize]
    · simp [TxState.push, nrRlcNewSdu, ha.bstatusTxSize, pduBytes]

/-- **What `discard_sdu` does**: nothing, or it takes a complete SDU off the list. -/
theorem discardSdu_cases (hw : tx.WF) :
    discardSdu c tx sduId = tx ∨
    ∃ cur before after, findSdu tx.heap tx.txList sduId = some cur ∧ cur.isFirst = true ∧
      cur.isLast = true ∧ tx.txList = before ++ cur :: after ∧ (discardSdu c tx sduId).WF ∧
      ∃ txEnd, discardSdu c tx sduId = { tx with
        txList := before ++ after
        txEnd := txEnd
        bstatusTxSize := tx.bstatusTxSize - (computePduHeaderSize c cur + cur.size)
        heap := (nrRlcFreeSduSegment tx.heap cur).2 } := by
  unfold discardSdu
  split
  · exact Or.inl rfl
  next cur hcur =>
    split
    · exact Or.inl rfl
    next hflags =>
      rw [Bool.or_eq_true, not_or, Bool.not_eq_true', Bool.not_eq_false, Bool.not_eq_true',
        Bool.not_eq_false] at hflags
      obtain ⟨before, after, hl, hu⟩ := unlink_spec (findSdu_mem hcur) hw.nodup
      refine Or.inr ⟨cur, before, after, hcur, hflags.1, hflags.2, hl, ?_⟩
      simp only [hw.tail, hu]
      have hnd := hw.nodup
      rw [hl, List.map_append, List.map_cons] at hnd
      refine ⟨⟨?_, rfl, ?_⟩, _, rfl⟩
      · simpa using (List.nodup_middle.mp hnd).of_cons
      · intro s hs
        refine hw.alloc s ?_
        grind

theorem discardSdu_keeps (hw : tx.WF) (ha : tx.Accounted c) (hok : ¬ DiscardsBytes tx sduId) :
    (discardSdu c tx sduId).WF ∧ (discardSdu c tx sduId).Accounted c := by
  rcases @discardSdu_cases c tx sduId hw with heq |
    ⟨cur, before, after, hcur, hfirst, hlast, hl, hwf, txEnd, heq⟩
  · rw [heq]
    exact ⟨hw, ha⟩
  · have hzero : cur.size = 0 := by
      by_contra hne
      exact hok ⟨cur, hcur, hfirst, hlast, Nat.pos_of_ne_zero hne⟩
    refine ⟨hwf, ?_⟩
    rw [heq]
    constructor
    · simp only [ha.txSize, hl, sumOver_append, sumOver_cons, hzero]
      simp
    · simp only [ha.bstatusTxSize, hl, sumOver_append, sumOver_cons, pduBytes]
      ring

/-! ### The receiving side -/

theorem pdusSize_insertBefore (stop : Pdu → Bool) (p : Pdu) (l : List Pdu) :
    pdusSize (insertBefore stop p l) = pdusSize l + p.size := by
  induction l with
  | nil => simp [insertBefore]
  | cons a l ih =>
    grind [insertBefore, pdusSize_cons]

theorem pdusSize_map_consume (l : List Pdu) : pdusSize (l.map consume) = 0 := by
  induction l with
  | nil => rfl
  | cons p l ih => rw [List.map_cons, pdusSize_cons, ih]; rfl

theorem pdusSize_consumeSdu (sn : ℤ) (l : List Pdu) :
    pdusSize (consumeSdu sn l) = pdusSize l - pdusSize (pdusOf sn l) := by
  have h1 : pdusSize l = pdusSize (l.takeWhile (fun p => p.sn ≠ sn)) +
      pdusSize (l.dropWhile (fun p => p.sn ≠ sn)) := by
    rw [← pdusSize_append, List.takeWhile_append_dropWhile]
  have h2 : pdusSize (l.dropWhile (fun p => p.sn ≠ sn)) = pdusSize (pdusOf sn l) +
      pdusSize ((l.dropWhile (fun p => p.sn ≠ sn)).dropWhile (fun p => p.sn = sn)) := by
    rw [pdusOf, ← pdusSize_append, List.takeWhile_append_dropWhile]
  rw [consumeSdu, pdusSize_append, pdusSize_append, pdusSize_map_consume, h1, h2]
  ring

theorem discardOutOfWindow_keeps (c : Config) (rx : RxState) (l : List Pdu) (rxSize : ℤ) :
    (discardOutOfWindow c rx l rxSize).2 - pdusSize (discardOutOfWindow c rx l rxSize).1
      = rxSize - pdusSize l := by
  induction l generalizing rxSize with
  | nil => rfl
  | cons p l ih =>
    grind [discardOutOfWindow, pdusSize_cons]

theorem reassembleAndDeliver_keeps (h : rx.Accounted) (sn : ℤ) :
    (reassembleAndDeliver rx sn).1.Accounted := by
  show rx.rxSize - pdusSize (pdusOf sn rx.rxList) = pdusSize (consumeSdu sn rx.rxList)
  rw [pdusSize_consumeSdu, h]

theorem receptionDeliver_keeps {x : ℤ}
    (h : receptionDeliver c rx x = .ok (rx', ev)) (ha : rx.Accounted) : rx'.Accounted := by
  unfold receptionDeliver at h
  split at h
  · have hd := reassembleAndDeliver_keeps ha x
    dsimp only at h
    split at h
    · obtain ⟨sn, _, rfl, -⟩ := bind_pair_inj h
      exact hd
    · simp_all
  split at h
  · dsimp only at h
    have hd := discardOutOfWindow_keeps c { rx with rxNextHighest := (x + 1) % c.snModulus }
      rx.rxList rx.rxSize
    rw [ha, sub_self, sub_eq_zero] at hd
    split at h
    · obtain ⟨sn, _, rfl, -⟩ := bind_pair_inj h
      exact ha ▸ hd
    · obtain ⟨rfl, -⟩ := ok_inj h
      exact ha ▸ hd
  · simp_all

theorem receptionTimer_keeps (ha : rx.Accounted) : (receptionTimer c now rx).Accounted := by
  unfold receptionTimer startTimer stopTimer
  split <;> split <;> exact ha

theorem recvSegment_keeps {hd : Header} (h : recvSegment c now rx buffer hd = .ok (rx', ev))
    (ha : rx.Accounted) : rx'.Accounted := by
  unfold recvSegment at h
  dsimp only at h
  split at h
  · simp_all
  split at h
  · simp_all
  split at h
  · simp_all
  · obtain ⟨⟨rx₁, ev₁⟩, h1, rfl, -⟩ := bind_pair_inj h
    grind [receptionTimer_keeps, receptionDeliver_keeps, RxState.Accounted, nrRlcPduListAdd,
      pdusSize_insertBefore, nrRlcNewPdu, List.length_drop]

theorem recvPdu_keeps (h : recvPdu c now rx buffer = .ok (rx', ev)) (ha : rx.Accounted) :
    rx'.Accounted := by
  grind [recvPdu, pure_eq_ok, Except.ok.injEq, Prod.mk.injEq, recvSegment_keeps]

theorem discardBelow_eq (c : Config) (rx : RxState) (l : List Pdu) :
    discardBelow c rx l = l.dropWhile (fun p => snCompareRx c rx p.sn rx.rxNextReassembly < 0) := by
  induction l with
  | nil => rfl
  | cons p l ih =>
    grind [discardBelow, List.dropWhile_cons]

theorem pdusSize_eq_zero {l : List Pdu} (h : ∀ p ∈ l, ¬ 0 < p.size) : pdusSize l = 0 := by
  induction l with
  | nil => rfl
  | cons p l ih =>
    simp_all

theorem checkTReassembly_keeps (h : checkTReassembly c now rx = .ok rx') (ha : rx.Accounted)
    (hok : ¬ ExpiryDropsBytes c now rx) : rx'.Accounted := by
  unfold checkTReassembly at h
  split at h
  next hexp =>
    obtain ⟨sn, h1, h2⟩ := bind_returns.mp h
    have hz : pdusSize (rx.rxList.takeWhile (fun p => snCompareRx c rx p.sn sn < 0)) = 0 :=
      pdusSize_eq_zero (fun p hp hpos => hok ⟨hexp, sn, h1, p, hp, hpos⟩)
    have hsum : pdusSize (rx.rxList.dropWhile (fun p => snCompareRx c rx p.sn sn < 0))
        = pdusSize rx.rxList := by
      conv_rhs => rw [← List.takeWhile_append_dropWhile
        (p := fun p : Pdu => decide (snCompareRx c rx p.sn sn < 0)) (l := rx.rxList)]
      rw [pdusSize_append, hz, zero_add]
    dsimp only at h2
    rw [discardBelow_eq] at h2
    have hkept : rx.rxSize = pdusSize (rx.rxList.dropWhile
        (fun p => snCompareRx c rx p.sn sn < 0)) := ha.trans hsum.symm
    split at h2
    all_goals
      obtain rfl := Except.ok.inj h2
      exact hkept
  · simp_all

/-! ### Whole runs -/

/-- What a run keeps: the accounting, and the list representation it rests on. -/
structure AccountingInv (e : Entity) : Prop where
  wf : e.tx.WF
  accounted : Accounted e

theorem clearEntity_inv (e : Entity) : AccountingInv (clearEntity e) :=
  ⟨⟨List.nodup_nil, rfl, List.forall_mem_nil _⟩, ⟨⟨rfl, rfl⟩, rfl⟩⟩

/-- **One call keeps the accounting** unless it is one that miscounts. -/
theorem step_inv {e e' : Entity} {i : Input} {o : Output} (hi : AccountingInv e)
    (hok : ¬ Miscounts e i) (h : step e i = .ok (e', o)) : AccountingInv e' := by
  obtain ⟨hw, ⟨ht, hr⟩⟩ := hi
  cases i with
  | recvSdu buffer sduId =>
    obtain ⟨tx, h1, rfl, -⟩ := bind_pair_inj h
    obtain ⟨hw', ht'⟩ := recvSdu_keeps h1 hw ht
    exact ⟨hw', ⟨ht', hr⟩⟩
  | generatePdu size =>
    obtain ⟨⟨tx, pdu⟩, h1, rfl, -⟩ := bind_pair_inj h
    obtain ⟨hw', ht'⟩ := generateTxPdu_keeps h1 hw ht hok
    exact ⟨hw', ⟨ht', hr⟩⟩
  | recvPdu buffer =>
    obtain ⟨⟨rx, ev⟩, h1, rfl, -⟩ := bind_pair_inj h
    exact ⟨hw, ⟨ht, recvPdu_keeps h1 hr⟩⟩
  | setTime now =>
    obtain ⟨rx, h1, rfl, -⟩ := bind_pair_inj h
    exact ⟨hw, ⟨ht, checkTReassembly_keeps h1 hr hok⟩⟩
  | discardSdu sduId =>
    obtain ⟨rfl, -⟩ := ok_inj h
    obtain ⟨hw', ht'⟩ := discardSdu_keeps hw ht hok
    exact ⟨hw', ⟨ht', hr⟩⟩
  | reestablishment =>
    grind [step, pure_eq_ok, Except.ok.injEq, Prod.mk.injEq, clearEntity_inv]

theorem newNrRlcEntityUm_inv {rxMaxsize txMaxsize : ℤ} {tReassembly : UInt64}
    {snFieldLength : ℕ} {e : Entity}
    (h : newNrRlcEntityUm rxMaxsize txMaxsize tReassembly snFieldLength = .ok e) :
    AccountingInv e := by
  obtain ⟨-, rfl⟩ := newNrRlcEntityUm_eq h
  exact ⟨⟨List.nodup_nil, rfl, List.forall_mem_nil _⟩, ⟨⟨rfl, rfl⟩, rfl⟩⟩

/-- **UM accounting.**  In every run of a new UM entity in which no call miscounts, all three
counters are right in every state reached. -/
theorem reachable_accounted {rxMaxsize txMaxsize : ℤ} {tReassembly : UInt64} {snFieldLength : ℕ}
    {e₀ e : Entity} (h₀ : newNrRlcEntityUm rxMaxsize txMaxsize tReassembly snFieldLength = .ok e₀)
    (h : Reachable step (fun e i => ¬ Miscounts e i) e₀ e) : Accounted e :=
  (h.invariant AccountingInv (newNrRlcEntityUm_inv h₀)
    (fun _ _ _ _ hi hok hs => step_inv hi hok hs)).accounted

/-- An SDU of five bytes, split by a grant of four: two bytes are sent, three stay counted. -/
theorem reachable_accounted_split :
    ∃ e₀ e, newNrRlcEntityUm 1000 1000 35 12 = .ok e₀ ∧
      Reachable step (fun e i => ¬ Miscounts e i) e₀ e ∧ e.tx.txSize = 3 ∧ Accounted e := by
  have h₀ : newNrRlcEntityUm 1000 1000 35 12 = .ok (Entity.new (Config.new 1000 1000 35 12)) := rfl
  have h₁ : Reachable step (fun e i => ¬ Miscounts e i) (Entity.new (Config.new 1000 1000 35 12)) _ :=
    .step (i := .recvSdu [1, 2, 3, 4, 5] 7) .start id rfl
  have h₂ := Reachable.step (i := Input.generatePdu 4) h₁ (by rintro ⟨_, h, _⟩; cases h) rfl
  exact ⟨_, _, h₀, h₂, rfl, reachable_accounted h₀ h₂⟩

/-- **The counters drift.**  After an SDU has been accepted and discarded again, `tx_list` is
empty and `tx_size` still counts it. -/
theorem not_accounted_after_discard :
    ¬ ∀ (rxMaxsize txMaxsize : ℤ) (tReassembly : UInt64) (snFieldLength : ℕ) (e₀ e : Entity),
      newNrRlcEntityUm rxMaxsize txMaxsize tReassembly snFieldLength = .ok e₀ →
      Reachable step (fun _ _ => True) e₀ e → Accounted e := by
  intro h
  have h₁ : Reachable step (fun _ _ => True) (Entity.new (Config.new 1000 1000 35 12)) _ :=
    .step (i := .recvSdu [1, 2, 3] 7) .start trivial rfl
  have h₂ := Reachable.step (i := Input.discardSdu 7) h₁ trivial rfl
  have hsize := (h 1000 1000 35 12 _ _ rfl h₂).tx.txSize
  exact absurd hsize (by decide)

end OaiGnb.Rlc.Um
