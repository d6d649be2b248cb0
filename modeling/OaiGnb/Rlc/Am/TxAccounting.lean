import OaiGnb.Rlc.Am.Walk
import Mathlib.Algebra.Order.BigOperators.Group.Finset

/-!
# The accounting of the transmitting side

An SDU counts the segments it has been cut into (`ref_count`) and those that have been freed
(`free_count`), and is freed itself when the two are equal.  `Counted` says that the difference is
the number of its segments in the three lists; `TxAccounted` adds the counters of the entity.

* `Counted.freed_iff`: the SDU is freed with the last of its segments.
* `processStatus_accounted`: a STATUS PDU keeps the accounting unless it drops a part of the
  retransmit list.
* `reachable_represented`, `reachable_txSizesOk`: so does every run without such a STATUS PDU
  and without an SN that is used twice.
-/

namespace OaiGnb.Rlc.Am

open SerialNumber Run SortedList

/-! ### The counters of the SDUs -/

/-- The segments of an SDU. -/
def segmentsOf (i : ℕ) (l : List Segment) : List Segment := l.filter (fun s => decide (s.sdu = i))

/-- The segments of an SDU that are not freed are those in the list. -/
def Counted (heap : Heap) (l : List Segment) : Prop :=
  ∀ i, (heap.sdu i).freeCount + (segmentsOf i l).length = (heap.sdu i).refCount

/-- The bytes of the SDUs that have a segment in the list, each SDU once. -/
def liveBytes (heap : Heap) (l : List Segment) : ℤ :=
  ∑ i ∈ (l.map Segment.sdu).toFinset, ((heap.sdu i).size : ℤ)

section

variable {heap heap' : Heap} {l l' : List Segment} {s : Segment}

theorem segmentsOf_length_cons (i : ℕ) (s : Segment) (l : List Segment) :
    (segmentsOf i (s :: l)).length = (segmentsOf i l).length + if s.sdu = i then 1 else 0 := by
  rw [segmentsOf, List.filter_cons]
  by_cases h : s.sdu = i
  · rw [if_pos (decide_eq_true h), if_pos h]
    rfl
  · rw [if_neg (by simpa using h), if_neg h]
    rfl

theorem segmentsOf_length_eq_zero {i : ℕ} :
    (segmentsOf i l).length = 0 ↔ i ∉ l.map Segment.sdu := by
  rw [List.length_eq_zero_iff, segmentsOf, List.filter_eq_nil_iff]
  simp

theorem Counted.perm (h : Counted heap l) (hp : l'.Perm l) : Counted heap l' := by
  intro i
  rw [segmentsOf, (hp.filter _).length_eq]
  exact h i

/-- Two heaps with SDUs of the same counters and sizes. -/
def SameCounts (h h' : Heap) : Prop :=
  ∀ i, (h'.sdu i).refCount = (h.sdu i).refCount ∧ (h'.sdu i).freeCount = (h.sdu i).freeCount ∧
    (h'.sdu i).size = (h.sdu i).size

theorem SameCounts.refl (h : Heap) : SameCounts h h := fun _ => ⟨rfl, rfl, rfl⟩

theorem sameCounts_modify (h : Heap) (i : ℕ) {f : Sdu → Sdu} (hr : ∀ d, (f d).refCount = d.refCount)
    (hf : ∀ d, (f d).freeCount = d.freeCount) (hz : ∀ d, (f d).size = d.size) :
    SameCounts h (h.modify i f) :=
  fun j => ⟨h.modify_field i j Sdu.refCount hr, h.modify_field i j Sdu.freeCount hf,
    h.modify_field i j Sdu.size hz⟩

theorem Counted.congr (h : Counted heap l) (hs : SameCounts heap heap') : Counted heap' l := by
  intro i
  rw [(hs i).1, (hs i).2.1]
  exact h i

theorem Counted.free (h : Counted heap (s :: l)) :
    Counted (nrRlcFreeSduSegment heap s).2 l := by
  intro i
  have hi := h i
  rw [segmentsOf_length_cons] at hi
  show ((heap.modify s.sdu (fun d => { d with freeCount := d.freeCount + 1 })).sdu i).freeCount + _ =
    ((heap.modify s.sdu (fun d => { d with freeCount := d.freeCount + 1 })).sdu i).refCount
  grind [Heap.modify_sdu]

/-- **The SDU is freed with the last of its segments.** -/
theorem Counted.freed_iff (h : Counted heap (s :: l)) :
    (nrRlcFreeSduSegment heap s).1 = true ↔ s.sdu ∉ l.map Segment.sdu := by
  have hi := h s.sdu
  rw [segmentsOf_length_cons, if_pos rfl] at hi
  have hf : (nrRlcFreeSduSegment heap s).1 =
      decide ((heap.sdu s.sdu).freeCount + 1 = (heap.sdu s.sdu).refCount) := by
    unfold nrRlcFreeSduSegment
    dsimp only
    rw [Heap.modify_sdu_self]
  rw [hf, decide_eq_true_iff, ← segmentsOf_length_eq_zero]
  omega

theorem Counted.freeList (h : Counted heap (l ++ l')) :
    Counted (nrRlcFreeSduSegmentList heap l) l' := by
  induction l generalizing heap with
  | nil => exact h
  | cons s l ih => exact ih h.free

theorem Counted.split (h : Counted heap (s :: l)) (n addr : ℕ) :
    Counted (splitHeap heap s) (headPart s n :: tailPart s n addr :: l) := by
  intro i
  have hi := h i
  rw [segmentsOf_length_cons] at hi
  rw [segmentsOf_length_cons, segmentsOf_length_cons]
  show ((heap.modify s.sdu (fun d => { d with refCount := d.refCount + 1 })).sdu i).freeCount +
      ((segmentsOf i l).length + (if s.sdu = i then 1 else 0) +
        (if s.sdu = i then 1 else 0)) =
    ((heap.modify s.sdu (fun d => { d with refCount := d.refCount + 1 })).sdu i).refCount
  grind [Heap.modify_sdu]

theorem Counted.newSdu (h : Counted heap l) (hl : ∀ s ∈ l, s.sdu < heap.sduTop)
    (buffer : List UInt8) (sduId : ℤ) :
    Counted (nrRlcNewSdu heap buffer sduId).2 ((nrRlcNewSdu heap buffer sduId).1 :: l) := by
  intro i
  have hi := h i
  rw [segmentsOf_length_cons]
  show (Function.update heap.sdu heap.sduTop _ i).freeCount +
      (_ + (if heap.sduTop = i then 1 else 0)) =
    (Function.update heap.sdu heap.sduTop _ i).refCount
  by_cases he : i = heap.sduTop
  · have hzero : (segmentsOf i l).length = 0 := by
      refine segmentsOf_length_eq_zero.mpr ?_
      intro hm
      obtain ⟨t, ht, hti⟩ := List.mem_map.mp hm
      have := hl t ht
      omega
    simp_all
  · grind

theorem liveBytes_congr (hs : ∀ i, (heap'.sdu i).size = (heap.sdu i).size)
    (hm : ∀ i, i ∈ l'.map Segment.sdu ↔ i ∈ l.map Segment.sdu) :
    liveBytes heap' l' = liveBytes heap l := by
  have hset : (l'.map Segment.sdu).toFinset = (l.map Segment.sdu).toFinset := by
    ext i
    rw [List.mem_toFinset, List.mem_toFinset]
    exact hm i
  rw [liveBytes, liveBytes, hset]
  exact Finset.sum_congr rfl (fun i _ => by rw [hs])

theorem liveBytes_cons_of_mem (h : s.sdu ∈ l.map Segment.sdu) :
    liveBytes heap (s :: l) = liveBytes heap l := by
  simp_all [liveBytes, List.map_cons, List.toFinset_cons, Finset.insert_eq_of_mem]

theorem liveBytes_cons_of_not_mem (h : s.sdu ∉ l.map Segment.sdu) :
    liveBytes heap (s :: l) = (heap.sdu s.sdu).size + liveBytes heap l := by
  grind [liveBytes, List.toFinset_cons, Finset.sum_insert, List.mem_toFinset]

theorem liveBytes_nonneg (heap : Heap) (l : List Segment) : 0 ≤ liveBytes heap l :=
  Finset.sum_nonneg (fun _ _ => Int.natCast_nonneg _)

end

/-! ### The counters of the entity -/

/-- **The accounting**, while the segments `held` are in none of the lists. -/
structure TxAccounted (c : Config) (held : List Segment) (tx : TxState) : Prop where
  counted : Counted tx.heap (held ++ tx.live)
  bstatusTx : tx.bstatusTxSize = sumOver (pduSize c) tx.txList
  bstatusRetx : tx.bstatusRetxSize = sumOver (pduSize c) tx.retransmitList
  txSize : tx.txSize = liveBytes tx.heap (held ++ tx.live)

variable {size : ℕ} {pdu : List UInt8} {e e' : Entity} {r w : Segment} {o : Output}

variable {rest : List Segment}

section

variable {c : Config} {held held' : List Segment} {tx tx' : TxState} {s : Segment}

theorem TxAccounted.of_perm (h : TxAccounted c held tx)
    (hp : (held' ++ tx'.live).Perm (held ++ tx.live))
    (hs : SameCounts tx.heap tx'.heap) (ht : tx'.txSize = tx.txSize)
    (hb : tx'.bstatusTxSize - sumOver (pduSize c) tx'.txList =
      tx.bstatusTxSize - sumOver (pduSize c) tx.txList)
    (hb' : tx'.bstatusRetxSize - sumOver (pduSize c) tx'.retransmitList =
      tx.bstatusRetxSize - sumOver (pduSize c) tx.retransmitList) : TxAccounted c held' tx' := by
  have h1 := h.bstatusTx
  have h2 := h.bstatusRetx
  refine ⟨(h.counted.perm hp).congr hs, by omega, by omega, ?_⟩
  rw [ht, h.txSize]
  exact (liveBytes_congr (fun i => (hs i).2.2) (fun i => (hp.map Segment.sdu).mem_iff)).symm

theorem TxAccounted.free (h : TxAccounted c held tx)
    (hp : (s :: (held' ++ tx'.live)).Perm (held ++ tx.live))
    (hh : tx'.heap = (nrRlcFreeSduSegment tx.heap s).2) (ht : tx'.txSize = tx.txSize -
      if (nrRlcFreeSduSegment tx.heap s).1 then ((tx.heap.sdu s.sdu).size : ℤ) else 0)
    (hb : tx'.bstatusTxSize - sumOver (pduSize c) tx'.txList =
      tx.bstatusTxSize - sumOver (pduSize c) tx.txList)
    (hb' : tx'.bstatusRetxSize - sumOver (pduSize c) tx'.retransmitList =
      tx.bstatusRetxSize - sumOver (pduSize c) tx.retransmitList) : TxAccounted c held' tx' := by
  have h1 := h.bstatusTx
  have h2 := h.bstatusRetx
  have hc := h.counted.perm hp
  have hfreed := hc.freed_iff
  refine ⟨by rw [hh]; exact hc.free, by omega, by omega, ?_⟩
  have hbytes : liveBytes tx.heap (held ++ tx.live) = liveBytes tx.heap (s :: (held' ++ tx'.live)) :=
    liveBytes_congr (fun _ => rfl) (fun i => (hp.map Segment.sdu).symm.mem_iff)
  have hsame : liveBytes tx'.heap (held' ++ tx'.live) = liveBytes tx.heap (held' ++ tx'.live) := by
    rw [hh]
    exact liveBytes_congr (fun i => (sameSdus_free tx.heap s).size i) (fun _ => Iff.rfl)
  rw [ht, h.txSize, hbytes, hsame]
  by_cases hlast : (nrRlcFreeSduSegment tx.heap s).1 = true
  · rw [if_pos hlast, liveBytes_cons_of_not_mem (hfreed.mp hlast)]
    omega
  · rw [if_neg hlast, liveBytes_cons_of_mem (not_not.mp (fun hn => hlast (hfreed.mpr hn)))]
    omega

/-! ### Generation of data PDUs -/

theorem TxAccounted.popTx (h : TxAccounted c [] tx)
    (hl : tx.txList = s :: rest) : TxAccounted c [s] (popTx c tx s rest) := by
  refine h.of_perm (popTx_perm hl) (SameCounts.refl _) rfl ?_ rfl
  show tx.bstatusTxSize - pduSize c s - sumOver (pduSize c) rest = _
  rw [hl, sumOver_cons]
  omega

theorem TxAccounted.popRetx (h : TxAccounted c [] tx)
    (hl : tx.retransmitList = s :: rest) : TxAccounted c [s] (popRetx c tx s rest) := by
  refine h.of_perm (popRetx_perm hl) (SameCounts.refl _) rfl rfl ?_
  show tx.bstatusRetxSize - pduSize c s - sumOver (pduSize c) rest = _
  rw [hl, sumOver_cons]
  omega

theorem assignSn_accounted (h : TxAccounted c held tx) :
    TxAccounted c held (assignSn c tx s) := by
  unfold assignSn
  split
  · exact h.of_perm (List.Perm.refl _) (sameCounts_modify _ s.sdu
      (f := fun d => { d with sn := tx.txNext }) (fun _ => rfl) (fun _ => rfl) (fun _ => rfl)) rfl
      rfl rfl
  · exact h

theorem TxAccounted.splitHeld (h : TxAccounted c [s] tx) (n : ℕ) {l : List Segment}
    (hp : l.Perm (headPart s n :: tailPart s n tx.heap.segTop :: tx.live)) :
    Counted (splitHeap tx.heap s) l ∧ tx.txSize = liveBytes (splitHeap tx.heap s) l := by
  refine ⟨(h.counted.split n _).perm hp, ?_⟩
  rw [h.txSize]
  refine (liveBytes_congr (fun i => (sameSdus_resegment tx.heap s.sdu).size i) ?_).symm
  intro i
  rw [(hp.map Segment.sdu).mem_iff]
  show i ∈ s.sdu :: s.sdu :: tx.live.map Segment.sdu ↔ i ∈ s.sdu :: tx.live.map Segment.sdu
  simp

theorem splitTx_accounted (h : TxAccounted c [s] tx) (h1 : computePduHeaderSize c s + 1 ≤ size) :
    TxAccounted c [(splitTx c tx s size).1] (splitTx c tx s size).2 := by
  rcases splitTx_cases (c := c) tx h1 with ⟨_, he⟩ | ⟨n, _, _, _, he⟩
  · rw [he]
    exact h
  · rw [he]
    obtain ⟨hc, ht⟩ := h.splitHeld n (List.Perm.refl _)
    refine ⟨hc, ?_, h.bstatusRetx, ht⟩
    show tx.bstatusTxSize + pduSize c (tailPart s n tx.heap.segTop) = sumOver _ (_ :: tx.txList)
    rw [sumOver_cons, h.bstatusTx]
    omega

theorem splitRetx_accounted (h : TxAccounted c [s] tx) (h1 : computePduHeaderSize c s + 1 ≤ size) :
    TxAccounted c [(splitRetx c tx s size).1] (splitRetx c tx s size).2 := by
  rcases splitRetx_cases (c := c) tx h1 with ⟨_, he⟩ | ⟨n, _, _, _, he⟩
  · rw [he]
    exact h
  · rw [he]
    obtain ⟨hc, ht⟩ := h.splitHeld n (l := headPart s n ::
      (tx.txList ++ tx.waitList ++ tailPart s n tx.heap.segTop :: tx.retransmitList))
      (List.Perm.cons _ List.perm_middle)
    refine ⟨hc, h.bstatusTx, ?_, ht⟩
    show tx.bstatusRetxSize + pduSize c (tailPart s n tx.heap.segTop) =
      sumOver _ (_ :: tx.retransmitList)
    rw [sumOver_cons, h.bstatusRetx]
    omega

theorem Sent.accounted (hs : Sent c tx tx' s size pdu)
    (h : TxAccounted c [s] tx) : TxAccounted c [] tx' := by
  obtain ⟨l, hp, _, hsame⟩ := hs.wait
  refine h.of_perm hs.perm (by rw [hsame.heap]; exact SameCounts.refl _) hsame.txSize ?_ ?_
  · rw [hsame.bstatusTxSize, hsame.txList]
  · rw [hsame.bstatusRetxSize, hsame.retransmitList]

variable {now : UInt64}

theorem generateTxPdu_accounted (hc : c.Ok)
    (hi : TxInv c [] tx) (hfresh : NextSnFresh tx) (h : TxAccounted c [] tx)
    (hg : generateTxPdu c now tx size = .ok (tx', pdu)) : TxAccounted c [] tx' := by
  rcases generateTxPdu_cases hc hi hfresh hg with ⟨rfl, _⟩ | ⟨s, rest, _, hl, hroom, hsent⟩
  · exact h
  · exact hsent.accounted (splitTx_accounted (assignSn_accounted (h.popTx hl)) hroom)

theorem generateRetxPdu_accounted (hi : TxInv c [] tx) (h : TxAccounted c [] tx)
    (hg : generateRetxPdu c now tx size = .ok (tx', pdu)) : TxAccounted c [] tx' := by
  rcases generateRetxPdu_cases hi hg with ⟨rfl, _⟩ | ⟨s, rest, hl, hroom, hsent⟩
  · exact h
  · exact hsent.accounted (splitRetx_accounted (h.popRetx hl) hroom)

/-! ### The other calls -/

theorem pushSdu_accounted (hi : TxInv c [] tx) (h : TxAccounted c [] tx) (buffer : List UInt8)
    (sduId : ℤ) : TxAccounted c [] (pushSdu c tx buffer sduId) := by
  set new := (nrRlcNewSdu tx.heap buffer sduId).1 with hnew
  have hlt : ∀ t ∈ tx.live, t.sdu < tx.heap.sduTop := fun t ht => (hi.live.seg t ht).sdu_lt
  have hperm := pushSdu_perm c tx buffer sduId
  have hout : new.sdu ∉ tx.live.map Segment.sdu := by
    intro hm
    obtain ⟨t, ht, he⟩ := List.mem_map.mp hm
    change t.sdu = tx.heap.sduTop at he
    have := hlt t ht
    omega
  refine ⟨(h.counted.newSdu hlt buffer sduId).perm hperm, ?_, h.bstatusRetx, ?_⟩
  · show tx.bstatusTxSize + pduSize c new = sumOver (pduSize c) (tx.txList ++ [new])
    rw [sumOver_append, sumOver_cons, sumOver_nil, h.bstatusTx]
    omega
  · have hbytes : liveBytes (pushSdu c tx buffer sduId).heap (pushSdu c tx buffer sduId).live =
        liveBytes (pushSdu c tx buffer sduId).heap (new :: tx.live) :=
      liveBytes_congr (fun _ => rfl) (fun i => (hperm.map Segment.sdu).mem_iff)
    have hself : (pushSdu c tx buffer sduId).heap.sdu new.sdu = ⟨-1, sduId, buffer, -1, 1, 0⟩ :=
      Function.update_self ..
    have hold : liveBytes (pushSdu c tx buffer sduId).heap tx.live = liveBytes tx.heap tx.live := by
      refine Finset.sum_congr rfl ?_
      intro i hmem
      obtain ⟨t, ht, rfl⟩ := List.mem_map.mp (List.mem_toFinset.mp hmem)
      have := hlt t ht
      show ((Function.update tx.heap.sdu tx.heap.sduTop _ t.sdu).size : ℤ) = _
      rw [Function.update_of_ne (by omega)]
    show tx.txSize + buffer.length = liveBytes _ (pushSdu c tx buffer sduId).live
    rw [hbytes, liveBytes_cons_of_not_mem hout, hself, hold, h.txSize]
    exact add_comm _ _

theorem Moved.accounted (hm : Moved c tx tx') (h : TxAccounted c [] tx) : TxAccounted c [] tx' :=
  h.of_perm hm.live (fun i => ⟨hm.refCount i, hm.freeCount i, hm.sdus.size i⟩) hm.txSize
    (by rw [hm.bstatusTxSize, hm.txList]) hm.bstatusRetxSize

theorem LiveOk.whole {heap : Heap} {l : List Segment} (h : LiveOk c heap (s :: l))
    (h1 : s.isFirst = true) (h2 : s.isLast = true) : s.sdu ∉ l.map Segment.sdu := by
  intro hm
  obtain ⟨t, ht, he⟩ := List.mem_map.mp hm
  have hs := h.seg s List.mem_cons_self
  have ht' := h.seg t (List.mem_cons_of_mem _ ht)
  have hso : s.so = 0 := of_decide_eq_true (hs.isFirst.symm.trans h1)
  have hend : s.so + s.size = (heap.sdu s.sdu).size := of_decide_eq_true (hs.isLast.symm.trans h2)
  have hin := ht'.inside
  have hempty := ht'.empty
  have hap := ((List.pairwise_cons.mp h.apart).1 t ht).2 he.symm
  grind

theorem discardSdu_accounted (hi : TxInv c [] tx) (h : TxAccounted c [] tx) (sduId : ℤ) :
    TxAccounted c [] (discardSdu c tx sduId) := by
  rcases discardSdu_cases hi sduId with he | ⟨before, cur, after, hl, hf, hla, he⟩
  · rw [he]
    exact h
  · have hp := discardSdu_perm hl
    have hfreed := ((h.counted.perm hp).freed_iff).mpr
      ((hi.live.perm hp).whole hf hla)
    rw [he]
    refine h.free hp rfl ?_ ?_ rfl
    · simp_all
    · show tx.bstatusTxSize - pduSize c cur - sumOver _ (before ++ after) = _
      rw [hl, sumOver_append, sumOver_append, sumOver_cons]
      omega

theorem clearEntity_accounted (h : TxAccounted c [] e.tx) :
    TxAccounted c [] (clearEntity e).tx := by
  have hc := h.counted
  rw [List.nil_append, TxState.live, List.append_assoc] at hc
  have hc' : Counted (nrRlcFreeSduSegmentList (nrRlcFreeSduSegmentList e.tx.heap e.tx.txList)
      e.tx.waitList) (e.tx.retransmitList ++ []) := by
    rw [List.append_nil]
    exact hc.freeList.freeList
  exact ⟨hc'.freeList, rfl, rfl, rfl⟩

end

/-! ### STATUS PDUs -/

/-- The NACK that decides about the segment does not hit it. -/
def missedBy (c : Config) (tx : TxState) : List Nack → Segment → Bool
  | [], _ => false
  | n :: ns, s => misses c tx n s || (defers c tx n s && missedBy c tx ns s)

/-- The STATUS PDU drops a part of the retransmit list: a segment there is not below `ack_sn`, the
NACK that decides about it does not hit it, and no segment of the wait list comes after it. -/
def DropsRetx (c : Config) (tx : TxState) (s : StatusPdu) : Prop :=
  ∃ r ∈ tx.retransmitList, belowAck c tx s.ackSn r = false ∧
    missedBy c tx (s.expand c) r = true ∧
    ∀ w ∈ tx.waitList, key c tx.txNextAck tx.heap w ≤ key c tx.txNextAck tx.heap r

/-- What the walk has gone through: the rest of the retransmit list, and all of the wait list that
comes before what is left. -/
structure Walked (c : Config) (tx : TxState) (st : Walk) : Prop where
  retx : ∀ r ∈ st.curRetx, r ∈ tx.retransmitList
  wait : ∀ w ∈ tx.waitList, w ∈ st.curWait ∨ ∀ t ∈ st.curWait ++ st.curRetx,
    key c tx.txNextAck tx.heap w ≤ key c tx.txNextAck tx.heap t

section

variable {c : Config} {tx : TxState} {ackSn : ℤ} {n : Nack} {st st' : Walk}

theorem missedBy_of_passed {done rest : List Nack}
    (hp : ∀ m ∈ done, defers c tx m r = true) (hm : misses c tx n r = true) :
    missedBy c tx (done ++ n :: rest) r = true := by
  induction done with
  | nil =>
    rw [List.nil_append, missedBy, hm]
    rfl
  | cons m done ih =>
    rw [List.cons_append, missedBy, hp m List.mem_cons_self,
      ih (List.forall_mem_cons.mp hp).2]
    exact Bool.or_true _

theorem toTx_live (tx : TxState) (st : Walk) : (st.toTx tx).live = tx.txList ++ st.segs :=
  List.append_assoc ..

section

variable (h : TxAccounted c [] (st.toTx tx))

include h

theorem walk_accounted_of_perm (hp : st'.segs.Perm st.segs)
    (hs : SameCounts st.heap st'.heap) (ht : st'.txSize = st.txSize)
    (hb : st'.bstatusRetxSize - sumOver (pduSize c) (st'.newRetx ++ st'.curRetx) =
      st.bstatusRetxSize - sumOver (pduSize c) (st.newRetx ++ st.curRetx)) :
    TxAccounted c [] (st'.toTx tx) := by
  refine h.of_perm ?_ hs ht rfl hb
  grind [toTx_live]

theorem freeAcked_accounted {s : Segment}
    (hp : (s :: (freeAcked st' s).segs).Perm st.segs) (hh : st'.heap = st.heap)
    (ht : st'.txSize = st.txSize)
    (hb : st'.bstatusRetxSize - sumOver (pduSize c) (st'.newRetx ++ st'.curRetx) =
      st.bstatusRetxSize - sumOver (pduSize c) (st.newRetx ++ st.curRetx)) :
    TxAccounted c [] ((freeAcked st' s).toTx tx) := by
  obtain ⟨_, _, h3, h4, _, h6, h7⟩ := freeAcked_fields st' s
  refine h.free (s := s) ?_ ?_ ?_ rfl ?_
  · grind [toTx_live]
  · show (freeAcked st' s).heap = _
    rw [h7, hh]
    rfl
  · show (freeAcked st' s).txSize = st.txSize -
      if (nrRlcFreeSduSegment st.heap s).1 then ((st.heap.sdu s.sdu).size : ℤ) else 0
    rw [freeAcked, hh, ← ht]
    grind
  · show (freeAcked st' s).bstatusRetxSize -
      sumOver (pduSize c) ((freeAcked st' s).newRetx ++ (freeAcked st' s).curRetx) = _
    rw [h3, h4, h6]
    exact hb

theorem nackWait_accounted
    (hw : st.curWait = w :: rest) : TxAccounted c [] ((nackWait c tx st w rest).toTx tx) := by
  refine walk_accounted_of_perm h (nackWait_perm hw) (sameCounts_modify _ w.sdu
    (f := fun d => { d with retxCount := d.retxCount + 1 }) (fun _ => rfl) (fun _ => rfl)
    (fun _ => rfl)) rfl ?_
  show st.bstatusRetxSize + pduSize c w -
    sumOver (pduSize c) (st.newRetx ++ [w] ++ st.curRetx) = _
  rw [sumOver_append, sumOver_append, sumOver_append, sumOver_cons, sumOver_nil]
  omega

theorem ackWait_accounted
    (hw : st.curWait = w :: rest) : TxAccounted c [] ((ackWait tx st w rest).toTx tx) :=
  freeAcked_accounted h (ackWait_perm hw) rfl rfl rfl

theorem ackRetx_accounted
    (hr : st.curRetx = r :: rest) : TxAccounted c [] ((ackRetx c st r rest).toTx tx) := by
  refine freeAcked_accounted h (ackRetx_perm hr) rfl rfl ?_
  show st.bstatusRetxSize - pduSize c r - sumOver (pduSize c) (st.newRetx ++ rest) = _
  rw [hr, sumOver_append, sumOver_append, sumOver_cons]
  omega

theorem keepWait_accounted {l : List Segment} (hw : st.curWait = l ++ rest) :
    TxAccounted c [] (Walk.toTx tx { st with kept := st.kept ++ l, curWait := rest }) := by
  refine walk_accounted_of_perm h ?_ (SameCounts.refl _) rfl rfl
  grind [Walk.segs, List.append_assoc]

theorem keepRetx_accounted (hr : st.curRetx = r :: rest) :
    TxAccounted c [] (Walk.toTx tx { st with newRetx := st.newRetx ++ [r], curRetx := rest }) := by
  have he : st.newRetx ++ [r] ++ rest = st.newRetx ++ st.curRetx := by
    rw [hr, List.append_assoc, List.singleton_append]
  refine walk_accounted_of_perm h ?_ (SameCounts.refl _) rfl ?_
  · grind [Walk.segs]
  · simp_all

/-- **A turn keeps the accounting**, unless it drops the rest of the retransmit list. -/
theorem NackTurn.accounted (ht : NackTurn c tx ackSn n st st')
    (hno : ∀ r rest, st.curRetx = r :: rest → misses c tx n r = true →
      belowAck c tx ackSn r = false → st.curWait ≠ []) : TxAccounted c [] (st'.toTx tx) := by
  cases ht with
  | nackWait hw => exact nackWait_accounted h hw
  | ackWait hw => exact ackWait_accounted h hw
  | keepWait hw => exact keepWait_accounted h hw
  | keepWaitRest hw => exact keepWait_accounted h (hw.trans (List.append_nil _).symm)
  | nackRetx hr => exact keepRetx_accounted h hr
  | ackRetx hr => exact ackRetx_accounted h hr
  | keepRetx hr => exact keepRetx_accounted h hr
  | dropRetx hr hm hge hnil => exact absurd hnil (hno _ _ hr hm hge)

theorem FinishTurn.accounted
    (ht : FinishTurn c tx ackSn st st') : TxAccounted c [] (st'.toTx tx) := by
  cases ht with
  | ackWait hw => exact ackWait_accounted h hw
  | ackRetx hr => exact ackRetx_accounted h hr

end

theorem Walked.waitHead (hg : Good c tx st) (h : Walked c tx st) (hw : st.curWait = w :: rest)
    (hf : FirstOf c tx w st.curRetx)
    (h1 : st'.curWait = rest) (h2 : st'.curRetx = st.curRetx) : Walked c tx st' := by
  refine ⟨by rw [h2]; exact h.retx, ?_⟩
  have hsort := (sortedBy_append.mp hg.waitSorted).2.1
  rw [hw] at hsort
  intro v hv
  rw [h1, h2]
  rcases h.wait v hv with hm | hle
  · rw [hw] at hm
    rcases List.mem_cons.mp hm with rfl | hm
    · refine Or.inr ?_
      exact List.forall_mem_append.mpr
        ⟨(sortedBy_cons.mp hsort).1, hf.all (sortedBy_append.mp hg.retxSorted).2.1⟩
    · exact Or.inl hm
  · simp_all

theorem Walked.retxHead (h : Walked c tx st) (h1 : st'.curWait = st.curWait)
    (h2 : ∀ s ∈ st'.curRetx, s ∈ st.curRetx) : Walked c tx st' := by
  refine ⟨fun r hr => h.retx r (h2 r hr), ?_⟩
  intro v hv
  rw [h1]
  rcases h.wait v hv with hm | hle
  · exact Or.inl hm
  · grind

theorem validStatus_nacks {s : StatusPdu} (hv : validStatus c tx s = true) :
    ∀ m ∈ s.expand c, snCompareTx c tx m.sn s.ackSn ≤ 0 := by
  rw [validStatus, Bool.and_eq_true, List.all_eq_true] at hv
  exact fun m hm => of_decide_eq_true (hv.2 m hm)

/-- No segment above `ack_sn` is missed by a NACK at or below it. -/
theorem snCompareTx_of_misses {s : Segment} (hv : snCompareTx c tx n.sn ackSn ≤ 0)
    (hm : misses c tx n s = true) : snCompareTx c tx (snOf tx.heap s) ackSn ≤ 0 := by
  rw [misses, Bool.and_eq_true, Bool.not_eq_true', Bool.not_eq_true'] at hm
  have hnot : ¬ _ := fun hb => Bool.eq_false_iff.mp hm.2 (beyond_iff.mpr hb)
  grind [snCompareTx, modulusTx_eq]

theorem Walked.turn (hg : Good c tx st) (h : Walked c tx st) (hv : snCompareTx c tx n.sn ackSn ≤ 0)
    (ht : NackTurn c tx ackSn n st st') : Walked c tx st' := by
  cases ht with
  | nackWait hw hf => exact h.waitHead hg hw hf rfl rfl
  | ackWait hw hf =>
    obtain ⟨_, h2, _, h4, _⟩ := freeAcked_fields _ _
    exact h.waitHead hg hw hf h2 h4
  | keepWait hw hf => exact h.waitHead hg hw hf rfl rfl
  | keepWaitRest _ hm hgt => exact absurd hgt (not_lt.mpr (snCompareTx_of_misses hv hm))
  | nackRetx hr =>
    exact h.retxHead rfl (fun s hs => by rw [hr]; exact List.mem_cons_of_mem _ hs)
  | @ackRetx r rest hr _ _ _ =>
    obtain ⟨_, h2, _, h4, _⟩ := freeAcked_fields
      { st with
        curRetx := rest
        bstatusRetxSize := st.bstatusRetxSize - (computePduHeaderSize c r + r.size) } r
    refine h.retxHead h2 (fun s hs => ?_)
    grind [ackRetx, List.mem_cons_of_mem]
  | keepRetx hr =>
    exact h.retxHead rfl (fun s hs => by rw [hr]; exact List.mem_cons_of_mem _ hs)
  | dropRetx => exact h.retxHead rfl (fun s hs => by cases hs)

/-- **The rule of a STATUS PDU that drops nothing**: the turns meet the invariant of the walk, and
none of them comes to the branch that cuts the retransmit list. -/
theorem processStatus_rule {s : StatusPdu} (hc : c.Ok) (hi : TxInv c [] tx)
    (hv : validStatus c tx s = true) (hno : ¬ DropsRetx c tx s) (J : Walk → Prop)
    (hstart : J (Walk.start tx))
    (hturn : ∀ done n rest st st', s.expand c = done ++ n :: rest → Good c tx st →
      Passed c tx done st → J st → NackTurn c tx s.ackSn n st st' →
      (∀ r rs, st.curRetx = r :: rs → misses c tx n r = true →
        belowAck c tx s.ackSn r = false → st.curWait ≠ []) → J st')
    (hfinish : ∀ st st', Good c tx st → Passed c tx (s.expand c) st → J st →
      FinishTurn c tx s.ackSn st st' → J st') :
    Good c tx (processLists c tx s.ackSn (s.expand c)) ∧
      Passed c tx (s.expand c) (processLists c tx s.ackSn (s.expand c)) ∧
      J (processLists c tx s.ackSn (s.expand c)) := by
  have hvn := validStatus_nacks hv
  have hne : ∀ {done : List Nack} {n : Nack} {rest : List Nack}, s.expand c = done ++ n :: rest →
      done ≠ s.expand c := by
    intro done n rest he hd
    have hlen := congrArg List.length (hd.trans he)
    rw [List.length_append, List.length_cons] at hlen
    omega
  -- the order of the walk matters only as long as there are NACKs
  have hrule := processLists_rule s.ackSn
    (fun done st => J st ∧ Passed c tx done st ∧ (done ≠ s.expand c → Walked c tx st)) hi
    (expand_inRange hc s) ⟨hstart, fun _ hn => (List.not_mem_nil hn).elim,
      fun _ => ⟨fun _ hr => hr, fun _ hw => Or.inl hw⟩⟩
  refine (fun hr => ⟨hr.1, hr.2.2.1, hr.2.1⟩) (hrule ?_ ?_ ?_)
  · intro done n rest st st' he hg hp hj ht
    have hw := hj.2.2 (hne he)
    refine ⟨hturn done n rest st st' he hg hp hj.1 ht ?_, hp.turn ht,
      fun _ => hw.turn hg (hvn n (by rw [he]; simp)) ht⟩
    intro r rs hr hm hge hnil
    have hrm : r ∈ st.curWait ++ st.curRetx := by rw [hr]; simp
    refine hno ⟨r, hw.retx r (by rw [hr]; exact List.mem_cons_self), hge, ?_, ?_⟩
    · rw [he]
      exact missedBy_of_passed (fun m hmd => hp m hmd r hrm) hm
    · intro w hwm
      rcases hw.wait w hwm with hcur | hle
      · grind
      · exact hle r hrm
  · grind
  · intro st st' hg hp hj ht
    exact ⟨hfinish st st' hg hp hj.1 ht, fun m hm t hs => hp m hm t (finishTurn_subset ht t hs),
      fun h => absurd rfl h⟩

theorem accounted_start (h : TxAccounted c [] tx) : TxAccounted c [] ((Walk.start tx).toTx tx) :=
  h.of_perm (List.Perm.refl _) (SameCounts.refl _) rfl rfl rfl

/-- **A STATUS PDU keeps the accounting** unless it drops a part of the retransmit list. -/
theorem processStatus_accounted {s : StatusPdu} (hc : c.Ok) (hi : TxInv c [] tx)
    (hv : validStatus c tx s = true) (hno : ¬ DropsRetx c tx s) (h : TxAccounted c [] tx) :
    TxAccounted c [] (processStatus c tx s).1 := by
  have hrule := processStatus_rule hc hi hv hno (fun st => TxAccounted c [] (st.toTx tx))
    (accounted_start h) (fun _ _ _ _ _ _ _ _ hj ht hkeep => ht.accounted hj hkeep)
    (fun _ _ _ _ hj ht => ht.accounted hj)
  exact hrule.2.2.of_perm (List.Perm.refl _) (SameCounts.refl _) rfl rfl
    rfl

end

/-! ### Runs -/

/-- The call receives a STATUS PDU that drops a part of the retransmit list. -/
def Drops (e : Entity) (i : Input) : Prop := ∃ s, Receives e i s ∧ DropsRetx e.cfg e.tx s

/-- The call may give a new SDU an SN that a live SDU has. -/
def Reuses (e : Entity) (i : Input) : Prop :=
  (∃ size, i = .generatePdu size) ∧ ¬ NextSnFresh e.tx

/-- The invariant of an entity. -/
structure EntityTx (e : Entity) : Prop where
  cfg : e.cfg.Ok
  inv : TxInv e.cfg [] e.tx
  accounted : TxAccounted e.cfg [] e.tx

variable {i : Input}

theorem nextSnFresh_of_not_reuses (hr : ¬ Reuses e i) :
    ∀ size, i = .generatePdu size → NextSnFresh e.tx :=
  fun size hi => not_not.mp (fun hn => hr ⟨⟨size, hi⟩, hn⟩)

theorem step_entityTx (h : EntityTx e)
    (hd : ¬ Drops e i) (hr : ¬ Reuses e i) (hs : step e i = .ok (e', o)) : EntityTx e' := by
  have hcfg := step_cfg hs
  have hfresh := nextSnFresh_of_not_reuses hr
  refine ⟨by rw [hcfg]; exact h.cfg, by rw [hcfg]; exact step_txInv h.cfg h.inv hfresh hs, ?_⟩
  rw [hcfg]
  have hcall := step_txCall h.cfg h.inv hs
  generalize e'.tx = tx' at hcall ⊢
  cases hcall with
  | idle => exact h.accounted
  | accept _ _ => exact pushSdu_accounted h.inv h.accounted _ _
  | send hg => exact generateTxPdu_accounted h.cfg h.inv (hfresh _ rfl) h.accounted hg
  | resend hg => exact generateRetxPdu_accounted h.inv h.accounted hg
  | @status i s hrec hack =>
    obtain ⟨_, _, _, _, _, hv⟩ := id hrec
    exact processStatus_accounted h.cfg h.inv hv (fun hdr => hd ⟨s, hrec, hdr⟩) h.accounted
  | poll hp => exact (checkTPollRetransmit_moved hp).accounted h.accounted
  | discard => exact discardSdu_accounted h.inv h.accounted _
  | clear => exact clearEntity_accounted h.accounted

theorem entityTx_new (h : e.cfg.Ok ∧ e = Entity.new e.cfg) : EntityTx e := by
  obtain ⟨hc, he⟩ := h
  rw [he]
  exact ⟨hc, entityNew_txInv hc, fun _ => rfl, rfl, rfl, rfl⟩

/-! ### The representation of the SDUs -/

/-- The SDU has been accepted and not freed. -/
def LiveSdu (heap : Heap) (i : ℕ) : Prop :=
  i < heap.sduTop ∧ (heap.sdu i).freeCount < (heap.sdu i).refCount

/-- **The representation invariant of the transmit lists.** -/
structure Represented (c : Config) (tx : TxState) : Prop where
  disjoint : ∀ i, LiveSdu tx.heap i → (segmentsOf i tx.live).Pairwise
    (fun a b => a.so + a.size ≤ b.so ∨ b.so + b.size ≤ a.so)
  nonempty : ∀ i, LiveSdu tx.heap i → ∀ s ∈ segmentsOf i tx.live, 0 < s.size
  inside : ∀ i, LiveSdu tx.heap i → ∀ s ∈ segmentsOf i tx.live,
    s.so + s.size ≤ (tx.heap.sdu i).size
  isFirst : ∀ i, LiveSdu tx.heap i → ∀ s ∈ segmentsOf i tx.live, s.isFirst = true ↔ s.so = 0
  isLast : ∀ i, LiveSdu tx.heap i → ∀ s ∈ segmentsOf i tx.live,
    s.isLast = true ↔ s.so + s.size = (tx.heap.sdu i).size
  count : ∀ i, LiveSdu tx.heap i →
    (segmentsOf i tx.live).length = (tx.heap.sdu i).refCount - (tx.heap.sdu i).freeCount
  waitSorted : tx.waitList.Pairwise
    (fun a b => key c tx.txNextAck tx.heap a < key c tx.txNextAck tx.heap b)
  retxSorted : tx.retransmitList.Pairwise
    (fun a b => key c tx.txNextAck tx.heap a < key c tx.txNextAck tx.heap b)
  waitEnd : tx.waitEnd = lastAddr tx.waitList
  txEnd : tx.txEnd = lastAddr tx.txList

theorem TxInv.strict {c : Config} {tx : TxState} (h : TxInv c [] tx) {l : List Segment}
    (hl : l.Sublist tx.live) (hsent : ∀ s ∈ l, snOf tx.heap s ≠ -1)
    (hs : SortedBy (key c tx.txNextAck tx.heap) l) :
    l.Pairwise (fun a b => key c tx.txNextAck tx.heap a < key c tx.txNextAck tx.heap b) := by
  refine (hs.and (h.live.apart.sublist hl)).imp_of_mem ?_
  intro a b ha hb hab
  exact lt_of_le_of_ne hab.1 (h.live.key_ne (hl.subset ha) (hl.subset hb) (hsent a ha)
    (hsent b hb) hab.2)

/-- The invariant of an entity that has accepted no empty SDU. -/
structure EntityRep (e : Entity) : Prop extends EntityTx e where
  nonempty : ∀ i < e.tx.heap.sduTop, (e.tx.heap.sdu i).data ≠ []

theorem EntityRep.represented (h : EntityRep e) : Represented e.cfg e.tx := by
  have hseg : ∀ i, ∀ s ∈ segmentsOf i e.tx.live, SegOk e.tx.heap s ∧ s.sdu = i := by
    intro i s hs
    obtain ⟨hm, hsdu⟩ := List.mem_filter.mp hs
    exact ⟨h.inv.live.seg s hm, of_decide_eq_true hsdu⟩
  refine ⟨?_, ?_, ?_, ?_, ?_, ?_, ?_, ?_, h.inv.waitEnd, h.inv.txEnd⟩
  · intro i _
    refine List.Pairwise.imp_of_mem ?_ (h.inv.live.apart.sublist List.filter_sublist)
    intro a b ha hb hab
    have := hab.2 ((hseg i a ha).2.trans (hseg i b hb).2.symm)
    omega
  · intro i hi s hs
    obtain ⟨ho, rfl⟩ := hseg i s hs
    refine Nat.pos_of_ne_zero (fun hz => ?_)
    exact h.nonempty _ hi.1 (List.length_eq_zero_iff.mp (ho.empty hz))
  · intro i _ s hs
    obtain ⟨ho, rfl⟩ := hseg i s hs
    exact ho.inside
  · intro i _ s hs
    rw [(hseg i s hs).1.isFirst, decide_eq_true_iff]
  · intro i _ s hs
    obtain ⟨ho, rfl⟩ := hseg i s hs
    rw [ho.isLast, decide_eq_true_iff]
  · intro i _
    have := h.accounted.counted i
    grind
  · exact h.inv.strict ((List.sublist_append_right _ _).trans (List.sublist_append_left _ _))
      h.inv.waitSent h.inv.waitSorted
  · exact h.inv.strict (List.sublist_append_right _ _) h.inv.retxSent h.inv.retxSorted

theorem step_entityRep (h : EntityRep e)
    (hn : ∀ sduId, i ≠ .recvSdu [] sduId) (hd : ¬ Drops e i) (hr : ¬ Reuses e i)
    (hs : step e i = .ok (e', o)) : EntityRep e' := by
  refine ⟨step_entityTx h.toEntityTx hd hr hs, ?_⟩
  have hfresh := nextSnFresh_of_not_reuses hr
  have hcall := step_txCall h.cfg h.inv hs
  rcases hcall.data h.cfg h.inv hfresh with ⟨buffer, sduId, rfl, he⟩ | hsame
  · rw [he]
    intro j hj
    show (Function.update e.tx.heap.sdu e.tx.heap.sduTop _ j).data ≠ []
    by_cases hje : j = e.tx.heap.sduTop
    · simp_all
    · rw [Function.update_of_ne hje]
      change j < e.tx.heap.sduTop + 1 at hj
      exact h.nonempty j (by omega)
  · intro j hj
    rw [hsame.data]
    exact h.nonempty j (by rw [← hsame.sduTop]; exact hj)

/-- **The transmit lists represent the live SDUs** in every run without a dropped segment and
without an SN that is used twice. -/
theorem reachable_represented {rxMaxsize txMaxsize : ℤ}
    {tPollRetransmit tReassembly tStatusProhibit : UInt64}
    {pollPdu pollByte maxRetxThreshold : ℤ} {snFieldLength : ℕ} {e₀ e : Entity}
    (h₀ : newNrRlcEntityAm rxMaxsize txMaxsize tPollRetransmit tReassembly tStatusProhibit pollPdu
      pollByte maxRetxThreshold snFieldLength = .ok e₀)
    (h : Reachable step (fun e i => (∀ sduId, i ≠ .recvSdu [] sduId) ∧ ¬ Drops e i ∧ ¬ Reuses e i)
      e₀ e) : Represented e.cfg e.tx := by
  refine (Reachable.invariant EntityRep ⟨entityTx_new (newNrRlcEntityAm_eq h₀), ?_⟩
    (fun _ _ _ _ hi hg hs => step_entityRep hi hg.1 hg.2.1 hg.2.2 hs) h).represented
  intro i hi
  rw [(newNrRlcEntityAm_eq h₀).2] at hi
  exact absurd hi (Nat.not_lt_zero i)

theorem nextSnFresh_first (c : Config) (buffer : List UInt8) (sduId : ℤ) :
    NextSnFresh (pushSdu c TxState.new buffer sduId) := by
  intro _ _ _ _ t ht
  obtain rfl := List.mem_singleton.mp ht
  show (-1 : ℤ) ≠ 0
  decide

/-- One SDU in two segments, one of them sent. -/
theorem reachable_represented_split :
    ∃ e₀ e, newNrRlcEntityAm 1000 1000 45 35 0 (-1) (-1) 8 12 = .ok e₀ ∧
      Reachable step (fun e i => (∀ sduId, i ≠ .recvSdu [] sduId) ∧ ¬ Drops e i ∧ ¬ Reuses e i)
        e₀ e ∧ LiveSdu e.tx.heap 0 ∧ (segmentsOf 0 e.tx.live).length = 2 ∧
      Represented e.cfg e.tx := by
  have h₀ := newNrRlcEntityAm_sample
  have h₁ : Reachable step (fun e i =>
      (∀ sduId, i ≠ .recvSdu [] sduId) ∧ ¬ Drops e i ∧ ¬ Reuses e i)
      Entity.sample _ :=
    .step (i := .recvSdu [1, 2, 3, 4] 7) .start
      ⟨by simp, (fun ⟨_, ⟨_, _, h, _⟩, _⟩ => (by cases h)), fun ⟨⟨_, h⟩, _⟩ => (by cases h)⟩ rfl
  have h₂ := Reachable.step (i := Input.generatePdu 4) h₁
    ⟨by simp, (fun ⟨_, ⟨_, _, h, _⟩, _⟩ => (by cases h)), fun h => h.2 (nextSnFresh_first _ _ _)⟩ rfl
  exact ⟨_, _, h₀, h₂, ⟨by decide, by decide⟩, rfl, reachable_represented h₀ h₂⟩

/-- SDUs that are not empty, and control PDUs whose NACKs go strictly up to `ack_sn` at most. -/
def OrderlyInput (c : Config) (tx : TxState) : Input → Prop
  | .recvSdu buffer _ => 1 ≤ buffer.length ∧ buffer.length ≤ nrSduMax
  | .recvPdu buffer => ∃ d s, getBits (Decoder.init buffer) 1 = some (0, d) ∧
      decodeStatus c buffer = some s ∧
      (s.expand c).Pairwise (fun a b => snCompareTx c tx a.sn b.sn < 0) ∧
      ∀ n ∈ s.expand c, snCompareTx c tx n.sn s.ackSn ≤ 0
  | .reestablishment => False
  | _ => True

/-- Two bytes of four are sent; a first STATUS PDU NACKs the SDU, a second one the last two bytes
only. -/
def dropInputs : List Input :=
  [.recvSdu [1, 2, 3, 4] 7, .generatePdu 4, .recvPdu [0x00, 0x00, 0x80, 0x00, 0x00],
    .recvPdu [0x00, 0x00, 0x80, 0x00, 0x04, 0x00, 0x02, 0xff, 0xff]]

theorem dropInputs_orderly (tx : TxState) : ∀ i ∈ dropInputs,
    OrderlyInput Config.sample tx i := by
  have hle : ∀ so soEnd : ℤ, ∀ n ∈ [(⟨0, so, soEnd⟩ : Nack)],
      snCompareTx Config.sample tx n.sn 0 ≤ 0 := by
    intro so soEnd n hn
    obtain rfl := List.mem_singleton.mp hn
    rw [snCompareTx, sub_self]
  intro i hi
  simp only [dropInputs, List.mem_cons, List.not_mem_nil, or_false] at hi
  rcases hi with rfl | rfl | rfl | rfl
  · refine ⟨by decide, ?_⟩
    show 4 ≤ 16000
    omega
  · trivial
  · exact ⟨_, ⟨0, [⟨0, 0, -1, 1⟩]⟩, rfl, by decide +kernel, List.pairwise_singleton _ _, hle 0 (-1)⟩
  · exact ⟨_, ⟨0, [⟨0, 2, -1, 1⟩]⟩, rfl, by decide +kernel, List.pairwise_singleton _ _, hle 2 (-1)⟩

/-- **A STATUS PDU loses a segment.**  The sent half of the SDU is in the retransmit list, is not
hit by the second STATUS PDU and is not below its ACK_SN. -/
theorem not_represented_after_drop :
    ¬ ∀ (rxMaxsize txMaxsize : ℤ) (tPollRetransmit tReassembly tStatusProhibit : UInt64)
      (pollPdu pollByte maxRetxThreshold : ℤ) (snFieldLength : ℕ) (e₀ e : Entity),
      newNrRlcEntityAm rxMaxsize txMaxsize tPollRetransmit tReassembly tStatusProhibit pollPdu
        pollByte maxRetxThreshold snFieldLength = .ok e₀ →
      Reachable step (fun e i => OrderlyInput e₀.cfg e.tx i) e₀ e → Represented e.cfg e.tx := by
  intro h
  obtain ⟨⟨e, os⟩, hrun, hobs⟩ := exists_of_observed
    (f := fun p => (p.1.tx.heap.sduTop, (p.1.tx.heap.sdu 0).refCount,
      (p.1.tx.heap.sdu 0).freeCount, (segmentsOf 0 p.1.tx.live).length))
    (b := (1, 2, 0, 1)) (x := run step Entity.sample dropInputs) (by decide +kernel)
  simp only [Prod.mk.injEq] at hobs
  obtain ⟨htop, href, hfree, hlen⟩ := hobs
  have hrep := h 1000 1000 45 35 0 (-1) (-1) 8 12 _ e rfl
    (Reachable.start.of_run (fun s => dropInputs_orderly s.tx) hrun)
  have hcount := hrep.count 0 ⟨by rw [htop]; decide, by rw [href, hfree]; decide⟩
  omega

/-! ### The sizes -/

/-- **The accounting of an entity.** -/
structure TxSizesOk (e : Entity) : Prop where
  bstatusTx : e.tx.bstatusTxSize = sumOver (pduSize e.cfg) e.tx.txList
  bstatusRetx : e.tx.bstatusRetxSize = sumOver (pduSize e.cfg) e.tx.retransmitList
  txSize : e.tx.txSize = liveBytes e.tx.heap e.tx.live
  txSize_nonneg : 0 ≤ e.tx.txSize
  txSize_le : e.tx.txSize ≤ e.cfg.txMaxsize

theorem freeAcked_txSize_le (st : Walk) (s : Segment) : (freeAcked st s).txSize ≤ st.txSize := by
  grind [freeAcked, nrRlcFreeSduSegment, le_refl]

theorem processStatus_txSize_le {c : Config} {tx : TxState} {s : StatusPdu} (hc : c.Ok)
    (hi : TxInv c [] tx) : (processStatus c tx s).1.txSize ≤ tx.txSize := by
  refine (processLists_rule s.ackSn (fun _ st => st.txSize ≤ tx.txSize) hi (expand_inRange hc s)
    le_rfl ?_ (fun _ _ _ _ _ _ _ h => h) ?_).2
  · intro _ _ _ st st' _ _ _ hle ht
    cases ht with
    | ackWait | ackRetx => exact (freeAcked_txSize_le _ _).trans hle
    | _ => exact hle
  · intro st st' _ _ hle ht
    cases ht with
    | ackWait | ackRetx => exact (freeAcked_txSize_le _ _).trans hle

theorem Sent.txSize {c : Config} {tx tx' : TxState} {s : Segment}
    (h : Sent c tx tx' s size pdu) : tx'.txSize = tx.txSize := by
  obtain ⟨l, _, _, hsame⟩ := h.wait
  exact hsame.txSize

theorem TxCall.txSize_le {tx' : TxState} (h : EntityTx e)
    (hfresh : ∀ size, i = .generatePdu size → NextSnFresh e.tx) (hmax : 0 ≤ e.cfg.txMaxsize)
    (hle : e.tx.txSize ≤ e.cfg.txMaxsize) (hcall : TxCall e i tx') :
    tx'.txSize ≤ e.cfg.txMaxsize := by
  cases hcall with
  | idle => exact hle
  | accept hroom _ => exact hroom
  | send hg =>
    rcases generateTxPdu_cases h.cfg h.inv (hfresh _ rfl) hg with
      ⟨rfl, _⟩ | ⟨s, rest, _, _, hroom, hsent⟩
    · exact hle
    · have hassign : (assignSn e.cfg (popTx e.cfg e.tx s rest) s).txSize = e.tx.txSize := by
        unfold assignSn
        split <;> rfl
      rw [hsent.txSize]
      rcases splitTx_cases (c := e.cfg) (assignSn e.cfg (popTx e.cfg e.tx s rest) s) hroom with
        ⟨_, he⟩ | ⟨_, _, _, _, he⟩ <;> rw [he] <;> exact hassign.le.trans hle
  | resend hg =>
    rcases generateRetxPdu_cases h.inv hg with ⟨rfl, _⟩ | ⟨s, rest, _, hroom, hsent⟩
    · exact hle
    · rw [hsent.txSize]
      rcases splitRetx_cases (c := e.cfg) (popRetx e.cfg e.tx s rest) hroom with
        ⟨_, he⟩ | ⟨_, _, _, _, he⟩ <;> rw [he] <;> exact hle
  | status _ _ => exact (processStatus_txSize_le h.cfg h.inv).trans hle
  | poll hp =>
    rw [(checkTPollRetransmit_moved hp).txSize]
    exact hle
  | @discard sduId =>
    rcases discardSdu_cases h.inv sduId with he | ⟨_, cur, _, _, _, _, he⟩
    · rw [he]
      exact hle
    · grind
  | clear => exact hmax

/-- The invariant of an entity with its bound on `tx_size`. -/
structure EntitySizes (e : Entity) : Prop extends EntityTx e where
  maxsize : 0 ≤ e.cfg.txMaxsize
  txSize_le : e.tx.txSize ≤ e.cfg.txMaxsize

theorem step_entitySizes (h : EntitySizes e)
    (hd : ¬ Drops e i) (hr : ¬ Reuses e i) (hs : step e i = .ok (e', o)) : EntitySizes e' := by
  have hcfg := step_cfg hs
  have hfresh := nextSnFresh_of_not_reuses hr
  refine ⟨step_entityTx h.toEntityTx hd hr hs, by rw [hcfg]; exact h.maxsize, ?_⟩
  rw [hcfg]
  exact (step_txCall h.cfg h.inv hs).txSize_le h.toEntityTx hfresh h.maxsize h.txSize_le

theorem EntitySizes.ok (h : EntitySizes e) : TxSizesOk e := by
  have ht := h.accounted.txSize
  rw [List.nil_append] at ht
  exact ⟨h.accounted.bstatusTx, h.accounted.bstatusRetx, ht,
    by rw [ht]; exact liveBytes_nonneg _ _, h.txSize_le⟩

/-- **The counters are right** in every run without a dropped segment and without an SN that is
used twice. -/
theorem reachable_txSizesOk {rxMaxsize txMaxsize : ℤ}
    {tPollRetransmit tReassembly tStatusProhibit : UInt64}
    {pollPdu pollByte maxRetxThreshold : ℤ} {snFieldLength : ℕ} {e₀ e : Entity}
    (hmax : 0 ≤ txMaxsize)
    (h₀ : newNrRlcEntityAm rxMaxsize txMaxsize tPollRetransmit tReassembly tStatusProhibit pollPdu
      pollByte maxRetxThreshold snFieldLength = .ok e₀)
    (h : Reachable step (fun e i => ¬ Drops e i ∧ ¬ Reuses e i) e₀ e) : TxSizesOk e := by
  refine (Reachable.invariant EntitySizes ⟨entityTx_new (newNrRlcEntityAm_eq h₀), ?_, ?_⟩
    (fun _ _ _ _ hi hg hs => step_entitySizes hi hg.1 hg.2 hs) h).ok
  all_goals
    unfold newNrRlcEntityAm at h₀
    split at h₀
    · obtain rfl := Except.ok.inj h₀
      show (0 : ℤ) ≤ txMaxsize * 5
      omega
    · cases h₀

/-- Half of an SDU is sent; the other half counts with a longer header. -/
theorem reachable_txSizesOk_split :
    ∃ e₀ e, newNrRlcEntityAm 1000 1000 45 35 0 (-1) (-1) 8 12 = .ok e₀ ∧
      Reachable step (fun e i => ¬ Drops e i ∧ ¬ Reuses e i) e₀ e ∧ e.tx.txSize = 4 ∧
      e.tx.bstatusTxSize = 6 ∧ TxSizesOk e := by
  have h₀ := newNrRlcEntityAm_sample
  have h₁ : Reachable step (fun e i => ¬ Drops e i ∧ ¬ Reuses e i)
      Entity.sample _ :=
    .step (i := .recvSdu [1, 2, 3, 4] 7) .start
      ⟨(fun ⟨_, ⟨_, _, h, _⟩, _⟩ => (by cases h)), fun ⟨⟨_, h⟩, _⟩ => (by cases h)⟩ rfl
  have h₂ := Reachable.step (i := Input.generatePdu 4) h₁
    ⟨(fun ⟨_, ⟨_, _, h, _⟩, _⟩ => (by cases h)), fun h => h.2 (nextSnFresh_first _ _ _)⟩ rfl
  exact ⟨_, _, h₀, h₂, rfl, rfl, reachable_txSizesOk (by decide) h₀ h₂⟩

/-- **A lost segment stays counted** in `bstatus.retx_size`. -/
theorem not_txSizesOk_after_drop :
    ¬ ∀ (rxMaxsize txMaxsize : ℤ) (tPollRetransmit tReassembly tStatusProhibit : UInt64)
      (pollPdu pollByte maxRetxThreshold : ℤ) (snFieldLength : ℕ) (e₀ e : Entity), 0 ≤ txMaxsize →
      newNrRlcEntityAm rxMaxsize txMaxsize tPollRetransmit tReassembly tStatusProhibit pollPdu
        pollByte maxRetxThreshold snFieldLength = .ok e₀ →
      Reachable step (fun _ _ => True) e₀ e → TxSizesOk e := by
  intro h
  obtain ⟨⟨e, os⟩, hrun, hobs⟩ := exists_of_observed
    (f := fun p => (p.1.tx.retransmitList, p.1.tx.bstatusRetxSize)) (b := ([], 4))
    (x := run step Entity.sample dropInputs) (by decide +kernel)
  simp only [Prod.mk.injEq] at hobs
  have hok := h 1000 1000 45 35 0 (-1) (-1) 8 12 _ e (by decide) rfl
    (Reachable.start.of_run (fun _ _ _ => trivial) hrun)
  have hsum := hok.bstatusRetx
  grind [sumOver_nil, absurd]

end OaiGnb.Rlc.Am
