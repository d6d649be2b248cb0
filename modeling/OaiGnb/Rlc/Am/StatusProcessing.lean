import OaiGnb.Rlc.Am.TxAccounting

/-!
# STATUS PDUs: rejection and exactness

`process_control_pdu` reads a control PDU twice: the first pass is to reject what is malformed, the
second one acts.  The first pass compares every NACK with the previous one, but never sets
`prev_nack_sn`, so that NACKs out of order reach the second pass, which relies on their order.

* `malformed_rejected`: everything else that is malformed leaves the entity as it was.
* `processControlPdu_exact`: when a well-formed STATUS PDU does to the two lists what it should.
-/

namespace OaiGnb.Rlc.Am

open SerialNumber Run SortedList

/-! ### Malformed STATUS PDUs -/

/-- The order that the first pass means to check: a larger SN, or the same SN and a range behind
the previous one. -/
def Nack.Follows (c : Config) (tx : TxState) (prev n : Nack) : Prop :=
  0 < snCompareTx c tx n.sn prev.sn ∨
    (snCompareTx c tx n.sn prev.sn = 0 ∧ prev.soEnd ≠ -1 ∧ prev.soEnd < n.soStart)

/-- The control PDU is cut off or has a CPT that is not 0, or its ACK_SN, the SN of a NACK or the
order of the NACKs is wrong. -/
def Malformed (e : Entity) (buffer : List UInt8) : Prop :=
  ∀ s, decodeStatus e.cfg buffer = some s →
    0 < snCompareTx e.cfg e.tx s.ackSn e.tx.txNext ∨
    (∃ n ∈ s.expand e.cfg, 0 < snCompareTx e.cfg e.tx n.sn s.ackSn) ∨
    ¬ (s.expand e.cfg).IsChain (Nack.Follows e.cfg e.tx)

/-- Only the order of the NACKs is wrong. -/
def OnlyMisordered (e : Entity) (buffer : List UInt8) : Prop :=
  ∃ s, decodeStatus e.cfg buffer = some s ∧ validStatus e.cfg e.tx s = true ∧
    ¬ (s.expand e.cfg).IsChain (Nack.Follows e.cfg e.tx)

/-- **A malformed control PDU changes nothing**, unless only the order of its NACKs is wrong. -/
theorem malformed_rejected {e : Entity} {buffer : List UInt8} {d : Decoder}
    (hd : getBits (Decoder.init buffer) 1 = some (0, d)) (hm : Malformed e buffer)
    (hord : ¬ OnlyMisordered e buffer) : step e (.recvPdu buffer) = .ok (e, ⟨[], []⟩) := by
  have hrej : processControlPdu e.cfg e.tx buffer = (e.tx, []) := by
    rcases processControlPdu_cases e.cfg e.tx buffer with he | ⟨s, hdec, hv, _⟩
    · exact he
    · have hv' := hv
      rw [validStatus, Bool.and_eq_true, decide_eq_true_iff] at hv'
      rcases hm s hdec with hack | ⟨n, hn, hbad⟩ | hchain
      · omega
      · grind
      · exact absurd ⟨s, hdec, hv, hchain⟩ hord
  show recvPdu e buffer = _
  rw [recvPdu, hd]
  dsimp only
  rw [if_pos rfl, hrej]
  rfl

/-- SDUs 0 and 1 are sent and wait; a STATUS PDU with ACK_SN 1 NACKs SDU 2. -/
theorem malformed_rejected_beyond_ack : ∃ e os,
    run step Entity.sample [.recvSdu [1] 7, .recvSdu [2] 8, .generatePdu 10, .generatePdu 10] =
      .ok (e, os) ∧ e.tx.waitList.length = 2 ∧
    step e (.recvPdu [0x00, 0x01, 0x80, 0x00, 0x20]) = .ok (e, ⟨[], []⟩) := by
  obtain ⟨⟨e, os⟩, hrun, hobs⟩ := exists_of_observed
    (x := run step Entity.sample
      [.recvSdu [1] 7, .recvSdu [2] 8, .generatePdu 10, .generatePdu 10])
    (f := fun p => (p.1.cfg, p.1.tx.txNextAck, p.1.tx.waitList.length))
    (b := (Config.sample, 0, 2)) (by decide +kernel)
  simp only [Prod.mk.injEq] at hobs
  obtain ⟨hcfg, hack, hwait⟩ := hobs
  have hdec : decodeStatus e.cfg [0x00, 0x01, 0x80, 0x00, 0x20] = some ⟨1, [⟨2, 0, -1, 1⟩]⟩ := by
    rw [hcfg]
    decide +kernel
  have hbeyond : 0 < snCompareTx e.cfg e.tx 2 1 := by
    rw [snCompareTx, modulusTx_eq, modulusTx_eq, hack, hcfg]
    decide
  have hmem : (⟨2, 0, -1⟩ : Nack) ∈ (⟨1, [⟨2, 0, -1, 1⟩]⟩ : StatusPdu).expand e.cfg := by
    rw [hcfg]
    decide
  refine ⟨e, os, hrun, hwait, malformed_rejected (d := ⟨0, 1, _⟩) rfl (fun s hs => ?_) ?_⟩
  · obtain rfl := Option.some.inj (hdec.symm.trans hs)
    exact Or.inr (Or.inl ⟨_, hmem, hbeyond⟩)
  · rintro ⟨s, hs, hv, _⟩
    obtain rfl := Option.some.inj (hdec.symm.trans hs)
    exact absurd (validStatus_nacks hv _ hmem) (not_le.mpr hbeyond)

/-- SDUs 0 and 1 are sent; a STATUS PDU with ACK_SN 2 NACKs SDU 1 and then SDU 0, which it frees. -/
theorem not_malformed_rejected_misordered : ¬ ∀ (e : Entity) (buffer : List UInt8) (d : Decoder),
    getBits (Decoder.init buffer) 1 = some (0, d) → Malformed e buffer →
    step e (.recvPdu buffer) = .ok (e, ⟨[], []⟩) := by
  intro hall
  obtain ⟨⟨e, os⟩, hrun, hobs⟩ := exists_of_observed
    (x := run step Entity.sample
      [.recvSdu [1] 7, .recvSdu [2] 8, .generatePdu 10, .generatePdu 10])
    (f := fun p => (p.1.cfg, p.1.tx.txNextAck,
      (step p.1 (.recvPdu [0x00, 0x02, 0x80, 0x00, 0x18, 0x00, 0x00])).toOption.map (·.2)))
    (b := (Config.sample, 0,
      some ⟨[.sduSuccessfulDelivery 0 7], []⟩))
    (by decide +kernel)
  simp only [Prod.mk.injEq] at hobs
  obtain ⟨hcfg, hack, hout⟩ := hobs
  have hdec : decodeStatus e.cfg [0x00, 0x02, 0x80, 0x00, 0x18, 0x00, 0x00] =
      some ⟨2, [⟨1, 0, -1, 1⟩, ⟨0, 0, -1, 1⟩]⟩ := by
    rw [hcfg]
    decide +kernel
  have hbad := hall e [0x00, 0x02, 0x80, 0x00, 0x18, 0x00, 0x00] ⟨0, 1, _⟩ rfl
    (fun s hs => Or.inr (Or.inr ?_))
  · rw [hbad] at hout
    cases hout
  · obtain rfl := Option.some.inj (hdec.symm.trans hs)
    rw [hcfg]
    intro hchain
    change List.IsChain _ [(⟨1, 0, -1⟩ : Nack), ⟨0, 0, -1⟩] at hchain
    have hf : Nack.Follows _ _ _ _ := (List.isChain_cons_cons.mp hchain).1
    rw [Nack.Follows, snCompareTx, modulusTx_eq, modulusTx_eq, hack] at hf
    revert hf
    decide

/-! ### What a NACK hits -/

/-- The NACK comes before the other one in (SN, SO). -/
def Nack.Before (c : Config) (tx : TxState) (n m : Nack) : Prop :=
  snCompareTx c tx n.sn m.sn < 0 ∨ (snCompareTx c tx n.sn m.sn = 0 ∧ n.soStart < m.soStart)

/-- Some NACK of the STATUS PDU overlaps the segment. -/
def isNacked (c : Config) (tx : TxState) (s : StatusPdu) (t : Segment) : Bool :=
  (s.expand c).any (fun n => overlaps tx.heap n t)

/-- The segment stays where it is: not hit and not acknowledged. -/
def isKept (c : Config) (tx : TxState) (s : StatusPdu) (t : Segment) : Bool :=
  !isNacked c tx s t && !belowAck c tx s.ackSn t

/-- The segment is acknowledged. -/
def isAcked (c : Config) (tx : TxState) (s : StatusPdu) (t : Segment) : Bool :=
  !isNacked c tx s t && belowAck c tx s.ackSn t

/-- A delivery is reported, once, for the SDUs of the two lists that have no segment left. -/
def Reports (tx : TxState) (live : List Segment) (events : List Event) : Prop :=
  ∀ i id, events.count (.sduSuccessfulDelivery i id) =
    if (∃ t ∈ tx.waitList ++ tx.retransmitList, t.sdu = i) ∧ i ∉ live.map Segment.sdu ∧
      id = (tx.heap.sdu i).upperLayerId then 1 else 0

/-- **The STATUS PDU is processed exactly.** -/
structure StatusExact (c : Config) (tx : TxState) (s : StatusPdu) (r : TxState × List Event) :
    Prop where
  wait : r.1.waitList = tx.waitList.filter (isKept c tx s)
  retx : r.1.retransmitList.Perm (tx.waitList.filter (isNacked c tx s) ++
    tx.retransmitList.filter (fun t => isNacked c tx s t || isKept c tx s t))
  freed : ∀ i, (r.1.heap.sdu i).freeCount = (tx.heap.sdu i).freeCount +
    (segmentsOf i ((tx.waitList ++ tx.retransmitList).filter (isAcked c tx s))).length
  txList : r.1.txList = tx.txList
  waitSorted : SortedBy (key c r.1.txNextAck r.1.heap) r.1.waitList
  retxSorted : SortedBy (key c r.1.txNextAck r.1.heap) r.1.retransmitList
  delivered : Reports tx r.1.live r.2

section

variable {c : Config} {tx : TxState} {s : StatusPdu} {n : Nack} {t : Segment} {st st' : Walk}

variable {done : List Nack}

theorem isNacked_of_overlaps {rest : List Nack} (he : s.expand c = done ++ n :: rest)
    (h : overlaps tx.heap n t = true) : isNacked c tx s t = true :=
  List.any_eq_true.mpr ⟨n, by rw [he]; simp, h⟩

/-- A NACK behind one that misses the segment does not hit it. -/
theorem not_overlaps_of_before {m : Nack} (hn : InRange c.snModulus n.sn)
    (ht : InRange c.snModulus (snOf tx.heap t)) (hb : n.Before c tx m)
    (hm : misses c tx n t = true) : overlaps tx.heap m t = false := by
  rw [misses, Bool.and_eq_true, Bool.not_eq_true', Bool.not_eq_true'] at hm
  have hnot : ¬ _ := fun h => Bool.eq_false_iff.mp hm.2 (beyond_iff.mpr h)
  rw [Nack.Before, snCompareTx, modulusTx_eq, modulusTx_eq] at hb
  grind [overlaps_false_iff, snOf, hnot, SerialNumber.dist, dist_inj, soOverlap]

theorem not_isNacked {rest : List Nack} (hc : c.Ok) (he : s.expand c = done ++ n :: rest)
    (hinc : (s.expand c).Pairwise (Nack.Before c tx)) (hd : ∀ m ∈ done, defers c tx m t = true)
    (ht : InRange c.snModulus (snOf tx.heap t)) (hm : misses c tx n t = true) :
    isNacked c tx s t = false := by
  rw [isNacked, List.any_eq_false]
  intro m hmem
  rw [Bool.not_eq_true]
  have hn := expand_inRange hc s n (by rw [he]; simp)
  rw [he] at hmem hinc
  rcases List.mem_append.mp hmem with hdone | hrest
  · exact (defers_iff.mp (hd m hdone)).1
  rcases List.mem_cons.mp hrest with rfl | hrest
  · rw [misses, Bool.and_eq_true, Bool.not_eq_true'] at hm
    exact hm.1
  · exact not_overlaps_of_before hn ht
      ((List.pairwise_cons.mp (List.pairwise_append.mp hinc).2.1).1 m hrest) hm

/-! ### The lists during the walk -/

/-- What has been gone through has been put where it belongs. -/
def Sorted (c : Config) (tx : TxState) (s : StatusPdu) (st : Walk) : Prop :=
  ∃ wd rd, tx.waitList = wd ++ st.curWait ∧ tx.retransmitList = rd ++ st.curRetx ∧
    st.kept = wd.filter (isKept c tx s) ∧
    st.newRetx.Perm (wd.filter (isNacked c tx s) ++
      rd.filter (fun t => isNacked c tx s t || isKept c tx s t))

variable {rest : List Segment}

theorem Sorted.wait (h : Sorted c tx s st) (hw : st.curWait = t :: rest)
    (h1 : st'.curWait = rest) (h2 : st'.curRetx = st.curRetx)
    (hk : st'.kept = st.kept ++ [t].filter (isKept c tx s))
    (hn : st'.newRetx = st.newRetx ++ [t].filter (isNacked c tx s)) : Sorted c tx s st' := by
  obtain ⟨wd, rd, hwd, hrd, hkept, hnew⟩ := h
  refine ⟨wd ++ [t], rd, by rw [hwd, hw, h1]; simp, by rw [h2, hrd],
    by rw [hk, hkept, List.filter_append], ?_⟩
  grind

theorem Sorted.retx (h : Sorted c tx s st) (hr : st.curRetx = t :: rest)
    (h1 : st'.curWait = st.curWait) (h2 : st'.curRetx = rest) (hk : st'.kept = st.kept)
    (hn : st'.newRetx = st.newRetx ++
      [t].filter (fun t => isNacked c tx s t || isKept c tx s t)) : Sorted c tx s st' := by
  obtain ⟨wd, rd, hwd, hrd, hkept, hnew⟩ := h
  refine ⟨wd, rd ++ [t], by rw [hwd, h1], by rw [hrd, hr, h2]; simp, by rw [hk, hkept], ?_⟩
  grind

/-! ### The reports -/

variable {live live' : List Segment}

theorem Reports.perm {ev ev' : List Event} (h : Reports tx live ev)
    (hp : live'.Perm live) (hev : ∀ i id, ev'.count (.sduSuccessfulDelivery i id) =
      ev.count (.sduSuccessfulDelivery i id)) : Reports tx live' ev' := by
  intro i id
  rw [hev, h i id]
  simp only [(hp.map Segment.sdu).mem_iff]

theorem freeAcked_events (st : Walk) (t : Segment) : (freeAcked st t).events = st.events ++
    if (nrRlcFreeSduSegment st.heap t).1 then
      [.sduSuccessfulDelivery t.sdu (st.heap.sdu t.sdu).upperLayerId] else [] := by
  rw [freeAcked]
  grind

/-- A freed segment is reported when it is the last one of its SDU. -/
theorem Reports.free (st : Walk) (h : Reports tx live st.events)
    (hcount : Counted st.heap live) (hp : (t :: live').Perm live)
    (hold : t ∈ tx.waitList ++ tx.retransmitList) (hsame : SameSdus tx.heap st.heap) :
    Reports tx live' (freeAcked st t).events := by
  have hfreed := (hcount.perm hp).freed_iff
  intro i id
  have hmem : i ∈ live.map Segment.sdu ↔ i = t.sdu ∨ i ∈ live'.map Segment.sdu := by
    rw [← (hp.map Segment.sdu).mem_iff, List.map_cons, List.mem_cons]
  rw [freeAcked_events, List.count_append, h i id, hsame.upperLayerId]
  by_cases hi : i = t.sdu
  · subst hi
    rw [if_neg (fun hcond => hcond.2.1 (hmem.mpr (Or.inl rfl))), Nat.zero_add]
    by_cases hl : t.sdu ∈ live'.map Segment.sdu
    · simp_all
    · rw [if_pos (hfreed.mpr hl), List.count_singleton]
      by_cases hid : id = (tx.heap.sdu t.sdu).upperLayerId
      · rw [hid, if_pos (beq_self_eq_true _), if_pos ⟨⟨t, hold, rfl⟩, hl, rfl⟩]
      · grind
  · have hzero : ∀ f : Bool, (if f then [Event.sduSuccessfulDelivery t.sdu
        (tx.heap.sdu t.sdu).upperLayerId] else []).count (.sduSuccessfulDelivery i id) = 0 := by
      intro f
      cases f <;> simp [Ne.symm hi]
    rw [hzero]
    simp only [hmem, hi, false_or]
    rfl

/-! ### One turn -/

/-- **The invariant of the exact walk.** -/
structure WalkExact (c : Config) (tx : TxState) (s : StatusPdu) (st : Walk) : Prop where
  sorted : Sorted c tx s st
  accounted : TxAccounted c [] (st.toTx tx)
  refCount : ∀ i, (st.heap.sdu i).refCount = (tx.heap.sdu i).refCount
  reports : Reports tx (st.toTx tx).live st.events

theorem freeAcked_refCount (st : Walk) (t : Segment) (i : ℕ) :
    ((freeAcked st t).heap.sdu i).refCount = (st.heap.sdu i).refCount := by
  rw [(freeAcked_fields st t).2.2.2.2.2.2]
  exact st.heap.modify_field t.sdu i (f := fun d => { d with freeCount := d.freeCount + 1 })
    Sdu.refCount (fun _ => rfl)

theorem live_perm_cons (tx : TxState) (hp : (t :: st'.segs).Perm st.segs) :
    (t :: (st'.toTx tx).live).Perm (st.toTx tx).live := by grind [toTx_live]

theorem live_perm (tx : TxState) (hp : st'.segs.Perm st.segs) :
    (st'.toTx tx).live.Perm (st.toTx tx).live := by grind [toTx_live]

theorem Good.old_wait (hg : Good c tx st) (hw : st.curWait = t :: rest) :
    t ∈ tx.waitList ++ tx.retransmitList :=
  hg.old t (by simp [Walk.segs, hw])

theorem Good.old_retx (hg : Good c tx st) (hr : st.curRetx = t :: rest) :
    t ∈ tx.waitList ++ tx.retransmitList :=
  hg.old t (by simp [Walk.segs, hr])

/-- An acknowledged segment leaves the wait list. -/
theorem WalkExact.ackWait (hg : Good c tx st) (h : WalkExact c tx s st) {rest : List Segment}
    (hw : st.curWait = t :: rest) (hn : isNacked c tx s t = false)
    (hb : belowAck c tx s.ackSn t = true) : WalkExact c tx s (ackWait tx st t rest) := by
  obtain ⟨h1, h2, h3, h4, _⟩ := freeAcked_fields
    { st with curWait := rest, endWait := endWaitWithout tx st t } t
  refine ⟨h.sorted.wait hw h2 h4 ?_ ?_, ackWait_accounted h.accounted hw,
    fun i => (freeAcked_refCount _ t i).trans (h.refCount i), ?_⟩
  · rw [Am.ackWait, h1]
    simp [isKept, hb]
  · rw [Am.ackWait, h3]
    simp [hn]
  · exact Reports.free { st with curWait := rest, endWait := endWaitWithout tx st t } h.reports
      h.accounted.counted (live_perm_cons tx (ackWait_perm hw)) (hg.old_wait hw) hg.same

theorem WalkExact.ackRetx (hg : Good c tx st) (h : WalkExact c tx s st) {rest : List Segment}
    (hr : st.curRetx = t :: rest) (hn : isNacked c tx s t = false)
    (hb : belowAck c tx s.ackSn t = true) : WalkExact c tx s (ackRetx c st t rest) := by
  obtain ⟨h1, h2, h3, h4, _⟩ := freeAcked_fields
    { st with
      curRetx := rest
      bstatusRetxSize := st.bstatusRetxSize - (computePduHeaderSize c t + t.size) } t
  refine ⟨h.sorted.retx hr h2 h4 h1 ?_, ackRetx_accounted h.accounted hr,
    fun i => (freeAcked_refCount _ t i).trans (h.refCount i), ?_⟩
  · rw [Am.ackRetx, h3]
    simp [isKept, hn, hb]
  · exact Reports.free { st with
      curRetx := rest
      bstatusRetxSize := st.bstatusRetxSize - (computePduHeaderSize c t + t.size) } h.reports
      h.accounted.counted (live_perm_cons tx (ackRetx_perm hr)) (hg.old_retx hr) hg.same

theorem WalkExact.keepRetx (h : WalkExact c tx s st)
    (hr : st.curRetx = t :: rest) (hs : (isNacked c tx s t || isKept c tx s t) = true) :
    WalkExact c tx s { st with newRetx := st.newRetx ++ [t], curRetx := rest } := by
  refine ⟨h.sorted.retx hr rfl rfl rfl (by simp [hs]), keepRetx_accounted h.accounted hr,
    h.refCount, h.reports.perm (live_perm tx ?_) (fun _ _ => rfl)⟩
  rw [Walk.segs, Walk.segs, hr, List.append_assoc st.newRetx, List.singleton_append]

/-- **A turn of the walk** puts the segment where all the NACKs together want it. -/
theorem NackTurn.exact {rest : List Nack} (hc : c.Ok) (he : s.expand c = done ++ n :: rest)
    (hv : validStatus c tx s = true) (hinc : (s.expand c).Pairwise (Nack.Before c tx))
    (hg : Good c tx st) (hp : Passed c tx done st) (h : WalkExact c tx s st)
    (ht : NackTurn c tx s.ackSn n st st')
    (hkeep : ∀ r rs, st.curRetx = r :: rs → misses c tx n r = true →
      belowAck c tx s.ackSn r = false → st.curWait ≠ []) : WalkExact c tx s st' := by
  have hnot : ∀ t ∈ st.curWait ++ st.curRetx, misses c tx n t = true → isNacked c tx s t = false :=
    fun t hmem hm => not_isNacked hc he hinc (fun m hmd => hp m hmd t hmem) (hg.mem_inRange hmem) hm
  cases ht with
  | nackWait hw hf hov =>
    have hn := isNacked_of_overlaps he hov
    refine ⟨h.sorted.wait hw rfl rfl (by simp [isKept, hn]; rfl) (by simp [hn]; rfl),
      nackWait_accounted h.accounted hw, ?_, h.reports.perm (live_perm tx (nackWait_perm hw)) ?_⟩
    · intro i
      exact (st.heap.modify_field _ i (f := fun d => { d with retxCount := d.retxCount + 1 })
        Sdu.refCount (fun _ => rfl)).trans (h.refCount i)
    · intro i id
      show (st.events ++ if _ then [_] else []).count _ = _
      rw [List.count_append]
      split <;> simp
  | ackWait hw _ hm hb => exact h.ackWait hg hw (hnot _ (by simp [hw]) hm) hb
  | keepWait hw _ hm hb =>
    have hn := hnot _ (by simp [hw]) hm
    refine ⟨h.sorted.wait hw rfl rfl (by simp [isKept, hn, hb]) (by simp [hn]),
      keepWait_accounted h.accounted hw, h.refCount, h.reports.perm (live_perm tx ?_)
      (fun _ _ => rfl)⟩
    rw [Walk.segs, Walk.segs, hw, List.append_assoc st.kept, List.singleton_append]
  | keepWaitRest _ hm hgt =>
    exact absurd hgt (not_lt.mpr (snCompareTx_of_misses
      (validStatus_nacks hv n (by rw [he]; simp)) hm))
  | nackRetx hr _ hov => exact h.keepRetx hr (by rw [isNacked_of_overlaps he hov]; rfl)
  | ackRetx hr _ hm hb => exact h.ackRetx hg hr (hnot _ (by simp [hr]) hm) hb
  | keepRetx hr _ hm hb _ =>
    exact h.keepRetx hr (by simp [isKept, hnot _ (by simp [hr]) hm, hb])
  | dropRetx hr hm hb hnil => exact absurd hnil (hkeep _ _ hr hm hb)

theorem not_isNacked_of_passed (hp : Passed c tx (s.expand c) st)
    (ht : t ∈ st.curWait ++ st.curRetx) : isNacked c tx s t = false := by
  rw [isNacked, List.any_eq_false]
  intro m hm
  rw [(defers_iff.mp (hp m hm t ht)).1]
  exact Bool.false_ne_true

theorem FinishTurn.exact (hg : Good c tx st) (hp : Passed c tx (s.expand c) st)
    (h : WalkExact c tx s st) (ht : FinishTurn c tx s.ackSn st st') : WalkExact c tx s st' := by
  cases ht with
  | ackWait hw hb => exact h.ackWait hg hw (not_isNacked_of_passed hp (by simp [hw])) hb
  | ackRetx hr hb => exact h.ackRetx hg hr (not_isNacked_of_passed hp (by simp [hr])) hb

/-! ### The end of the walk -/

theorem finishWait_head (c : Config) (tx : TxState) (ackSn : ℤ) (l : List Segment) :
    ∀ st : Walk, st.curWait = l → ∀ w ∈ (finishWait c tx ackSn l st).curWait.head?,
      ¬ snCompareTx c tx (snOf (finishWait c tx ackSn l st).heap w) ackSn < 0 := by
  induction l with
  | nil => grind [finishWait]
  | cons a rest ih =>
    intro st hw
    rw [finishWait]
    split
    · exact ih _ (freeAcked_fields _ _).2.1
    · simp_all

theorem finishRetx_head (c : Config) (tx : TxState) (ackSn : ℤ) (l : List Segment) (st : Walk)
    (hr : st.curRetx = l) :
    (∀ r ∈ (finishRetx c tx ackSn l st).curRetx.head?,
        ¬ snCompareTx c tx (snOf (finishRetx c tx ackSn l st).heap r) ackSn < 0) ∧
      (finishRetx c tx ackSn l st).curWait = st.curWait ∧
      SameSdus st.heap (finishRetx c tx ackSn l st).heap := by
  induction l generalizing st with
  | nil =>
    refine ⟨fun r hmem => ?_, rfl, SameSdus.refl _⟩
    rw [finishRetx, hr] at hmem
    cases hmem
  | cons a rest ih =>
    rw [finishRetx]
    split
    · grind [freeAcked_fields, computePduHeaderSize, Am.ackRetx, SameSdus.trans, sameSdus_free]
    next hge =>
      refine ⟨fun r hmem => ?_, rfl, SameSdus.refl _⟩
      simp_all

/-- What the walk leaves is not below `ack_sn`. -/
theorem processLists_left (hc : c.Ok) (hi : TxInv c [] tx) :
    ∀ t ∈ (processLists c tx s.ackSn (s.expand c)).curWait ++
      (processLists c tx s.ackSn (s.expand c)).curRetx, belowAck c tx s.ackSn t = false := by
  have hg := processLists_good s.ackSn hi (expand_inRange hc s)
  have hiff : ∀ t, belowAck c tx s.ackSn t = false ↔
      modulusTx c tx s.ackSn ≤ modulusTx c tx (snOf tx.heap t) := by
    intro t
    rw [belowAck, decide_eq_false_iff_not, snCompareTx]
    omega
  have hnacks := finishWait_head c tx s.ackSn _
    ((s.expand c).foldl (processNack c tx s.ackSn) (Walk.start tx)) rfl
  obtain ⟨hretx, hwait, hsame⟩ := finishRetx_head c tx s.ackSn _ (finishWait c tx
    s.ackSn _ ((s.expand c).foldl (processNack c tx s.ackSn) (Walk.start tx))) rfl
  change (processLists c tx s.ackSn (s.expand c)).curWait = _ at hwait
  change SameSdus _ (processLists c tx s.ackSn (s.expand c)).heap at hsame
  intro t ht
  rw [hiff]
  rcases List.mem_append.mp ht with ht | ht
  · refine modulusTx_head_le (sortedBy_append.mp hg.waitSorted).2.1 (fun w hw => ?_) t ht
    rw [hwait] at hw
    have := hnacks w hw
    rw [← hsame.snOf, hg.same.snOf, snCompareTx] at this
    omega
  · refine modulusTx_head_le (sortedBy_append.mp hg.retxSorted).2.1 (fun r hr => ?_) t ht
    have := hretx r hr
    change ¬ snCompareTx c tx (snOf (processLists c tx s.ackSn (s.expand c)).heap r) _ < 0 at this
    rw [hg.same.snOf, snCompareTx] at this
    omega

theorem WalkExact.start (h : TxAccounted c [] tx) : WalkExact c tx s (Walk.start tx) := by
  refine ⟨⟨[], [], rfl, rfl, rfl, List.Perm.refl _⟩, accounted_start h, fun _ => rfl, ?_⟩
  intro i id
  rw [if_neg]
  · rfl
  rintro ⟨⟨t, ht, rfl⟩, hnot, _⟩
  exact hnot (List.mem_map_of_mem (mem_live.mpr (Or.inr (List.mem_append.mp ht))))

/-- A segment is kept, NACKed or acknowledged. -/
theorem segmentsOf_split (c : Config) (tx : TxState) (s : StatusPdu) (i : ℕ) (l : List Segment) :
    (segmentsOf i l).length = (segmentsOf i (l.filter fun t => isNacked c tx s t ||
      isKept c tx s t)).length + (segmentsOf i (l.filter (isAcked c tx s))).length ∧
    (segmentsOf i (l.filter fun t => isNacked c tx s t || isKept c tx s t)).length =
      (segmentsOf i (l.filter (isNacked c tx s))).length +
      (segmentsOf i (l.filter (isKept c tx s))).length := by
  induction l with
  | nil => exact ⟨rfl, rfl⟩
  | cons t l ih =>
    have hk : isKept c tx s t = (!isNacked c tx s t && !belowAck c tx s.ackSn t) := rfl
    have ha : isAcked c tx s t = (!isNacked c tx s t && belowAck c tx s.ackSn t) := rfl
    simp only [List.filter_cons, hk, ha]
    cases isNacked c tx s t <;> cases belowAck c tx s.ackSn t <;>
      simp only [Bool.not_true, Bool.not_false, Bool.and_true, Bool.and_false, Bool.or_true,
        Bool.or_false, Bool.false_eq_true, if_true, if_false, segmentsOf_length_cons] <;> omega

theorem segmentsOf_append (i : ℕ) (l l' : List Segment) :
    (segmentsOf i (l ++ l')).length = (segmentsOf i l).length + (segmentsOf i l').length := by
  rw [segmentsOf, List.filter_append, List.length_append]
  rfl

theorem processStatus_exact (hc : c.Ok) (hi : TxInv c [] tx) (ha : TxAccounted c [] tx)
    (hackSn : InRange c.snModulus s.ackSn) (hv : validStatus c tx s = true)
    (hinc : (s.expand c).Pairwise (Nack.Before c tx)) (hno : ¬ DropsRetx c tx s) :
    StatusExact c tx s (processStatus c tx s) := by
  have hinv := processStatus_inv hc hi hackSn
  have hacc := processStatus_accounted hc hi hv hno ha
  obtain ⟨_, hpass, hex⟩ := processStatus_rule hc hi hv hno (WalkExact c tx s) (.start ha)
    (fun _ _ _ _ _ he hg hp h ht hkeep => ht.exact hc he hv hinc hg hp h hkeep)
    (fun _ _ hg hp h ht => ht.exact hg hp h)
  set st := processLists c tx s.ackSn (s.expand c) with hst
  -- what is left at the end is kept
  have hleft : ∀ t ∈ st.curWait ++ st.curRetx, isNacked c tx s t = false ∧
      isKept c tx s t = true := by
    intro t ht
    have hnack := not_isNacked_of_passed hpass ht
    exact ⟨hnack, by rw [isKept, hnack, processLists_left hc hi t ht]; rfl⟩
  obtain ⟨wd, rd, hwd, hrd, hkept, hnew⟩ := hex.sorted
  have hwait : (processStatus c tx s).1.waitList = tx.waitList.filter (isKept c tx s) := by
    show st.kept ++ st.curWait = _
    rw [hkept, hwd, List.filter_append, List.append_cancel_left_eq, eq_comm, List.filter_eq_self]
    exact fun t ht => (hleft t (List.mem_append_left _ ht)).2
  have hretx : (processStatus c tx s).1.retransmitList.Perm (tx.waitList.filter (isNacked c tx s) ++
      tx.retransmitList.filter (fun t => isNacked c tx s t || isKept c tx s t)) := by
    have hw : st.curWait.filter (isNacked c tx s) = [] :=
      List.filter_eq_nil_iff.mpr fun t ht =>
        Bool.eq_false_iff.mp (hleft t (List.mem_append_left _ ht)).1
    have hr : st.curRetx.filter (fun t => isNacked c tx s t || isKept c tx s t) = st.curRetx :=
      List.filter_eq_self.mpr fun t ht => by simp_all
    show (st.newRetx ++ st.curRetx).Perm _
    rw [hwd, hrd, List.filter_append, hw, List.append_nil, List.filter_append, hr,
      ← List.append_assoc]
    exact hnew.append_right _
  refine ⟨hwait, hretx, ?_, rfl, hinv.waitSorted, hinv.retxSorted, hex.reports⟩
  intro i
  have hafter := hacc.counted i
  have hbefore := ha.counted i
  have href : ((processStatus c tx s).1.heap.sdu i).refCount = (tx.heap.sdu i).refCount :=
    hex.refCount i
  have hperm : (segmentsOf i (processStatus c tx s).1.retransmitList).length =
      (segmentsOf i (tx.waitList.filter (isNacked c tx s) ++
        tx.retransmitList.filter (fun t => isNacked c tx s t || isKept c tx s t))).length :=
    (hretx.filter _).length_eq
  have hw := segmentsOf_split c tx s i tx.waitList
  have hr := segmentsOf_split c tx s i tx.retransmitList
  rw [List.nil_append, TxState.live, segmentsOf_append, segmentsOf_append] at hafter hbefore
  rw [hperm, hwait, segmentsOf_append, href, ← hbefore] at hafter
  change _ + ((segmentsOf i tx.txList).length + _ + _) = _ at hafter
  rw [List.filter_append, segmentsOf_append]
  omega

/-! ### A part of the retransmit list is dropped -/

theorem exists_misses {nacks : List Nack} {r : Segment} (h : missedBy c tx nacks r = true) :
    ∃ done n rest, nacks = done ++ n :: rest ∧ (∀ m ∈ done, defers c tx m r = true) ∧
      misses c tx n r = true := by
  induction nacks with
  | nil => cases h
  | cons n nacks ih =>
    rw [missedBy, Bool.or_eq_true, Bool.and_eq_true] at h
    rcases h with hm | ⟨hd, h⟩
    · exact ⟨[], n, nacks, rfl, fun m hm => absurd hm List.not_mem_nil, hm⟩
    · obtain ⟨done, m, rest, rfl, hdone, hm⟩ := ih h
      exact ⟨n :: done, m, rest, rfl, List.forall_mem_cons.mpr ⟨hd, hdone⟩, hm⟩

/-- No segment of the wait list stands at the place of one of the retransmit list. -/
theorem key_wait_ne_retx (hi : TxInv c [] tx) {w r : Segment} (hw : w ∈ tx.waitList)
    (hr : r ∈ tx.retransmitList) :
    key c tx.txNextAck tx.heap w ≠ key c tx.txNextAck tx.heap r := by
  intro heq
  have hkey := Prod.ext_iff.mp (congrArg ofLex heq)
  have hsn : snOf tx.heap w = snOf tx.heap r :=
    dist_inj (hi.wait_inRange hw) (hi.retx_inRange hr) hkey.1
  have hsdu := hi.live.unique w (hi.mem_wait hw) r (hi.mem_retx hr) hsn (hi.waitSent w hw)
  have hpair := hi.live.apart
  rw [List.nil_append, TxState.live, List.append_assoc] at hpair
  have hapart := ((List.pairwise_append.mp (List.pairwise_append.mp hpair).2.1).2.2 w hw r hr).2
    hsdu
  have hso : (w.so : ℤ) = r.so := hkey.2
  omega

/-- What the walk does with a segment of the retransmit list that is dropped: it does not come to
the new list. -/
theorem NackTurn.loses {rest : List Nack} {r : Segment} (hi : TxInv c [] tx)
    (hr : r ∈ tx.retransmitList) (hnot : isNacked c tx s r = false)
    (hlast : ∀ w ∈ tx.waitList, key c tx.txNextAck tx.heap w ≤ key c tx.txNextAck tx.heap r)
    (he : s.expand c = done ++ n :: rest)
    (h : (∀ w ∈ st.curWait, w ∈ tx.waitList) ∧ r ∉ st.newRetx)
    (ht : NackTurn c tx s.ackSn n st st') :
    (∀ w ∈ st'.curWait, w ∈ tx.waitList) ∧ r ∉ st'.newRetx := by
  have hhit : ∀ t, overlaps tx.heap n t = true → r ≠ t := by
    rintro t hov rfl
    exact absurd (isNacked_of_overlaps he hov) (Bool.eq_false_iff.mp hnot)
  have hrest : ∀ {w : Segment} {rest : List Segment}, st.curWait = w :: rest →
      ∀ v ∈ rest, v ∈ tx.waitList :=
    fun hw v hv => h.1 v (by rw [hw]; exact List.mem_cons_of_mem _ hv)
  cases ht with
  | nackWait hw _ hov =>
    refine ⟨hrest hw, fun hmem => ?_⟩
    rcases List.mem_append.mp hmem with hmem | hmem
    · exact h.2 hmem
    · exact hhit _ hov (List.mem_singleton.mp hmem)
  | ackWait hw =>
    obtain ⟨_, h2, h3, _⟩ := freeAcked_fields _ _
    exact ⟨by rw [Am.ackWait, h2]; exact hrest hw, by rw [Am.ackWait, h3]; exact h.2⟩
  | keepWait hw => exact ⟨hrest hw, h.2⟩
  | keepWaitRest => exact ⟨fun v hv => absurd hv List.not_mem_nil, h.2⟩
  | nackRetx _ _ hov =>
    refine ⟨h.1, fun hmem => ?_⟩
    rcases List.mem_append.mp hmem with hmem | hmem
    · exact h.2 hmem
    · exact hhit _ hov (List.mem_singleton.mp hmem)
  | ackRetx =>
    obtain ⟨_, h2, h3, _⟩ := freeAcked_fields _ _
    exact ⟨by rw [Am.ackRetx, h2]; exact h.1, by rw [Am.ackRetx, h3]; exact h.2⟩
  | keepRetx _ hfirst _ _ hne =>
    refine ⟨h.1, fun hmem => ?_⟩
    rcases List.mem_append.mp hmem with hmem | hmem
    · exact h.2 hmem
    · -- the segment is taken before one of the wait list, but none comes after it
      obtain rfl := List.mem_singleton.mp hmem
      obtain ⟨w, ws, hw⟩ := List.exists_cons_of_ne_nil hne
      have hmemw := h.1 w (by rw [hw]; exact List.mem_cons_self)
      exact key_wait_ne_retx hi hmemw hr
        (le_antisymm (hlast w hmemw) (hfirst w (by rw [hw]; rfl)))
  | dropRetx => exact h

theorem not_exact_of_drops (hc : c.Ok) (hi : TxInv c [] tx)
    (hinc : (s.expand c).Pairwise (Nack.Before c tx)) (hdrop : DropsRetx c tx s) :
    ¬ StatusExact c tx s (processStatus c tx s) := by
  obtain ⟨r, hr, hge, hmissed, hlast⟩ := hdrop
  obtain ⟨done, n, rest, he, hdone, hm⟩ := exists_misses hmissed
  have hnot := not_isNacked hc he hinc hdone (hi.retx_inRange hr) hm
  have hkept : isKept c tx s r = true := by
    rw [isKept, hnot, hge]
    rfl
  obtain ⟨-, hpass, -, hlost⟩ := processLists_rule s.ackSn
    (fun done st => Passed c tx done st ∧ (∀ w ∈ st.curWait, w ∈ tx.waitList) ∧ r ∉ st.newRetx) hi
    (expand_inRange hc s)
    ⟨fun _ hn => (List.not_mem_nil hn).elim, fun _ hw => hw, List.not_mem_nil⟩
    (fun _ _ _ _ _ he _ hp hj ht => ⟨hp.turn ht, ht.loses hi hr hnot hlast he hj.2⟩)
    (fun _ _ _ _ _ _ hp hj => ⟨hp, hj.2⟩)
    (by
      intro st st' _ hp hj ht
      refine ⟨fun m hm t hs => hp m hm t (finishTurn_subset ht t hs), ?_⟩
      cases ht with
      | ackWait hw =>
        obtain ⟨_, h2, h3, _⟩ := freeAcked_fields _ _
        refine ⟨?_, by rw [Am.ackWait, h3]; exact hj.2.2⟩
        rw [Am.ackWait, h2]
        exact fun v hv => hj.2.1 v (by rw [hw]; exact List.mem_cons_of_mem _ hv)
      | ackRetx =>
        obtain ⟨_, h2, h3, _⟩ := freeAcked_fields _ _
        exact ⟨by rw [Am.ackRetx, h2]; exact hj.2.1, by rw [Am.ackRetx, h3]; exact hj.2.2⟩)
  intro hex
  have hmem : r ∈ (processStatus c tx s).1.retransmitList := by
    refine hex.retx.mem_iff.mpr (List.mem_append_right _ (List.mem_filter.mpr ⟨hr, ?_⟩))
    rw [hkept, Bool.or_true]
  rcases List.mem_append.mp hmem with hmem | hmem
  · exact hlost hmem
  · have hdefers := hpass n (by rw [he]; simp) r (List.mem_append_right _ hmem)
    rw [defers_iff] at hdefers
    rw [misses, hdefers.2] at hm
    simp at hm

/-- **When a well-formed STATUS PDU is processed exactly**: unless it drops a part of the retransmit
list, and only then. -/
theorem processControlPdu_exact {buffer : List UInt8} (hc : c.Ok) (hi : TxInv c [] tx)
    (ha : TxAccounted c [] tx) (hdec : decodeStatus c buffer = some s)
    (hack : snCompareTx c tx s.ackSn tx.txNext ≤ 0)
    (hn : ∀ n ∈ s.expand c, snCompareTx c tx n.sn s.ackSn ≤ 0)
    (hinc : (s.expand c).Pairwise (Nack.Before c tx)) :
    StatusExact c tx s (processControlPdu c tx buffer) ↔ ¬ DropsRetx c tx s := by
  have hv : validStatus c tx s = true := by
    rw [validStatus, Bool.and_eq_true, List.all_eq_true]
    exact ⟨decide_eq_true hack, fun n hm => decide_eq_true (hn n hm)⟩
  have hp : processControlPdu c tx buffer = processStatus c tx s := by
    rw [processControlPdu, hdec]
    exact if_pos hv
  rw [hp]
  exact ⟨fun hex hdrop => not_exact_of_drops hc hi hinc hdrop hex,
    processStatus_exact hc hi ha (decodeStatus_ackSn hc hdec) hv hinc⟩

end

/-! ### Samples -/

/-- What the samples look at. -/
def sampled (tx : TxState) : List ℤ :=
  [tx.retransmitList.length, (processControlPdu Config.sample tx
    [0x00, 0x00, 0x80, 0x00, 0x04, 0x00, 0x02, 0xff, 0xff]).1.retransmitList.length, tx.txNextAck,
    tx.txNext]

/-- One SDU of four bytes, two of them sent and, in the second state, NACKed. -/
theorem exists_sentHalf : ∃ e e', EntityTx e ∧ EntityTx e' ∧ e.cfg = Config.sample ∧
    e'.cfg = Config.sample ∧ e.tx.retransmitList = [] ∧ sampled e.tx = [0, 0, 0, 1] ∧
    sampled e'.tx = [1, 0, 0, 1] := by
  have h₀ := newNrRlcEntityAm_sample
  have h₁ := step_entityTx (i := .recvSdu [1, 2, 3, 4] 7) (entityTx_new (newNrRlcEntityAm_eq h₀))
    (fun ⟨_, ⟨_, _, h, _⟩, _⟩ => (by cases h)) (fun ⟨⟨_, h⟩, _⟩ => (by cases h)) rfl
  obtain ⟨⟨e, o⟩, hs, hobs⟩ := exists_of_observed
    (x := step { Entity.sample with
      tx := pushSdu Config.sample TxState.new [1, 2, 3, 4] 7 } (.generatePdu 4))
    (f := fun p => (p.1.cfg, sampled p.1.tx,
      (step p.1 (.recvPdu [0x00, 0x00, 0x80, 0x00, 0x00])).toOption.map
        (fun q => sampled q.1.tx)))
    (b := (Config.sample, [0, 0, 0, 1], some [1, 0, 0, 1])) (by decide +kernel)
  simp only [Prod.mk.injEq] at hobs
  obtain ⟨hcfg, hsam, hnext⟩ := hobs
  obtain ⟨⟨e', o'⟩, hs', hobs'⟩ := exists_of_observed hnext
  have hnil : e.tx.retransmitList = [] := List.length_eq_zero_iff.mp
    (Int.ofNat_eq_zero.mp (List.cons.inj hsam).1)
  have h₂ := step_entityTx h₁ (fun ⟨_, ⟨_, _, h, _⟩, _⟩ => (by cases h))
    (fun h => h.2 (nextSnFresh_first _ _ _)) hs
  have h₃ := step_entityTx h₂ (fun ⟨_, _, _, hr, _⟩ => by rw [hnil] at hr; cases hr)
    (fun ⟨⟨_, h⟩, _⟩ => (by cases h)) hs'
  grind [step_cfg]

theorem snCompareTx_zero {tx : TxState} {n m : ℤ}
    (h : sampled tx = [n, m, 0, 1]) : snCompareTx Config.sample tx (0 : ℕ) tx.txNext ≤ 0 := by
  simp only [sampled, List.cons.injEq] at h
  rw [snCompareTx, modulusTx_eq, modulusTx_eq, h.2.2.1, h.2.2.2.1]
  decide

/-- A NACK of what has been sent. -/
theorem processControlPdu_exact_nack : ∃ tx, TxInv Config.sample [] tx ∧
    TxAccounted Config.sample [] tx ∧ StatusExact Config.sample tx ⟨0, [⟨0, 0, -1, 1⟩]⟩
      (processControlPdu Config.sample tx [0x00, 0x00, 0x80, 0x00, 0x00]) := by
  obtain ⟨e, _, h, _, hcfg, _, hretx, hsam, _⟩ := exists_sentHalf
  have hinv := h.inv
  have hacc := h.accounted
  rw [hcfg] at hinv hacc
  have hdec : decodeStatus Config.sample [0x00, 0x00, 0x80, 0x00, 0x00] =
      some ⟨0, [⟨0, 0, -1, 1⟩]⟩ := by decide +kernel
  have hiff := processControlPdu_exact ⟨Or.inl rfl, rfl, rfl⟩ hinv hacc hdec
    (snCompareTx_zero hsam) ?_ (List.pairwise_singleton _ _)
  refine ⟨e.tx, hinv, hacc, hiff.mpr ?_⟩
  · rintro ⟨r, hr, _⟩
    rw [hretx] at hr
    cases hr
  · intro n hn
    obtain rfl : n = ⟨0, 0, -1⟩ := List.mem_singleton.mp hn
    exact (sub_self _).le

/-- **A STATUS PDU loses a segment** that it does not hit. -/
theorem not_processControlPdu_exact_dropped : ¬ ∀ (c : Config) (tx : TxState)
    (buffer : List UInt8) (s : StatusPdu), c.Ok → TxInv c [] tx → TxAccounted c [] tx →
    decodeStatus c buffer = some s → snCompareTx c tx s.ackSn tx.txNext ≤ 0 →
    (∀ n ∈ s.expand c, snCompareTx c tx n.sn s.ackSn ≤ 0) →
    (s.expand c).Pairwise (Nack.Before c tx) →
    StatusExact c tx s (processControlPdu c tx buffer) := by
  intro hall
  obtain ⟨_, e, _, h, _, hcfg, _, _, hsam⟩ := exists_sentHalf
  have hinv := h.inv
  have hacc := h.accounted
  rw [hcfg] at hinv hacc
  have hex := hall Config.sample e.tx [0x00, 0x00, 0x80, 0x00, 0x04, 0x00, 0x02, 0xff, 0xff]
    ⟨0, [⟨0, 2, -1, 1⟩]⟩ ⟨Or.inl rfl, rfl, rfl⟩ hinv hacc (by decide +kernel)
    (snCompareTx_zero hsam) ?_ (List.pairwise_singleton _ _)
  · simp only [sampled, List.cons.injEq] at hsam
    obtain ⟨hlen, hnil, hbase, _⟩ := hsam
    have hall : e.tx.retransmitList.filter (fun t => isNacked Config.sample e.tx
        ⟨0, [⟨0, 2, -1, 1⟩]⟩ t || isKept Config.sample e.tx ⟨0, [⟨0, 2, -1, 1⟩]⟩ t) =
        e.tx.retransmitList := by
      refine List.filter_eq_self.mpr fun r hr => ?_
      have hge : belowAck Config.sample e.tx (0 : ℕ) r = false := by
        have hd := (dist_nonneg (hinv.retx_inRange hr) hinv.txNextAck)
        rw [belowAck, decide_eq_false_iff_not, snCompareTx, modulusTx_eq, modulusTx_eq, hbase,
          Nat.cast_zero, dist_self]
        rw [hbase] at hd
        omega
      rw [isKept, hge]
      cases isNacked Config.sample e.tx ⟨0, [⟨0, 2, -1, 1⟩]⟩ r <;> rfl
    have hret := hex.retx.length_eq
    grind
  · intro n hn
    obtain rfl : n = ⟨0, 2, -1⟩ := List.mem_singleton.mp hn
    exact (sub_self _).le

end OaiGnb.Rlc.Am
