import OaiGnb.Rlc.Am.Walk

/-!
# The transmit window

Every SDU that has an SN and is not fully acknowledged has an SN between `tx_next_ack` and
`tx_next`, and the two are at most a window apart.  A STATUS PDU moves `tx_next_ack` up to the
smallest SN left in the wait list and the retransmit list; it does not look at the TX list, whose
head may be the rest of an SDU that has been sent in part.

* `processStatus_window`: a STATUS PDU keeps the window unless it strands that SDU.
* `reachable_windowOk`: so does every run without such a STATUS PDU.
-/

namespace OaiGnb.Rlc.Am

open SerialNumber Run

/-! ### Segments that are NACKed -/

/-- The NACK that decides about the segment hits it. -/
def nackedBy (c : Config) (tx : TxState) : List Nack → Segment → Bool
  | [], _ => false
  | n :: ns, s => overlaps tx.heap n s || (beyond c tx tx.heap n s && nackedBy c tx ns s)

variable {t : Segment} {size : ℕ} {pdu : List UInt8} {e : Entity}

variable {s : Segment}

section

variable {c : Config} {tx : TxState} {ackSn : ℤ} {n : Nack} {st st' : Walk}

variable {ns : List Nack}

theorem nackedBy_of_defers (h : defers c tx n s = true) :
    nackedBy c tx (n :: ns) s = nackedBy c tx ns s := by
  obtain ⟨h1, h2⟩ := defers_iff.mp h
  rw [nackedBy, h1, h2]
  rfl

theorem nackedBy_of_misses (h : misses c tx n s = true) :
    nackedBy c tx (n :: ns) s = false := by
  rw [misses, Bool.and_eq_true, Bool.not_eq_true', Bool.not_eq_true'] at h
  rw [nackedBy, h.1, h.2]
  rfl

theorem nackTurn_newRetx (h : NackTurn c tx ackSn n st st') :
    ∀ s ∈ st.newRetx, s ∈ st'.newRetx := by
  intro s hs
  cases h with
  | nackWait | nackRetx | keepRetx => exact List.mem_append_left _ hs
  | ackWait | ackRetx =>
    grind [ackWait, ackRetx, freeAcked_fields]
  | keepWait | keepWaitRest | dropRetx => exact hs

theorem finishTurn_newRetx (h : FinishTurn c tx ackSn st st') : st'.newRetx = st.newRetx := by
  cases h with
  | ackWait | ackRetx => exact (freeAcked_fields _ _).2.2.1

theorem nackTurn_decides (hb : ∀ s ∈ st.curWait ++ st.curRetx, belowAck c tx ackSn s = true)
    (h : NackTurn c tx ackSn n st st') (hs : s ∈ st.curWait ++ st.curRetx) :
    s ∈ st'.curWait ++ st'.curRetx ∨ s ∈ st'.newRetx ∨ misses c tx n s = true := by
  -- a segment that is kept where it is would have to be at `ack_sn` or above
  have hkeep : ∀ x ∈ st.curWait ++ st.curRetx, belowAck c tx ackSn x ≠ false := by
    intro x hx
    rw [hb x hx]
    decide
  rw [List.mem_append] at hs ⊢
  cases h with
  | @nackWait w rest hw _ _ =>
    rw [hw, List.mem_cons] at hs
    rcases hs with (rfl | hs) | hs
    · exact Or.inr (Or.inl (List.mem_append_right _ (List.mem_singleton.mpr rfl)))
    · exact Or.inl (Or.inl hs)
    · exact Or.inl (Or.inr hs)
  | @ackWait w rest hw _ hm _ =>
    obtain ⟨_, h2, _, h4, _⟩ := freeAcked_fields
      { st with curWait := rest, endWait := endWaitWithout tx st w } w
    rw [ackWait, h2, h4]
    grind
  | keepWait hw _ _ hge => exact absurd hge (hkeep _ (by rw [hw]; simp))
  | @keepWaitRest w rest hw _ hgt =>
    exact absurd (decide_eq_false (not_lt.mpr hgt.le)) (hkeep w (by rw [hw]; simp))
  | @nackRetx r rest hr _ _ =>
    grind
  | @ackRetx r rest hr _ hm _ =>
    obtain ⟨_, h2, _, h4, _⟩ := freeAcked_fields
      { st with
        curRetx := rest
        bstatusRetxSize := st.bstatusRetxSize - (computePduHeaderSize c r + r.size) } r
    rw [ackRetx, h2, h4]
    grind
  | keepRetx hr _ _ hge _ | dropRetx hr _ hge _ => exact absurd hge (hkeep _ (by rw [hr]; simp))

/-- A NACKed segment ends up in the retransmit list, if everything that is walked is below
`ack_sn`. -/
theorem mem_newRetx_of_nackedBy {nacks : List Nack} (h : TxInv c [] tx)
    (hn : ∀ n ∈ nacks, InRange c.snModulus n.sn)
    (hbelow : ∀ s ∈ tx.waitList ++ tx.retransmitList, belowAck c tx ackSn s = true)
    (ht : t ∈ tx.waitList ++ tx.retransmitList) (hnack : nackedBy c tx nacks t = true) :
    t ∈ (processLists c tx ackSn nacks).newRetx := by
  have hrule := processLists_rule ackSn
    (fun done st => (∀ s ∈ st.curWait ++ st.curRetx, belowAck c tx ackSn s = true) ∧
      ∃ rest, nacks = done ++ rest ∧
        (t ∈ st.newRetx ∨ (t ∈ st.curWait ++ st.curRetx ∧ nackedBy c tx rest t = true)))
    h hn ⟨hbelow, nacks, rfl, Or.inr ⟨ht, hnack⟩⟩ ?_ ?_ ?_
  · obtain ⟨_, _, rest, hrest, hmem⟩ := hrule
    have hnil : rest = [] := List.append_right_eq_self.mp hrest.symm
    rcases hmem with hmem | ⟨_, hmem⟩
    · exact hmem
    · rw [hnil] at hmem
      cases hmem
  · grind [List.append_cancel_left, nackTurn_subset, nackTurn_newRetx, nackTurn_decides,
      nackedBy_of_misses]
  · intro done n rest st he _ hp ⟨hb, rest', he', hmem⟩
    have hrest : rest' = n :: rest := List.append_cancel_left (he'.symm.trans he)
    subst hrest
    refine ⟨hb, rest, by rw [he]; simp, ?_⟩
    rcases hmem with hmem | ⟨hmem, hnb⟩
    · exact Or.inl hmem
    · refine Or.inr ⟨hmem, ?_⟩
      rwa [nackedBy_of_defers (hp n (by simp) t hmem)] at hnb
  · intro st st' _ _ ⟨hb, rest, he, hmem⟩ hturn
    refine ⟨fun s hs => hb s (finishTurn_subset hturn s hs), rest, he, ?_⟩
    have hnil : rest = [] := List.append_right_eq_self.mp he.symm
    rcases hmem with hmem | ⟨_, hnb⟩
    · exact Or.inl (by rw [finishTurn_newRetx hturn]; exact hmem)
    · rw [hnil] at hnb
      cases hnb

end

/-! ### The invariant -/

/-- **The transmit window**, while the segments `held` are in no list. -/
structure TxWindow (c : Config) (held : List Segment) (tx : TxState) : Prop where
  next_le : modulusTx c tx tx.txNext ≤ c.windowSize
  below : ∀ s ∈ held ++ tx.live, snOf tx.heap s ≠ -1 →
    modulusTx c tx (snOf tx.heap s) < modulusTx c tx tx.txNext

section

variable {c : Config} {tx tx' : TxState} {held held' : List Segment}

theorem TxWindow.fresh (h : TxWindow c [] tx) (hi : TxInv c [] tx) : FreshSn tx := by
  intro s hs he
  have hne : snOf tx.heap s ≠ -1 := by
    rw [he]
    have := hi.txNext.1
    omega
  have := h.below s hs hne
  rw [he] at this
  omega

theorem TxWindow.of_sdus (h : TxWindow c held tx) (hn : tx'.txNext = tx.txNext)
    (ha : tx'.txNextAck = tx.txNextAck) (hs : ∀ s ∈ held' ++ tx'.live, snOf tx'.heap s = -1 ∨
      ∃ t ∈ held ++ tx.live, snOf tx'.heap s = snOf tx.heap t) : TxWindow c held' tx' := by
  have hmod : ∀ a, modulusTx c tx' a = modulusTx c tx a := by
    intro a
    rw [modulusTx_eq, ha, modulusTx_eq]
  refine ⟨by rw [hmod, hn]; exact h.next_le, ?_⟩
  intro s hm hne
  rw [hmod, hmod, hn]
  rcases hs s hm with he | ⟨t, ht, he⟩
  · exact absurd he hne
  · rw [he] at hne ⊢
    exact h.below t ht hne

theorem lt_window_of_not_stalling (hc : c.Ok) (hack : InRange c.snModulus tx.txNextAck)
    (h : isWindowStalling c tx = false) : modulusTx c tx tx.txNext < c.windowSize := by
  have hW := hc.window_ge
  have hM := hc.modulus_eq
  rw [isWindowStalling, Bool.not_eq_false', Bool.and_eq_true, decide_eq_true_iff,
    decide_eq_true_iff, snCompareTx, snCompareTx] at h
  have hd : modulusTx c tx ((tx.txNextAck + c.windowSize) % c.snModulus) = c.windowSize :=
    dist_add_emod hack (by omega) (by omega)
  rw [hd] at h
  omega

theorem assignSn_window {rest : List Segment} (hc : c.Ok) (hi : TxInv c [] tx)
    (hl : tx.txList = s :: rest) (hroom : modulusTx c tx tx.txNext < c.windowSize)
    (h : TxWindow c [] tx) : TxWindow c [s] (assignSn c (popTx c tx s rest) s) := by
  have hW := hc.window_ge
  have hM := hc.modulus_eq
  have hmem : ∀ t ∈ [s] ++ (popTx c tx s rest).live, t ∈ tx.live :=
    fun t ht => (popTx_perm hl).subset ht
  unfold assignSn
  split
  · have hnext : modulusTx c tx ((tx.txNext + 1) % c.snModulus) = modulusTx c tx tx.txNext + 1 :=
      dist_add_emod_of_lt hi.txNext hi.txNextAck (by omega)
        (by rw [← modulusTx_eq]; omega)
    refine ⟨?_, ?_⟩
    · show modulusTx c tx ((tx.txNext + 1) % c.snModulus) ≤ _
      omega
    · intro t ht hne
      show modulusTx c tx _ < modulusTx c tx ((tx.txNext + 1) % c.snModulus)
      rw [hnext]
      change snOf (tx.heap.modify s.sdu (fun d => { d with sn := tx.txNext })) t ≠ -1 at hne
      show modulusTx c tx (snOf (tx.heap.modify s.sdu (fun d => { d with sn := tx.txNext })) t) < _
      rw [snOf, Heap.modify_sdu] at hne ⊢
      split at hne
      · simp_all
      next he =>
        rw [if_neg he]
        have := h.below t (hmem t ht) hne
        rw [snOf] at this
        omega
  · exact h.of_sdus rfl rfl (fun t ht => Or.inr ⟨t, hmem t ht, rfl⟩)

theorem splitHeap_held {n : ℕ} {l : List Segment}
    (hp : l.Perm (headPart s n :: tailPart s n tx.heap.segTop :: tx.live)) :
    ∀ t ∈ l, snOf (splitHeap tx.heap s) t = -1 ∨
      ∃ u ∈ [s] ++ tx.live, snOf (splitHeap tx.heap s) t = snOf tx.heap u := by
  intro t ht
  have hsn : snOf (splitHeap tx.heap s) t = snOf tx.heap t := splitHeap_snOf ..
  rcases List.mem_cons.mp (hp.subset ht) with rfl | ht
  · exact Or.inr ⟨s, List.mem_cons_self, hsn⟩
  rcases List.mem_cons.mp ht with rfl | ht
  · exact Or.inr ⟨s, List.mem_cons_self, hsn⟩
  · exact Or.inr ⟨t, List.mem_cons_of_mem _ ht, hsn⟩

theorem splitTx_window (h : TxWindow c [s] tx) (h1 : computePduHeaderSize c s + 1 ≤ size) :
    TxWindow c [(splitTx c tx s size).1] (splitTx c tx s size).2 := by
  rcases splitTx_cases tx h1 with ⟨_, he⟩ | ⟨n, _, _, _, he⟩
  · rw [he]
    exact h
  · rw [he]
    exact h.of_sdus rfl rfl (splitHeap_held (List.Perm.refl _))

theorem splitRetx_window (h : TxWindow c [s] tx) (h1 : computePduHeaderSize c s + 1 ≤ size) :
    TxWindow c [(splitRetx c tx s size).1] (splitRetx c tx s size).2 := by
  rcases splitRetx_cases tx h1 with ⟨_, he⟩ | ⟨n, _, _, _, he⟩
  · rw [he]
    exact h
  · rw [he]
    exact h.of_sdus rfl rfl (splitHeap_held (List.Perm.cons _ List.perm_middle))

theorem Sent.window
    (hsent : Sent c tx tx' s size pdu) (h : TxWindow c [s] tx) : TxWindow c [] tx' := by
  obtain ⟨l, _, _, hsame⟩ := hsent.wait
  exact h.of_sdus hsame.txNext hsame.txNextAck
    fun t ht => Or.inr ⟨t, hsent.perm.subset ht, by rw [hsame.heap]⟩

variable {now : UInt64}

theorem generateTxPdu_window (hc : c.Ok) (hi : TxInv c [] tx) (h : TxWindow c [] tx)
    (hg : generateTxPdu c now tx size = .ok (tx', pdu)) : TxWindow c [] tx' := by
  rcases generateTxPdu_cases hc hi (fun _ _ _ _ => h.fresh hi) hg with
    ⟨rfl, _⟩ | ⟨s, rest, hstall, hl, hroom, hsent⟩
  · exact h
  · have hlt := lt_window_of_not_stalling hc hi.txNextAck hstall
    exact hsent.window (splitTx_window (assignSn_window hc hi hl hlt h) hroom)

theorem generateRetxPdu_window (hi : TxInv c [] tx) (h : TxWindow c [] tx)
    (hg : generateRetxPdu c now tx size = .ok (tx', pdu)) : TxWindow c [] tx' := by
  rcases generateRetxPdu_cases hi hg with ⟨rfl, _⟩ | ⟨s, rest, hl, hroom, hsent⟩
  · exact h
  · refine hsent.window (splitRetx_window (h.of_sdus rfl rfl ?_) hroom)
    exact fun t ht => Or.inr ⟨t, (popRetx_perm hl).subset ht, rfl⟩

theorem pushSdu_window (hi : TxInv c [] tx) (h : TxWindow c [] tx) (buffer : List UInt8)
    (sduId : ℤ) : TxWindow c [] (pushSdu c tx buffer sduId) := by
  refine h.of_sdus rfl rfl ?_
  intro s hs
  rcases List.mem_cons.mp ((pushSdu_perm c tx buffer sduId).subset hs) with rfl | hs
  · refine Or.inl ?_
    show (Function.update tx.heap.sdu tx.heap.sduTop _ tx.heap.sduTop).sn = -1
    rw [Function.update_self]
  · exact Or.inr ⟨s, hs, newSdu_snOf hi.live buffer sduId hs⟩

theorem Moved.window (hm : Moved c tx tx') (h : TxWindow c [] tx) : TxWindow c [] tx' :=
  h.of_sdus hm.txNext hm.txNextAck
    (fun s hs => Or.inr ⟨s, hm.live.subset hs, hm.sdus.snOf s⟩)

theorem discardSdu_window (hi : TxInv c [] tx) (h : TxWindow c [] tx) (sduId : ℤ) :
    TxWindow c [] (discardSdu c tx sduId) := by
  rcases discardSdu_cases hi sduId with he | ⟨before, cur, after, hl, _, _, he⟩
  · rw [he]
    exact h
  · rw [he]
    exact h.of_sdus rfl rfl fun s hs => Or.inr ⟨s,
      (discardSdu_perm hl).subset (List.mem_cons_of_mem _ hs), (sameSdus_free tx.heap cur).snOf s⟩

theorem txWindow_empty (hc : c.Ok) (h1 : tx.txNext = 0) (h2 : tx.txNextAck = 0)
    (hl : tx.live = []) : TxWindow c [] tx := by
  refine ⟨?_, ?_⟩
  · rw [modulusTx_eq, h1, h2, dist_self]
    have := hc.window_ge
    omega
  · simp_all

/-! ### STATUS PDUs -/

/-- The STATUS PDU acknowledges everything up to `tx_next` and NACKs nothing that is live, while
the head of the TX list is the rest of an SDU that has been sent in part. -/
def StrandsHead (c : Config) (tx : TxState) (s : StatusPdu) : Prop :=
  s.ackSn = tx.txNext ∧ (∃ t ∈ tx.txList.head?, snOf tx.heap t ≠ -1) ∧
    ∀ t ∈ tx.waitList ++ tx.retransmitList, nackedBy c tx (s.expand c) t = false

theorem TxInv.head_of_sent (hi : TxInv c held tx) (ht : t ∈ tx.txList)
    (hne : snOf tx.heap t ≠ -1) : t ∈ tx.txList.head? := by
  cases hl : tx.txList with
  | nil =>
    rw [hl] at ht
    cases ht
  | cons a l =>
    rw [hl] at ht
    rcases List.mem_cons.mp ht with rfl | ht
    · rfl
    · exact absurd (hi.unsent t (by rw [hl]; exact ht)) hne

theorem TxInv.head_modulus (hi : TxInv c [] tx) (hc : c.Ok) (h : TxWindow c [] tx)
    (ht : t ∈ tx.txList) (hne : snOf tx.heap t ≠ -1) :
    modulusTx c tx (snOf tx.heap t) = modulusTx c tx tx.txNext - 1 := by
  have hM := hc.modulus_pos
  have hsn := (hi.head t (hi.head_of_sent ht hne)).resolve_left hne
  have hlt := h.below t (mem_live.mpr (Or.inl ht)) hne
  have hin : InRange c.snModulus (snOf tx.heap t) := by
    rw [hsn]
    exact inRange_emod hM
  have h0 := dist_nonneg hin hi.txNextAck
  have hnlt := dist_lt hi.txNext hi.txNextAck
  rw [← modulusTx_eq] at h0 hnlt
  have hnext : (snOf tx.heap t + 1) % c.snModulus = tx.txNext := by
    rw [hsn, Int.emod_add_emod, sub_add_cancel]
    exact Int.emod_eq_of_lt hi.txNext.1 hi.txNext.2
  have hd : modulusTx c tx ((snOf tx.heap t + 1) % c.snModulus) = modulusTx c tx
    (snOf tx.heap t) + 1 :=
    dist_add_emod_of_lt hin hi.txNextAck (by omega) (by rw [← modulusTx_eq]; omega)
  rw [hnext] at hd
  omega

/-- **A STATUS PDU keeps the window** unless it strands the head of the TX list. -/
theorem processStatus_window {s : StatusPdu} (hc : c.Ok) (hi : TxInv c [] tx)
    (h : TxWindow c [] tx) (hack : InRange c.snModulus s.ackSn) (hv : validStatus c tx s = true)
    (hno : ¬ StrandsHead c tx s) : TxWindow c [] (processStatus c tx s).1 := by
  have hn := expand_inRange hc s
  have hg := processLists_good s.ackSn hi hn
  set st := processLists c tx s.ackSn (s.expand c) with hst
  obtain ⟨hin, hmin⟩ := newTxNextAck_min hg hack
  obtain ⟨_, hble, hback, _, _⟩ := newTxNextAck_spec (st.toTx tx).heap hi.txNext hack
    (fun t ht => hg.inv.wait_inRange ht) (fun t ht => hg.inv.retx_inRange ht)
  set b := newTxNextAck c tx s.ackSn (st.toTx tx).waitList (st.toTx tx).retransmitList
    (st.toTx tx).heap with hb
  have hackle : modulusTx c tx s.ackSn ≤ modulusTx c tx tx.txNext := by
    rw [validStatus, Bool.and_eq_true, decide_eq_true_iff, snCompareTx] at hv
    omega
  have hlistbelow : ∀ t ∈ tx.waitList ++ tx.retransmitList,
      modulusTx c tx (snOf tx.heap t) < modulusTx c tx tx.txNext := by
    intro t ht
    rcases List.mem_append.mp ht with ht | ht
    · exact h.below t (mem_live.mpr (Or.inr (Or.inl ht))) (hi.waitSent t ht)
    · exact h.below t (mem_live.mpr (Or.inr (Or.inr ht))) (hi.retxSent t ht)
  -- every live SN is at or above the new `tx_next_ack`
  have habove : ∀ t ∈ (st.toTx tx).live, snOf tx.heap t ≠ -1 →
      modulusTx c tx b ≤ modulusTx c tx (snOf tx.heap t) := by
    intro t ht hne
    rcases mem_live.mp ht with ht | ht | ht
    · change t ∈ tx.txList at ht
      rw [hi.head_modulus hc h ht hne]
      by_contra hgt
      have hbn : modulusTx c tx b = modulusTx c tx tx.txNext := by omega
      have hackeq : modulusTx c tx s.ackSn = modulusTx c tx tx.txNext := by omega
      have hbelow : ∀ u ∈ tx.waitList ++ tx.retransmitList, belowAck c tx s.ackSn u = true := by
        intro u hu
        have := hlistbelow u hu
        exact decide_eq_true (by rw [snCompareTx]; omega)
      refine hno ⟨dist_inj hack hi.txNext hackeq, ⟨t, hi.head_of_sent ht hne, hne⟩, ?_⟩
      intro u hu
      by_contra hnb
      have hmem := mem_newRetx_of_nackedBy hi hn hbelow hu (by simpa using hnb)
      have hleft := hmin u (List.mem_append_right _ (List.mem_append_left _ hmem))
      rw [hg.same.snOf] at hleft
      grind
    · have := hmin t (List.mem_append_left _ ht)
      rwa [hg.same.snOf] at this
    · have := hmin t (List.mem_append_right _ ht)
      rwa [hg.same.snOf] at this
  have hold : ∀ t ∈ (st.toTx tx).live, t ∈ tx.live := by
    intro t ht
    rw [TxState.live, List.append_assoc, List.mem_append] at ht ⊢
    exact ht.imp id (hg.old t)
  have hnew : dist c.snModulus b tx.txNext = modulusTx c tx tx.txNext - modulusTx c tx b := by
    rw [dist_rebase hi.txNext hi.txNextAck hin, ← modulusTx_eq, ← modulusTx_eq, if_pos hble]
  have hb0 := dist_nonneg hin hi.txNextAck
  rw [← modulusTx_eq] at hb0
  refine ⟨?_, ?_⟩
  · show dist c.snModulus b tx.txNext ≤ c.windowSize
    have := h.next_le
    omega
  · intro t ht hne
    change snOf st.heap t ≠ -1 at hne
    show dist c.snModulus b (snOf st.heap t) < dist c.snModulus b tx.txNext
    rw [hg.same.snOf] at hne ⊢
    have hlt := h.below t (hold t ht) hne
    have hge := habove t ht hne
    have hsr := (hi.live.sn t (hold t ht)).resolve_left hne
    rw [hnew, dist_rebase hsr hi.txNextAck hin, ← modulusTx_eq, ← modulusTx_eq, if_pos hge]
    omega

end

/-! ### Runs -/

/-- The call receives a STATUS PDU that strands the head of the TX list. -/
def Strands (e : Entity) (i : Input) : Prop :=
  ∃ s, Receives e i s ∧ StrandsHead e.cfg e.tx s

/-- The invariant of an entity. -/
structure EntityWindow (e : Entity) : Prop where
  cfg : e.cfg.Ok
  inv : TxInv e.cfg [] e.tx
  window : TxWindow e.cfg [] e.tx

theorem step_entityWindow {e' : Entity} {i : Input} {o : Output} (h : EntityWindow e)
    (hg : ¬ Strands e i) (hs : step e i = .ok (e', o)) : EntityWindow e' := by
  have hcfg := step_cfg hs
  have hfresh : NextSnFresh e.tx := fun _ _ _ _ => h.window.fresh h.inv
  refine ⟨by rw [hcfg]; exact h.cfg,
    by rw [hcfg]; exact step_txInv h.cfg h.inv (fun _ _ => hfresh) hs, ?_⟩
  rw [hcfg]
  have hcall := step_txCall h.cfg h.inv hs
  generalize e'.tx = tx' at hcall ⊢
  cases hcall with
  | idle => exact h.window
  | accept _ _ => exact pushSdu_window h.inv h.window _ _
  | send hg => exact generateTxPdu_window h.cfg h.inv h.window hg
  | resend hg => exact generateRetxPdu_window h.inv h.window hg
  | @status i s hr hack =>
    obtain ⟨_, _, _, _, _, hv⟩ := id hr
    exact processStatus_window h.cfg h.inv h.window hack hv (fun hst => hg ⟨s, hr, hst⟩)
  | poll hp => exact (checkTPollRetransmit_moved hp).window h.window
  | discard => exact discardSdu_window h.inv h.window _
  | clear => exact txWindow_empty h.cfg rfl rfl rfl

/-- **The transmit window**: an SDU with an SN and a live segment lies between `tx_next_ack` and
`tx_next`, which are at most a window apart. -/
structure WindowOk (e : Entity) : Prop where
  inside : ∀ s ∈ e.tx.live, snOf e.tx.heap s ≠ -1 →
    (snOf e.tx.heap s - e.tx.txNextAck) % e.cfg.snModulus <
      (e.tx.txNext - e.tx.txNextAck) % e.cfg.snModulus
  size : (e.tx.txNext - e.tx.txNextAck) % e.cfg.snModulus ≤ e.cfg.windowSize

theorem EntityWindow.ok (h : EntityWindow e) : WindowOk e := by
  have hn : modulusTx e.cfg e.tx e.tx.txNext = (e.tx.txNext - e.tx.txNextAck) % e.cfg.snModulus :=
    dist_eq_emod h.inv.txNext h.inv.txNextAck
  refine ⟨?_, by rw [← hn]; exact h.window.next_le⟩
  intro s hs hne
  have hsr := (h.inv.live.sn s hs).resolve_left hne
  have hlt := h.window.below s hs hne
  rw [hn, modulusTx_eq, dist_eq_emod hsr h.inv.txNextAck] at hlt
  exact hlt

theorem entityWindow_new (h : e.cfg.Ok ∧ e = Entity.new e.cfg) : EntityWindow e := by
  obtain ⟨hc, he⟩ := h
  rw [he]
  exact ⟨hc, entityNew_txInv hc, txWindow_empty hc rfl rfl rfl⟩

/-- **The window holds in every run** in which no STATUS PDU strands an SDU. -/
theorem reachable_windowOk {rxMaxsize txMaxsize : ℤ}
    {tPollRetransmit tReassembly tStatusProhibit : UInt64}
    {pollPdu pollByte maxRetxThreshold : ℤ} {snFieldLength : ℕ} {e₀ e : Entity}
    (h₀ : newNrRlcEntityAm rxMaxsize txMaxsize tPollRetransmit tReassembly tStatusProhibit pollPdu
      pollByte maxRetxThreshold snFieldLength = .ok e₀)
    (h : Reachable step (fun e i => ¬ Strands e i) e₀ e) : WindowOk e :=
  (Reachable.invariant EntityWindow (entityWindow_new (newNrRlcEntityAm_eq h₀))
    (fun _ _ _ _ hi hg hs => step_entityWindow hi hg hs) h).ok

/-- An SDU sent in part, then the rest of it. -/
theorem reachable_windowOk_split :
    ∃ e₀ e, newNrRlcEntityAm 1000 1000 45 35 0 (-1) (-1) 8 12 = .ok e₀ ∧
      Reachable step (fun e i => ¬ Strands e i) e₀ e ∧ e.tx.waitList.length = 1 ∧
      e.tx.txList.length = 1 ∧ WindowOk e := by
  have h₀ := newNrRlcEntityAm_sample
  have h₁ : Reachable step (fun e i => ¬ Strands e i)
      Entity.sample _ :=
    .step (i := .recvSdu [1, 2, 3, 4] 7) .start (by rintro ⟨_, ⟨_, _, h, _⟩, _⟩; cases h) rfl
  have h₂ := Reachable.step (i := Input.generatePdu 4) h₁
    (by rintro ⟨_, ⟨_, _, h, _⟩, _⟩; cases h) rfl
  exact ⟨_, _, h₀, h₂, rfl, rfl, reachable_windowOk h₀ h₂⟩

/-- **`tx_next_ack` passes an SDU that is not fully sent.**  Two of four bytes are sent, and a
STATUS PDU with ACK_SN = 1 and no NACK arrives. -/
theorem not_windowOk_after_early_ack :
    ¬ ∀ (rxMaxsize txMaxsize : ℤ) (tPollRetransmit tReassembly tStatusProhibit : UInt64)
      (pollPdu pollByte maxRetxThreshold : ℤ) (snFieldLength : ℕ) (e₀ e : Entity),
      newNrRlcEntityAm rxMaxsize txMaxsize tPollRetransmit tReassembly tStatusProhibit pollPdu
        pollByte maxRetxThreshold snFieldLength = .ok e₀ →
      Reachable step (fun _ i => i ≠ .reestablishment) e₀ e → WindowOk e := by
  intro h
  obtain ⟨⟨e, os⟩, hrun, hobs⟩ := exists_of_observed
    (f := fun p => (p.1.cfg.snModulus, p.1.tx.txNext, p.1.tx.txNextAck,
      p.1.tx.live.map (snOf p.1.tx.heap)))
    (b := (4096, 1, 1, [0])) (x := run step Entity.sample
      [.recvSdu [1, 2, 3, 4] 7, .generatePdu 4, .recvPdu [0x00, 0x01, 0x00]]) (by decide +kernel)
  simp only [Prod.mk.injEq] at hobs
  obtain ⟨hM, hn, ha, hl⟩ := hobs
  have hok := h 1000 1000 45 35 0 (-1) (-1) 8 12 _ e rfl (Reachable.start.of_run (by simp) hrun)
  obtain ⟨s, l, hs, hsn, _⟩ := List.map_eq_cons_iff.mp hl
  have hlt := hok.inside s (by rw [hs]; exact List.mem_cons_self) (by rw [hsn]; decide)
  simp_all

end OaiGnb.Rlc.Am
