import OaiGnb.Rlc.Am.TxLists

/-!
# The walk of a STATUS PDU over the transmit lists

`process_control_pdu` walks the wait list and the retransmit list in the order of (SN, SO) while it
goes through the NACKs.  A NACK that lies wholly before a segment defers it to the next NACK; the
first NACK that does not defer a segment decides about it.  `NackTurn` and `FinishTurn` say what
one turn of the walk can do, and `processLists_rule` is the induction over the whole walk.

* `processLists_good`: the walk keeps the lists sorted and their tail pointers right.
* `processStatus_inv`: a STATUS PDU keeps the invariant of the transmit lists.
-/

namespace OaiGnb.Rlc.Am

open SerialNumber SortedList

/-! ### One turn -/

section Turns

variable (c : Config) (tx : TxState) (ackSn : ℤ)

/-- The NACK leaves the segment to the next one. -/
def defers (n : Nack) (s : Segment) : Bool :=
  !overlaps tx.heap n s && beyond c tx tx.heap n s

/-- The NACK decides that it does not hit the segment. -/
def misses (n : Nack) (s : Segment) : Bool :=
  !overlaps tx.heap n s && !beyond c tx tx.heap n s

/-- The SN of the segment is below `ack_sn`. -/
def belowAck (s : Segment) : Bool := decide (snCompareTx c tx (snOf tx.heap s) ackSn < 0)

/-- No segment at the head of the list comes before `s`. -/
def FirstOf (s : Segment) (l : List Segment) : Prop :=
  ∀ t ∈ l.head?, key c tx.txNextAck tx.heap s ≤ key c tx.txNextAck tx.heap t

/-- One turn of `process_next_pdu`. -/
inductive NackTurn (n : Nack) (st : Walk) : Walk → Prop
  | nackWait {w : Segment} {rest : List Segment} : st.curWait = w :: rest →
      FirstOf c tx w st.curRetx → overlaps tx.heap n w = true →
      NackTurn n st (nackWait c tx st w rest)
  | ackWait {w : Segment} {rest : List Segment} : st.curWait = w :: rest →
      FirstOf c tx w st.curRetx → misses c tx n w = true → belowAck c tx ackSn w = true →
      NackTurn n st (ackWait tx st w rest)
  | keepWait {w : Segment} {rest : List Segment} : st.curWait = w :: rest →
      FirstOf c tx w st.curRetx → misses c tx n w = true → belowAck c tx ackSn w = false →
      NackTurn n st { st with kept := st.kept ++ [w], curWait := rest }
  | keepWaitRest {w : Segment} {rest : List Segment} : st.curWait = w :: rest →
      misses c tx n w = true → snCompareTx c tx (snOf tx.heap w) ackSn > 0 →
      NackTurn n st { st with kept := st.kept ++ w :: rest, curWait := [] }
  | nackRetx {r : Segment} {rest : List Segment} : st.curRetx = r :: rest →
      FirstOf c tx r st.curWait → overlaps tx.heap n r = true →
      NackTurn n st { st with newRetx := st.newRetx ++ [r], curRetx := rest }
  | ackRetx {r : Segment} {rest : List Segment} : st.curRetx = r :: rest →
      FirstOf c tx r st.curWait → misses c tx n r = true → belowAck c tx ackSn r = true →
      NackTurn n st (ackRetx c st r rest)
  | keepRetx {r : Segment} {rest : List Segment} : st.curRetx = r :: rest →
      FirstOf c tx r st.curWait → misses c tx n r = true → belowAck c tx ackSn r = false →
      st.curWait ≠ [] →
      NackTurn n st { st with newRetx := st.newRetx ++ [r], curRetx := rest }
  | dropRetx {r : Segment} {rest : List Segment} : st.curRetx = r :: rest →
      misses c tx n r = true → belowAck c tx ackSn r = false → st.curWait = [] →
      NackTurn n st { st with curRetx := [] }

/-- One turn after the last NACK. -/
inductive FinishTurn (st : Walk) : Walk → Prop
  | ackWait {w : Segment} {rest : List Segment} : st.curWait = w :: rest →
      belowAck c tx ackSn w = true → FinishTurn st (ackWait tx st w rest)
  | ackRetx {r : Segment} {rest : List Segment} : st.curRetx = r :: rest →
      belowAck c tx ackSn r = true → FinishTurn st (ackRetx c st r rest)

end Turns

variable {w r : Segment} {rest l : List Segment} {tx' : TxState} {heap : Heap} {e : Entity}
  {i : Input}

section

variable {c : Config} {tx : TxState} {ackSn : ℤ} {n : Nack} {st st' : Walk}

theorem SameSdus.overlaps_beyond {h h' : Heap} (hs : SameSdus h h') (c : Config) (tx : TxState)
    (n : Nack) (s : Segment) :
    overlaps h' n s = overlaps h n s ∧ beyond c tx h' n s = beyond c tx h n s := by
  rw [overlaps, overlaps, beyond, beyond, hs.snOf]
  exact ⟨rfl, rfl⟩

theorem processWaitListHead_turn (hs : SameSdus tx.heap st.heap) (hw : st.curWait = w :: rest)
    (hf : FirstOf c tx w st.curRetx)
    (h : processWaitListHead c tx ackSn n st w rest = some st') : NackTurn c tx ackSn n st st' := by
  obtain ⟨hov, hby⟩ := hs.overlaps_beyond c tx n w
  rw [processWaitListHead, hov, hby, hs.snOf] at h
  split at h
  next ho =>
    obtain rfl := Option.some.inj h
    exact .nackWait hw hf ho
  next ho =>
    split at h
    · cases h
    next hb =>
      have hm : misses c tx n w = true := by simp [misses, ho, hb]
      split at h
      next hlt =>
        obtain rfl := Option.some.inj h
        exact .ackWait hw hf hm (decide_eq_true hlt)
      next hge =>
        split at h
        next hgt =>
          obtain rfl := Option.some.inj h
          exact .keepWaitRest hw hm hgt
        · obtain rfl := Option.some.inj h
          exact .keepWait hw hf hm (decide_eq_false hge)

theorem processRetransmitListHead_turn (hs : SameSdus tx.heap st.heap)
    (hr : st.curRetx = r :: rest) (hf : FirstOf c tx r st.curWait)
    (h : processRetransmitListHead c tx ackSn n st r rest = some st') :
    NackTurn c tx ackSn n st st' := by
  obtain ⟨hov, hby⟩ := hs.overlaps_beyond c tx n r
  rw [processRetransmitListHead, hov, hby, hs.snOf] at h
  split at h
  next ho =>
    obtain rfl := Option.some.inj h
    exact .nackRetx hr hf ho
  next ho =>
    split at h
    · cases h
    next hb =>
      have hm : misses c tx n r = true := by simp [misses, ho, hb]
      split at h
      next hlt =>
        obtain rfl := Option.some.inj h
        exact .ackRetx hr hf hm (decide_eq_true hlt)
      next hge =>
        split at h
        next hnil =>
          obtain rfl := Option.some.inj h
          exact .dropRetx hr hm (decide_eq_false hge) hnil
        next hne =>
          obtain rfl := Option.some.inj h
          exact .keepRetx hr hf hm (decide_eq_false hge) hne

/-- **A turn of the walk.** -/
theorem processNextPdu_turn (hs : SameSdus tx.heap st.heap)
    (h : processNextPdu c tx ackSn n st = some st') : NackTurn c tx ackSn n st st' := by
  grind [processNextPdu, processRetransmitListHead_turn, FirstOf, processWaitListHead_turn,
    waitFirst_eq, key_same]

end

/-! ### What every turn keeps -/

/-- The segments of both lists during the walk. -/
def Walk.segs (st : Walk) : List Segment := (st.kept ++ st.curWait) ++ (st.newRetx ++ st.curRetx)

/-- **The invariant of the walk**: the lists as they would be left now satisfy the invariant of the
transmit lists, and what has been put in the retransmit list comes before what is still to be
walked. -/
structure Good (c : Config) (tx : TxState) (st : Walk) : Prop where
  same : SameSdus tx.heap st.heap
  inv : TxInv c [] (st.toTx tx)
  ends : st.endWait = none ∨ st.curWait = []
  merged : ∀ a ∈ st.newRetx, ∀ b ∈ st.curWait,
    key c tx.txNextAck tx.heap a ≤ key c tx.txNextAck tx.heap b
  old : ∀ s ∈ st.segs, s ∈ tx.waitList ++ tx.retransmitList

section

variable {c : Config} {tx : TxState} {ackSn : ℤ} {n : Nack} {st st' : Walk}

theorem endWaitWithout_spec (hg : Good c tx st) (hw : st.curWait = w :: rest) :
    (endWaitWithout tx st w).getD tx.waitEnd = lastAddr (st.kept ++ rest) ∧
      (endWaitWithout tx st w = none ∨ rest = []) := by
  have hend : st.endWait = none := by
    rcases hg.ends with he | he
    · exact he
    · simp_all
  have hwe : tx.waitEnd = lastAddr (st.kept ++ w :: rest) := by
    have := hg.inv.waitEnd
    change st.endWait.getD tx.waitEnd = lastAddr (st.kept ++ st.curWait) at this
    rwa [hend, hw] at this
  have hnd : ((w :: rest).map Segment.addr).Nodup := by
    refine hg.inv.live.nodup_addr.sublist (List.Sublist.map _ ?_)
    show (w :: rest).Sublist (tx.txList ++ (st.kept ++ st.curWait) ++ _)
    rw [← hw]
    exact ((List.sublist_append_right _ _).trans (List.sublist_append_right _ _)).trans
      (List.sublist_append_left _ _)
  unfold endWaitWithout
  split
  next hlast =>
    -- the node is the last one
    have hnil : rest = [] := by
      by_contra hne
      rw [hwe, lastAddr_append_of_ne_nil _ _ (List.cons_ne_nil _ _)] at hlast
      obtain ⟨r, rs, rfl⟩ := List.exists_cons_of_ne_nil hne
      rw [lastAddr_cons_cons] at hlast
      obtain ⟨init, s, hs, hsa⟩ := exists_concat_of_lastAddr hlast
      rw [List.map_cons, List.nodup_cons] at hnd
      exact hnd.1 (List.mem_map.mpr ⟨s, by rw [hs]; simp, hsa⟩)
    simp_all
  next hnot =>
    rw [hend]
    refine ⟨?_, Or.inl rfl⟩
    show tx.waitEnd = _
    cases rest with
    | nil =>
      simp_all
    | cons r rs =>
      simp_all [lastAddr_append_of_ne_nil, List.cons_ne_nil, lastAddr_cons_cons]

theorem Good.waitSorted (hg : Good c tx st) :
    SortedBy (key c tx.txNextAck tx.heap) (st.kept ++ st.curWait) :=
  hg.inv.waitSorted.congr (fun s _ => (key_same hg.same c _ s).symm)

theorem Good.retxSorted (hg : Good c tx st) :
    SortedBy (key c tx.txNextAck tx.heap) (st.newRetx ++ st.curRetx) :=
  hg.inv.retxSorted.congr (fun s _ => (key_same hg.same c _ s).symm)

variable {s : Segment}

theorem FirstOf.all (h : FirstOf c tx s l) (hl : SortedBy (key c tx.txNextAck tx.heap) l) :
    ∀ t ∈ l, key c tx.txNextAck tx.heap s ≤ key c tx.txNextAck tx.heap t := by
  intro t ht
  cases l with
  | nil => cases ht
  | cons r rs =>
    have hr := h r rfl
    rcases List.mem_cons.mp ht with rfl | ht
    · exact hr
    · exact hr.trans ((sortedBy_cons.mp hl).1 t ht)

theorem Good.of_lists (hg : Good c tx st) (hs : SameSdus st.heap st'.heap) (gone : List Segment)
    (hp : (gone ++ st'.segs).Perm st.segs)
    (hw : (st'.kept ++ st'.curWait).Sublist (st.kept ++ st.curWait))
    (hr : SortedBy (key c tx.txNextAck tx.heap) (st'.newRetx ++ st'.curRetx))
    (hwe : st'.endWait.getD tx.waitEnd = lastAddr (st'.kept ++ st'.curWait))
    (hends : st'.endWait = none ∨ st'.curWait = []) (hm : ∀ a ∈ st'.newRetx, ∀ b ∈ st'.curWait,
      key c tx.txNextAck tx.heap a ≤ key c tx.txNextAck tx.heap b) : Good c tx st' := by
  have hk : ∀ s, key c tx.txNextAck st.heap s = key c tx.txNextAck tx.heap s :=
    fun s => key_same hg.same c _ s
  refine ⟨hg.same.trans hs, ?_, hends, hm,
    fun s hs => hg.old s (hp.subset (List.mem_append_right gone hs))⟩
  have hinv : TxInv c [] (st'.toTx tx) := hg.inv.relist rfl hg.inv.txNextAck hs rfl rfl gone hp
    ((hg.waitSorted.sublist hw).congr (fun s _ => hk s)) (hr.congr (fun s _ => hk s)) hwe
  exact hinv

theorem nackWait_perm (hw : st.curWait = w :: rest) :
    (nackWait c tx st w rest).segs.Perm st.segs := by
  show ((st.kept ++ rest) ++ (st.newRetx ++ [w] ++ st.curRetx)).Perm _
  grind [Walk.segs, List.append_assoc, List.Perm.append_left, List.singleton_append]

theorem nackWait_good (hg : Good c tx st)
    (hw : st.curWait = w :: rest) (hf : FirstOf c tx w st.curRetx) :
    Good c tx (nackWait c tx st w rest) := by
  obtain ⟨hwe, hends⟩ := endWaitWithout_spec hg hw
  have hsort := hg.waitSorted
  have hretx := sortedBy_append.mp hg.retxSorted
  have hmerged := hg.merged
  rw [hw] at hsort hmerged
  have hwrest := (sortedBy_cons.mp (sortedBy_append.mp hsort).2.1).1
  refine hg.of_lists (sameSdus_retx st.heap w.sdu) [] (nackWait_perm hw) ?_ ?_ hwe hends ?_
  · show (st.kept ++ rest).Sublist (st.kept ++ st.curWait)
    simp_all
  · show SortedBy _ (st.newRetx ++ [w] ++ st.curRetx)
    rw [List.append_assoc, List.singleton_append]
    refine sortedBy_append.mpr ⟨hretx.1, sortedBy_cons.mpr ⟨hf.all hretx.2.1, hretx.2.1⟩, ?_⟩
    simp_all
  · intro a ha b hb
    change a ∈ st.newRetx ++ [w] at ha
    rcases List.mem_append.mp ha with ha | ha
    · exact hmerged a ha b (List.mem_cons_of_mem _ hb)
    · obtain rfl := List.mem_singleton.mp ha
      exact hwrest b hb

theorem freeAcked_fields (st : Walk) (s : Segment) :
    (freeAcked st s).kept = st.kept ∧ (freeAcked st s).curWait = st.curWait ∧
    (freeAcked st s).newRetx = st.newRetx ∧ (freeAcked st s).curRetx = st.curRetx ∧
    (freeAcked st s).endWait = st.endWait ∧ (freeAcked st s).bstatusRetxSize = st.bstatusRetxSize ∧
    (freeAcked st s).heap = (nrRlcFreeSduSegment st.heap s).2 := by
  unfold freeAcked
  grind

theorem ackWait_perm (hw : st.curWait = w :: rest) :
    (w :: (ackWait tx st w rest).segs).Perm st.segs := by
  grind [freeAcked_fields, endWaitWithout, ackWait, Walk.segs, List.append_assoc]

theorem ackRetx_perm (hr : st.curRetx = r :: rest) :
    (r :: (ackRetx c st r rest).segs).Perm st.segs := by
  grind [freeAcked_fields, computePduHeaderSize, ackRetx, Walk.segs, List.append_assoc]

section

variable (hg : Good c tx st)

include hg

theorem ackWait_good (hw : st.curWait = w :: rest) : Good c tx (ackWait tx st w rest) := by
  obtain ⟨hwe, hends⟩ := endWaitWithout_spec hg hw
  have hmerged := hg.merged
  rw [hw] at hmerged
  unfold ackWait
  obtain ⟨h1, h2, h3, h4, h5, _, h7⟩ := freeAcked_fields
    { st with curWait := rest, endWait := endWaitWithout tx st w } w
  refine hg.of_lists (by rw [h7]; exact sameSdus_free st.heap w) [w] (ackWait_perm hw)
    ?_ ?_ ?_ ?_ ?_
  · simp_all
  · rw [h3, h4]
    exact hg.retxSorted
  · simp_all
  · rw [h5, h2]
    exact hends
  · simp_all

theorem ackRetx_good (hr : st.curRetx = r :: rest) : Good c tx (ackRetx c st r rest) := by
  unfold ackRetx
  obtain ⟨h1, h2, h3, h4, h5, _, h7⟩ := freeAcked_fields
    { st with
      curRetx := rest
      bstatusRetxSize := st.bstatusRetxSize - (computePduHeaderSize c r + r.size) } r
  have hsub : (st.newRetx ++ rest).Sublist (st.newRetx ++ st.curRetx) := by
    rw [hr]
    exact (List.Sublist.refl _).append (List.sublist_cons_self r rest)
  refine hg.of_lists (by rw [h7]; exact sameSdus_free st.heap r) [r] (ackRetx_perm hr)
    ?_ ?_ ?_ ?_ ?_
  · rw [h1, h2]
  · rw [h3, h4]
    exact hg.retxSorted.sublist hsub
  · rw [h5, h1, h2]
    exact hg.inv.waitEnd
  · rw [h5, h2]
    exact hg.ends
  · rw [h3, h2]
    exact hg.merged

theorem keepWait_good (hw : st.curWait = l ++ rest) :
    Good c tx { st with kept := st.kept ++ l, curWait := rest } := by
  have he : st.kept ++ l ++ rest = st.kept ++ st.curWait := by rw [hw, List.append_assoc]
  have hends : st.endWait = none ∨ rest = [] := by
    rcases hg.ends with h | h
    · exact Or.inl h
    · simp_all
  refine hg.of_lists (SameSdus.refl _) [] ?_ ?_ hg.retxSorted ?_ hends ?_
  · grind [Walk.segs]
  · simp_all
  · show _ = lastAddr (st.kept ++ l ++ rest)
    rw [he]
    exact hg.inv.waitEnd
  · intro a ha b hb
    refine hg.merged a ha b ?_
    simp_all

theorem keepRetx_good (hr : st.curRetx = r :: rest) (hf : FirstOf c tx r st.curWait) :
    Good c tx { st with newRetx := st.newRetx ++ [r], curRetx := rest } := by
  have he : st.newRetx ++ [r] ++ rest = st.newRetx ++ st.curRetx := by
    rw [hr, List.append_assoc, List.singleton_append]
  refine hg.of_lists (SameSdus.refl _) [] ?_ (List.Sublist.refl _) ?_ hg.inv.waitEnd hg.ends ?_
  · grind [Walk.segs]
  · show SortedBy _ (st.newRetx ++ [r] ++ rest)
    rw [he]
    exact hg.retxSorted
  · intro a ha b hb
    change a ∈ st.newRetx ++ [r] at ha
    rcases List.mem_append.mp ha with ha | ha
    · exact hg.merged a ha b hb
    · obtain rfl := List.mem_singleton.mp ha
      exact hf.all (sortedBy_append.mp hg.waitSorted).2.1 b hb

theorem dropRetx_good : Good c tx { st with curRetx := [] } := by
  refine hg.of_lists (SameSdus.refl _) st.curRetx ?_ (List.Sublist.refl _) ?_ hg.inv.waitEnd
    hg.ends hg.merged
  · grind [Walk.segs, List.append_assoc, List.perm_append_comm]
  · show SortedBy _ (st.newRetx ++ [])
    rw [List.append_nil]
    exact (sortedBy_append.mp hg.retxSorted).1

theorem NackTurn.good (h : NackTurn c tx ackSn n st st') : Good c tx st' := by
  cases h with
  | nackWait hw hf => exact nackWait_good hg hw hf
  | ackWait hw => exact ackWait_good hg hw
  | keepWait hw => exact keepWait_good hg hw
  | keepWaitRest hw => exact keepWait_good hg (hw.trans (List.append_nil _).symm)
  | nackRetx hr hf => exact keepRetx_good hg hr hf
  | ackRetx hr => exact ackRetx_good hg hr
  | keepRetx hr hf => exact keepRetx_good hg hr hf
  | dropRetx => exact dropRetx_good hg

theorem FinishTurn.good (h : FinishTurn c tx ackSn st st') : Good c tx st' := by
  cases h with
  | ackWait hw => exact ackWait_good hg hw
  | ackRetx hr => exact ackRetx_good hg hr

end

/-! ### Deferred segments -/

theorem beyond_iff : beyond c tx heap n s = true ↔
    dist c.snModulus tx.txNextAck n.sn < dist c.snModulus tx.txNextAck (snOf heap s) ∨
    (dist c.snModulus tx.txNextAck n.sn = dist c.snModulus tx.txNextAck (snOf heap s) ∧
      n.soStart < s.so) := by
  rw [beyond, snCompareTx, modulusTx_eq, modulusTx_eq, decide_eq_true_iff]
  omega

theorem defers_iff : defers c tx n s = true ↔
    overlaps tx.heap n s = false ∧ beyond c tx tx.heap n s = true := by
  rw [defers, Bool.and_eq_true, Bool.not_eq_true']

theorem overlaps_false_iff : overlaps heap n s = false ↔
    snOf heap s ≠ n.sn ∨ soOverlap n.soStart n.soEnd s.so (s.so + s.size - 1) = false := by
  rw [overlaps, Bool.and_eq_false_iff, decide_eq_false_iff_not]

variable {a b : Segment}

/-- **A NACK that defers a segment defers all that come after it.** -/
theorem defers_mono (hn : InRange c.snModulus n.sn) (ha : InRange c.snModulus (snOf tx.heap a))
    (hle : key c tx.txNextAck tx.heap a ≤ key c tx.txNextAck tx.heap b)
    (h : defers c tx n a = true) : defers c tx n b = true := by
  rw [defers_iff, overlaps_false_iff, beyond_iff] at h ⊢
  obtain ⟨hov, hby⟩ := h
  rw [key_le] at hle
  refine ⟨?_, by omega⟩
  by_cases hb : snOf tx.heap b = n.sn
  · -- then both have the SN of the NACK, and the NACK ends before `a`
    grind [SerialNumber.dist, snOf, dist_inj, soOverlap]
  · exact Or.inl hb

/-- The NACKs in `done` have deferred what is still to be walked. -/
def Passed (c : Config) (tx : TxState) (done : List Nack) (st : Walk) : Prop :=
  ∀ n ∈ done, ∀ s ∈ st.curWait ++ st.curRetx, defers c tx n s = true

theorem Good.mem_inRange (hg : Good c tx st) (hs : s ∈ st.curWait ++ st.curRetx) :
    InRange c.snModulus (snOf tx.heap s) := by
  rw [← hg.same.snOf]
  rcases List.mem_append.mp hs with hs | hs
  · exact hg.inv.wait_inRange (List.mem_append_right st.kept hs)
  · exact hg.inv.retx_inRange (List.mem_append_right st.newRetx hs)

theorem processWaitListHead_none (hs : SameSdus tx.heap st.heap)
    (h : processWaitListHead c tx ackSn n st w rest = none) :
    defers c tx n w = true := by
  obtain ⟨hov, hby⟩ := hs.overlaps_beyond c tx n w
  grind [processWaitListHead, defers]

theorem processRetransmitListHead_none (hs : SameSdus tx.heap st.heap)
    (h : processRetransmitListHead c tx ackSn n st r rest = none) :
    defers c tx n r = true := by
  obtain ⟨hov, hby⟩ := hs.overlaps_beyond c tx n r
  grind [processRetransmitListHead, defers]

/-- **Where the walk stops for a NACK**, the NACK defers all that is left. -/
theorem processNextPdu_none (hg : Good c tx st) (hn : InRange c.snModulus n.sn)
    (h : processNextPdu c tx ackSn n st = none) :
    ∀ s ∈ st.curWait ++ st.curRetx, defers c tx n s = true := by
  have hws := (sortedBy_append.mp hg.waitSorted).2.1
  have hrs := (sortedBy_append.mp hg.retxSorted).2.1
  -- it is enough to find a deferred segment that comes first in both lists
  have hall : ∀ f ∈ st.curWait ++ st.curRetx, defers c tx n f = true →
      FirstOf c tx f st.curWait → FirstOf c tx f st.curRetx →
      ∀ s ∈ st.curWait ++ st.curRetx, defers c tx n s = true := by
    intro f hf hd hfw hfr s hs
    refine defers_mono hn (hg.mem_inRange hf) ?_ hd
    rcases List.mem_append.mp hs with hs | hs
    · exact hfw.all hws s hs
    · exact hfr.all hrs s hs
  unfold processNextPdu at h
  split at h
  · simp_all
  next r rs hw hr =>
    refine hall r (by rw [hr]; simp) (processRetransmitListHead_none hg.same h) ?_ ?_
    · rw [FirstOf, hw]
      simp
    · intro t ht
      simp_all
  next w ws hw hr =>
    refine hall w (by rw [hw]; simp) (processWaitListHead_none hg.same h) ?_ ?_
    · intro t ht
      simp_all
    · rw [FirstOf, hr]
      simp
  next w ws r rs hw hr =>
    rw [waitFirst_eq, key_same hg.same, key_same hg.same] at h
    split at h
    next hlt =>
      refine hall w (by rw [hw]; simp) (processWaitListHead_none hg.same h) ?_ ?_
      · intro t ht
        simp_all
      · intro t ht
        grind
    next hge =>
      refine hall r (by rw [hr]; simp) (processRetransmitListHead_none hg.same h) ?_ ?_
      · intro t ht
        rw [hw] at ht
        obtain rfl := Option.some.inj ht
        exact not_lt.mp (by simpa using hge)
      · intro t ht
        simp_all

theorem nackTurn_length_lt (h : NackTurn c tx ackSn n st st') :
    st'.curWait.length + st'.curRetx.length < st.curWait.length + st.curRetx.length := by
  cases h with
  | nackWait hw =>
    rw [hw]
    simp [nackWait]
  | @ackWait w rest hw _ _ _ =>
    grind [freeAcked_fields, endWaitWithout, ackWait]
  | keepWait hw | keepWaitRest hw => rw [hw]; simp
  | nackRetx hr => rw [hr]; simp
  | @ackRetx r rest hr _ _ _ =>
    grind [freeAcked_fields, computePduHeaderSize, ackRetx]
  | keepRetx hr | dropRetx hr => rw [hr]; simp

theorem nackTurn_subset (h : NackTurn c tx ackSn n st st') :
    ∀ s ∈ st'.curWait ++ st'.curRetx, s ∈ st.curWait ++ st.curRetx := by
  intro s hs
  rw [List.mem_append] at hs ⊢
  cases h with
  | nackWait hw =>
    rw [hw]
    exact hs.imp (List.mem_cons_of_mem _) id
  | @ackWait w rest hw _ _ _ =>
    grind [freeAcked_fields, endWaitWithout, ackWait, List.mem_cons_of_mem, id]
  | keepWait hw =>
    grind
  | keepWaitRest hw => exact hs.imp (fun h => by cases h) id
  | nackRetx hr =>
    grind
  | @ackRetx r rest hr _ _ _ =>
    grind [freeAcked_fields, computePduHeaderSize, ackRetx, id, List.mem_cons_of_mem]
  | keepRetx hr =>
    grind
  | dropRetx => exact hs.imp id (fun h => by cases h)

theorem Passed.turn {done : List Nack} (hp : Passed c tx done st)
    (h : NackTurn c tx ackSn n st st') : Passed c tx done st' :=
  fun m hm s hs => hp m hm s (nackTurn_subset h s hs)

/-! ### The whole walk -/

variable {J : Walk → Prop}

theorem processNackLoop_rule
    (hJ : ∀ st st', Good c tx st → J st → NackTurn c tx ackSn n st st' → J st') (fuel : ℕ) :
    ∀ st, st.curWait.length + st.curRetx.length ≤ fuel → Good c tx st → J st →
      Good c tx (processNackLoop c tx ackSn n fuel st) ∧ J (processNackLoop c tx ackSn n fuel st) ∧
      processNextPdu c tx ackSn n (processNackLoop c tx ackSn n fuel st) = none := by
  induction fuel with
  | zero =>
    intro st hlen hg hj
    refine ⟨hg, hj, ?_⟩
    have hw : st.curWait = [] := List.length_eq_zero_iff.mp (by omega)
    have hr : st.curRetx = [] := List.length_eq_zero_iff.mp (by omega)
    show processNextPdu c tx ackSn n st = none
    rw [processNextPdu, hw, hr]
  | succ fuel ih =>
    intro st hlen hg hj
    rw [processNackLoop]
    cases hnext : processNextPdu c tx ackSn n st with
    | none => exact ⟨hg, hj, hnext⟩
    | some st' =>
      have hturn := processNextPdu_turn hg.same hnext
      have hlt := nackTurn_length_lt hturn
      exact ih st' (by omega) (hturn.good hg) (hJ st st' hg hj hturn)

section

variable (hJ : ∀ st st', Good c tx st → J st → FinishTurn c tx ackSn st st' → J st')

include hJ

theorem finishWait_rule (l : List Segment) : ∀ st, st.curWait = l → Good c tx st → J st →
      Good c tx (finishWait c tx ackSn l st) ∧ J (finishWait c tx ackSn l st) := by
  induction l with
  | nil => exact fun st _ hg hj => ⟨hg, hj⟩
  | cons w rest ih =>
    intro st hw hg hj
    rw [finishWait, hg.same.snOf]
    split
    next hlt =>
      have hturn : FinishTurn c tx ackSn st (ackWait tx st w rest) :=
        .ackWait hw (decide_eq_true hlt)
      have hcur : (ackWait tx st w rest).curWait = rest := (freeAcked_fields _ _).2.1
      exact ih _ hcur (hturn.good hg) (hJ _ _ hg hj hturn)
    · exact ⟨hg, hj⟩

theorem finishRetx_rule (l : List Segment) : ∀ st, st.curRetx = l → Good c tx st → J st →
      Good c tx (finishRetx c tx ackSn l st) ∧ J (finishRetx c tx ackSn l st) := by
  induction l with
  | nil => exact fun st _ hg hj => ⟨hg, hj⟩
  | cons r rest ih =>
    intro st hr hg hj
    rw [finishRetx, hg.same.snOf]
    split
    next hlt =>
      have hturn : FinishTurn c tx ackSn st (ackRetx c st r rest) :=
        .ackRetx hr (decide_eq_true hlt)
      have hcur : (ackRetx c st r rest).curRetx = rest := (freeAcked_fields _ _).2.2.2.1
      exact ih _ hcur (hturn.good hg) (hJ _ _ hg hj hturn)
    · exact ⟨hg, hj⟩

end

theorem finishTurn_subset (h : FinishTurn c tx ackSn st st') :
    ∀ s ∈ st'.curWait ++ st'.curRetx, s ∈ st.curWait ++ st.curRetx := by
  intro s hs
  rw [List.mem_append] at hs ⊢
  cases h with
  | @ackWait w rest hw _ =>
    grind [freeAcked_fields, endWaitWithout, ackWait, List.mem_cons_of_mem, id]
  | @ackRetx r rest hr _ =>
    grind [freeAcked_fields, computePduHeaderSize, ackRetx, id, List.mem_cons_of_mem]

theorem good_start (h : TxInv c [] tx) : Good c tx (Walk.start tx) := by
  refine ⟨SameSdus.refl _, h.congr rfl rfl (SameSdus.refl _) rfl rfl rfl rfl rfl, Or.inl rfl, ?_,
    fun s hs => hs⟩
  intro a ha
  cases ha

variable {nacks : List Nack}

/-- **The rule of the walk.**  A property that every turn keeps, and that survives the change from
one NACK to the next, holds at the end; `done` are the NACKs already gone through. -/
theorem processLists_rule (ackSn : ℤ) (J : List Nack → Walk → Prop) (h : TxInv c [] tx)
    (hn : ∀ n ∈ nacks, InRange c.snModulus n.sn) (hstart : J [] (Walk.start tx))
    (hturn : ∀ done n rest st st', nacks = done ++ n :: rest → Good c tx st →
      Passed c tx done st → J done st → NackTurn c tx ackSn n st st' → J done st')
    (hnext : ∀ done n rest st, nacks = done ++ n :: rest → Good c tx st →
      Passed c tx (done ++ [n]) st → J done st → J (done ++ [n]) st)
    (hfinish : ∀ st st', Good c tx st → Passed c tx nacks st → J nacks st →
      FinishTurn c tx ackSn st st' → J nacks st') :
    Good c tx (processLists c tx ackSn nacks) ∧ J nacks (processLists c tx ackSn nacks) := by
  -- the fold over the NACKs, from any point on
  have hfold : ∀ rest done st, nacks = done ++ rest → Good c tx st → Passed c tx done st →
      J done st →
      Good c tx (rest.foldl (processNack c tx ackSn) st) ∧
      Passed c tx nacks (rest.foldl (processNack c tx ackSn) st) ∧
      J nacks (rest.foldl (processNack c tx ackSn) st) := by
    intro rest
    induction rest with
    | nil =>
      simp_all
    | cons n rest ih =>
      intro done st he hg hp hj
      have hnr : InRange c.snModulus n.sn := hn n (by rw [he]; simp)
      obtain ⟨hg', ⟨hp', hj'⟩, hnone⟩ := processNackLoop_rule (n := n)
        (J := fun st => Passed c tx done st ∧ J done st)
        (fun st st' hg hj ht => ⟨hj.1.turn ht, hturn done n rest st st' he hg hj.1 hj.2 ht⟩)
        _ st le_rfl hg ⟨hp, hj⟩
      have hdef := processNextPdu_none hg' hnr hnone
      have hp'' : Passed c tx (done ++ [n]) (processNack c tx ackSn st n) := by
        intro m hm s hs
        rcases List.mem_append.mp hm with hm | hm
        · exact hp' m hm s hs
        · obtain rfl := List.mem_singleton.mp hm
          exact hdef s hs
      refine ih (done ++ [n]) _ (by rw [he]; simp) hg' hp'' ?_
      exact hnext done n rest _ he hg' hp'' hj'
  obtain ⟨hg1, hp1, hj1⟩ := hfold nacks [] (Walk.start tx) rfl (good_start h)
    (fun n hn => by cases hn) hstart
  have hfin : ∀ st st', Good c tx st → (Passed c tx nacks st ∧ J nacks st) →
      FinishTurn c tx ackSn st st' → Passed c tx nacks st' ∧ J nacks st' := by
    intro st st' hg hj ht
    refine ⟨?_, hfinish st st' hg hj.1 hj.2 ht⟩
    intro m hm s hs
    exact hj.1 m hm s (finishTurn_subset ht s hs)
  obtain ⟨hg2, hj2⟩ := finishWait_rule hfin _ _ rfl hg1 ⟨hp1, hj1⟩
  obtain ⟨hg3, hj3⟩ := finishRetx_rule hfin _ _ rfl hg2 hj2
  exact ⟨hg3, hj3.2⟩

theorem processLists_good (ackSn : ℤ) (h : TxInv c [] tx)
    (hn : ∀ n ∈ nacks, InRange c.snModulus n.sn) :
    Good c tx (processLists c tx ackSn nacks) :=
  (processLists_rule ackSn (fun _ _ => True) h hn trivial (fun _ _ _ _ _ _ _ _ _ _ => trivial)
    (fun _ _ _ _ _ _ _ _ => trivial) (fun _ _ _ _ _ _ => trivial)).1

/-! ### The new `tx_next_ack` -/

theorem lowerTo_spec (tx : TxState) {sn : ℤ} (hsn : InRange c.snModulus sn)
    (hl : ∀ s ∈ l, InRange c.snModulus (snOf heap s)) :
    InRange c.snModulus (lowerTo c tx heap l sn) ∧
    modulusTx c tx (lowerTo c tx heap l sn) ≤ modulusTx c tx sn ∧
    ∀ s ∈ l.head?, modulusTx c tx (lowerTo c tx heap l sn) ≤ modulusTx c tx (snOf heap s) := by
  unfold lowerTo
  cases l with
  | nil => exact ⟨hsn, le_rfl, fun s hs => by cases hs⟩
  | cons t l =>
    dsimp only
    split
    next hlt =>
      rw [snCompareTx] at hlt
      grind
    · grind [snCompareTx]

/-- **The new `tx_next_ack`** is not above `tx_next`, `ack_sn` or the head of a list. -/
theorem newTxNextAck_spec (heap : Heap) {wl rl : List Segment}
    (hnext : InRange c.snModulus tx.txNext)
    (hack : InRange c.snModulus ackSn) (hwl : ∀ s ∈ wl, InRange c.snModulus (snOf heap s))
    (hrl : ∀ s ∈ rl, InRange c.snModulus (snOf heap s)) :
    InRange c.snModulus (newTxNextAck c tx ackSn wl rl heap) ∧
    modulusTx c tx (newTxNextAck c tx ackSn wl rl heap) ≤ modulusTx c tx tx.txNext ∧
    modulusTx c tx (newTxNextAck c tx ackSn wl rl heap) ≤ modulusTx c tx ackSn ∧
    (∀ s ∈ wl.head?,
      modulusTx c tx (newTxNextAck c tx ackSn wl rl heap) ≤ modulusTx c tx (snOf heap s)) ∧
    ∀ s ∈ rl.head?,
      modulusTx c tx (newTxNextAck c tx ackSn wl rl heap) ≤ modulusTx c tx (snOf heap s) := by
  obtain ⟨h1, h2, h3⟩ := lowerTo_spec tx hnext hwl
  obtain ⟨h4, h5, h6⟩ := lowerTo_spec tx h1 hrl
  unfold newTxNextAck
  dsimp only
  split
  next hlt =>
    rw [snCompareTx] at hlt
    refine ⟨hack, by omega, le_rfl, ?_, ?_⟩
    · grind
    · grind
  · grind [snCompareTx]

theorem key_le_rebase {base base' : ℤ}
    (hb : InRange c.snModulus base) (hb' : InRange c.snModulus base')
    (ha : InRange c.snModulus (snOf heap a)) (hbs : InRange c.snModulus (snOf heap b))
    (hla : dist c.snModulus base base' ≤ dist c.snModulus base (snOf heap a))
    (hlb : dist c.snModulus base base' ≤ dist c.snModulus base (snOf heap b))
    (h : key c base heap a ≤ key c base heap b) : key c base' heap a ≤ key c base' heap b := by
  rw [key_le] at h ⊢
  rw [dist_rebase ha hb hb', dist_rebase hbs hb hb', if_pos hla, if_pos hlb]
  omega

/-- **Moving `tx_next_ack`** up to the smallest SN of the lists or less. -/
theorem TxInv.rebase (h : TxInv c [] tx) (hb : InRange c.snModulus tx'.txNextAck)
    (hmin : ∀ s ∈ tx.waitList ++ tx.retransmitList, modulusTx c tx tx'.txNextAck ≤
      modulusTx c tx (snOf tx.heap s))
    (hn : tx'.txNext = tx.txNext) (hh : tx'.heap = tx.heap) (ht : tx'.txList = tx.txList)
    (hw : tx'.waitList = tx.waitList) (hr : tx'.retransmitList = tx.retransmitList)
    (hte : tx'.txEnd = tx.txEnd) (hwe : tx'.waitEnd = tx.waitEnd) : TxInv c [] tx' := by
  have hsort : ∀ l : List Segment, (∀ s ∈ l, s ∈ tx.waitList ++ tx.retransmitList) →
      SortedBy (key c tx.txNextAck tx.heap) l → SortedBy (key c tx'.txNextAck tx.heap) l := by
    intro l hl hs
    have hir : ∀ s ∈ l, InRange c.snModulus (snOf tx.heap s) := by
      intro s hs
      rcases List.mem_append.mp (hl s hs) with hm | hm
      · exact h.wait_inRange hm
      · exact h.retx_inRange hm
    refine List.Pairwise.imp_of_mem ?_ hs
    intro a b ha hb' hab
    exact key_le_rebase h.txNextAck hb (hir a ha) (hir b hb') (hmin a (hl a ha)) (hmin b (hl b hb'))
      hab
  exact h.relist hn hb (by rw [hh]; exact SameSdus.refl _) ht hte [] (by rw [hw, hr]; rfl)
    (by rw [hw]; exact hsort _ (fun s hs => List.mem_append_left _ hs) h.waitSorted)
    (by rw [hr]; exact hsort _ (fun s hs => List.mem_append_right _ hs) h.retxSorted)
    (by rw [hwe, hw]; exact h.waitEnd)

theorem modulusTx_head_le (hs : SortedBy (key c tx.txNextAck tx.heap) l) {b : ℤ}
    (hb : ∀ s ∈ l.head?, modulusTx c tx b ≤ modulusTx c tx (snOf tx.heap s)) :
    ∀ s ∈ l, modulusTx c tx b ≤ modulusTx c tx (snOf tx.heap s) := by
  intro s hm
  cases l with
  | nil => cases hm
  | cons t l =>
    have ht := hb t rfl
    rcases List.mem_cons.mp hm with rfl | hm
    · exact ht
    · have hle := key_le.mp ((sortedBy_cons.mp hs).1 s hm)
      grind [modulusTx_eq]

theorem expand_inRange (hc : c.Ok) (s : StatusPdu) :
    ∀ n ∈ s.expand c, InRange c.snModulus n.sn := by
  intro n hn
  obtain ⟨b, _, hb⟩ := List.mem_flatMap.mp hn
  obtain ⟨i, _, rfl⟩ := List.mem_map.mp hb
  exact inRange_emod hc.modulus_pos

theorem newTxNextAck_min (hg : Good c tx st) (hack : InRange c.snModulus ackSn) :
    InRange c.snModulus (newTxNextAck c tx ackSn (st.toTx tx).waitList (st.toTx tx).retransmitList
      (st.toTx tx).heap) ∧
    ∀ s ∈ (st.toTx tx).waitList ++ (st.toTx tx).retransmitList,
      modulusTx c tx (newTxNextAck c tx ackSn (st.toTx tx).waitList (st.toTx tx).retransmitList
        (st.toTx tx).heap) ≤ modulusTx c tx (snOf st.heap s) := by
  have hinv := hg.inv
  obtain ⟨hin, _, _, hw, hr⟩ := newTxNextAck_spec (st.toTx tx).heap hinv.txNext hack
    (fun s hs => hinv.wait_inRange hs) (fun s hs => hinv.retx_inRange hs)
  refine ⟨hin, ?_⟩
  exact List.forall_mem_append.mpr
    ⟨modulusTx_head_le hinv.waitSorted hw, modulusTx_head_le hinv.retxSorted hr⟩

/-- **A STATUS PDU** keeps the invariant. -/
theorem processStatus_inv {s : StatusPdu} (hc : c.Ok) (h : TxInv c [] tx)
    (hack : InRange c.snModulus s.ackSn) : TxInv c [] (processStatus c tx s).1 := by
  have hg := processLists_good s.ackSn h (expand_inRange hc s)
  obtain ⟨hin, hmin⟩ := newTxNextAck_min hg hack
  exact hg.inv.rebase hin hmin rfl rfl rfl rfl rfl rfl rfl

end

/-! ### Every call -/

theorem decodeStatus_ackSn {c : Config} (hc : c.Ok) {buffer : List UInt8} {s : StatusPdu}
    (h : decodeStatus c buffer = some s) : InRange c.snModulus s.ackSn := by
  unfold decodeStatus at h
  simp only [Option.bind_eq_bind, Option.bind_eq_some_iff] at h
  obtain ⟨⟨dc, d₁⟩, h1, ⟨cpt, d₂⟩, h2, h⟩ := h
  split at h
  · cases h
  · simp only [Option.bind_eq_some_iff, Option.pure_def, Option.some.injEq] at h
    obtain ⟨⟨ack, d₃⟩, h3, ⟨e1, d₄⟩, _, ⟨_, d₅⟩, _, nacks, _, rfl⟩ := h
    have hb1 := (getBits_spec (Nat.zero_lt_succ 7) h1).1.bit
    have hlt := getBits_lt (getBits_spec hb1 h2).1.bit h3
    refine ⟨Int.natCast_nonneg _, ?_⟩
    rw [hc.modulus]
    exact_mod_cast hlt

/-- The STATUS PDU that a call receives and does not discard. -/
def Receives (e : Entity) (i : Input) (s : StatusPdu) : Prop :=
  ∃ buffer d, i = .recvPdu buffer ∧ getBits (Decoder.init buffer) 1 = some (0, d) ∧
    decodeStatus e.cfg buffer = some s ∧ validStatus e.cfg e.tx s = true

theorem processControlPdu_cases (c : Config) (tx : TxState) (buffer : List UInt8) :
    processControlPdu c tx buffer = (tx, []) ∨
    ∃ s, decodeStatus c buffer = some s ∧ validStatus c tx s = true ∧
      processControlPdu c tx buffer = processStatus c tx s := by
  unfold processControlPdu
  split
  · exact Or.inl rfl
  · grind

/-- What a call does to the transmitting side. -/
inductive TxCall (e : Entity) : Input → TxState → Prop
  | idle {i : Input} : TxCall e i e.tx
  | accept {buffer : List UInt8} {sduId : ℤ} : e.tx.txSize + buffer.length ≤ e.cfg.txMaxsize →
      buffer.length ≤ nrSduMax → TxCall e (.recvSdu buffer sduId) (pushSdu e.cfg e.tx buffer sduId)
  | send {size : ℕ} {tx : TxState} {pdu : List UInt8} :
      generateTxPdu e.cfg e.tCurrent e.tx size = .ok (tx, pdu) → TxCall e (.generatePdu size) tx
  | resend {size : ℕ} {tx : TxState} {pdu : List UInt8} :
      generateRetxPdu e.cfg e.tCurrent e.tx size = .ok (tx, pdu) → TxCall e (.generatePdu size) tx
  | status {i : Input} {s : StatusPdu} : Receives e i s → InRange e.cfg.snModulus s.ackSn →
      TxCall e i (processStatus e.cfg e.tx s).1
  | poll {now : UInt64} {tx : TxState} {ev : List Event} :
      checkTPollRetransmit e.cfg now e.tx = .ok (tx, ev) → TxCall e (.setTime now) tx
  | discard {sduId : ℤ} : TxCall e (.discardSdu sduId) (discardSdu e.cfg e.tx sduId)
  | clear : TxCall e .reestablishment (clearEntity e).tx

variable {e' : Entity} {o : Output}

theorem step_txCall (hc : e.cfg.Ok)
    (h : TxInv e.cfg [] e.tx) (hs : step e i = .ok (e', o)) : TxCall e i e'.tx := by
  cases step_call hs with
  | recvSdu hr =>
    rcases recvSdu_cases h hr with ⟨_, rfl⟩ | ⟨h1, h2, rfl⟩
    · exact .idle
    · exact .accept h1 h2
  | statusPdu _ _ => exact .idle
  | dataPdu _ hg =>
    rcases generateDataPdu_cases hc h hg with hg | hg
    · exact .send hg
    · exact .resend hg
  | recvNothing _ => exact .idle
  | @recvControl buffer d hd =>
    rcases processControlPdu_cases e.cfg e.tx buffer with he | ⟨s, hdec, hv, he⟩
    · rw [he]
      exact .idle
    · rw [he]
      exact .status ⟨buffer, d, rfl, hd, hdec, hv⟩ (decodeStatus_ackSn hc hdec)
  | recvData _ _ _ => exact .idle
  | setTime ht _ => exact .poll ht
  | discardSdu => exact .discard
  | reestablishment => exact .clear

theorem TxCall.data (hc : e.cfg.Ok)
    (h : TxInv e.cfg [] e.tx) (hfresh : ∀ size, i = .generatePdu size → NextSnFresh e.tx)
    (hcall : TxCall e i tx') :
    (∃ buffer sduId, i = .recvSdu buffer sduId ∧ tx' = pushSdu e.cfg e.tx buffer sduId) ∨
      SameData e.tx.heap tx'.heap := by
  cases hcall with
  | idle => exact Or.inr (SameData.refl _)
  | accept _ _ => exact Or.inl ⟨_, _, rfl, rfl⟩
  | send hg => exact Or.inr (generateTxPdu_data hc h (hfresh _ rfl) hg)
  | resend hg => exact Or.inr (generateRetxPdu_data h hg)
  | @status i s _ _ => exact Or.inr (processLists_good s.ackSn h (expand_inRange hc s)).same.toSameData
  | poll hp => exact Or.inr (checkTPollRetransmit_moved hp).sdus.toSameData
  | @discard sduId =>
    rcases discardSdu_cases h sduId with he | ⟨_, cur, _, _, _, _, he⟩
    · rw [he]
      exact Or.inr (SameData.refl _)
    · rw [he]
      exact Or.inr (sameSdus_free e.tx.heap cur).toSameData
  | clear =>
    exact Or.inr (((sameSdus_freeList _ _).trans (sameSdus_freeList _ _)).trans
      (sameSdus_freeList _ _)).toSameData

/-- **Every call keeps the invariant of the transmit lists**, as long as new SDUs get fresh SNs. -/
theorem step_txInv (hc : e.cfg.Ok)
    (h : TxInv e.cfg [] e.tx) (hfresh : ∀ size, i = .generatePdu size → NextSnFresh e.tx)
    (hs : step e i = .ok (e', o)) : TxInv e.cfg [] e'.tx := by
  have hcall := step_txCall hc h hs
  generalize e'.tx = tx' at hcall ⊢
  cases hcall with
  | idle => exact h
  | accept _ _ => exact pushSdu_inv h _ _
  | send hg => exact generateTxPdu_inv hc h (hfresh _ rfl) hg
  | resend hg => exact generateRetxPdu_inv h hg
  | status _ hack => exact processStatus_inv hc h hack
  | poll hp => exact checkTPollRetransmit_inv h hp
  | discard => exact discardSdu_inv h _
  | clear => exact txInv_empty hc rfl rfl rfl rfl rfl rfl rfl

theorem entityNew_txInv {c : Config} (hc : c.Ok) : TxInv c [] (Entity.new c).tx :=
  txInv_empty hc rfl rfl rfl rfl rfl rfl rfl

end OaiGnb.Rlc.Am
