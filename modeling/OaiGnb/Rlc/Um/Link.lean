import OaiGnb.Rlc.Slice
import OaiGnb.Rlc.Um.Receive
import OaiGnb.Rlc.Um.Transmit
import Mathlib.Data.List.TakeWhile

/-!
# A UM link

A transmitting and a receiving UM entity with the same SN length, and between them a channel that
loses and reorders PDUs but neither alters nor duplicates them.

* `Link.step`: the calls of both users and of the channel.
* `Link.Intact`: what has been delivered are accepted SDUs, each at most once.
* `LinkInv`: every SDU has one first segment, which is in `tx_list`, in the channel, in `rx_list`
  or delivered; everything in the channel and in `rx_list` is a slice of an accepted SDU.
* `reachable_intact`: integrity of every run with fewer than `window_size` segmented SDUs.
-/

namespace OaiGnb.Rlc.Um

open Run

/-! ### The system -/

/-- The SDU a `deliver_sdu` call hands over. -/
def Event.sdu : Event → List UInt8
  | .deliverSdu sdu => sdu

/-- Is this PDU the first segment of an SDU that is sent in segments? -/
def isFirstSegment (pdu : List UInt8) : Bool :=
  match decodeSi (Decoder.init pdu) with
  | none => false
  | some (isFirst, isLast, _) => isFirst && !isLast

/-- The two entities, the PDUs in the channel, and the record of the run: the SDUs accepted and
delivered so far and the number of SDUs that were sent in segments. -/
structure Link where
  tx : Entity
  rx : Entity
  inFlight : List (List UInt8)
  accepted : List (List UInt8)
  delivered : List (List UInt8)
  segmented : ℕ

/-- Nothing accepted, nothing sent. -/
def Link.new (tx rx : Entity) : Link := ⟨tx, rx, [], [], [], 0⟩

/-- What can happen: calls of the transmitting entity, the arrival or the loss of one of the PDUs
in the channel, and calls of the receiving entity. -/
inductive LinkInput where
  | accept (buffer : List UInt8) (sduId : ℤ)
  | discard (sduId : ℤ)
  | grant (size : ℕ)
  | arrive (n : ℕ)
  | lose (n : ℕ)
  | setTime (now : UInt64)
  deriving Repr, DecidableEq

/-- One event of the link. -/
def Link.step (l : Link) : LinkInput → Except Fault (Link × Unit)
  | .accept buffer sduId => do
      let (tx, _) ← Um.step l.tx (.recvSdu buffer sduId)
      return ({ l with
        tx := tx
        accepted := l.accepted ++ acceptedBy l.tx (.recvSdu buffer sduId) }, ())
  | .discard sduId => do
      let (tx, _) ← Um.step l.tx (.discardSdu sduId)
      return ({ l with tx := tx }, ())
  | .grant size => do
      let (tx, o) ← Um.step l.tx (.generatePdu size)
      return ({ l with
        tx := tx
        inFlight := l.inFlight ++ (if o.pdu = [] then [] else [o.pdu])
        segmented := l.segmented + (isFirstSegment o.pdu).toNat }, ())
  | .arrive n =>
      match l.inFlight[n]? with
      | none => return (l, ())
      | some pdu => do
          let (rx, o) ← Um.step l.rx (.recvPdu pdu)
          return ({ l with
            rx := rx
            inFlight := l.inFlight.eraseIdx n
            delivered := l.delivered ++ o.events.map Event.sdu }, ())
  | .lose n => return ({ l with inFlight := l.inFlight.eraseIdx n }, ())
  | .setTime now => do
      let (rx, _) ← Um.step l.rx (.setTime now)
      return ({ l with rx := rx }, ())

/-- **Integrity.**  `idx` are the positions, in the list of accepted SDUs, of the delivered ones:
every delivered SDU is the accepted one byte for byte, and no accepted SDU is delivered twice. -/
def Link.Intact (l : Link) : Prop :=
  ∃ idx : List ℕ, idx.Nodup ∧ l.delivered.map some = idx.map (fun i => l.accepted[i]?)

/-! ### The invariant -/

/-- A PDU in the channel, with what it carries and the SDU it belongs to. -/
structure Flight where
  pdu : List UInt8
  piece : Piece
  sdu : ℕ

/-- The PDU in the channel is a slice of its SDU; a segment carries an SN that is the SDU's. -/
structure Carries (c : Config) (accepted : List (List UInt8)) (owner : List ℕ) (f : Flight) :
    Prop where
  parse : parsePdu c f.pdu = some f.piece
  slice : ∃ data, accepted[f.sdu]? = some data ∧
    Slice data f.piece.so f.piece.isFirst f.piece.isLast f.piece.data
  owned : ∀ sn, f.piece.sn = some sn → owner[sn]? = some f.sdu

/-- A PDU in `rx_list` belongs to the SDU that owns its SN: it has been consumed and the SDU
delivered, or it holds a slice of the SDU. -/
def StoredFor (accepted : List (List UInt8)) (owner idx : List ℕ) (p : Pdu) : Prop :=
  0 ≤ p.sn ∧ ∃ i data, owner[p.sn.toNat]? = some i ∧ accepted[i]? = some data ∧
    (p.data = none ∧ i ∈ idx ∨ p.IsSlice data)

/-- The SDU that owns an SN. -/
def ownerOf (owner : List ℕ) (sn : ℤ) : ℕ := owner.getD sn.toNat 0

/-- The SDUs whose first segment is in `tx_list`. -/
def txFirsts (l : List Segment) : List ℕ := (l.filter (fun s => s.isFirst)).map Segment.sdu

/-- The SDUs whose first segment is in the channel. -/
def flightFirsts (l : List Flight) : List ℕ := (l.filter (fun f => f.piece.isFirst)).map Flight.sdu

/-- The SDUs whose first segment is in `rx_list` and not consumed. -/
def storedFirsts (owner : List ℕ) (l : List Pdu) : List ℕ :=
  (l.filter (fun p => p.isFirst && p.data.isSome)).map (fun p => ownerOf owner p.sn)

/-- How often the first segment of SDU `i` is somewhere on the link, or delivered. -/
def firstsOf (tx : List Segment) (flights : List Flight) (owner : List ℕ) (rx : List Pdu)
    (idx : List ℕ) (i : ℕ) : ℕ :=
  (txFirsts tx).count i + (flightFirsts flights).count i + (storedFirsts owner rx).count i
    + idx.count i

/-- The SDU at the head of `tx_list`, when a part of it has been sent. -/
def opened : List Segment → List ℕ
  | [] => []
  | s :: _ => if s.isFirst then [] else [s.sdu]

/-- A segment of `tx_list`: the not yet sent end of its SDU. -/
structure Queued (heap : Heap) (s : Segment) : Prop where
  alloc : s.sdu < heap.sduTop
  bytes : s.so + s.size = (sduData heap s).length
  isFirst : s.isFirst = decide (s.so = 0)
  isLast : s.isLast = true

/-- The transmitting side of the link: SDU `i` of the heap is the `i`-th accepted one, and `closed`
are the SDUs that have been sent in segments, in the order of their SNs. -/
structure LinkTx (tx : TxState) (accepted : List (List UInt8)) (closed : List ℕ) : Prop where
  wf : tx.WF
  top : tx.heap.sduTop = accepted.length
  data : ∀ i < accepted.length, accepted[i]? = some (tx.heap.sdu i).data
  max : ∀ b ∈ accepted, b.length ≤ nrSduMax
  queued : ∀ s ∈ tx.txList, Queued tx.heap s
  unsent : ∀ s ∈ tx.txList.tail, s.isFirst = true
  next : tx.txNext = closed.length

/-- **The invariant of a link.** -/
structure LinkInv (l : Link) (closed : List ℕ) (flights : List Flight) (idx : List ℕ) : Prop where
  sane : l.tx.cfg.Sane
  same : l.rx.cfg.snFieldLength = l.tx.cfg.snFieldLength
  window : l.rx.cfg.windowSize < l.tx.cfg.snModulus
  tx : LinkTx l.tx.tx l.accepted closed
  segmented : l.segmented = (closed ++ opened l.tx.tx.txList).length
  inFlight : l.inFlight = flights.map Flight.pdu
  carries : ∀ f ∈ flights, Carries l.rx.cfg l.accepted (closed ++ opened l.tx.tx.txList) f
  stored : ∀ p ∈ l.rx.rx.rxList,
    StoredFor l.accepted (closed ++ opened l.tx.tx.txList) idx p
  once : ∀ i, firstsOf l.tx.tx.txList flights (closed ++ opened l.tx.tx.txList)
    l.rx.rx.rxList idx i ≤ 1
  known : ∀ i, 0 < firstsOf l.tx.tx.txList flights (closed ++ opened l.tx.tx.txList)
    l.rx.rx.rxList idx i → i < l.accepted.length
  delivered : l.delivered.map some = idx.map (fun i => l.accepted[i]?)

variable {l l' : Link} {closed closed' idx : List ℕ} {flights : List Flight}

theorem LinkInv.intact (h : LinkInv l closed flights idx) : l.Intact := by
  refine ⟨idx, List.nodup_iff_count_le_one.mpr ?_, h.delivered⟩
  intro i
  have := h.once i
  unfold firstsOf at this
  omega

/-! ### The receiving side -/

theorem storedFirsts_append (owner : List ℕ) (l l' : List Pdu) :
    storedFirsts owner (l ++ l') = storedFirsts owner l ++ storedFirsts owner l' := by
  rw [storedFirsts, List.filter_append, List.map_append]
  rfl

theorem storedFirsts_sublist (owner : List ℕ) {l l' : List Pdu} (h : l'.Sublist l) (i : ℕ) :
    (storedFirsts owner l').count i ≤ (storedFirsts owner l).count i :=
  ((h.filter _).map _).count_le i

theorem storedFirsts_perm (owner : List ℕ) {l l' : List Pdu} (h : l'.Perm l) (i : ℕ) :
    (storedFirsts owner l').count i = (storedFirsts owner l).count i :=
  ((h.filter _).map _).count_eq i

theorem storedFirsts_consume (owner : List ℕ) (l : List Pdu) :
    storedFirsts owner (l.map consume) = [] := by
  simp [storedFirsts, consume]

theorem consumeSdu_split (sn : ℤ) (l : List Pdu) :
    ∃ before after, l = before ++ (pdusOf sn l ++ after) ∧
      consumeSdu sn l = before ++ ((pdusOf sn l).map consume ++ after) := by
  refine ⟨l.takeWhile (fun p => p.sn ≠ sn),
    (l.dropWhile (fun p => p.sn ≠ sn)).dropWhile (fun p => p.sn = sn), ?_, ?_⟩
  · simp [pdusOf, List.takeWhile_append_dropWhile]
  · rw [consumeSdu, List.append_assoc]

variable {p : Pdu}

theorem sn_of_mem_pdusOf {sn : ℤ} {l : List Pdu} (h : p ∈ pdusOf sn l) : p.sn = sn := by
  have := List.mem_takeWhile_imp h
  simpa using this

theorem ownerOf_eq {owner : List ℕ} {sn : ℤ} {i : ℕ} (h : owner[sn.toNat]? = some i) :
    ownerOf owner sn = i := by
  rw [ownerOf, List.getD_eq_getElem?_getD, h, Option.getD_some]

theorem first_of_pdusFull {l : List Pdu} (h : pdusFull l = true) :
    ∃ p rest, l = p :: rest ∧ p.so = 0 ∧ p.data.isSome = true := by
  cases l with
  | nil => cases h
  | cons p rest =>
    refine ⟨p, rest, rfl, ?_, ?_⟩
    · simp_all [pdusFull, sduFullLoop, Bool.and_eq_true]
    · simp only [pdusFull, headConsumed, Bool.and_eq_true] at h
      simp_all

section Deliver

variable {accepted : List (List UInt8)} {owner idx : List ℕ} {l : List Pdu} {sn : ℤ} {i : ℕ}

/-- **A full SDU is delivered as it was accepted**, and its first segment moves from `rx_list` to
the delivered SDUs. -/
theorem deliver_full (hmax : ∀ b ∈ accepted, b.length ≤ nrSduMax)
    (hl : ∀ p ∈ l, StoredFor accepted owner idx p)
    (honce : (storedFirsts owner l).count i + idx.count i ≤ 1)
    (hi : owner[sn.toNat]? = some i) (hfull : pdusFull (pdusOf sn l) = true) :
    ∃ data, accepted[i]? = some data ∧ reassembleLoop (pdusOf sn l) false [] = (false, data) ∧
      ∀ j, (storedFirsts owner (consumeSdu sn l)).count j + [i].count j
        ≤ (storedFirsts owner l).count j := by
  obtain ⟨p, rest, hcons, hso, hlive⟩ := first_of_pdusFull hfull
  have hp : p ∈ pdusOf sn l := by rw [hcons]; exact List.mem_cons_self
  obtain ⟨_, i', data, hown, hdata, hp'⟩ := hl p (mem_pdusOf hp)
  rw [sn_of_mem_pdusOf hp, hi, Option.some.injEq] at hown
  subst hown
  have hslice : p.IsSlice data := by
    rcases hp' with ⟨hnone, _⟩ | hs
    · simp_all
    · exact hs
  have hfirst : p.isFirst = true := by
    obtain ⟨_, _, _, hs⟩ := hslice
    rw [hs.first, hso]
    rfl
  obtain ⟨before, after, hsplit, hcon⟩ := consumeSdu_split sn l
  -- the first segment is among the PDUs of the SDU
  have hrun : 1 ≤ (storedFirsts owner (pdusOf sn l)).count i := by
    rw [List.one_le_count_iff, storedFirsts, List.mem_map]
    refine ⟨p, List.mem_filter.mpr ⟨hp, by rw [hfirst, hlive]; rfl⟩, ?_⟩
    rw [sn_of_mem_pdusOf hp]
    exact ownerOf_eq hi
  have hcount : ∀ j, (storedFirsts owner l).count j = (storedFirsts owner before).count j
      + ((storedFirsts owner (pdusOf sn l)).count j + (storedFirsts owner after).count j) := by
    intro j
    rw [← List.count_append, ← storedFirsts_append, ← List.count_append, ← storedFirsts_append,
      ← hsplit]
  have hnot : i ∉ idx := by
    intro hmem
    have h1 := List.one_le_count_iff.mpr hmem
    have h2 := hcount i
    omega
  refine ⟨data, hdata, ?_, ?_⟩
  · have hall : ∀ q ∈ pdusOf sn l, q.IsSlice data := by
      intro q hq
      obtain ⟨_, i', data', hown, hdata', hq'⟩ := hl q (mem_pdusOf hq)
      rw [sn_of_mem_pdusOf hq, hi, Option.some.injEq] at hown
      subst hown
      rw [hdata, Option.some.injEq] at hdata'
      subst hdata'
      rcases hq' with ⟨_, hmem⟩ | hs
      · exact absurd hmem hnot
      · exact hs
    have hloop : sduFullLoop (pdusOf sn l) (((0 : ℕ) : ℤ) - 1) = true := by
      simp only [pdusFull, Bool.and_eq_true] at hfull
      exact hfull.2
    have := reassembleLoop_slices (hmax data (List.mem_of_getElem? hdata)) hall (Nat.zero_le _) hloop
    rwa [List.take_zero] at this
  · intro j
    rw [hcon, storedFirsts_append, storedFirsts_append, storedFirsts_consume, hcount,
      List.nil_append, List.count_append]
    by_cases hj : j = i
    · grind
    · grind

/-- A consumed PDU stays one when more SDUs are delivered. -/
theorem StoredFor.delivered (h : StoredFor accepted owner idx p) (i : ℕ) :
    StoredFor accepted owner (idx ++ [i]) p := by
  obtain ⟨h0, i', data, hown, hdata, hp'⟩ := h
  exact ⟨h0, i', data, hown, hdata,
    hp'.imp_left fun ⟨hnone, hmem⟩ => ⟨hnone, List.mem_append_left _ hmem⟩⟩

theorem stored_after_deliver (hl : ∀ p ∈ l, StoredFor accepted owner idx p)
    (hi : owner[sn.toNat]? = some i) (p : Pdu) (hp : p ∈ consumeSdu sn l) :
    StoredFor accepted owner (idx ++ [i]) p := by
  rcases mem_consumeSdu hp with h | ⟨q, hq, rfl⟩
  · exact (hl p h).delivered i
  · obtain ⟨h0, i', data, hown, hdata, _⟩ := hl q (mem_pdusOf hq)
    have hi' : i' = i := by
      rw [sn_of_mem_pdusOf hq, hi] at hown
      exact (Option.some.inj hown).symm
    subst hi'
    exact ⟨h0, i', data, hown, hdata, Or.inl ⟨rfl, List.mem_append_right _
      (List.mem_singleton_self _)⟩⟩

end Deliver

/-! ### Arrival of a PDU -/

variable {c c' : Config} {pdu : List UInt8} {tx : TxState} {sduId : ℤ} {seg : Segment}

theorem parsePdu_congr (h : c.snFieldLength = c'.snFieldLength)
    (pdu : List UInt8) : parsePdu c pdu = parsePdu c' pdu := by
  simp only [parsePdu, decodeHeader, skipReserved, h]

/-- **Reception of a PDU that parses.**  A complete SDU is delivered at once, unless it has no
bytes; a segment goes to `recvSegment`. -/
theorem recvPdu_of_parse {p : Piece} (now : UInt64) (rx : RxState) (h : parsePdu c pdu = some p) :
    ((p.isFirst && p.isLast) = true ∧
      (recvPdu c now rx pdu = .ok (rx, []) ∨
        recvPdu c now rx pdu = .ok (rx, [.deliverSdu p.data]))) ∨
    (p.isFirst && p.isLast) = false ∧ ∃ hd : Header, p.sn = some hd.sn ∧ hd.so = p.so ∧
      hd.isFirst = p.isFirst ∧ hd.isLast = p.isLast ∧ pdu.drop hd.byte = p.data ∧
      recvPdu c now rx pdu = recvSegment c now rx pdu hd := by
  unfold parsePdu at h
  unfold recvPdu
  cases hsi : decodeSi (Decoder.init pdu) with
  | none => simp [hsi] at h
  | some r =>
    obtain ⟨isFirst, isLast, d⟩ := r
    simp only [hsi, Option.bind_eq_bind, Option.bind_some] at h
    cases hfl : (isFirst && isLast) with
    | true =>
      simp only [hfl, if_true, Option.pure_def, Option.some.injEq] at h
      subst h
      refine Or.inl ⟨hfl, ?_⟩
      simp only [hfl, if_true]
      split
      · exact Or.inl rfl
      · exact Or.inr rfl
    | false =>
      simp only [hfl, Bool.false_eq_true, if_false] at h
      grind [decodeHeader, decodeHeader_flags]

/-- The receiving side changes: PDUs leave the channel, and each first segment stays at one
place. -/
theorem LinkInv.receive {idx' : List ℕ} {flights' : List Flight} {rx : Entity}
    {delivered : List (List UInt8)} (h : LinkInv l closed flights idx)
    (hcfg : rx.cfg = l.rx.cfg) (hsub : ∀ f ∈ flights', f ∈ flights)
    (hst : ∀ p ∈ rx.rx.rxList, StoredFor l.accepted (closed ++ opened l.tx.tx.txList) idx' p)
    (hle : ∀ i, firstsOf l.tx.tx.txList flights' (closed ++ opened l.tx.tx.txList) rx.rx.rxList
        idx' i ≤ firstsOf l.tx.tx.txList flights (closed ++ opened l.tx.tx.txList)
        l.rx.rx.rxList idx i)
    (hdel : delivered.map some = idx'.map (fun i => l.accepted[i]?)) :
    LinkInv { l with rx := rx, inFlight := flights'.map Flight.pdu, delivered := delivered }
      closed flights' idx' where
  sane := h.sane
  same := hcfg ▸ h.same
  window := hcfg ▸ h.window
  tx := h.tx
  segmented := h.segmented
  inFlight := rfl
  carries := fun f hf => hcfg ▸ h.carries f (hsub f hf)
  stored := hst
  once := fun i => (hle i).trans (h.once i)
  known := fun i hi => h.known i (hi.trans_le (hle i))
  delivered := hdel

theorem flightFirsts_perm {l l' : List Flight} (h : l.Perm l') (i : ℕ) :
    (flightFirsts l).count i = (flightFirsts l').count i :=
  ((h.filter _).map _).count_eq i

theorem flightFirsts_sublist {l l' : List Flight} (h : l'.Sublist l) (i : ℕ) :
    (flightFirsts l').count i ≤ (flightFirsts l).count i :=
  ((h.filter _).map _).count_le i

theorem flightFirsts_cons (f : Flight) (l : List Flight) :
    flightFirsts (f :: l) = (if f.piece.isFirst then [f.sdu] else []) ++ flightFirsts l := by
  grind [flightFirsts]

theorem LinkInv.stored_sublist (h : LinkInv l closed flights idx) {rxList : List Pdu}
    (hs : rxList.Sublist l.rx.rx.rxList) :
    (∀ p ∈ rxList, StoredFor l.accepted (closed ++ opened l.tx.tx.txList) idx p) ∧
    ∀ i, firstsOf l.tx.tx.txList flights (closed ++ opened l.tx.tx.txList) rxList idx i ≤
      firstsOf l.tx.tx.txList flights (closed ++ opened l.tx.tx.txList) l.rx.rx.rxList idx i := by
  refine ⟨fun p hp => h.stored p (hs.subset hp), fun i => ?_⟩
  simp_all [storedFirsts_sublist, opened, firstsOf]

variable {f : Flight}

/-- The list with an arrived segment stored: it holds what `rx_list` held and the slice that was
in the channel. -/
theorem LinkInv.stored_arrived {rest : List Flight} {hd : Header} (h : LinkInv l closed flights idx)
    (hperm : flights.Perm (f :: rest)) (hsn : f.piece.sn = some hd.sn) (hso : hd.so = f.piece.so)
    (hf : hd.isFirst = f.piece.isFirst) (hl : hd.isLast = f.piece.isLast) {n : ℤ} :
    (∀ p ∈ (l.rx.rx.stored c hd f.piece.data n).rxList,
      StoredFor l.accepted (closed ++ opened l.tx.tx.txList) idx p) ∧
    ∀ i, firstsOf l.tx.tx.txList rest (closed ++ opened l.tx.tx.txList)
        (l.rx.rx.stored c hd f.piece.data n).rxList idx i =
      firstsOf l.tx.tx.txList flights (closed ++ opened l.tx.tx.txList) l.rx.rx.rxList idx i := by
  have hc := h.carries f (hperm.mem_iff.mpr List.mem_cons_self)
  have hown := hc.owned hd.sn hsn
  obtain ⟨data, hdata, hslice⟩ := hc.slice
  constructor
  · intro p hp
    rcases SortedList.mem_insertBefore.mp hp with rfl | hp
    · refine ⟨Int.natCast_nonneg _, f.sdu, data, hown, hdata, Or.inr ⟨f.piece.data, rfl, rfl, ?_⟩⟩
      show Slice data hd.so hd.isFirst hd.isLast f.piece.data
      simp_all
    · exact h.stored p hp
  · intro i
    have hperm' : (l.rx.rx.stored c hd f.piece.data n).rxList.Perm
        ([nrRlcNewPdu hd.sn hd.so hd.isFirst hd.isLast f.piece.data] ++ l.rx.rx.rxList) :=
      SortedList.insertBefore_perm _ _ _
    have hins := storedFirsts_perm (closed ++ opened l.tx.tx.txList) hperm' i
    have hnew : storedFirsts (closed ++ opened l.tx.tx.txList)
        [nrRlcNewPdu hd.sn hd.so hd.isFirst hd.isLast f.piece.data]
        = if f.piece.isFirst then [f.sdu] else [] := by
      have ho := @ownerOf_eq _ hd.sn _ hown
      simp only [storedFirsts, nrRlcNewPdu, hf, List.filter_cons, List.filter_nil]
      cases f.piece.isFirst <;> simp [ho]
    grind [storedFirsts_append, flightFirsts_perm, flightFirsts_cons, firstsOf]

/-- **A PDU arrives.** -/
theorem arrive_inv {n : ℕ} (h : LinkInv l closed flights idx) (hs : l.step (.arrive n) = .ok (l',
    ())) :
    ∃ flights' idx', LinkInv l' closed flights' idx' := by
  cases hn : l.inFlight[n]? with
  | none =>
    simp only [Link.step, hn, pure_eq_ok, Except.ok.injEq, Prod.mk.injEq, and_true] at hs
    grind
  | some pdu =>
    simp only [Link.step, hn] at hs
    obtain ⟨⟨e, o⟩, he, hs⟩ := bind_returns.mp hs
    obtain ⟨⟨rx, ev⟩, hrecv, rfl, rfl⟩ := bind_pair_inj he
    obtain ⟨rfl, _⟩ := ok_inj hs
    dsimp only
    -- the PDU that leaves the channel
    obtain ⟨f, hf, rfl⟩ : ∃ f, flights[n]? = some f ∧ f.pdu = pdu := by
      rw [h.inFlight, List.getElem?_map, Option.map_eq_some_iff] at hn
      exact hn
    obtain ⟨hlt, hget⟩ := List.getElem?_eq_some_iff.mp hf
    have hperm : flights.Perm (f :: flights.eraseIdx n) := by
      have := List.getElem_cons_eraseIdx_perm hlt
      rw [hget] at this
      exact this.symm
    have hsub : ∀ g ∈ flights.eraseIdx n, g ∈ flights := fun g hg => List.mem_of_mem_eraseIdx hg
    have hc := h.carries f (List.mem_of_getElem? hf)
    obtain ⟨data, hdata, hslice⟩ := hc.slice
    rw [h.inFlight, List.eraseIdx_map]
    -- a PDU without effect only leaves the channel
    have hdrop : ∀ rx : RxState, rx.rxList = l.rx.rx.rxList →
        LinkInv { l with
          rx := { l.rx with rx := rx }
          inFlight := (flights.eraseIdx n).map Flight.pdu
          delivered := l.delivered } closed (flights.eraseIdx n) idx := by
      intro rx hrx
      refine h.receive rfl hsub (by rw [hrx]; exact h.stored) ?_ h.delivered
      intro i
      have := flightFirsts_sublist (List.eraseIdx_sublist flights n) i
      unfold firstsOf
      rw [hrx]
      omega
    rcases recvPdu_of_parse l.rx.tCurrent l.rx.rx hc.parse with
      ⟨hfl, hr | hr⟩ | ⟨_, hd, hsn, hso, hfirst, hlast, hbytes, hr⟩
    · grind
    · obtain ⟨rfl, rfl⟩ := ok_inj (hrecv.symm.trans hr)
      obtain ⟨h1, h2⟩ := Bool.and_eq_true_iff.mp hfl
      refine ⟨_, idx ++ [f.sdu], h.receive rfl hsub ?_ ?_ ?_⟩
      · exact fun p hp => (h.stored p hp).delivered f.sdu
      · intro i
        have hcount := flightFirsts_perm hperm i
        rw [flightFirsts_cons, h1, if_pos rfl, List.count_append] at hcount
        grind [firstsOf]
      · rw [h1, h2] at hslice
        simp only [List.map_append, h.delivered, List.map_cons, List.map_nil, Event.sdu, hdata,
          hslice.complete]
    · rw [hrecv] at hr
      obtain ⟨hst, hcount⟩ := h.stored_arrived (c := l.rx.cfg)
        (n := (f.pdu.length : ℤ) - hd.byte) hperm hsn hso hfirst hlast
      rcases recvSegment_cases hr.symm with ⟨hlist, rfl⟩ | ⟨rx₁, hrx₁, ⟨hsuf, rfl⟩ | ⟨hfull, hlist,
        rfl⟩⟩
      · grind
      · rw [hbytes] at hrx₁
        subst hrx₁
        refine ⟨flights.eraseIdx n, idx, ?_⟩
        rw [List.map_nil, List.append_nil]
        refine h.receive rfl hsub (fun p hp => hst p (hsuf.subset hp)) ?_ h.delivered
        intro i
        have := storedFirsts_sublist (closed ++ opened l.tx.tx.txList) hsuf.sublist i
        grind [firstsOf]
      · rw [hbytes] at hrx₁
        subst hrx₁
        have hown := hc.owned hd.sn hsn
        have honce := h.once f.sdu
        rw [← hcount f.sdu] at honce
        obtain ⟨data', hdata', hre, hmove⟩ := @deliver_full _ _ _ _ hd.sn f.sdu h.tx.max hst
          (by unfold firstsOf at honce; omega) hown hfull
        rw [hdata, Option.some.injEq] at hdata'
        subst hdata'
        refine ⟨_, idx ++ [f.sdu], h.receive rfl hsub ?_ ?_ ?_⟩
        · rw [hlist]
          exact @stored_after_deliver _ _ _ _ hd.sn f.sdu hst hown
        · grind [firstsOf]
        · simp only [reassembleAndDeliver, hre, Bool.false_eq_true, if_false, List.map_append,
            h.delivered, List.map_cons, List.map_nil, Event.sdu, hdata]

/-! ### The transmitting side -/

theorem txFirsts_append (l l' : List Segment) :
    txFirsts (l ++ l') = txFirsts l ++ txFirsts l' := by
  rw [txFirsts, List.filter_append, List.map_append]
  rfl

theorem txFirsts_cons (s : Segment) (l : List Segment) :
    txFirsts (s :: l) = (if s.isFirst then [s.sdu] else []) ++ txFirsts l := by
  grind [txFirsts]

theorem opened_of_first {l : List Segment} (h : ∀ s ∈ l, s.isFirst = true) : opened l = [] := by
  cases l with
  | nil => rfl
  | cons s rest => rw [opened, if_pos (h s List.mem_cons_self)]

variable {accepted : List (List UInt8)}

theorem storedFirsts_extend {owner idx : List ℕ} {l : List Pdu}
    (h : ∀ p ∈ l, StoredFor accepted owner idx p) (ext : List ℕ) :
    storedFirsts (owner ++ ext) l = storedFirsts owner l := by
  refine List.map_congr_left ?_
  intro p hp
  obtain ⟨_, i, data, hown, _⟩ := h p (List.mem_of_mem_filter hp)
  grind [ownerOf_eq, List.getElem?_append_left]

theorem StoredFor.extend {owner idx : List ℕ}
    (h : StoredFor accepted owner idx p) (more : List (List UInt8)) (ext : List ℕ) :
    StoredFor (accepted ++ more) (owner ++ ext) idx p := by
  obtain ⟨h0, i, data, hown, hdata, hp⟩ := h
  have h1 := (List.getElem?_eq_some_iff.mp hown).1
  have h2 := (List.getElem?_eq_some_iff.mp hdata).1
  exact ⟨h0, i, data, by rw [List.getElem?_append_left h1]; exact hown,
    by rw [List.getElem?_append_left h2]; exact hdata, hp⟩

theorem Carries.extend {owner : List ℕ}
    (h : Carries c accepted owner f) (more : List (List UInt8)) (ext : List ℕ) :
    Carries c (accepted ++ more) (owner ++ ext) f := by
  obtain ⟨data, hdata, hs⟩ := h.slice
  have h2 := (List.getElem?_eq_some_iff.mp hdata).1
  refine ⟨h.parse, ⟨data, by rw [List.getElem?_append_left h2]; exact hdata, hs⟩, ?_⟩
  intro sn hsn
  have hown := h.owned sn hsn
  grind

variable {e : Entity}

/-- The transmitting side changes: PDUs enter the channel, each first segment from `tx_list`, and
SNs get owners. -/
theorem LinkInv.transmit {segmented : ℕ} (h : LinkInv l closed flights idx) (ext : List ℕ)
    (new : List Flight) (hcfg : e.cfg = l.tx.cfg) (htx : LinkTx e.tx l.accepted closed')
    (how : closed' ++ opened e.tx.txList = (closed ++ opened l.tx.tx.txList) ++ ext)
    (hseg : segmented = l.segmented + ext.length)
    (hnew : ∀ f ∈ new, Carries l.rx.cfg l.accepted (closed' ++ opened e.tx.txList) f)
    (hle : ∀ i, (txFirsts e.tx.txList).count i + (flightFirsts new).count i
      ≤ (txFirsts l.tx.tx.txList).count i) :
    LinkInv { l with
      tx := e
      inFlight := l.inFlight ++ new.map Flight.pdu
      segmented := segmented } closed' (flights ++ new) idx := by
  have hcount : ∀ i, firstsOf e.tx.txList (flights ++ new) (closed' ++ opened e.tx.txList)
      l.rx.rx.rxList idx i ≤ firstsOf l.tx.tx.txList flights
        (closed ++ opened l.tx.tx.txList) l.rx.rx.rxList idx i := by
    intro i
    have hfl : (flightFirsts (flights ++ new)).count i
        = (flightFirsts flights).count i + (flightFirsts new).count i := by
      rw [flightFirsts, List.filter_append, List.map_append, List.count_append]
      rfl
    have := hle i
    unfold firstsOf
    rw [how, storedFirsts_extend h.stored, hfl]
    omega
  refine ⟨hcfg ▸ h.sane, hcfg ▸ h.same, hcfg ▸ h.window, htx, ?_, ?_, ?_, ?_, ?_, ?_, h.delivered⟩
  · rw [how, List.length_append, ← h.segmented]
    exact hseg
  · rw [h.inFlight, List.map_append]
  · intro f hf
    rcases List.mem_append.mp hf with hf | hf
    · have := (h.carries f hf).extend [] ext
      simp_all
    · exact hnew f hf
  · intro p hp
    have := (h.stored p hp).extend [] ext
    simp_all
  · exact fun i => (hcount i).trans (h.once i)
  · exact fun i hi => h.known i (hi.trans_le (hcount i))

/-- `tx_list` changes and no PDU is sent. -/
theorem LinkInv.requeue (h : LinkInv l closed flights idx) (htx : LinkTx tx l.accepted closed)
    (hopen : opened tx.txList = opened l.tx.tx.txList)
    (hle : ∀ i, (txFirsts tx.txList).count i ≤ (txFirsts l.tx.tx.txList).count i) :
    LinkInv { l with tx := { l.tx with tx := tx } } closed flights idx := by
  have hinv := h.transmit (e := { l.tx with tx := tx }) [] [] rfl htx
    (by rw [List.append_nil, hopen]) rfl (List.forall_mem_nil _) hle
  simpa using hinv

theorem SameData.queued {heap heap' : Heap} {s : Segment} (h : SameData heap heap')
    (hq : Queued heap s) : Queued heap' s :=
  ⟨h.sduTop ▸ hq.alloc, by rw [h.sduData]; exact hq.bytes, hq.isFirst, hq.isLast⟩

theorem LinkTx.change {tx' : TxState}
    (h : LinkTx tx accepted closed) (hd : SameData tx.heap tx'.heap) (hwf : tx'.WF)
    (hq : ∀ s ∈ tx'.txList, Queued tx.heap s) (hu : ∀ s ∈ tx'.txList.tail, s.isFirst = true)
    (hn : tx'.txNext = closed'.length) : LinkTx tx' accepted closed' where
  wf := hwf
  top := hd.sduTop.trans h.top
  data := fun i hi => by rw [hd.data]; exact h.data i hi
  max := h.max
  queued := fun s hs => hd.queued (hq s hs)
  unsent := hu
  next := hn

theorem isFirstSegment_nil : isFirstSegment [] = false := rfl

theorem isFirstSegment_of_parse {p : Piece}
    (h : parsePdu c pdu = some p) : isFirstSegment pdu = (p.isFirst && !p.isLast) := by
  unfold parsePdu at h
  unfold isFirstSegment
  cases hsi : decodeSi (Decoder.init pdu) with
  | none => simp [hsi] at h
  | some r =>
    obtain ⟨isFirst, isLast, d⟩ := r
    simp only [hsi, Option.bind_eq_bind, Option.bind_some] at h
    cases hfl : (isFirst && isLast) with
    | true =>
      grind
    | false =>
      simp only [hfl, Bool.false_eq_true, if_false, Option.bind_eq_some_iff, Option.pure_def,
        Option.some.injEq] at h
      grind [decodeHeader_flags]

/-- **An SDU is discarded.** -/
theorem discard_inv (h : LinkInv l closed flights idx)
    (hs : l.step (.discard sduId) = .ok (l', ())) :
    LinkInv l' closed flights idx := by
  obtain ⟨⟨e, o⟩, he, hs⟩ := bind_returns.mp hs
  obtain ⟨rfl, rfl⟩ := ok_inj he
  obtain ⟨rfl, _⟩ := ok_inj hs
  rcases @discardSdu_cases l.tx.cfg l.tx.tx sduId h.tx.wf with heq |
    ⟨cur, before, after, _, hfirst, _, hl, hwf, _, heq⟩
  · simp_all
  · have hlist : (discardSdu l.tx.cfg l.tx.tx sduId).txList = before ++ after := by rw [heq]
    have hmem : ∀ s ∈ before ++ after, s ∈ l.tx.tx.txList := by
      intro s hs
      rw [hl]
      rcases List.mem_append.mp hs with hs | hs
      · exact List.mem_append_left _ hs
      · simp_all
    have hunsent := h.tx.unsent
    rw [hl] at hunsent
    have hu : ∀ s ∈ (before ++ after).tail, s.isFirst = true := by
      intro s hs
      refine hunsent s ?_
      cases before with
      | nil => exact List.mem_of_mem_tail hs
      | cons b before =>
        grind
    have hopen : opened (before ++ after) = opened l.tx.tx.txList := by
      rw [hl]
      cases before with
      | nil =>
        have : ∀ s ∈ after, s.isFirst = true := hunsent
        rw [List.nil_append, List.nil_append, opened_of_first this, opened, if_pos hfirst]
      | cons b before => rfl
    refine h.requeue (h.tx.change (by rw [heq]; exact sameData_free _ _) hwf
      (by rw [hlist]; exact fun s hs => h.tx.queued s (hmem s hs))
      (by rw [hlist]; exact hu) (by rw [heq]; exact h.tx.next)) (by rw [hlist, hopen]) ?_
    intro i
    rw [hlist, hl, txFirsts_append, txFirsts_append, txFirsts_cons]
    simp only [List.count_append]
    omega

variable {buffer : List UInt8}

theorem push_linkTx (sduId : ℤ) (h : LinkTx tx accepted closed) (hmax : buffer.length ≤ nrSduMax) :
    LinkTx (tx.push c buffer sduId) (accepted ++ [buffer]) closed := by
  have hold : ∀ i, i < tx.heap.sduTop →
      ((tx.push c buffer sduId).heap.sdu i).data = (tx.heap.sdu i).data := by
    intro i hi
    simp [TxState.push, nrRlcNewSdu, Function.update_of_ne (Nat.ne_of_lt hi)]
  have hnew : ((tx.push c buffer sduId).heap.sdu tx.heap.sduTop).data = buffer := by
    simp [TxState.push, nrRlcNewSdu]
  refine ⟨push_wf c buffer sduId h.wf, ?_, ?_, ?_, ?_, ?_, h.next⟩
  · show tx.heap.sduTop + 1 = _
    rw [h.top, List.length_append, List.length_singleton]
  · intro i hi
    rw [List.length_append, List.length_singleton] at hi
    by_cases hlt : i < accepted.length
    · rw [List.getElem?_append_left hlt, hold i (h.top ▸ hlt)]
      exact h.data i hlt
    · obtain rfl : i = tx.heap.sduTop := by have := h.top; omega
      rw [hnew, h.top, List.getElem?_concat_length]
  · intro b hb
    rcases List.mem_append.mp hb with hb | hb
    · exact h.max b hb
    · simp_all
  · intro s hs
    rcases List.mem_append.mp hs with hs | hs
    · have hq := h.queued s hs
      exact ⟨Nat.lt_succ_of_lt hq.alloc, by rw [sduData_push hq.alloc]; exact hq.bytes, hq.isFirst,
        hq.isLast⟩
    · obtain rfl : s = (nrRlcNewSdu tx.heap buffer sduId).1 := List.mem_singleton.mp hs
      refine ⟨Nat.lt_succ_self _, ?_, rfl, rfl⟩
      show 0 + buffer.length = ((tx.push c buffer sduId).heap.sdu tx.heap.sduTop).data.length
      rw [hnew, Nat.zero_add]
  · intro s hs
    have hu := h.unsent
    have hs : s ∈ (tx.txList ++ [(nrRlcNewSdu tx.heap buffer sduId).1]).tail := hs
    cases hl : tx.txList with
    | nil => simp [hl] at hs
    | cons a rest =>
      rw [hl] at hs hu
      rcases List.mem_append.mp (show s ∈ rest ++ _ from hs) with hs | hs
      · exact hu s hs
      · rw [List.mem_singleton.mp hs]
        rfl

/-- **An SDU is accepted or refused.** -/
theorem accept_inv (h : LinkInv l closed flights idx)
    (hs : l.step (.accept buffer sduId) = .ok (l', ())) : LinkInv l' closed flights idx := by
  obtain ⟨⟨e, o⟩, he, hs⟩ := bind_returns.mp hs
  obtain ⟨tx, hrecv, rfl, rfl⟩ := bind_pair_inj he
  obtain ⟨rfl, _⟩ := ok_inj hs
  rcases recvSdu_cases h.tx.wf hrecv with ⟨hrej, rfl⟩ | ⟨hacc, hmax, rfl⟩
  · simpa only [acceptedBy, if_neg hrej, List.append_nil] using h
  · simp only [acceptedBy, if_pos hacc]
    have hlist : (l.tx.tx.push l.tx.cfg buffer sduId).txList
        = l.tx.tx.txList ++ [(nrRlcNewSdu l.tx.tx.heap buffer sduId).1] := rfl
    have hopen : opened (l.tx.tx.push l.tx.cfg buffer sduId).txList = opened l.tx.tx.txList := by
      rw [hlist]
      cases l.tx.tx.txList <;> rfl
    have htop : (nrRlcNewSdu l.tx.tx.heap buffer sduId).1.sdu = l.accepted.length := h.tx.top
    -- the first segment of the new SDU is nowhere yet
    have hcount : ∀ i, firstsOf (l.tx.tx.push l.tx.cfg buffer sduId).txList flights
        (closed ++ opened l.tx.tx.txList) l.rx.rx.rxList idx i =
        firstsOf l.tx.tx.txList flights (closed ++ opened l.tx.tx.txList) l.rx.rx.rxList idx i
          + [l.accepted.length].count i := by
      intro i
      unfold firstsOf
      rw [hlist, txFirsts_append, List.count_append, ← htop]
      show _ + [(nrRlcNewSdu l.tx.tx.heap buffer sduId).1.sdu].count i + _ + _ + _ = _
      omega
    have hone : ∀ i, [l.accepted.length].count i = if i = l.accepted.length then 1 else 0 := by
      intro i
      by_cases hi : i = l.accepted.length
      · simp [hi]
      · simp [hi, Ne.symm hi]
    refine ⟨h.sane, h.same, h.window, push_linkTx sduId h.tx hmax, ?_, h.inFlight, ?_, ?_, ?_, ?_,
      ?_⟩
    · rw [hopen]
      exact h.segmented
    · intro f hf
      rw [hopen]
      have := (h.carries f hf).extend [buffer] []
      rwa [List.append_nil] at this
    · intro p hp
      rw [hopen]
      have := (h.stored p hp).extend [buffer] []
      rwa [List.append_nil] at this
    · intro i
      rw [hopen]
      rw [hcount, hone]
      have h1 := h.once i
      have h2 := h.known i
      split <;> omega
    · intro i hi
      have h2 := h.known i
      grind
    · rw [h.delivered]
      refine List.map_congr_left ?_
      intro i hi
      have hlt : i < l.accepted.length := by
        refine h.known i ?_
        have := List.one_le_count_iff.mpr hi
        unfold firstsOf
        omega
      exact (List.getElem?_append_left hlt).symm

/-! ### Grants -/

theorem generateTxPdu_lost {size : ℕ} {sdu : Segment}
    {rest : List Segment} (hl : tx.txList = sdu :: rest)
    (h1 : computePduHeaderSize c sdu + 1 ≤ size) (h2 : size < computePduHeaderSize c sdu + sdu.size)
    (h3 : size < splitHeaderSize c sdu + 1) :
    generateTxPdu c tx size = .ok ({ tx.pop c sdu rest with
      heap := (tx.pop c sdu rest).heap.modify sdu.sdu
        (fun s => { s with refCount := s.refCount + 1 }) }, []) := by
  unfold generateTxPdu
  rw [hl]
  dsimp only
  rw [if_neg (by omega), if_pos h2]
  simp only [resegment_none _ (show splitHeaderSize c sdu + 1 > size from h3)]
  rfl

theorem pieceOf_slice {sn : ℕ} {data : List UInt8}
    (hin : seg.so + seg.size ≤ data.length) (hf : seg.isFirst = decide (seg.so = 0))
    (hlast : seg.isLast = true → seg.so + seg.size = data.length) :
    Slice data (pieceOf sn data seg).so (pieceOf sn data seg).isFirst (pieceOf sn data seg).isLast
      (pieceOf sn data seg).data := by
  refine ⟨?_, ?_, hf, ?_⟩
  · simp [pieceOf]
  · grind [pieceOf]
  · grind [pieceOf]

/-- The link after a grant for which `tx` is left and `pdu` sent. -/
def Link.granted (l : Link) (tx : TxState) (pdu : List UInt8) : Link :=
  { l with
    tx := { l.tx with tx := tx }
    inFlight := l.inFlight ++ (if pdu = [] then [] else [pdu])
    segmented := l.segmented + (isFirstSegment pdu).toNat }

/-- **A segment is sent.**  `seg` is the head of `tx_list` or its first part, and `tail` is what
stays in its place. -/
theorem LinkInv.sends {sdu : Segment} {rest : List Segment}
    (h : LinkInv l closed flights idx) (ext : List ℕ) (tail : List Segment)
    (hl : l.tx.tx.txList = sdu :: rest)
    (hsdu : seg.sdu = sdu.sdu) (hfirst : seg.isFirst = sdu.isFirst)
    (hf : seg.isFirst = decide (seg.so = 0))
    (hin : seg.so + seg.size ≤ (sduData l.tx.tx.heap sdu).length)
    (hlast : seg.isLast = true → seg.so + seg.size = (sduData l.tx.tx.heap sdu).length)
    (hlist : tx.txList = tail ++ rest) (htail : ∀ s ∈ tail, s.isFirst = false)
    (htx : LinkTx tx l.accepted closed')
    (how : closed' ++ opened tx.txList = (closed ++ opened l.tx.tx.txList) ++ ext)
    (hext : ext.length = (seg.isFirst && !seg.isLast).toNat)
    (hown : (seg.isFirst && seg.isLast) = false →
      (closed' ++ opened tx.txList)[closed.length]? = some seg.sdu)
    (hne : pdu ≠ []) (hparse : parsePdu l.tx.cfg pdu =
      some (pieceOf closed.length (sduData l.tx.tx.heap sdu) seg)) :
    LinkInv (l.granted tx pdu) closed'
      (flights ++ [⟨pdu, pieceOf closed.length (sduData l.tx.tx.heap sdu) seg, seg.sdu⟩]) idx := by
  rw [Link.granted, if_neg hne]
  refine h.transmit ext [⟨pdu, pieceOf closed.length (sduData l.tx.tx.heap sdu) seg, seg.sdu⟩] rfl
    htx how ?_ ?_ ?_
  · rw [isFirstSegment_of_parse hparse, hext]
    rfl
  · intro f hf'
    obtain rfl := List.mem_singleton.mp hf'
    have halloc := (h.tx.queued sdu (by rw [hl]; exact List.mem_cons_self)).alloc
    refine ⟨(parsePdu_congr h.same pdu).trans hparse,
      ⟨_, by rw [hsdu]; exact h.tx.data sdu.sdu (h.tx.top ▸ halloc), pieceOf_slice hin hf hlast⟩, ?_⟩
    intro sn hsn
    cases hfl : (seg.isFirst && seg.isLast) with
    | true => simp [pieceOf, hfl] at hsn
    | false =>
      obtain rfl : closed.length = sn := by simpa [pieceOf, hfl] using hsn
      exact hown hfl
  · intro i
    have hnone : txFirsts tail = [] := by
      rw [txFirsts, List.filter_eq_nil_iff.mpr (fun s hs => by simp [htail s hs]), List.map_nil]
    have hone : flightFirsts
        [⟨pdu, pieceOf closed.length (sduData l.tx.tx.heap sdu) seg, seg.sdu⟩]
        = if sdu.isFirst then [sdu.sdu] else [] := by
      rw [flightFirsts_cons, ← hfirst, ← hsdu]
      exact List.append_nil _
    grind [txFirsts_append, txFirsts_cons]

section Grant

variable {size : ℕ} {sdu : Segment} {rest : List Segment}

variable (h : LinkInv l closed flights idx)

include h

theorem LinkInv.encodable (hlt : (closed.length : ℤ) < l.tx.cfg.snModulus)
    (hso : seg.so ≤ nrSduMax) (hf : seg.isFirst = decide (seg.so = 0)) :
    Encodable l.tx.cfg closed.length seg := by
  refine ⟨h.sane.length, ?_, hso.trans_lt (by decide), hf⟩
  rw [h.sane.modulus] at hlt
  exact_mod_cast hlt

theorem LinkInv.max_head (hl : l.tx.tx.txList = sdu :: rest) :
    (sduData l.tx.tx.heap sdu).length ≤ nrSduMax := by
  have halloc := (h.tx.queued sdu (by rw [hl]; exact List.mem_cons_self)).alloc
  exact h.tx.max _ (List.mem_of_getElem? (h.tx.data sdu.sdu (h.tx.top ▸ halloc)))

theorem LinkInv.rest_first (hl : l.tx.tx.txList = sdu :: rest) : ∀ s ∈ rest, s.isFirst = true :=
  fun s hs => h.tx.unsent s (by rw [hl]; exact hs)

theorem LinkInv.rest_queued
    (hl : l.tx.tx.txList = sdu :: rest) : ∀ s ∈ rest, Queued l.tx.tx.heap s :=
  fun s hs => h.tx.queued s (by rw [hl]; exact List.mem_cons_of_mem _ hs)

/-- The whole head is sent: the SDU is complete, or this is its last segment and its SN is
closed. -/
theorem LinkInv.pop
    (hlt : (closed.length : ℤ) + 1 < l.tx.cfg.snModulus) (hl : l.tx.tx.txList = sdu :: rest)
    (hroom : computePduHeaderSize l.tx.cfg sdu + sdu.size ≤ size) :
    ∃ tx pdu closed' flights', transmitSegment l.tx.cfg (l.tx.tx.pop l.tx.cfg sdu rest) sdu size
        = .ok (tx, pdu) ∧
      LinkInv (l.granted tx pdu) closed' flights' idx := by
  have hq := h.tx.queued sdu (by rw [hl]; exact List.mem_cons_self)
  have hsame := sameData_pop l.tx.cfg l.tx.tx sdu rest
  have hsn : ((l.tx.tx.pop l.tx.cfg sdu rest).heap.sdu sdu.sdu).sn.toNat = closed.length := by
    simp [TxState.pop, h.tx.next]
  have hbytes := hq.bytes
  have hmax := h.max_head hl
  obtain ⟨pdu, h1, h2, h3⟩ := transmitSegment_sends (l.tx.tx.pop l.tx.cfg sdu rest) sdu
    (by rw [hsn]; exact h.encodable (by omega) (by omega) hq.isFirst) hroom
    (by rw [hsame.sduData, hbytes])
  rw [hsn, hsame.sduData] at h3
  have hne : pdu ≠ [] := by
    intro he
    rw [he, List.length_nil] at h2
    unfold computePduHeaderSize at h2
    omega
  have hsame' := hsame.trans (sameData_free (l.tx.tx.pop l.tx.cfg sdu rest).heap sdu)
  have hw := @pop_wf l.tx.cfg _ _ _ h.tx.wf hl
  have hrest := h.rest_first hl
  have hopen : opened rest = [] := opened_of_first hrest
  -- the state after the call, for the SNs closed by it
  have htx : ∀ closed', ((l.tx.tx.pop l.tx.cfg sdu rest).sent l.tx.cfg sdu).txNext = closed'.length →
      LinkTx ((l.tx.tx.pop l.tx.cfg sdu rest).sent l.tx.cfg sdu) l.accepted closed' :=
    fun closed' hn => h.tx.change hsame' ⟨hw.nodup, hw.tail, hw.alloc⟩ (h.rest_queued hl)
      (fun s hs => hrest s (List.mem_of_mem_tail hs)) hn
  cases hfirst : sdu.isFirst with
  | true =>
    have hopened : opened l.tx.tx.txList = [] := by rw [hl, opened, if_pos hfirst]
    refine ⟨_, pdu, closed, _, h1, h.sends [] [] hl rfl rfl hq.isFirst hbytes.le (fun _ => hbytes)
      rfl (List.forall_mem_nil _) (htx closed ?_) ?_ ?_ ?_ hne h3⟩
    · simp [TxState.sent, hfirst, TxState.pop, h.tx.next]
    · show closed ++ opened rest = _
      simp only [hopen, hopened, List.append_nil]
    · simp [hfirst, hq.isLast]
    · simp [hfirst, hq.isLast]
  | false =>
    have hopened : opened l.tx.tx.txList = [sdu.sdu] := by
      rw [hl, opened, hfirst]
      rfl
    refine ⟨_, pdu, closed ++ [sdu.sdu], _, h1, h.sends [] [] hl rfl rfl hq.isFirst hbytes.le
      (fun _ => hbytes) rfl (List.forall_mem_nil _)
      (htx (closed ++ [sdu.sdu]) ?_) ?_ ?_ ?_ hne h3⟩
    · have hnext : ((l.tx.tx.pop l.tx.cfg sdu rest).sent l.tx.cfg sdu).txNext
          = (l.tx.tx.txNext + 1) % l.tx.cfg.snModulus := by
        simp [TxState.sent, hfirst, hq.isLast, TxState.pop]
      rw [hnext, h.tx.next, Int.emod_eq_of_lt (by omega) hlt, List.length_append,
        List.length_singleton]
      rfl
    · show (closed ++ [sdu.sdu]) ++ opened rest = _
      simp only [hopen, hopened, List.append_nil]
    · simp [hfirst]
    · simp

theorem LinkInv.split
    (hlt : (closed.length : ℤ) + 1 < l.tx.cfg.snModulus) (hl : l.tx.tx.txList = sdu :: rest)
    (hbig : size < computePduHeaderSize l.tx.cfg sdu + sdu.size)
    (hroom : splitHeaderSize l.tx.cfg sdu + 1 ≤ size) :
    ∃ tx pdu closed' flights', transmitSegment l.tx.cfg (l.tx.tx.split l.tx.cfg sdu rest size)
        (splitHead l.tx.cfg sdu size) size = .ok (tx, pdu) ∧
      LinkInv (l.granted tx pdu) closed' flights' idx := by
  have hq := h.tx.queued sdu (by rw [hl]; exact List.mem_cons_self)
  have hbytes := hq.bytes
  have hmax := h.max_head hl
  have hn : l.tx.tx.txNext.toNat = closed.length := by rw [h.tx.next]; rfl
  obtain ⟨pdu, h1, hsame, -, hne, hparse, hlength, -, hnext⟩ := transmitSegment_split rest hbytes
    hbig hroom (by rw [hn]; exact h.encodable (by omega) (by omega) hq.isFirst)
  rw [hn] at hparse
  have hw := @split_wf l.tx.cfg _ _ _ size h.tx.wf hl
  generalize htx' : (l.tx.tx.split l.tx.cfg sdu rest size).sent l.tx.cfg
    (splitHead l.tx.cfg sdu size) = tx' at h1 hsame
  have hlist : tx'.txList
      = splitNext l.tx.cfg (l.tx.tx.pop l.tx.cfg sdu rest).heap sdu size :: rest := by
    rw [← htx']
    rfl
  have hopen : opened tx'.txList = [sdu.sdu] := by
    rw [hlist]
    rfl
  have htx : LinkTx tx' l.accepted closed := by
    refine h.tx.change hsame (by rw [← htx']; exact ⟨hw.nodup, hw.tail, hw.alloc⟩) ?_ ?_ ?_
    · intro s hs
      rw [hlist] at hs
      rcases List.mem_cons.mp hs with rfl | hs
      · exact ⟨hq.alloc, hlength, hnext, hq.isLast⟩
      · exact h.rest_queued hl s hs
    · rw [hlist]
      exact h.rest_first hl
    · simp [← htx', TxState.sent, splitHead, TxState.split, TxState.pop, h.tx.next]
  have hfin := fun ext how hext => h.sends ext
    [splitNext l.tx.cfg (l.tx.tx.pop l.tx.cfg sdu rest).heap sdu size] hl
    (show (splitHead l.tx.cfg sdu size).sdu = sdu.sdu from rfl) rfl hq.isFirst
    (Nat.le.intro hlength) (fun hf => (by cases hf)) hlist
    (fun s hs => by rw [List.mem_singleton.mp hs]; rfl) htx how hext
    (fun _ => by rw [hopen, List.getElem?_concat_length]; rfl) hne hparse
  cases hfirst : sdu.isFirst with
  | true =>
    refine ⟨_, pdu, closed, _, h1, hfin [sdu.sdu] ?_ ?_⟩
    · rw [hopen, hl, opened, if_pos hfirst, List.append_nil]
    · simp [splitHead, hfirst]
  | false =>
    grind [opened, splitHead]

/-- **A grant**, after which still fewer than `window_size` SDUs have been segmented. -/
theorem grant_inv
    (hs : l.step (.grant size) = .ok (l', ())) (hw : (l'.segmented : ℤ) < l.rx.cfg.windowSize) :
    ∃ closed' flights', LinkInv l' closed' flights' idx := by
  obtain ⟨⟨e, o⟩, he, hs⟩ := bind_returns.mp hs
  obtain ⟨⟨tx, pdu⟩, hgen, rfl, rfl⟩ := bind_pair_inj he
  obtain ⟨rfl, _⟩ := ok_inj hs
  have hlt : (closed.length : ℤ) + 1 < l.tx.cfg.snModulus := by
    have h1 := h.segmented
    have h2 := h.window
    rw [List.length_append] at h1
    push_cast at hw
    omega
  rcases generateTxPdu_cases l.tx.cfg l.tx.tx size with
    hno | ⟨sdu, rest, hl, hroom, ⟨hbig, hsmall⟩ | ⟨hfit, heq⟩ | ⟨hbig, hfit, heq⟩⟩
  · obtain ⟨rfl, rfl⟩ := ok_inj (hgen.symm.trans hno)
    refine ⟨closed, flights, ?_⟩
    simpa [isFirstSegment_nil] using h
  · -- the head is lost
    obtain ⟨rfl, rfl⟩ := ok_inj ((generateTxPdu_lost hl hroom hbig hsmall).symm.trans hgen)
    obtain ⟨_, _, sdu', rest', hl', hfirst, _⟩ := losesHead_of_split hl hroom hbig hsmall
    obtain ⟨rfl, rfl⟩ := List.cons.inj (hl.symm.trans hl')
    have hmod := sameData_modify (l.tx.tx.pop l.tx.cfg sdu rest).heap sdu.sdu
      (f := fun s => { s with refCount := s.refCount + 1 }) (fun _ => rfl)
    have hsame := (sameData_pop l.tx.cfg l.tx.tx sdu rest).trans hmod
    have hwf := @pop_wf l.tx.cfg _ _ _ h.tx.wf hl
    have hrest := h.rest_first hl
    have hopened : opened l.tx.tx.txList = [] := by rw [hl, opened, if_pos hfirst]
    refine ⟨closed, flights, ?_⟩
    simp only [if_true, isFirstSegment_nil, Bool.toNat_false, List.append_nil, Nat.add_zero]
    refine h.requeue (h.tx.change hsame ⟨hwf.nodup, hwf.tail, hwf.alloc⟩ (h.rest_queued hl)
      (fun s hs => hrest s (List.mem_of_mem_tail hs)) h.tx.next)
      ((opened_of_first hrest).trans hopened.symm) fun i => ?_
    show (txFirsts rest).count i ≤ _
    rw [hl, txFirsts_cons, List.count_append]
    omega
  · obtain ⟨tx', pdu', closed', flights', ht, hinv⟩ := h.pop hlt hl hfit
    grind [Link.granted]
  · obtain ⟨tx', pdu', closed', flights', ht, hinv⟩ := h.split hlt hl hbig hfit
    grind [Link.granted]

end Grant

/-! ### Runs -/

theorem lose_inv (h : LinkInv l closed flights idx) (n : ℕ) :
    LinkInv { l with inFlight := l.inFlight.eraseIdx n } closed (flights.eraseIdx n) idx := by
  rw [h.inFlight, List.eraseIdx_map]
  refine h.receive rfl (fun f hf => List.mem_of_mem_eraseIdx hf) h.stored ?_ h.delivered
  simp_all [flightFirsts_sublist, List.eraseIdx_sublist, firstsOf]

theorem setTime_inv {now : UInt64} (h : LinkInv l closed flights idx) (hs : l.step (.setTime now) =
    .ok (l', ())) :
    LinkInv l' closed flights idx := by
  obtain ⟨⟨e, o⟩, he, hs⟩ := bind_returns.mp hs
  obtain ⟨rx, hcheck, rfl, rfl⟩ := bind_pair_inj he
  obtain ⟨rfl, _⟩ := ok_inj hs
  obtain ⟨hst, hle⟩ := h.stored_sublist (checkTReassembly_rxList hcheck).sublist
  have := @LinkInv.receive _ _ _ _ _ _ { l.rx with tCurrent := now, rx := rx } _ h rfl
    (fun f hf => hf) hst hle h.delivered
  rw [← h.inFlight] at this
  exact this

/-- **One event of the link.** -/
theorem linkStep_inv {i : LinkInput} (h : LinkInv l closed flights idx) (hs : l.step i = .ok (l', ()))
    (hw : (l'.segmented : ℤ) < l.rx.cfg.windowSize) :
    ∃ closed' flights' idx', LinkInv l' closed' flights' idx' := by
  cases i with
  | accept buffer sduId => exact ⟨closed, flights, idx, accept_inv h hs⟩
  | discard sduId => exact ⟨closed, flights, idx, discard_inv h hs⟩
  | grant size =>
    grind [grant_inv]
  | arrive n =>
    grind [arrive_inv]
  | lose n =>
    obtain ⟨rfl, _⟩ := ok_inj hs
    exact ⟨closed, flights.eraseIdx n, idx, lose_inv h n⟩
  | setTime now => exact ⟨closed, flights, idx, setTime_inv h hs⟩

theorem linkStep_mono {i : LinkInput} (hs : l.step i = .ok (l', ())) :
    l.segmented ≤ l'.segmented ∧ l'.rx.cfg = l.rx.cfg := by
  cases i with
  | accept buffer sduId =>
    obtain ⟨⟨e, o⟩, _, rfl, _⟩ := bind_pair_inj hs
    exact ⟨le_rfl, rfl⟩
  | discard sduId =>
    obtain ⟨rfl, _⟩ := ok_inj hs
    exact ⟨le_rfl, rfl⟩
  | grant size =>
    obtain ⟨⟨e, o⟩, _, rfl, _⟩ := bind_pair_inj hs
    simp
  | arrive n =>
    cases hn : l.inFlight[n]? with
    | none =>
      simp_all [Link.step, pure_eq_ok, Except.ok.injEq, Prod.mk.injEq, and_true]
    | some pdu =>
      simp only [Link.step, hn] at hs
      obtain ⟨⟨e, o⟩, he, hs⟩ := bind_returns.mp hs
      obtain ⟨r, _, rfl, _⟩ := bind_pair_inj he
      obtain ⟨rfl, _⟩ := ok_inj hs
      exact ⟨le_rfl, rfl⟩
  | lose n =>
    obtain ⟨rfl, _⟩ := ok_inj hs
    exact ⟨le_rfl, rfl⟩
  | setTime now =>
    obtain ⟨⟨e, o⟩, he, hs⟩ := bind_returns.mp hs
    obtain ⟨r, _, rfl, _⟩ := bind_pair_inj he
    obtain ⟨rfl, _⟩ := ok_inj hs
    exact ⟨le_rfl, rfl⟩

variable {snFieldLength : ℕ}

theorem newLink_inv (hlen : snFieldLength = 6 ∨ snFieldLength = 12) {r r' t t' : ℤ} {d d' : UInt64}
    (hc : c = Config.new r t d snFieldLength) (hc' : c' = Config.new r' t' d' snFieldLength) :
    LinkInv (Link.new (Entity.new c) (Entity.new c')) [] [] [] := by
  subst hc hc'
  refine ⟨⟨hlen, rfl⟩, rfl, ?_, ⟨⟨List.nodup_nil, rfl, ?_⟩, rfl, ?_, ?_, ?_, ?_, rfl⟩, rfl, rfl,
    ?_, ?_, ?_, ?_, rfl⟩
  · show (2 : ℤ) ^ snFieldLength / 2 < 2 ^ snFieldLength
    rcases hlen with rfl | rfl <;> decide
  · exact List.forall_mem_nil _
  · exact fun i hi => absurd hi (Nat.not_lt_zero i)
  · exact List.forall_mem_nil _
  · exact List.forall_mem_nil _
  · exact List.forall_mem_nil _
  · simp
  · exact List.forall_mem_nil _
  · exact fun i => Nat.zero_le _
  · exact fun i hi => absurd hi (Nat.lt_irrefl 0)

/-- **Integrity of a UM link.**  Two new entities with the same SN length, any SDUs, grants,
losses, reorderings and times: as long as fewer than `window_size` SDUs have been sent in
segments, every delivered SDU is an accepted one byte for byte, and none is delivered twice. -/
theorem reachable_intact {rxMaxsize txMaxsize rxMaxsize' txMaxsize' : ℤ}
    {tReassembly tReassembly' : UInt64} {snFieldLength : ℕ} {tx rx : Entity} {l : Link}
    (htx : newNrRlcEntityUm rxMaxsize txMaxsize tReassembly snFieldLength = .ok tx)
    (hrx : newNrRlcEntityUm rxMaxsize' txMaxsize' tReassembly' snFieldLength = .ok rx)
    (h : Reachable Link.step (fun _ _ => True) (Link.new tx rx) l)
    (hseg : (l.segmented : ℤ) < l.rx.cfg.windowSize) : l.Intact := by
  obtain ⟨hlen, rfl⟩ := newNrRlcEntityUm_eq htx
  obtain ⟨_, rfl⟩ := newNrRlcEntityUm_eq hrx
  obtain ⟨closed, flights, idx, hinv⟩ := h.invariant
    (fun l => (l.segmented : ℤ) < l.rx.cfg.windowSize →
      ∃ closed flights idx, LinkInv l closed flights idx)
    (fun _ => ⟨[], [], [], newLink_inv hlen rfl rfl⟩) (fun l i l' o hi _ hs hw => by
      obtain ⟨hle, hcfg⟩ := linkStep_mono hs
      grind [linkStep_inv]) hseg
  exact hinv.intact

/-- An SDU of three bytes, sent in two segments that arrive in the wrong order, is delivered. -/
theorem reachable_intact_swapped :
    ∃ l, Reachable Link.step (fun _ _ => True)
        (Link.new (Entity.new (Config.new 1000 1000 35 6)) (Entity.new
          (Config.new 1000 1000 35 6))) l ∧
      (l.segmented : ℤ) < l.rx.cfg.windowSize ∧ l.delivered = [[1, 2, 3]] ∧ l.Intact := by
  have hnew : newNrRlcEntityUm 1000 1000 35 6 = .ok (Entity.new (Config.new 1000 1000 35 6)) := rfl
  obtain ⟨r, hrun, hobs⟩ := exists_of_observed
    (x := run Link.step (Link.new (Entity.new (Config.new 1000 1000 35 6))
      (Entity.new (Config.new 1000 1000 35 6)))
      [.accept [1, 2, 3] 7, .grant 3, .grant 9, .arrive 1, .arrive 0])
    (f := fun r => (r.1.segmented, r.1.rx.cfg.windowSize, r.1.delivered))
    (b := (1, 32, [[1, 2, 3]])) (by decide +kernel)
  have hreach := Reachable.start.of_run (fun _ _ _ => trivial) hrun
  obtain ⟨hsegmented, hobs⟩ := Prod.mk.inj hobs
  obtain ⟨hwindow, hdelivered⟩ := Prod.mk.inj hobs
  have hseg : (r.1.segmented : ℤ) < r.1.rx.cfg.windowSize := by
    rw [hsegmented, hwindow]
    decide
  exact ⟨r.1, hreach, hseg, hdelivered, reachable_intact hnew hnew hreach hseg⟩

end OaiGnb.Rlc.Um
