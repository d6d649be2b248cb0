import OaiGnb.Rlc.Am.DataPdu
import Mathlib.Algebra.BigOperators.Group.List.Basic

/-!
# The transmit lists

A segment of an SDU that has been accepted and not fully acknowledged is in `tx_list`, `wait_list`
or `retransmit_list`.  `LiveOk` says what the segments of the three lists are together, whichever
list they are in: disjoint byte ranges of their SDUs, with one SN per SDU.  `TxInv` adds the order
of the lists and their tail pointers.

* `pushSdu_inv`, `generateTxPdu_inv`, `generateRetxPdu_inv`, `checkTPollRetransmit_inv`,
  `discardSdu_inv`: the calls keep `TxInv`, as long as a new SDU gets an SN that no live SDU has.
-/

namespace OaiGnb.Rlc.Am

open SerialNumber Run SortedList

/-! ### Segments -/

/-- The segments of all three lists. -/
def TxState.live (tx : TxState) : List Segment := tx.txList ++ tx.waitList ++ tx.retransmitList

/-- A segment is an allocated node with a range of bytes of an allocated SDU, and its flags are
right. -/
structure SegOk (heap : Heap) (s : Segment) : Prop where
  sdu_lt : s.sdu < heap.sduTop
  addr_lt : s.addr < heap.segTop
  inside : s.so + s.size ≤ (heap.sdu s.sdu).size
  isFirst : s.isFirst = decide (s.so = 0)
  isLast : s.isLast = decide (s.so + s.size = (heap.sdu s.sdu).size)
  empty : s.size = 0 → (heap.sdu s.sdu).size = 0

/-- Two nodes; if they are of one SDU, one of them starts and ends before the other starts. -/
def Apart (a b : Segment) : Prop :=
  a.addr ≠ b.addr ∧ (a.sdu = b.sdu →
    (a.so < b.so ∧ a.so + a.size ≤ b.so) ∨ (b.so < a.so ∧ b.so + b.size ≤ a.so))

variable {a b : Segment}

theorem Apart.symm (h : Apart a b) : Apart b a :=
  ⟨h.1.symm, fun he => (h.2 he.symm).symm⟩

/-- The segments that are not freed yet, whichever list they are in. -/
structure LiveOk (c : Config) (heap : Heap) (live : List Segment) : Prop where
  seg : ∀ s ∈ live, SegOk heap s
  apart : live.Pairwise Apart
  sn : ∀ s ∈ live, snOf heap s = -1 ∨ InRange c.snModulus (snOf heap s)
  unique : ∀ a ∈ live, ∀ b ∈ live, snOf heap a = snOf heap b → snOf heap a ≠ -1 → a.sdu = b.sdu

/-- Two heaps with the same SDUs, as far as the upper layer sees them. -/
structure SameData (h h' : Heap) : Prop where
  sduTop : h'.sduTop = h.sduTop
  data : ∀ i, (h'.sdu i).data = (h.sdu i).data
  upperLayerId : ∀ i, (h'.sdu i).upperLayerId = (h.sdu i).upperLayerId

theorem SameData.refl (h : Heap) : SameData h h := ⟨rfl, fun _ => rfl, fun _ => rfl⟩

variable {h h' h'' : Heap}

theorem SameData.trans (a : SameData h h') (b : SameData h' h'') :
    SameData h h'' :=
  ⟨b.sduTop.trans a.sduTop, fun i => (b.data i).trans (a.data i),
    fun i => (b.upperLayerId i).trans (a.upperLayerId i)⟩

variable {f : Sdu → Sdu}

theorem sameData_modify (h : Heap) (i : ℕ) (hdata : ∀ s, (f s).data = s.data)
    (hid : ∀ s, (f s).upperLayerId = s.upperLayerId) : SameData h (h.modify i f) :=
  ⟨rfl, fun j => h.modify_field i j Sdu.data hdata, fun j => h.modify_field i j Sdu.upperLayerId hid⟩

/-- Two heaps with the same SDUs and SNs; only the counters of the SDUs may differ. -/
structure SameSdus (h h' : Heap) : Prop extends SameData h h' where
  segTop : h'.segTop = h.segTop
  sn : ∀ i, (h'.sdu i).sn = (h.sdu i).sn

theorem SameSdus.refl (h : Heap) : SameSdus h h := ⟨SameData.refl h, rfl, fun _ => rfl⟩

theorem SameSdus.trans (a : SameSdus h h') (b : SameSdus h' h'') :
    SameSdus h h'' :=
  ⟨a.toSameData.trans b.toSameData, b.segTop.trans a.segTop, fun i => (b.sn i).trans (a.sn i)⟩

theorem sameSdus_modify (h : Heap) (i : ℕ) (hsn : ∀ s, (f s).sn = s.sn)
    (hdata : ∀ s, (f s).data = s.data) (hid : ∀ s, (f s).upperLayerId = s.upperLayerId) :
    SameSdus h (h.modify i f) :=
  ⟨sameData_modify h i hdata hid, rfl, fun j => h.modify_field i j Sdu.sn hsn⟩

theorem sameSdus_free (h : Heap) (s : Segment) : SameSdus h (nrRlcFreeSduSegment h s).2 :=
  sameSdus_modify h s.sdu (f := fun s => { s with freeCount := s.freeCount + 1 })
    (fun _ => rfl) (fun _ => rfl) (fun _ => rfl)

theorem sameSdus_freeList (h : Heap) (l : List Segment) :
    SameSdus h (nrRlcFreeSduSegmentList h l) := by
  induction l generalizing h with
  | nil => exact SameSdus.refl h
  | cons s l ih => exact (sameSdus_free h s).trans (ih _)

theorem sameSdus_retx (h : Heap) (i : ℕ) :
    SameSdus h (h.modify i (fun s => { s with retxCount := s.retxCount + 1 })) :=
  sameSdus_modify h i (f := fun s => { s with retxCount := s.retxCount + 1 })
    (fun _ => rfl) (fun _ => rfl) (fun _ => rfl)

theorem SameSdus.snOf (hs : SameSdus h h') (s : Segment) :
    snOf h' s = snOf h s := hs.sn s.sdu

theorem SameSdus.size (hs : SameSdus h h') (i : ℕ) :
    (h'.sdu i).size = (h.sdu i).size := congrArg List.length (hs.data i)

variable {s : Segment} {n size : ℕ} {tx' : TxState} {rest : List Segment} {sn : ℤ} {now : UInt64}
  {pdu : List UInt8}

theorem SegOk.mono (ho : SegOk h s) (hsdus : h.sduTop ≤ h'.sduTop) (hsegs : h.segTop ≤ h'.segTop)
    (hz : (h'.sdu s.sdu).size = (h.sdu s.sdu).size) : SegOk h' s :=
  ⟨ho.sdu_lt.trans_le hsdus, ho.addr_lt.trans_le hsegs,
    by rw [hz]; exact ho.inside, ho.isFirst, by rw [hz]; exact ho.isLast,
    by rw [hz]; exact ho.empty⟩

theorem SegOk.same (hs : SameSdus h h') (ho : SegOk h s) : SegOk h' s :=
  ho.mono hs.sduTop.ge hs.segTop.ge (hs.size s.sdu)

section

variable {c : Config} {heap heap' : Heap} {l l' : List Segment}

theorem LiveOk.same (hs : SameSdus heap heap') (h : LiveOk c heap l) : LiveOk c heap' l := by
  refine ⟨fun s hm => (h.seg s hm).same hs, h.apart, ?_, ?_⟩
  · intro s hm
    rw [hs.snOf]
    exact h.sn s hm
  · intro a ha b hb
    rw [hs.snOf, hs.snOf]
    exact h.unique a ha b hb

theorem LiveOk.sublist (h : LiveOk c heap l) (hs : l'.Sublist l) : LiveOk c heap l' :=
  ⟨fun s hm => h.seg s (hs.subset hm), h.apart.sublist hs, fun s hm => h.sn s (hs.subset hm),
    fun a ha b hb => h.unique a (hs.subset ha) b (hs.subset hb)⟩

theorem LiveOk.perm (h : LiveOk c heap l) (hp : l'.Perm l) : LiveOk c heap l' :=
  ⟨fun s hm => h.seg s (hp.subset hm),
    (hp.pairwise_iff (fun {_ _} hab => Apart.symm hab)).mpr h.apart,
    fun s hm => h.sn s (hp.subset hm),
    fun a ha b hb => h.unique a (hp.subset ha) b (hp.subset hb)⟩

theorem LiveOk.nodup_addr (h : LiveOk c heap l) : (l.map Segment.addr).Nodup :=
  List.pairwise_map.mpr (h.apart.imp (fun hab => hab.1))

/-- The part of a segment that stays when it is cut after `n` bytes. -/
def headPart (s : Segment) (n : ℕ) : Segment := { s with size := n, isLast := false }

/-- The part that is cut off, a new node. -/
def tailPart (s : Segment) (n addr : ℕ) : Segment :=
  { s with addr := addr, size := s.size - n, so := s.so + n, isFirst := false }

theorem SegOk.headPart (h : SegOk heap s) (h0 : 0 < n) (hn : n < s.size) :
    SegOk heap (headPart s n) := by
  have hin := h.inside
  refine ⟨h.sdu_lt, h.addr_lt, ?_, h.isFirst, ?_, ?_⟩
  · show s.so + n ≤ (heap.sdu s.sdu).size
    omega
  · show false = decide (s.so + n = (heap.sdu s.sdu).size)
    exact (decide_eq_false (by omega)).symm
  · intro hz
    change n = 0 at hz
    omega

theorem SegOk.tailPart (h : SegOk heap s) (h0 : 0 < n) (hn : n < s.size) :
    SegOk { heap with segTop := heap.segTop + 1 } (tailPart s n heap.segTop) := by
  have hin := h.inside
  refine ⟨h.sdu_lt, Nat.lt_succ_self _, ?_, ?_, ?_, ?_⟩
  · show s.so + n + (s.size - n) ≤ (heap.sdu s.sdu).size
    omega
  · show false = decide (s.so + n = 0)
    exact (decide_eq_false (by omega)).symm
  · show s.isLast = decide (s.so + n + (s.size - n) = (heap.sdu s.sdu).size)
    rw [h.isLast, show s.so + n + (s.size - n) = s.so + s.size by omega]
  · intro hz
    change s.size - n = 0 at hz
    omega

theorem SegOk.grow (h : SegOk heap s) :
    SegOk { heap with segTop := heap.segTop + 1 } s :=
  h.mono le_rfl (Nat.le_succ _) rfl

variable {t : Segment}

theorem Apart.headPart (h : Apart s t) (hn : n ≤ s.size) :
    Apart (headPart s n) t := by
  refine ⟨h.1, ?_⟩
  intro he
  rcases h.2 he with ⟨h1, h2⟩ | ⟨h1, h2⟩
  · exact Or.inl ⟨h1, by show s.so + n ≤ t.so; omega⟩
  · exact Or.inr ⟨h1, h2⟩

theorem Apart.tailPart {addr : ℕ} (h : Apart s t) (hn : n < s.size)
    (ha : addr ≠ t.addr) : Apart (tailPart s n addr) t := by
  refine ⟨ha, ?_⟩
  intro he
  show (s.so + n < t.so ∧ s.so + n + (s.size - n) ≤ t.so) ∨
    (t.so < s.so + n ∧ t.so + t.size ≤ s.so + n)
  rcases h.2 he with ⟨h1, h2⟩ | ⟨h1, h2⟩
  · omega
  · omega

/-- **Cutting a segment in two.** -/
theorem LiveOk.split (h : LiveOk c heap (s :: l)) (h0 : 0 < n) (hn : n < s.size) :
    LiveOk c { heap with segTop := heap.segTop + 1 }
      (headPart s n :: tailPart s n heap.segTop :: l) := by
  have hs := h.seg s List.mem_cons_self
  obtain ⟨hap, hl⟩ := List.pairwise_cons.mp h.apart
  -- both parts have the SDU of the segment
  have hlift : ∀ t ∈ headPart s n :: tailPart s n heap.segTop :: l,
      ∃ u ∈ s :: l, u.sdu = t.sdu := by
    intro t ht
    rcases List.mem_cons.mp ht with rfl | ht
    · exact ⟨s, List.mem_cons_self, rfl⟩
    rcases List.mem_cons.mp ht with rfl | ht
    · exact ⟨s, List.mem_cons_self, rfl⟩
    · exact ⟨t, List.mem_cons_of_mem _ ht, rfl⟩
  have hsn : ∀ t u : Segment, u.sdu = t.sdu →
      snOf { heap with segTop := heap.segTop + 1 } t = snOf heap u := by
    intro t u he
    show (heap.sdu t.sdu).sn = (heap.sdu u.sdu).sn
    rw [he]
  refine ⟨?_, ?_, ?_, ?_⟩
  · intro t ht
    rcases List.mem_cons.mp ht with rfl | ht
    · exact (hs.headPart h0 hn).grow
    rcases List.mem_cons.mp ht with rfl | ht
    · exact hs.tailPart h0 hn
    · exact (h.seg t (List.mem_cons_of_mem _ ht)).grow
  · refine List.pairwise_cons.mpr ⟨?_, List.pairwise_cons.mpr ⟨?_, hl⟩⟩
    · intro t ht
      rcases List.mem_cons.mp ht with rfl | ht
      · refine ⟨?_, fun _ => Or.inl ⟨?_, le_rfl⟩⟩
        · show s.addr ≠ heap.segTop
          have := hs.addr_lt
          omega
        · show s.so < s.so + n
          omega
      · exact (hap t ht).headPart (by omega)
    · intro t ht
      have := (h.seg t (List.mem_cons_of_mem _ ht)).addr_lt
      exact (hap t ht).tailPart hn (by omega)
  · intro t ht
    obtain ⟨u, hu, he⟩ := hlift t ht
    rw [hsn t u he]
    exact h.sn u hu
  · intro a ha b hb hab hne
    obtain ⟨u, hu, hua⟩ := hlift a ha
    obtain ⟨v, hv, hvb⟩ := hlift b hb
    rw [hsn a u hua, hsn b v hvb] at hab
    rw [hsn a u hua] at hne
    rw [← hua, ← hvb]
    exact h.unique u hu v hv hab hne

theorem LiveOk.newSdu (h : LiveOk c heap l) (buffer : List UInt8) (sduId : ℤ) :
    LiveOk c (nrRlcNewSdu heap buffer sduId).2 ((nrRlcNewSdu heap buffer sduId).1 :: l) := by
  set heap' := (nrRlcNewSdu heap buffer sduId).2 with hh
  set new := (nrRlcNewSdu heap buffer sduId).1 with hnew
  have hold : ∀ s ∈ l, heap'.sdu s.sdu = heap.sdu s.sdu := by
    intro s hs
    have hlt := (h.seg s hs).sdu_lt
    show Function.update heap.sdu heap.sduTop _ s.sdu = _
    rw [Function.update_of_ne (by omega)]
  have hself : heap'.sdu new.sdu = ⟨-1, sduId, buffer, -1, 1, 0⟩ := Function.update_self ..
  have hsn : snOf heap' new = -1 := by rw [snOf, hself]
  have hsnold : ∀ s ∈ l, snOf heap' s = snOf heap s := by
    intro s hs
    rw [snOf, hold s hs, snOf]
  refine ⟨?_, List.pairwise_cons.mpr ⟨?_, h.apart⟩, ?_, ?_⟩
  · intro s hs
    rcases List.mem_cons.mp hs with rfl | hs
    · refine ⟨Nat.lt_succ_self _, Nat.lt_succ_self _, ?_, rfl, ?_, ?_⟩
      all_goals rw [hself]
      · show 0 + buffer.length ≤ buffer.length
        omega
      · show true = decide (0 + buffer.length = buffer.length)
        simp
      · exact id
    · exact (h.seg s hs).mono (Nat.le_succ _) (Nat.le_succ _) (congrArg Sdu.size (hold s hs))
  · intro s hs
    have ho := h.seg s hs
    refine ⟨?_, ?_⟩
    · show heap.segTop ≠ s.addr
      have := ho.addr_lt
      omega
    · intro he
      change heap.sduTop = s.sdu at he
      have := ho.sdu_lt
      omega
  · intro s hs
    rcases List.mem_cons.mp hs with rfl | hs
    · exact Or.inl hsn
    · rw [hsnold s hs]
      exact h.sn s hs
  · intro a ha b hb hab hne
    rcases List.mem_cons.mp ha with rfl | ha
    · exact absurd hsn hne
    rcases List.mem_cons.mp hb with rfl | hb
    · exact absurd (hab.trans hsn) hne
    · rw [hsnold a ha, hsnold b hb] at hab
      rw [hsnold a ha] at hne
      exact h.unique a ha b hb hab hne

end

/-! ### The order of (SN, SO) -/

/-- Where a segment stands in the order of (SN, SO), SNs counted from `base`. -/
def key (c : Config) (base : ℤ) (heap : Heap) (s : Segment) : ℤ ×ₗ ℤ :=
  toLex (dist c.snModulus base (snOf heap s), (s.so : ℤ))

variable {base : ℤ}

theorem key_lt {c : Config} {heap : Heap} :
    key c base heap a < key c base heap b ↔
      dist c.snModulus base (snOf heap a) < dist c.snModulus base (snOf heap b) ∨
      (dist c.snModulus base (snOf heap a) = dist c.snModulus base (snOf heap b) ∧ a.so < b.so) := by
  rw [key, key, Prod.Lex.toLex_lt_toLex, Int.ofNat_lt]

theorem key_le {c : Config} {heap : Heap} :
    key c base heap a ≤ key c base heap b ↔
      dist c.snModulus base (snOf heap a) < dist c.snModulus base (snOf heap b) ∨
      (dist c.snModulus base (snOf heap a) = dist c.snModulus base (snOf heap b) ∧ a.so ≤ b.so) := by
  rw [key, key, Prod.Lex.toLex_le_toLex, Int.ofNat_le]

theorem key_same (hs : SameSdus h h') (c : Config) (base : ℤ) (s : Segment) :
    key c base h' s = key c base h s := by
  rw [key, key, hs.snOf]

section

variable {c : Config} {tx : TxState}

theorem waitFirst_eq (heap : Heap) (w r : Segment) :
    waitFirst c tx heap w r = decide (key c tx.txNextAck heap w < key c tx.txNextAck heap r) := by
  grind [waitFirst, snCompareTx, modulusTx_eq, key_lt]

theorem comesAfter_eq (s e : Segment) :
    comesAfter c tx s e =
      decide (key c tx.txNextAck tx.heap e < key c tx.txNextAck tx.heap s) := by
  grind [comesAfter, snCompareTx, modulusTx_eq, Bool.decide_and, Bool.decide_or, key_lt]

theorem nrRlcTxSduSegmentListAdd_eq {l : List Segment} (hs : InRange c.snModulus (snOf tx.heap s))
    (hl : ∀ t ∈ l, InRange c.snModulus (snOf tx.heap t)) :
    nrRlcTxSduSegmentListAdd c tx l s =
      insertBefore (fun cur => decide
        (key c tx.txNextAck tx.heap s < key c tx.txNextAck tx.heap cur)) s l := by
  apply insertBefore_congr
  grind [key_lt, snCompareTx, modulusTx_eq, dist_inj]

end

theorem LiveOk.key_ne {c : Config} {heap : Heap} {l : List Segment} {r : ℤ}
    (h : LiveOk c heap l) (ha : a ∈ l) (hb : b ∈ l)
    (hsa : snOf heap a ≠ -1) (hsb : snOf heap b ≠ -1) (hap : Apart a b) :
    key c r heap a ≠ key c r heap b := by
  intro he
  obtain ⟨h1, h2⟩ := Prod.mk.inj (toLex.injective he)
  have hra := (h.sn a ha).resolve_left hsa
  have hrb := (h.sn b hb).resolve_left hsb
  have hsdu := h.unique a ha b hb (dist_inj hra hrb h1) hsa
  have := hap.2 hsdu
  omega

/-! ### The invariant -/

/-- **The representation invariant of the transmit lists**, while the segments `held` are in none
of them. -/
structure TxInv (c : Config) (held : List Segment) (tx : TxState) : Prop where
  txNext : InRange c.snModulus tx.txNext
  txNextAck : InRange c.snModulus tx.txNextAck
  live : LiveOk c tx.heap (held ++ tx.live)
  sdus : (tx.txList.map Segment.sdu).Nodup
  unsent : ∀ s ∈ tx.txList.tail, snOf tx.heap s = -1
  head : ∀ s ∈ tx.txList.head?,
    snOf tx.heap s = -1 ∨ snOf tx.heap s = (tx.txNext - 1) % c.snModulus
  waitSent : ∀ s ∈ tx.waitList, snOf tx.heap s ≠ -1
  retxSent : ∀ s ∈ tx.retransmitList, snOf tx.heap s ≠ -1
  waitSorted : SortedBy (key c tx.txNextAck tx.heap) tx.waitList
  retxSorted : SortedBy (key c tx.txNextAck tx.heap) tx.retransmitList
  txEnd : tx.txEnd = lastAddr tx.txList
  waitEnd : tx.waitEnd = lastAddr tx.waitList

/-- No live SDU has the SN `tx_next`. -/
def FreshSn (tx : TxState) : Prop := ∀ s ∈ tx.live, snOf tx.heap s ≠ tx.txNext

/-- If the head of the TX list has no SN yet, no live SDU has the one it would get. -/
def NextSnFresh (tx : TxState) : Prop :=
  ∀ s rest, tx.txList = s :: rest → snOf tx.heap s = -1 → FreshSn tx

section

variable {c : Config} {tx : TxState} {held : List Segment}

theorem mem_live :
    s ∈ tx.live ↔ s ∈ tx.txList ∨ s ∈ tx.waitList ∨ s ∈ tx.retransmitList := by
  rw [TxState.live, List.mem_append, List.mem_append, or_assoc]

theorem TxInv.mem_wait (_ : TxInv c held tx) (hs : s ∈ tx.waitList) :
    s ∈ held ++ tx.live :=
  List.mem_append_right _ (mem_live.mpr (Or.inr (Or.inl hs)))

theorem TxInv.mem_retx (_ : TxInv c held tx) (hs : s ∈ tx.retransmitList) :
    s ∈ held ++ tx.live :=
  List.mem_append_right _ (mem_live.mpr (Or.inr (Or.inr hs)))

theorem TxInv.wait_inRange (h : TxInv c held tx) (hs : s ∈ tx.waitList) :
    InRange c.snModulus (snOf tx.heap s) :=
  (h.live.sn s (h.mem_wait hs)).resolve_left (h.waitSent s hs)

theorem TxInv.retx_inRange (h : TxInv c held tx) (hs : s ∈ tx.retransmitList) :
    InRange c.snModulus (snOf tx.heap s) :=
  (h.live.sn s (h.mem_retx hs)).resolve_left (h.retxSent s hs)

/-- The wait list and the retransmit list keep their order where their SNs stay. -/
theorem TxInv.sent_congr {heap : Heap} (h : TxInv c held tx)
    (hsn : ∀ s ∈ tx.live, snOf heap s = snOf tx.heap s) :
    ((∀ s ∈ tx.waitList, snOf heap s ≠ -1) ∧ ∀ s ∈ tx.retransmitList, snOf heap s ≠ -1) ∧
    SortedBy (key c tx.txNextAck heap) tx.waitList ∧
      SortedBy (key c tx.txNextAck heap) tx.retransmitList := by
  have hwait : ∀ s ∈ tx.waitList, snOf heap s = snOf tx.heap s :=
    fun s hs => hsn s (mem_live.mpr (Or.inr (Or.inl hs)))
  have hretx : ∀ s ∈ tx.retransmitList, snOf heap s = snOf tx.heap s :=
    fun s hs => hsn s (mem_live.mpr (Or.inr (Or.inr hs)))
  refine ⟨⟨fun s hs => ?_, fun s hs => ?_⟩, h.waitSorted.congr fun s hs => ?_,
    h.retxSorted.congr fun s hs => ?_⟩
  · rw [hwait s hs]
    exact h.waitSent s hs
  · rw [hretx s hs]
    exact h.retxSent s hs
  · rw [key, hwait s hs, key]
  · rw [key, hretx s hs, key]

/-- **Other lists and another `tx_next_ack`**: the segments `gone` are left out. -/
theorem TxInv.relist (h : TxInv c held tx) (hn : tx'.txNext = tx.txNext)
    (hb : InRange c.snModulus tx'.txNextAck) (hh : SameSdus tx.heap tx'.heap)
    (ht : tx'.txList = tx.txList) (hte : tx'.txEnd = tx.txEnd) (gone : List Segment)
    (hp : (gone ++ (tx'.waitList ++ tx'.retransmitList)).Perm (tx.waitList ++ tx.retransmitList))
    (hw : SortedBy (key c tx'.txNextAck tx.heap) tx'.waitList)
    (hr : SortedBy (key c tx'.txNextAck tx.heap) tx'.retransmitList)
    (hwe : tx'.waitEnd = lastAddr tx'.waitList) : TxInv c held tx' := by
  have hsub : ∀ s, s ∈ tx'.waitList ++ tx'.retransmitList → snOf tx'.heap s ≠ -1 := by
    intro s hs
    rw [hh.snOf]
    rcases List.mem_append.mp (hp.subset (List.mem_append_right gone hs)) with hs | hs
    · exact h.waitSent s hs
    · exact h.retxSent s hs
  refine ⟨by rw [hn]; exact h.txNext, hb, ?_, by rw [ht]; exact h.sdus,
    ?_, ?_, fun s hs => hsub s (List.mem_append_left _ hs),
    fun s hs => hsub s (List.mem_append_right _ hs), hw.congr (fun s _ => key_same hh c _ s),
    hr.congr (fun s _ => key_same hh c _ s), by rw [hte, ht]; exact h.txEnd, hwe⟩
  · have hperm : (gone ++ (held ++ tx'.live)).Perm (held ++ tx.live) := by
      rw [TxState.live, TxState.live, ht, List.append_assoc, List.append_assoc]
      exact (List.perm_append_comm_assoc _ _ _).trans
        (((List.perm_append_comm_assoc _ _ _).trans (hp.append_left tx.txList)).append_left held)
    exact ((h.live.perm hperm).sublist (List.sublist_append_right _ _)).same hh
  · intro s hs
    rw [hh.snOf]
    exact h.unsent s (by rwa [ht] at hs)
  · intro s hs
    rw [hh.snOf, hn]
    exact h.head s (by rwa [ht] at hs)

theorem TxInv.congr (h : TxInv c held tx) (hn : tx'.txNext = tx.txNext)
    (ha : tx'.txNextAck = tx.txNextAck) (hh : SameSdus tx.heap tx'.heap)
    (ht : tx'.txList = tx.txList) (hw : tx'.waitList = tx.waitList)
    (hr : tx'.retransmitList = tx.retransmitList) (hte : tx'.txEnd = tx.txEnd)
    (hwe : tx'.waitEnd = tx.waitEnd) : TxInv c held tx' :=
  h.relist hn (by rw [ha]; exact h.txNextAck) hh ht hte [] (by rw [hw, hr]; rfl)
    (by rw [hw, ha]; exact h.waitSorted) (by rw [hr, ha]; exact h.retxSorted)
    (by rw [hwe, hw]; exact h.waitEnd)

/-! ### Into the wait list -/

variable {l : List Segment}

theorem putInWaitList_perm (hp : l.Perm (s :: tx.waitList)) :
    (tx.txList ++ l ++ tx.retransmitList).Perm (s :: tx.live) := by
  rw [TxState.live]
  grind

/-- **A sent segment is put in its place in the wait list**, and the tail pointer is right. -/
theorem putInWaitList_spec (h : TxInv c [s] tx) (hs : snOf tx.heap s ≠ -1) :
    ∃ l, putInWaitList c tx s = .ok { tx with waitList := l, waitEnd := lastAddr l } ∧
      l.Perm (s :: tx.waitList) ∧ SortedBy (key c tx.txNextAck tx.heap) l := by
  set k := key c tx.txNextAck tx.heap with hkey
  have hsm : s ∈ [s] ++ tx.live := List.mem_cons_self
  have hsr := (h.live.sn s hsm).resolve_left hs
  have hnd : (tx.waitList.map Segment.addr).Nodup := by
    refine h.live.nodup_addr.sublist (List.Sublist.map _ ?_)
    exact ((List.sublist_append_right _ _).trans (List.sublist_append_left _ _)).trans
      (List.sublist_append_right _ _)
  have hend := h.waitEnd
  have happ := nrRlcSduSegmentListAppend_eq s hnd
  rw [← hend] at happ
  have happend : appendToWaitList tx s = .ok
      { tx with waitList := tx.waitList ++ [s], waitEnd := lastAddr (tx.waitList ++ [s]) } := by
    rw [appendToWaitList, happ, lastAddr_concat]
    rfl
  unfold putInWaitList
  rcases List.eq_nil_or_concat' tx.waitList with hnil | ⟨init, last, hl⟩
  · rw [hend, hnil]
    refine ⟨[s], ?_, List.Perm.refl _, List.pairwise_singleton _ _⟩
    simp_all
  · have hlast : last ∈ tx.waitList := by rw [hl]; simp
    have hderef : derefSegment tx.waitList last.addr = some last := by
      rw [hl] at hnd ⊢
      exact derefSegment_concat hnd
    rw [hend, hl, lastAddr_concat]
    dsimp only
    rw [← hl, hderef]
    dsimp only
    split
    · -- after the last node
      rename_i hafter
      have hlt : k last < k s := by
        rw [comesAfter_eq] at hafter
        exact of_decide_eq_true hafter
      refine ⟨tx.waitList ++ [s], happend, List.perm_append_singleton s _, ?_⟩
      refine sortedBy_append.mpr ⟨h.waitSorted, List.pairwise_singleton _ _, ?_⟩
      intro a ha b hb
      obtain rfl := List.mem_singleton.mp hb
      rw [hl] at ha
      have hsort := h.waitSorted
      rw [hl] at hsort
      rcases List.mem_append.mp ha with ha | ha
      · exact ((sortedBy_append.mp hsort).2.2 a ha last (List.mem_singleton.mpr rfl)).trans hlt.le
      · grind
    · -- before the last node: the keys differ, so the last node stays the last
      rename_i hnot
      have hap : Apart s last := by
        have := List.pairwise_cons.mp h.live.apart
        exact this.1 last (mem_live.mpr (Or.inr (Or.inl hlast)))
      have hne := h.live.key_ne (r := tx.txNextAck) hsm (h.mem_wait hlast) hs
        (h.waitSent last hlast) hap
      have hlt : k s < k last := by
        rw [comesAfter_eq] at hnot
        exact lt_of_le_of_ne (not_lt.mp (by simpa using hnot)) hne
      have hadd := nrRlcTxSduSegmentListAdd_eq hsr (fun t ht => h.wait_inRange ht)
      obtain ⟨init', hi⟩ := insertBefore_concat k init hlt
      rw [← hl] at hi
      refine ⟨_, ?_, insertBefore_perm _ s tx.waitList, sortedBy_insertBefore h.waitSorted⟩
      have hlen : (insertBefore (fun cur => decide (k s < k cur)) s tx.waitList).length ≠ 1 := by
        rw [(insertBefore_perm _ s tx.waitList).length_eq, hl]
        simp
      rw [insertInWaitList, hadd, if_neg hlen]
      have hwe : lastAddr (insertBefore (fun cur => decide (k s < k cur)) s tx.waitList)
          = tx.waitEnd := by
        rw [hi, hend, hl, lastAddr_concat, lastAddr_concat]
      rw [hwe]
      rfl

theorem TxInv.toWait (h : TxInv c [s] tx)
    (hs : snOf tx.heap s ≠ -1) (hp : l.Perm (s :: tx.waitList))
    (hsort : SortedBy (key c tx.txNextAck tx.heap) l) :
    TxInv c [] { tx with waitList := l, waitEnd := lastAddr l } := by
  refine { h with live := h.live.perm ?_, waitSent := ?_, waitSorted := hsort, waitEnd := rfl }
  · exact putInWaitList_perm hp
  · intro t ht
    rcases List.mem_cons.mp (hp.subset ht) with rfl | ht
    · exact hs
    · exact h.waitSent t ht

/-! ### Generation of data PDUs -/

theorem resegment_eq (h1 : computePduHeaderSize c s + 1 ≤ size)
    (h2 : size < computePduHeaderSize c s + s.size) (heap : Heap) :
    ∃ n, 0 < n ∧ n < s.size ∧ computePduHeaderSize c s + n = size ∧
      resegment c heap s size = (headPart s n, tailPart s n heap.segTop,
        { heap.modify s.sdu (fun d => { d with refCount := d.refCount + 1 }) with
          segTop := heap.segTop + 1 }) := by
  refine ⟨size - computePduHeaderSize c s, by omega, by omega, by omega, ?_⟩
  have h3 : s.size - (computePduHeaderSize c s + s.size - size) = size - computePduHeaderSize c s := by
    omega
  have h4 : computePduHeaderSize c s + s.size - size = s.size - (size - computePduHeaderSize c s) := by
    omega
  rw [resegment, headPart, tailPart, h3, h4]
  rfl

theorem sameSdus_resegment (heap : Heap) (i : ℕ) :
    SameSdus heap (heap.modify i (fun d => { d with refCount := d.refCount + 1 })) :=
  sameSdus_modify heap i (f := fun d => { d with refCount := d.refCount + 1 })
    (fun _ => rfl) (fun _ => rfl) (fun _ => rfl)

theorem popRetx_perm (hl : tx.retransmitList = s :: rest) :
    (s :: (popRetx c tx s rest).live).Perm tx.live := by
  show (s :: (tx.txList ++ tx.waitList ++ rest)).Perm (tx.txList ++ tx.waitList ++ _)
  grind

theorem popTx_perm (hl : tx.txList = s :: rest) :
    (s :: (popTx c tx s rest).live).Perm tx.live := by
  show (s :: (rest ++ tx.waitList ++ tx.retransmitList)).Perm (tx.txList ++ tx.waitList ++ _)
  simp_all

theorem TxInv.popRetx (h : TxInv c [] tx)
    (hl : tx.retransmitList = s :: rest) : TxInv c [s] (popRetx c tx s rest) := by
  have hsort := h.retxSorted
  rw [hl] at hsort
  refine { h with
    live := h.live.perm (popRetx_perm hl)
    retxSent := ?_
    retxSorted := (sortedBy_cons.mp hsort).2 }
  intro t ht
  exact h.retxSent t (by rw [hl]; exact List.mem_cons_of_mem _ ht)

theorem TxInv.popTx (h : TxInv c [] tx)
    (hl : tx.txList = s :: rest) : TxInv c [s] (popTx c tx s rest) := by
  have hun : ∀ t ∈ rest, snOf tx.heap t = -1 := by
    intro t ht
    exact h.unsent t (by rw [hl]; exact ht)
  have hsdus := h.sdus
  rw [hl, List.map_cons, List.nodup_cons] at hsdus
  refine ⟨h.txNext, h.txNextAck, h.live.perm (popTx_perm hl), hsdus.2, ?_, ?_, h.waitSent,
    h.retxSent, h.waitSorted, h.retxSorted, ?_, h.waitEnd⟩
  · intro t ht
    exact hun t (List.mem_of_mem_tail ht)
  · intro t ht
    exact Or.inl (hun t (List.mem_of_mem_head? ht))
  · show (if rest = [] then none else tx.txEnd) = lastAddr rest
    rw [h.txEnd, hl]
    cases rest with
    | nil => rfl
    | cons t rest => rw [if_neg (List.cons_ne_nil _ _), lastAddr_cons_cons]

theorem LiveOk.assign {heap : Heap}
    (h : LiveOk c heap (s :: l)) (hsn : InRange c.snModulus sn) (hsdu : ∀ t ∈ l, t.sdu ≠ s.sdu)
    (hfresh : ∀ t ∈ l, snOf heap t ≠ sn) :
    LiveOk c (heap.modify s.sdu (fun d => { d with sn := sn })) (s :: l) := by
  have hself : snOf (heap.modify s.sdu (fun d => { d with sn := sn })) s = sn := by
    rw [snOf, Heap.modify_sdu_self]
  have hother : ∀ t ∈ l, snOf (heap.modify s.sdu (fun d => { d with sn := sn })) t = snOf heap t := by
    intro t ht
    rw [snOf, Heap.modify_sdu_of_ne _ _ (hsdu t ht), snOf]
  have hsize : ∀ i, ((heap.modify s.sdu (fun d => { d with sn := sn })).sdu i).size
      = (heap.sdu i).size :=
    fun i => heap.modify_field s.sdu i (f := fun d => { d with sn := sn }) Sdu.size (fun _ => rfl)
  refine ⟨?_, h.apart, ?_, ?_⟩
  · exact fun t ht => (h.seg t ht).mono le_rfl le_rfl (hsize _)
  · intro t ht
    rcases List.mem_cons.mp ht with rfl | ht
    · rw [hself]
      exact Or.inr hsn
    · rw [hother t ht]
      exact h.sn t (List.mem_cons_of_mem _ ht)
  · intro a ha b hb hab hne
    rcases List.mem_cons.mp ha with has | hal
    · grind
    · rcases List.mem_cons.mp hb with hbs | hbl
      · simp_all
      · rw [hother a hal, hother b hbl] at hab
        rw [hother a hal] at hne
        exact h.unique a ha b hb hab hne

/-- **A new SDU gets its SN**: no other live segment is of that SDU, and no live SDU has that
SN. -/
theorem TxInv.assign (hc : c.Ok) (h : TxInv c [s] tx) (hfresh : FreshSn tx)
    (hun : ∀ t ∈ tx.txList, snOf tx.heap t = -1) (hsdu : ∀ t ∈ tx.live, t.sdu ≠ s.sdu) :
    TxInv c [s] { tx with
      heap := tx.heap.modify s.sdu (fun d => { d with sn := tx.txNext })
      txNext := (tx.txNext + 1) % c.snModulus } := by
  have hother : ∀ t ∈ tx.live,
      snOf (tx.heap.modify s.sdu (fun d => { d with sn := tx.txNext })) t = snOf tx.heap t := by
    intro t ht
    rw [snOf, Heap.modify_sdu_of_ne _ _ (hsdu t ht), snOf]
  have htx : ∀ t ∈ tx.txList, t ∈ tx.live := fun t ht => mem_live.mpr (Or.inl ht)
  obtain ⟨⟨hws, hrs⟩, hwo, hro⟩ := h.sent_congr hother
  refine ⟨inRange_emod hc.modulus_pos, h.txNextAck, h.live.assign h.txNext hsdu hfresh, h.sdus,
    ?_, ?_, hws, hrs, hwo, hro, h.txEnd, h.waitEnd⟩
  · grind [List.mem_of_mem_tail]
  · grind

/-- The SN of the segment in hand once it has one. -/
structure HeldSent (c : Config) (tx : TxState) (s : Segment) : Prop where
  sn : snOf tx.heap s = (tx.txNext - 1) % c.snModulus
  unsent : ∀ t ∈ tx.txList, snOf tx.heap t = -1
  sdu : ∀ t ∈ tx.txList, t.sdu ≠ s.sdu

/-- **The head of the TX list with its SN.** -/
theorem assignSn_inv (hc : c.Ok) (h : TxInv c [] tx)
    (hl : tx.txList = s :: rest) (hfresh : snOf tx.heap s = -1 → FreshSn tx) :
    TxInv c [s] (assignSn c (popTx c tx s rest) s) ∧
      HeldSent c (assignSn c (popTx c tx s rest) s) s := by
  have hpop := h.popTx hl
  have hun : ∀ t ∈ rest, snOf tx.heap t = -1 := by
    intro t ht
    exact h.unsent t (by rw [hl]; exact ht)
  have hsdus := h.sdus
  rw [hl, List.map_cons, List.nodup_cons] at hsdus
  have hrest : ∀ t ∈ rest, t.sdu ≠ s.sdu := by
    intro t ht he
    exact hsdus.1 (List.mem_map.mpr ⟨t, ht, he⟩)
  unfold assignSn
  split
  next hsn =>
    change snOf tx.heap s = -1 at hsn
    have hsdu : ∀ t ∈ (popTx c tx s rest).live, t.sdu ≠ s.sdu := by
      intro t ht
      rcases mem_live.mp ht with ht | ht | ht
      · exact hrest t ht
      · intro he
        exact h.waitSent t ht (by rw [snOf, he]; exact hsn)
      · intro he
        exact h.retxSent t ht (by rw [snOf, he]; exact hsn)
    have hfr : FreshSn (popTx c tx s rest) := by
      intro t ht
      refine hfresh hsn t ?_
      rcases mem_live.mp ht with ht | ht | ht
      · exact mem_live.mpr (Or.inl (by rw [hl]; exact List.mem_cons_of_mem _ ht))
      · exact mem_live.mpr (Or.inr (Or.inl ht))
      · exact mem_live.mpr (Or.inr (Or.inr ht))
    refine ⟨hpop.assign hc hfr hun hsdu, ?_, ?_, hrest⟩
    · show snOf (tx.heap.modify s.sdu (fun d => { d with sn := tx.txNext })) s =
        ((tx.txNext + 1) % c.snModulus - 1) % c.snModulus
      rw [snOf, Heap.modify_sdu_self, Int.emod_sub_emod, show tx.txNext + 1 - 1 = tx.txNext by ring]
      exact (Int.emod_eq_of_lt h.txNext.1 h.txNext.2).symm
    · intro t ht
      show snOf (tx.heap.modify s.sdu (fun d => { d with sn := tx.txNext })) t = -1
      rw [snOf, Heap.modify_sdu_of_ne _ _ (hrest t ht)]
      exact hun t ht
  next hsn =>
    change snOf tx.heap s ≠ -1 at hsn
    refine ⟨hpop, ?_, hun, hrest⟩
    exact (h.head s (by rw [hl]; rfl)).resolve_left hsn

theorem HeldSent.ne (hc : c.Ok) (h : HeldSent c tx s) : snOf tx.heap s ≠ -1 := by
  rw [h.sn]
  have := Int.emod_nonneg (tx.txNext - 1) (show c.snModulus ≠ 0 by have := hc.modulus_pos; omega)
  omega

/-- The heap after the segment has been split. -/
def splitHeap (heap : Heap) (s : Segment) : Heap :=
  { heap.modify s.sdu (fun d => { d with refCount := d.refCount + 1 }) with
    segTop := heap.segTop + 1 }

theorem splitHeap_snOf (heap : Heap) (s t : Segment) : snOf (splitHeap heap s) t = snOf heap t :=
  (sameSdus_resegment heap s.sdu).snOf t

theorem splitHeap_data (heap : Heap) (s : Segment) : SameData heap (splitHeap heap s) :=
  ⟨rfl, (sameSdus_resegment heap s.sdu).data, (sameSdus_resegment heap s.sdu).upperLayerId⟩

theorem assignSn_data (c : Config) (tx : TxState) (s : Segment) :
    SameData tx.heap (assignSn c tx s).heap := by
  unfold assignSn
  split
  · exact sameData_modify tx.heap s.sdu (f := fun d => { d with sn := tx.txNext }) (fun _ => rfl)
      (fun _ => rfl)
  · exact SameData.refl _

theorem splitTx_cases (tx : TxState) (h1 : computePduHeaderSize c s + 1 ≤ size) :
    (computePduHeaderSize c s + s.size ≤ size ∧ splitTx c tx s size = (s, tx)) ∨
    ∃ n, 0 < n ∧ n < s.size ∧ computePduHeaderSize c s + n = size ∧
      splitTx c tx s size = (headPart s n, { tx with
        heap := splitHeap tx.heap s
        txList := tailPart s n tx.heap.segTop :: tx.txList
        txEnd := tx.txEnd.or (some tx.heap.segTop)
        bstatusTxSize := tx.bstatusTxSize +
          (computePduHeaderSize c (tailPart s n tx.heap.segTop) + (s.size - n : ℕ)) }) := by
  unfold splitTx
  split
  next hgt =>
    obtain ⟨n, h0, hn, hsz, hr⟩ := resegment_eq h1 hgt tx.heap
    refine Or.inr ⟨n, h0, hn, hsz, ?_⟩
    rw [hr]
    rfl
  · simp_all

theorem splitRetx_cases (tx : TxState) (h1 : computePduHeaderSize c s + 1 ≤ size) :
    (computePduHeaderSize c s + s.size ≤ size ∧ splitRetx c tx s size = (s, tx)) ∨
    ∃ n, 0 < n ∧ n < s.size ∧ computePduHeaderSize c s + n = size ∧
      splitRetx c tx s size = (headPart s n, { tx with
        heap := splitHeap tx.heap s
        retransmitList := tailPart s n tx.heap.segTop :: tx.retransmitList
        bstatusRetxSize := tx.bstatusRetxSize +
          (computePduHeaderSize c (tailPart s n tx.heap.segTop) + (s.size - n : ℕ)) }) := by
  unfold splitRetx
  split
  next hgt =>
    obtain ⟨n, h0, hn, hsz, hr⟩ := resegment_eq h1 hgt tx.heap
    refine Or.inr ⟨n, h0, hn, hsz, ?_⟩
    rw [hr]
    rfl
  · simp_all

theorem splitRetx_header (h1 : computePduHeaderSize c s + 1 ≤ size) :
    computePduHeaderSize c (splitRetx c tx s size).1 = computePduHeaderSize c s := by
  rcases splitRetx_cases (c := c) tx h1 with ⟨_, he⟩ | ⟨n, _, _, _, he⟩
  · rw [he]
  · rw [he]
    rfl

theorem TxInv.splitLive (h : TxInv c [s] tx) (h0 : 0 < n) (hn : n < s.size) :
    LiveOk c (splitHeap tx.heap s) (headPart s n :: tailPart s n tx.heap.segTop :: tx.live) :=
  (h.live.same (sameSdus_resegment tx.heap s.sdu)).split h0 hn

theorem splitTx_inv (hc : c.Ok) (h : TxInv c [s] tx)
    (hs : HeldSent c tx s) (h1 : computePduHeaderSize c s + 1 ≤ size) :
    TxInv c [(splitTx c tx s size).1] (splitTx c tx s size).2 ∧
      snOf (splitTx c tx s size).2.heap (splitTx c tx s size).1 ≠ -1 := by
  rcases splitTx_cases (c := c) tx h1 with ⟨_, he⟩ | ⟨n, h0, hn, _, he⟩
  · rw [he]
    exact ⟨h, hs.ne hc⟩
  · rw [he]
    obtain ⟨⟨hws, hrs⟩, hwo, hro⟩ := h.sent_congr fun t _ => splitHeap_snOf tx.heap s t
    refine ⟨⟨h.txNext, h.txNextAck, h.splitLive h0 hn, ?_, ?_, ?_, hws, hrs, hwo, hro, ?_,
      h.waitEnd⟩, ?_⟩
    · show (s.sdu :: tx.txList.map Segment.sdu).Nodup
      refine List.nodup_cons.mpr ⟨?_, h.sdus⟩
      intro hmem
      obtain ⟨t, ht, he⟩ := List.mem_map.mp hmem
      exact hs.sdu t ht he
    · intro t ht
      show snOf (splitHeap tx.heap s) t = -1
      rw [splitHeap_snOf]
      exact hs.unsent t ht
    · intro t ht
      obtain rfl := Option.some.inj ht
      refine Or.inr ?_
      show snOf (splitHeap tx.heap s) _ = _
      rw [splitHeap_snOf]
      exact hs.sn
    · show tx.txEnd.or (some tx.heap.segTop) = lastAddr (_ :: tx.txList)
      rw [h.txEnd]
      cases htl : tx.txList with
      | nil => rfl
      | cons t rest =>
        rw [lastAddr_cons_cons]
        cases hla : lastAddr (t :: rest) with
        | none => exact absurd (lastAddr_eq_none.mp hla) (List.cons_ne_nil _ _)
        | some a => rfl
    · show snOf (splitHeap tx.heap s) _ ≠ -1
      rw [splitHeap_snOf]
      exact HeldSent.ne (s := s) hc hs

theorem splitRetx_inv (h : TxInv c [s] tx) (hs : snOf tx.heap s ≠ -1)
    (hfirst : ∀ t ∈ tx.retransmitList,
      key c tx.txNextAck tx.heap s ≤ key c tx.txNextAck tx.heap t)
    (h1 : computePduHeaderSize c s + 1 ≤ size) :
    TxInv c [(splitRetx c tx s size).1] (splitRetx c tx s size).2 ∧
      snOf (splitRetx c tx s size).2.heap (splitRetx c tx s size).1 ≠ -1 := by
  rcases splitRetx_cases (c := c) tx h1 with ⟨_, he⟩ | ⟨n, h0, hn, _, he⟩
  · simp_all
  · rw [he]
    obtain ⟨⟨hws, hrs⟩, hwo, hro⟩ := h.sent_congr fun t _ => splitHeap_snOf tx.heap s t
    have hperm : (headPart s n :: (tx.txList ++ tx.waitList ++
        tailPart s n tx.heap.segTop :: tx.retransmitList)).Perm
        (headPart s n :: tailPart s n tx.heap.segTop :: tx.live) :=
      List.Perm.cons _ List.perm_middle
    refine ⟨⟨h.txNext, h.txNextAck, (h.splitLive h0 hn).perm hperm, h.sdus, ?_, ?_, hws, ?_, hwo,
      ?_, h.txEnd, h.waitEnd⟩, ?_⟩
    · intro t ht
      show snOf (splitHeap tx.heap s) t = -1
      rw [splitHeap_snOf]
      exact h.unsent t ht
    · intro t ht
      show snOf (splitHeap tx.heap s) t = -1 ∨ snOf (splitHeap tx.heap s) t = _
      rw [splitHeap_snOf]
      exact h.head t ht
    · intro t ht
      rcases List.mem_cons.mp ht with rfl | ht
      · show snOf (splitHeap tx.heap s) _ ≠ -1
        rw [splitHeap_snOf]
        exact hs
      · exact hrs t ht
    · refine sortedBy_cons.mpr ⟨?_, hro⟩
      intro t ht
      -- a segment of the same SDU that comes after `s` starts where `s` ends or later
      have hmem := h.mem_retx ht
      have hap : Apart s t := (List.pairwise_cons.mp h.live.apart).1 t
        (mem_live.mpr (Or.inr (Or.inr ht)))
      rw [key_le, splitHeap_snOf, splitHeap_snOf]
      show dist c.snModulus tx.txNextAck (snOf tx.heap s) < _ ∨
        dist c.snModulus tx.txNextAck (snOf tx.heap s) = _ ∧ s.so + n ≤ t.so
      rcases key_le.mp (hfirst t ht) with hlt | ⟨heq, hle⟩
      · exact Or.inl hlt
      · refine Or.inr ⟨heq, ?_⟩
        have hr := (h.live.sn s List.mem_cons_self).resolve_left hs
        have hsdu := h.live.unique s List.mem_cons_self t hmem
          (dist_inj hr (h.retx_inRange ht) heq) hs
        have := hap.2 hsdu
        omega
    · show snOf (splitHeap tx.heap s) _ ≠ -1
      rw [splitHeap_snOf]
      exact hs

theorem splitRetx_of_head (h : TxInv c [] tx)
    (hl : tx.retransmitList = s :: rest) (h1 : computePduHeaderSize c s + 1 ≤ size) :
    TxInv c [(splitRetx c (popRetx c tx s rest) s size).1]
        (splitRetx c (popRetx c tx s rest) s size).2 ∧
      snOf (splitRetx c (popRetx c tx s rest) s size).2.heap
        (splitRetx c (popRetx c tx s rest) s size).1 ≠ -1 := by
  have hsort := h.retxSorted
  rw [hl] at hsort
  have hne : snOf tx.heap s ≠ -1 := h.retxSent s (by rw [hl]; exact List.mem_cons_self)
  exact splitRetx_inv (h.popRetx hl) hne (sortedBy_cons.mp hsort).1 h1

/-- Two states that differ in the polling variables at most. -/
structure SameLists (tx tx' : TxState) : Prop where
  txNext : tx'.txNext = tx.txNext
  txNextAck : tx'.txNextAck = tx.txNextAck
  heap : tx'.heap = tx.heap
  txList : tx'.txList = tx.txList
  txEnd : tx'.txEnd = tx.txEnd
  txSize : tx'.txSize = tx.txSize
  waitList : tx'.waitList = tx.waitList
  waitEnd : tx'.waitEnd = tx.waitEnd
  retransmitList : tx'.retransmitList = tx.retransmitList
  bstatusTxSize : tx'.bstatusTxSize = tx.bstatusTxSize
  bstatusRetxSize : tx'.bstatusRetxSize = tx.bstatusRetxSize

theorem SameLists.refl (tx : TxState) : SameLists tx tx :=
  ⟨rfl, rfl, rfl, rfl, rfl, rfl, rfl, rfl, rfl, rfl, rfl⟩

theorem TxInv.same (h : TxInv c held tx) (hs : SameLists tx tx') :
    TxInv c held tx' :=
  h.congr hs.txNext hs.txNextAck (by rw [hs.heap]; exact SameSdus.refl _) hs.txList hs.waitList
    hs.retransmitList hs.txEnd hs.waitEnd

theorem countPdu_same (tx : TxState) (s : Segment) : SameLists tx (countPdu tx s) :=
  ⟨rfl, rfl, rfl, rfl, rfl, rfl, rfl, rfl, rfl, rfl, rfl⟩

variable {p : Bool}

theorem finishPdu_eq (h : finishPdu c now tx s size p = .ok (tx', pdu)) :
    SameLists tx tx' ∧ serializeSdu c tx.heap s size (p || tx.forcePoll) = .ok pdu := by
  obtain ⟨buf, hser, rfl, rfl⟩ := bind_pair_inj h
  refine ⟨?_, hser⟩
  split
  · exact ⟨rfl, rfl, rfl, rfl, rfl, rfl, rfl, rfl, rfl, rfl, rfl⟩
  · exact ⟨rfl, rfl, rfl, rfl, rfl, rfl, rfl, rfl, rfl, rfl, rfl⟩

/-- The segment `s` of the state `tx` has been put in the wait list and sent. -/
structure Sent (c : Config) (tx tx' : TxState) (s : Segment) (size : ℕ) (pdu : List UInt8) :
    Prop where
  wait : ∃ l, l.Perm (s :: tx.waitList) ∧ SortedBy (key c tx.txNextAck tx.heap) l ∧
    SameLists { tx with waitList := l, waitEnd := lastAddr l } tx'
  pdu : ∃ p, serializeSdu c tx.heap s size p = .ok pdu

variable {tx₁ tx₂ : TxState}

theorem sent_of_put (h : TxInv c [s] tx) (hs : snOf tx.heap s ≠ -1)
    (hput : putInWaitList c tx s = .ok tx₁) (hsame : SameLists tx₁ tx₂)
    (hfin : finishPdu c now tx₂ s size p = .ok (tx', pdu)) : Sent c tx tx' s size pdu := by
  obtain ⟨l, hl, hperm, hsort⟩ := putInWaitList_spec h hs
  obtain rfl := Except.ok.inj (hput.symm.trans hl)
  obtain ⟨hsame', hser⟩ := finishPdu_eq hfin
  refine ⟨⟨l, hperm, hsort, ?_⟩, ⟨p || tx₂.forcePoll, ?_⟩⟩
  · exact ⟨hsame'.txNext.trans hsame.txNext, hsame'.txNextAck.trans hsame.txNextAck,
      hsame'.heap.trans hsame.heap, hsame'.txList.trans hsame.txList, hsame'.txEnd.trans hsame.txEnd,
      hsame'.txSize.trans hsame.txSize, hsame'.waitList.trans hsame.waitList,
      hsame'.waitEnd.trans hsame.waitEnd, hsame'.retransmitList.trans hsame.retransmitList,
      hsame'.bstatusTxSize.trans hsame.bstatusTxSize,
      hsame'.bstatusRetxSize.trans hsame.bstatusRetxSize⟩
  · rw [hsame.heap] at hser
    exact hser

theorem Sent.inv
    (hsent : Sent c tx tx' s size pdu) (h : TxInv c [s] tx) (hs : snOf tx.heap s ≠ -1) :
    TxInv c [] tx' := by
  obtain ⟨l, hperm, hsort, hsame⟩ := hsent.wait
  exact (h.toWait hs hperm hsort).same hsame

/-- **`generate_tx_pdu`** sends nothing, or the head of the TX list or a part of it. -/
theorem generateTxPdu_cases (hc : c.Ok) (h : TxInv c [] tx) (hfresh : NextSnFresh tx)
    (hg : generateTxPdu c now tx size = .ok (tx', pdu)) :
    (tx' = tx ∧ pdu = []) ∨
    ∃ s rest, isWindowStalling c tx = false ∧ tx.txList = s :: rest ∧
      computePduHeaderSize c s + 1 ≤ size ∧
      Sent c (splitTx c (assignSn c (popTx c tx s rest) s) s size).2 tx'
        (splitTx c (assignSn c (popTx c tx s rest) s) s size).1 size pdu := by
  unfold generateTxPdu at hg
  split at hg
  · simp_all
  next hstall =>
    split at hg
    · simp_all
    next s rest hl =>
      split at hg
      · simp_all
      next hroom =>
        obtain ⟨hinv, hsent⟩ := assignSn_inv hc h hl (hfresh s rest hl)
        obtain ⟨hinv', hne⟩ := splitTx_inv hc hinv hsent (not_lt.mp hroom)
        refine Or.inr ⟨s, rest, by simpa using hstall, hl, not_lt.mp hroom, ?_⟩
        generalize splitTx c (assignSn c (popTx c tx s rest) s) s size = sp at hg hinv' hne ⊢
        obtain ⟨s', tx₀⟩ := sp
        obtain ⟨tx₁, hput, hfin⟩ := bind_returns.mp hg
        exact sent_of_put hinv' hne hput (countPdu_same tx₁ s') hfin

/-- **`generate_retx_pdu`** sends nothing, or the head of the retransmit list or a part of it. -/
theorem generateRetxPdu_cases
    (h : TxInv c [] tx) (hg : generateRetxPdu c now tx size = .ok (tx', pdu)) :
    (tx' = tx ∧ pdu = []) ∨
    ∃ s rest, tx.retransmitList = s :: rest ∧ computePduHeaderSize c s + 1 ≤ size ∧
      Sent c (splitRetx c (popRetx c tx s rest) s size).2 tx'
        (splitRetx c (popRetx c tx s rest) s size).1 size pdu := by
  unfold generateRetxPdu at hg
  split at hg
  · cases hg
  next s rest hl =>
    split at hg
    · simp_all
    next hroom =>
      obtain ⟨hinv', hne⟩ := splitRetx_of_head h hl (not_lt.mp hroom)
      refine Or.inr ⟨s, rest, hl, not_lt.mp hroom, ?_⟩
      generalize splitRetx c (popRetx c tx s rest) s size = sp at hg hinv' hne ⊢
      obtain ⟨s', tx₀⟩ := sp
      obtain ⟨tx₁, hput, hfin⟩ := bind_returns.mp hg
      exact sent_of_put hinv' hne hput (SameLists.refl tx₁) hfin

theorem Sent.perm (h : Sent c tx tx' s size pdu) : tx'.live.Perm (s :: tx.live) := by
  obtain ⟨l, hperm, _, hsame⟩ := h.wait
  rw [TxState.live, hsame.txList, hsame.waitList, hsame.retransmitList]
  exact putInWaitList_perm hperm

theorem Sent.heap (h : Sent c tx tx' s size pdu) : tx'.heap = tx.heap := by
  obtain ⟨l, _, _, hsame⟩ := h.wait
  exact hsame.heap

theorem generateTxPdu_data (hc : c.Ok) (h : TxInv c [] tx) (hfresh : NextSnFresh tx)
    (hg : generateTxPdu c now tx size = .ok (tx', pdu)) : SameData tx.heap tx'.heap := by
  rcases generateTxPdu_cases hc h hfresh hg with ⟨rfl, _⟩ | ⟨s, rest, _, hl, hroom, hsent⟩
  · exact SameData.refl _
  · have hassign := assignSn_data c (popTx c tx s rest) s
    rw [hsent.heap]
    rcases splitTx_cases (c := c) (assignSn c (popTx c tx s rest) s) hroom with
      ⟨_, he⟩ | ⟨n, _, _, _, he⟩
    · rw [he]
      exact hassign
    · rw [he]
      exact hassign.trans (splitHeap_data _ s)

theorem generateRetxPdu_data
    (h : TxInv c [] tx) (hg : generateRetxPdu c now tx size = .ok (tx', pdu)) :
    SameData tx.heap tx'.heap := by
  rcases generateRetxPdu_cases h hg with ⟨rfl, _⟩ | ⟨s, rest, hl, hroom, hsent⟩
  · exact SameData.refl _
  · rw [hsent.heap]
    rcases splitRetx_cases (c := c) (popRetx c tx s rest) hroom with ⟨_, he⟩ | ⟨n, _, _, _, he⟩
    · rw [he]
      exact SameData.refl _
    · rw [he]
      exact splitHeap_data _ s

theorem generateTxPdu_inv (hc : c.Ok) (h : TxInv c [] tx) (hfresh : NextSnFresh tx)
    (hg : generateTxPdu c now tx size = .ok (tx', pdu)) : TxInv c [] tx' := by
  rcases generateTxPdu_cases hc h hfresh hg with ⟨rfl, _⟩ | ⟨s, rest, _, hl, hroom, hsent⟩
  · exact h
  · obtain ⟨hinv, hs⟩ := assignSn_inv hc h hl (hfresh s rest hl)
    obtain ⟨hinv', hne⟩ := splitTx_inv hc hinv hs hroom
    exact hsent.inv hinv' hne

theorem generateRetxPdu_inv
    (h : TxInv c [] tx) (hg : generateRetxPdu c now tx size = .ok (tx', pdu)) :
    TxInv c [] tx' := by
  rcases generateRetxPdu_cases h hg with ⟨rfl, _⟩ | ⟨s, rest, hl, hroom, hsent⟩
  · exact h
  · obtain ⟨hinv', hne⟩ := splitRetx_of_head h hl hroom
    exact hsent.inv hinv' hne

theorem generateDataPdu_cases
    (hc : c.Ok) (h : TxInv c [] tx) (hg : generateDataPdu c now tx size = .ok (tx', pdu)) :
    generateTxPdu c now tx size = .ok (tx', pdu) ∨
    generateRetxPdu c now tx size = .ok (tx', pdu) := by
  unfold generateDataPdu at hg
  split at hg
  · exact Or.inl hg
  · split at hg
    · cases hg
    next tx₁ hr =>
      rcases generateRetxPdu_cases h hr with ⟨rfl, _⟩ | ⟨s, rest, _, hroom, hsent⟩
      · exact Or.inl hg
      · -- a PDU that was sent is not empty
        obtain ⟨p, hser⟩ := hsent.pdu
        grind [absurd, serializeSdu_ne_nil, splitRetx_header]
    · simp_all

/-! ### The other calls -/

theorem TxInv.nodup_txList (h : TxInv c [] tx) : (tx.txList.map Segment.addr).Nodup := by
  refine h.live.nodup_addr.sublist (List.Sublist.map _ ?_)
  rw [List.nil_append, TxState.live, List.append_assoc]
  exact List.sublist_append_left _ _

/-- The state after an SDU has been accepted. -/
def pushSdu (c : Config) (tx : TxState) (buffer : List UInt8) (sduId : ℤ) : TxState :=
  let sdu := (nrRlcNewSdu tx.heap buffer sduId).1
  { tx with
    txSize := tx.txSize + buffer.length
    heap := (nrRlcNewSdu tx.heap buffer sduId).2
    txList := tx.txList ++ [sdu]
    txEnd := some sdu.addr
    bstatusTxSize := tx.bstatusTxSize + (computePduHeaderSize c sdu + sdu.size) }

/-- **`nr_rlc_entity_am_recv_sdu`** rejects the SDU or appends it to the TX list. -/
theorem recvSdu_cases {buffer : List UInt8} {sduId : ℤ} (h : TxInv c [] tx)
    (hr : recvSdu c tx buffer sduId = .ok tx') :
    (c.txMaxsize < tx.txSize + buffer.length ∧ tx' = tx) ∨
    (tx.txSize + buffer.length ≤ c.txMaxsize ∧ buffer.length ≤ nrSduMax ∧
      tx' = pushSdu c tx buffer sduId) := by
  have hnd := h.nodup_txList
  unfold recvSdu at hr
  split at hr
  · cases hr
  next hmax =>
    split at hr
    · simp_all
    next hroom =>
      rw [h.txEnd] at hr
      have happ := nrRlcSduSegmentListAppend_eq (nrRlcNewSdu tx.heap buffer sduId).1 hnd
      obtain ⟨⟨l, e⟩, hl, hr⟩ := bind_returns.mp hr
      obtain ⟨rfl, rfl⟩ := Prod.mk.inj (Except.ok.inj (hl.symm.trans happ))
      exact Or.inr ⟨not_lt.mp hroom, not_lt.mp hmax, (Except.ok.inj hr).symm⟩

theorem newSdu_snOf {heap : Heap} (h : LiveOk c heap l) (buffer : List UInt8)
    (sduId : ℤ) (hs : s ∈ l) :
    snOf (nrRlcNewSdu heap buffer sduId).2 s = snOf heap s := by
  have hlt := (h.seg s hs).sdu_lt
  show (Function.update heap.sdu heap.sduTop _ s.sdu).sn = _
  rw [Function.update_of_ne (by omega), snOf]

theorem pushSdu_perm (c : Config) (tx : TxState) (buffer : List UInt8) (sduId : ℤ) :
    (pushSdu c tx buffer sduId).live.Perm ((nrRlcNewSdu tx.heap buffer sduId).1 :: tx.live) := by
  show (tx.txList ++ [_] ++ tx.waitList ++ tx.retransmitList).Perm (_ :: tx.live)
  simp [TxState.live, List.append_assoc, List.perm_middle]

theorem pushSdu_inv (h : TxInv c [] tx) (buffer : List UInt8) (sduId : ℤ) :
    TxInv c [] (pushSdu c tx buffer sduId) := by
  have hsn : ∀ s ∈ tx.live, snOf (nrRlcNewSdu tx.heap buffer sduId).2 s = snOf tx.heap s :=
    fun s hs => newSdu_snOf h.live buffer sduId hs
  have hnew : snOf (nrRlcNewSdu tx.heap buffer sduId).2 (nrRlcNewSdu tx.heap buffer sduId).1 = -1 := by
    show (Function.update tx.heap.sdu tx.heap.sduTop _ tx.heap.sduTop).sn = -1
    rw [Function.update_self]
  have htx : ∀ s ∈ tx.txList, s ∈ tx.live := fun s hs => mem_live.mpr (Or.inl hs)
  obtain ⟨⟨hws, hrs⟩, hwo, hro⟩ := h.sent_congr hsn
  refine ⟨h.txNext, h.txNextAck, (h.live.newSdu buffer sduId).perm (pushSdu_perm c tx buffer sduId),
    ?_, ?_, ?_, hws, hrs, hwo, hro, ?_, h.waitEnd⟩
  · show ((tx.txList ++ [_]).map Segment.sdu).Nodup
    rw [List.map_append, List.nodup_append]
    refine ⟨h.sdus, List.nodup_singleton _, ?_⟩
    intro i hi j hj
    obtain ⟨s, hs, rfl⟩ := List.mem_map.mp hi
    obtain rfl := List.mem_singleton.mp hj
    have := (h.live.seg s (htx s hs)).sdu_lt
    show s.sdu ≠ tx.heap.sduTop
    omega
  · intro s hs
    change s ∈ (tx.txList ++ [_]).tail at hs
    show snOf (nrRlcNewSdu tx.heap buffer sduId).2 s = -1
    cases htl : tx.txList with
    | nil =>
      simp_all
    | cons t rest =>
      rw [htl, List.cons_append, List.tail_cons] at hs
      rcases List.mem_append.mp hs with hs | hs
      · have hmem : s ∈ tx.txList := by rw [htl]; exact List.mem_cons_of_mem _ hs
        rw [hsn s (htx s hmem)]
        exact h.unsent s (by rw [htl]; exact hs)
      · simp_all
  · intro s hs
    change s ∈ (tx.txList ++ [_]).head? at hs
    show snOf (nrRlcNewSdu tx.heap buffer sduId).2 s = -1 ∨
      snOf (nrRlcNewSdu tx.heap buffer sduId).2 s = (tx.txNext - 1) % c.snModulus
    cases htl : tx.txList with
    | nil =>
      simp_all
    | cons t rest =>
      rw [htl] at hs
      obtain rfl := Option.some.inj hs
      have hmem : t ∈ tx.txList := by rw [htl]; exact List.mem_cons_self
      rw [hsn t (htx t hmem)]
      exact h.head t (by rw [htl]; rfl)
  · show some _ = lastAddr (tx.txList ++ [_])
    rw [lastAddr_concat]

/-- The size of the PDU that carries a segment. -/
def pduSize (c : Config) (s : Segment) : ℤ := computePduHeaderSize c s + s.size

/-- Segments have moved from the wait list to the retransmit list, and are counted there. -/
structure Moved (c : Config) (tx tx' : TxState) : Prop where
  txNext : tx'.txNext = tx.txNext
  txNextAck : tx'.txNextAck = tx.txNextAck
  sdus : SameSdus tx.heap tx'.heap
  refCount : ∀ i, (tx'.heap.sdu i).refCount = (tx.heap.sdu i).refCount
  freeCount : ∀ i, (tx'.heap.sdu i).freeCount = (tx.heap.sdu i).freeCount
  txList : tx'.txList = tx.txList
  txSize : tx'.txSize = tx.txSize
  bstatusTxSize : tx'.bstatusTxSize = tx.bstatusTxSize
  live : tx'.live.Perm tx.live
  bstatusRetxSize : tx'.bstatusRetxSize - sumOver (pduSize c) tx'.retransmitList =
    tx.bstatusRetxSize - sumOver (pduSize c) tx.retransmitList

theorem Moved.refl (c : Config) (tx : TxState) : Moved c tx tx :=
  ⟨rfl, rfl, SameSdus.refl _, fun _ => rfl, fun _ => rfl, rfl, rfl, rfl, List.Perm.refl _, rfl⟩

theorem Moved.trans {tx₃ : TxState} (h : Moved c tx₁ tx₂) (h' : Moved c tx₂ tx₃) :
    Moved c tx₁ tx₃ :=
  ⟨h'.txNext.trans h.txNext, h'.txNextAck.trans h.txNextAck, h.sdus.trans h'.sdus,
    fun i => (h'.refCount i).trans (h.refCount i), fun i => (h'.freeCount i).trans (h.freeCount i),
    h'.txList.trans h.txList, h'.txSize.trans h.txSize,
    h'.bstatusTxSize.trans h.bstatusTxSize, h'.live.trans h.live,
    h'.bstatusRetxSize.trans h.bstatusRetxSize⟩

theorem sumOver_perm (f : Segment → ℤ) {l l' : List Segment} (h : l.Perm l') :
    sumOver f l = sumOver f l' := (h.map f).sum_eq

variable {cur : Segment}

theorem retransmitHead_moved
    (hl : tx.waitList = cur :: rest) : Moved c tx (retransmitHead c tx cur rest) := by
  have hperm : (nrRlcTxSduSegmentListAdd c tx tx.retransmitList cur).Perm
      (cur :: tx.retransmitList) := insertBefore_perm ..
  refine ⟨rfl, rfl, SameSdus.refl _, fun _ => rfl, fun _ => rfl, rfl, rfl, rfl, ?_, ?_⟩
  · show (tx.txList ++ rest ++ nrRlcTxSduSegmentListAdd c tx tx.retransmitList cur).Perm tx.live
    grind [TxState.live, List.append_assoc]
  · show tx.bstatusRetxSize + pduSize c cur - sumOver (pduSize c)
      (nrRlcTxSduSegmentListAdd c tx tx.retransmitList cur) = _
    rw [sumOver_perm _ hperm, sumOver_cons]
    ring

theorem retransmitSn_moved (hl : tx.waitList = l) :
    Moved c tx (retransmitSn c sn l tx) := by
  induction l generalizing tx with
  | nil => exact Moved.refl c tx
  | cons cur rest ih =>
    rw [retransmitSn]
    split
    · exact (retransmitHead_moved hl).trans (ih rfl)
    · exact Moved.refl c tx

variable {ev : List Event}

theorem checkTPollRetransmit_moved
    (hr : checkTPollRetransmit c now tx = .ok (tx', ev)) : Moved c tx tx' := by
  unfold checkTPollRetransmit at hr
  split at hr
  · dsimp only at hr
    split at hr
    · unfold pollRetransmit at hr
      split at hr
      · cases hr
      next cur rest hl =>
        obtain ⟨rfl, _⟩ := ok_inj hr
        refine Moved.trans ?_ (retransmitSn_moved hl)
        exact ⟨rfl, rfl, sameSdus_retx tx.heap cur.sdu,
          fun i => tx.heap.modify_field _ i (f := fun s => { s with retxCount := s.retxCount + 1 })
            Sdu.refCount (fun _ => rfl),
          fun i => tx.heap.modify_field _ i (f := fun s => { s with retxCount := s.retxCount + 1 })
            Sdu.freeCount (fun _ => rfl),
          rfl, rfl, rfl, List.Perm.refl _, rfl⟩
    · obtain ⟨rfl, _⟩ := ok_inj hr
      exact ⟨rfl, rfl, SameSdus.refl _, fun _ => rfl, fun _ => rfl, rfl, rfl, rfl, List.Perm.refl _,
        rfl⟩
  · obtain ⟨rfl, _⟩ := ok_inj hr
    exact Moved.refl c tx

theorem retransmitHead_inv (h : TxInv c [] tx)
    (hl : tx.waitList = cur :: rest) : TxInv c [] (retransmitHead c tx cur rest) := by
  have hcur : cur ∈ tx.waitList := by rw [hl]; exact List.mem_cons_self
  have hadd := nrRlcTxSduSegmentListAdd_eq (h.wait_inRange hcur)
    (fun t ht => h.retx_inRange ht)
  have hsort := h.waitSorted
  rw [hl] at hsort
  refine ⟨h.txNext, h.txNextAck, h.live.perm (retransmitHead_moved hl).live, h.sdus, h.unsent,
    h.head, ?_, ?_, (sortedBy_cons.mp hsort).2, ?_, h.txEnd, ?_⟩
  · intro s hs
    exact h.waitSent s (by rw [hl]; exact List.mem_cons_of_mem _ hs)
  · intro s hs
    change s ∈ nrRlcTxSduSegmentListAdd c tx tx.retransmitList cur at hs
    rw [hadd] at hs
    rcases mem_insertBefore.mp hs with rfl | hs
    · exact h.waitSent s hcur
    · exact h.retxSent s hs
  · show SortedBy _ (nrRlcTxSduSegmentListAdd c tx tx.retransmitList cur)
    rw [hadd]
    exact sortedBy_insertBefore h.retxSorted
  · show (if rest = [] then none else tx.waitEnd) = lastAddr rest
    rw [h.waitEnd, hl]
    cases rest with
    | nil => rfl
    | cons t rest => rw [if_neg (List.cons_ne_nil _ _), lastAddr_cons_cons]

theorem retransmitSn_inv (h : TxInv c [] tx) (hl : tx.waitList = l) :
    TxInv c [] (retransmitSn c sn l tx) := by
  induction l generalizing tx with
  | nil => exact h
  | cons cur rest ih =>
    rw [retransmitSn]
    split
    · exact ih (retransmitHead_inv h hl) rfl
    · exact h

/-- **The expiry of `t_poll_retransmit`** keeps the invariant. -/
theorem checkTPollRetransmit_inv
    (h : TxInv c [] tx) (hr : checkTPollRetransmit c now tx = .ok (tx', ev)) : TxInv c [] tx' := by
  unfold checkTPollRetransmit at hr
  split at hr
  · have h1 : TxInv c [] { tx with tPollRetransmitStart := 0, forcePoll := true } :=
      h.same ⟨rfl, rfl, rfl, rfl, rfl, rfl, rfl, rfl, rfl, rfl, rfl⟩
    dsimp only at hr
    split at hr
    · unfold pollRetransmit at hr
      split at hr
      · cases hr
      next cur rest hl =>
        obtain ⟨rfl, _⟩ := ok_inj hr
        exact retransmitSn_inv
          (h1.congr rfl rfl (sameSdus_retx tx.heap cur.sdu) rfl rfl rfl rfl rfl) hl
    · simp_all
  · simp_all

theorem sublist_head_tail {α : Type} {P : α → Prop} {l l' : List α} (hs : l'.Sublist l)
    (ht : ∀ a ∈ l.tail, P a) :
    (∀ a ∈ l'.tail, P a) ∧ ∀ a ∈ l'.head?, P a ∨ a ∈ l.head? := by
  cases hs with
  | slnil => simp
  | cons b hs =>
    grind [List.mem_of_mem_tail, List.mem_of_mem_head?]
  | cons_cons b hs => grind

/-- **`nr_rlc_entity_am_discard_sdu`** does nothing, or takes a complete SDU off the TX list. -/
theorem discardSdu_cases (h : TxInv c [] tx) (sduId : ℤ) :
    discardSdu c tx sduId = tx ∨
    ∃ before cur after, tx.txList = before ++ cur :: after ∧ cur.isFirst = true ∧
      cur.isLast = true ∧ discardSdu c tx sduId = { tx with
        txList := before ++ after
        txEnd := lastAddr (before ++ after)
        bstatusTxSize := tx.bstatusTxSize - (computePduHeaderSize c cur + cur.size)
        txSize := tx.txSize - (tx.heap.sdu cur.sdu).size
        heap := (nrRlcFreeSduSegment tx.heap cur).2 } := by
  have hnd := h.nodup_txList
  unfold discardSdu
  split
  · exact Or.inl rfl
  next cur hfind =>
    split
    · exact Or.inl rfl
    next hwhole =>
      have hw : cur.isFirst = true ∧ cur.isLast = true := by
        simpa using hwhole
      obtain ⟨before, after, hl, hu⟩ := unlink_spec (findSdu_mem hfind) hnd
      refine Or.inr ⟨before, cur, after, hl, hw.1, hw.2, ?_⟩
      rw [h.txEnd, hu]

theorem discardSdu_perm {before after : List Segment} (hl : tx.txList = before ++ cur :: after) :
    (cur :: ((before ++ after) ++ tx.waitList ++ tx.retransmitList)).Perm tx.live := by
  rw [TxState.live, hl]
  exact ((List.perm_middle.symm.append_right tx.waitList).append_right tx.retransmitList)

theorem discardSdu_inv (h : TxInv c [] tx) (sduId : ℤ) : TxInv c [] (discardSdu c tx sduId) := by
  rcases discardSdu_cases h sduId with he | ⟨before, cur, after, hl, _, _, he⟩
  · rw [he]
    exact h
  · have hsub : (before ++ after).Sublist tx.txList := by
      rw [hl]
      exact (List.Sublist.refl before).append (List.sublist_cons_self cur after)
    have hsame := sameSdus_free tx.heap cur
    obtain ⟨htail, hhead⟩ := sublist_head_tail hsub h.unsent
    obtain ⟨⟨hws, hrs⟩, hwo, hro⟩ := h.sent_congr fun s _ => hsame.snOf s
    rw [he]
    refine ⟨h.txNext, h.txNextAck, (h.live.sublist ?_).same hsame, h.sdus.sublist (hsub.map _), ?_,
      ?_, hws, hrs, hwo, hro, rfl, h.waitEnd⟩
    · exact (hsub.append_right tx.waitList).append_right tx.retransmitList
    · intro s hs
      show snOf (nrRlcFreeSduSegment tx.heap cur).2 s = -1
      rw [hsame.snOf]
      exact htail s hs
    · intro s hs
      show snOf (nrRlcFreeSduSegment tx.heap cur).2 s = -1 ∨
        snOf (nrRlcFreeSduSegment tx.heap cur).2 s = (tx.txNext - 1) % c.snModulus
      rw [hsame.snOf]
      rcases hhead s hs with hn | hm
      · exact Or.inl hn
      · exact h.head s hm

theorem txInv_empty (hc : c.Ok) (h1 : tx.txNext = 0) (h2 : tx.txNextAck = 0) (h3 : tx.txList = [])
    (h4 : tx.waitList = []) (h5 : tx.retransmitList = []) (h6 : tx.txEnd = none)
    (h7 : tx.waitEnd = none) : TxInv c [] tx := by
  have h0 : InRange c.snModulus 0 := ⟨le_rfl, hc.modulus_pos⟩
  have hlive : tx.live = [] := by rw [TxState.live, h3, h4, h5]; rfl
  refine ⟨by rw [h1]; exact h0, by rw [h2]; exact h0, ?_, by rw [h3]; exact List.nodup_nil,
    by rw [h3]; simp, by rw [h3]; simp, by rw [h4]; simp, by rw [h5]; simp,
    by rw [h4]; exact sortedBy_nil _, by rw [h5]; exact sortedBy_nil _, by rw [h6, h3]; rfl,
    by rw [h7, h4]; rfl⟩
  rw [hlive]
  exact ⟨by simp, List.Pairwise.nil, by simp, by simp⟩

end

end OaiGnb.Rlc.Am
