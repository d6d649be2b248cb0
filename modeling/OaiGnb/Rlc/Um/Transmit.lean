import OaiGnb.Rlc.Um.Accounting

/-!
# The UM transmitter loses nothing

The PDUs of a run are parsed with the receiver's own header decoder and collected in the order
they were generated; `collectPiece` accepts a piece only where it continues the SDU that is being
collected, under the same SN and without a gap.

* `parsePdu_serializeSdu`: what `serialize_sdu` writes is parsed back.
* `TraceInv`: the SDUs collected so far, followed by those in `tx_list`, are the accepted SDUs.
* `reachable_losesNothing`: this holds in every run in which no call loses the head of `tx_list`.
-/

namespace OaiGnb.Rlc.Um

open BitField Run

/-! ### Parsing -/

/-- What a PDU carries.  A complete SDU is sent without an SN. -/
structure Piece where
  sn : Option ℕ
  so : ℕ
  isFirst : Bool
  isLast : Bool
  data : List UInt8
  deriving Repr, DecidableEq

/-- Parse a PDU with the decoder of `nr_rlc_entity_um_recv_pdu`. -/
def parsePdu (c : Config) (pdu : List UInt8) : Option Piece := do
  let (isFirst, isLast, d) ← decodeSi (Decoder.init pdu)
  if isFirst && isLast then return ⟨none, 0, isFirst, isLast, pdu.drop 1⟩
  else do
    let h ← decodeHeader c isFirst isLast d
    return ⟨some h.sn, h.so, h.isFirst, h.isLast, pdu.drop h.byte⟩

/-- The SDUs collected so far, and the SN and bytes of one that is not complete. -/
structure Collected where
  sdus : List (List UInt8)
  open? : Option (ℕ × List UInt8)
  deriving Repr, DecidableEq

/-- Add a piece; `none` when it does not continue what has been collected. -/
def collectPiece (st : Collected) (p : Piece) : Option Collected :=
  match st.open?, p.isFirst, p.sn with
  | none, true, none => if p.isLast then some ⟨st.sdus ++ [p.data], none⟩ else none
  | none, true, some sn => if p.isLast then none else some ⟨st.sdus, some (sn, p.data)⟩
  | some (sn, bytes), false, some sn' =>
      if sn' = sn ∧ p.so = bytes.length then
        if p.isLast then some ⟨st.sdus ++ [bytes ++ p.data], none⟩
        else some ⟨st.sdus, some (sn, bytes ++ p.data)⟩
      else none
  | _, _, _ => none

/-- Parse and collect PDUs in order. -/
def collect (c : Config) (pdus : List (List UInt8)) : Option Collected :=
  pdus.foldlM (fun st pdu => (parsePdu c pdu).bind (collectPiece st)) ⟨[], none⟩

variable {c : Config} {sdu s : Segment} {heap : Heap} {size : ℕ} {tx : TxState}
  {rest : List Segment} {buffer pdu : List UInt8}

theorem collect_concat {pdus : List (List UInt8)} {st : Collected}
    {p : Piece} (h : collect c pdus = some st) (hp : parsePdu c pdu = some p) :
    collect c (pdus ++ [pdu]) = collectPiece st p := by
  unfold collect at h ⊢
  simp_all

/-! ### The header round trip -/

/-- The header of a segment, as bits. -/
def headerBits (c : Config) (sn : ℕ) (sdu : Segment) : List Bool :=
  fieldBits 1 (1 - sdu.isFirst.toNat) ++ (fieldBits 1 (1 - sdu.isLast.toNat) ++
    ((if sdu.isFirst && sdu.isLast then fieldBits 6 0
      else (if c.snFieldLength = 12 then fieldBits 2 0 else []) ++ fieldBits c.snFieldLength sn) ++
      (if !sdu.isFirst then fieldBits 16 sdu.so else [])))

theorem headerBits_length (hc : c.snFieldLength = 6 ∨ c.snFieldLength = 12) (sn : ℕ)
    (sdu : Segment) : (headerBits c sn sdu).length = 8 * computePduHeaderSize c sdu := by
  unfold headerBits computePduHeaderSize
  rcases hc with hc | hc <;> cases sdu.isFirst <;> cases sdu.isLast <;> simp [hc]

theorem serializeHeader_writes (c : Config) (heap : Heap) (sdu : Segment) (bufsize : ℕ) :
    ∃ f, Writes (headerBits c (heap.sdu sdu.sdu).sn.toNat sdu) f ∧
      serializeHeader c heap sdu bufsize = f (Encoder.init bufsize) := by
  have hr : Writes (if c.snFieldLength = 12 then fieldBits 2 0 else []) (putReserved c) :=
    (writes_putBits 0 2).ite writes_nothing
  have hsn : Writes _ (putSn c (heap.sdu sdu.sdu).sn.toNat (sdu.isFirst && sdu.isLast)) :=
    (writes_putBits 0 6).ite (hr.bind (writes_putBits _ _))
  have hso : Writes _ (putSo sdu) := (writes_putBits sdu.so 16).ite writes_nothing
  exact ⟨_, (writes_putBits _ 1).bind ((writes_putBits _ 1).bind (hsn.bind hso)), rfl⟩

variable {d : Decoder} {tail : List Bool}

theorem decodeSi_eq {f l : Bool} (hb : d.bit < 8)
    (h : d.rest = fieldBits 1 (1 - f.toNat) ++ (fieldBits 1 (1 - l.toNat) ++ tail)) :
    ∃ d', d.Skips d' 2 ∧ d'.rest = tail ∧ decodeSi d = some (f, l, d') := by
  have hsi : fieldBits 1 (1 - f.toNat) ++ fieldBits 1 (1 - l.toNat)
      = fieldBits 2 (2 * (1 - f.toNat) + (1 - l.toNat)) := by
    cases f <;> cases l <;> rfl
  rw [← List.append_assoc, hsi] at h
  obtain ⟨d', hs, hr, hg⟩ := getBits_field hb h (by cases f <;> cases l <;> decide)
  refine ⟨d', hs, hr, ?_⟩
  rw [decodeSi, hg]
  cases f <;> cases l <;> rfl

/-- What a segment carries. -/
def pieceOf (sn : ℕ) (data : List UInt8) (sdu : Segment) : Piece :=
  ⟨if sdu.isFirst && sdu.isLast then none else some sn, sdu.so, sdu.isFirst, sdu.isLast,
    (data.drop sdu.so).take sdu.size⟩

/-- The fields of a segment that its header can hold. -/
structure Encodable (c : Config) (sn : ℕ) (sdu : Segment) : Prop where
  length : c.snFieldLength = 6 ∨ c.snFieldLength = 12
  sn : sn < 2 ^ c.snFieldLength
  so : sdu.so < 2 ^ 16
  isFirst : sdu.isFirst = decide (sdu.so = 0)

variable {sn : ℕ}

theorem decodeHeader_eq (he : Encodable c sn sdu) (hp : d.pos = 2) (hb : d.bit < 8)
    (h : d.rest = ((if c.snFieldLength = 12 then fieldBits 2 0 else []) ++
      fieldBits c.snFieldLength sn) ++ ((if !sdu.isFirst then fieldBits 16 sdu.so else []) ++ tail))
    (hns : (sdu.isFirst && sdu.isLast) = false) :
    decodeHeader c sdu.isFirst sdu.isLast d =
      some ⟨sdu.isFirst, sdu.isLast, sn, sdu.so, computePduHeaderSize c sdu⟩ := by
  -- the two reserved bits that a long SN is aligned with
  obtain ⟨d₁, hs1, hr1, hg1⟩ : ∃ d₁, d.Skips d₁ (if c.snFieldLength = 12 then 2 else 0) ∧
      d₁.rest = fieldBits c.snFieldLength sn ++
        ((if !sdu.isFirst then fieldBits 16 sdu.so else []) ++ tail) ∧
      skipReserved c d = some d₁ := by
    unfold skipReserved
    by_cases h12 : c.snFieldLength = 12
    · simp only [if_pos h12, List.append_assoc] at h ⊢
      grind [getBits_field]
    · simp only [if_neg h12, List.nil_append] at h ⊢
      exact ⟨d, ⟨rfl, rfl, hb⟩, h, rfl⟩
  obtain ⟨d₂, hs2, hr2, hg2⟩ := getBits_field hs1.bit hr1 he.sn
  have hs12 := hs1.trans hs2
  cases hf : sdu.isFirst with
  | true =>
    have hso : sdu.so = 0 := by simpa [hf] using he.isFirst
    have hl : sdu.isLast = false := by simpa [hf] using hns
    have hbyte : d₂.byte = computePduHeaderSize c sdu := by
      rw [hs12.byte, hp, computePduHeaderSize]
      rcases he.length with hc | hc <;> simp [hc, hf, hl]
    simp [decodeHeader, hg1, hg2, hbyte, hso]
  | false =>
    have hso : sdu.so ≠ 0 := by simpa [hf] using he.isFirst
    simp only [hf, Bool.not_false, if_true] at hr2
    obtain ⟨d₃, hs3, hr3, hg3⟩ := getBits_field hs2.bit hr2 he.so
    have hbyte : d₃.byte = computePduHeaderSize c sdu := by
      rw [(hs12.trans hs3).byte, hp, computePduHeaderSize]
      rcases he.length with hc | hc <;> simp [hc, hf]
    simp [decodeHeader, hg1, hg2, hg3, hbyte, hso]

/-- **What `serialize_sdu` writes is parsed back.** -/
theorem parsePdu_serializeSdu (he : Encodable c (heap.sdu sdu.sdu).sn.toNat sdu)
    (hroom : computePduHeaderSize c sdu ≤ size) :
    ∃ pdu, serializeSdu c heap sdu size = .ok pdu ∧
      pdu.length = computePduHeaderSize c sdu +
        (((heap.sdu sdu.sdu).data.drop sdu.so).take sdu.size).length ∧
      parsePdu c pdu = some (pieceOf (heap.sdu sdu.sdu).sn.toNat (heap.sdu sdu.sdu).data sdu) := by
  obtain ⟨f, hf, hser⟩ := serializeHeader_writes c heap sdu size
  obtain ⟨e, h1, hbits, hlen⟩ := hf.header (headerBits_length he.length _ sdu) hroom
  refine ⟨e.buffer ++ ((heap.sdu sdu.sdu).data.drop sdu.so).take sdu.size, ?_, ?_, ?_⟩
  · simp only [serializeSdu, hser, h1, ok_bind, pure_eq_ok]
  · rw [List.length_append, hlen]
  · generalize hp : ((heap.sdu sdu.sdu).data.drop sdu.so).take sdu.size = payload
    have hrest : (Decoder.init (e.buffer ++ payload)).rest =
        headerBits c (heap.sdu sdu.sdu).sn.toNat sdu ++ bytesBits payload := by
      rw [Decoder.init_rest, bytesBits_append, hbits]
    simp only [headerBits, List.append_assoc] at hrest
    obtain ⟨d', hs, hr, hsi⟩ := decodeSi_eq (Nat.zero_lt_succ 7) hrest
    have hdrop : (e.buffer ++ payload).drop (computePduHeaderSize c sdu) = payload := by
      rw [← hlen, List.drop_left]
    simp only [parsePdu, hsi, Option.bind_eq_bind, Option.bind_some, pieceOf, hp]
    cases hfl : (sdu.isFirst && sdu.isLast) with
    | true =>
      obtain ⟨h1, h2⟩ := Bool.and_eq_true_iff.mp hfl
      have hso : sdu.so = 0 := by simpa [h1] using he.isFirst
      grind [computePduHeaderSize]
    | false =>
      rw [hfl] at hr
      have hdec := decodeHeader_eq he (by rw [hs.pos, Decoder.init_pos])
        hs.bit (by simpa using hr) hfl
      simp [hdec, hdrop]

/-! ### Runs of the transmitter -/

/-- An entity with the SDUs it has accepted and the PDUs it has generated. -/
structure Trace where
  entity : Entity
  accepted : List (List UInt8)
  sent : List (List UInt8)

/-- The SDU accepted by a call. -/
def acceptedBy (e : Entity) : Input → List (List UInt8)
  | .recvSdu buffer _ => if Accepts e.cfg e.tx buffer then [buffer] else []
  | _ => []

/-- One call, recorded. -/
def Trace.step (t : Trace) (i : Input) : Except Fault (Trace × Output) := do
  let (e, o) ← Um.step t.entity i
  return (⟨e, t.accepted ++ acceptedBy t.entity i,
    t.sent ++ (if o.pdu = [] then [] else [o.pdu])⟩, o)

/-- The calls of a transmitting user: `recv_sdu` of SDUs that have bytes, and `generate_pdu`. -/
def Transmits : Input → Prop
  | .recvSdu buffer _ => 1 ≤ buffer.length
  | .generatePdu _ => True
  | _ => False

/-- The call takes the head of `tx_list` off the list and sends nothing. -/
def CallLosesHead (e : Entity) : Input → Prop
  | .generatePdu size => LosesHead e.cfg e.tx size
  | _ => False

/-- The SDU of a segment. -/
def sduData (heap : Heap) (s : Segment) : List UInt8 := (heap.sdu s.sdu).data

/-- The SN and the sent bytes of an SDU whose last segment is still in `tx_list`. -/
def TxState.openSdu (tx : TxState) : Option (ℕ × List UInt8) :=
  match tx.txList with
  | [] => none
  | s :: _ =>
      if s.isFirst then none else some (tx.txNext.toNat, (sduData tx.heap s).take s.so)

/-- **The PDUs carry the accepted SDUs.**  Parsed in order they give complete SDUs and the sent
part of the one at the head of `tx_list`; these SDUs, followed by those in `tx_list`, are the
accepted ones.  When `tx_list` is empty the PDUs carry exactly the accepted SDUs. -/
def InOrder (t : Trace) : Prop :=
  ∃ sdus, collect t.entity.cfg t.sent = some ⟨sdus, t.entity.tx.openSdu⟩ ∧
    t.accepted = sdus ++ t.entity.tx.txList.map (sduData t.entity.tx.heap)

/-- A `generate_pdu` call returns at most `size` bytes, and leaves `tx_list` and the counters
alone when it returns 0. -/
def ReturnsRight (e : Entity) (size : ℕ) : Prop :=
  ∃ e' o, step e (.generatePdu size) = .ok (e', o) ∧ o.pdu.length ≤ size ∧
    (o.pdu = [] → e'.tx.txList = e.tx.txList ∧ e'.tx.txSize = e.tx.txSize ∧
      e'.tx.bstatusTxSize = e.tx.bstatusTxSize)

/-! ### What one PDU adds -/

variable {seg : Segment}

theorem collectPiece_pieceOf {data : List UInt8}
    {sdus : List (List UInt8)} (hfirst : seg.isFirst = decide (seg.so = 0))
    (hlen : seg.so + seg.size ≤ data.length)
    (hlast : seg.isLast = true → seg.so + seg.size = data.length) :
    collectPiece ⟨sdus, if seg.isFirst then none else some (sn, data.take seg.so)⟩
        (pieceOf sn data seg) =
      some (if seg.isLast then ⟨sdus ++ [data], none⟩
        else ⟨sdus, some (sn, data.take (seg.so + seg.size))⟩) := by
  have hcat : data.take seg.so ++ (data.drop seg.so).take seg.size
      = data.take (seg.so + seg.size) := List.take_add.symm
  have htake : (data.take seg.so).length = seg.so := List.length_take_of_le (by omega)
  cases hf : seg.isFirst with
  | true =>
    grind [collectPiece, pieceOf]
  | false =>
    grind [List.take_length, collectPiece, pieceOf]

/-- A segment of `tx_list`: the not yet sent end of its SDU. -/
structure Pending (heap : Heap) (s : Segment) : Prop where
  alloc : s.sdu < heap.sduTop
  size : 0 < s.size
  bytes : s.so + s.size = (sduData heap s).length
  isFirst : s.isFirst = decide (s.so = 0)
  isLast : s.isLast = true
  max : (sduData heap s).length ≤ nrSduMax

/-- The invariant of the transmitting side. -/
structure TxInv (c : Config) (tx : TxState) : Prop where
  length : c.snFieldLength = 6 ∨ c.snFieldLength = 12
  modulus : c.snModulus = 2 ^ c.snFieldLength
  txNext : 0 ≤ tx.txNext ∧ tx.txNext < c.snModulus
  pending : ∀ s ∈ tx.txList, Pending tx.heap s
  unsent : ∀ s ∈ tx.txList.tail, s.isFirst = true
  wf : tx.WF

theorem TxInv.txNext_lt (h : TxInv c tx) :
    tx.txNext.toNat < 2 ^ c.snFieldLength := by
  have h1 := h.txNext.1
  have h2 := h.txNext.2
  rw [h.modulus] at h2
  simp_all

/-- Two heaps with the same SDUs, counters and SNs aside. -/
structure SameData (heap heap' : Heap) : Prop where
  data : ∀ i, (heap'.sdu i).data = (heap.sdu i).data
  sduTop : heap'.sduTop = heap.sduTop

theorem SameData.trans {h₁ h₂ h₃ : Heap} (h : SameData h₁ h₂) (h' : SameData h₂ h₃) :
    SameData h₁ h₃ :=
  ⟨fun i => (h'.data i).trans (h.data i), h'.sduTop.trans h.sduTop⟩

theorem sameData_modify (heap : Heap) (i : ℕ) {f : Sdu → Sdu} (hf : ∀ s, (f s).data = s.data) :
    SameData heap (heap.modify i f) :=
  ⟨fun j => heap.modify_field i j Sdu.data hf, rfl⟩

theorem sameData_free (heap : Heap) (s : Segment) :
    SameData heap (nrRlcFreeSduSegment heap s).2 :=
  sameData_modify heap s.sdu (f := fun s => { s with freeCount := s.freeCount + 1 }) (fun _ => rfl)

variable {heap' : Heap}

theorem SameData.sduData (h : SameData heap heap') :
    sduData heap' = sduData heap :=
  funext fun s => h.data s.sdu

theorem SameData.pending (h : SameData heap heap') (hp : Pending heap s) : Pending heap' s :=
  ⟨h.sduTop ▸ hp.alloc, hp.size, by rw [h.sduData]; exact hp.bytes, hp.isFirst, hp.isLast,
    by rw [h.sduData]; exact hp.max⟩

theorem sameData_pop (c : Config) (tx : TxState) (sdu : Segment) (rest : List Segment) :
    SameData tx.heap (tx.pop c sdu rest).heap :=
  sameData_modify tx.heap sdu.sdu (f := fun s => { s with sn := tx.txNext }) (fun _ => rfl)

theorem sameData_split (c : Config) (tx : TxState) (sdu : Segment) (rest : List Segment)
    (size : ℕ) : SameData tx.heap (tx.split c sdu rest size).heap := by
  have h := sameData_modify (tx.pop c sdu rest).heap sdu.sdu
    (f := fun s => { s with refCount := s.refCount + 1 }) (fun _ => rfl)
  exact (sameData_pop c tx sdu rest).trans ⟨h.data, rfl⟩

theorem transmitSegment_sends (tx : TxState) (seg : Segment)
    (he : Encodable c (tx.heap.sdu seg.sdu).sn.toNat seg)
    (hroom : computePduHeaderSize c seg + seg.size ≤ size)
    (hlen : seg.so + seg.size ≤ (sduData tx.heap seg).length) :
    ∃ pdu, transmitSegment c tx seg size = .ok (tx.sent c seg, pdu) ∧
      pdu.length = computePduHeaderSize c seg + seg.size ∧
      parsePdu c pdu =
        some (pieceOf (tx.heap.sdu seg.sdu).sn.toNat (sduData tx.heap seg) seg) := by
  obtain ⟨pdu, h1, h2, h3⟩ := parsePdu_serializeSdu he
    (show computePduHeaderSize c seg ≤ size by omega)
  grind [List.length_take, List.length_drop, sduData, transmitSegment_eq, ok_bind]

/-- What is sent of a head that is split, and what is left of it. -/
theorem transmitSegment_split (rest : List Segment)
    (hbytes : sdu.so + sdu.size = (sduData tx.heap sdu).length)
    (hbig : size < computePduHeaderSize c sdu + sdu.size)
    (hroom : splitHeaderSize c sdu + 1 ≤ size) (he : Encodable c tx.txNext.toNat sdu) :
    let head := splitHead c sdu size
    let next := splitNext c (tx.pop c sdu rest).heap sdu size
    ∃ pdu, transmitSegment c (tx.split c sdu rest size) head size
        = .ok ((tx.split c sdu rest size).sent c head, pdu) ∧
      SameData tx.heap ((tx.split c sdu rest size).sent c head).heap ∧
      pdu.length ≤ size ∧ pdu ≠ [] ∧
      parsePdu c pdu = some (pieceOf tx.txNext.toNat (sduData tx.heap sdu) head) ∧
      next.so + next.size = (sduData tx.heap sdu).length ∧ 0 < next.size ∧
      next.isFirst = decide (next.so = 0) := by
  intro head next
  have hsame := sameData_split c tx sdu rest size
  have hsn : ((tx.split c sdu rest size).heap.sdu head.sdu).sn = tx.txNext := by
    simp [TxState.split, splitHeap, TxState.pop, head, splitHead]
  have hsizes : head.size + next.size = sdu.size := split_sizes _ hroom hbig
  have hle := computePduHeaderSize_le_split c sdu
  have hnext : next.size = splitHeaderSize c sdu + sdu.size - size := rfl
  have hso : next.so = sdu.so + head.size := rfl
  have hhdr : computePduHeaderSize c head = splitHeaderSize c sdu := rfl
  have hin : sdu.so + head.size ≤ (sduData tx.heap sdu).length := by omega
  obtain ⟨pdu, h1, h2, h3⟩ := transmitSegment_sends (tx.split c sdu rest size) head
    (by rw [hsn]; exact { he with }) (show _ ≤ size by omega) (by rw [hsame.sduData]; exact hin)
  rw [hsn, hsame.sduData] at h3
  refine ⟨pdu, h1, hsame.trans (sameData_free _ head), by omega, ?_, h3, by omega, by omega, ?_⟩
  · rintro rfl
    rw [List.length_nil] at h2
    omega
  · exact (decide_eq_false (by omega)).symm

/-- What `generate_tx_pdu` leaves of the head of `tx_list` and what it sends, where it does not
lose the head. -/
structure Sends (c : Config) (tx : TxState) (size : ℕ) (tx' : TxState) (pdu : List UInt8)
    (seg : Segment) : Prop where
  inv : TxInv c tx'
  data : SameData tx.heap tx'.heap
  room : pdu.length ≤ size
  bytes : pdu ≠ []
  open? : tx.openSdu =
    if seg.isFirst then none else some (tx.txNext.toNat, (sduData tx.heap seg).take seg.so)
  parse : parsePdu c pdu = some (pieceOf tx.txNext.toNat (sduData tx.heap seg) seg)
  isFirst : seg.isFirst = decide (seg.so = 0)
  inside : seg.so + seg.size ≤ (sduData tx.heap seg).length
  last : seg.isLast = true → seg.so + seg.size = (sduData tx.heap seg).length ∧
    tx.txList.map (sduData tx.heap) = sduData tx.heap seg :: tx'.txList.map (sduData tx.heap) ∧
    tx'.openSdu = none
  notLast : seg.isLast = false →
    tx.txList.map (sduData tx.heap) = tx'.txList.map (sduData tx.heap) ∧
    tx'.openSdu = some (tx.txNext.toNat, (sduData tx.heap seg).take (seg.so + seg.size))

theorem TxInv.encodable (h : TxInv c tx)
    (hso : s.so ≤ nrSduMax) (hf : s.isFirst = decide (s.so = 0)) :
    Encodable c tx.txNext.toNat s :=
  ⟨h.length, h.txNext_lt, hso.trans_lt (by decide), hf⟩

theorem openSdu_cons (h : tx.txList = s :: rest) :
    tx.openSdu =
      if s.isFirst then none else some (tx.txNext.toNat, (sduData tx.heap s).take s.so) := by
  rw [TxState.openSdu, h]

theorem openSdu_none (h : ∀ s ∈ tx.txList, s.isFirst = true) :
    tx.openSdu = none := by
  unfold TxState.openSdu
  grind

theorem sent_txNext (hM : 0 < c.snModulus)
    (h : 0 ≤ tx.txNext ∧ tx.txNext < c.snModulus) (seg : Segment) :
    0 ≤ (tx.sent c seg).txNext ∧ (tx.sent c seg).txNext < c.snModulus := by
  unfold TxState.sent
  dsimp only
  split
  · exact ⟨Int.emod_nonneg _ (by omega), Int.emod_lt_of_pos _ hM⟩
  · exact h

theorem pop_sends (hi : TxInv c tx) (hl : tx.txList = sdu :: rest)
    (hroom : computePduHeaderSize c sdu + sdu.size ≤ size) :
    ∃ tx' pdu, transmitSegment c (tx.pop c sdu rest) sdu size = .ok (tx', pdu) ∧
      Sends c tx size tx' pdu sdu := by
  have hp := hi.pending sdu (by rw [hl]; exact List.mem_cons_self)
  have hM : 0 < c.snModulus := by rw [hi.modulus]; positivity
  have hsame := sameData_pop c tx sdu rest
  have hsn : ((tx.pop c sdu rest).heap.sdu sdu.sdu).sn = tx.txNext := by
    simp [TxState.pop]
  have hso : sdu.so ≤ nrSduMax := by have := hp.bytes; have := hp.max; omega
  obtain ⟨pdu, h1, h2, h3⟩ := transmitSegment_sends (tx.pop c sdu rest) sdu
    (by rw [hsn]; exact hi.encodable hso hp.isFirst) hroom (by rw [hsame.sduData, hp.bytes])
  have hsame' := hsame.trans (sameData_free (tx.pop c sdu rest).heap sdu)
  have hrest : ∀ s ∈ rest, s.isFirst = true := fun s hs => hi.unsent s (by rw [hl]; exact hs)
  rw [hsn, hsame.sduData] at h3
  refine ⟨_, pdu, h1, ⟨⟨hi.length, hi.modulus, ?_, ?_, ?_, ?_⟩, hsame', by omega, ?_,
    openSdu_cons hl, h3, hp.isFirst, hp.bytes.le, ?_, ?_⟩⟩
  · exact sent_txNext hM hi.txNext sdu
  · intro s hs
    exact hsame'.pending (hi.pending s (by rw [hl]; exact List.mem_cons_of_mem _ hs))
  · intro s hs
    exact hrest s (List.mem_of_mem_tail hs)
  · have hw := pop_wf (c := c) hi.wf hl
    exact ⟨hw.nodup, hw.tail, hw.alloc⟩
  · rintro rfl
    have := hp.size
    grind
  · intro _
    refine ⟨hp.bytes, ?_, openSdu_none hrest⟩
    rw [hl]
    rfl
  · intro hf
    rw [hp.isLast] at hf
    cases hf

theorem split_sends (hi : TxInv c tx) (hl : tx.txList = sdu :: rest)
    (hbig : size < computePduHeaderSize c sdu + sdu.size)
    (hroom : splitHeaderSize c sdu + 1 ≤ size) :
    ∃ tx' pdu, transmitSegment c (tx.split c sdu rest size) (splitHead c sdu size) size
        = .ok (tx', pdu) ∧ Sends c tx size tx' pdu (splitHead c sdu size) := by
  have hp := hi.pending sdu (by rw [hl]; exact List.mem_cons_self)
  have hM : 0 < c.snModulus := by rw [hi.modulus]; positivity
  have hso : sdu.so ≤ nrSduMax := by have := hp.bytes; have := hp.max; omega
  obtain ⟨pdu, h1, hsame, hlen, hne, hparse, hbytes, hpos, hfirst⟩ :=
    transmitSegment_split rest hp.bytes hbig hroom (hi.encodable hso hp.isFirst)
  have hrest : ∀ s ∈ rest, s.isFirst = true := fun s hs => hi.unsent s (by rw [hl]; exact hs)
  have hopen := openSdu_cons hl
  refine ⟨_, pdu, h1, ⟨⟨hi.length, hi.modulus, ?_, ?_, hrest, ?_⟩, hsame, hlen, hne,
    hopen, hparse, hp.isFirst, Nat.le.intro hbytes, ?_, ?_⟩⟩
  · exact sent_txNext hM hi.txNext (splitHead c sdu size)
  · intro s hs
    rcases List.mem_cons.mp hs with rfl | hs
    · exact hsame.pending ⟨hp.alloc, hpos, hbytes, hfirst, hp.isLast, hp.max⟩
    · exact hsame.pending (hi.pending s (by rw [hl]; exact List.mem_cons_of_mem _ hs))
  · have hw := split_wf (c := c) size hi.wf hl
    exact ⟨hw.nodup, hw.tail, hw.alloc⟩
  · intro hf
    cases hf
  · intro _
    refine ⟨by rw [hl]; rfl, ?_⟩
    have hlist : ((tx.split c sdu rest size).sent c (splitHead c sdu size)).txList
        = splitNext c (tx.pop c sdu rest).heap sdu size :: rest := rfl
    rw [openSdu_cons hlist, if_neg (by simp [splitNext])]
    have hnx : ((tx.split c sdu rest size).sent c (splitHead c sdu size)).txNext = tx.txNext := by
      simp [TxState.sent, splitHead, TxState.split, TxState.pop]
    rw [hnx, hsame.sduData]
    rfl

/-- **A `generate_pdu` call that loses nothing** returns; it changes nothing or sends a segment. -/
theorem generateTxPdu_sends (hi : TxInv c tx) (hok : ¬ LosesHead c tx size) :
    generateTxPdu c tx size = .ok (tx, []) ∨
    ∃ tx' pdu seg, generateTxPdu c tx size = .ok (tx', pdu) ∧ Sends c tx size tx' pdu seg := by
  grind [generateTxPdu_cases, absurd, losesHead_of_split, pop_sends, split_sends]

variable {e : Entity}

theorem returnsRight (hi : TxInv e.cfg e.tx)
    (hok : ¬ LosesHead e.cfg e.tx size) : ReturnsRight e size := by
  rcases generateTxPdu_sends hi hok with h | ⟨tx', pdu, seg, h, hs⟩
  · exact ⟨e, ⟨[], []⟩, by simp only [step, h, ok_bind, pure_eq_ok], Nat.zero_le _,
      fun _ => ⟨rfl, rfl, rfl⟩⟩
  · exact ⟨{ e with tx := tx' }, ⟨[], pdu⟩, by simp only [step, h, ok_bind, pure_eq_ok], hs.room,
      fun hnil => absurd hnil hs.bytes⟩

theorem Sends.inOrder {tx' : TxState}
    (hs : Sends t.entity.cfg t.entity.tx size tx' pdu seg) (h : InOrder t) :
    InOrder ⟨{ t.entity with tx := tx' }, t.accepted, t.sent ++ [pdu]⟩ := by
  obtain ⟨sdus, hc, ha⟩ := h
  rw [hs.open?] at hc
  have hstep := (collect_concat hc hs.parse).trans
    (collectPiece_pieceOf hs.isFirst hs.inside (fun hl => (hs.last hl).1))
  cases hl : seg.isLast with
  | true =>
    obtain ⟨_, hmap, hopen⟩ := hs.last hl
    refine ⟨sdus ++ [sduData t.entity.tx.heap seg], ?_, ?_⟩
    · simpa only [hl, if_true, hopen] using hstep
    · simpa only [hs.data.sduData, hmap, List.append_assoc, List.cons_append,
        List.nil_append] using ha
  | false =>
    obtain ⟨hmap, hopen⟩ := hs.notLast hl
    refine ⟨sdus, ?_, ?_⟩
    · simp_all
    · simpa only [hs.data.sduData, hmap] using ha

/-! ### Accepting an SDU -/

theorem sduData_push {sduId : ℤ} (h : s.sdu < tx.heap.sduTop) :
    sduData (tx.push c buffer sduId).heap s = sduData tx.heap s := by
  simp [sduData, TxState.push, nrRlcNewSdu, Function.update_of_ne (Nat.ne_of_lt h)]

theorem push_inv (sduId : ℤ)
    (hi : TxInv c tx) (hpos : 1 ≤ buffer.length) (hmax : buffer.length ≤ nrSduMax) :
    TxInv c (tx.push c buffer sduId) := by
  refine ⟨hi.length, hi.modulus, hi.txNext, ?_, ?_, push_wf c buffer sduId hi.wf⟩
  · intro s hs
    rcases List.mem_append.mp hs with hs | hs
    · have hp := hi.pending s hs
      refine ⟨Nat.lt_succ_of_lt hp.alloc, hp.size, ?_, hp.isFirst, hp.isLast, ?_⟩
      · rw [sduData_push hp.alloc]; exact hp.bytes
      · rw [sduData_push hp.alloc]; exact hp.max
    · obtain rfl : s = (nrRlcNewSdu tx.heap buffer sduId).1 := List.mem_singleton.mp hs
      have hd : sduData (tx.push c buffer sduId).heap (nrRlcNewSdu tx.heap buffer sduId).1
          = buffer := by
        simp [sduData, TxState.push, nrRlcNewSdu]
      refine ⟨Nat.lt_succ_self _, hpos, ?_, rfl, rfl, by rw [hd]; exact hmax⟩
      simp_all
  · intro s hs
    cases hl : tx.txList with
    | nil => simp [TxState.push, hl] at hs
    | cons a rest =>
      have hs' : s ∈ rest ++ [(nrRlcNewSdu tx.heap buffer sduId).1] := by
        simpa [TxState.push, hl] using hs
      rcases List.mem_append.mp hs' with hs' | hs'
      · exact hi.unsent s (by rw [hl]; exact hs')
      · simp only [List.mem_singleton] at hs'
        subst hs'
        rfl

theorem push_inOrder (sduId : ℤ) (hi : TxInv t.entity.cfg t.entity.tx) (h : InOrder t) :
    InOrder ⟨{ t.entity with tx := t.entity.tx.push t.entity.cfg buffer sduId },
      t.accepted ++ [buffer], t.sent⟩ := by
  obtain ⟨sdus, hc, ha⟩ := h
  have hopen : (t.entity.tx.push t.entity.cfg buffer sduId).openSdu = t.entity.tx.openSdu := by
    cases hl : t.entity.tx.txList with
    | nil =>
      grind [nrRlcNewSdu, TxState.push, openSdu_cons, TxState.openSdu]
    | cons s rest =>
      have : (t.entity.tx.push t.entity.cfg buffer sduId).txList
          = s :: (rest ++ [(nrRlcNewSdu t.entity.tx.heap buffer sduId).1]) := by
        simp [TxState.push, hl]
      have halloc := (hi.pending s (by rw [hl]; exact List.mem_cons_self)).alloc
      rw [openSdu_cons this, openSdu_cons hl, sduData_push halloc]
      rfl
  have hmap : t.entity.tx.txList.map
      (sduData (t.entity.tx.push t.entity.cfg buffer sduId).heap)
      = t.entity.tx.txList.map (sduData t.entity.tx.heap) :=
    List.map_congr_left fun s hs => sduData_push (hi.pending s hs).alloc
  refine ⟨sdus, hc.trans (by rw [hopen]), ?_⟩
  simp_all [nrRlcNewSdu, List.map_append, List.append_assoc, sduData, TxState.push]

/-! ### Runs -/

/-- The invariant of a recorded run. -/
structure TraceInv (t : Trace) : Prop where
  tx : TxInv t.entity.cfg t.entity.tx
  order : InOrder t

variable {t : Trace}

/-- **One call.** -/
theorem traceStep_inv {t' : Trace} {i : Input} {o : Output} (hi : TraceInv t)
    (htr : Transmits i) (hok : ¬ CallLosesHead t.entity i) (h : t.step i = .ok (t', o)) :
    TraceInv t' := by
  obtain ⟨⟨e, o'⟩, hstep, rfl, rfl⟩ := bind_pair_inj h
  cases i with
  | recvSdu buffer sduId =>
    obtain ⟨tx, h1, rfl, rfl⟩ := bind_pair_inj hstep
    rcases recvSdu_cases hi.tx.wf h1 with ⟨hrej, rfl⟩ | ⟨hacc, hmax, rfl⟩
    · simpa only [acceptedBy, if_neg hrej, if_true, List.append_nil] using hi
    · simp only [acceptedBy, if_pos hacc, if_true, List.append_nil]
      exact ⟨push_inv sduId hi.tx htr hmax, push_inOrder sduId hi.tx hi.order⟩
  | generatePdu size =>
    obtain ⟨⟨tx, pdu⟩, h1, rfl, rfl⟩ := bind_pair_inj hstep
    rcases generateTxPdu_sends hi.tx hok with h | ⟨tx', pdu', seg, h, hs⟩
    · obtain ⟨rfl, rfl⟩ := ok_inj (h1.symm.trans h)
      simpa only [acceptedBy, if_true, List.append_nil] using hi
    · obtain ⟨rfl, rfl⟩ := ok_inj (h1.symm.trans h)
      simp only [acceptedBy, if_neg hs.bytes, List.append_nil]
      exact ⟨hs.inv, hs.inOrder hi.order⟩
  | recvPdu | setTime | discardSdu | reestablishment => exact htr.elim

theorem newNrRlcEntityUm_traceInv {rxMaxsize txMaxsize : ℤ} {tReassembly : UInt64}
    {snFieldLength : ℕ}
    (h : newNrRlcEntityUm rxMaxsize txMaxsize tReassembly snFieldLength = .ok e) :
    TraceInv ⟨e, [], []⟩ := by
  obtain ⟨hlen, rfl⟩ := newNrRlcEntityUm_eq h
  refine ⟨⟨hlen, rfl, ⟨le_rfl, ?_⟩, ?_, ?_, ⟨List.nodup_nil, rfl, ?_⟩⟩, ⟨[], rfl, rfl⟩⟩
  · show (0 : ℤ) < 2 ^ snFieldLength
    positivity
  all_goals exact List.forall_mem_nil _

/-- **The UM transmitter loses nothing.**  In every run of a new entity in which no call loses the
head of `tx_list`, the PDUs carry the accepted SDUs in order, and every further `generate_pdu`
call that does not lose the head returns at most `size` bytes and changes nothing when it
returns 0. -/
theorem reachable_losesNothing {rxMaxsize txMaxsize : ℤ} {tReassembly : UInt64}
    {snFieldLength : ℕ} {e₀ : Entity} {t : Trace}
    (h₀ : newNrRlcEntityUm rxMaxsize txMaxsize tReassembly snFieldLength = .ok e₀)
    (h : Reachable Trace.step (fun t i => Transmits i ∧ ¬ CallLosesHead t.entity i)
      ⟨e₀, [], []⟩ t) :
    InOrder t ∧ ∀ size, ¬ LosesHead t.entity.cfg t.entity.tx size → ReturnsRight t.entity size := by
  have hi := h.invariant TraceInv (newNrRlcEntityUm_traceInv h₀)
    (fun _ _ _ _ hi hg hs => traceStep_inv hi hg.1 hg.2 hs)
  exact ⟨hi.order, fun _ hok => returnsRight hi.tx hok⟩

/-- An SDU of four bytes sent by grants of four and five bytes: the two PDUs carry it. -/
theorem reachable_losesNothing_split :
    ∃ e₀ t, newNrRlcEntityUm 1000 1000 35 12 = .ok e₀ ∧
      Reachable Trace.step (fun t i => Transmits i ∧ ¬ CallLosesHead t.entity i) ⟨e₀, [], []⟩ t ∧
      t.sent.length = 2 ∧ t.entity.tx.txList = [] ∧ InOrder t := by
  have h₀ : newNrRlcEntityUm 1000 1000 35 12 = .ok (Entity.new (Config.new 1000 1000 35 12)) := rfl
  have h₁ : Reachable Trace.step (fun t i => Transmits i ∧ ¬ CallLosesHead t.entity i)
      ⟨Entity.new (Config.new 1000 1000 35 12), [], []⟩ _ :=
    .step (i := Input.recvSdu [1, 2, 3, 4] 7) .start ⟨Nat.succ_pos 3, id⟩ rfl
  have h₂ := Reachable.step (i := Input.generatePdu 4) h₁
    ⟨trivial, by rintro ⟨_, h, _⟩; cases h⟩ rfl
  have h₃ := Reachable.step (i := Input.generatePdu 6) h₂
    ⟨trivial, by rintro ⟨_, h, _⟩; cases h⟩ rfl
  exact ⟨_, _, h₀, h₃, rfl, rfl, (reachable_losesNothing h₀ h₃).1⟩

/-- **A complete SDU is lost.**  With 12-bit SNs a complete SDU of two bytes has a one-byte header,
so a grant of two bytes passes the first test; split it needs a header of two bytes and
`resegment` refuses, after the SDU has been taken off `tx_list`. -/
theorem not_losesNothing_of_small_grant :
    ¬ ∀ (rxMaxsize txMaxsize : ℤ) (tReassembly : UInt64) (snFieldLength : ℕ) (e₀ : Entity)
      (t : Trace), newNrRlcEntityUm rxMaxsize txMaxsize tReassembly snFieldLength = .ok e₀ →
      Reachable Trace.step (fun _ i => Transmits i) ⟨e₀, [], []⟩ t →
      InOrder t ∧ ∀ size, ReturnsRight t.entity size := by
  intro h
  have h₁ : Reachable Trace.step (fun _ i => Transmits i)
      ⟨Entity.new (Config.new 1000 1000 35 12), [], []⟩ _ :=
    .step (i := Input.recvSdu [1, 2] 7) .start (Nat.succ_pos 1) rfl
  obtain ⟨e', o, hs, _, hnil⟩ := (h 1000 1000 35 12 _ _ rfl h₁).2 2
  obtain ⟨rfl, rfl⟩ := ok_inj hs
  exact absurd (hnil rfl).1 (by decide)

end OaiGnb.Rlc.Um
